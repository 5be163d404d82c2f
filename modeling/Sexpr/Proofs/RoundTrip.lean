import Sexpr.Proofs.Atoms
import Sexpr.Proofs.Grammar
import Sexpr.Proofs.Lexing
import Sexpr.Proofs.Values

/-!
# Reading back what is rendered

A value is readable if the reader can produce it: it holds no primitive and no
foreign object, and its symbols have names that source text can spell. Main
statement: the written forms of values, with spaces between them, are read as those
values exactly if all of them are readable, and all that is ever read is readable.
-/
namespace Sexpr

/-! ## Readable values -/

/-- The text is the name of a symbol in source text: not empty, without blanks and
without characters that have a meaning of their own, none of the three words, and
no numeral. -/
structure IsName (text : String) : Prop where
  nonempty : text ≠ ""
  chars : ∀ c ∈ text.toList, Text.isBlank c = false ∧ c ∉ ['(', ')', '\'', '"', ';']
  noWord : text ∉ ["nil", "true", "false"]
  noNumeral : ¬Numeral.IsNumeral text.toList

namespace Value

/-- The value holds no primitive and no foreign object, and each symbol in it has the
name of one. -/
def Readable (value : Value) : Prop :=
  value.Every fun
    | .sym name => IsName name
    | .prim _ | .foreign _ => False
    | _ => True

end Value

theorem isAtomChar_iff (c : Char) :
    Token.isAtomChar c = true ↔
      Text.isBlank c = false ∧ c ∉ ['(', ')', '\'', '"', ';'] := by
  simp [Token.isAtomChar, and_assoc]

theorem isAtomChar_of_isDigit {c : Char} (h : c.isDigit = true) : Token.isAtomChar c = true := by
  rw [Char.isDigit_iff_toNat] at h
  have hlow : 48 ≤ c.toNat := h.1
  have hhigh : c.toNat ≤ 57 := h.2
  rw [isAtomChar_iff]
  constructor
  · simp only [Text.isBlank, Bool.or_eq_false_iff, Bool.and_eq_false_iff, beq_eq_false_iff_ne,
      decide_eq_false_iff_not]
    omega
  · intro hc
    simp only [List.mem_cons, List.not_mem_nil, or_false] at hc
    rcases hc with rfl | rfl | rfl | rfl | rfl <;> revert hlow hhigh <;> decide

/-! ## Atoms -/

namespace Value

/-- An atom is one of the three words, an integer, or the symbol of its name. -/
theorem ofAtom_readable {text : String} {value : Value} (h : ofAtom text = .ok value)
    (hspelling : Token.Spelling .atom text.toList) : value.Readable := by
  obtain ⟨hne, hchars⟩ := hspelling
  cases ofAtom_eq_iff.mp h with
  | nil | true | false | integer => simp [Readable]
  | symbol hword hnumeral =>
    refine ⟨?_, fun c hc => (isAtomChar_iff c).mp (hchars c hc), hword, hnumeral⟩
    rintro rfl
    exact hne rfl

theorem ofAtom_name {name : String} (h : IsName name) : ofAtom name = .ok (.sym name) :=
  ofAtom_eq_iff.mpr (.symbol h.noWord h.noNumeral)

end Value

/-! ## What is read is readable -/

section
variable {p : Value → Prop}

open Sexpr.Parser in
mutual

/-- What holds of strings and of whatever an atom stands for holds of the leaves of an
expression. -/
theorem Parser.every_of_derives (hstr : ∀ text, p (.str text))
    (hatom : ∀ text value, Value.ofAtom text = .ok value → Token.Spelling .atom text.toList →
      value.Every p) {tokens : List Token} {value : Value} :
    Derives tokens value → (∀ token ∈ tokens, token.Spelled) → value.Every p
  | @Derives.atom token _ hkind hvalue, hspelled => by
    have hspelling := hspelled token List.mem_cons_self
    rw [Token.Spelled, hkind] at hspelling
    exact hatom _ _ hvalue hspelling
  | .string _ _, _ => hstr _
  | .quote _ hinner, hspelled => by
    have hread := every_of_derives hstr hatom hinner fun token htoken =>
      hspelled token (List.mem_cons_of_mem _ htoken)
    simpa using hread
  | .list _ hitems _, hspelled => by
    have hread := everyEach_of_derivesEach hstr hatom hitems fun token htoken =>
      hspelled token (List.mem_cons_of_mem _ (List.mem_append_left _ htoken))
    simpa using hread

theorem Parser.everyEach_of_derivesEach (hstr : ∀ text, p (.str text))
    (hatom : ∀ text value, Value.ofAtom text = .ok value → Token.Spelling .atom text.toList →
      value.Every p) {tokens : List Token} {values : List Value} :
    DerivesEach tokens values → (∀ token ∈ tokens, token.Spelled) → ∀ value ∈ values, value.Every p
  | .nil, _ => nofun
  | @DerivesEach.cons front rest value values hvalue hvalues, hspelled => by
    rw [List.forall_mem_append] at hspelled
    rw [List.forall_mem_cons]
    exact ⟨every_of_derives hstr hatom hvalue hspelled.1,
      everyEach_of_derivesEach hstr hatom hvalues hspelled.2⟩

end

/-- The same for all that is read from a source, also if reading ends in an error. -/
theorem Source.every_of_reading (hstr : ∀ text, p (.str text))
    (hatom : ∀ text value, Value.ofAtom text = .ok value → Token.Spelling .atom text.toList →
      value.Every p) (source : String) :
    ∀ value ∈ (reading source).values, value.Every p := by
  obtain ⟨front, rest, htokens, hderives, _⟩ :=
    @Parser.exists_derivesEach (Token.lex source).error? [] [] (Token.lex source).tokens .nil
  refine Parser.everyEach_of_derivesEach hstr hatom hderives fun token htoken => ?_
  refine Token.lex_spelled source token ?_
  rw [← List.nil_append (Token.lex source).tokens, htokens]
  exact List.mem_append_left _ htoken

end

theorem Source.readable_of_reading (source : String) :
    ∀ value ∈ (reading source).values, value.Readable :=
  every_of_reading (fun _ => trivial) (fun _ _ => Value.ofAtom_readable) source

theorem Source.readable_of_readAll {source : String} {values : List Value}
    (h : readAll source = .ok values) : ∀ value ∈ values, value.Readable := by
  obtain ⟨_, rfl⟩ := readAll_eq_ok_iff.mp h
  exact readable_of_reading source

/-! ## What is written is read -/

/-- Whatever follows at a boundary, the characters make up the tokens of an expression
that stands for the value. -/
def Spells (chars : List Char) (value : Value) : Prop :=
  ∀ position rest, Token.Boundary rest → ∃ tokens, Parser.Derives tokens value ∧
    Token.lexFrom .between position (chars ++ rest) =
      (Token.lexFrom .between (position + chars.length) rest).prepend tokens

/-- The same for expressions one after the other. -/
def SpellsEach (chars : List Char) (values : List Value) : Prop :=
  ∀ position rest, Token.Boundary rest → ∃ tokens, Parser.DerivesEach tokens values ∧
    Token.lexFrom .between position (chars ++ rest) =
      (Token.lexFrom .between (position + chars.length) rest).prepend tokens

theorem spells_atom {text : String} {value : Value}
    (hspelling : Token.Spelling .atom text.toList) (hvalue : Value.ofAtom text = .ok value) :
    Spells text.toList value := by
  intro position rest hrest
  refine ⟨_, ?_, Token.lexFrom_atom hspelling.1 hspelling.2 hrest⟩
  exact .atom rfl (by simpa using hvalue)

theorem spells_word {text : String} {value : Value} (hne : text.toList ≠ [])
    (hchars : text.toList.all Token.isAtomChar = true) (hvalue : Value.ofAtom text = .ok value) :
    Spells text.toList value :=
  spells_atom ⟨hne, List.all_eq_true.mp hchars⟩ hvalue

theorem spells_quote {chars : List Char} {inner : Value} (h : Spells chars inner) :
    Spells ('\'' :: chars) (.quote inner) := by
  intro position rest hrest
  obtain ⟨tokens, hderives, hlex⟩ := h (position + 1) rest hrest
  refine ⟨_, @Parser.Derives.quote ⟨.quote, "'", position⟩ _ _ rfl hderives, ?_⟩
  rw [List.cons_append, Token.lexFrom_quote, hlex]
  simp [Nat.add_assoc, Nat.add_comm 1]

theorem spells_list {chars : List Char} {items : List Value} (h : SpellsEach chars items) :
    Spells ('(' :: (chars ++ [')'])) (.list items) := by
  intro position rest hrest
  -- The closing parenthesis is the boundary of the last item, whatever follows it.
  obtain ⟨tokens, hderives, hlex⟩ :=
    h (position + 1) (')' :: rest) (Token.boundary_cons (by decide))
  have hlist := @Parser.Derives.list ⟨.openParen, "(", position⟩
    ⟨.closeParen, ")", ↑(position + 1 + chars.length)⟩ _ _ rfl hderives rfl
  refine ⟨_, hlist, ?_⟩
  have hend : position + 1 + chars.length + 1 = position + (chars.length + 2) := by omega
  rw [List.cons_append, Token.lexFrom_open, List.append_assoc, List.singleton_append, hlex,
    Token.lexFrom_close, hend]
  simp

theorem spellsEach_nil : SpellsEach [] [] := by
  intro position rest _
  exact ⟨[], .nil, rfl⟩

theorem spellsEach_single {chars : List Char} {value : Value} (h : Spells chars value) :
    SpellsEach chars [value] := by
  intro position rest hrest
  obtain ⟨tokens, hderives, hlex⟩ := h position rest hrest
  exact ⟨tokens, .single hderives, hlex⟩

theorem spellsEach_cons {chars others : List Char} {value : Value} {values : List Value}
    (hvalue : Spells chars value) (hvalues : SpellsEach others values) :
    SpellsEach (chars ++ ' ' :: others) (value :: values) := by
  intro position rest hrest
  obtain ⟨tokens, hderives, hlex⟩ :=
    hvalue position (' ' :: (others ++ rest)) (Token.boundary_cons (by decide))
  obtain ⟨more, hmore, hlexMore⟩ := hvalues (position + chars.length + 1) rest hrest
  refine ⟨_, .cons hderives hmore, ?_⟩
  have hend : position + chars.length + 1 + others.length =
      position + (chars.length + (others.length + 1)) := by omega
  rw [List.append_assoc, List.cons_append, hlex, Token.lexFrom_space, hlexMore, hend]
  simp

theorem spells_string (text : String) :
    Spells (Text.Quoted.literal text).toList (.str text) := by
  intro position rest _
  have hliteral : (Text.Quoted.literal text).toList =
      '"' :: (Text.Quoted.encode text.toList ++ ['"']) := by
    simp [Text.Quoted.literal]
  refine ⟨[⟨.string, Text.Quoted.literal text, position⟩], .string rfl ?_, ?_⟩
  · have hbody : Token.body ⟨.string, Text.Quoted.literal text, position⟩ =
        Text.Quoted.encode text.toList := by
      simp [Token.body, hliteral]
    rw [decodeBody, hbody, Text.Quoted.decode_encode]
    simp
  · rw [hliteral, List.cons_append, List.append_assoc, List.singleton_append,
      Token.lexFrom_string (Text.Quoted.body_encode _)]
    simp [Text.Quoted.literal, Nat.add_assoc]

theorem spells_numeral {n : Int} {text : String} (h : Numeral.render n = .ok text) :
    Spells text.toList (.int n) := by
  have hvalue := Value.ofAtom_numeral (Numeral.parse?_render h)
  obtain ⟨-, rfl⟩ := Numeral.render_ok h
  obtain ⟨hne, hchars⟩ := Numeral.chars_toString n
  refine spells_atom ⟨hne, ?_⟩ hvalue
  intro c hc
  rcases hchars c hc with rfl | hdigit
  · decide
  · exact isAtomChar_of_isDigit hdigit

theorem renderEach_spells {room : Nat} {values : List Value} {texts : List String}
    (hvalues : ∀ value ∈ values, ∀ room text, value.render room = .ok text →
      Spells text.toList value)
    (h : Value.renderEach room values = .ok texts) :
    SpellsEach (" ".intercalate texts).toList values := by
  induction values generalizing texts with
  | nil =>
    cases h
    exact spellsEach_nil
  | cons value values ih =>
    rw [List.forall_mem_cons] at hvalues
    obtain ⟨text, others, htext, hothers, rfl⟩ := Value.renderEach_cons h
    have hfirst := hvalues.1 room text htext
    -- There is a space after a text only if another one follows.
    cases values with
    | nil =>
      cases hothers
      rw [String.intercalate_singleton]
      exact spellsEach_single hfirst
    | cons next values =>
      have hrest := ih hvalues.2 hothers
      obtain ⟨text', others', -, -, rfl⟩ := Value.renderEach_cons hothers
      rw [String.intercalate_cons_cons]
      simpa using spellsEach_cons hfirst hrest

/-- The written form of a readable value spells it. -/
theorem render_spells {value : Value} (h : value.Readable) :
    ∀ room text, value.render room = .ok text → Spells text.toList value := by
  induction value with
  | nil =>
    intro room text htext
    cases htext
    exact spells_word (by decide) (by decide) rfl
  | bool b =>
    intro room text htext
    cases b <;> cases htext <;> exact spells_word (by decide) (by decide) rfl
  | int n =>
    intro room text htext
    exact spells_numeral (Value.render_int htext)
  | str text' =>
    intro room text htext
    cases htext
    exact spells_string text'
  | sym name =>
    intro room text htext
    cases htext
    have hname : IsName name := h
    refine spells_atom ⟨?_, ?_⟩ (Value.ofAtom_name hname)
    · simpa using hname.nonempty
    · exact fun c hc => (isAtomChar_iff c).mpr (hname.chars c hc)
  | list items ih =>
    intro room text htext
    have hitems : ∀ item ∈ items, item.Readable := by simpa [Value.Readable] using h
    obtain ⟨inner, texts, htexts, rfl⟩ := Value.render_list htext
    have hspells := renderEach_spells (fun item hitem => ih item hitem (hitems item hitem)) htexts
    simpa using spells_list hspells
  | quote inner ih =>
    intro room text htext
    obtain ⟨room', text', htext', rfl⟩ := Value.render_quote htext
    simpa using spells_quote (ih h room' text' htext')
  | prim primitive => exact h.elim
  | foreign object => exact h.elim

theorem Source.readAll_of_spellsEach {text : String} {values : List Value}
    (h : SpellsEach text.toList values) : readAll text = .ok values := by
  obtain ⟨tokens, hderives, hlex⟩ := h 0 [] Token.boundary_nil
  have htokens : Token.lex text = ⟨tokens, none⟩ := by
    rw [List.append_nil] at hlex
    rw [Token.lex, hlex]
    simp [Token.lexFrom, Token.Mode.finish, Token.Supply.prepend]
  have hreading := Parser.parseAllFrom_derivesEach none hderives []
  rw [List.append_nil] at hreading
  rw [readAll_eq, reading, htokens, Parser.parseAll, hreading]
  simp [Parser.parseAllFrom, Parser.ending, Parser.finish, Parser.Reading.all]

/-! ## Reading single values -/

theorem Source.read_of_readAll {source : String} {value : Value}
    (h : readAll source = .ok [value]) : read source = .ok value := by
  rw [read, h]
  rfl

theorem Source.readAll_of_read {source : String} {value : Value}
    (h : read source = .ok value) : readAll source = .ok [value] := by
  unfold read at h
  obtain ⟨values, hvalues, h⟩ := bind_eq_ok_iff.mp h
  split at h
  · cases h
    exact hvalues
  · cases h

section
variable {value : Value} {room : Nat} {text : String}

/-- A readable value is read back from its written form. -/
theorem readAll_of_render (hvalue : value.Readable) (h : value.render room = .ok text) :
    Source.readAll text = .ok [value] :=
  Source.readAll_of_spellsEach (spellsEach_single (render_spells hvalue room text h))

theorem readAll_quoted (hvalue : value.Readable) (h : value.render room = .ok text) :
    Source.readAll ("'" ++ text) = .ok [.quote value] := by
  have hspells := spells_quote (render_spells hvalue room text h)
  exact Source.readAll_of_spellsEach (spellsEach_single (by simpa using hspells))

end

/-- The names that the reader produces are those that it reads as symbols. -/
theorem isName_iff_read {name : String} : IsName name ↔ Source.read name = .ok (.sym name) := by
  constructor
  · intro h
    have hvalue : (Value.sym name).Readable := h
    exact Source.read_of_readAll (@readAll_of_render _ 0 _ hvalue rfl)
  · intro h
    exact Source.readable_of_readAll (Source.readAll_of_read h) _ List.mem_cons_self

/-! ## The round trip -/

/-- Written forms with spaces between them are read as what they are the forms of,
exactly if that is readable. What is read from any source is readable, so each of its
values is read back from its written form. -/
theorem readAll_render_iff :
    (∀ room values texts, Value.renderEach room values = .ok texts →
      (Source.readAll (" ".intercalate texts) = .ok values ↔
        ∀ value ∈ values, value.Readable)) ∧
    ∀ source values, Source.readAll source = .ok values → ∀ value ∈ values,
      value.Readable ∧
        ∀ room text, value.render room = .ok text → Source.read text = .ok value := by
  constructor
  · intro room values texts htexts
    constructor
    · exact Source.readable_of_readAll
    · intro hreadable
      have hspells := renderEach_spells (fun value hvalue => render_spells (hreadable value hvalue))
        htexts
      exact Source.readAll_of_spellsEach hspells
  · intro source values hsource value hvalue
    have hreadable := Source.readable_of_readAll hsource value hvalue
    refine ⟨hreadable, ?_⟩
    intro room text htext
    exact Source.read_of_readAll (readAll_of_render hreadable htext)

/-- A list with a quoted string, a negative integer and an empty list in it comes back;
the symbol whose name is two words does not. -/
theorem readAll_render_sample :
    let values : List Value :=
      [.list [.sym "+", .quote (.str "a\"\n"), .int (-12), .list []], .bool true]
    Value.renderEach 10 values = .ok ["(+ '\"a\\\"\\n\" -12 ())", "true"] ∧
      Source.readAll "(+ '\"a\\\"\\n\" -12 ()) true" = .ok values ∧
      Source.read "true" = .ok (.bool true) ∧
      Value.renderEach 10 [.sym "a b"] = .ok ["a b"] ∧
      Source.readAll "a b" ≠ .ok [.sym "a b"] := by
  intro values
  have htexts : Value.renderEach 10 values = .ok ["(+ '\"a\\\"\\n\" -12 ())", "true"] := by
    have hfits : Numeral.fits (-12) = true := by decide +kernel
    simp only [values, Value.renderEach, Value.render, Unwritable.numeral_of_fits hfits]
    rfl
  have hreadable : ∀ value ∈ values, value.Readable := by
    have hchars : "+".toList.all Token.isAtomChar = true := by decide
    have hplus : IsName "+" :=
      ⟨by decide, fun c hc => (isAtomChar_iff c).mp (List.all_eq_true.mp hchars c hc), by decide,
        by rw [← Numeral.parse?_eq_none_iff]; rfl⟩
    simp [values, Value.Readable, hplus]
  have hsource := (readAll_render_iff.1 10 values _ htexts).mpr hreadable
  have hback := readAll_render_iff.2 _ values hsource (.bool true) (by simp [values])
  have hwords := (readAll_render_iff.1 10 [.sym "a b"] ["a b"] rfl).mp
  refine ⟨htexts, hsource, hback.2 10 "true" rfl, rfl, ?_⟩
  intro hread
  have hname : IsName "a b" := hwords hread _ List.mem_cons_self
  have hblank := (hname.chars ' ' (by decide)).1
  cases hblank

end Sexpr
