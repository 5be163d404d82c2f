import Sexpr.Proofs.Quoting
import Sexpr.Token.Lexer

/-!
# Tokens of source text

What the lexer makes of one token with other text after it, and what is true of
every token that it yields. A token ends on its own, except for an atom: it ends
where the text goes on with a character that no atom holds.
-/
namespace Sexpr.Token

/-! ## Supplies -/

/-- The supply with these tokens before it. -/
def Supply.prepend (tokens : List Token) (supply : Supply) : Supply :=
  { supply with tokens := tokens ++ supply.tokens }

@[simp] theorem Supply.prepend_nil (supply : Supply) : supply.prepend [] = supply := rfl

@[simp] theorem Supply.prepend_prepend (a b : List Token) (supply : Supply) :
    (supply.prepend b).prepend a = supply.prepend (a ++ b) := by
  simp [Supply.prepend]

@[simp] theorem Supply.tokens_prepend (tokens : List Token) (supply : Supply) :
    (supply.prepend tokens).tokens = tokens ++ supply.tokens := rfl

theorem lexFrom_cons (mode : Mode) (position : Nat) (c : Char) (rest : List Char) :
    lexFrom mode position (c :: rest) =
      (lexFrom (mode.step position c).2 (position + 1) rest).prepend (mode.step position c).1 :=
  rfl

/-! ## Single tokens -/

/-- The text goes on with a character that no atom holds, or ends. -/
def Boundary (rest : List Char) : Prop := ∀ c ∈ rest.head?, isAtomChar c = false

theorem boundary_nil : Boundary [] := nofun

theorem boundary_cons {c : Char} {rest : List Char} (h : isAtomChar c = false) :
    Boundary (c :: rest) := by
  intro c' hc'
  cases hc'
  exact h

theorem step_between (position : Nat) (c : Char) :
    Mode.between.step position c = Mode.begin position c := rfl

theorem step_atom_finish {start position : Nat} {chars : List Char} {c : Char}
    (h : isAtomChar c = false) :
    (Mode.atom start chars).step position c =
      (Mode.finished .atom start chars :: (Mode.begin position c).1,
        (Mode.begin position c).2) := by
  simp [Mode.step, h]

theorem begin_atomChar {position : Nat} {c : Char} (h : isAtomChar c = true) :
    Mode.begin position c = ([], .atom position [c]) := by
  simp only [isAtomChar, Bool.not_eq_true', Bool.or_eq_false_iff, beq_eq_false_iff_ne] at h
  obtain ⟨⟨⟨⟨⟨hblank, hopen⟩, hclose⟩, hquote⟩, hstring⟩, hcomment⟩ := h
  simp [Mode.begin, hblank, hopen, hclose, hquote, hstring, hcomment]

/-- The characters of an atom are collected. -/
theorem lexFrom_atom_collect {start : Nat} {chars w rest : List Char} (position : Nat)
    (h : ∀ c ∈ w, isAtomChar c = true) :
    lexFrom (.atom start chars) position (w ++ rest) =
      lexFrom (.atom start (w.reverse ++ chars)) (position + w.length) rest := by
  induction w generalizing position chars with
  | nil => rfl
  | cons c w ih =>
    rw [List.forall_mem_cons] at h
    rw [List.cons_append, lexFrom_cons, Mode.step, if_pos h.1, Supply.prepend_nil, ih _ h.2]
    simp [Nat.add_right_comm, Nat.add_assoc]

/-- An atom ends at a boundary. -/
theorem lexFrom_atom_finish {start position : Nat} {chars rest : List Char}
    (h : Boundary rest) :
    lexFrom (.atom start chars) position rest =
      (lexFrom .between position rest).prepend [Mode.finished .atom start chars] := by
  cases rest with
  | nil => rfl
  | cons c rest =>
    rw [lexFrom_cons, lexFrom_cons, step_atom_finish (h c rfl), step_between]
    simp

theorem lexFrom_atom {position : Nat} {w rest : List Char} (hne : w ≠ [])
    (h : ∀ c ∈ w, isAtomChar c = true) (hrest : Boundary rest) :
    lexFrom .between position (w ++ rest) =
      (lexFrom .between (position + w.length) rest).prepend
        [⟨.atom, String.ofList w, position⟩] := by
  cases w with
  | nil => exact absurd rfl hne
  | cons c w =>
    rw [List.forall_mem_cons] at h
    rw [List.cons_append, lexFrom_cons, step_between, begin_atomChar h.1, Supply.prepend_nil,
      lexFrom_atom_collect _ h.2, lexFrom_atom_finish hrest]
    simp [Mode.finished, Nat.add_right_comm, Nat.add_assoc]

/-- The body of a string literal is collected up to the closing quote. -/
theorem lexFrom_string_collect {start : Nat} {chars body rest : List Char} (position : Nat)
    (h : Text.Quoted.Body body) :
    lexFrom (.string start chars) position (body ++ '"' :: rest) =
      (lexFrom .between (position + body.length + 1) rest).prepend
        [Mode.finished .string start ('"' :: (body.reverse ++ chars))] := by
  induction h generalizing position chars with
  | nil => rfl
  | @plain c body hslash hquote _ ih =>
    rw [List.cons_append, lexFrom_cons, Mode.step, if_neg hslash, if_neg hquote,
      Supply.prepend_nil, ih]
    simp [Nat.add_right_comm, Nat.add_assoc]
  | @escape sign body _ ih =>
    rw [List.cons_append, List.cons_append, lexFrom_cons, Mode.step, if_pos rfl,
      Supply.prepend_nil, lexFrom_cons, Mode.step, Supply.prepend_nil, ih]
    simp [Nat.add_right_comm, Nat.add_assoc]

theorem lexFrom_string {position : Nat} {body rest : List Char} (h : Text.Quoted.Body body) :
    lexFrom .between position ('"' :: (body ++ '"' :: rest)) =
      (lexFrom .between (position + body.length + 2) rest).prepend
        [⟨.string, String.ofList ('"' :: (body ++ ['"'])), position⟩] := by
  have hbegin : Mode.begin position '"' = ([], .string position ['"']) := rfl
  have hend : position + 1 + body.length + 1 = position + body.length + 2 := by omega
  rw [lexFrom_cons, step_between, hbegin, Supply.prepend_nil, lexFrom_string_collect _ h, hend]
  simp [Mode.finished]

theorem lexFrom_quote (position : Nat) (rest : List Char) :
    lexFrom .between position ('\'' :: rest) =
      (lexFrom .between (position + 1) rest).prepend [⟨.quote, "'", position⟩] := rfl

theorem lexFrom_open (position : Nat) (rest : List Char) :
    lexFrom .between position ('(' :: rest) =
      (lexFrom .between (position + 1) rest).prepend [⟨.openParen, "(", position⟩] := rfl

theorem lexFrom_close (position : Nat) (rest : List Char) :
    lexFrom .between position (')' :: rest) =
      (lexFrom .between (position + 1) rest).prepend [⟨.closeParen, ")", position⟩] := rfl

theorem lexFrom_space (position : Nat) (rest : List Char) :
    lexFrom .between position (' ' :: rest) = lexFrom .between (position + 1) rest := rfl

/-! ## The tokens of a text -/

/-- The text of a token that the lexer yields. -/
def Spelling : Kind → List Char → Prop
  | .quote, text => text = ['\'']
  | .openParen, text => text = ['(']
  | .closeParen, text => text = [')']
  | .string, text => ∃ body, Text.Quoted.Body body ∧ text = '"' :: (body ++ ['"'])
  | .atom, text => text ≠ [] ∧ ∀ c ∈ text, isAtomChar c = true
  | .other _, _ => False

/-- The token is spelled as tokens of its kind are. -/
def Spelled (token : Token) : Prop := Spelling token.kind token.text.toList

/-- The characters of an unfinished token can be the beginning of one. -/
def Mode.Begun : Mode → Prop
  | .between | .comment => True
  | .atom _ chars => Spelling .atom chars.reverse
  | .string _ chars => ∃ body, Text.Quoted.Body body ∧ chars.reverse = '"' :: body
  | .escape _ chars => ∃ body, Text.Quoted.Body body ∧ chars.reverse = '"' :: (body ++ ['\\'])

theorem spelled_finished {kind : Kind} {start : Nat} {chars : List Char}
    (h : Spelling kind chars.reverse) : (Mode.finished kind start chars).Spelled := by
  simpa [Spelled, Mode.finished] using h

/-- A character that no token goes on with leaves spelled tokens. -/
theorem begin_begun (position : Nat) (c : Char) :
    (∀ token ∈ (Mode.begin position c).1, token.Spelled) ∧
      (Mode.begin position c).2.Begun := by
  by_cases hatom : isAtomChar c = true
  · rw [begin_atomChar hatom]
    simp [Mode.Begun, Spelling, hatom]
  -- The cases follow the order in which `begin` looks at the character.
  · unfold Mode.begin
    split
    · simp [Mode.Begun]
    split
    · simp [Mode.Begun]
    split
    · simp_all [Mode.Begun, Mode.finished, Spelled, Spelling]
    split
    · simp_all [Mode.Begun, Mode.finished, Spelled, Spelling]
    split
    · simp_all [Mode.Begun, Mode.finished, Spelled, Spelling]
    split
    · rename_i hstring
      exact ⟨by simp, [], .nil, by simp [hstring]⟩
    · simp_all [isAtomChar]

/-- One character keeps what is begun, and the tokens it completes are spelled. -/
theorem step_begun {mode : Mode} (h : mode.Begun) (position : Nat) (c : Char) :
    (∀ token ∈ (mode.step position c).1, token.Spelled) ∧ (mode.step position c).2.Begun := by
  cases mode with
  | between => exact begin_begun position c
  | comment =>
    simp only [Mode.step]
    split <;> simp [Mode.Begun]
  | atom start chars =>
    by_cases hc : isAtomChar c = true
    · obtain ⟨_, hchars⟩ := h
      rw [Mode.step, if_pos hc]
      refine ⟨by simp, by simp, ?_⟩
      intro c' hc'
      rw [List.reverse_cons, List.mem_append, List.mem_singleton] at hc'
      rcases hc' with hold | rfl
      · exact hchars c' hold
      · exact hc
    -- The character ends the atom and may begin the next token.
    · rw [step_atom_finish (by simpa using hc)]
      obtain ⟨htokens, hmode⟩ := begin_begun position c
      refine ⟨?_, hmode⟩
      rw [List.forall_mem_cons]
      exact ⟨spelled_finished h, htokens⟩
  | string start chars =>
    obtain ⟨body, hbody, hchars⟩ := h
    simp only [Mode.step]
    split
    · rename_i hslash
      exact ⟨by simp, body, hbody, by simp [hchars, hslash]⟩
    split
    · rename_i hquote
      refine ⟨?_, trivial⟩
      rw [List.forall_mem_singleton]
      exact spelled_finished ⟨body, hbody, by simp [hchars, hquote]⟩
    · rename_i hslash hquote
      exact ⟨by simp, body ++ [c], hbody.append (.plain hslash hquote .nil), by simp [hchars]⟩
  | escape start chars =>
    obtain ⟨body, hbody, hchars⟩ := h
    exact ⟨by simp [Mode.step], body ++ ['\\', c], hbody.append (.escape .nil),
      by simp [hchars]⟩

theorem lexFrom_spelled {mode : Mode} (h : mode.Begun) (position : Nat) (chars : List Char) :
    ∀ token ∈ (lexFrom mode position chars).tokens, token.Spelled := by
  induction chars generalizing mode position with
  | nil =>
    -- Of the tokens that are unfinished at the end, only an atom is one.
    cases mode with
    | atom start chars =>
      intro token htoken
      rw [List.mem_singleton.mp htoken]
      exact spelled_finished h
    | between | comment | string | escape => exact nofun
  | cons c rest ih =>
    obtain ⟨htokens, hmode⟩ := step_begun h position c
    intro token htoken
    rw [lexFrom_cons, Supply.tokens_prepend, List.mem_append] at htoken
    rcases htoken with hnew | hlater
    · exact htokens token hnew
    · exact ih hmode (position + 1) token hlater

/-- Every token of a source is spelled as tokens of its kind are. -/
theorem lex_spelled (source : String) : ∀ token ∈ (lex source).tokens, token.Spelled :=
  @lexFrom_spelled .between trivial 0 source.toList

end Sexpr.Token
