import Sexpr.Proofs.Atoms
import Sexpr.Proofs.Grammar
import Sexpr.Proofs.Layout

/-!
# What errors of reading point at

A token of a text stands in it, at its place. An error of reading is the fault of one of the
tokens, or of a quote that is not closed. Main statement: the place of an error is that of a
character in the text, and this character is the one that the error is about.
-/
namespace Sexpr

/-! ## Tokens in the text -/

namespace Token

/-- The text has the token in it, at its place. -/
def StandsIn (chars : List Char) (token : Token) : Prop :=
  ∃ front back, chars = front ++ (token.text.toList ++ back) ∧ token.position = front.length

theorem Layout.standsIn (layout : Layout) (front after : List Char) :
    ∀ token ∈ layout.tokens front.length, token.StandsIn (front ++ (layout.chars ++ after)) := by
  induction layout generalizing front with
  | finish gap => exact nofun
  | token gap kind spelling rest ih =>
    intro token htoken
    rw [tokens, List.mem_cons] at htoken
    rcases htoken with rfl | hlater
    · exact ⟨front ++ gap, rest.chars ++ after, by simp [chars], by simp⟩
    · have hrest := ih (front ++ gap ++ spelling) token (by simpa [Nat.add_assoc] using hlater)
      simpa [chars] using hrest

/-- The tokens of a source stand in it. -/
theorem standsIn_of_mem_lex (source : String) :
    ∀ token ∈ (lex source).tokens, token.StandsIn source.toList := by
  obtain ⟨layout, after, hvalid, hchars, hend⟩ := laidOut source.toList
  have htokens : (lex source).tokens = layout.tokens 0 := by
    rcases hend with rfl | hopen
    · rw [hvalid.lex_eq (by rw [hchars, List.append_nil])]
    · rw [hvalid.lex_eq_unclosed hchars hopen]
  rw [htokens, hchars]
  exact layout.standsIn [] after

/-- The characters of a token are characters of the text. -/
theorem StandsIn.char {chars : List Char} {token : Token} (h : token.StandsIn chars) {i : Nat}
    {c : Char} (hc : token.text.toList[i]? = some c) :
    ∃ n : Nat, (n : Int) = token.position + i ∧ chars[n]? = some c := by
  obtain ⟨front, back, rfl, hposition⟩ := h
  obtain ⟨hi, _⟩ := List.getElem?_eq_some_iff.mp hc
  refine ⟨front.length + i, by omega, ?_⟩
  rw [List.getElem?_append_right (Nat.le_add_right _ _), Nat.add_sub_cancel_left,
    List.getElem?_append_left hi, hc]

/-! ## Faults of tokens -/

/-- What can be wrong with a token. -/
inductive AtFault (token : Token) : ReadError → Prop where
  | atom {error} : token.kind = .atom → Value.ofAtom token.text = .error error →
      AtFault token error
  | string {error} : token.kind = .string →
      decodeBody (token.position + 1) token.body = .error error → AtFault token error
  /-- Nothing is quoted. -/
  | quote : token.kind = .quote → AtFault token (.malformed (.nothingToQuote token.position))
  /-- The list is not closed. -/
  | openParen : token.kind = .openParen →
      AtFault token (.malformed (.unmatchedOpen token.position))
  /-- No list is closed. -/
  | closeParen : token.kind = .closeParen →
      AtFault token (.malformed (.unexpectedClose token.position))
  | other {name} : token.kind = .other name →
      AtFault token (.malformed (.unknownToken name token.text token.position))

end Token

namespace Parser

variable {frames : List Frame} {before : List Token}

/-- A token that is refused is at fault itself. -/
theorem atFault_of_step {token : Token} {error : ReadError}
    (h : step frames token = .error error) : token.AtFault error := by
  unfold step at h
  split at h
  · rename_i hkind
    cases hvalue : Value.ofAtom token.text with
    | ok value => simp [hvalue, Functor.map, Except.map] at h
    | error fault =>
      rw [hvalue] at h
      cases h
      exact .atom hkind hvalue
  · rename_i hkind
    cases htext : decodeBody (token.position + 1) token.body with
    | ok text => simp [htext, bind, Except.bind, pure, Except.pure] at h
    | error fault =>
      rw [htext] at h
      cases h
      exact .string hkind htext
  · cases h
  · cases h
  · rename_i hkind
    split at h
    · cases h
    · cases h
      exact .closeParen hkind
  · rename_i hkind
    cases h
    exact .other hkind

/-- If frames are open at the end, the token that has opened the innermost is at fault. -/
theorem atFault_of_finish {error : SyntaxError} (h : Opened frames before)
    (hend : finish frames = some error) : ∃ token ∈ before, token.AtFault (.malformed error) := by
  cases h with
  | nil => cases hend
  | @quote _ _ token _ hkind =>
    cases hend
    exact ⟨token, by simp, .quote hkind⟩
  | @list _ _ token _ _ _ hkind _ =>
    cases hend
    exact ⟨token, by simp, .openParen hkind⟩

/-- A token is at fault, unless the tokens were cut short by an error. -/
theorem atFault_or_cut {error? : Option SyntaxError} {tokens : List Token} {error : ReadError}
    (h : Opened frames before) (herror : (parseAllFrom error? frames tokens).error? = some error) :
    (∃ token ∈ before ++ tokens, token.AtFault error) ∨
      ∃ cut, error? = some cut ∧ error = .malformed cut := by
  induction tokens generalizing frames before with
  | nil =>
    rw [parseAllFrom, Option.map_eq_some_iff] at herror
    obtain ⟨last, hend, rfl⟩ := herror
    cases error? with
    | some cut =>
      cases hend
      exact .inr ⟨last, rfl, rfl⟩
    | none =>
      obtain ⟨token, htoken, hfault⟩ := atFault_of_finish h hend
      exact .inl ⟨token, List.mem_append_left _ htoken, hfault⟩
  | cons token rest ih =>
    rw [parseAllFrom] at herror
    cases hstep : step frames token with
    | error fault =>
      rw [hstep] at herror
      cases herror
      exact .inl ⟨token, by simp, atFault_of_step hstep⟩
    | ok progress =>
      rw [hstep] at herror
      have hreached := step_reached h hstep
      cases progress with
      | complete value =>
        -- The tokens of the whole expression are done with.
        refine (ih .nil herror).imp_left ?_
        rintro ⟨culprit, hculprit, hfault⟩
        exact ⟨culprit, by simp_all, hfault⟩
      | pending frames => simpa using ih hreached herror

end Parser

theorem Source.atFault_or_unclosed {source : String} {error : ReadError}
    (h : Source.readAll source = .error error) :
    (∃ token ∈ (Token.lex source).tokens, token.AtFault error) ∨
      ∃ position : Nat, Token.UnclosedAt source.toList position ∧
        error = .malformed (.unterminatedString position) := by
  have herror : (Source.reading source).error? = some error := by
    rw [Source.readAll_eq] at h
    unfold Parser.Reading.all at h
    split at h
    · cases h
    · cases h
      assumption
  rcases Parser.atFault_or_cut .nil herror with hfault | ⟨cut, hcut, rfl⟩
  · exact .inl hfault
  · rcases Token.valid_or_unclosedAt source with ⟨layout, hvalid, hchars⟩ | ⟨position, hopen⟩
    · rw [hvalid.lex_eq hchars] at hcut
      cases hcut
    · obtain ⟨tokens, hlex, _⟩ := hopen.lex_eq
      rw [hlex] at hcut
      cases hcut
      exact .inr ⟨position, hopen, rfl⟩

/-! ## Culprits -/

/-- The error is at the character of the text that it is about. -/
inductive SyntaxError.PointsInto (source : String) : SyntaxError → Prop where
  | unterminatedString {n : Nat} : source.toList[n]? = some '"' →
      PointsInto source (.unterminatedString n)
  | nothingToQuote {n : Nat} : source.toList[n]? = some '\'' →
      PointsInto source (.nothingToQuote n)
  | unmatchedOpen {n : Nat} : source.toList[n]? = some '(' →
      PointsInto source (.unmatchedOpen n)
  | unexpectedClose {n : Nat} : source.toList[n]? = some ')' →
      PointsInto source (.unexpectedClose n)
  /-- After a backslash between the quotes of a string stands a sign without a meaning there. -/
  | unknownEscape {n : Nat} {token sign} : token ∈ (Token.lex source).tokens →
      token.kind = .string → token.position < n →
      (n + 1 : Int) < token.position + token.text.length - 1 →
      source.toList[n]? = some '\\' → source.toList[n + 1]? = some sign →
      sign ∉ ['n', 't', 'r', '"', '\\'] → PointsInto source (.unknownEscape sign (n + 1))

section
variable {source : String} {token : Token} {error : SyntaxError}

theorem Token.UnclosedAt.char {chars : List Char} {position : Nat}
    (h : UnclosedAt chars position) : chars[position]? = some '"' := by
  obtain ⟨layout, after, _, rfl, rfl, rest, rfl, _⟩ := h
  simp

/-- A token with an unknown escape in it has a backslash at the place before. -/
theorem Token.pointsInto_of_string (htoken : token ∈ (lex source).tokens)
    (hkind : token.kind = .string)
    (h : decodeBody (token.position + 1) token.body = .error (.malformed error)) :
    error.PointsInto source := by
  have hstands := standsIn_of_mem_lex source token htoken
  have hspelled := lex_spelled source token htoken
  unfold Spelled at hspelled
  rw [hkind] at hspelled
  obtain ⟨body, _, htext⟩ := hspelled
  have hbody : token.body = body := by simp [Token.body, htext]
  have hlength : token.text.length = body.length + 2 := by
    rw [← String.length_toList, htext]
    simp
  rw [hbody, decodeBody] at h
  split at h
  · cases h
  · rename_i sign index hdecode
    cases h
    obtain ⟨i, rfl, hslash, hsign, hnone⟩ := Text.Quoted.decodeFrom_unknownEscape hdecode
    have hi : i + 1 < body.length := (List.getElem?_eq_some_iff.mp hsign).1
    -- The body begins one character after the token.
    have hslash' : token.text.toList[i + 1]? = some '\\' := by
      rw [htext, List.getElem?_cons_succ, List.getElem?_append_left (by omega), hslash]
    have hsign' : token.text.toList[i + 2]? = some sign := by
      rw [htext, List.getElem?_cons_succ, List.getElem?_append_left hi, hsign]
    obtain ⟨n, hn, hcharn⟩ := hstands.char hslash'
    obtain ⟨n', hn', hcharn'⟩ := hstands.char hsign'
    obtain rfl : n' = n + 1 := by omega
    have hplace : token.position + 1 + (0 + i : Nat) + 1 = n + 1 := by omega
    rw [hplace]
    exact .unknownEscape htoken hkind (by omega) (by omega) hcharn hcharn'
      ((Text.Quoted.unescape?_eq_none_iff sign).mp hnone)
  · cases h

/-- A token that is one sign is that character of the text. -/
theorem Token.char_of_mem_lex {c : Char} (htoken : token ∈ (lex source).tokens)
    (htext : token.text.toList = [c]) :
    ∃ n : Nat, token.position = n ∧ source.toList[n]? = some c := by
  have hchar : token.text.toList[0]? = some c := by rw [htext]; rfl
  obtain ⟨n, hn, hcharn⟩ := (standsIn_of_mem_lex source token htoken).char hchar
  exact ⟨n, by omega, hcharn⟩

theorem Token.AtFault.pointsInto (htoken : token ∈ (lex source).tokens)
    (h : token.AtFault (.malformed error)) : error.PointsInto source := by
  have hspelled := lex_spelled source token htoken
  unfold Spelled at hspelled
  cases h with
  | atom _ hvalue => cases Value.ofAtom_error hvalue
  | string hkind htext => exact pointsInto_of_string htoken hkind htext
  | quote hkind =>
    rw [hkind] at hspelled
    obtain ⟨n, hn, hchar⟩ := char_of_mem_lex htoken hspelled
    rw [hn]
    exact .nothingToQuote hchar
  | openParen hkind =>
    rw [hkind] at hspelled
    obtain ⟨n, hn, hchar⟩ := char_of_mem_lex htoken hspelled
    rw [hn]
    exact .unmatchedOpen hchar
  | closeParen hkind =>
    rw [hkind] at hspelled
    obtain ⟨n, hn, hchar⟩ := char_of_mem_lex htoken hspelled
    rw [hn]
    exact .unexpectedClose hchar
  | other hkind =>
    rw [hkind] at hspelled
    exact hspelled.elim

theorem Source.pointsInto_of_readAll (h : Source.readAll source = .error (.malformed error)) :
    error.PointsInto source := by
  rcases Source.atFault_or_unclosed h with ⟨token, htoken, hfault⟩ | ⟨position, hopen, herror⟩
  · exact hfault.pointsInto htoken
  · cases herror
    exact .unterminatedString hopen.char

/-- What an error points at is a character of the text. -/
theorem SyntaxError.PointsInto.position_lt (h : error.PointsInto source) :
    ∃ n : Nat, error.position? = some (n : Int) ∧ n < source.length := by
  have hlt {n : Nat} {c : Char} (hchar : source.toList[n]? = some c) : n < source.length := by
    rw [← String.length_toList]
    exact (List.getElem?_eq_some_iff.mp hchar).1
  cases h with
  | unterminatedString hchar | nothingToQuote hchar | unmatchedOpen hchar
  | unexpectedClose hchar => exact ⟨_, rfl, hlt hchar⟩
  | @unknownEscape n _ _ _ _ _ _ _ hchar => exact ⟨n + 1, rfl, hlt hchar⟩

theorem Source.read_of_error {error : ReadError} (h : Source.readAll source = .error error) :
    Source.read source = .error error := by
  rw [Source.read, h]
  rfl

/-- A text that can be read is refused for the number of its expressions. -/
theorem Source.read_of_length_ne_one {values : List Value}
    (h : Source.readAll source = .ok values) (hlength : values.length ≠ 1) :
    Source.read source = .error (.malformed (.notOne values.length)) := by
  rw [Source.read, h]
  cases values with
  | nil => rfl
  | cons value rest =>
    cases rest with
    | nil => exact (hlength rfl).elim
    | cons => rfl

end

/-- An error of the text has a place in it, and the character there is the one that the error
is about. No token of a text is of a kind that the reader does not know. And an error without
a place comes only of asking for one expression, exactly if the text can be read and has none
or several. -/
theorem errors_point_at_culprits (source : String) :
    (∀ error, Source.readAll source = .error (.malformed error) →
      (∃ n : Nat, error.position? = some (n : Int) ∧ n < source.length) ∧
        error.PointsInto source) ∧
    (∀ kind text position,
      Source.readAll source ≠ .error (.malformed (.unknownToken kind text position))) ∧
    ((∃ error, Source.read source = .error (.malformed error) ∧ error.position? = none) ↔
      ∃ values, Source.readAll source = .ok values ∧ values.length ≠ 1) := by
  refine ⟨?_, ?_, ?_, ?_⟩
  · intro error herror
    have hpoints := Source.pointsInto_of_readAll herror
    exact ⟨hpoints.position_lt, hpoints⟩
  · intro kind text position herror
    cases Source.pointsInto_of_readAll herror
  · rintro ⟨error, herror, hplace⟩
    cases hread : Source.readAll source with
    | error fault =>
      -- The error is one of the text, so it has a place.
      rw [Source.read_of_error hread] at herror
      cases herror
      obtain ⟨n, hposition, _⟩ := (Source.pointsInto_of_readAll hread).position_lt
      rw [hplace] at hposition
      cases hposition
    | ok values =>
      refine ⟨values, rfl, ?_⟩
      intro hlength
      obtain ⟨value, rfl⟩ := List.length_eq_one_iff.mp hlength
      rw [Source.read, hread] at herror
      cases herror
  · rintro ⟨values, hread, hlength⟩
    exact ⟨_, Source.read_of_length_ne_one hread hlength, rfl⟩

/-- On the second line, an escape that is unknown comes after an escaped backslash. -/
theorem errors_point_at_culprits_sample :
    Source.readAll "(a\n \"b\\\\\\q\")" = .error (.malformed (.unknownEscape 'q' 9)) ∧
      SyntaxError.PointsInto "(a\n \"b\\\\\\q\")" (.unknownEscape 'q' 9) := by
  have hread : Source.readAll "(a\n \"b\\\\\\q\")" =
      .error (.malformed (.unknownEscape 'q' 9)) := Source.readAll_eq _
  exact ⟨hread, ((errors_point_at_culprits _).1 _ hread).2⟩

end Sexpr
