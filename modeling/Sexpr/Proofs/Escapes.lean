import Sexpr.Proofs.Culprits

/-!
# Decoding unit by unit

The body of a string literal is read in units: a character other than a backslash, or a
backslash and the character after it. Decoding goes by the units from the left and stops at
the first escape that has no meaning. The lexer pairs backslashes in the same way, so a body
between quotes never ends within a unit. Main statement: what decoding answers in terms of
the units, and that no string of a source ends in an unfinished one.
-/
namespace Sexpr

namespace Text.Quoted

/-! ## Units -/

/-- What is decoded at a time. -/
inductive Piece where
  | plain (c : Char) (h : c ≠ '\\')
  | escape (sign : Char)

namespace Piece

/-- The characters of the unit. -/
def chars : Piece → List Char
  | plain c _ => [c]
  | escape sign => ['\\', sign]

/-- The signs that have a meaning after a backslash, each with what it means there. -/
def signs : List (Char × Char) :=
  [('n', '\n'), ('t', '\t'), ('r', '\r'), ('"', '"'), ('\\', '\\')]

/-- The character that the unit stands for, if it is known. -/
def meaning? : Piece → Option Char
  | plain c _ => some c
  | escape sign => signs.lookup sign

theorem meaning?_escape (sign : Char) : (escape sign).meaning? = unescape? sign := by
  change signs.lookup sign = unescape? sign
  unfold unescape?
  split
  · rfl
  · rfl
  · rfl
  · rfl
  · rfl
  · rename_i hslash hquote hn ht hr
    simp [signs, List.lookup_cons, beq_eq_false_iff_ne.mpr hslash, beq_eq_false_iff_ne.mpr hquote,
      beq_eq_false_iff_ne.mpr hn, beq_eq_false_iff_ne.mpr ht, beq_eq_false_iff_ne.mpr hr]

end Piece

/-- The text of the units, one after the other. -/
def spelled (pieces : List Piece) : List Char := pieces.flatMap Piece.chars

/-- The units are all known, and stand for these characters. -/
def Known (pieces : List Piece) (chars : List Char) : Prop :=
  pieces.map Piece.meaning? = chars.map some

@[simp] theorem spelled_cons (piece : Piece) (pieces : List Piece) :
    spelled (piece :: pieces) = piece.chars ++ spelled pieces := rfl

theorem known_cons_iff {piece : Piece} {pieces : List Piece} {c : Char} {chars : List Char} :
    Known (piece :: pieces) (c :: chars) ↔ piece.meaning? = some c ∧ Known pieces chars := by
  simp [Known]

/-! ## Decoding -/

/-- Decoding takes a unit that is known and goes on after it. -/
theorem decodeFrom_piece {piece : Piece} {c : Char} (h : piece.meaning? = some c) (index : Nat)
    (rest : List Char) :
    decodeFrom index (piece.chars ++ rest) =
      (c :: ·) <$> decodeFrom (index + piece.chars.length) rest := by
  cases piece with
  | plain c hslash =>
    cases h
    rw [Piece.chars, List.singleton_append, decodeFrom]
    · rfl
    · exact fun h _ => hslash h
    · exact fun _ _ h => absurd h hslash
  | escape sign =>
    rw [Piece.meaning?_escape] at h
    simp only [Piece.chars, List.cons_append, List.nil_append, decodeFrom, h]
    rfl

theorem decodeFrom_spelled {pieces : List Piece} {chars : List Char} (h : Known pieces chars)
    (index : Nat) (rest : List Char) :
    decodeFrom index (spelled pieces ++ rest) =
      (chars ++ ·) <$> decodeFrom (index + (spelled pieces).length) rest := by
  induction pieces generalizing chars index with
  | nil =>
    obtain rfl : chars = [] := List.map_eq_nil_iff.mp h.symm
    change decodeFrom index rest = id <$> decodeFrom index rest
    rw [id_map]
  | cons piece pieces ih =>
    cases chars with
    | nil => simp [Known] at h
    | cons c chars =>
      obtain ⟨hpiece, hpieces⟩ := known_cons_iff.mp h
      rw [spelled_cons, List.append_assoc, decodeFrom_piece hpiece, ih hpieces, List.length_append,
        Nat.add_assoc]
      cases decodeFrom (index + (piece.chars.length + (spelled pieces).length)) rest <;> rfl

/-- What decoding answers for a body that begins at `index`, by its units. -/
inductive Accounts (index : Nat) : List Char → Except Fault (List Char) → Prop where
  | decoded {pieces chars} : Known pieces chars → Accounts index (spelled pieces) (.ok chars)
  | unknown {pieces chars sign rest} : Known pieces chars → (Piece.escape sign).meaning? = none →
      Accounts index (spelled pieces ++ '\\' :: sign :: rest)
        (.error (.unknownEscape sign (index + (spelled pieces).length)))
  | dangling {pieces chars} : Known pieces chars →
      Accounts index (spelled pieces ++ ['\\']) (.error .danglingEscape)

theorem Accounts.piece {index : Nat} {piece : Piece} {c : Char} {rest : List Char}
    {answer : Except Fault (List Char)} (hpiece : piece.meaning? = some c)
    (h : Accounts (index + piece.chars.length) rest answer) :
    Accounts index (piece.chars ++ rest) ((c :: ·) <$> answer) := by
  cases h with
  | decoded hknown => exact .decoded (known_cons_iff.mpr ⟨hpiece, hknown⟩)
  | @unknown pieces chars sign rest hknown hsign =>
    have haccounts := @unknown index _ _ _ rest (known_cons_iff.mpr ⟨hpiece, hknown⟩) hsign
    rw [spelled_cons, List.append_assoc, List.length_append, ← Nat.add_assoc] at haccounts
    exact haccounts
  | dangling hknown =>
    have haccounts := @dangling index _ _ (known_cons_iff.mpr ⟨hpiece, hknown⟩)
    rw [spelled_cons, List.append_assoc] at haccounts
    exact haccounts

theorem accounts_decodeFrom (index : Nat) (body : List Char) :
    Accounts index body (decodeFrom index body) := by
  fun_induction decodeFrom index body with
  | case1 index => exact @Accounts.decoded index [] [] rfl
  | case2 index => exact @Accounts.dangling index [] [] rfl
  | case3 index sign rest c hsign ih =>
    rw [← Piece.meaning?_escape] at hsign
    exact .piece hsign ih
  | case4 index sign rest hsign =>
    rw [← Piece.meaning?_escape] at hsign
    exact @Accounts.unknown index [] [] sign rest rfl hsign
  | case5 index c rest hlast hpair ih =>
    have hslash : c ≠ '\\' := by
      rintro rfl
      cases rest with
      | nil => exact hlast rfl rfl
      | cons sign rest => exact hpair sign rest rfl rfl
    exact @Accounts.piece index (.plain c hslash) c rest _ rfl ih

/-- Decoding answers as the units say. -/
theorem decodeFrom_eq_iff {index : Nat} {body : List Char} {answer : Except Fault (List Char)} :
    decodeFrom index body = answer ↔ Accounts index body answer := by
  constructor
  · rintro rfl
    exact accounts_decodeFrom index body
  · intro h
    cases h with
    | @decoded pieces chars hknown =>
      have hrun := decodeFrom_spelled hknown index []
      rw [List.append_nil] at hrun
      rw [hrun]
      exact congrArg Except.ok (List.append_nil chars)
    | unknown hknown hsign =>
      rw [Piece.meaning?_escape] at hsign
      rw [decodeFrom_spelled hknown, decodeFrom, hsign]
      rfl
    | dangling hknown =>
      rw [decodeFrom_spelled hknown]
      rfl

/-- What stands between quotes does not end within a unit. -/
theorem Body.decodeFrom_ne_dangling {body : List Char} (h : Body body) (index : Nat) :
    decodeFrom index body ≠ .error .danglingEscape := by
  have hmap {c : Char} {answer : Except Fault (List Char)} (h : answer ≠ .error .danglingEscape) :
      (c :: ·) <$> answer ≠ .error .danglingEscape := by
    cases answer with
    | ok chars =>
      intro hmapped
      cases hmapped
    | error fault => simpa [Functor.map, Except.map] using h
  induction h generalizing index with
  | nil =>
    intro herror
    cases herror
  | @plain c rest hslash _ _ ih =>
    have hpiece := @decodeFrom_piece (.plain c hslash) c rfl index rest
    exact hpiece ▸ hmap (ih _)
  | @escape sign rest _ ih =>
    rw [decodeFrom]
    cases unescape? sign with
    | some c => exact hmap (ih _)
    | none =>
      intro herror
      cases herror

end Text.Quoted

open Text.Quoted

/-! ## Strings of a source -/

theorem Token.body_of_mem_lex {source : String} {token : Token}
    (htoken : token ∈ (Token.lex source).tokens) (hkind : token.kind = .string) :
    Body token.body := by
  have hspelled := lex_spelled source token htoken
  unfold Spelled at hspelled
  rw [hkind] at hspelled
  obtain ⟨body, hbody, htext⟩ := hspelled
  simpa [Token.body, htext] using hbody

section
variable {position : Int} {body : List Char}

theorem decodeBody_eq_ok_iff {text : String} :
    decodeBody position body = .ok text ↔ decode body = .ok text.toList := by
  unfold decodeBody
  cases hdecode : decode body with
  | ok chars =>
    constructor
    · intro h
      cases h
      simp
    · intro h
      cases h
      simp
  | error fault => cases fault <;> exact ⟨nofun, nofun⟩

theorem decodeBody_eq_malformed_iff {error : SyntaxError} :
    decodeBody position body = .error (.malformed error) ↔
      ∃ sign index, decode body = .error (.unknownEscape sign index) ∧
        error = .unknownEscape sign (position + index + 1) := by
  unfold decodeBody
  cases decode body with
  | ok chars => exact ⟨nofun, nofun⟩
  | error fault =>
    cases fault with
    | unknownEscape sign index =>
      constructor
      · intro h
        cases h
        exact ⟨sign, index, rfl, rfl⟩
      · rintro ⟨_, _, h, rfl⟩
        cases h
        rfl
    | danglingEscape => exact ⟨nofun, nofun⟩

theorem decodeBody_eq_dangling_iff :
    decodeBody position body = .error .danglingEscape ↔
      decode body = .error .danglingEscape := by
  unfold decodeBody
  cases decode body with
  | ok chars => exact ⟨nofun, nofun⟩
  | error fault => cases fault <;> simp

end

theorem Source.readAll_ne_dangling (source : String) :
    Source.readAll source ≠ .error .danglingEscape := by
  intro h
  rcases Source.atFault_or_unclosed h with ⟨token, htoken, hfault⟩ | ⟨position, -, herror⟩
  · cases hfault with
    | atom hkind hvalue => cases Value.ofAtom_error hvalue
    | string hkind hdecode =>
      exact (Token.body_of_mem_lex htoken hkind).decodeFrom_ne_dangling 0
        (decodeBody_eq_dangling_iff.mp hdecode)
  · cases herror

/-- Decoding goes by the units of the body. It has a text if all of them are complete and
known; it is malformed at the sign of the first that is unknown; and it is unfinished if
those before a last lone backslash are known. No string of a source is unfinished. What is
written for a text decodes to the text. -/
theorem decoded_unit_by_unit (position : Int) :
    (∀ body : List Char,
      (∀ text, decodeBody position body = .ok text ↔
        ∃ pieces, body = spelled pieces ∧ Known pieces text.toList) ∧
      (∀ error, decodeBody position body = .error (.malformed error) ↔
        ∃ before chars sign rest, body = spelled before ++ '\\' :: sign :: rest ∧
          Known before chars ∧ (Piece.escape sign).meaning? = none ∧
          error = .unknownEscape sign (position + (spelled before).length + 1)) ∧
      (decodeBody position body = .error .danglingEscape ↔
        ∃ before chars, body = spelled before ++ ['\\'] ∧ Known before chars)) ∧
    (∀ source, (∀ token ∈ (Token.lex source).tokens, token.kind = .string →
        decodeBody position token.body ≠ .error .danglingEscape) ∧
      Source.readAll source ≠ .error .danglingEscape) ∧
    ∀ text, decodeBody position ((literal text).toList.drop 1).dropLast = .ok text := by
  refine ⟨fun body => ⟨fun text => ?_, fun error => ?_, ?_⟩, fun source => ⟨?_, ?_⟩, fun text => ?_⟩
  · rw [decodeBody_eq_ok_iff, decode, decodeFrom_eq_iff]
    constructor
    · intro h
      generalize htext : text.toList = chars at h
      cases h with
      | decoded hknown => exact ⟨_, rfl, hknown⟩
    · rintro ⟨pieces, rfl, hknown⟩
      exact .decoded hknown
  · rw [decodeBody_eq_malformed_iff]
    constructor
    · rintro ⟨sign, index, hdecode, rfl⟩
      rw [decode, decodeFrom_eq_iff] at hdecode
      cases hdecode with
      | @unknown pieces chars _ rest hknown hsign =>
        exact ⟨pieces, chars, sign, rest, rfl, hknown, hsign, by rw [Nat.zero_add]⟩
    · rintro ⟨before, chars, sign, rest, rfl, hknown, hsign, rfl⟩
      refine ⟨sign, 0 + (spelled before).length, ?_, by rw [Nat.zero_add]⟩
      exact decodeFrom_eq_iff.mpr (.unknown hknown hsign)
  · rw [decodeBody_eq_dangling_iff, decode, decodeFrom_eq_iff]
    constructor
    · intro h
      cases h with
      | dangling hknown => exact ⟨_, _, rfl, hknown⟩
    · rintro ⟨before, chars, rfl, hknown⟩
      exact .dangling hknown
  · intro token htoken hkind hdangling
    exact (Token.body_of_mem_lex htoken hkind).decodeFrom_ne_dangling 0
      (decodeBody_eq_dangling_iff.mp hdangling)
  · exact Source.readAll_ne_dangling source
  · rw [decodeBody_eq_ok_iff]
    simpa [literal] using decode_encode text.toList

/-- Three backslashes are one that is escaped and one that escapes what follows: before a
letter it is malformed there, at the end it is unfinished. In a source, the quote after the
second of two ends the string. -/
theorem decoded_unit_by_unit_sample :
    decodeBody 5 ['a', '\\', '\\', '\\', 'q'] = .error (.malformed (.unknownEscape 'q' 9)) ∧
      decodeBody 5 ['a', '\\', '\\', '\\'] = .error .danglingEscape ∧
      (∃ token ∈ (Token.lex "\"a\\\\\"").tokens, token.kind = .string ∧
        decodeBody 5 token.body ≠ .error .danglingEscape) := by
  have hknown : Known [.plain 'a' (by decide), .escape '\\'] ['a', '\\'] := rfl
  have htoken : ⟨.string, "\"a\\\\\"", 0⟩ ∈ (Token.lex "\"a\\\\\"").tokens :=
    List.mem_singleton.mpr rfl
  obtain ⟨hbody, hsource, -⟩ := decoded_unit_by_unit 5
  exact ⟨((hbody _).2.1 _).mpr ⟨_, _, 'q', [], rfl, hknown, rfl, rfl⟩,
    (hbody _).2.2.mpr ⟨_, _, rfl, hknown⟩, _, htoken, rfl, (hsource _).1 _ htoken rfl⟩

end Sexpr
