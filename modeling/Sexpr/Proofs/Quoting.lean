import Sexpr.Text.Quoted

/-!
# Bodies of string literals

What can stand between the quotes of a literal, and that decoding undoes encoding.
-/
namespace Sexpr.Text.Quoted

/-- What can stand between the quotes of a string literal: characters other than
the quote and the backslash, and pairs of a backslash and any character. -/
inductive Body : List Char → Prop where
  | nil : Body []
  | plain {c rest} : c ≠ '\\' → c ≠ '"' → Body rest → Body (c :: rest)
  | escape {sign rest} : Body rest → Body ('\\' :: sign :: rest)

theorem Body.append {a b : List Char} (ha : Body a) (hb : Body b) : Body (a ++ b) := by
  induction ha with
  | nil => exact hb
  | plain hslash hquote _ ih => exact .plain hslash hquote ih
  | escape _ ih => exact .escape ih

/-- A character that needs no escape is neither the quote nor the backslash. -/
theorem plain_of_escape? {c : Char} (h : escape? c = none) : c ≠ '\\' ∧ c ≠ '"' := by
  constructor
  · rintro rfl
    cases h
  · rintro rfl
    cases h

/-- A sign stands for the character that is written with it. -/
theorem unescape?_of_escape? {c sign : Char} (h : escape? c = some sign) :
    unescape? sign = some c := by
  unfold escape? at h
  split at h <;> cases h <;> rfl

theorem body_encode (text : List Char) : Body (encode text) := by
  induction text with
  | nil => exact .nil
  | cons c rest ih =>
    rw [encode]
    split
    · exact .escape ih
    · rename_i hplain
      exact .plain (plain_of_escape? hplain).1 (plain_of_escape? hplain).2 ih

theorem decodeFrom_encode (text : List Char) (index : Nat) :
    decodeFrom index (encode text) = .ok text := by
  induction text generalizing index with
  | nil => rfl
  | cons c rest ih =>
    rw [encode]
    split
    · rename_i sign hsign
      rw [decodeFrom, unescape?_of_escape? hsign]
      simp only [ih]
      rfl
    · rename_i hplain
      obtain ⟨hslash, -⟩ := plain_of_escape? hplain
      rw [decodeFrom, ih]
      · rfl
      · exact fun h _ => hslash h
      · exact fun _ _ h => absurd h hslash

/-- Decoding undoes encoding. -/
theorem decode_encode (text : List Char) : decode (encode text) = .ok text :=
  decodeFrom_encode text 0

/-! ## Unknown escapes -/

/-- The signs that have a meaning after a backslash. -/
theorem unescape?_eq_none_iff (sign : Char) :
    unescape? sign = none ↔ sign ∉ ['n', 't', 'r', '"', '\\'] := by
  constructor
  · intro h hmem
    simp only [List.mem_cons, List.not_mem_nil, or_false] at hmem
    rcases hmem with rfl | rfl | rfl | rfl | rfl <;> cases h
  · intro h
    unfold unescape?
    split <;> simp_all

/-- An unknown escape is a backslash in the body, and after it a sign without a meaning. -/
theorem decodeFrom_unknownEscape {body : List Char} {start index : Nat} {sign : Char}
    (h : decodeFrom start body = .error (.unknownEscape sign index)) :
    ∃ i, index = start + i ∧ body[i]? = some '\\' ∧ body[i + 1]? = some sign ∧
      unescape? sign = none := by
  have hmap {c : Char} {result : Except Fault (List Char)}
      (h : (c :: ·) <$> result = .error (.unknownEscape sign index)) :
      result = .error (.unknownEscape sign index) := by
    cases result with
    | ok chars => cases h
    | error fault =>
      cases h
      rfl
  fun_induction decodeFrom start body with
  | case1 start | case2 start => cases h
  | case3 start other rest c hc ih =>
    obtain ⟨i, rfl, hslash, hsign⟩ := ih (hmap h)
    exact ⟨i + 2, by omega, hslash, hsign⟩
  | case4 start other rest hnone =>
    cases h
    exact ⟨0, rfl, rfl, rfl, hnone⟩
  | case5 start c rest hlast hpair ih =>
    obtain ⟨i, rfl, hslash, hsign⟩ := ih (hmap h)
    exact ⟨i + 1, by omega, hslash, hsign⟩

end Sexpr.Text.Quoted
