import Mathlib.Data.Nat.Digits.Lemmas
import Sexpr.Numeral

/-!
# Numerals and integers

Which texts are numerals, said without the reader: an optional sign and one or more
decimal digits of any script. Every integer that has a written form is read back
from it, and every integer that is read has one. Two numerals are of one integer if they
differ in nothing but zeros in front, or in the sign of zero.
-/
namespace Sexpr.Numeral

/-! ## Digits -/

theorem digitValue?_lt {c : Char} {d : Nat} (h : Text.digitValue? c = some d) : d < 10 := by
  unfold Text.digitValue? at h
  obtain ⟨start, hstart, rfl⟩ := Option.map_eq_some_iff.mp h
  have hrange := List.find?_some hstart
  simp only [Bool.and_eq_true, decide_eq_true_eq] at hrange
  omega

/-- The characters have values exactly if all of them are digits. -/
theorem exists_digits_iff {chars : List Char} :
    (∃ digits : List Nat, chars.map Text.digitValue? = digits.map some) ↔
      ∀ c ∈ chars, Text.isDigit c = true := by
  constructor
  · rintro ⟨digits, hdigits⟩ c hc
    have hmem : Text.digitValue? c ∈ digits.map some := hdigits ▸ List.mem_map_of_mem hc
    obtain ⟨d, -, hd⟩ := List.mem_map.mp hmem
    rw [Text.isDigit, ← hd, Option.isSome_some]
  · intro h
    refine ⟨chars.filterMap Text.digitValue?, ?_⟩
    induction chars with
    | nil => rfl
    | cons c rest ih =>
      rw [List.forall_mem_cons] at h
      obtain ⟨d, hd⟩ := Option.isSome_iff_exists.mp h.1
      rw [List.map_cons, ih h.2, List.filterMap_cons_some hd, List.map_cons, hd]

theorem mapM_digitValue?_eq_some_iff {chars : List Char} {digits : List Nat} :
    chars.mapM Text.digitValue? = some digits ↔ chars.map Text.digitValue? = digits.map some := by
  induction chars generalizing digits with
  | nil => cases digits <;> simp
  | cons c rest ih =>
    cases digits with
    | nil => simp [List.mapM_cons, Option.bind_eq_some_iff]
    | cons d digits => simp [List.mapM_cons, Option.bind_eq_some_iff, ih]

theorem digits?_eq_some_iff {chars : List Char} {digits : List Nat} :
    digits? chars = some digits ↔ digits ≠ [] ∧ chars.map Text.digitValue? = digits.map some := by
  unfold digits?
  cases chars with
  | nil => cases digits <;> simp
  | cons c rest =>
    have hne : (c :: rest).map Text.digitValue? = digits.map some → digits ≠ [] := by
      rintro h rfl
      cases h
    simp only [List.isEmpty_cons, Bool.false_eq_true, if_false, mapM_digitValue?_eq_some_iff]
    exact ⟨fun h => ⟨hne h, h⟩, And.right⟩

/-- A text that begins with a digit has no sign. -/
theorem splitSign_of_isDigit {c : Char} (rest : List Char) (h : Text.isDigit c = true) :
    splitSign (c :: rest) = (1, c :: rest) := by
  have hplus : c ≠ '+' := by
    rintro rfl
    revert h
    decide
  have hminus : c ≠ '-' := by
    rintro rfl
    revert h
    decide
  unfold splitSign
  split
  · rename_i heq
    exact absurd (List.cons.inj heq).1 hplus
  · rename_i heq
    exact absurd (List.cons.inj heq).1 hminus
  · rfl

/-! ## The shape of a numeral -/

/-- The text is an optional sign followed by one or more decimal digits. -/
def IsNumeral (text : List Char) : Prop :=
  ∃ sign digits, text = sign ++ digits ∧ sign ∈ [[], ['+'], ['-']] ∧
    digits ≠ [] ∧ ∀ c ∈ digits, Text.isDigit c = true

/-- The text is a numeral with this sign, and its digits are worth these numbers. -/
def IsNumeralOf (text : List Char) (sign : Int) (digits : List Nat) : Prop :=
  ∃ front chars, text = front ++ chars ∧ (front, sign) ∈ [([], 1), (['+'], 1), (['-'], -1)] ∧
    digits ≠ [] ∧ chars.map Text.digitValue? = digits.map some

variable {text : List Char} {sign : Int} {digits others : List Nat}

theorem isNumeral_iff : IsNumeral text ↔ ∃ sign digits, IsNumeralOf text sign digits := by
  constructor
  · rintro ⟨front, chars, rfl, hfront, hne, hchars⟩
    obtain ⟨digits, hdigits⟩ := exists_digits_iff.mpr hchars
    have hne' : digits ≠ [] := by
      rintro rfl
      exact hne (List.map_eq_nil_iff.mp hdigits)
    simp only [List.mem_cons, List.not_mem_nil, or_false] at hfront
    rcases hfront with rfl | rfl | rfl
    · exact ⟨1, digits, [], chars, rfl, by simp, hne', hdigits⟩
    · exact ⟨1, digits, ['+'], chars, rfl, by simp, hne', hdigits⟩
    · exact ⟨-1, digits, ['-'], chars, rfl, by simp, hne', hdigits⟩
  · rintro ⟨sign, digits, front, chars, rfl, hsign, hne, hdigits⟩
    refine ⟨front, chars, rfl, ?_, ?_, exists_digits_iff.mp ⟨digits, hdigits⟩⟩
    · exact List.mem_map_of_mem (f := Prod.fst) hsign
    · rintro rfl
      exact hne (List.map_eq_nil_iff.mp hdigits.symm)

/-- What a numeral is made of is found by taking off the sign and then the digits. -/
theorem isNumeralOf_iff :
    IsNumeralOf text sign digits ↔
      (splitSign text).1 = sign ∧ digits? (splitSign text).2 = some digits := by
  rw [digits?_eq_some_iff]
  constructor
  · rintro ⟨front, chars, rfl, hsign, hne, hchars⟩
    simp only [List.mem_cons, Prod.mk.injEq, List.not_mem_nil, or_false] at hsign
    rcases hsign with ⟨rfl, rfl⟩ | ⟨rfl, rfl⟩ | ⟨rfl, rfl⟩
    -- Without a sign, the first digit must not be taken for one.
    · cases chars with
      | nil => exact absurd (List.map_eq_nil_iff.mp hchars.symm) hne
      | cons c rest =>
        have hdigit := exists_digits_iff.mp ⟨digits, hchars⟩ c List.mem_cons_self
        rw [List.nil_append, splitSign_of_isDigit rest hdigit]
        exact ⟨rfl, hne, hchars⟩
    · exact ⟨rfl, hne, hchars⟩
    · exact ⟨rfl, hne, hchars⟩
  · unfold splitSign
    split
    · rintro ⟨rfl, hne, hchars⟩
      exact ⟨['+'], _, rfl, by simp, hne, hchars⟩
    · rintro ⟨rfl, hne, hchars⟩
      exact ⟨['-'], _, rfl, by simp, hne, hchars⟩
    · rintro ⟨rfl, hne, hchars⟩
      exact ⟨[], _, rfl, by simp, hne, hchars⟩

theorem parse?_of_isNumeralOf (h : IsNumeralOf text sign digits) :
    parse? text = some
      (if digits.length ≤ maxDigits then .ok (sign * ofDigits digits) else .error .oversized) := by
  obtain ⟨rfl, hdigits⟩ := isNumeralOf_iff.mp h
  simp [parse?, hdigits]

/-- The reader takes a text for an integer exactly if it is a numeral. -/
theorem parse?_isSome_iff (text : List Char) : (parse? text).isSome ↔ IsNumeral text := by
  simp [parse?, isNumeral_iff, isNumeralOf_iff, Option.isSome_iff_exists]

theorem parse?_eq_none_iff (text : List Char) : parse? text = none ↔ ¬IsNumeral text := by
  rw [← parse?_isSome_iff, Option.not_isSome_iff_eq_none]

theorem IsNumeralOf.sign_eq (h : IsNumeralOf text sign digits) : sign = 1 ∨ sign = -1 := by
  obtain ⟨_, _, _, hsign, _⟩ := h
  simp only [List.mem_cons, Prod.mk.injEq, List.not_mem_nil, or_false] at hsign
  omega

theorem IsNumeralOf.digits_lt (h : IsNumeralOf text sign digits) : ∀ d ∈ digits, d < 10 := by
  obtain ⟨_, chars, _, _, _, hchars⟩ := h
  intro d hd
  have hmem : some d ∈ chars.map Text.digitValue? := hchars ▸ List.mem_map_of_mem hd
  obtain ⟨c, -, hc⟩ := List.mem_map.mp hmem
  exact digitValue?_lt hc

/-! ## Places and zeros in front -/

/-- Each digit counts for a power of ten, and the last for the lowest. -/
theorem ofDigits_eq (digits : List Nat) : ofDigits digits = Nat.ofDigits 10 digits.reverse := by
  rw [Nat.ofDigits_eq_foldr, List.foldr_reverse, ofDigits]
  simp only [Nat.add_comm, Nat.cast_id]

/-- The digits without the zeros in front. -/
def significant (digits : List Nat) : List Nat := digits.dropWhile (· = 0)

theorem ofDigits_significant (digits : List Nat) :
    ofDigits (significant digits) = ofDigits digits := by
  induction digits with
  | nil => rfl
  | cons d digits ih =>
    unfold significant at ih ⊢
    by_cases hd : d = 0
    · rw [List.dropWhile_cons_of_pos (by simpa using hd), ih, ofDigits, ofDigits, List.foldl_cons, hd]
    · rw [List.dropWhile_cons_of_neg (by simpa using hd)]

/-- The significant digits are those that the number is made of. -/
theorem digits_ofDigits (h : ∀ d ∈ digits, d < 10) :
    Nat.digits 10 (ofDigits digits) = (significant digits).reverse := by
  rw [← ofDigits_significant, ofDigits_eq]
  refine Nat.digits_ofDigits 10 (by decide) _ ?_ ?_
  · intro d hd
    exact h d ((List.dropWhile_sublist _).mem (List.mem_reverse.mp hd))
  · intro hne
    have hne' : significant digits ≠ [] := by simpa using hne
    have hhead := List.head_dropWhile_not (fun d => decide (d = 0)) hne'
    rw [List.getLast_reverse]
    exact of_decide_eq_false hhead

theorem ofDigits_eq_iff (h : ∀ d ∈ digits, d < 10) (hothers : ∀ d ∈ others, d < 10) :
    ofDigits digits = ofDigits others ↔ significant digits = significant others := by
  constructor
  · intro heq
    rw [← List.reverse_inj, ← digits_ofDigits h, heq, digits_ofDigits hothers]
  · intro heq
    rw [← ofDigits_significant, heq, ofDigits_significant]

theorem ofDigits_eq_zero_iff (h : ∀ d ∈ digits, d < 10) :
    ofDigits digits = 0 ↔ significant digits = [] := by
  rw [← List.reverse_eq_nil_iff, ← digits_ofDigits h, Nat.digits_eq_nil_iff_eq_zero]

/-- Two numerals are of one integer if they agree in the significant digits and in the
sign, which zero does not have. -/
theorem IsNumeralOf.worth_eq_iff {text' : List Char} {sign' : Int}
    (h : IsNumeralOf text sign digits) (h' : IsNumeralOf text' sign' others) :
    sign * ofDigits digits = sign' * ofDigits others ↔
      significant digits = significant others ∧ (sign = sign' ∨ significant digits = []) := by
  rw [← ofDigits_eq_iff h.digits_lt h'.digits_lt, ← ofDigits_eq_zero_iff h.digits_lt]
  rcases h.sign_eq with rfl | rfl <;> rcases h'.sign_eq with rfl | rfl <;> omega

/-! ## Size -/

theorem bound_eq : bound = 10 ^ maxDigits := by
  unfold bound
  -- The power must not be computed.
  generalize maxDigits = digits
  rfl

/-- An integer has a written form if it has no more digits than are converted. -/
theorem fits_iff (n : Int) : fits n = true ↔ (Nat.digits 10 n.natAbs).length ≤ maxDigits := by
  rw [Nat.digits_length_le_iff (by decide), fits, decide_eq_true_iff, bound_eq]

/-- An integer that is read has a numeral of bounded length. -/
theorem IsNumeralOf.fits (h : IsNumeralOf text sign digits) (hlength : digits.length ≤ maxDigits) :
    fits (sign * ofDigits digits) = true := by
  have hsign : sign.natAbs = 1 := by
    rcases h.sign_eq with rfl | rfl <;> rfl
  rw [fits_iff, Int.natAbs_mul, hsign, Nat.one_mul, Int.natAbs_natCast, digits_ofDigits h.digits_lt,
    List.length_reverse]
  exact Nat.le_trans (List.dropWhile_sublist _).length_le hlength

/-! ## Reading back -/

/-- The ten ASCII digits have their usual values. -/
theorem digitValue?_of_isDigit {c : Char} (h : c.isDigit = true) :
    Text.digitValue? c = some (c.toNat - 48) := by
  rw [Char.isDigit_iff_toNat] at h
  have hlow : 48 ≤ c.toNat := h.1
  have hhigh : c.toNat < 48 + 10 := Nat.lt_succ_of_le h.2
  -- The zeros of all scripts are searched in order, and that of ASCII is the first.
  have hfirst : (decide (48 ≤ c.toNat) && decide (c.toNat < 48 + 10)) = true := by
    simp [hlow, hhigh]
  rw [Text.digitValue?, Text.digitZeros, List.find?_cons, hfirst]
  rfl

theorem isDigit_of_mem_toDigits {n : Nat} {c : Char} (h : c ∈ Nat.toDigits 10 n) :
    c.isDigit = true :=
  Nat.isDigit_of_mem_toDigits (by decide) (by decide) h

/-- The digits that a number is written with are those of that number. -/
theorem ofDigits_toDigits (n : Nat) :
    ofDigits ((Nat.toDigits 10 n).map fun c => c.toNat - 48) = n := by
  rw [ofDigits, List.foldl_map]
  exact Nat.ofDigitChars_ten_toDigits

theorem isNumeralOf_toDigits (front : List Char) (sign : Int) (n : Nat)
    (hsign : (front, sign) ∈ [([], 1), (['+'], 1), (['-'], -1)]) :
    IsNumeralOf (front ++ Nat.toDigits 10 n) sign ((Nat.toDigits 10 n).map fun c => c.toNat - 48) := by
  refine ⟨front, Nat.toDigits 10 n, rfl, hsign, by simp, ?_⟩
  rw [List.map_map]
  exact List.map_congr_left fun c hc => digitValue?_of_isDigit (isDigit_of_mem_toDigits hc)

/-- The characters that an integer is written with. -/
theorem toList_toString (n : Int) :
    (toString n).toList =
      if 0 ≤ n then Nat.toDigits 10 n.natAbs else '-' :: Nat.toDigits 10 n.natAbs := by
  rw [Int.toString_eq_repr, Int.repr_eq_if]
  split
  · rename_i h
    rw [Nat.toList_repr, show n.toNat = n.natAbs by omega]
  · rename_i h
    rw [String.toList_append, Nat.toList_repr, show (-n).toNat = n.natAbs by omega]
    rfl

theorem parse?_toString {n : Int} (h : fits n = true) :
    parse? (toString n).toList = some (.ok n) := by
  have hfew : ((Nat.toDigits 10 n.natAbs).map fun c => c.toNat - 48).length ≤ maxDigits := by
    rw [fits, decide_eq_true_iff, bound_eq] at h
    rw [List.length_map]
    exact (Nat.length_toDigits_le_iff (by decide) (by decide)).mpr h
  rw [toList_toString]
  split
  · rename_i hsign
    have hnumeral := isNumeralOf_toDigits [] 1 n.natAbs (by simp)
    rw [← List.nil_append (Nat.toDigits 10 n.natAbs), parse?_of_isNumeralOf hnumeral, if_pos hfew,
      ofDigits_toDigits, show 1 * (n.natAbs : Int) = n by omega]
  · rename_i hsign
    have hnumeral := isNumeralOf_toDigits ['-'] (-1) n.natAbs (by simp)
    rw [← List.singleton_append, parse?_of_isNumeralOf hnumeral, if_pos hfew,
      ofDigits_toDigits, show -1 * (n.natAbs : Int) = n by omega]

theorem render_ok {n : Int} {text : String} (h : render n = .ok text) :
    fits n = true ∧ text = toString n := by
  unfold render at h
  split at h
  · rename_i hfits
    exact ⟨hfits, (Except.ok.inj h).symm⟩
  · cases h

/-- An integer is read back from its written form. -/
theorem parse?_render {n : Int} {text : String} (h : render n = .ok text) :
    parse? text.toList = some (.ok n) := by
  obtain ⟨hfits, rfl⟩ := render_ok h
  exact parse?_toString hfits

/-- The written form of an integer is made of a sign and digits. -/
theorem chars_toString (n : Int) :
    (toString n).toList ≠ [] ∧ ∀ c ∈ (toString n).toList, c = '-' ∨ c.isDigit = true := by
  rw [toList_toString]
  split
  · exact ⟨by simp, fun c hc => .inr (isDigit_of_mem_toDigits hc)⟩
  · refine ⟨by simp, ?_⟩
    rw [List.forall_mem_cons]
    exact ⟨.inl rfl, fun c hc => .inr (isDigit_of_mem_toDigits hc)⟩

end Sexpr.Numeral
