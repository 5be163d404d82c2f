import Sexpr.Parser
import Sexpr.Proofs.Numerals
import Sexpr.Proofs.Rendering

/-!
# Atoms

What a text is read as if it stands on its own. Main statement: three words are
constants, a numeral is the integer that its sign and its digits make in base ten unless
it has too many digits, and every other text is the symbol of that name.
-/
namespace Sexpr

namespace Value

/-- The words that are read as constants. -/
def words : List String := ["nil", "true", "false"]

/-- What a text on its own is read as. -/
inductive ReadsAs (text : String) : Except ReadError Value → Prop where
  | nil : text = "nil" → ReadsAs text (.ok .nil)
  | true : text = "true" → ReadsAs text (.ok (.bool true))
  | false : text = "false" → ReadsAs text (.ok (.bool false))
  /-- Each digit counts for a power of ten, and the last for the lowest. -/
  | integer {sign digits} : Numeral.IsNumeralOf text.toList sign digits →
      digits.length ≤ Numeral.maxDigits →
      ReadsAs text (.ok (.int (sign * (Nat.ofDigits 10 digits.reverse : Nat))))
  /-- Zeros in front are counted, too, but the sign is not. -/
  | oversized {sign digits} : Numeral.IsNumeralOf text.toList sign digits →
      Numeral.maxDigits < digits.length → ReadsAs text (.error .oversizedInteger)
  | symbol : text ∉ words → ¬Numeral.IsNumeral text.toList → ReadsAs text (.ok (.sym text))

variable {text : String} {result : Except ReadError Value}

theorem not_mem_words_of_isNumeral (h : Numeral.IsNumeral text.toList) : text ∉ words := by
  rw [← Numeral.parse?_isSome_iff] at h
  intro hword
  simp only [words, List.mem_cons, List.not_mem_nil, or_false] at hword
  rcases hword with rfl | rfl | rfl <;> revert h <;> decide

theorem ofAtom_of_not_mem_words (h : text ∉ words) :
    ofAtom text =
      match Numeral.parse? text.toList with
      | some (.ok n) => .ok (.int n)
      | some (.error .oversized) => .error .oversizedInteger
      | none => .ok (.sym text) := by
  simp only [words, List.mem_cons, List.not_mem_nil, or_false, not_or] at h
  exact (if_neg h.1).trans ((if_neg h.2.1).trans (if_neg h.2.2))

theorem ofAtom_of_isNumeralOf {sign : Int} {digits : List Nat}
    (h : Numeral.IsNumeralOf text.toList sign digits) :
    ofAtom text =
      if digits.length ≤ Numeral.maxDigits then .ok (.int (sign * Numeral.ofDigits digits))
      else .error .oversizedInteger := by
  have hword := not_mem_words_of_isNumeral (Numeral.isNumeral_iff.mpr ⟨_, _, h⟩)
  rw [ofAtom_of_not_mem_words hword, Numeral.parse?_of_isNumeralOf h]
  by_cases hlength : digits.length ≤ Numeral.maxDigits <;> simp [hlength]

theorem ofAtom_numeral {n : Int} (h : Numeral.parse? text.toList = some (.ok n)) :
    ofAtom text = .ok (.int n) := by
  have hnumeral : Numeral.IsNumeral text.toList := by
    rw [← Numeral.parse?_isSome_iff, h, Option.isSome_some]
  rw [ofAtom_of_not_mem_words (not_mem_words_of_isNumeral hnumeral), h]

theorem ReadsAs.ofAtom_eq (h : ReadsAs text result) : ofAtom text = result := by
  cases h with
  | nil h | true h | false h =>
    subst h
    rfl
  | integer h hlength => rw [ofAtom_of_isNumeralOf h, if_pos hlength, Numeral.ofDigits_eq]
  | oversized h hlength => rw [ofAtom_of_isNumeralOf h, if_neg (Nat.not_le.mpr hlength)]
  | symbol hword h =>
    rw [ofAtom_of_not_mem_words hword, (Numeral.parse?_eq_none_iff _).mpr h]

theorem exists_readsAs (text : String) : ∃ result, ReadsAs text result := by
  by_cases hword : text ∈ words
  · simp only [words, List.mem_cons, List.not_mem_nil, or_false] at hword
    rcases hword with rfl | rfl | rfl
    · exact ⟨_, .nil rfl⟩
    · exact ⟨_, .true rfl⟩
    · exact ⟨_, .false rfl⟩
  · by_cases h : Numeral.IsNumeral text.toList
    · obtain ⟨sign, digits, hdigits⟩ := Numeral.isNumeral_iff.mp h
      rcases Nat.lt_or_ge Numeral.maxDigits digits.length with hlength | hlength
      · exact ⟨_, .oversized hdigits hlength⟩
      · exact ⟨_, .integer hdigits hlength⟩
    · exact ⟨_, .symbol hword h⟩

theorem ofAtom_eq_iff : ofAtom text = result ↔ ReadsAs text result := by
  constructor
  · rintro rfl
    obtain ⟨result, h⟩ := exists_readsAs text
    rwa [h.ofAtom_eq]
  · exact ReadsAs.ofAtom_eq

/-- A text has no value on its own only if it is an integer with too many digits. -/
theorem ofAtom_error {error : ReadError} (h : ofAtom text = .error error) :
    error = .oversizedInteger := by
  cases ofAtom_eq_iff.mp h with
  | oversized => rfl

/-- Two numerals are read as one integer if both are short enough and they are of one. -/
theorem ofAtom_same_iff {other : String} {sign sign' : Int} {digits digits' : List Nat}
    (h : Numeral.IsNumeralOf text.toList sign digits)
    (h' : Numeral.IsNumeralOf other.toList sign' digits') :
    (∃ n, ofAtom text = .ok (.int n) ∧ ofAtom other = .ok (.int n)) ↔
      (digits.length ≤ Numeral.maxDigits ∧ digits'.length ≤ Numeral.maxDigits) ∧
        Numeral.significant digits = Numeral.significant digits' ∧
        (sign = sign' ∨ Numeral.significant digits = []) := by
  rw [← h.worth_eq_iff h', ofAtom_of_isNumeralOf h, ofAtom_of_isNumeralOf h']
  by_cases hlength : digits.length ≤ Numeral.maxDigits <;>
    by_cases hlength' : digits'.length ≤ Numeral.maxDigits <;>
    simp [hlength, hlength', eq_comm]

end Value

/-- A text is read as nil, true or false if it is that word. It is read as an integer if it
is an optional sign and one or more decimal digits of any scripts: the integer is the sign
times what the digits make in base ten, and there is none if there are more than 4300 digits.
All other texts are read as the symbol of that name. An integer of up to 4300 digits is read
back from its written form. Two numerals are read as one integer exactly if they have no
more digits than that, differ in nothing but zeros in front, and have one sign or are zero. -/
theorem atoms_classified :
    Numeral.maxDigits = 4300 ∧
    (∀ text result, Value.ofAtom text = result ↔ Value.ReadsAs text result) ∧
    (∀ room n, (Nat.digits 10 n.natAbs).length ≤ Numeral.maxDigits →
      ∃ text, (Value.int n).render room = .ok text ∧ Value.ofAtom text = .ok (.int n)) ∧
    ∀ (text other : String) (sign sign' : Int) (digits digits' : List Nat),
      Numeral.IsNumeralOf text.toList sign digits →
      Numeral.IsNumeralOf other.toList sign' digits' →
      ((∃ n, Value.ofAtom text = .ok (.int n) ∧ Value.ofAtom other = .ok (.int n)) ↔
        (digits.length ≤ Numeral.maxDigits ∧ digits'.length ≤ Numeral.maxDigits) ∧
          Numeral.significant digits = Numeral.significant digits' ∧
          (sign = sign' ∨ Numeral.significant digits = [])) := by
  refine ⟨rfl, fun _ _ => Value.ofAtom_eq_iff, fun room n hlength => ?_,
    fun _ _ _ _ _ _ => Value.ofAtom_same_iff⟩
  have hfits := (Numeral.fits_iff n).mpr hlength
  refine ⟨toString n, ?_, Value.ofAtom_numeral (Numeral.parse?_toString hfits)⟩
  rw [Value.render, Unwritable.numeral_of_fits hfits]

/-- Zero has one value with either sign and in the digits of any script, and -120 is read back. -/
theorem atoms_classified_sample :
    Numeral.IsNumeralOf "-00".toList (-1) [0, 0] ∧
      Numeral.IsNumeralOf "\u0660".toList 1 [0] ∧
      (∃ n, Value.ofAtom "-00" = .ok (.int n) ∧ Value.ofAtom "\u0660" = .ok (.int n)) ∧
      (Nat.digits 10 (-120 : Int).natAbs).length ≤ Numeral.maxDigits ∧
      ∃ text, (Value.int (-120)).render 0 = .ok text ∧ Value.ofAtom text = .ok (.int (-120)) := by
  obtain ⟨-, -, hback, hsame⟩ := atoms_classified
  have hminus : Numeral.IsNumeralOf "-00".toList (-1) [0, 0] :=
    ⟨['-'], ['0', '0'], rfl, by simp, by simp, rfl⟩
  have harabic : Numeral.IsNumeralOf "\u0660".toList 1 [0] :=
    ⟨[], ['\u0660'], rfl, by simp, by simp, rfl⟩
  have hlength : (Nat.digits 10 (-120 : Int).natAbs).length ≤ Numeral.maxDigits := by
    norm_num [Numeral.maxDigits]
  refine ⟨hminus, harabic, (hsame _ _ _ _ _ _ hminus harabic).mpr ?_, hlength,
    hback 0 (-120) hlength⟩
  decide

example : Value.ofAtom "+-1" = .ok (.sym "+-1") := rfl

end Sexpr
