import Sexpr.Proofs.Attempts
import Sexpr.Proofs.RoundTrip

/-!
# Nesting and room

How deep a value may be nested for the room there is. Main statements: exactly as many quotes
are written as there is room for, and of choices one inside the other exactly a third as many
are evaluated.
-/
namespace Sexpr

namespace Value

/-- The value under this many quotes. -/
def quoted (value : Value) : Nat → Value
  | 0 => value
  | n + 1 => .quote (value.quoted n)

/-- The value as what this many choices choose, one inside the other. -/
def chosen (value : Value) : Nat → Value
  | 0 => value
  | n + 1 => .choice (.bool true) (value.chosen n) .nil

end Value

/-- The text under this many quotes. -/
def quotedText (text : String) : Nat → String
  | 0 => text
  | n + 1 => "'" ++ quotedText text n

/-- The text within this many choices. -/
def chosenText (text : String) : Nat → String
  | 0 => text
  | n + 1 => "(if true " ++ chosenText text n ++ " nil)"

/-! ## Quotes -/

theorem Value.readable_nil : Value.nil.Readable :=
  trivial

theorem Value.readable_quoted {value : Value} (h : value.Readable) (n : Nat) :
    (value.quoted n).Readable := by
  induction n with
  | zero => exact h
  | succ n ih => exact ih

theorem render_quoted (value : Value) (room n : Nat) :
    (value.quoted n).render (room + n) = (quotedText · n) <$> value.render room := by
  induction n with
  | zero => cases h : value.render room <;> simp [Value.quoted, quotedText, h]
  | succ n ih =>
    have hroom : Unwritable.within Room.renderQuote (room + (n + 1)) = .ok (room + n) := rfl
    rw [Value.quoted, Value.render, hroom]
    change ((value.quoted n).render (room + n) >>= fun text => pure ("'" ++ text)) = _
    rw [ih]
    cases value.render room <;> rfl

theorem render_quoted_tooDeep (value : Value) {room n : Nat} (h : room < n) :
    (value.quoted n).render room = .error .tooDeep := by
  induction n generalizing room with
  | zero => omega
  | succ n ih =>
    cases room with
    | zero => rfl
    | succ room =>
      have hroom : Unwritable.within Room.renderQuote (room + 1) = .ok room := rfl
      rw [Value.quoted, Value.render, hroom]
      change ((value.quoted n).render room >>= fun text => pure ("'" ++ text)) = _
      rw [ih (Nat.lt_of_succ_lt_succ h)]
      rfl

theorem newline_not_mem_quotedText {text : String} (h : '\n' ∉ text.toList) (n : Nat) :
    '\n' ∉ (quotedText text n).toList := by
  induction n with
  | zero => exact h
  | succ n ih => simp [quotedText, ih]

theorem readAll_quotedText (n : Nat) :
    Source.readAll (quotedText "nil" n) = .ok [Value.nil.quoted n] :=
  readAll_of_render (Value.readable_quoted Value.readable_nil n) (render_quoted .nil 0 n)

/-- One quote is taken off, however little room there is. -/
theorem evalAll_quotedText [Host] (room n : Nat) (session : Session) :
    evalAll room (quotedText "nil" (n + 1)) session = .ok [.value (Value.nil.quoted n)] session := by
  have hvalue : evaluate room (.quote (Value.nil.quoted n)) session =
      .ok (Value.nil.quoted n) session := rfl
  exact (evalAll_eq_ok_iff (readAll_quotedText (n + 1))).mpr (.cons (.value hvalue) .nil)

/-! ## Choices -/

theorem Value.readable_chosen {value : Value} (h : value.Readable) (n : Nat) :
    (value.chosen n).Readable := by
  have hname : IsName "if" := isName_iff_read.mpr (by rw [Source.read, Source.readAll_eq]; rfl)
  induction n with
  | zero => exact h
  | succ n ih => exact ⟨hname, trivial, ih, trivial, trivial⟩

theorem render_chosen (value : Value) (room n : Nat) :
    (value.chosen n).render (room + 3 * n) = (chosenText · n) <$> value.render room := by
  induction n with
  | zero => cases h : value.render room <;> simp [Value.chosen, chosenText, h]
  | succ n ih =>
    have henter : Room.enter Room.renderList (room + 3 * (n + 1)) = some (room + 3 * n) :=
      Room.enter_eq_some_iff.mpr (by unfold Room.renderList; omega)
    have hroom : Unwritable.within Room.renderList (room + 3 * (n + 1)) = .ok (room + 3 * n) := by
      rw [Unwritable.within, henter]
    rw [Value.chosen, Value.choice, Value.render, hroom]
    change (Value.renderEach (room + 3 * n) [.sym "if", .bool true, value.chosen n, .nil] >>=
      fun texts => pure ("(" ++ " ".intercalate texts ++ ")")) = _
    simp only [Value.renderEach, Value.render, ih]
    cases value.render room with
    | error reason => rfl
    | ok text =>
      have hwords : "(" ++ " ".intercalate ["if", "true", chosenText text n, "nil"] ++ ")" =
          "(if true " ++ chosenText text n ++ " nil)" := by
        simp only [String.intercalate_cons_cons, String.intercalate_singleton]
        rw [← String.toList_inj]
        simp
      exact congrArg Except.ok hwords

theorem readAll_chosenText (n : Nat) :
    Source.readAll (chosenText "nil" n) = .ok [Value.nil.chosen n] :=
  readAll_of_render (Value.readable_chosen Value.readable_nil n) (render_chosen .nil 0 n)

section
variable [Host] (value : Value) (session : Session)

theorem evaluate_chosen (room n : Nat) :
    evaluate (room + 3 * n) (value.chosen n) session = evaluate room value session := by
  induction n with
  | zero => rfl
  | succ n ih =>
    have hroom : Room.enter Room.evaluateForm (room + 3 * (n + 1)) = some (room + 3 * n) :=
      Room.enter_eq_some_iff.mpr (by unfold Room.evaluateForm; omega)
    rw [Value.chosen, evaluate_choice session hroom]
    exact ih

theorem evaluate_chosen_tooDeep {room n : Nat} (h : room < 3 * n) :
    evaluate room (value.chosen n) session = .error .tooDeep session := by
  induction n generalizing room with
  | zero => omega
  | succ n ih =>
    cases hroom : Room.enter Room.evaluateForm room with
    | none => exact evaluate_tooDeep session hroom
    | some inner =>
      have hinner : inner < 3 * n := by
        have := Room.enter_eq_some_iff.mp hroom
        unfold Room.evaluateForm at this
        omega
      rw [Value.chosen, evaluate_choice session hroom]
      exact ih hinner

end

end Sexpr
