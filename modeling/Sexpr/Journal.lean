import Sexpr.Value.Render

/-!
# The journal

A session keeps a journal of the calls whose arguments were recorded. Each argument
stands there with its written form as it was at the place of the call, or with the
reason why it had none: where little room is left, a deep argument has no written form,
though it may have one elsewhere. Main statement: what an entry holds are the arguments
of the call, all of them and in order.
-/
namespace Sexpr

/-- An argument, and its written form when it was recorded. -/
structure Recorded where
  value : Value
  text : Except Unwritable String

/-- The recorded calls, from the first to the last. -/
abbrev Journal := List (List Recorded)

namespace Recorded

/-- The entry for the arguments of a call. There is none if writing an argument comes
upon an object that is no expression. -/
def entry (room : Nat) : List Value → Except Foreign (List Recorded)
  | [] => .ok []
  | value :: rest =>
    match value.render room with
    | .error (.notAnExpression object) => .error object
    | text => (⟨value, text⟩ :: ·) <$> entry room rest

/-- An entry holds the arguments of its call. -/
theorem entry_values {room : Nat} {args : List Value} {recorded : List Recorded}
    (h : entry room args = .ok recorded) : recorded.map Recorded.value = args := by
  induction args generalizing recorded with
  | nil => cases h; rfl
  | cons value rest ih =>
    rw [entry] at h
    split at h
    · cases h
    · cases hrest : entry room rest with
      | error object => rw [hrest] at h; cases h
      | ok others => rw [hrest] at h; cases h; simp [ih hrest]

end Recorded
end Sexpr
