/-!
# Room for nested work

Evaluating, rendering, inspecting and comparing nested expressions is bounded.
Each level takes some of the room that is left, and work that would need more than
there is ends as too deep. Reading is not bounded.

Room is counted in frames of a call stack of limited size, the *recursion limit*.
-/
namespace Sexpr.Room

/-! ## Limits -/

/-- The recursion limit unless a larger one is asked for. -/
def defaultLimit : Nat := 1000

/-- The frames that are taken before nested work begins. -/
def reserved : Nat := 12

/-- The room that a recursion limit leaves for nested work. -/
def ofLimit (limit : Nat) : Nat := limit - reserved

/-! ## Costs of a way

The room of an operation that evaluates forms is what is left where a form that is attempted
begins. Where the way to some work is shorter, more is left, and less where it is longer. -/

/-- To go through the forms of a source, attempt one and catch its failure. A form that is
evaluated without being attempted has this much more room. -/
def attempt : Nat := 3

/-- To ask for lines. What is typed has this much less room than what is in a file. -/
def line : Nat := 1

/-- To start a session. A prelude has this much less room than what is evaluated later. -/
def start : Nat := 1

/-- A value that is printed has this much more room than the form had. -/
def print : Nat := 4

/-- A failure that is printed has this much more room than the form had. -/
def describe : Nat := 2

/-- To write a line of the log. A failure that is logged has this much less room. -/
def log : Nat := 9

/-! ## Costs of one level -/

/-- A list form evaluated inside another. -/
def evaluateForm : Nat := 3

/-- A list rendered. -/
def renderList : Nat := 3

/-- A quote rendered. -/
def renderQuote : Nat := 1

/-- A list inspected. -/
def inspectList : Nat := 1

/-- A quote inspected. -/
def inspectQuote : Nat := 2

/-- A list or a quote compared. -/
def compareLevel : Nat := 3

/-- A quote looked up as a name. -/
def hashQuote : Nat := 2

/-- The room left after one level of this cost; `none` if there is too little. -/
def enter (cost room : Nat) : Option Nat :=
  if cost ≤ room then some (room - cost) else none

theorem enter_eq_some_iff {cost room inner : Nat} :
    enter cost room = some inner ↔ room = cost + inner := by
  rw [enter]
  split
  · rw [Option.some.injEq]
    omega
  · simp only [reduceCtorEq, false_iff]
    omega

theorem enter_eq_none_iff {cost room : Nat} : enter cost room = none ↔ room < cost := by
  rw [enter]
  split
  · simp only [reduceCtorEq, false_iff]
    omega
  · simp only [true_iff]
    omega

/-- More room never refuses what less room allows. -/
theorem enter_mono {cost room room' inner : Nat} (h : room ≤ room')
    (hinner : enter cost room = some inner) :
    ∃ inner', enter cost room' = some inner' ∧ inner ≤ inner' := by
  simp only [enter] at hinner ⊢
  split at hinner
  · rename_i hcost
    cases hinner
    exact ⟨room' - cost, by simp [Nat.le_trans hcost h], Nat.sub_le_sub_right h cost⟩
  · cases hinner

end Sexpr.Room
