import Sexpr.Value.Basic

/-!
# Values as trees

Induction over values, with one hypothesis for all members of a list, and the
predicates that hold of a value because they hold of each of its leaves.
-/
namespace Sexpr.Value

/-! ## Induction -/

/-- Induction over values: a list may assume the property of all its members. -/
@[elab_as_elim, induction_eliminator]
theorem induction {P : Value → Prop} (nil : P .nil) (bool : ∀ b, P (.bool b))
    (int : ∀ n, P (.int n)) (str : ∀ text, P (.str text)) (sym : ∀ name, P (.sym name))
    (list : ∀ items, (∀ item ∈ items, P item) → P (.list items))
    (quote : ∀ inner, P inner → P (.quote inner)) (prim : ∀ primitive, P (.prim primitive))
    (foreign : ∀ object, P (.foreign object)) (value : Value) : P value := by
  refine @Value.rec P (fun items => ∀ item ∈ items, P item) nil bool int str sym list quote prim
    foreign ?_ ?_ value
  · intro item hitem
    cases hitem
  · intro first rest hfirst hrest item hitem
    cases hitem with
    | head => exact hfirst
    | tail _ htail => exact hrest item htail

/-! ## Leaves -/

mutual

/-- Every leaf of the value, which is what is neither a list nor a quote, satisfies `p`. -/
@[simp] def Every (p : Value → Prop) : Value → Prop
  | .list items => EveryEach p items
  | .quote inner => Every p inner
  | leaf => p leaf

/-- Every leaf of every one of the values satisfies `p`. -/
def EveryEach (p : Value → Prop) : List Value → Prop
  | [] => True
  | value :: rest => Every p value ∧ EveryEach p rest

end

@[simp] theorem everyEach_iff {p : Value → Prop} {items : List Value} :
    EveryEach p items ↔ ∀ item ∈ items, item.Every p := by
  induction items with
  | nil => simp [EveryEach]
  | cons first rest ih => simp [EveryEach, ih]

theorem Every.imp {p q : Value → Prop} (h : ∀ leaf, p leaf → q leaf) {value : Value}
    (hvalue : value.Every p) : value.Every q := by
  induction value with
  | list items ih =>
    simp only [Every, everyEach_iff] at hvalue ⊢
    exact fun item hitem => ih item hitem (hvalue item hitem)
  | quote inner ih => exact ih hvalue
  | nil | bool | int | str | sym | prim | foreign => exact h _ hvalue

theorem Every.and {p q : Value → Prop} {value : Value} (hp : value.Every p) (hq : value.Every q) :
    value.Every fun leaf => p leaf ∧ q leaf := by
  induction value with
  | list items ih =>
    simp only [Every, everyEach_iff] at hp hq ⊢
    exact fun item hitem => ih item hitem (hp item hitem) (hq item hitem)
  | quote inner ih => exact ih hp hq
  | nil | bool | int | str | sym | prim | foreign => exact ⟨hp, hq⟩

/-- What holds of all leaves holds of those of any value. -/
theorem every_of_forall {p : Value → Prop} (h : ∀ leaf, p leaf) (value : Value) :
    value.Every p := by
  induction value with
  | list items ih =>
    rw [Every, everyEach_iff]
    exact ih
  | quote inner ih => exact ih
  | nil | bool | int | str | sym | prim | foreign => exact h _

/-- The leaf is no object of the embedding program. -/
def IsExpression : Value → Prop
  | .foreign _ => False
  | _ => True

end Sexpr.Value
