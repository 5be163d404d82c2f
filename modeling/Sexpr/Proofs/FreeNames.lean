import Sexpr.Proofs.Defining

/-!
# Free names

The names that evaluation may look up or bind: symbols in evaluated positions, the heads
of applications and the targets of definitions. What is quoted has none, a form that fails
before it evaluates anything has none, and a special form is known by its name without
looking it up. Main statement: a name that is no target of a definition keeps its binding.
-/
namespace Sexpr

namespace Value

/-! ## The free names of an expression -/

mutual

/-- The names that are free in an expression. -/
def free : Value → List String
  | .sym name => [name]
  | .list (.sym name :: args) =>
    match SpecialForm.ofName? name with
    | some form => freeSpecial form args
    | none => name :: freeEach args
  | _ => []

/-- The names that are free in a special form with these arguments. -/
def freeSpecial : SpecialForm → List Value → List String
  | .choose, [condition, consequent, alternative] =>
    free condition ++ free consequent ++ free alternative
  | .define, [.sym name, body] => name :: free body
  | _, _ => []

/-- The names that are free in one of the expressions. -/
def freeEach : List Value → List String
  | [] => []
  | expr :: rest => free expr ++ freeEach rest

end

variable {name : String} {args : List Value}

theorem mem_freeEach_iff : name ∈ freeEach args ↔ ∃ arg ∈ args, name ∈ arg.free := by
  induction args with
  | nil => simp [freeEach]
  | cons arg rest ih => simp [freeEach, ih]

@[simp] theorem free_sym (name : String) : (sym name).free = [name] := rfl

@[simp] theorem free_definition (name : String) (body : Value) :
    (definition name body).free = name :: body.free := rfl

@[simp] theorem free_choice (c t a : Value) :
    (choice c t a).free = c.free ++ t.free ++ a.free := rfl

theorem free_application (hname : SpecialForm.ofName? name = none) :
    (list (.sym name :: args)).free = name :: freeEach args := by
  rw [free, hname]

/-- A special form has no free name but those of its arguments; its own is not one. -/
theorem mem_free_special {form : SpecialForm} {key : String}
    (hname : SpecialForm.ofName? name = some form)
    (h : key ∈ (list (.sym name :: args)).free) : ∃ arg ∈ args, key ∈ arg.free := by
  simp only [free, hname] at h
  unfold freeSpecial at h
  split at h
  · rw [List.mem_append, List.mem_append] at h
    rcases h with (hcondition | hconsequent) | halternative
    · exact ⟨_, by simp, hcondition⟩
    · exact ⟨_, by simp, hconsequent⟩
    · exact ⟨_, by simp, halternative⟩
  · rcases List.mem_cons.mp h with rfl | hbody
    · exact ⟨.sym key, by simp, by simp⟩
    · exact ⟨_, by simp, hbody⟩
  · cases h

end Value

/-! ## Free names of parts -/

/-- What is free in an evaluated position is free in the whole. -/
theorem Within.free_subset {part expr : Value} (h : Within part expr) : part.free ⊆ expr.free := by
  induction h with
  | self => exact List.Subset.refl _
  | body _ ih => exact List.subset_cons_of_subset _ ih
  | condition _ ih | consequent _ ih | alternative _ ih =>
    intro name hname
    simp [ih hname]
  | @argument name args arg hname harg _ ih =>
    intro key hkey
    rw [Value.free_application hname]
    exact List.mem_cons_of_mem _ (Value.mem_freeEach_iff.mpr ⟨arg, harg, ih hkey⟩)

/-- The target of a definition in an evaluated position is free. -/
theorem Within.target_mem_free {name : String} {body expr : Value}
    (h : Within (.definition name body) expr) : name ∈ expr.free :=
  h.free_subset (by simp)

/-! ## Names that keep their bindings -/

/-- However evaluation ends, a name that is no target of a definition is bound to what it
was bound to before. -/
theorem get?_exec_of_not_target [Host] {room : Nat} {expr : Value} {session : Session}
    {name : String} (h : ∀ body, ¬Within (.definition name body) expr) :
    ((evaluate room expr).exec session).bindings.get? name = session.bindings.get? name := by
  rw [bindings_exec]
  refine Bindings.get?_defineEach_of_not_mem fun hmade => ?_
  obtain ⟨⟨_, value⟩, hentry, rfl⟩ := List.mem_map.mp hmade
  obtain ⟨body, hwithin⟩ := within_of_mem_definitions hentry
  exact h body hwithin

theorem get?_exec_of_not_mem_free [Host] {room : Nat} {expr : Value} {session : Session}
    {name : String} (h : name ∉ expr.free) :
    ((evaluate room expr).exec session).bindings.get? name = session.bindings.get? name :=
  get?_exec_of_not_target fun _ hwithin => h hwithin.target_mem_free

end Sexpr
