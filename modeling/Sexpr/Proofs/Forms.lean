import Sexpr.Evaluation
import Sexpr.Proofs.Values

/-!
# Forms and evaluated positions

Evaluation goes into three kinds of expression: a definition goes into its body, a
choice into its condition and one branch, an application into its arguments. All
others are done with at once. What stands in an evaluated position of an expression
is what can be reached this way; nothing under a quote can.
-/
namespace Sexpr

namespace Value

/-! ## Kinds of expression -/

/-- The form that binds a name to the value of its body. -/
def definition (name : String) (body : Value) : Value := .list [.sym "def", .sym name, body]

/-- The form that evaluates one of two branches. -/
def choice (condition consequent alternative : Value) : Value :=
  .list [.sym "if", condition, consequent, alternative]

/-- With this room, evaluation is done with the expression without evaluating a part of it. -/
inductive Immediate (room : Nat) : Value → Prop where
  | nil : Immediate room .nil
  | bool (b) : Immediate room (.bool b)
  | int (n) : Immediate room (.int n)
  | str (text) : Immediate room (.str text)
  | prim (primitive) : Immediate room (.prim primitive)
  | foreign (object) : Immediate room (.foreign object)
  | sym (name) : Immediate room (.sym name)
  | quote (inner) : Immediate room (.quote inner)
  | empty : Immediate room (.list [])
  /-- A list that begins with no symbol. -/
  | headless {head args} : (∀ name, head ≠ .sym name) → Immediate room (.list (head :: args))
  | tooDeep {name args} : Room.enter Room.evaluateForm room = none →
      Immediate room (.list (.sym name :: args))
  | quotation {inner name quoted} : Room.enter Room.evaluateForm room = some inner →
      SpecialForm.ofName? name = some .quote → Immediate room (.list [.sym name, quoted])
  /-- A definition of what is no symbol. -/
  | badTarget {inner name target body} : Room.enter Room.evaluateForm room = some inner →
      SpecialForm.ofName? name = some .define → (∀ symbol, target ≠ .sym symbol) →
      Immediate room (.list [.sym name, target, body])
  /-- A special form with the wrong number of arguments. -/
  | misuse {inner name form args} : Room.enter Room.evaluateForm room = some inner →
      SpecialForm.ofName? name = some form → args.length ≠ form.arity →
      Immediate room (.list (.sym name :: args))

theorem ofName?_some {name : String} {form : SpecialForm}
    (h : SpecialForm.ofName? name = some form) : name = form.name := by
  unfold SpecialForm.ofName? at h
  split at h
  · cases h; assumption
  split at h
  · cases h; assumption
  split at h
  · cases h; assumption
  · cases h

/-- A special form with the right number of arguments is one of three. -/
theorem special_kinds {form : SpecialForm} {args : List Value} (h : args.length = form.arity) :
    (∃ target body, form = .define ∧ args = [target, body]) ∨
      (∃ c t a, form = .choose ∧ args = [c, t, a]) ∨ ∃ inner, form = .quote ∧ args = [inner] :=
  match form, args, h with
  | .define, [target, body], _ => .inl ⟨target, body, rfl, rfl⟩
  | .choose, [c, t, a], _ => .inr (.inl ⟨c, t, a, rfl, rfl⟩)
  | .quote, [inner], _ => .inr (.inr ⟨inner, rfl, rfl⟩)

theorem sym_or_not (value : Value) : (∃ name, value = .sym name) ∨ ∀ name, value ≠ .sym name := by
  cases value with
  | sym name => exact .inl ⟨name, rfl⟩
  | nil | bool | int | str | list | quote | prim | foreign => exact .inr nofun

/-- Evaluation is done with an expression at once, or it has room to go into one of three
kinds of form. -/
theorem kinds (room : Nat) (expr : Value) :
    expr.Immediate room ∨ ∃ inner, Room.enter Room.evaluateForm room = some inner ∧
      ((∃ name body, expr = definition name body) ∨ (∃ c t a, expr = choice c t a) ∨
        ∃ name args, SpecialForm.ofName? name = none ∧ expr = .list (.sym name :: args)) := by
  cases expr with
  | nil | bool | int | str | sym | quote | prim | foreign => exact .inl (by constructor)
  | list items =>
    cases items with
    | nil => exact .inl .empty
    | cons head args =>
      rcases sym_or_not head with ⟨name, rfl⟩ | hhead
      · cases hroom : Room.enter Room.evaluateForm room with
        | none => exact .inl (.tooDeep hroom)
        | some inner =>
          cases hname : SpecialForm.ofName? name with
          | none => exact .inr ⟨inner, rfl, .inr (.inr ⟨name, args, hname, rfl⟩)⟩
          | some form =>
            by_cases hlength : args.length = form.arity
            · cases ofName?_some hname
              rcases special_kinds hlength with ⟨target, body, rfl, rfl⟩ | ⟨c, t, a, rfl, rfl⟩ |
                ⟨quoted, rfl, rfl⟩
              · rcases sym_or_not target with ⟨name, rfl⟩ | htarget
                · exact .inr ⟨inner, rfl, .inl ⟨name, body, rfl⟩⟩
                · exact .inl (.badTarget hroom hname htarget)
              · exact .inr ⟨inner, rfl, .inr (.inl ⟨c, t, a, rfl⟩)⟩
              · exact .inl (.quotation hroom hname)
            · exact .inl (.misuse hroom hname hlength)
      · exact .inl (.headless hhead)

/-- Induction over the parts of an expression that evaluation goes into, each with the
room that is left for it. Of a choice these are the condition and the branch that its value
selects. -/
@[elab_as_elim]
theorem evaluationInduction {P : Nat → Value → Prop}
    (immediate : ∀ room expr, expr.Immediate room → P room expr)
    (definition : ∀ room inner name body, Room.enter Room.evaluateForm room = some inner →
      P inner body → P room (definition name body))
    (choice : ∀ room inner c t a, Room.enter Room.evaluateForm room = some inner →
      P inner c → (∀ value : Value, P inner (if value.isTruthy then t else a)) →
      P room (choice c t a))
    (application : ∀ room inner name args, Room.enter Room.evaluateForm room = some inner →
      SpecialForm.ofName? name = none → (∀ arg ∈ args, P inner arg) →
      P room (.list (.sym name :: args)))
    (room : Nat) (expr : Value) : P room expr := by
  induction expr generalizing room with
  | nil | bool | int | str | sym | quote | prim | foreign =>
    exact immediate room _ (by constructor)
  | list items ih =>
    rcases kinds room (.list items) with h | ⟨inner, hroom, ⟨name, body, h⟩ | ⟨c, t, a, h⟩ |
      ⟨name, args, hname, h⟩⟩
    · exact immediate room _ h
    · cases h
      exact definition room inner name body hroom (ih body (by simp) inner)
    · cases h
      refine choice room inner c t a hroom (ih c (by simp) inner) fun value => ?_
      split
      · exact ih t (by simp) inner
      · exact ih a (by simp) inner
    · cases h
      refine application room inner name args hroom hname fun arg harg => ?_
      exact ih arg (List.mem_cons_of_mem _ harg) inner

end Value

/-! ## Evaluated positions -/

/-- `part` stands in an evaluated position of an expression. -/
inductive Within (part : Value) : Value → Prop where
  | self : Within part part
  | body {name body} : Within part body → Within part (.definition name body)
  | condition {c t a} : Within part c → Within part (.choice c t a)
  | consequent {c t a} : Within part t → Within part (.choice c t a)
  | alternative {c t a} : Within part a → Within part (.choice c t a)
  | argument {name args arg} : SpecialForm.ofName? name = none → arg ∈ args →
      Within part arg → Within part (.list (.sym name :: args))

theorem Within.trans {part middle expr : Value} (h : Within part middle)
    (hexpr : Within middle expr) : Within part expr := by
  induction hexpr with
  | self => exact h
  | body _ ih => exact .body ih
  | condition _ ih => exact .condition ih
  | consequent _ ih => exact .consequent ih
  | alternative _ ih => exact .alternative ih
  | argument hname harg _ ih => exact .argument hname harg ih

/-- What holds of the leaves of an expression holds of those of its parts. -/
theorem Within.every {p : Value → Prop} {part expr : Value} (h : Within part expr)
    (hexpr : expr.Every p) : part.Every p := by
  induction h with
  | self => exact hexpr
  | body _ ih | condition _ ih | consequent _ ih | alternative _ ih =>
    simp only [Value.definition, Value.choice, Value.Every, Value.everyEach_iff,
      List.forall_mem_cons] at hexpr
    exact ih (by simp [hexpr])
  | argument _ harg _ ih =>
    simp only [Value.Every, Value.everyEach_iff] at hexpr
    exact ih (hexpr _ (List.mem_cons_of_mem _ harg))

theorem within_definition_iff {part body : Value} {name : String} :
    Within part (.definition name body) ↔ part = .definition name body ∨ Within part body := by
  constructor
  · intro h
    generalize hexpr : Value.definition name body = expr at h
    cases h with
    | self => exact .inl rfl
    | body h =>
      cases hexpr
      exact .inr h
    | condition | consequent | alternative => simp [Value.definition, Value.choice] at hexpr
    | argument hname =>
      cases hexpr
      cases hname
  · rintro (rfl | h)
    · exact .self
    · exact .body h

theorem within_application_iff {part : Value} {name : String} {args : List Value}
    (hname : SpecialForm.ofName? name = none) :
    Within part (.list (.sym name :: args)) ↔
      part = .list (.sym name :: args) ∨ ∃ arg ∈ args, Within part arg := by
  constructor
  · intro h
    generalize hexpr : Value.list (.sym name :: args) = expr at h
    cases h with
    | self => exact .inl rfl
    | body | condition | consequent | alternative =>
      cases hexpr
      cases hname
    | argument _ harg h =>
      cases hexpr
      exact .inr ⟨_, harg, h⟩
  · rintro (rfl | ⟨arg, harg, h⟩)
    · exact .self
    · exact .argument hname harg h

end Sexpr
