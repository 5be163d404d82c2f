import Sexpr.Proofs.Endings
import Sexpr.Proofs.Growth

/-!
# What a failure blames

A failure names what it is about: a symbol, a form, a primitive. Main statement: what a
failed evaluation names stands in an evaluated position of the expression, and it is at
fault by the bindings that the evaluation leaves. What was bound where it failed is still
bound to the same, and what was not bound there was not bound before either.
-/
namespace Sexpr

/-- The expression applies what the name stands for to these arguments. -/
def Value.Applies (expr : Value) (name : String) (args : List Value) : Prop :=
  SpecialForm.ofName? name = none ∧ Within (.list (.sym name :: args)) expr

/-- What the name stands for is asked for in an evaluated position. -/
def Value.AsksFor (expr : Value) (name : String) : Prop :=
  Within (.sym name) expr ∨ ∃ args, expr.Applies name args

/-- The failure has its cause in the expression and the bindings `before` and `after` its
evaluation. -/
inductive Failure.Blames (expr : Value) (before after : Bindings) : Failure → Prop where
  | undefined {name} : expr.AsksFor name → before.contains name = false →
      after.contains name = false → Blames expr before after (.undefined (.sym name))
  | redefine {name body} : Within (.definition name body) expr → after.contains name = true →
      Blames expr before after (.redefine (.sym name))
  | notAFunction {name args callee} : expr.Applies name args → after.get? name = some callee →
      (∀ primitive, callee ≠ .prim primitive) →
      Blames expr before after (.notAFunction (.sym name))
  | badArg {name args primitive} : expr.Applies name args →
      after.get? name = some (.prim primitive) → primitive.minArity ≤ args.length →
      Blames expr before after (.badArg (.sym name))
  | primitiveTooFewArgs {name args primitive} : expr.Applies name args →
      after.get? name = some (.prim primitive) → primitive ∈ Primitive.builtins →
      args.length < primitive.minArity →
      Blames expr before after (.primitiveTooFewArgs (.str primitive.name)
        (.int primitive.minArity) (.int args.length))
  | specialTooFewArgs {form : SpecialForm} {args} :
      Within (.list (.sym form.name :: args)) expr → args.length < form.arity →
      Blames expr before after (.specialTooFewArgs (.sym form.name))
  | specialTooManyArgs {form : SpecialForm} {args} :
      Within (.list (.sym form.name :: args)) expr → form.arity < args.length →
      Blames expr before after (.specialTooManyArgs (.sym form.name))
  | defineBadSymbol {target body} :
      Within (.list [.sym SpecialForm.define.name, target, body]) expr →
      (∀ symbol, target ≠ .sym symbol) → Blames expr before after (.defineBadSymbol target)
  | unknown {head args} : Within (.list (head :: args)) expr → (∀ name, head ≠ .sym name) →
      Blames expr before after (.unknown (.list (head :: args)))

/-! ## From a part to the whole -/

section
variable {part expr : Value} {name : String} {args : List Value}

theorem Value.Applies.of_within (h : part.Applies name args) (hpart : Within part expr) :
    expr.Applies name args :=
  ⟨h.1, h.2.trans hpart⟩

theorem Value.AsksFor.of_within (h : part.AsksFor name) (hpart : Within part expr) :
    expr.AsksFor name := by
  rcases h with hsymbol | ⟨args, happlies⟩
  · exact .inl (hsymbol.trans hpart)
  · exact .inr ⟨args, happlies.of_within hpart⟩

/-- What is to blame in a part is to blame in the whole, if the names that were not bound
before the part were not bound before the whole. -/
theorem Failure.Blames.of_within {failure : Failure} {before middle after : Bindings}
    (h : failure.Blames part middle after) (hpart : Within part expr)
    (hbefore : ∀ name, middle.contains name = false → before.contains name = false) :
    failure.Blames expr before after := by
  cases h with
  | undefined hasks hmiddle hafter =>
    exact .undefined (hasks.of_within hpart) (hbefore _ hmiddle) hafter
  | redefine hwithin hafter => exact .redefine (hwithin.trans hpart) hafter
  | notAFunction happlies hcallee hprimitive =>
    exact .notAFunction (happlies.of_within hpart) hcallee hprimitive
  | badArg happlies hcallee hfloor => exact .badArg (happlies.of_within hpart) hcallee hfloor
  | primitiveTooFewArgs happlies hcallee hbuiltin hfew =>
    exact .primitiveTooFewArgs (happlies.of_within hpart) hcallee hbuiltin hfew
  | specialTooFewArgs hwithin hfew => exact .specialTooFewArgs (hwithin.trans hpart) hfew
  | specialTooManyArgs hwithin hmany => exact .specialTooManyArgs (hwithin.trans hpart) hmany
  | defineBadSymbol hwithin htarget => exact .defineBadSymbol (hwithin.trans hpart) htarget
  | unknown hwithin hhead => exact .unknown (hwithin.trans hpart) hhead

end

/-- Where only native values are bound, a name that stands for nothing is not bound. -/
theorem Session.Every.contains_of_value? {session : Session} {name : String}
    (h : session.Every Native) (hname : session.bindings.value? name = none) :
    session.bindings.contains name = false := by
  unfold Bindings.value? at hname
  split at hname
  · rename_i hnull
    exact (h name _ hnull).elim
  · simp [Bindings.contains, hname]

/-! ## Faults -/

theorem SpecialForm.arityFailure_blames {form : SpecialForm} {args : List Value}
    (bindings : Bindings) (hlength : args.length ≠ form.arity) :
    (form.arityFailure (.sym form.name) args).Blames (.list (.sym form.name :: args)) bindings
      bindings := by
  unfold arityFailure
  split
  · rename_i hfew
    exact .specialTooFewArgs .self hfew
  · rename_i hfew
    exact .specialTooManyArgs .self (by omega)

/-- Arguments that all have a value have as many values. -/
theorem evaluateEach_length [Host] {room : Nat} {args values : List Value} {session after : Session}
    (h : evaluateEach room args session = .ok values after) : values.length = args.length := by
  induction args generalizing session values with
  | nil =>
    cases h
    rfl
  | cons arg args ih =>
    obtain ⟨value, others, between, rfl, -, hothers⟩ := evaluateEach_cons_eq_ok_iff.mp h
    rw [List.length_cons, List.length_cons, ih hothers]

namespace Moment

variable [Host] {moment : Moment} {failure : Failure} {after : Session}

/-- The head of an application is still bound to the primitive after its arguments. -/
theorem Calls.get? {inner : Nat} {name : String} {primitive : Primitive} {values : List Value}
    (h : moment.Calls inner name primitive values after) :
    ∃ args, moment.expr.Applies name args ∧ values.length = args.length ∧
      after.bindings.get? name = some (.prim primitive) := by
  cases h with
  | @intro _ _ _ args _ _ _ _ _ hname hcallee hargs =>
    refine ⟨args, ⟨hname, .self⟩, evaluateEach_length hargs, ?_⟩
    exact (evaluateEach_extends hargs).get? _ _ (Bindings.get?_of_value? hcallee)

/-- A moment that is at fault has in itself what its failure blames. -/
theorem Fault.blames (h : moment.Fault (.failure failure) after)
    (hexpr : moment.expr.Every Native) (hsession : moment.session.Every Native) :
    failure.Blames moment.expr moment.session.bindings after.bindings := by
  cases h with
  | symbol hname =>
    have hunbound := hsession.contains_of_value? hname
    exact .undefined (.inl .self) hunbound hunbound
  | headless hhead => exact .unknown .self hhead
  | badTarget hname htarget =>
    cases Value.ofName?_some hname
    exact .defineBadSymbol .self htarget
  | misuse hname hlength =>
    cases Value.ofName?_some hname
    exact SpecialForm.arityFailure_blames _ hlength
  | redefine hbound => exact .redefine .self hbound
  | @head _ _ args _ hname hcallee =>
    have hunbound := hsession.contains_of_value? hcallee
    exact .undefined (.inr ⟨args, hname, .self⟩) hunbound hunbound
  | notAFunction hname hcallee hprimitive =>
    exact .notAFunction ⟨hname, .self⟩ (Bindings.get?_of_value? hcallee) hprimitive
  | @call _ inner name primitive values between _ _ hcalls herror =>
    have hnative := (hcalls.every native_closed hexpr hsession).1
    obtain ⟨operation, hoperation⟩ := operation_of_mem_builtins hnative
    -- The head was looked up before the arguments, which have only added bindings.
    obtain ⟨args, happlies, hlength, hcallee⟩ := hcalls.get?
    -- The session is as the arguments have left it.
    obtain ⟨rfl, ⟨hfew, hreason⟩ | ⟨rejection, hfloor, -, hreason⟩⟩ :=
      call_builtin_error hoperation herror
    · rw [hlength] at hfew hreason
      cases hreason
      exact .primitiveTooFewArgs happlies hcallee hnative hfew
    · cases hmessage : rejection.message inner with
      | ok text =>
        rw [hmessage] at hreason
        cases hreason
        exact .badArg happlies hcallee (hlength ▸ hfloor)
      | error unwritable =>
        rw [hmessage] at hreason
        cases unwritable <;> cases hreason

end Moment

/-! ## Failures -/

/-- With built-in primitives only, a failed evaluation blames what is at fault. A name that
is undefined is asked for and bound neither before nor after. A name that is defined again
is the target of a definition and bound in the end. A head that is no function is bound to
something else in the end, and a head that is blamed for its arguments to a primitive that
takes as many. A primitive with too few arguments is a built-in one that stands at the head
of an application with just so many. A special form has more or fewer arguments than it
takes, a bad target is no symbol, and a form that is unknown begins with no symbol. -/
theorem failures_blame_culprits [Host] {room : Nat} {expr : Value} {session after : Session}
    {failure : Failure} (hexpr : expr.Every Native) (hsession : session.Every Native)
    (h : evaluate room expr session = .error (.failure failure) after) :
    failure.Blames expr session.bindings after.bindings := by
  obtain ⟨target, hreach, hfault⟩ := Moment.exists_fault h
  obtain ⟨htarget, hmiddle⟩ := hreach.every native_closed hexpr hsession
  -- A name that is bound at first is still bound where the fault is.
  refine (hfault.blames htarget hmiddle).of_within hreach.within fun name hunbound => ?_
  cases hbound : session.bindings.contains name with
  | false => rfl
  | true =>
    have hlater := hreach.contains hbound
    simp [hlater] at hunbound

/-- The head `k` is bound to a built-in primitive only by the argument before it. -/
theorem failures_blame_culprits_sample :
    let expr := Value.list [.sym "list", .definition "k" (.sym "first"), .list [.sym "k"]]
    let after := (evaluate 100 expr).exec .initial
    expr.Every Native ∧ Session.initial.Every Native ∧
      evaluate 100 expr .initial =
        .error (.failure (.primitiveTooFewArgs (.str "first") (.int 1) (.int 0))) after ∧
      ∃ name primitive, expr.Applies name [] ∧
        after.bindings.get? name = some (.prim primitive) ∧ primitive.name = "first" := by
  intro expr after
  have hexpr : expr.Every Native := by simp [expr, Value.definition, Native]
  refine ⟨hexpr, initial_native, rfl, ?_⟩
  have hblames := @failures_blame_culprits _ 100 expr .initial after
    (.primitiveTooFewArgs (.str "first") (.int 1) (.int 0)) hexpr initial_native rfl
  generalize hfailure : Failure.primitiveTooFewArgs (.str "first") (.int 1) (.int 0) = failure
    at hblames
  cases hblames with
  | @primitiveTooFewArgs name args primitive happlies hcallee _ _ =>
    injection hfailure with hname hminimum hactual
    injection hname with hname
    injection hactual with hactual
    have hargs : args = [] := List.length_eq_zero_iff.mp (Int.ofNat.inj hactual.symm)
    exact ⟨name, primitive, hargs ▸ happlies, hcallee, hname.symm⟩
  | undefined | redefine | notAFunction | badArg | specialTooFewArgs | specialTooManyArgs |
    defineBadSymbol | unknown => cases hfailure

end Sexpr
