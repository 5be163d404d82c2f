import Mathlib.Logic.Relation
import Sexpr.Proofs.Evaluating

/-!
# Moments of an evaluation

A moment is an expression whose evaluation begins, with the room there is for it and
the session it meets. Evaluation enters further moments from it, one for each part it
evaluates, and reaches those that are entered from these. Main statements: what is
reached stands in an evaluated position; an evaluation that halts has reached a moment
that is at fault by itself and halts in the same way; and an evaluation without choices
that succeeds has reached every evaluated position.
-/
namespace Sexpr

/-- An expression whose evaluation begins. -/
structure Moment where
  room : Nat
  expr : Value
  session : Session

namespace Moment

variable [Host] {moment next target : Moment}

/-- How the evaluation ends. -/
def result (moment : Moment) : EStateM.Result Halt Session Value :=
  evaluate moment.room moment.expr moment.session

/-- The evaluation of the first moment evaluates a part of its expression at the second. -/
inductive Enters : Moment → Moment → Prop where
  | body {room inner name body session} :
      Room.enter Room.evaluateForm room = some inner → session.bindings.contains name = false →
      Enters ⟨room, .definition name body, session⟩ ⟨inner, body, session⟩
  | condition {room inner c t a session} : Room.enter Room.evaluateForm room = some inner →
      Enters ⟨room, .choice c t a, session⟩ ⟨inner, c, session⟩
  | branch {room inner c t a session value after} :
      Room.enter Room.evaluateForm room = some inner →
      evaluate inner c session = .ok value after →
      Enters ⟨room, .choice c t a, session⟩ ⟨inner, if value.isTruthy then t else a, after⟩
  | argument {room inner name primitive session before arg rest values after} :
      Room.enter Room.evaluateForm room = some inner → SpecialForm.ofName? name = none →
      session.bindings.value? name = some (.prim primitive) →
      evaluateEach inner before session = .ok values after →
      Enters ⟨room, .list (.sym name :: (before ++ arg :: rest)), session⟩ ⟨inner, arg, after⟩

/-- The evaluation of the first moment comes to the second. -/
def Reaches : Moment → Moment → Prop := Relation.ReflTransGen Enters

/-! ## Positions -/

theorem Enters.within (h : moment.Enters next) : Within next.expr moment.expr := by
  cases h with
  | body => exact .body .self
  | condition => exact .condition .self
  | @branch _ _ _ _ _ _ value =>
    cases hvalue : value.isTruthy with
    | true => exact .consequent (by simpa [hvalue] using Within.self)
    | false => exact .alternative (by simpa [hvalue] using Within.self)
  | argument _ hname => exact .argument hname (by simp) .self

theorem Reaches.within (h : moment.Reaches target) : Within target.expr moment.expr := by
  induction h using Relation.ReflTransGen.head_induction_on with
  | refl => exact .self
  | head hstep _ ih => exact ih.trans hstep.within

end Moment

/-! ## Arguments -/

section
variable [Host] {room : Nat} {args : List Value} {session after : Session}

/-- The first arguments, then the others in the session that those leave. -/
theorem evaluateEach_append (before rest : List Value) (session : Session) :
    evaluateEach room (before ++ rest) session =
      match evaluateEach room before session with
      | .ok values after =>
        match evaluateEach room rest after with
        | .ok others after => .ok (values ++ others) after
        | .error reason after => .error reason after
      | .error reason after => .error reason after := by
  induction before generalizing session with
  | nil =>
    change evaluateEach room rest session = match evaluateEach room rest session with
      | .ok others after => .ok others after
      | .error reason after => .error reason after
    cases evaluateEach room rest session <;> rfl
  | cons arg before ih =>
    rw [List.cons_append, evaluateEach_cons, evaluateEach_cons]
    cases evaluate room arg session with
    | error reason after => rfl
    | ok value after =>
      simp only [ih]
      cases evaluateEach room before after with
      | error reason after => rfl
      | ok values after =>
        simp only
        cases evaluateEach room rest after <;> rfl

/-- Arguments that all have a value have one each, at the moment when those before are done. -/
theorem evaluateEach_ok {values : List Value} (h : evaluateEach room args session = .ok values after)
    {arg : Value} (harg : arg ∈ args) :
    ∃ before rest others between value done, args = before ++ arg :: rest ∧
      evaluateEach room before session = .ok others between ∧
      evaluate room arg between = .ok value done := by
  obtain ⟨before, rest, rfl⟩ := List.append_of_mem harg
  rw [evaluateEach_append] at h
  cases hbefore : evaluateEach room before session with
  | error reason after => simp [hbefore] at h
  | ok others between =>
    rw [hbefore] at h
    simp only at h
    cases hothers : evaluateEach room (arg :: rest) between with
    | error reason after => simp [hothers] at h
    | ok values last =>
      obtain ⟨value, _, done, -, hvalue, -⟩ := evaluateEach_cons_eq_ok_iff.mp hothers
      exact ⟨before, rest, others, between, value, done, rfl, hbefore, hvalue⟩

/-- Arguments that do not all have a value halt as the first of them that has none. -/
theorem evaluateEach_error {reason : Halt}
    (h : evaluateEach room args session = .error reason after) :
    ∃ before arg rest others between, args = before ++ arg :: rest ∧
      evaluateEach room before session = .ok others between ∧
      evaluate room arg between = .error reason after := by
  induction args generalizing session with
  | nil => cases h
  | cons arg args ih =>
    rw [evaluateEach_cons] at h
    cases harg : evaluate room arg session with
    | error reason after =>
      rw [harg] at h
      cases h
      exact ⟨[], arg, args, [], session, rfl, rfl, harg⟩
    | ok value between =>
      rw [harg] at h
      cases hargs : evaluateEach room args between with
      | ok values after => simp [hargs] at h
      | error reason after =>
        simp only [hargs] at h
        cases h
        obtain ⟨before, arg', rest, others, later, rfl, hbefore, herror⟩ := ih hargs
        exact ⟨arg :: before, arg', rest, value :: others, later, rfl,
          evaluateEach_cons_eq_ok_iff.mpr ⟨value, others, between, rfl, harg, hbefore⟩, herror⟩

/-! ## Lists along arguments

What evaluation does on its way, be it the bindings that it makes or the moments that it
comes to, is listed along the arguments in the order in which they are evaluated.
-/

/-- `each` lists for arguments what `one` lists for each of them in the session that those
before it leave, up to the first that halts. -/
structure Collects {α : Type} (room : Nat) (one : Value → Session → List α)
    (each : List Value → Session → List α) : Prop where
  nil (session : Session) : each [] session = []
  cons (arg : Value) (args : List Value) (session : Session) :
    each (arg :: args) session =
      one arg session ++
        match evaluate room arg session with
        | .ok _ after => each args after
        | .error .. => []

namespace Collects

variable {α : Type} {one : Value → Session → List α} {each : List Value → Session → List α}

/-- What is listed for arguments that all have a value comes before the rest. -/
theorem append (h : Collects room one each) {before rest values : List Value}
    (hbefore : evaluateEach room before session = .ok values after) :
    each (before ++ rest) session = each before session ++ each rest after := by
  induction before generalizing session values with
  | nil =>
    cases hbefore
    rw [h.nil, List.nil_append, List.nil_append]
  | cons arg before ih =>
    obtain ⟨value, others, between, -, harg, hothers⟩ := evaluateEach_cons_eq_ok_iff.mp hbefore
    rw [List.cons_append, h.cons, h.cons, harg]
    simp only
    rw [ih hothers, List.append_assoc]

/-- What is listed is listed for an argument that evaluation comes to. -/
theorem exists_of_mem (h : Collects room one each) {entry : α} (hentry : entry ∈ each args session) :
    ∃ before arg rest values between, args = before ++ arg :: rest ∧
      evaluateEach room before session = .ok values between ∧ entry ∈ one arg between := by
  induction args generalizing session with
  | nil => simp [h.nil] at hentry
  | cons arg args ih =>
    rw [h.cons, List.mem_append] at hentry
    rcases hentry with hfirst | hrest
    · exact ⟨[], arg, args, [], session, rfl, rfl, hfirst⟩
    · cases harg : evaluate room arg session with
      | error reason after => simp [harg] at hrest
      | ok value after =>
        simp only [harg] at hrest
        obtain ⟨before, arg', rest, values, between, rfl, hbefore, hmem⟩ := ih hrest
        exact ⟨arg :: before, arg', rest, value :: values, between, rfl,
          evaluateEach_cons_eq_ok_iff.mpr ⟨value, values, after, rfl, harg, hbefore⟩, hmem⟩

/-- If the list of an argument is what its evaluation adds to a part of the session, however
it ends, then that of several is what theirs adds. -/
theorem exec_eq {β : Type} (h : Collects room one each) (read : Session → β)
    (add : β → List α → β) (hnil : ∀ state, add state [] = state)
    (happend : ∀ state entries others,
      add state (entries ++ others) = add (add state entries) others)
    (hone : ∀ arg ∈ args, ∀ session,
      read ((evaluate room arg).exec session) = add (read session) (one arg session))
    (session : Session) :
    read ((evaluateEach room args).exec session) = add (read session) (each args session) := by
  induction args generalizing session with
  | nil =>
    rw [h.nil, hnil]
    rfl
  | cons arg args ih =>
    rw [h.cons, happend, ← hone arg List.mem_cons_self session]
    unfold EStateM.exec at ih ⊢
    rw [evaluateEach_cons]
    cases evaluate room arg session with
    | error reason after => exact (hnil _).symm
    | ok value after =>
      have hrest := ih (fun arg harg => hone arg (List.mem_cons_of_mem _ harg)) after
      simp only
      rw [← hrest]
      cases evaluateEach room args after <;> rfl

end Collects

end

namespace Moment

variable [Host] {moment next target : Moment}

/-! ## Calls -/

/-- The moment is of an application that comes to the call of a primitive on these values. -/
inductive Calls : Moment → Nat → String → Primitive → List Value → Session → Prop where
  | intro {room inner name args session primitive values after} :
      Room.enter Room.evaluateForm room = some inner → SpecialForm.ofName? name = none →
      session.bindings.value? name = some (.prim primitive) →
      evaluateEach inner args session = .ok values after →
      Calls ⟨room, .list (.sym name :: args), session⟩ inner name primitive values after

theorem Calls.result_eq {inner : Nat} {name : String} {primitive : Primitive} {values : List Value}
    {after : Session} (h : moment.Calls inner name primitive values after) :
    moment.result = primitive.call inner (.sym name) values after := by
  cases h with
  | intro hroom hname hcallee hargs =>
    rw [result, evaluate_application _ hroom hname, hcallee]
    simp only [hargs]

/-! ## Faults -/

/-- Evaluation halts at the moment for a reason of its own, not because a part halts. -/
inductive Fault : Moment → Halt → Session → Prop where
  | symbol {room name session} : session.bindings.value? name = none →
      Fault ⟨room, .sym name, session⟩ (.failure (.undefined (.sym name))) session
  | foreign {room object session} :
      Fault ⟨room, .foreign object, session⟩ (.notAnExpression object) session
  | headless {room head args session} : (∀ name, head ≠ .sym name) →
      Fault ⟨room, .list (head :: args), session⟩ (.failure (.unknown (.list (head :: args)))) session
  | tooDeep {room name args session} : Room.enter Room.evaluateForm room = none →
      Fault ⟨room, .list (.sym name :: args), session⟩ .tooDeep session
  | badTarget {room name target body session} : SpecialForm.ofName? name = some .define →
      (∀ symbol, target ≠ .sym symbol) →
      Fault ⟨room, .list [.sym name, target, body], session⟩ (.failure (.defineBadSymbol target))
        session
  | misuse {room name form args session} : SpecialForm.ofName? name = some form →
      args.length ≠ form.arity →
      Fault ⟨room, .list (.sym name :: args), session⟩
        (.failure (form.arityFailure (.sym name) args)) session
  | redefine {room name body session} : session.bindings.contains name = true →
      Fault ⟨room, .definition name body, session⟩ (.failure (.redefine (.sym name))) session
  /-- The head of an application is not bound. -/
  | head {room name args session} : SpecialForm.ofName? name = none →
      session.bindings.value? name = none →
      Fault ⟨room, .list (.sym name :: args), session⟩ (.failure (.undefined (.sym name))) session
  | notAFunction {room name args session callee} : SpecialForm.ofName? name = none →
      session.bindings.value? name = some callee → (∀ primitive, callee ≠ .prim primitive) →
      Fault ⟨room, .list (.sym name :: args), session⟩ (.failure (.notAFunction (.sym name))) session
  /-- The primitive halts on the values of the arguments. -/
  | call {moment inner name primitive values between reason after} :
      Calls moment inner name primitive values between →
      primitive.call inner (.sym name) values between = .error reason after →
      Fault moment reason after

/-- What is done with at once halts through its own fault. -/
theorem fault_of_immediate {room : Nat} {expr : Value} {session after : Session} {reason : Halt}
    (h : evaluate room expr session = .error reason after) (hexpr : expr.Immediate room) :
    Fault ⟨room, expr, session⟩ reason after := by
  cases hexpr with
  | nil | bool | int | str | prim | quote | empty => cases h
  | foreign object =>
    cases h
    exact .foreign
  | sym name =>
    rw [evaluate_sym] at h
    cases hname : session.bindings.value? name with
    | some value => simp [hname] at h
    | none =>
      rw [hname] at h
      cases h
      exact .symbol hname
  | headless hhead =>
    rw [evaluate_headless session hhead] at h
    cases h
    exact .headless hhead
  | tooDeep hroom =>
    rw [evaluate_tooDeep session hroom] at h
    cases h
    exact .tooDeep hroom
  | quotation hroom hname =>
    rw [evaluate_quotation session hroom hname] at h
    cases h
  | badTarget hroom hname htarget =>
    rw [evaluate_badTarget session hroom hname htarget] at h
    cases h
    exact .badTarget hname htarget
  | misuse hroom hname hlength =>
    rw [evaluate_misuse session hroom hname hlength] at h
    cases h
    exact .misuse hname hlength

theorem Enters.fault {reason : Halt} {after : Session} (hstep : moment.Enters next)
    (h : ∃ target, next.Reaches target ∧ Fault target reason after) :
    ∃ target, moment.Reaches target ∧ Fault target reason after := by
  obtain ⟨target, hreach, hfault⟩ := h
  exact ⟨target, .head hstep hreach, hfault⟩

/-- An evaluation that halts has reached a moment that is at fault. -/
theorem exists_fault {room : Nat} {expr : Value} {session after : Session} {reason : Halt}
    (h : evaluate room expr session = .error reason after) :
    ∃ target, Reaches ⟨room, expr, session⟩ target ∧ Fault target reason after := by
  induction room, expr using Value.evaluationInduction generalizing session with
  | immediate room expr hexpr => exact ⟨_, .refl, fault_of_immediate h hexpr⟩
  | definition room inner name body hroom ih =>
    rw [evaluate_definition session hroom] at h
    cases hbound : session.bindings.contains name with
    | true =>
      rw [if_pos hbound] at h
      cases h
      exact ⟨_, .refl, .redefine hbound⟩
    | false =>
      rw [if_neg (by simp [hbound])] at h
      cases hbody : evaluate inner body session with
      | ok value after => simp [hbody] at h
      | error reason after =>
        rw [hbody] at h
        cases h
        exact (Enters.body hroom hbound).fault (ih hbody)
  | choice room inner c t a hroom ihc ihbranch =>
    rw [evaluate_choice session hroom] at h
    cases hcondition : evaluate inner c session with
    | error reason after =>
      rw [hcondition] at h
      cases h
      exact (Enters.condition hroom).fault (ihc hcondition)
    | ok value between =>
      simp only [hcondition] at h
      -- Only the branch that the condition selects is evaluated.
      exact (Enters.branch hroom hcondition).fault (ihbranch value h)
  | application room inner name args hroom hname ih =>
    rw [evaluate_application session hroom hname] at h
    split at h
    · rename_i primitive hcallee
      cases hargs : evaluateEach inner args session with
      | ok values between =>
        simp only [hargs] at h
        exact ⟨_, .refl, .call (.intro hroom hname hcallee hargs) h⟩
      | error reason after =>
        -- Some argument halts first, after others that have a value.
        simp only [hargs] at h
        cases h
        obtain ⟨before, arg, rest, values, between, rfl, hbefore, harg⟩ := evaluateEach_error hargs
        exact (Enters.argument hroom hname hcallee hbefore).fault (ih arg (by simp) harg)
    · rename_i callee hcallee hprimitive
      cases h
      exact ⟨_, .refl, .notAFunction hname hprimitive fun primitive heq => hcallee primitive heq⟩
    · rename_i hunbound
      cases h
      exact ⟨_, .refl, .head hname hunbound⟩

/-- A part that halts halts the whole. -/
theorem Enters.error {reason : Halt} {after : Session} (hstep : moment.Enters next)
    (h : next.result = .error reason after) : moment.result = .error reason after := by
  unfold result at h ⊢
  cases hstep with
  | body hroom hbound => rw [evaluate_definition _ hroom, if_neg (by simp [hbound]), h]
  | condition hroom => rw [evaluate_choice _ hroom, h]
  | branch hroom hcondition =>
    rw [evaluate_choice _ hroom, hcondition]
    exact h
  | argument hroom hname hcallee hbefore =>
    rw [evaluate_application _ hroom hname, hcallee]
    simp only [evaluateEach_append, hbefore, evaluateEach_cons, h]

theorem Reaches.error {reason : Halt} {after : Session} (hreach : moment.Reaches target)
    (h : target.result = .error reason after) : moment.result = .error reason after := by
  induction hreach using Relation.ReflTransGen.head_induction_on with
  | refl => exact h
  | head hstep _ ih => exact hstep.error ih

/-! ## Success -/

/-- All that a successful evaluation reaches succeeds. -/
theorem Reaches.ok {value : Value} {after : Session} (hreach : moment.Reaches target)
    (h : moment.result = .ok value after) : ∃ result done, target.result = .ok result done := by
  cases htarget : target.result with
  | ok result done => exact ⟨result, done, rfl⟩
  | error reason done =>
    rw [hreach.error htarget] at h
    cases h

/-- An application that succeeds has come to a call. -/
theorem Calls.exists_of_ok {room : Nat} {name : String} {args : List Value}
    {session after : Session} {value : Value} (hname : SpecialForm.ofName? name = none)
    (h : result ⟨room, .list (.sym name :: args), session⟩ = .ok value after) :
    ∃ inner primitive values between,
      Calls ⟨room, .list (.sym name :: args), session⟩ inner name primitive values between := by
  obtain ⟨inner, primitive, values, between, hroom, hcallee, hargs, -⟩ :=
    (evaluate_application_eq_ok_iff hname).mp h
  exact ⟨inner, primitive, values, between, .intro hroom hname hcallee hargs⟩

/-- An evaluation that succeeds without a choice has reached all that stands in an
evaluated position of its expression, with success. -/
theorem reaches_within {room : Nat} {expr part value : Value} {session after : Session}
    (hpart : Within part expr) (h : evaluate room expr session = .ok value after)
    (hchoice : ∀ c t a, ¬Within (.choice c t a) expr) :
    ∃ target result done, Reaches ⟨room, expr, session⟩ target ∧ target.expr = part ∧
      target.result = .ok result done := by
  -- The induction is on the position: each step inwards is one that success has taken.
  induction hpart generalizing room session value after with
  | self => exact ⟨_, value, after, .refl, rfl, h⟩
  | condition | consequent | alternative => exact (hchoice _ _ _ .self).elim
  | body hpart ih =>
    obtain ⟨inner, bodyValue, between, hroom, hbound, hbody, -, -⟩ :=
      evaluate_definition_eq_ok_iff.mp h
    obtain ⟨target, result, done, hreach, rest⟩ :=
      ih hbody fun c t a hwithin => hchoice c t a (.body hwithin)
    exact ⟨target, result, done, .head (.body hroom hbound) hreach, rest⟩
  | argument hname harg hpart ih =>
    obtain ⟨inner, primitive, values, between, hroom, hcallee, hargs, -⟩ :=
      (evaluate_application_eq_ok_iff hname).mp h
    obtain ⟨before, rest, others, middle, argValue, _, rfl, hbefore, hvalue⟩ :=
      evaluateEach_ok hargs harg
    obtain ⟨target, result, done, hreach, rest⟩ :=
      ih hvalue fun c t a hwithin => hchoice c t a (.argument hname harg hwithin)
    exact ⟨target, result, done, .head (.argument hroom hname hcallee hbefore) hreach, rest⟩

end Moment

end Sexpr
