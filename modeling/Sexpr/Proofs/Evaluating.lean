import Sexpr.Proofs.Forms
import Sexpr.Proofs.Runs

/-!
# What evaluation does

The equations of evaluation in a given session, one for each kind of expression. They
say how a form ends in terms of how its parts end, and which session it leaves. Read the
other way, they say what it takes for a definition, an application or the arguments of one
to have a value.
-/
namespace Sexpr

open EStateM (bind_apply get_apply)

/-- The session with the name bound to the value. -/
def Session.put (session : Session) (name : String) (value : Value) : Session :=
  { session with bindings := session.bindings.define name value }

theorem lookup_apply (name : String) (session : Session) :
    Run.lookup name session =
      match session.bindings.value? name with
      | some value => .ok value session
      | none => .error (.failure (.undefined (.sym name))) session := by
  unfold Run.lookup
  rw [bind_apply, get_apply]
  simp only
  cases session.bindings.value? name <;> rfl

theorem isBound_apply (name : String) (session : Session) :
    Run.isBound name session = .ok (session.bindings.contains name) session := rfl

/-! ## Forms -/

section
variable [Host] {room inner : Nat} (session : Session)

theorem evaluate_tooDeep {name : String} {args : List Value}
    (h : Room.enter Room.evaluateForm room = none) :
    evaluate room (.list (.sym name :: args)) session = .error .tooDeep session := by
  rw [evaluate, h]
  rfl

theorem evaluate_special {name : String} {form : SpecialForm} {args : List Value}
    (hroom : Room.enter Room.evaluateForm room = some inner)
    (hname : SpecialForm.ofName? name = some form) :
    evaluate room (.list (.sym name :: args)) session =
      evaluateSpecial inner (.sym name) form args session := by
  rw [evaluate, hroom]
  simp only [hname]

theorem evaluate_definition {name : String} {body : Value}
    (hroom : Room.enter Room.evaluateForm room = some inner) :
    evaluate room (.definition name body) session =
      if session.bindings.contains name then
        .error (.failure (.redefine (.sym name))) session
      else
        match evaluate inner body session with
        | .ok value after => .ok (.sym name) (after.put name value)
        | .error reason after => .error reason after := by
  have hname : SpecialForm.ofName? "def" = some .define := rfl
  rw [Value.definition, evaluate_special session hroom hname, evaluateSpecial, bind_apply,
    isBound_apply]
  simp only
  split
  · rfl
  · rw [bind_apply]
    cases evaluate inner body session <;> rfl

theorem evaluate_choice {condition consequent alternative : Value}
    (hroom : Room.enter Room.evaluateForm room = some inner) :
    evaluate room (.choice condition consequent alternative) session =
      match evaluate inner condition session with
      | .ok value after =>
        evaluate inner (if value.isTruthy then consequent else alternative) after
      | .error reason after => .error reason after := by
  have hname : SpecialForm.ofName? "if" = some .choose := rfl
  rw [Value.choice, evaluate_special session hroom hname, evaluateSpecial, bind_apply]
  cases evaluate inner condition session with
  | error reason after => rfl
  | ok value after => cases hvalue : value.isTruthy <;> simp [hvalue]

theorem evaluate_application {name : String} {args : List Value}
    (hroom : Room.enter Room.evaluateForm room = some inner)
    (hname : SpecialForm.ofName? name = none) :
    evaluate room (.list (.sym name :: args)) session =
      match session.bindings.value? name with
      | some (.prim primitive) =>
        match evaluateEach inner args session with
        | .ok values after => primitive.call inner (.sym name) values after
        | .error reason after => .error reason after
      | some _ => .error (.failure (.notAFunction (.sym name))) session
      | none => .error (.failure (.undefined (.sym name))) session := by
  rw [evaluate, hroom]
  simp only [hname]
  -- The head is looked up first: the arguments are evaluated only for a primitive.
  rw [bind_apply, lookup_apply]
  cases session.bindings.value? name with
  | none => rfl
  | some callee =>
    cases callee with
    | prim primitive =>
      simp only [applyTo, bind_apply]
      cases evaluateEach inner args session <;> rfl
    | nil | bool | int | str | sym | list | quote | foreign => rfl

theorem evaluateEach_cons {expr : Value} {rest : List Value} :
    evaluateEach room (expr :: rest) session =
      match evaluate room expr session with
      | .ok value after =>
        match evaluateEach room rest after with
        | .ok values after => .ok (value :: values) after
        | .error reason after => .error reason after
      | .error reason after => .error reason after := by
  rw [evaluateEach, bind_apply]
  cases evaluate room expr session with
  | error reason after => rfl
  | ok value after =>
    simp only [bind_apply]
    cases evaluateEach room rest after <;> rfl

/-! ## Expressions that evaluation does not go into -/

theorem evaluate_headless {head : Value} {args : List Value} (h : ∀ name, head ≠ .sym name) :
    evaluate room (.list (head :: args)) session =
      .error (.failure (.unknown (.list (head :: args)))) session := by
  cases head with
  | sym name => exact absurd rfl (h name)
  | nil | bool | int | str | list | quote | prim | foreign => rfl

theorem evaluate_quotation {name : String} {quoted : Value}
    (hroom : Room.enter Room.evaluateForm room = some inner)
    (hname : SpecialForm.ofName? name = some .quote) :
    evaluate room (.list [.sym name, quoted]) session = .ok quoted session := by
  rw [evaluate_special session hroom hname]
  rfl

theorem evaluate_badTarget {name : String} {target body : Value}
    (hroom : Room.enter Room.evaluateForm room = some inner)
    (hname : SpecialForm.ofName? name = some .define) (htarget : ∀ symbol, target ≠ .sym symbol) :
    evaluate room (.list [.sym name, target, body]) session =
      .error (.failure (.defineBadSymbol target)) session := by
  rw [evaluate_special session hroom hname]
  cases target with
  | sym symbol => exact absurd rfl (htarget symbol)
  | nil | bool | int | str | list | quote | prim | foreign => rfl

theorem evaluate_misuse {name : String} {form : SpecialForm} {args : List Value}
    (hroom : Room.enter Room.evaluateForm room = some inner)
    (hname : SpecialForm.ofName? name = some form) (hlength : args.length ≠ form.arity) :
    evaluate room (.list (.sym name :: args)) session =
      .error (.failure (form.arityFailure (.sym name) args)) session := by
  rw [evaluate_special session hroom hname]
  unfold evaluateSpecial
  split
  · exact absurd rfl hlength
  · exact absurd rfl hlength
  · exact absurd rfl hlength
  · exact absurd rfl hlength
  · rfl

theorem evaluate_sym (name : String) :
    evaluate room (.sym name) session =
      match session.bindings.value? name with
      | some value => .ok value session
      | none => .error (.failure (.undefined (.sym name))) session := by
  rw [evaluate, lookup_apply]

/-- What evaluation is done with at once leaves the session as it is. -/
theorem exec_immediate {expr : Value} (h : expr.Immediate room) :
    (evaluate room expr).exec session = session := by
  cases h with
  | nil | bool | int | str | prim | foreign | quote | empty => rfl
  | headless hhead => exact EStateM.exec_error (evaluate_headless session hhead)
  | sym name =>
    rw [EStateM.exec, evaluate_sym]
    cases session.bindings.value? name <;> rfl
  | tooDeep hroom => exact EStateM.exec_error (evaluate_tooDeep session hroom)
  | quotation hroom hname => exact EStateM.exec_ok (evaluate_quotation session hroom hname)
  | badTarget hroom hname htarget =>
    exact EStateM.exec_error (evaluate_badTarget session hroom hname htarget)
  | misuse hroom hname hlength =>
    exact EStateM.exec_error (evaluate_misuse session hroom hname hlength)

end

/-! ## What success takes -/

section
variable [Host] {room : Nat} {session after : Session} {name : String} {value : Value}

theorem evaluate_definition_eq_ok_iff {body : Value} :
    evaluate room (.definition name body) session = .ok value after ↔
      ∃ inner result between, Room.enter Room.evaluateForm room = some inner ∧
        session.bindings.contains name = false ∧
        evaluate inner body session = .ok result between ∧
        value = .sym name ∧ after = between.put name result := by
  constructor
  · intro h
    cases hroom : Room.enter Room.evaluateForm room with
    | none =>
      rw [Value.definition, evaluate_tooDeep session hroom] at h
      cases h
    | some inner =>
      rw [evaluate_definition session hroom] at h
      cases hbound : session.bindings.contains name with
      | true => simp [hbound] at h
      | false =>
        cases hbody : evaluate inner body session with
        | error reason after => simp [hbound, hbody] at h
        | ok result between =>
          simp only [hbound, Bool.false_eq_true, if_false, hbody] at h
          cases h
          exact ⟨inner, result, between, rfl, rfl, hbody, rfl, rfl⟩
  · rintro ⟨inner, result, between, hroom, hbound, hbody, rfl, rfl⟩
    rw [evaluate_definition session hroom, if_neg (by simp [hbound]), hbody]

theorem evaluate_application_eq_ok_iff {args : List Value}
    (hname : SpecialForm.ofName? name = none) :
    evaluate room (.list (.sym name :: args)) session = .ok value after ↔
      ∃ inner primitive values between, Room.enter Room.evaluateForm room = some inner ∧
        session.bindings.value? name = some (.prim primitive) ∧
        evaluateEach inner args session = .ok values between ∧
        primitive.call inner (.sym name) values between = .ok value after := by
  constructor
  · intro h
    cases hroom : Room.enter Room.evaluateForm room with
    | none =>
      rw [evaluate_tooDeep session hroom] at h
      cases h
    | some inner =>
      rw [evaluate_application session hroom hname] at h
      split at h
      · rename_i primitive hcallee
        cases hargs : evaluateEach inner args session with
        | error reason after => simp [hargs] at h
        | ok values between =>
          simp only [hargs] at h
          exact ⟨inner, primitive, values, between, rfl, hcallee, hargs, h⟩
      · cases h
      · cases h
  · rintro ⟨inner, primitive, values, between, hroom, hcallee, hargs, hcall⟩
    rw [evaluate_application session hroom hname, hcallee]
    simp only [hargs, hcall]

theorem evaluateEach_cons_eq_ok_iff {expr : Value} {rest values : List Value} :
    evaluateEach room (expr :: rest) session = .ok values after ↔
      ∃ value others between, values = value :: others ∧
        evaluate room expr session = .ok value between ∧
        evaluateEach room rest between = .ok others after := by
  rw [evaluateEach_cons]
  constructor
  · intro h
    cases hexpr : evaluate room expr session with
    | error reason after => simp [hexpr] at h
    | ok value between =>
      simp only [hexpr] at h
      cases hrest : evaluateEach room rest between with
      | error reason after => simp [hrest] at h
      | ok others later =>
        simp only [hrest] at h
        cases h
        exact ⟨value, others, between, rfl, rfl, hrest⟩
  · rintro ⟨value, others, between, rfl, hexpr, hrest⟩
    simp only [hexpr, hrest]

end

end Sexpr
