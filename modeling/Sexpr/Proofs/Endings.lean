import Mathlib.Algebra.Group.Int.Defs
import Sexpr.Proofs.Leaves

/-!
# How evaluation ends

With built-in primitives only, evaluation has a value, or it fails in one of nine ways,
or it is too deep. There is one exception: a primitive that rejects an argument makes up
words that show it, and an integer with too many digits has none. Main statement: this
is the only exception, and it is exactly then that a rejection is not a failure.
-/
namespace Sexpr

/-- The leaf is no foreign object, and a built-in primitive if it is one. -/
def Native : Value → Prop
  | .foreign _ => False
  | .prim primitive => primitive ∈ Primitive.builtins
  | _ => True

theorem native_closed : Closed Native := ⟨trivial, fun _ => trivial, fun _ => trivial, fun _ h => h⟩

theorem isExpression_of_native (leaf : Value) (h : Native leaf) : leaf.IsExpression := by
  cases leaf with
  | foreign => exact h
  | nil | bool | int | str | sym | list | quote | prim => trivial

theorem initial_native : Session.initial.Every Native :=
  Session.Every.register (fun _ _ h => by cases h) fun _ h => h

/-- The ways in which evaluation fails by itself. -/
def Failure.Kind.raised : List Failure.Kind :=
  [.undefined, .redefine, .specialTooFewArgs, .specialTooManyArgs, .defineBadSymbol, .badArg,
    .notAFunction, .primitiveTooFewArgs, .unknown]

/-! ## Words of a rejection -/

/-- The rejection shows this argument. -/
inductive Rejection.Shows : Rejection → Value → Prop where
  | notAnInteger (argument) : Shows (.notAnInteger argument) argument
  | notAList (argument) : Shows (.notAList argument) argument

/-- The leaf has a numeral of bounded length if it is an integer. -/
def Fits : Value → Prop
  | .int n => Numeral.fits n = true
  | _ => True

theorem map_eq_error_iff {ε α β : Type} {f : α → β} {result : Except ε α} {error : ε} :
    f <$> result = .error error ↔ result = .error error := by
  cases result with
  | ok a => exact ⟨nofun, nofun⟩
  | error reason => exact ⟨fun h => by cases h; rfl, fun h => by cases h; rfl⟩

theorem message_error_iff {room : Nat} {rejection : Rejection} {reason : Unwritable} :
    rejection.message room = .error reason ↔
      ∃ argument, rejection.Shows argument ∧ argument.inspect room = .error reason := by
  constructor
  · intro h
    unfold Rejection.message at h
    split at h
    · exact ⟨_, .notAnInteger _, map_eq_error_iff.mp h⟩
    · exact ⟨_, .notAList _, map_eq_error_iff.mp h⟩
    · cases h
    · cases h
    · cases h
  · rintro ⟨argument, _ | _, h⟩
    · exact map_eq_error_iff.mpr h
    · exact map_eq_error_iff.mpr h

/-- A value that cannot be inspected is nested too deeply, or it holds an integer with
too many digits. -/
theorem inspect_error {room : Nat} {value : Value} {reason : Unwritable}
    (h : value.inspect room = .error reason) :
    reason = .tooDeep ∨ (reason = .oversizedInteger ∧ ¬value.Every Fits) := by
  induction value generalizing room with
  | nil | str | sym | prim | foreign => cases h
  | bool b => cases b <;> cases h
  | int n =>
    rw [Value.inspect] at h
    obtain ⟨rfl, hfits⟩ := Unwritable.numeral_error h
    exact .inr ⟨rfl, by simp [Fits, hfits]⟩
  | list items ih =>
    rw [Value.inspect] at h
    rcases bind_eq_error_iff.mp h with hroom | ⟨inner, _, htexts⟩
    · exact .inl (Unwritable.within_error hroom)
    · rcases bind_eq_error_iff.mp htexts with hitems | ⟨texts, _, hreturn⟩
      · rw [Value.inspectEach_eq] at hitems
        obtain ⟨item, hitem, herror⟩ := mapM_eq_error hitems
        rcases ih item hitem herror with hdeep | ⟨hreason, hevery⟩
        · exact .inl hdeep
        · refine .inr ⟨hreason, fun hall => hevery ?_⟩
          rw [Value.Every, Value.everyEach_iff] at hall
          exact hall item hitem
      · cases hreturn
  | quote inner ih =>
    rw [Value.inspect] at h
    rcases bind_eq_error_iff.mp h with hroom | ⟨left, _, htext⟩
    · exact .inl (Unwritable.within_error hroom)
    · rcases bind_eq_error_iff.mp htext with hinner | ⟨text, _, hreturn⟩
      · simpa using ih hinner
      · cases hreturn

/-! ## Calls -/

section
variable {operation : Builtin} {args : List Value} {rejection : Rejection} {argument : Value}

theorem integers_error (h : integers args = .error rejection) (hshows : rejection.Shows argument) :
    argument ∈ args := by
  induction args with
  | nil => cases h
  | cons arg rest ih =>
    cases arg with
    | int n =>
      rw [integers] at h
      exact List.mem_cons_of_mem _ (ih (map_eq_error_iff.mp h))
    | nil | bool | str | sym | list | quote | prim | foreign =>
      cases h
      cases hshows
      exact List.mem_cons_self

theorem members_error {value : Value} (h : members value = .error rejection)
    (hshows : rejection.Shows argument) : argument = value := by
  cases value with
  | list => cases h
  | nil | bool | int | str | sym | quote | prim | foreign =>
    cases h
    cases hshows
    rfl

/-- What a rejection shows is among the arguments. -/
theorem shown_mem (h : operation.apply args = .error rejection)
    (hshows : rejection.Shows argument) : argument ∈ args := by
  have hnumbers {answer : List Int → Value}
      (h : (do return answer (← integers args)) = Except.error rejection) : argument ∈ args := by
    rcases bind_eq_error_iff.mp h with hintegers | ⟨numbers, _, hreturn⟩
    · exact integers_error hintegers hshows
    · cases hreturn
  have hmembers {arg : Value} {answer : List Value → Value} (harg : arg ∈ args)
      (h : (do return answer (← members arg)) = Except.error rejection) : argument ∈ args := by
    rcases bind_eq_error_iff.mp h with hitems | ⟨items, _, hreturn⟩
    · exact members_error hitems hshows ▸ harg
    · cases hreturn
  unfold Builtin.apply at h
  split at h
  · exact hnumbers h
  · exact hnumbers h
  · exact hnumbers h
  · exact hnumbers h
  · exact hnumbers h
  · cases h
  · exact hmembers List.mem_cons_self h
  · cases h
    cases hshows
  · exact hmembers List.mem_cons_self h
  · cases h
    cases hshows
  · exact hmembers (List.mem_cons_of_mem _ List.mem_cons_self) h
  · cases h
    cases hshows
  · cases h

end

namespace Moment

variable [Host] {moment : Moment}

/-- A built-in primitive is called with arguments enough and rejects them, and this
argument is shown in the room there is. -/
inductive Rejects : Moment → Nat → Value → Prop where
  | intro {moment inner name primitive operation values after rejection argument} :
      Calls moment inner name primitive values after → primitive.operation = .builtin operation →
      primitive.minArity ≤ values.length → operation.apply values = .error rejection →
      rejection.Shows argument → Rejects moment inner argument

/-- A call of a built-in primitive that rejects its arguments fails in the way that names
the head exactly if what the rejection shows can be inspected. -/
theorem Calls.badArg_iff {inner : Nat} {name : String} {primitive : Primitive}
    {operation : Builtin} {values : List Value} {after : Session} {rejection : Rejection}
    (h : moment.Calls inner name primitive values after)
    (hoperation : primitive.operation = .builtin operation)
    (hfloor : primitive.minArity ≤ values.length)
    (hrejection : operation.apply values = .error rejection) :
    moment.result = .error (.failure (.badArg (.sym name))) after ↔
      ∀ argument, rejection.Shows argument → ∃ text, argument.inspect inner = .ok text := by
  rw [h.result_eq, call_builtin hoperation, if_neg (Nat.not_lt.mpr hfloor), hrejection]
  simp only
  cases hmessage : rejection.message inner with
  | ok text =>
    refine iff_of_true rfl ?_
    intro argument hshows
    cases hinspect : argument.inspect inner with
    | ok shown => exact ⟨shown, rfl⟩
    | error reason =>
      rw [message_error_iff.mpr ⟨argument, hshows, hinspect⟩] at hmessage
      cases hmessage
  | error reason =>
    obtain ⟨argument, hshows, hinspect⟩ := message_error_iff.mp hmessage
    refine iff_of_false ?_ ?_
    · intro heq
      cases reason <;> cases heq
    · intro hall
      obtain ⟨text, htext⟩ := hall argument hshows
      rw [hinspect] at htext
      cases htext

/-- A moment at fault fails in one of the nine ways, is too deep, or shows an integer with
too many digits. -/
theorem Fault.ends {reason : Halt} {after : Session} (h : moment.Fault reason after)
    (hexpr : moment.expr.Every Native) (hsession : moment.session.Every Native) :
    (∃ failure, reason = .failure failure ∧ failure.kind ∈ Failure.Kind.raised) ∨
      reason = .tooDeep ∨
      (reason = .oversizedInteger ∧
        ∃ inner argument, moment.Rejects inner argument ∧
          argument.inspect inner = .error .oversizedInteger) := by
  cases h with
  | symbol | head => exact .inl ⟨_, rfl, by simp [Failure.kind, Failure.Kind.raised]⟩
  | foreign => exact hexpr.elim
  | headless => exact .inl ⟨_, rfl, by simp [Failure.kind, Failure.Kind.raised]⟩
  | tooDeep => exact .inr (.inl rfl)
  | badTarget => exact .inl ⟨_, rfl, by simp [Failure.kind, Failure.Kind.raised]⟩
  | misuse =>
    refine .inl ⟨_, rfl, ?_⟩
    unfold SpecialForm.arityFailure
    split <;> simp [Failure.kind, Failure.Kind.raised]
  | redefine => exact .inl ⟨_, rfl, by simp [Failure.kind, Failure.Kind.raised]⟩
  | notAFunction => exact .inl ⟨_, rfl, by simp [Failure.kind, Failure.Kind.raised]⟩
  | @call _ inner name primitive values between _ _ hcalls herror =>
    have hnative := (hcalls.every native_closed hexpr hsession).1
    obtain ⟨operation, hoperation⟩ := operation_of_mem_builtins hnative
    obtain ⟨-, ⟨-, rfl⟩ | ⟨rejection, hfloor, hanswer, hreason⟩⟩ :=
      call_builtin_error hoperation herror
    · exact .inl ⟨_, rfl, by simp [Failure.kind, Failure.Kind.raised]⟩
    · cases hmessage : rejection.message inner with
      | ok text =>
        rw [hmessage] at hreason
        exact .inl ⟨_, hreason, by simp [Failure.kind, Failure.Kind.raised]⟩
      | error unwritable =>
        rw [hmessage] at hreason
        -- The rejection itself is a failure, but its words cannot be made up.
        obtain ⟨argument, hshows, hinspect⟩ := message_error_iff.mp hmessage
        rcases inspect_error hinspect with rfl | ⟨rfl, -⟩
        · exact .inr (.inl hreason)
        · exact .inr (.inr ⟨hreason, inner, argument,
            .intro hcalls hoperation hfloor hanswer hshows, hinspect⟩)

/-- Showing an integer with too many digits halts the moment. -/
theorem Rejects.result {inner : Nat} {argument : Value} (h : moment.Rejects inner argument)
    (hinspect : argument.inspect inner = .error .oversizedInteger) :
    ∃ after, moment.result = .error .oversizedInteger after := by
  obtain ⟨hcalls, hoperation, hfloor, hanswer, hshows⟩ := h
  have hresult := hcalls.result_eq
  have hmessage := message_error_iff.mpr ⟨argument, hshows, hinspect⟩
  rw [call_builtin hoperation, if_neg (Nat.not_lt.mpr hfloor), hanswer] at hresult
  simp only [hmessage] at hresult
  exact ⟨_, hresult⟩

end Moment

/-! ## The ways in which evaluation ends -/

section
variable [Host] {room : Nat} {expr : Value} {session after : Session}

theorem error_ends {reason : Halt} (hexpr : expr.Every Native) (hsession : session.Every Native)
    (h : evaluate room expr session = .error reason after) :
    (∃ failure, reason = .failure failure ∧ failure.kind ∈ Failure.Kind.raised) ∨
      reason = .tooDeep ∨ reason = .oversizedInteger := by
  obtain ⟨target, hreach, hfault⟩ := Moment.exists_fault h
  obtain ⟨htarget, hmiddle⟩ := hreach.every native_closed hexpr hsession
  rcases hfault.ends htarget hmiddle with hfailure | hdeep | ⟨hreason, _⟩
  · exact .inl hfailure
  · exact .inr (.inl hdeep)
  · exact .inr (.inr hreason)

theorem oversized_iff (hexpr : expr.Every Native) (hsession : session.Every Native) :
    (∃ after, evaluate room expr session = .error .oversizedInteger after) ↔
      ∃ target inner argument, Moment.Reaches ⟨room, expr, session⟩ target ∧
        target.Rejects inner argument ∧ argument.inspect inner = .error .oversizedInteger := by
  constructor
  · rintro ⟨after, herror⟩
    obtain ⟨target, hreach, hfault⟩ := Moment.exists_fault herror
    obtain ⟨htarget, hmiddle⟩ := hreach.every native_closed hexpr hsession
    rcases hfault.ends htarget hmiddle with ⟨_, h, _⟩ | h | ⟨_, inner, argument, hrejects, hinspect⟩
    · cases h
    · cases h
    · exact ⟨target, inner, argument, hreach, hrejects, hinspect⟩
  · rintro ⟨target, inner, argument, hreach, hrejects, hinspect⟩
    obtain ⟨after, hresult⟩ := hrejects.result hinspect
    exact ⟨after, hreach.error hresult⟩

theorem tryEvaluate_error {reason : Halt} (h : tryEvaluate room expr session = .error reason after) :
    evaluate room expr session = .error reason after ∧ ∀ failure, reason ≠ .failure failure := by
  unfold tryEvaluate at h
  split at h
  · cases h
  · cases h
  · rename_i other done hfailure heq
    cases h
    exact ⟨heq, fun failure hreason => hfailure failure hreason⟩

end

/-- How evaluation ends with built-in primitives only. It has a value built from what is
native; or it fails in one of nine ways, is too deep or needs the text of an integer with
too many digits. The last comes about exactly if a primitive is called that rejects an
argument which cannot be inspected for this reason, and such an argument holds an integer
that does not fit. A call with too few arguments says so, and one that rejects its
arguments blames the head exactly if what it shows can be inspected. Returning failures
as values leaves only the two halts that are none. -/
theorem evaluation_ends [Host] {room : Nat} {expr : Value} {session : Session}
    (hexpr : expr.Every Native) (hsession : session.Every Native) :
    (∀ value after, evaluate room expr session = .ok value after →
      value.Every Native ∧ after.Every Native) ∧
    (∀ reason after, evaluate room expr session = .error reason after →
      (∃ failure, reason = .failure failure ∧ failure.kind ∈ Failure.Kind.raised) ∨
        reason = .tooDeep ∨ reason = .oversizedInteger) ∧
    ((∃ after, evaluate room expr session = .error .oversizedInteger after) ↔
      ∃ target inner argument, Moment.Reaches ⟨room, expr, session⟩ target ∧
        target.Rejects inner argument ∧ argument.inspect inner = .error .oversizedInteger) ∧
    (∀ inner (argument : Value), argument.Every Fits →
      argument.inspect inner ≠ .error .oversizedInteger) ∧
    (∀ target inner name primitive values after, Moment.Reaches ⟨room, expr, session⟩ target →
      target.Calls inner name primitive values after →
      ∃ operation, primitive.operation = .builtin operation ∧
        (values.length < primitive.minArity →
          target.result = .error (.failure (.primitiveTooFewArgs (.str primitive.name)
            (.int primitive.minArity) (.int values.length))) after) ∧
        ∀ rejection, primitive.minArity ≤ values.length →
          operation.apply values = .error rejection →
          (∀ argument, rejection.Shows argument → argument ∈ values) ∧
          (target.result = .error (.failure (.badArg (.sym name))) after ↔
            ∀ argument, rejection.Shows argument → ∃ text, argument.inspect inner = .ok text)) ∧
    ∀ reason after, tryEvaluate room expr session = .error reason after →
      reason = .tooDeep ∨ reason = .oversizedInteger := by
  refine ⟨?_, fun reason after => error_ends hexpr hsession, oversized_iff hexpr hsession, ?_, ?_, ?_⟩
  · intro value after hok
    have hends := evaluate_ends native_closed room expr hexpr session hsession
    rw [hok] at hends
    exact hends
  · intro inner argument hfits hinspect
    rcases inspect_error hinspect with hreason | ⟨_, hevery⟩
    · cases hreason
    · exact hevery hfits
  · intro target inner name primitive values after hreach hcalls
    obtain ⟨htarget, hmiddle⟩ := hreach.every native_closed hexpr hsession
    have hnative := (hcalls.every native_closed htarget hmiddle).1
    obtain ⟨operation, hoperation⟩ := operation_of_mem_builtins hnative
    refine ⟨operation, hoperation, ?_, ?_⟩
    · intro hfew
      rw [hcalls.result_eq, call_builtin hoperation, if_pos hfew]
    · intro rejection hfloor hrejection
      exact ⟨fun argument => shown_mem hrejection,
        hcalls.badArg_iff hoperation hfloor hrejection⟩
  · intro reason after htry
    obtain ⟨herror, hreason⟩ := tryEvaluate_error htry
    rcases error_ends hexpr hsession herror with ⟨failure, hfailure, _⟩ | hrest
    · exact (hreason failure hfailure).elim
    · exact hrest

theorem evaluation_ends_sample :
    (Value.list [.sym "first", .int 7]).Every Native ∧ Session.initial.Every Native ∧
      ∃ after, evaluate 100 (.list [.sym "first", .int 7]) .initial =
        .error (.failure (.badArg (.sym "first"))) after := by
  have hexpr : (Value.list [.sym "first", .int 7]).Every Native := by simp [Native]
  obtain ⟨_, _, _, _, hcalls, _⟩ := @evaluation_ends _ 100 _ .initial hexpr initial_native
  have hcall : Moment.Calls ⟨100, .list [.sym "first", .int 7], .initial⟩ 97 "first"
      ⟨"first", 1, .builtin .first⟩ [.int 7] .initial := .intro rfl rfl rfl rfl
  obtain ⟨operation, hoperation, _, hrejected⟩ := hcalls _ _ _ _ _ _ .refl hcall
  cases hoperation
  refine ⟨hexpr, initial_native, .initial, ?_⟩
  refine (hrejected (.notAList (.int 7)) (Nat.le_refl 1) rfl).2.mpr ?_
  rintro _ ⟨⟩
  exact ⟨_, Unwritable.numeral_of_fits (by decide +kernel)⟩

/-- `first` of the square of an integer with 2151 digits: the argument is no list, but its
text would have too many digits. -/
theorem rejection_oversized :
    let expr := Value.list [.sym "first", .list [.sym "*", .int (10 ^ 2150), .int (10 ^ 2150)]]
    expr.Every Native ∧ expr.Every Fits ∧ Session.initial.Every Native ∧
      ∃ after, evaluate 100 expr .initial = .error .oversizedInteger after := by
  have hfits : Numeral.fits (10 ^ 2150) = true := by decide +kernel
  have hsquare : Numeral.fits (1 * 10 ^ 2150 * 10 ^ 2150) = false := by decide +kernel
  -- From here on nothing may compute with the digits of the power.
  generalize (10 : Int) ^ 2150 = n at hfits hsquare ⊢
  refine ⟨by simp [Native], by simp [Fits, hfits], initial_native, ?_⟩
  have hcall : Moment.Calls ⟨100, .list [.sym "first", .list [.sym "*", .int n, .int n]], .initial⟩
      97 "first" ⟨"first", 1, .builtin .first⟩ [.int (1 * n * n)] .initial :=
    .intro rfl rfl rfl rfl
  have hrejects := Moment.Rejects.intro hcall rfl (Nat.le_refl 1) rfl (.notAList (.int (1 * n * n)))
  exact hrejects.result (Unwritable.numeral_of_not_fits hsquare)

end Sexpr
