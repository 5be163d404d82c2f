import Sexpr.Proofs.EnoughRoom
import Sexpr.Proofs.Nesting
import Sexpr.Proofs.Reaching

/-!
# Evaluating at once and form by form

`eval` takes the expressions of a source from the stream of its tokens one at a time, and
ends with the first that has no value. `evalAll` reads the whole source first, and no
failure ends it. Main statement: the two have the same effects up to the first form that
has no value, and the failure of that form is what `eval` ends in. They differ where a
source cannot be read: `evalAll` then does nothing, while `eval` has evaluated the forms
before the error.
-/
namespace Sexpr

/-! ## Forms up to the first without a value -/

section
variable [Host] {room : Nat} {forms : List Value} {values : List Value} {session last : Session}

theorem evaluateForms_of_values (h : BecomesEach room session forms (values.map .value) last)
    (value : Value) :
    evaluateForms room value forms session = .ok (values.getLast?.getD value) last := by
  induction values generalizing session forms value with
  | nil =>
    cases h
    rfl
  | cons first others ih =>
    cases h with
    | cons hform hrest =>
      cases hform with
      | value hvalue =>
        rw [evaluateForms, EStateM.bind_apply, hvalue]
        simp only [ih hrest first]
        cases others <;> simp [List.getLast?_cons]

/-- The first form that has no value ends the evaluation, however it ends itself. -/
theorem evaluateForms_of_error {before after : List Value} {form : Value} {middle final : Session}
    {reason : Halt} (h : BecomesEach room session before (values.map .value) middle)
    (hform : evaluate room form middle = .error reason final) (value : Value) :
    evaluateForms room value (before ++ form :: after) session = .error reason final := by
  induction values generalizing session before value with
  | nil =>
    cases h
    rw [List.nil_append, evaluateForms, EStateM.bind_apply, hform]
  | cons first others ih =>
    cases h with
    | cons hfirst hrest =>
      cases hfirst with
      | value hvalue =>
        rw [List.cons_append, evaluateForms, EStateM.bind_apply, hvalue]
        exact ih hrest first

/-- All forms have a value, or there is a first one that has none. -/
theorem values_or_first_error (room : Nat) (forms : List Value) (session : Session) :
    (∃ (values : List Value) (last : Session),
      BecomesEach room session forms (values.map .value) last) ∨
      ∃ (before : List Value) (form : Value) (after values : List Value) (middle : Session)
        (reason : Halt) (final : Session), forms = before ++ form :: after ∧
        BecomesEach room session before (values.map .value) middle ∧
        evaluate room form middle = .error reason final := by
  induction forms generalizing session with
  | nil => exact .inl ⟨[], session, .nil⟩
  | cons form rest ih =>
    cases hform : evaluate room form session with
    | error reason final =>
      exact .inr ⟨[], form, rest, [], session, reason, final, rfl, .nil, hform⟩
    | ok value middle =>
      rcases ih middle with ⟨values, last, hrest⟩ |
        ⟨before, next, after, values, between, reason, final, rfl, hbefore, hnext⟩
      · exact .inl ⟨value :: values, last, .cons (.value hform) hrest⟩
      · exact .inr ⟨form :: before, next, after, value :: values, between, reason, final, rfl,
          .cons (.value hform) hbefore, hnext⟩

/-- Forms of which one becomes a failure, after some that have values. -/
theorem BecomesEach.exists_failure {failure : Failure} {others : List Outcome}
    (h : BecomesEach room session forms (values.map .value ++ .failure failure :: others) last) :
    ∃ before form after middle final, forms = before ++ form :: after ∧
      BecomesEach room session before (values.map .value) middle ∧
      Becomes room form middle (.failure failure) final := by
  obtain ⟨before, rest, middle, rfl, hbefore, hrest⟩ := becomesEach_append_iff.mp h
  cases hrest with
  | @cons form after _ _ _ final _ hform _ =>
    exact ⟨before, form, after, middle, final, rfl, hbefore, hform⟩

/-- A form that becomes a failure has ended in it, or in the lack of room. -/
theorem Becomes.exists_error {form : Value} {failure : Failure} {session after : Session}
    (h : Becomes room form session (.failure failure) after) :
    ∃ reason, evaluate room form session = .error reason after ∧
      (reason = .failure failure ∨ reason = .tooDeep ∧ failure = .nestingTooDeep) := by
  cases h with
  | failure hform => exact ⟨_, hform, .inl rfl⟩
  | tooDeep hform => exact ⟨_, hform, .inr ⟨rfl, rfl⟩⟩

end

/-! ## Failures that are not too deep -/

/-- No hosted operation fails in the way that is kept for expressions nested too deeply. -/
def Host.ReservesDepth [Host] : Prop :=
  ∀ operation room args journal after,
    Host.callback operation room args journal ≠ .error (.failure .nestingTooDeep) after

/-- No hosted operation halts as if source text could not be read. -/
def Host.ReservesReading [Host] : Prop :=
  ∀ operation room args journal error after,
    Host.callback operation room args journal ≠ .error (.unreadable error) after

/-- The reasons for which the operations of a program that adds none of its own halt. -/
theorem Hosted.callback_error {operation : Hosted} {room : Nat} {args : List Value}
    {journal after : Journal} {reason : Halt}
    (h : Host.callback operation room args journal = .error reason after) :
    (∃ object, reason = .notAnExpression object) ∨ reason = .divisionByZero ∨
      reason = .failure (.undefined (.sym "from-callback")) := by
  cases operation with
  | count | collect | refuse | custom => cases h
  | divideByZero | undefined =>
    cases h
    simp
  | record =>
    have hcallback : Host.callback .record room args = Hosted.callback .record room args := rfl
    rw [hcallback, Hosted.callback] at h
    cases hentry : Recorded.entry room args with
    | error object =>
      simp only [hentry] at h
      cases h
      exact .inl ⟨object, rfl⟩
    | ok entry => simp only [hentry] at h; cases h

theorem Hosted.reservesDepth : Host.ReservesDepth := by
  intro operation room args journal after h
  rcases Hosted.callback_error h with ⟨object, hreason⟩ | hreason | hreason <;> cases hreason

theorem Hosted.reservesReading : Host.ReservesReading := by
  intro operation room args journal error after h
  rcases Hosted.callback_error h with ⟨object, hreason⟩ | hreason | hreason <;> cases hreason

/-- The reason is one for which only hosted operations halt. -/
inductive Halt.IsHosted : Halt → Prop where
  | nestingTooDeep : IsHosted (.failure .nestingTooDeep)
  | divisionByZero : IsHosted .divisionByZero
  | unreadable {error} : IsHosted (.unreadable error)

section
variable [Host] {room : Nat} {reason : Halt} (hreason : reason.IsHosted)
  (hreserves : ∀ operation room args journal after,
    Host.callback operation room args journal ≠ .error reason after)
include hreason hreserves

theorem Primitive.call_ne_hosted (head : Value) (primitive : Primitive) (args : List Value)
    (session after : Session) : primitive.call room head args session ≠ .error reason after := by
  intro h
  unfold Primitive.call at h
  split at h
  · cases h
    cases hreason
  · rw [EStateM.bind_apply] at h
    cases hrun : primitive.operation.run room args session with
    | error halt between =>
      -- The operation itself halts, so it is a hosted one.
      rw [hrun] at h
      cases h
      cases hoperation : primitive.operation with
      | builtin operation =>
        rw [hoperation] at hrun
        cases hrun
      | hosted operation =>
        rw [hoperation, Operation.run, Run.onJournal] at hrun
        cases hcallback : Host.callback operation room args session.journal with
        | ok answer journal => simp [hcallback] at hrun
        | error halt journal =>
          rw [hcallback] at hrun
          cases hrun
          exact hreserves operation room args _ journal hcallback
    | ok answer between =>
      rw [hrun] at h
      cases answer with
      | ok value => cases h
      | error rejection =>
        simp only [EStateM.bind_apply] at h
        cases hmessage : rejection.message room with
        | ok text =>
          rw [hmessage] at h
          cases h
          cases hreason
        | error unwritable =>
          rw [hmessage] at h
          cases unwritable <;> cases h <;> cases hreason

/-- Evaluation does not halt for a reason that is kept for hosted operations, if these do
not. -/
theorem evaluate_ne_hosted (form : Value) (session after : Session) :
    evaluate room form session ≠ .error reason after := by
  intro h
  obtain ⟨target, _, hfault⟩ := Moment.exists_fault h
  cases hfault with
  | symbol | foreign | headless | tooDeep | badTarget | redefine | head | notAFunction =>
    cases hreason
  | @misuse _ _ form args =>
    generalize hfailure : form.arityFailure _ args = failure at hreason
    unfold SpecialForm.arityFailure at hfailure
    split at hfailure <;> subst hfailure <;> cases hreason
  | call _ hcall => exact Primitive.call_ne_hosted hreason hreserves _ _ _ _ _ hcall

end

/-- Evaluation does not fail in the way that is kept for expressions nested too deeply:
the lack of room is a halt of its own. -/
theorem evaluate_ne_nestingTooDeep [Host] {room : Nat} (hreserves : Host.ReservesDepth)
    (form : Value) (session after : Session) :
    evaluate room form session ≠ .error (.failure .nestingTooDeep) after :=
  evaluate_ne_hosted .nestingTooDeep hreserves form session after

/-! ## Agreement -/

section
variable [Host] {room : Nat} {source : String} {session : Session}

/-- If all forms of a source have values, `eval` has the last of them, unless an error of
reading comes after them. -/
theorem eval_of_values {forms values : List Value} {error? : Option ReadError} {last : Session}
    (hyields : (TokenStream.ofSource source).Yields forms error?)
    (h : BecomesEach (room + Room.attempt) session forms (values.map .value) last) :
    eval room source session = Run.finish (values.getLast?.getD .nil) error? last := by
  rw [eval, evaluateStream_eq hyields, EStateM.bind_apply, evaluateForms_of_values h]

/-- `eval` ends as the first form that has no value. -/
theorem eval_of_error {before after values : List Value} {form : Value} {error? : Option ReadError}
    {middle final : Session} {reason : Halt}
    (hyields : (TokenStream.ofSource source).Yields (before ++ form :: after) error?)
    (h : BecomesEach (room + Room.attempt) session before (values.map .value) middle)
    (hform : evaluate (room + Room.attempt) form middle = .error reason final) :
    eval room source session = .error reason final := by
  rw [eval, evaluateStream_eq hyields, EStateM.bind_apply, evaluateForms_of_error h hform]

/-! ## Agreement from the same place -/

section
variable {p : Value → Prop} {same : Journal → Journal → Prop} {values : List Value}
  {error? : Option ReadError} {last : Session} (hp : Sealed p) (hsteady : Steady p same)
  (halike : (widening p same).Alike session session)
include hp hsteady halike

/-- Forms that have values with the room of an attempt have them with that of `eval`. -/
theorem BecomesEach.attempt_widened {forms : List Value} (hevery : ∀ form ∈ forms, form.Every p)
    (h : BecomesEach room session forms (values.map .value) last) :
    ∃ last', BecomesEach (room + Room.attempt) session forms (values.map .value) last' ∧
      (widening p same).Alike last last' :=
  h.widened hp hsteady (Nat.le_add_right _ _) hevery (by simp) halike

/-- A failure that is not for lack of room is what `eval` ends in. -/
theorem eval_of_failure {before after : List Value} {form : Value} {middle final : Session}
    {failure : Failure}
    (hyields : (TokenStream.ofSource source).Yields (before ++ form :: after) error?)
    (hevery : ∀ expr ∈ before ++ form :: after, expr.Every p)
    (hbefore : BecomesEach room session before (values.map .value) middle)
    (hform : Becomes room form middle (.failure failure) final)
    (hdeep : failure ≠ .nestingTooDeep) :
    ∃ final', eval room source session = .error (.failure failure) final' ∧
      (widening p same).Alike final final' := by
  obtain ⟨middle', hbefore', hmiddle⟩ := hbefore.attempt_widened hp hsteady halike
    fun expr hexpr => hevery expr (List.mem_append_left _ hexpr)
  obtain ⟨final', hform', hfinal⟩ := hform.widened hp hsteady (Nat.le_add_right _ Room.attempt)
    (hevery form (by simp)) (fun heq => hdeep (Outcome.failure.inj heq)) hmiddle
  obtain ⟨reason, herror, hreason⟩ := hform'.exists_error
  obtain rfl := hreason.resolve_right fun h => hdeep h.2
  exact ⟨final', eval_of_error hyields hbefore' herror, hfinal⟩

end
end

/-- `eval` and `evalAll` agree, up to the room for an attempt. If `evalAll` comes to its end, it
has one outcome for each form, in order and each in the session that the forms before it leave.

With the same room for the forms: if all outcomes are values, `eval` has the last of them and
leaves the same session. Otherwise it ends at the first failure, in this failure or in the lack
of room, with the session that the forms up to there leave; a hosted operation apart, the
failure of being too deep is always the lack of room.

From the same place, `eval` has more room for a form. It has the same values as `evalAll` and
ends in the same failure, unless this is the failure of being too deep, and leaves the same
bindings and a journal that is the same as far as operations keep it so. If the first failure
is that of being too deep, `eval` has the values of the forms before it, and then ends as the
form does with more room, if it ends.

If a source cannot be read, `evalAll` does nothing, and `eval` evaluates the forms before the
error: it ends in the error of reading if they all have values, and as the first that has none
otherwise. `evalPrelude` is `eval` without the value. -/
theorem eval_agrees [Host] (room : Nat) (source : String) (session : Session) :
    (∀ inner forms outcomes last, Source.readAll source = .ok forms →
      evalAll inner source session = .ok outcomes last →
      outcomes.length = forms.length ∧ BecomesEach inner session forms outcomes last) ∧
    (∀ forms outcomes last, Source.readAll source = .ok forms →
      evalAll (room + Room.attempt) source session = .ok outcomes last →
      (∀ values : List Value, outcomes = values.map .value →
        eval room source session = .ok (values.getLast?.getD .nil) last) ∧
      ∀ (values : List Value) failure others,
        outcomes = values.map .value ++ .failure failure :: others →
        ∃ before form after reason final, forms = before ++ form :: after ∧
          BecomesEach (room + Room.attempt) session (before ++ [form])
            (values.map .value ++ [.failure failure]) final ∧
          eval room source session = .error reason final ∧
          (reason = .failure failure ∨ reason = .tooDeep ∧ failure = .nestingTooDeep) ∧
          (Host.ReservesDepth → failure = .nestingTooDeep → reason = .tooDeep)) ∧
    (∀ (p : Value → Prop) (same : Journal → Journal → Prop), Sealed p →
      (∀ value : Value, value.Readable → value.Every p) → Steady p same →
      (∀ journal, same journal journal) → session.Every p →
      ∀ forms outcomes last, Source.readAll source = .ok forms →
      evalAll room source session = .ok outcomes last →
      (∀ values : List Value, outcomes = values.map .value →
        ∃ last', eval room source session = .ok (values.getLast?.getD .nil) last' ∧
          last'.bindings = last.bindings ∧ same last.journal last'.journal) ∧
      ∀ (values : List Value) failure others,
        outcomes = values.map .value ++ .failure failure :: others →
        ∃ before form after final middle, forms = before ++ form :: after ∧
          BecomesEach room session (before ++ [form])
            (values.map .value ++ [.failure failure]) final ∧
          BecomesEach (room + Room.attempt) session before (values.map .value) middle ∧
          (failure ≠ .nestingTooDeep →
            ∃ final', eval room source session = .error (.failure failure) final' ∧
              final'.bindings = final.bindings ∧ same final.journal final'.journal) ∧
          ∀ reason final', evaluate (room + Room.attempt) form middle = .error reason final' →
            eval room source session = .error reason final') ∧
    (∀ forms error, (TokenStream.ofSource source).Yields forms (some error) →
      (∀ inner, evalAll inner source session = .error (.unreadable error) session) ∧
      ((∃ (values : List Value) (last : Session),
        BecomesEach (room + Room.attempt) session forms (values.map .value) last ∧
        eval room source session = .error (.unreadable error) last) ∨
      ∃ (before : List Value) (form : Value) (after values : List Value) (middle : Session)
        (reason : Halt) (final : Session), forms = before ++ form :: after ∧
        BecomesEach (room + Room.attempt) session before (values.map .value) middle ∧
        evaluate (room + Room.attempt) form middle = .error reason final ∧
        eval room source session = .error reason final)) ∧
    evalPrelude room source session =
      match eval room source session with
      | .ok _ last => .ok () last
      | .error reason last => .error reason last := by
  refine ⟨?_, ?_, ?_, ?_, evalPrelude_apply room source session⟩
  · intro inner forms outcomes last hread hall
    have heach := (evalAll_eq_ok_iff hread).mp hall
    exact ⟨heach.length_eq, heach⟩
  · intro forms outcomes last hread hall
    have heach := (evalAll_eq_ok_iff hread).mp hall
    have hyields := TokenStream.yields_of_readAll hread
    refine ⟨?_, ?_⟩
    · rintro values rfl
      exact eval_of_values hyields heach
    · rintro values failure others rfl
      obtain ⟨before, form, after, middle, final, rfl, hbefore, hform⟩ := heach.exists_failure
      obtain ⟨reason, herror, hreason⟩ := hform.exists_error
      refine ⟨before, form, after, reason, final, rfl, hbefore.snoc hform,
        eval_of_error hyields hbefore herror, hreason, ?_⟩
      rintro hreserves rfl
      rcases hreason with rfl | ⟨rfl, _⟩
      · exact (evaluate_ne_nestingTooDeep hreserves form middle final herror).elim
      · rfl
  · intro p same hp hreadable hsteady hrefl hsession forms outcomes last hread hall
    have heach := (evalAll_eq_ok_iff hread).mp hall
    have hyields := TokenStream.yields_of_readAll hread
    have hevery : ∀ form ∈ forms, form.Every p :=
      fun form hform => hreadable form (Source.readable_of_readAll hread form hform)
    have halike : (widening p same).Alike session session := ⟨hsession, rfl, hrefl _⟩
    refine ⟨?_, ?_⟩
    · rintro values rfl
      obtain ⟨last', heach', hlast⟩ := heach.attempt_widened hp hsteady halike hevery
      exact ⟨last', eval_of_values hyields heach', hlast.bindings.symm, hlast.journals⟩
    · rintro values failure others rfl
      obtain ⟨before, form, after, middle, final, rfl, hbefore, hform⟩ := heach.exists_failure
      obtain ⟨middle', hbefore', -⟩ := hbefore.attempt_widened hp hsteady halike
        fun form hform => hevery form (List.mem_append_left _ hform)
      refine ⟨before, form, after, final, middle', rfl, hbefore.snoc hform, hbefore', ?_,
        fun reason final' => eval_of_error hyields hbefore'⟩
      intro hdeep
      obtain ⟨final', heval, hfinal⟩ :=
        eval_of_failure hp hsteady halike hyields hevery hbefore hform hdeep
      exact ⟨final', heval, hfinal.bindings.symm, hfinal.journals⟩
  · intro forms error hyields
    refine ⟨?_, ?_⟩
    · obtain ⟨-, herror⟩ := TokenStream.yields_ofSource_iff.mp hyields
      intro inner
      rw [evalAll, Source.readAll_eq, Parser.Reading.all, herror]
      rfl
    · rcases values_or_first_error (room + Room.attempt) forms session with ⟨values, last, heach⟩ |
        ⟨before, form, after, values, middle, reason, final, rfl, hbefore, hform⟩
      · exact .inl ⟨values, last, heach, eval_of_values hyields heach⟩
      · exact .inr ⟨before, form, after, values, middle, reason, final, rfl, hbefore, hform,
          eval_of_error hyields hbefore hform⟩

/-- A form that is too deep between two that are not, a name that is not bound, and then a
source that ends too soon. -/
theorem eval_agrees_sample :
    Source.readAll "1 (list (list)) 2" = .ok [.int 1, .list [.sym "list", .list [.sym "list"]], .int 2] ∧
      (∃ final, eval 2 "1 (list (list)) 2" .initial = .error .tooDeep final) ∧
      (∃ final, eval 2 "1 a" .initial = .error (.failure (.undefined (.sym "a"))) final) ∧
      (TokenStream.ofSource "1 '").Yields [.int 1] (some (.malformed (.nothingToQuote 2))) ∧
      evalAll 2 "1 '" .initial = .error (.unreadable (.malformed (.nothingToQuote 2))) .initial := by
  have hdeep : Source.readAll "1 (list (list)) 2" =
      .ok [.int 1, .list [.sym "list", .list [.sym "list"]], .int 2] := Source.readAll_eq _
  have hname : Source.readAll "1 a" = .ok [.int 1, .sym "a"] := Source.readAll_eq _
  have hyields : (TokenStream.ofSource "1 '").Yields [.int 1]
      (some (.malformed (.nothingToQuote 2))) :=
    TokenStream.yields_ofSource_iff.mpr ⟨rfl, rfl⟩
  refine ⟨hdeep, ?_, ?_, hyields, ((eval_agrees 2 "1 '" .initial).2.2.2.1 _ _ hyields).1 2⟩
  · obtain ⟨_, hfailure⟩ := (eval_agrees 2 "1 (list (list)) 2" .initial).2.1 _
      [.value (.int 1), .failure .nestingTooDeep, .value (.int 2)] .initial hdeep
      ((evalAll_eq_ok_iff hdeep).mpr (.cons (.value rfl) (.cons (.tooDeep rfl)
        (.cons (.value rfl) .nil))))
    obtain ⟨_, _, _, reason, final, _, _, heval, _, htooDeep⟩ :=
      hfailure [.int 1] .nestingTooDeep [.value (.int 2)] rfl
    exact ⟨final, htooDeep Hosted.reservesDepth rfl ▸ heval⟩
  · obtain ⟨_, hfailure⟩ := (eval_agrees 2 "1 a" .initial).2.2.1 _ _ sealed_isExpression
      (fun _ => readable_isExpression) steady_isExpression (fun _ => rfl) initial_isExpression _
      [.value (.int 1), .failure (.undefined (.sym "a"))] .initial hname
      ((evalAll_eq_ok_iff hname).mpr (.cons (.value rfl) (.cons (.failure rfl) .nil)))
    obtain ⟨_, _, _, _, _, _, _, _, hsame, _⟩ := hfailure [.int 1] (.undefined (.sym "a")) [] rfl
    obtain ⟨final, heval, _⟩ := hsame nofun
    exact ⟨final, heval⟩

/-- A program whose operations fail as expressions do that are nested too deeply. -/
abbrev Host.overreaching : Host := ⟨fun _ _ _ => throw (.failure .nestingTooDeep)⟩

/-- With the default recursion limit there is room for 330 choices, one inside the other, if
they are evaluated at once, and not if they are attempted. And an operation that fails as if
an expression were too deep is not told apart from the lack of room if it is attempted. -/
theorem eval_goes_deeper :
    (let room := Room.ofLimit Room.defaultLimit
      let source := chosenText "nil" 330
      evalAll room source .initial = .ok [.failure .nestingTooDeep] .initial ∧
      eval room source .initial = .ok .nil .initial) ∧
    let session := Session.initial.put "f" (.prim ⟨"f", 0, .hosted (.custom "f")⟩)
    @evalAll .overreaching (10 + Room.attempt) "(f)" session =
      .ok [.failure .nestingTooDeep] session ∧
    @eval .overreaching 10 "(f)" session = .error (.failure .nestingTooDeep) session := by
  constructor
  · intro room source
    have hread : Source.readAll source = .ok [Value.nil.chosen 330] := readAll_chosenText 330
    constructor
    · have hdeep : evaluate room (Value.nil.chosen 330) .initial = .error .tooDeep .initial :=
        evaluate_chosen_tooDeep .nil .initial (by decide)
      exact (evalAll_eq_ok_iff hread).mpr (.cons (.tooDeep hdeep) .nil)
    · have hvalue : evaluate (room + Room.attempt) (Value.nil.chosen 330) .initial =
          .ok .nil .initial := evaluate_chosen .nil .initial 1 330
      exact @eval_of_values _ room source .initial _ [.nil] none _
        (TokenStream.yields_of_readAll hread) (.cons (.value hvalue) .nil)
  · intro session
    let _ : Host := .overreaching
    have hread : Source.readAll "(f)" = .ok [.list [.sym "f"]] := Source.readAll_eq _
    have hfails : evaluate (10 + Room.attempt) (.list [.sym "f"]) session =
        .error (.failure .nestingTooDeep) session := rfl
    constructor
    · exact (evalAll_eq_ok_iff hread).mpr (.cons (.failure hfails) .nil)
    · exact @eval_of_error _ 10 "(f)" session [] [] [] _ none _ _ _
        (TokenStream.yields_of_readAll hread) .nil hfails

end Sexpr
