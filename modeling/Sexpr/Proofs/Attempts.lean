import Sexpr.Proofs.Evaluating
import Sexpr.Proofs.Reading
import Sexpr.Session

/-!
# What becomes of forms

Forms are attempted one after the other, each in the session that those before it leave.
What becomes of a form is its value, its failure, or the failure of being too deep; the
session goes on with what the form has left, whatever became of it.
-/
namespace Sexpr

variable [Host] {room : Nat}

/-! ## One form -/

/-- What becomes of a form, and the session it leaves. -/
inductive Becomes (room : Nat) (form : Value) (session : Session) : Outcome → Session → Prop where
  | value {value after} : evaluate room form session = .ok value after →
      Becomes room form session (.value value) after
  | failure {failure after} : evaluate room form session = .error (.failure failure) after →
      Becomes room form session (.failure failure) after
  | tooDeep {after} : evaluate room form session = .error .tooDeep after →
      Becomes room form session (.failure .nestingTooDeep) after

theorem attempt_eq_ok_iff {form : Value} {session after : Session} {outcome : Outcome} :
    attempt room form session = .ok outcome after ↔ Becomes room form session outcome after := by
  constructor
  · intro h
    unfold attempt tryEvaluate at h
    cases hform : evaluate room form session with
    | ok value after =>
      rw [hform] at h
      cases h
      exact .value hform
    | error reason after =>
      rw [hform] at h
      cases reason <;> cases h
      · exact .failure hform
      · exact .tooDeep hform
  · intro h
    unfold attempt tryEvaluate
    cases h with
    | value hform | failure hform | tooDeep hform => rw [hform]

/-! ## Forms in order -/

/-- What becomes of forms that are attempted in order, and the session that they leave. -/
inductive BecomesEach (room : Nat) : Session → List Value → List Outcome → Session → Prop where
  | nil {session} : BecomesEach room session [] [] session
  | cons {form forms outcome outcomes session middle last} :
      Becomes room form session outcome middle → BecomesEach room middle forms outcomes last →
      BecomesEach room session (form :: forms) (outcome :: outcomes) last

/-- What becomes of some forms after others is what becomes of the ones and then, in the
session that they leave, of the others. -/
theorem becomesEach_append_iff {forms : List Value} {outcomes others : List Outcome}
    {session last : Session} :
    BecomesEach room session forms (outcomes ++ others) last ↔
      ∃ front rest middle, forms = front ++ rest ∧ BecomesEach room session front outcomes middle ∧
        BecomesEach room middle rest others last := by
  constructor
  · intro h
    induction outcomes generalizing forms session with
    | nil => exact ⟨[], forms, session, rfl, .nil, h⟩
    | cons outcome outcomes ih =>
      cases h with
      | cons hform hrest =>
        obtain ⟨front, rest, middle, rfl, hfront, hlast⟩ := ih hrest
        exact ⟨_ :: front, rest, middle, rfl, .cons hform hfront, hlast⟩
  · rintro ⟨front, rest, middle, rfl, hfront, hrest⟩
    induction hfront with
    | nil => exact hrest
    | cons hform _ ih => exact .cons hform (ih hrest)

theorem BecomesEach.snoc {forms : List Value} {form : Value} {outcomes : List Outcome}
    {outcome : Outcome} {session middle last : Session}
    (h : BecomesEach room session forms outcomes middle) (hform : Becomes room form middle outcome last) :
    BecomesEach room session (forms ++ [form]) (outcomes ++ [outcome]) last :=
  becomesEach_append_iff.mpr ⟨forms, [form], middle, rfl, h, .cons hform .nil⟩

theorem BecomesEach.length_eq {forms : List Value} {outcomes : List Outcome} {session last : Session}
    (h : BecomesEach room session forms outcomes last) : outcomes.length = forms.length := by
  induction h with
  | nil => rfl
  | cons _ _ ih => rw [List.length_cons, List.length_cons, ih]

/-- The attempts come to their end exactly if something becomes of every form. -/
theorem attemptEach_eq_iff {forms : List Value} {outcomes : List Outcome}
    {session last : Session} :
    attemptEach room forms session = (⟨outcomes, none⟩, last) ↔
      BecomesEach room session forms outcomes last := by
  constructor
  · intro h
    induction forms generalizing session outcomes with
    | nil =>
      cases h
      exact .nil
    | cons form rest ih =>
      rw [attemptEach] at h
      cases hform : attempt room form session with
      | error reason after =>
        rw [hform] at h
        cases h
      | ok outcome middle =>
        rw [hform] at h
        rcases hrest : attemptEach room rest middle with ⟨⟨others, escape?⟩, after⟩
        simp only [hrest] at h
        cases h
        exact .cons (attempt_eq_ok_iff.mp hform) (ih hrest)
  · intro h
    induction h with
    | nil => rfl
    | cons hform _ ih =>
      rw [attemptEach, attempt_eq_ok_iff.mpr hform]
      simp only [ih]

theorem BecomesEach.unique {forms : List Value} {outcomes others : List Outcome}
    {session last last' : Session} (h : BecomesEach room session forms outcomes last)
    (h' : BecomesEach room session forms others last') : outcomes = others ∧ last = last' := by
  have heq := attemptEach_eq_iff.mpr h
  rw [attemptEach_eq_iff.mpr h'] at heq
  cases heq
  exact ⟨rfl, rfl⟩

/-- The forms of the second list are attempted only if the attempts of the first come to
their end, and in the session that these leave. -/
theorem attemptEach_append (forms more : List Value) (session : Session) :
    attemptEach room (forms ++ more) session =
      match attemptEach room forms session with
      | (⟨outcomes, none⟩, middle) =>
        let (attempts, last) := attemptEach room more middle
        (⟨outcomes ++ attempts.outcomes, attempts.escape?⟩, last)
      | stopped => stopped := by
  induction forms generalizing session with
  | nil => rfl
  | cons form rest ih =>
    rw [List.cons_append, attemptEach, attemptEach]
    cases attempt room form session with
    | error reason after => rfl
    | ok outcome middle =>
      simp only [ih]
      rcases attemptEach room rest middle with ⟨⟨outcomes, _ | reason⟩, between⟩ <;> rfl

/-! ## Sources -/

section
variable {source : String} {forms : List Value}

theorem evalAll_of_readAll (h : Source.readAll source = .ok forms) (session : Session) :
    evalAll room source session =
      match attemptEach room forms session with
      | (⟨outcomes, none⟩, last) => .ok outcomes last
      | (⟨_, some reason⟩, last) => .error reason last := by
  unfold evalAll
  generalize Source.readAll source = reading at h
  subst h
  rfl

theorem readAll_of_evalAll {outcomes : List Outcome} {session last : Session}
    (h : evalAll room source session = .ok outcomes last) :
    ∃ forms, Source.readAll source = .ok forms := by
  unfold evalAll at h
  cases hread : Source.readAll source with
  | ok forms => exact ⟨forms, rfl⟩
  | error error =>
    rw [hread] at h
    cases h

theorem evalAll_eq_ok_iff {outcomes : List Outcome} {session last : Session}
    (h : Source.readAll source = .ok forms) :
    evalAll room source session = .ok outcomes last ↔
      BecomesEach room session forms outcomes last := by
  rw [← attemptEach_eq_iff, evalAll_of_readAll h]
  rcases attemptEach room forms session with ⟨⟨others, _ | reason⟩, after⟩ <;> simp

end

/-! ## Forms without attempts -/

/-- Evaluate forms in order; the last value counts, and `value` if there is none. -/
def evaluateForms (room : Nat) (value : Value) : List Value → Run Value
  | [] => pure value
  | form :: rest => do evaluateForms room (← evaluate room form) rest

/-- The run that ends in this result if a text ends well, and in the error of reading it
otherwise. -/
def Run.finish {α : Type} (a : α) : Option ReadError → Run α
  | none => pure a
  | some error => Run.halt (.unreadable error)

section
variable {stream after : TokenStream} {form : Value} {error : ReadError}

theorem evaluateStream_done (h : stream.parse = (.ok none, after)) (value : Value) :
    evaluateStream room value stream = pure value := by
  rw [evaluateStream]
  split <;> rename_i heq <;> cases h.symm.trans heq
  rfl

theorem evaluateStream_failed (h : stream.parse = (.error error, after)) (value : Value) :
    evaluateStream room value stream = Run.halt (.unreadable error) := by
  rw [evaluateStream]
  split <;> rename_i heq <;> cases h.symm.trans heq
  rfl

theorem evaluateStream_next (h : stream.parse = (.ok (some form), after)) (value : Value) :
    evaluateStream room value stream =
      evaluate room form >>= fun value => evaluateStream room value after := by
  rw [evaluateStream]
  split <;> rename_i heq <;> cases h.symm.trans heq
  rfl

theorem evaluateDefinitions_done (h : stream.parse = (.ok none, after)) :
    evaluateDefinitions room stream = pure () := by
  rw [evaluateDefinitions]
  split <;> rename_i heq <;> cases h.symm.trans heq
  rfl

theorem evaluateDefinitions_failed (h : stream.parse = (.error error, after)) :
    evaluateDefinitions room stream = Run.halt (.unreadable error) := by
  rw [evaluateDefinitions]
  split <;> rename_i heq <;> cases h.symm.trans heq
  rfl

theorem evaluateDefinitions_next (h : stream.parse = (.ok (some form), after)) :
    evaluateDefinitions room stream =
      evaluate room form >>= fun _ => evaluateDefinitions room after := by
  rw [evaluateDefinitions]
  split <;> rename_i heq <;> cases h.symm.trans heq
  rfl

end

section
variable {stream : TokenStream} {forms : List Value} {error? : Option ReadError}

/-- The expressions of a stream are evaluated as they come, and only then comes the error of
reading. -/
theorem evaluateStream_eq (h : stream.Yields forms error?) (value : Value) :
    evaluateStream room value stream =
      evaluateForms room value forms >>= fun value => Run.finish value error? := by
  induction h generalizing value with
  | done hparse =>
    rw [evaluateStream_done hparse, evaluateForms, pure_bind, Run.finish]
  | failed hparse =>
    rw [evaluateStream_failed hparse, evaluateForms, pure_bind, Run.finish]
  | next hparse _ ih =>
    rw [evaluateStream_next hparse, evaluateForms, bind_assoc]
    exact bind_congr ih

/-- Expressions are evaluated for their definitions as they are for a value. -/
theorem evaluateDefinitions_eq (h : stream.Yields forms error?) (value : Value) :
    evaluateDefinitions room stream = discard (evaluateStream room value stream) := by
  rw [EStateM.discard_eq_bind]
  induction h generalizing value with
  | done hparse =>
    rw [evaluateStream_done hparse, evaluateDefinitions_done hparse, pure_bind]
  | failed hparse =>
    rw [evaluateStream_failed hparse, evaluateDefinitions_failed hparse]
    rfl
  | next hparse _ ih =>
    rw [evaluateStream_next hparse, evaluateDefinitions_next hparse, bind_assoc]
    exact bind_congr ih

end

theorem eval_apply (room : Nat) (source : String) (session : Session) :
    eval room source session =
      match evaluateForms (room + Room.attempt) .nil (Source.reading source).values session with
      | .ok value last =>
        match (Source.reading source).error? with
        | none => .ok value last
        | some error => .error (.unreadable error) last
      | .error reason last => .error reason last := by
  rw [eval, evaluateStream_eq (TokenStream.yields_ofSource_iff.mpr ⟨rfl, rfl⟩),
    EStateM.bind_apply]
  cases evaluateForms (room + Room.attempt) .nil (Source.reading source).values session with
  | error reason last => rfl
  | ok value last => cases (Source.reading source).error? <;> rfl

theorem evalPrelude_eq (room : Nat) (source : String) :
    evalPrelude room source = discard (eval room source) :=
  evaluateDefinitions_eq (TokenStream.yields_ofSource_iff.mpr ⟨rfl, rfl⟩) .nil

theorem evalPrelude_apply (room : Nat) (source : String) (session : Session) :
    evalPrelude room source session =
      match eval room source session with
      | .ok _ last => .ok () last
      | .error reason last => .error reason last := by
  rw [evalPrelude_eq, EStateM.discard_eq_bind, EStateM.bind_apply]
  cases eval room source session <;> rfl

end Sexpr
