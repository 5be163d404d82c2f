import Sexpr.Proofs.Attempts
import Sexpr.Proofs.Comparing
import Sexpr.Proofs.Nesting

/-!
# Enough room

Main statement: where there is room enough for an evaluation, it comes to the same with
more room and leaves the same bindings; the same goes for writing and for comparing values,
and for the forms of a source of which none is too deep. What operations of the embedding
program do with more room is up to them, and the statement is about those that do the same.
-/
namespace Sexpr

/-- A session with leaves that satisfy `p`, and one with the same bindings, in which there
may be more room. -/
def widening (p : Value → Prop) (same : Journal → Journal → Prop) : Comparison where
  leaf := p
  bindings := Eq
  journals := same
  roomier := True

section
variable [Host] {p : Value → Prop} {same : Journal → Journal → Prop} {room room' : Nat}
  {session session' : Session}

theorem widening_sound (hp : Sealed p) (hsteady : Steady p same) : (widening p same).Sound where
  nil := hp.nil
  bool := hp.bool
  int := hp.int
  define := by
    rintro _ _ name value rfl
    rfl
  hosted := by
    intro operation args room room' journal journal' hcall hrooms hsame
    have hroom : room ≤ room' := by
      rcases hrooms with rfl | ⟨-, hle⟩
      · exact Nat.le_refl _
      · exact hle
    rcases hsteady operation args room room' journal journal' hcall hroom hsame with hdeep | hagree
    · exact .of_tooDeep trivial hdeep
    · exact .of_agree (fun answer hanswer => hp.hosted _ _ _ _ _ hcall hanswer) hagree

/-- With more room, evaluation follows what it does with less. -/
theorem evaluate_widened (hp : Sealed p) (hsteady : Steady p same) (hroom : room ≤ room')
    {expr : Value} (hexpr : expr.Every p) (halike : (widening p same).Alike session session') :
    Follows True (Value.Every p) (widening p same).Alike (evaluate room expr session)
      (evaluate room' expr session') :=
  Comparison.evaluate_follows (widening_sound hp hsteady) (.inr ⟨trivial, hroom⟩) hexpr
    (fun _ _ _ _ h => h ▸ rfl) halike

/-! ## Forms in order -/

/-- What becomes of a form that is not too deep becomes of it with more room. -/
theorem Becomes.widened (hp : Sealed p) (hsteady : Steady p same) (hroom : room ≤ room')
    {form : Value} {outcome : Outcome} {after : Session} (hform : form.Every p)
    (h : Becomes room form session outcome after) (hdeep : outcome ≠ .failure .nestingTooDeep)
    (halike : (widening p same).Alike session session') :
    ∃ after', Becomes room' form session' outcome after' ∧
      (widening p same).Alike after after' := by
  have hfollows := evaluate_widened hp hsteady hroom hform halike
  cases h with
  | value hresult =>
    rw [hresult] at hfollows
    generalize hresult' : evaluate room' form session' = result' at hfollows
    cases hfollows with
    | ok _ halike => exact ⟨_, .value hresult', halike⟩
  | failure hresult =>
    rw [hresult] at hfollows
    generalize hresult' : evaluate room' form session' = result' at hfollows
    cases hfollows with
    | error halike => exact ⟨_, .failure hresult', halike⟩
  | tooDeep => exact absurd rfl hdeep

theorem BecomesEach.widened (hp : Sealed p) (hsteady : Steady p same) (hroom : room ≤ room')
    {forms : List Value} {outcomes : List Outcome} {last : Session}
    (hforms : ∀ form ∈ forms, form.Every p) (h : BecomesEach room session forms outcomes last)
    (hdeep : .failure .nestingTooDeep ∉ outcomes)
    (halike : (widening p same).Alike session session') :
    ∃ last', BecomesEach room' session' forms outcomes last' ∧
      (widening p same).Alike last last' := by
  induction h generalizing session' with
  | nil => exact ⟨session', .nil, halike⟩
  | cons hform _ ih =>
    rw [List.forall_mem_cons] at hforms
    rw [List.mem_cons, not_or] at hdeep
    obtain ⟨middle', hform', hmiddle⟩ :=
      hform.widened hp hsteady hroom hforms.1 (fun heq => hdeep.1 heq.symm) halike
    obtain ⟨last', hrest', hlast⟩ := ih hforms.2 hdeep.2 hmiddle
    exact ⟨last', .cons hform' hrest', hlast⟩

end

/-! ## A program that adds no operations -/

theorem sealed_isExpression : Sealed Value.IsExpression :=
  sealed_of_leaves trivial (fun _ => trivial) fun _ => trivial

theorem steady_isExpression :
    Steady Value.IsExpression fun journal journal' =>
      Journal.values journal = Journal.values journal' :=
  steady_of_expressions fun _ h => h

theorem readable_isExpression {value : Value} (h : value.Readable) :
    value.Every Value.IsExpression :=
  (h.spoken.imp native_of_spoken).imp isExpression_of_native

theorem initial_isExpression : Session.initial.Every Value.IsExpression :=
  initial_native.imp isExpression_of_native

/-- A call that is recorded answers with its argument, whether that has a written form or not. -/
theorem run_record {room : Nat} {value : Value} {text : Except Unwritable String}
    (hrender : value.render room = text)
    (htext : ∀ object, text ≠ .error (.notAnExpression object)) (session : Session) :
    Operation.run room (.hosted .record) [value] session =
      .ok (.ok value) { session with journal := session.journal ++ [[⟨value, text⟩]] } := by
  have hentry : Recorded.entry room [value] = .ok [⟨value, text⟩] := by
    rw [Recorded.entry, hrender]
    split
    · rename_i object
      exact absurd rfl (htext object)
    · rfl
  have hcallback : Hosted.callback .record room [value] session.journal =
      .ok (.ok value) (session.journal ++ [[⟨value, text⟩]]) := by
    rw [Hosted.callback, hentry]
    rfl
  change Run.onJournal (Hosted.callback .record room [value]) session = _
  rw [Run.onJournal, hcallback]

/-! ## Answers with more room -/

/-- More room, such as a larger recursion limit leaves, never changes an answer, only whether
there is one, as far as hosted operations keep it so (`Steady`). An evaluation that does not
end for lack of room ends in the same way with more of it, and leaves the same bindings and a
journal that is the same in the sense in which operations keep it. A value that is not too
deep to be written is written the same, and values that can be compared compare the same. If
no form of a source is too deep, the same becomes of all of them. -/
theorem more_room_same_answer [Host] {p : Value → Prop} {same : Journal → Journal → Prop}
    (hp : Sealed p) (hread : ∀ value : Value, value.Readable → value.Every p)
    (hsteady : Steady p same) (hrefl : ∀ journal, same journal journal)
    {room room' : Nat} (hroom : room ≤ room') {session : Session} (hsession : session.Every p) :
    (∀ expr : Value, expr.Every p → (evaluate room expr).outcome session ≠ .error .tooDeep →
      (evaluate room' expr).outcome session = (evaluate room expr).outcome session ∧
      ((evaluate room' expr).exec session).bindings = ((evaluate room expr).exec session).bindings ∧
      same ((evaluate room expr).exec session).journal
        ((evaluate room' expr).exec session).journal) ∧
    (∀ value : Value, value.render room ≠ .error .tooDeep →
      value.render room' = value.render room) ∧
    (∀ (a b : Value) answer, a.compare room b = some answer → a.compare room' b = some answer) ∧
    ∀ source outcomes last, evalAll room source session = .ok outcomes last →
      .failure .nestingTooDeep ∉ outcomes →
      ∃ last', evalAll room' source session = .ok outcomes last' ∧
        last'.bindings = last.bindings ∧ same last.journal last'.journal := by
  have halike : (widening p same).Alike session session := ⟨hsession, rfl, hrefl _⟩
  refine ⟨?_, ?_, fun a b answer => compare_mono hroom a b, ?_⟩
  · intro expr hexpr henough
    obtain ⟨houtcome, hafter⟩ :=
      (evaluate_widened hp hsteady hroom hexpr halike).agree fun _ => henough
    exact ⟨houtcome.symm, hafter.bindings.symm, hafter.journals⟩
  · intro value henough
    exact (render_persists hroom value).resolve_left henough
  · intro source outcomes last hall hdeep
    obtain ⟨forms, hforms⟩ := readAll_of_evalAll hall
    have hevery : ∀ form ∈ forms, form.Every p :=
      fun form hform => hread form (Source.readable_of_readAll hforms form hform)
    rw [evalAll_eq_ok_iff hforms] at hall
    obtain ⟨last', hall', hlast⟩ := hall.widened hp hsteady hroom hevery hdeep halike
    exact ⟨last', (evalAll_eq_ok_iff hforms).mpr hall', hlast.bindings.symm, hlast.journals⟩

/-- With a recursion limit of sixteen the list that is recorded has no written form, with
a larger one it has; the value, and what is recorded, is the same. -/
theorem more_room_same_answer_sample :
    let room := Room.ofLimit 16
    let room' := Room.ofLimit 1000
    let session := Session.initial.put "record" (.prim ⟨"record", 0, .hosted .record⟩)
    let expr := Value.list [.sym "record", .quote (.list [.sym "a"])]
    (evaluate room' expr).outcome session = .ok (.list [.sym "a"]) ∧
      Journal.values ((evaluate room expr).exec session).journal =
        Journal.values ((evaluate room' expr).exec session).journal ∧
      ((evaluate room expr).exec session).journal = [[⟨.list [.sym "a"], .error .tooDeep⟩]] ∧
      ((evaluate room' expr).exec session).journal = [[⟨.list [.sym "a"], .ok "(a)"⟩]] := by
  intro room room' session expr
  have hsession : session.Every Value.IsExpression := .put initial_isExpression trivial
  have hroom : room ≤ room' := Room.ofLimit_mono (by omega)
  obtain ⟨hevaluate, -⟩ := more_room_same_answer sealed_isExpression (fun _ => readable_isExpression)
    steady_isExpression (fun _ => rfl) hroom hsession
  have hexpr : expr.Every Value.IsExpression := by simp [expr, Value.IsExpression]
  have hsmall : (evaluate room expr).outcome session = .ok (.list [.sym "a"]) := rfl
  obtain ⟨houtcome, -, hvalues⟩ := hevaluate expr hexpr (by rw [hsmall]; nofun)
  exact ⟨houtcome.trans hsmall, hvalues, rfl, rfl⟩

/-- A program whose operations answer with the room that they are given. -/
abbrev Host.measuring : Host := ⟨fun _ room _ => return .ok (.int room)⟩

/-- With the default recursion limit, what is recorded of 1500 quotes is that they have no written
form, with a larger one it is that form. And operations can tell how much room there is. -/
theorem more_room_other_answer :
    (let room := Room.ofLimit Room.defaultLimit
      let room' := Room.ofLimit 5000
      let session := Session.initial.put "record" (.prim ⟨"record", 0, .hosted .record⟩)
      let value := Value.nil.quoted 1500
      let expr := Value.list [.sym "record", .quote value]
      room ≤ room' ∧ (evaluate room expr).outcome session = .ok value ∧
      (evaluate room' expr).outcome session = .ok value ∧
      ((evaluate room expr).exec session).journal = [[⟨value, .error .tooDeep⟩]] ∧
      ((evaluate room' expr).exec session).journal = [[⟨value, .ok (quotedText "nil" 1500)⟩]]) ∧
    let session := Session.initial.put "f" (.prim ⟨"f", 0, .hosted (.custom "f")⟩)
    (@evaluate .measuring 10 (.list [.sym "f"])).outcome session = .ok (.int 7) ∧
    (@evaluate .measuring 20 (.list [.sym "f"])).outcome session = .ok (.int 17) := by
  refine ⟨?_, rfl, rfl⟩
  intro room room' session value expr
  have hcall (inner : Nat) {text : Except Unwritable String} (hrender : value.render inner = text)
      (htext : ∀ object, text ≠ .error (.notAnExpression object)) :
      evaluate (Room.evaluateForm + inner) expr session =
        .ok value { session with journal := [[⟨value, text⟩]] } := by
    rw [evaluate_application session (Room.enter_eq_some_iff.mpr rfl) rfl]
    change Primitive.call inner (.sym "record") ⟨"record", 0, .hosted .record⟩ [value] session = _
    rw [call_apply, if_neg (Nat.not_lt_zero _), run_record hrender htext]
    rfl
  have hdeep : evaluate room expr session =
      .ok value { session with journal := [[⟨value, .error .tooDeep⟩]] } :=
    hcall 985 (render_quoted_tooDeep .nil (by decide)) nofun
  have hwritten : evaluate room' expr session =
      .ok value { session with journal := [[⟨value, .ok (quotedText "nil" 1500)⟩]] } :=
    hcall 4985 (render_quoted .nil 3485 1500) nofun
  refine ⟨Room.ofLimit_mono (by decide), ?_, ?_, ?_, ?_⟩
  · rw [EStateM.outcome, hdeep]
  · rw [EStateM.outcome, hwritten]
  · rw [EStateM.exec_ok hdeep]
  · rw [EStateM.exec_ok hwritten]

end Sexpr
