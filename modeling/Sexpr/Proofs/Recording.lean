import Mathlib.Data.List.Basic
import Sexpr.Proofs.Leaves
import Sexpr.Proofs.Sequencing

/-!
# What is recorded

The journal gets one entry for each call of a primitive that records, at the time of the
call. Where every application begins with an integer of its own, its tag, the journal tells
which of them have been called. Main statement: the tags of the entries that an evaluation
adds follow the listing of the applications from left to right, each after those in its
arguments; none is of an application that is skipped; and none is missing if the evaluation
succeeds without choices and every primitive that is called records.
-/
namespace Sexpr

/-! ## Entries of calls -/

/-- The entry that running the operation on these values adds to the journal, if any. -/
def Operation.entry? (operation : Operation) (room : Nat) (values : List Value) :
    Option (List Recorded) :=
  match operation with
  | .hosted .record => (Recorded.entry room values).toOption
  | _ => none

/-- The entry that calling the primitive on these values adds to the journal, if any. -/
def Primitive.entry? (primitive : Primitive) (room : Nat) (values : List Value) :
    Option (List Recorded) :=
  if values.length < primitive.minArity then none else primitive.operation.entry? room values

section
variable {room : Nat} {values : List Value} {entry : List Recorded}

theorem Operation.entry?_eq_some_iff {operation : Operation} :
    operation.entry? room values = some entry ↔
      operation = .hosted .record ∧ Recorded.entry room values = .ok entry := by
  unfold entry?
  split
  · cases Recorded.entry room values <;> simp [Except.toOption]
  · rename_i hrecord
    exact iff_of_false nofun fun h => hrecord h.1

theorem Primitive.entry?_eq_some_iff {primitive : Primitive} :
    primitive.entry? room values = some entry ↔ primitive.operation = .hosted .record ∧
      primitive.minArity ≤ values.length ∧ Recorded.entry room values = .ok entry := by
  unfold entry?
  split
  · rename_i hfew
    exact iff_of_false nofun fun h => Nat.not_lt.mpr h.2.1 hfew
  · rename_i hfloor
    rw [Operation.entry?_eq_some_iff]
    exact and_congr_right fun _ => (and_iff_right (Nat.not_lt.mp hfloor)).symm

end

/-- Running an operation adds its entry to the journal, however it ends. -/
theorem run_journal (room : Nat) (operation : Operation) (values : List Value)
    (session : Session) :
    ((operation.run room values).exec session).journal =
      session.journal ++ (operation.entry? room values).toList := by
  cases operation with
  | builtin operation => exact (List.append_nil _).symm
  | hosted operation =>
    cases operation with
    | count | collect | refuse | divideByZero | undefined | custom =>
      exact (List.append_nil _).symm
    | record =>
      simp only [EStateM.exec, Operation.run, Run.onJournal, Host.callback, Hosted.callback,
        Operation.entry?]
      cases Recorded.entry room values with
      | error object => exact (List.append_nil _).symm
      | ok entry => rfl

/-- Calling a primitive adds its entry to the journal, however the call ends. -/
theorem call_journal (room : Nat) (head : Value) (primitive : Primitive) (values : List Value)
    (session : Session) :
    ((primitive.call room head values).exec session).journal =
      session.journal ++ (primitive.entry? room values).toList := by
  have hrun := run_journal room primitive.operation values session
  unfold EStateM.exec at hrun ⊢
  rw [call_apply, Primitive.entry?]
  by_cases hfew : values.length < primitive.minArity
  · rw [if_pos hfew, if_pos hfew]
    exact (List.append_nil _).symm
  · rw [if_neg hfew, if_neg hfew, ← hrun]
    cases primitive.operation.run room values session with
    | error reason after => rfl
    | ok answer after =>
      cases answer with
      | ok value => rfl
      | error rejection =>
        simp only
        cases rejection.message room <;> rfl

/-! ## Moments that record -/

namespace Moment

/-- The entry of the call that the moment comes to, if it comes to one that has an entry. -/
def recorded? (moment : Moment) : Option (List Recorded) :=
  match moment.expr, Room.enter Room.evaluateForm moment.room with
  | .list (.sym name :: args), some inner =>
    match SpecialForm.ofName? name, moment.session.bindings.value? name,
      evaluateEach inner args moment.session with
    | none, some (.prim primitive), .ok values _ => primitive.entry? inner values
    | _, _, _ => none
  | _, _ => none

/-- The moment comes to a call that is recorded in this entry. -/
inductive Records : Moment → List Recorded → Prop where
  | intro {moment inner name primitive values after entry} :
      Calls moment inner name primitive values after → primitive.operation = .hosted .record →
      primitive.minArity ≤ values.length → Recorded.entry inner values = .ok entry →
      Records moment entry

variable {moment : Moment} {entry : List Recorded} {room inner : Nat} {session : Session}

theorem recorded?_application {name : String} {args : List Value}
    (hroom : Room.enter Room.evaluateForm room = some inner)
    (hname : SpecialForm.ofName? name = none) :
    recorded? ⟨room, .list (.sym name :: args), session⟩ =
      match session.bindings.value? name, evaluateEach inner args session with
      | some (.prim primitive), .ok values _ => primitive.entry? inner values
      | _, _ => none := by
  simp only [recorded?, hroom, hname]
  split <;> simp_all

theorem recorded?_eq_some_iff : moment.recorded? = some entry ↔ moment.Records entry := by
  constructor
  · intro h
    obtain ⟨room, expr, session⟩ := moment
    unfold recorded? at h
    split at h
    · rename_i name args inner hexpr hroom
      split at h
      · rename_i primitive values after hname hcallee hargs
        obtain ⟨hoperation, hfloor, hentry⟩ := Primitive.entry?_eq_some_iff.mp h
        cases hexpr
        exact .intro (.intro hroom hname hcallee hargs) hoperation hfloor hentry
      · cases h
    · cases h
  · rintro ⟨⟨hroom, hname, hcallee, hargs⟩, hoperation, hfloor, hentry⟩
    rw [recorded?_application hroom hname, hcallee, hargs]
    exact Primitive.entry?_eq_some_iff.mpr ⟨hoperation, hfloor, hentry⟩

theorem Records.isApplication (h : moment.Records entry) : moment.expr.isApplication = true := by
  obtain ⟨⟨_, hname, _, _⟩, _⟩ := h
  simp [Value.isApplication, hname]

theorem recorded?_of_not_application (h : moment.expr.isApplication = false) :
    moment.recorded? = none := by
  cases hrecorded : moment.recorded? with
  | none => rfl
  | some entry =>
    have happlication := (recorded?_eq_some_iff.mp hrecorded).isApplication
    simp [h] at happlication

theorem recorded?_immediate {expr : Value} (h : expr.Immediate room) :
    recorded? ⟨room, expr, session⟩ = none := by
  cases hrecorded : recorded? ⟨room, expr, session⟩ with
  | none => rfl
  | some entry =>
    -- A call needs room, and a head that is no special form.
    obtain ⟨⟨hroom, hname, _, _⟩, _⟩ := recorded?_eq_some_iff.mp hrecorded
    cases h <;> simp_all

end Moment

/-! ## The journal -/

/-- However an evaluation ends, it adds the entries of the moments that it comes to, in the
order in which they end. -/
theorem journal_exec_course (room : Nat) (expr : Value) (session : Session) :
    ((evaluate room expr).exec session).journal =
      session.journal ++ (course room expr session).filterMap Moment.recorded? := by
  induction room, expr using Value.evaluationInduction generalizing session with
  | immediate room expr hexpr =>
    rw [exec_immediate session hexpr, course_immediate hexpr, List.filterMap_cons,
      Moment.recorded?_immediate hexpr]
    exact (List.append_nil _).symm
  | definition room inner name body hroom ih =>
    -- A definition changes the bindings, never the journal.
    have hself : Moment.recorded? ⟨room, .definition name body, session⟩ = none :=
      Moment.recorded?_of_not_application rfl
    have hbody := ih session
    rw [course_definition hroom, List.filterMap_append, List.filterMap_cons, hself]
    unfold EStateM.exec at hbody ⊢
    rw [evaluate_definition session hroom]
    cases session.bindings.contains name with
    | true => exact (List.append_nil _).symm
    | false =>
      simp only [Bool.false_eq_true, if_false, List.filterMap_nil, List.append_nil, ← hbody]
      cases evaluate inner body session <;> rfl
  | choice room inner c t a hroom ihc ihbranch =>
    have hself : Moment.recorded? ⟨room, .choice c t a, session⟩ = none :=
      Moment.recorded?_of_not_application rfl
    rw [course_choice hroom, List.filterMap_append, List.filterMap_append, List.filterMap_cons,
      hself, List.filterMap_nil, List.append_nil, ← List.append_assoc, ← ihc session]
    unfold EStateM.exec at ihbranch ⊢
    rw [evaluate_choice session hroom]
    cases evaluate inner c session with
    | error reason after => exact (List.append_nil _).symm
    | ok value after => exact ihbranch value after
  | application room inner name args hroom hname ih =>
    have hargs := (courseEach_collects inner).exec_eq Session.journal
      (fun journal moments => journal ++ moments.filterMap Moment.recorded?)
      (fun _ => List.append_nil _) (by simp) ih session
    rw [course_application hroom hname, List.filterMap_append, List.filterMap_cons,
      Moment.recorded?_application hroom hname, List.filterMap_nil]
    unfold EStateM.exec at hargs ⊢
    rw [evaluate_application session hroom hname]
    cases session.bindings.value? name with
    | none => exact (List.append_nil _).symm
    | some callee =>
      cases callee with
      | nil | bool | int | str | sym | list | quote | foreign => exact (List.append_nil _).symm
      | prim primitive =>
        simp only
        rw [← List.append_assoc, ← hargs]
        cases evaluateEach inner args session with
        | error reason after => exact (List.append_nil _).symm
        | ok values after =>
          -- The call comes last, after whatever the arguments have recorded.
          have hcall := call_journal inner (.sym name) primitive values after
          unfold EStateM.exec at hcall
          simp only
          rw [hcall]
          cases primitive.entry? inner values <;> rfl

/-! ## Tags -/

/-- The integer that an application begins with. -/
def Value.tag? : Value → Option Int
  | .list (.sym name :: .int n :: _) => if (SpecialForm.ofName? name).isNone then some n else none
  | _ => none

/-- The integer that an entry begins with. -/
def Recorded.tag? : List Recorded → Option Int
  | ⟨.int n, _⟩ :: _ => some n
  | _ => none

theorem Recorded.tag?_of_values {entry : List Recorded} {tag : Int} {values : List Value}
    (h : entry.map Recorded.value = .int tag :: values) : Recorded.tag? entry = some tag := by
  cases entry with
  | nil => cases h
  | cons first rest =>
    obtain ⟨value, text⟩ := first
    cases (List.cons.inj h).1
    rfl

theorem Value.tag?_eq_some_iff {expr : Value} {tag : Int} :
    expr.tag? = some tag ↔ ∃ name rest, SpecialForm.ofName? name = none ∧
      expr = .list (.sym name :: .int tag :: rest) := by
  constructor
  · intro h
    unfold tag? at h
    split at h
    · rename_i name n rest
      split at h
      · rename_i hname
        cases h
        exact ⟨name, rest, Option.isNone_iff_eq_none.mp hname, rfl⟩
      · cases h
    · cases h
  · rintro ⟨name, rest, hname, rfl⟩
    simp [tag?, hname]

theorem Value.tag?_of_not_application {expr : Value} (h : expr.isApplication = false) :
    expr.tag? = none := by
  cases htag : expr.tag? with
  | none => rfl
  | some tag =>
    obtain ⟨name, rest, hname, rfl⟩ := tag?_eq_some_iff.mp htag
    simp [isApplication, hname] at h

theorem Value.filterMap_tag? (exprs : List Value) :
    (exprs.filter isApplication).filterMap tag? = exprs.filterMap tag? := by
  induction exprs with
  | nil => rfl
  | cons expr rest ih =>
    cases h : expr.isApplication with
    | true => rw [List.filter_cons_of_pos h, List.filterMap_cons, List.filterMap_cons, ih]
    | false =>
      rw [List.filter_cons_of_neg (by simp [h]), List.filterMap_cons, tag?_of_not_application h, ih]

/-- If each application has a tag, the listing of the parts has the same tags. -/
theorem Value.filterMap_tag?_parts {expr : Value} {tags : List Int}
    (htags : expr.applications.map tag? = tags.map some) : expr.parts.filterMap tag? = tags := by
  calc expr.parts.filterMap tag?
      = expr.applications.filterMap tag? := (filterMap_tag? expr.parts).symm
    _ = (expr.applications.map tag?).filterMap id := by rw [List.filterMap_map, Function.id_comp]
    _ = tags := by rw [htags, List.filterMap_map, Function.id_comp, List.filterMap_some]

namespace Moment

variable {moment : Moment} {moments : List Moment} {entry : List Recorded}

/-- The tag of the application whose call is recorded at the end of the moment. -/
def recordedTag? (moment : Moment) : Option Int :=
  if moment.recorded?.isSome then moment.expr.tag? else none

theorem recordedTag?_eq_some_iff {tag : Int} :
    moment.recordedTag? = some tag ↔
      moment.expr.tag? = some tag ∧ ∃ entry, moment.Records entry := by
  unfold recordedTag?
  simp only [← recorded?_eq_some_iff, ← Option.isSome_iff_exists]
  split <;> simp_all

/-- The entry of an application begins with its tag, which is its own value. -/
theorem Records.tag?_eq {tag : Int} (h : moment.Records entry)
    (htag : moment.expr.tag? = some tag) : Recorded.tag? entry = some tag := by
  obtain ⟨⟨hroom, hname, hcallee, hargs⟩, -, -, hentry⟩ := h
  obtain ⟨head, rest, -, hexpr⟩ := Value.tag?_eq_some_iff.mp htag
  cases hexpr
  -- The first argument is the tag, a literal: its value comes first in the entry.
  obtain ⟨value, others, between, rfl, hvalue, -⟩ := evaluateEach_cons_eq_ok_iff.mp hargs
  cases hvalue
  exact Recorded.tag?_of_values (Recorded.entry_values hentry)

/-- The entries of moments begin with the tags of their applications. -/
theorem map_tag?_entries (htags : ∀ moment ∈ moments, ∀ entry, moment.Records entry →
      ∃ tag, moment.expr.tag? = some tag) :
    (moments.filterMap recorded?).map Recorded.tag? =
      (moments.filterMap recordedTag?).map some := by
  induction moments with
  | nil => rfl
  | cons moment rest ih =>
    have hrest := ih fun moment hmoment => htags moment (List.mem_cons_of_mem _ hmoment)
    rw [List.filterMap_cons, List.filterMap_cons]
    cases hrecorded : moment.recorded? with
    | none =>
      have htag : moment.recordedTag? = none := by simp [recordedTag?, hrecorded]
      rw [htag]
      exact hrest
    | some entry =>
      have hrecords := recorded?_eq_some_iff.mp hrecorded
      obtain ⟨tag, htag⟩ := htags moment List.mem_cons_self entry hrecords
      rw [recordedTag?_eq_some_iff.mpr ⟨htag, entry, hrecords⟩]
      exact congrArg₂ List.cons (hrecords.tag?_eq htag) hrest

theorem recordedTags_sublist {exprs : List Value} (h : (moments.map Moment.expr).Sublist exprs) :
    (moments.filterMap recordedTag?).Sublist (exprs.filterMap Value.tag?) := by
  refine List.Sublist.trans ?_ (h.filterMap Value.tag?)
  rw [List.filterMap_map]
  -- From here on it is about the moments alone: some of their tags are recorded.
  clear h
  induction moments with
  | nil => exact List.Sublist.refl _
  | cons moment rest ih =>
    rw [List.filterMap_cons, List.filterMap_cons, Function.comp_apply]
    cases hrecorded : moment.recordedTag? with
    | none =>
      cases moment.expr.tag? with
      | none => exact ih
      | some tag => exact ih.cons tag
    | some tag =>
      rw [(recordedTag?_eq_some_iff.mp hrecorded).1]
      exact ih.cons_cons tag

/-- A call of a primitive that records has an entry if it succeeds. -/
theorem Calls.records {inner : Nat} {name : String} {primitive : Primitive} {values : List Value}
    {between after : Session} {value : Value}
    (h : moment.Calls inner name primitive values between)
    (hoperation : primitive.operation = .hosted .record) (hok : moment.result = .ok value after) :
    ∃ entry, moment.Records entry := by
  rw [h.result_eq, call_apply, hoperation] at hok
  split at hok
  · cases hok
  · rename_i hfloor
    cases hentry : Recorded.entry inner values with
    | error object =>
      simp only [Operation.run, Run.onJournal, Host.callback, Hosted.callback, hentry] at hok
      cases hok
    | ok entry => exact ⟨entry, .intro h hoperation (Nat.not_lt.mp hfloor) hentry⟩

/-- Where only primitives that record are called, an application that succeeds is recorded. -/
theorem recordedTag?_of_ok {value : Value} {after : Session}
    (hrecord : ∀ inner name primitive values between,
      moment.Calls inner name primitive values between → primitive.operation = .hosted .record)
    (hok : moment.result = .ok value after) : moment.recordedTag? = moment.expr.tag? := by
  cases htag : moment.expr.tag? with
  | none => simp [recordedTag?, htag]
  | some tag =>
    refine recordedTag?_eq_some_iff.mpr ⟨htag, ?_⟩
    obtain ⟨room, expr, session⟩ := moment
    obtain ⟨name, rest, hname, hexpr⟩ := Value.tag?_eq_some_iff.mp htag
    cases hexpr
    obtain ⟨inner, primitive, values, between, hcalls⟩ := Calls.exists_of_ok hname hok
    exact hcalls.records (hrecord _ _ _ _ _ hcalls) hok

end Moment

/-! ## Tags in the journal -/

/-- Where only primitives that record are called, success without choices leaves out none
of the applications. -/
theorem recordedTags_of_ok {room : Nat} {expr value : Value} {session after : Session}
    (h : evaluate room expr session = .ok value after)
    (hchoice : ∀ c t a, ¬Within (.choice c t a) expr)
    (hrecord : ∀ target inner name primitive values between,
      Moment.Reaches ⟨room, expr, session⟩ target →
      target.Calls inner name primitive values between → primitive.operation = .hosted .record) :
    (course room expr session).filterMap Moment.recordedTag? =
      expr.applications.filterMap Value.tag? := by
  have hpoint : ∀ target ∈ course room expr session,
      target.recordedTag? = (Value.tag? ∘ Moment.expr) target := by
    intro target htarget
    have hreach := Moment.reaches_of_mem_course htarget
    obtain ⟨result, done, hok⟩ := hreach.ok h
    exact Moment.recordedTag?_of_ok (fun _ _ _ _ _ => hrecord _ _ _ _ _ _ hreach) hok
  calc (course room expr session).filterMap Moment.recordedTag?
      = (course room expr session).filterMap (Value.tag? ∘ Moment.expr) :=
        List.filterMap_congr hpoint
    _ = ((course room expr session).map Moment.expr).filterMap Value.tag? :=
        List.filterMap_map.symm
    _ = (((course room expr session).map Moment.expr).filter Value.isApplication).filterMap
          Value.tag? := (Value.filterMap_tag? _).symm
    _ = expr.applications.filterMap Value.tag? := by rw [course_of_ok h hchoice]

section
variable {room : Nat} {expr : Value} {session : Session} {tags : List Int} {tag : Int}

theorem map_tag?_recorded (htags : expr.applications.map Value.tag? = tags.map some) :
    ((course room expr session).filterMap Moment.recorded?).map Recorded.tag? =
      ((course room expr session).filterMap Moment.recordedTag?).map some := by
  refine Moment.map_tag?_entries fun moment hmoment entry hrecords => ?_
  -- Every application of the listing has a tag, and the moment is of one of them.
  have hpart := (course_sublist room expr session).subset (List.mem_map_of_mem hmoment)
  have happlication : moment.expr ∈ expr.applications :=
    List.mem_filter.mpr ⟨hpart, hrecords.isApplication⟩
  have htag : moment.expr.tag? ∈ tags.map some := htags ▸ List.mem_map_of_mem happlication
  obtain ⟨tag, -, heq⟩ := List.mem_map.mp htag
  exact ⟨tag, heq.symm⟩

theorem mem_recordedTags_iff :
    tag ∈ (course room expr session).filterMap Moment.recordedTag? ↔
      ∃ target entry, Moment.Reaches ⟨room, expr, session⟩ target ∧
        target.expr.tag? = some tag ∧ target.Records entry := by
  simp only [List.mem_filterMap, Moment.recordedTag?_eq_some_iff]
  constructor
  · rintro ⟨target, htarget, htag, entry, hrecords⟩
    exact ⟨target, entry, Moment.reaches_of_mem_course htarget, htag, hrecords⟩
  · rintro ⟨target, entry, hreach, htag, hrecords⟩
    exact ⟨target, Moment.mem_course_iff.mpr hreach, htag, entry, hrecords⟩

/-- The tag of a part that is skipped is not recorded, if it is the tag of no other part. -/
theorem not_mem_recordedTags_of_skips {target : Moment} {skipped : List Value} {part : Value}
    (hunique : (expr.parts.filterMap Value.tag?).Nodup)
    (hreach : Moment.Reaches ⟨room, expr, session⟩ target) (hskips : target.Skips skipped)
    (hpart : part ∈ skipped) (htag : part.tag? = some tag) :
    tag ∉ (course room expr session).filterMap Moment.recordedTag? := by
  intro hmem
  obtain ⟨front, back, heq, hsublist⟩ := hreach.leavesOut hskips
  have helsewhere := (Moment.recordedTags_sublist hsublist).subset hmem
  have hskipped : tag ∈ skipped.filterMap Value.tag? := List.mem_filterMap.mpr ⟨part, hpart, htag⟩
  -- The tag would stand twice in the listing: in the stretch, and before or after it.
  rw [heq, List.filterMap_append, List.filterMap_append, List.nodup_append,
    List.nodup_append] at hunique
  obtain ⟨⟨-, -, hfront⟩, -, hback⟩ := hunique
  rw [List.filterMap_append, List.mem_append] at helsewhere
  rcases helsewhere with hbefore | hafter
  · exact hfront tag hbefore tag hskipped rfl
  · exact hback tag (List.mem_append_right _ hskipped) tag hafter rfl

end

/-- An expression in which every application outside quotes begins with an integer of its
own, listed from left to right, each after those in its arguments. However its evaluation
ends, it adds entries to the journal that begin with some of these integers, in their order
and each at most once. They are those of the applications that are reached and come to a
call that records. None is of an application that stands among the parts that are skipped
anywhere. If the evaluation succeeds without choices, and whatever is called records, none
is missing. -/
theorem recorded_in_order (room : Nat) (expr : Value) (session : Session) {tags : List Int}
    (htags : expr.applications.map Value.tag? = tags.map some) (hunique : tags.Nodup) :
    ∃ entries logged,
      ((evaluate room expr).exec session).journal = session.journal ++ entries ∧
      entries.map Recorded.tag? = logged.map some ∧
      logged.Sublist tags ∧
      (∀ tag, tag ∈ logged ↔ ∃ target entry, Moment.Reaches ⟨room, expr, session⟩ target ∧
        target.expr.tag? = some tag ∧ target.Records entry) ∧
      (∀ target skipped, Moment.Reaches ⟨room, expr, session⟩ target → target.Skips skipped →
        ∀ part ∈ skipped, ∀ tag ∈ logged, part.tag? ≠ some tag) ∧
      ((∃ value after, evaluate room expr session = .ok value after) →
        (∀ c t a, ¬Within (.choice c t a) expr) →
        (∀ target inner name primitive values between,
          Moment.Reaches ⟨room, expr, session⟩ target →
          target.Calls inner name primitive values between →
          primitive.operation = .hosted .record) →
        logged = tags) := by
  have hparts := Value.filterMap_tag?_parts htags
  refine ⟨(course room expr session).filterMap Moment.recorded?,
    (course room expr session).filterMap Moment.recordedTag?,
    journal_exec_course room expr session, map_tag?_recorded htags, ?_,
    fun tag => mem_recordedTags_iff, ?_, ?_⟩
  · exact hparts ▸ Moment.recordedTags_sublist (course_sublist room expr session)
  · intro target skipped hreach hskips part hpart tag hlogged htag
    exact not_mem_recordedTags_of_skips (hparts ▸ hunique) hreach hskips hpart htag hlogged
  · rintro ⟨value, after, hok⟩ hchoice hrecord
    rw [recordedTags_of_ok hok hchoice hrecord]
    exact (Value.filterMap_tag? expr.parts).trans hparts

/-- The condition selects the second branch, and the name after it is not bound: the
applications with the tags 5, 7 and 1 are not called, and the one with 4 does not record. -/
theorem recorded_in_order_sample :
    let expr := Value.list [.sym "list", .int 1,
      .list [.sym "record", .int 2, .list [.sym "record", .int 3]],
      .choice (.list [.sym "nil?", .int 4]) (.list [.sym "record", .int 5])
        (.list [.sym "record", .int 6]),
      .sym "missing", .list [.sym "record", .int 7]]
    let session := Session.initial.put "record" (.prim ⟨"record", 1, .hosted .record⟩)
    let tags := [3, 2, 4, 5, 6, 7, 1]
    expr.applications.map Value.tag? = tags.map some ∧ tags.Nodup ∧
      ∃ entries logged, ((evaluate 100 expr).exec session).journal = session.journal ++ entries ∧
        entries.map Recorded.tag? = logged.map some ∧ logged.Sublist tags ∧ logged = [3, 2, 6] := by
  intro expr session tags
  have hjournal : ((evaluate 100 expr).exec session).journal.map Recorded.tag? =
      [3, 2, 6].map some := by decide +kernel +revert
  have htags : expr.applications.map Value.tag? = tags.map some := rfl
  have hunique : tags.Nodup := by decide
  obtain ⟨entries, logged, hentries, hlogged, hsublist, -⟩ :=
    recorded_in_order 100 expr session htags hunique
  have hsame : logged.map some = [3, 2, 6].map some := by
    rw [← hlogged, ← hjournal, hentries]
    rfl
  exact ⟨htags, hunique, entries, logged, hentries, hlogged, hsublist,
    List.map_injective_iff.mpr (fun _ _ => Option.some.inj) hsame⟩

end Sexpr
