import Sexpr.Proofs.Reaching

/-!
# The order of evaluation

The parts of an expression outside quotes can be listed from left to right, each after its
own parts. The course of an evaluation lists the moments that it comes to, in the order in
which they end. Main statements: the course holds what is reached and nothing else; its
expressions are some of the parts in the order of their listing, so that no part is
evaluated twice or before one that stands to its left; what is skipped is left out; and
without choices, success evaluates all applications.
-/
namespace Sexpr

/-! ## Parts -/

namespace Value

mutual

/-- The parts of an expression outside quotes, from left to right, each after its own
parts. The name at the beginning of a form is not counted. -/
def parts : Value → List Value
  | .list (.sym name :: args) =>
    (if SpecialForm.ofName? name = some .quote then [] else partsEach args) ++
      [.list (.sym name :: args)]
  | .list items => partsEach items ++ [.list items]
  | expr => [expr]

/-- The parts of the expressions, from left to right. -/
def partsEach : List Value → List Value
  | [] => []
  | expr :: rest => parts expr ++ partsEach rest

end

/-- The expression applies what a name stands for to arguments. -/
def isApplication : Value → Bool
  | .list (.sym name :: _) => (SpecialForm.ofName? name).isNone
  | _ => false

/-- The applications in an expression outside quotes, from left to right, each after those
in its arguments. -/
def applications (expr : Value) : List Value := expr.parts.filter isApplication

theorem partsEach_eq (exprs : List Value) : partsEach exprs = exprs.flatMap parts := by
  induction exprs with
  | nil => rfl
  | cons expr rest ih => rw [partsEach, ih, List.flatMap_cons]

variable {name : String} {args : List Value} {body c t a : Value}

/-- Every expression is the last of its parts. -/
theorem parts_eq (expr : Value) : expr.parts = expr.parts.dropLast ++ [expr] := by
  obtain ⟨inner, hparts⟩ : ∃ inner, expr.parts = inner ++ [expr] := by
    unfold parts
    split
    · exact ⟨_, rfl⟩
    · exact ⟨_, rfl⟩
    · exact ⟨[], rfl⟩
  rw [hparts, List.dropLast_concat]

theorem parts_definition :
    (definition name body).parts = (.sym name :: body.parts) ++ [definition name body] := by
  simp [definition, parts, partsEach, SpecialForm.ofName?]

theorem parts_choice :
    (choice c t a).parts = c.parts ++ (t.parts ++ a.parts) ++ [choice c t a] := by
  simp [choice, parts, partsEach, SpecialForm.ofName?]

theorem parts_application (hname : SpecialForm.ofName? name = none) :
    (list (.sym name :: args)).parts = args.flatMap parts ++ [.list (.sym name :: args)] := by
  rw [parts, hname, if_neg nofun, partsEach_eq]

/-- The branch that is taken stands in the listing of both. -/
theorem sublist_parts_of_branch {taken : Bool} {exprs : List Value}
    (h : exprs.Sublist (if taken then t else a).parts) : exprs.Sublist (t.parts ++ a.parts) := by
  cases taken with
  | true => exact List.Sublist.trans h (List.sublist_append_left _ _)
  | false => exact List.Sublist.trans h (List.sublist_append_right _ _)

/-- The branch that is taken is listed between the condition and the choice. -/
theorem exists_parts_taken (taken : Bool) (c t a : Value) :
    ∃ front back, (choice c t a).parts = front ++ (if taken then t else a).parts ++ back ∧
      c.parts.Sublist front ∧ [choice c t a].Sublist back := by
  rw [parts_choice]
  cases taken with
  | true =>
    exact ⟨c.parts, a.parts ++ [choice c t a], by simp, List.Sublist.refl _,
      List.sublist_append_right _ _⟩
  | false =>
    exact ⟨c.parts ++ t.parts, [choice c t a], by simp, List.sublist_append_left _ _,
      List.Sublist.refl _⟩

/-- What is listed around the branch that is not taken are the condition, the branch that
is, and the choice. -/
theorem exists_parts_passed (taken : Bool) (c t a : Value) :
    ∃ front back, (choice c t a).parts = front ++ (if taken then a else t).parts ++ back ∧
      front ++ back = c.parts ++ (if taken then t else a).parts ++ [choice c t a] := by
  rw [parts_choice]
  cases taken with
  | true => exact ⟨c.parts ++ t.parts, [choice c t a], by simp, by simp⟩
  | false => exact ⟨c.parts, a.parts ++ [choice c t a], by simp, by simp⟩

theorem applications_definition : (definition name body).applications = body.applications := by
  rw [applications, parts_definition]
  simp [applications, definition, isApplication, SpecialForm.ofName?]

theorem applications_application (hname : SpecialForm.ofName? name = none) :
    (list (.sym name :: args)).applications =
      args.flatMap applications ++ [.list (.sym name :: args)] := by
  have hself : isApplication (.list (.sym name :: args)) = true := by simp [isApplication, hname]
  rw [applications, parts_application hname, List.filter_append, List.filter_flatMap,
    List.filter_cons_of_pos hself]
  rfl

end Value

/-! ## The course of an evaluation -/

mutual

/-- The moments that the evaluation of an expression comes to, in the order in which they
end. -/
def course [Host] (room : Nat) : Value → Session → List Moment
  | .list (.sym name :: args), session =>
    (match Room.enter Room.evaluateForm room with
      | none => []
      | some inner =>
        match SpecialForm.ofName? name with
        | some form => courseSpecial inner form args session
        | none =>
          match session.bindings.value? name with
          | some (.prim _) => courseEach inner args session
          | _ => []) ++ [⟨room, .list (.sym name :: args), session⟩]
  | expr, session => [⟨room, expr, session⟩]

/-- The moments inside a special form. -/
def courseSpecial [Host] (room : Nat) : SpecialForm → List Value → Session → List Moment
  | .choose, [condition, consequent, alternative], session =>
    course room condition session ++
      match evaluate room condition session with
      | .ok value after =>
        if value.isTruthy then course room consequent after else course room alternative after
      | .error .. => []
  | .define, [.sym name, body], session =>
    if session.bindings.contains name then [] else course room body session
  | _, _, _ => []

/-- The moments of expressions that are evaluated one after the other. -/
def courseEach [Host] (room : Nat) : List Value → Session → List Moment
  | [], _ => []
  | expr :: rest, session =>
    course room expr session ++
      match evaluate room expr session with
      | .ok _ after => courseEach room rest after
      | .error .. => []

end

section
variable [Host] {room inner : Nat} {session after : Session}

theorem course_special {name : String} {form : SpecialForm} {args : List Value}
    (hroom : Room.enter Room.evaluateForm room = some inner)
    (hname : SpecialForm.ofName? name = some form) :
    course room (.list (.sym name :: args)) session =
      courseSpecial inner form args session ++ [⟨room, .list (.sym name :: args), session⟩] := by
  rw [course, hroom]
  simp only [hname]

theorem course_immediate {expr : Value} (h : expr.Immediate room) :
    course room expr session = [⟨room, expr, session⟩] := by
  cases h with
  | nil | bool | int | str | prim | foreign | quote | sym | empty => rfl
  | @headless head _ hhead =>
    cases head with
    | sym name => exact absurd rfl (hhead name)
    | nil | bool | int | str | list | quote | prim | foreign => rfl
  | tooDeep hroom =>
    rw [course, hroom]
    rfl
  | quotation hroom hname =>
    rw [course_special hroom hname]
    rfl
  | @badTarget _ _ target _ hroom hname htarget =>
    rw [course_special hroom hname]
    cases target with
    | sym symbol => exact absurd rfl (htarget symbol)
    | nil | bool | int | str | list | quote | prim | foreign => rfl
  | misuse hroom hname hlength =>
    rw [course_special hroom hname]
    unfold courseSpecial
    split
    · exact absurd rfl hlength
    · exact absurd rfl hlength
    · rfl

theorem course_definition {name : String} {body : Value}
    (hroom : Room.enter Room.evaluateForm room = some inner) :
    course room (.definition name body) session =
      (if session.bindings.contains name then [] else course inner body session) ++
        [⟨room, .definition name body, session⟩] := by
  have hname : SpecialForm.ofName? "def" = some .define := rfl
  rw [Value.definition, course_special hroom hname, courseSpecial]

theorem course_choice {c t a : Value} (hroom : Room.enter Room.evaluateForm room = some inner) :
    course room (.choice c t a) session =
      course inner c session ++
        (match evaluate inner c session with
          | .ok value after => course inner (if value.isTruthy then t else a) after
          | .error .. => []) ++ [⟨room, .choice c t a, session⟩] := by
  have hname : SpecialForm.ofName? "if" = some .choose := rfl
  rw [Value.choice, course_special hroom hname, courseSpecial]
  cases evaluate inner c session with
  | error reason after => rfl
  | ok value after => cases hvalue : value.isTruthy <;> simp [hvalue]

theorem course_application {name : String} {args : List Value}
    (hroom : Room.enter Room.evaluateForm room = some inner)
    (hname : SpecialForm.ofName? name = none) :
    course room (.list (.sym name :: args)) session =
      (match session.bindings.value? name with
        | some (.prim _) => courseEach inner args session
        | _ => []) ++ [⟨room, .list (.sym name :: args), session⟩] := by
  rw [course, hroom]
  simp only [hname]

theorem courseEach_collects (room : Nat) : Collects room (course room) (courseEach room) where
  nil _ := rfl
  cons _ _ _ := rfl

/-! ## The course follows the listing -/

theorem courseEach_sublist {args : List Value}
    (h : ∀ arg ∈ args, ∀ session, ((course room arg session).map Moment.expr).Sublist arg.parts)
    (session : Session) :
    ((courseEach room args session).map Moment.expr).Sublist (args.flatMap Value.parts) := by
  induction args generalizing session with
  | nil => exact List.Sublist.refl _
  | cons arg args ih =>
    rw [courseEach, List.map_append, List.flatMap_cons]
    refine (h arg List.mem_cons_self session).append ?_
    cases evaluate room arg session with
    | error reason after => exact List.nil_sublist _
    | ok value after => exact ih (fun arg harg => h arg (List.mem_cons_of_mem _ harg)) after

/-- What is evaluated are some of the parts, in their order and each at most once. -/
theorem course_sublist (room : Nat) (expr : Value) (session : Session) :
    ((course room expr session).map Moment.expr).Sublist expr.parts := by
  induction room, expr using Value.evaluationInduction generalizing session with
  | immediate room expr hexpr =>
    rw [course_immediate hexpr, Value.parts_eq]
    exact List.sublist_append_right _ _
  | definition room inner name body hroom ih =>
    rw [course_definition hroom, Value.parts_definition, List.map_append]
    -- The target is listed before the body, but it is not evaluated.
    refine List.Sublist.append ?_ (List.Sublist.refl _)
    cases session.bindings.contains name with
    | true => exact List.nil_sublist _
    | false => exact (ih session).cons _
  | choice room inner c t a hroom ihc ihbranch =>
    rw [course_choice hroom, Value.parts_choice, List.map_append, List.map_append]
    refine ((ihc session).append ?_).append (List.Sublist.refl _)
    cases evaluate inner c session with
    | error reason after => exact List.nil_sublist _
    | ok value after => exact Value.sublist_parts_of_branch (ihbranch value after)
  | application room inner name args hroom hname ih =>
    rw [course_application hroom hname, Value.parts_application hname, List.map_append]
    refine List.Sublist.append ?_ (List.Sublist.refl _)
    split
    · exact courseEach_sublist ih session
    · exact List.nil_sublist _

end

namespace Moment

variable [Host] {moment next target : Moment}

/-- The moments that are come to from the moment on. -/
def course (moment : Moment) : List Moment :=
  Sexpr.course moment.room moment.expr moment.session

/-- The evaluation of a part is a stretch of the whole, as the part is of the listing; what
comes before and after it in the course does so in the listing. -/
theorem Enters.split (h : moment.Enters next) :
    ∃ front back earlier later, moment.expr.parts = front ++ next.expr.parts ++ back ∧
      moment.course = earlier ++ next.course ++ later ∧
      (earlier.map Moment.expr).Sublist front ∧ (later.map Moment.expr).Sublist back := by
  unfold course
  cases h with
  | @body room _ name body session hroom hbound =>
    refine ⟨[.sym name], [.definition name body], [], [⟨room, .definition name body, session⟩],
      Value.parts_definition, ?_, List.nil_sublist _, List.Sublist.refl _⟩
    rw [course_definition hroom, if_neg (by simp [hbound])]
    rfl
  | @condition _ inner c t a session hroom =>
    -- After the condition there is at most one branch, and both are listed.
    have hcourse := @course_choice _ _ inner session c t a hroom
    rw [List.append_assoc] at hcourse
    refine ⟨[], t.parts ++ a.parts ++ [.choice c t a], [], _, ?_, hcourse, List.nil_sublist _, ?_⟩
    · rw [Value.parts_choice, List.nil_append, List.append_assoc]
    · rw [List.map_append]
      refine List.Sublist.append ?_ (List.Sublist.refl _)
      cases evaluate inner c session with
      | error reason after => exact List.nil_sublist _
      | ok value after => exact Value.sublist_parts_of_branch (course_sublist inner _ after)
  | @branch _ inner c t a session value after hroom hcondition =>
    have hcourse := @course_choice _ _ inner session c t a hroom
    rw [hcondition] at hcourse
    obtain ⟨front, back, hparts, hfront, hback⟩ := Value.exists_parts_taken value.isTruthy c t a
    exact ⟨front, back, _, [_], hparts, hcourse, (course_sublist inner c session).trans hfront,
      hback⟩
  | @argument _ inner name primitive session before arg rest values after hroom hname hcallee
      hbefore =>
    -- The arguments before have all been evaluated; those after it only if it succeeds.
    have hcourse := @course_application _ _ inner session name (before ++ arg :: rest) hroom hname
    rw [hcallee] at hcourse
    simp only [(courseEach_collects inner).append hbefore, courseEach, List.append_assoc] at hcourse
    rw [← List.append_assoc] at hcourse
    refine ⟨before.flatMap Value.parts,
      rest.flatMap Value.parts ++ [.list (.sym name :: (before ++ arg :: rest))], _, _, ?_, hcourse,
      courseEach_sublist (fun arg _ => course_sublist inner arg) session, ?_⟩
    · rw [Value.parts_application hname]
      simp
    · rw [List.map_append]
      refine List.Sublist.append ?_ (List.Sublist.refl _)
      cases evaluate inner arg after with
      | error reason after => exact List.nil_sublist _
      | ok value after => exact courseEach_sublist (fun arg _ => course_sublist inner arg) after

/-! ## What the course holds -/

theorem mem_course (moment : Moment) : moment ∈ moment.course := by
  obtain ⟨room, expr, session⟩ := moment
  unfold course
  induction room, expr using Value.evaluationInduction generalizing session with
  | immediate room expr hexpr => simp [course_immediate hexpr]
  | definition room inner name body hroom => simp [course_definition hroom]
  | choice room inner c t a hroom => simp [course_choice hroom]
  | application room inner name args hroom hname => simp [course_application hroom hname]

theorem Enters.course_subset (h : moment.Enters next) : next.course ⊆ moment.course := by
  obtain ⟨_, _, earlier, later, -, hcourse, -⟩ := h.split
  intro target htarget
  simp [hcourse, htarget]

theorem reaches_of_mem_course {room : Nat} {expr : Value} {session : Session}
    (h : target ∈ Sexpr.course room expr session) : Reaches ⟨room, expr, session⟩ target := by
  induction room, expr using Value.evaluationInduction generalizing session with
  | immediate room expr hexpr =>
    rw [course_immediate hexpr, List.mem_singleton] at h
    exact h ▸ .refl
  | definition room inner name body hroom ih =>
    rw [course_definition hroom, List.mem_append, List.mem_singleton] at h
    rcases h with hinside | rfl
    · cases hbound : session.bindings.contains name with
      | true => simp [hbound] at hinside
      | false =>
        rw [if_neg (by simp [hbound])] at hinside
        exact .head (.body hroom hbound) (ih hinside)
    · exact .refl
  | choice room inner c t a hroom ihc ihbranch =>
    rw [course_choice hroom, List.mem_append, List.mem_append, List.mem_singleton] at h
    rcases h with (hinside | hbranch) | rfl
    · exact .head (.condition hroom) (ihc hinside)
    · cases hcondition : evaluate inner c session with
      | error reason after => simp [hcondition] at hbranch
      | ok value after =>
        simp only [hcondition] at hbranch
        exact .head (.branch hroom hcondition) (ihbranch value hbranch)
    · exact .refl
  | application room inner name args hroom hname ih =>
    rw [course_application hroom hname, List.mem_append, List.mem_singleton] at h
    rcases h with hinside | rfl
    · split at hinside
      · rename_i primitive hcallee
        obtain ⟨before, arg, rest, values, between, rfl, hbefore, hmem⟩ :=
          (courseEach_collects inner).exists_of_mem hinside
        exact .head (.argument hroom hname hcallee hbefore) (ih arg (by simp) hmem)
      · cases hinside
    · exact .refl

/-- The course holds what is reached. -/
theorem mem_course_iff : target ∈ moment.course ↔ moment.Reaches target := by
  constructor
  · exact reaches_of_mem_course
  · intro h
    induction h using Relation.ReflTransGen.head_induction_on with
    | refl => exact target.mem_course
    | head hstep _ ih => exact hstep.course_subset ih

/-! ## What is left out -/

/-- The listing of the parts of the expression has this stretch, and what is evaluated is
listed before or after it. -/
def LeavesOut (moment : Moment) (skipped : List Value) : Prop :=
  ∃ front back, moment.expr.parts = front ++ skipped ++ back ∧
    (moment.course.map Moment.expr).Sublist (front ++ back)

/-- Evaluation passes over these parts of the expression. -/
inductive Skips : Moment → List Value → Prop where
  /-- All parts of a special form that is not well formed, of a list that begins with no
  symbol and of a form for which there is too little room. -/
  | immediate {room expr session} : expr.Immediate room →
      Skips ⟨room, expr, session⟩ expr.parts.dropLast
  /-- The body of a definition of a name that is bound. -/
  | bound {room name body session} : session.bindings.contains name = true →
      Skips ⟨room, .definition name body, session⟩ body.parts
  /-- The branch that the condition does not select. -/
  | unselected {room inner c t a session value after} :
      Room.enter Room.evaluateForm room = some inner →
      evaluate inner c session = .ok value after →
      Skips ⟨room, .choice c t a, session⟩ (if value.isTruthy then a else t).parts
  /-- Both branches, if the condition halts. -/
  | undecided {room inner c t a session reason after} :
      Room.enter Room.evaluateForm room = some inner →
      evaluate inner c session = .error reason after →
      Skips ⟨room, .choice c t a, session⟩ (t.parts ++ a.parts)
  /-- The arguments of a head that is not bound to a primitive. -/
  | uncalled {room name args session} : SpecialForm.ofName? name = none →
      (∀ primitive, session.bindings.value? name ≠ some (.prim primitive)) →
      Skips ⟨room, .list (.sym name :: args), session⟩ (args.flatMap Value.parts)
  /-- The arguments after one that halts. -/
  | later {room inner name before arg rest session values between reason after} :
      Room.enter Room.evaluateForm room = some inner → SpecialForm.ofName? name = none →
      evaluateEach inner before session = .ok values between →
      evaluate inner arg between = .error reason after →
      Skips ⟨room, .list (.sym name :: (before ++ arg :: rest)), session⟩
        (rest.flatMap Value.parts)

theorem Skips.leavesOut {skipped : List Value} (h : moment.Skips skipped) :
    moment.LeavesOut skipped := by
  unfold LeavesOut course
  cases h with
  | @immediate room expr session hexpr =>
    refine ⟨[], [expr], expr.parts_eq, ?_⟩
    rw [course_immediate hexpr]
    exact List.Sublist.refl _
  | @bound room name body session hbound =>
    refine ⟨[.sym name], [.definition name body], Value.parts_definition, ?_⟩
    cases hroom : Room.enter Room.evaluateForm room with
    | none =>
      have himmediate : (Value.definition name body).Immediate room := .tooDeep hroom
      rw [course_immediate himmediate]
      exact List.sublist_append_right _ _
    | some inner =>
      rw [course_definition hroom, if_pos hbound]
      exact List.sublist_append_right _ _
  | @unselected room inner c t a session value after hroom hcondition =>
    obtain ⟨front, back, hparts, hrest⟩ := Value.exists_parts_passed value.isTruthy c t a
    refine ⟨front, back, hparts, ?_⟩
    rw [course_choice hroom, hcondition, hrest, List.map_append, List.map_append]
    exact ((course_sublist inner c session).append (course_sublist inner _ after)).append
      (List.Sublist.refl _)
  | @undecided room inner c t a session reason after hroom hcondition =>
    refine ⟨c.parts, [.choice c t a], Value.parts_choice, ?_⟩
    rw [course_choice hroom, hcondition, List.append_nil, List.map_append]
    exact (course_sublist inner c session).append (List.Sublist.refl _)
  | @uncalled room name args session hname hcallee =>
    refine ⟨[], [.list (.sym name :: args)], Value.parts_application hname, ?_⟩
    cases hroom : Room.enter Room.evaluateForm room with
    | none =>
      rw [course_immediate (.tooDeep hroom)]
      exact List.Sublist.refl _
    | some inner =>
      rw [course_application hroom hname]
      split
      · rename_i primitive hprimitive
        exact (hcallee primitive hprimitive).elim
      · exact List.Sublist.refl _
  | @later room inner name before arg rest session values between reason after hroom hname hbefore
      harg =>
    refine ⟨(before ++ [arg]).flatMap Value.parts, [.list (.sym name :: (before ++ arg :: rest))],
      ?_, ?_⟩
    · rw [Value.parts_application hname]
      simp
    · rw [course_application hroom hname, List.map_append]
      refine List.Sublist.append ?_ (List.Sublist.refl _)
      split
      · rw [(courseEach_collects inner).append hbefore, courseEach, harg, List.append_nil, List.map_append,
          List.flatMap_append, List.flatMap_singleton]
        exact (courseEach_sublist (fun arg _ => course_sublist inner arg) session).append
          (course_sublist inner arg between)
      · exact List.nil_sublist _

theorem Enters.leavesOut {skipped : List Value} (hstep : moment.Enters next)
    (h : next.LeavesOut skipped) : moment.LeavesOut skipped := by
  obtain ⟨front, back, earlier, later, hparts, hcourse, hearlier, hlater⟩ := hstep.split
  obtain ⟨front', back', hparts', hcourse'⟩ := h
  refine ⟨front ++ front', back' ++ back, ?_, ?_⟩
  · rw [hparts, hparts']
    simp
  · rw [hcourse, List.map_append, List.map_append]
    have hall := (hearlier.append hcourse').append hlater
    simpa using hall

/-- What is skipped anywhere in an evaluation is left out of it. -/
theorem Reaches.leavesOut {skipped : List Value} (hreach : moment.Reaches target)
    (h : target.Skips skipped) : moment.LeavesOut skipped := by
  induction hreach using Relation.ReflTransGen.head_induction_on with
  | refl => exact h.leavesOut
  | head hstep _ ih => exact hstep.leavesOut ih

end Moment

/-! ## Success -/

section
variable [Host] {room : Nat} {session after : Session}

theorem courseEach_of_ok {args values : List Value}
    (h : evaluateEach room args session = .ok values after)
    (hargs : ∀ arg ∈ args, ∀ value session after, evaluate room arg session = .ok value after →
      ((course room arg session).map Moment.expr).filter Value.isApplication = arg.applications) :
    ((courseEach room args session).map Moment.expr).filter Value.isApplication =
      args.flatMap Value.applications := by
  induction args generalizing session values after with
  | nil => rfl
  | cons arg args ih =>
    obtain ⟨value, others, between, -, harg, hrest⟩ := evaluateEach_cons_eq_ok_iff.mp h
    have hfirst := hargs arg List.mem_cons_self value session between harg
    have hothers := ih hrest fun arg harg => hargs arg (List.mem_cons_of_mem _ harg)
    rw [courseEach, harg, List.map_append, List.filter_append, hfirst, List.flatMap_cons]
    simp only
    rw [hothers]

/-- Without choices, success evaluates every application of the expression. -/
theorem course_of_ok {expr value : Value} (h : evaluate room expr session = .ok value after)
    (hchoice : ∀ c t a, ¬Within (.choice c t a) expr) :
    ((course room expr session).map Moment.expr).filter Value.isApplication =
      expr.applications := by
  induction room, expr using Value.evaluationInduction generalizing session value after with
  | immediate room expr hexpr =>
    rw [course_immediate hexpr]
    -- What fails at once is excluded; what is left has no parts but itself.
    cases hexpr with
    | nil | bool | int | str | prim | quote | sym | empty => rfl
    | foreign => cases h
    | headless hhead =>
      rw [evaluate_headless session hhead] at h
      cases h
    | tooDeep hroom =>
      rw [evaluate_tooDeep session hroom] at h
      cases h
    | quotation hroom hname =>
      cases Value.ofName?_some hname
      rfl
    | badTarget hroom hname htarget =>
      rw [evaluate_badTarget session hroom hname htarget] at h
      cases h
    | misuse hroom hname hlength =>
      rw [evaluate_misuse session hroom hname hlength] at h
      cases h
  | definition room inner name body hroom ih =>
    obtain ⟨_, bodyValue, between, hinner, hbound, hbody, -, -⟩ :=
      evaluate_definition_eq_ok_iff.mp h
    obtain rfl := Option.some.inj (hroom.symm.trans hinner)
    rw [course_definition hroom, if_neg (by simp [hbound]), List.map_append, List.filter_append,
      ih hbody fun c t a hwithin => hchoice c t a (.body hwithin), Value.applications_definition]
    exact List.append_nil _
  | choice room inner c t a => exact (hchoice c t a .self).elim
  | application room inner name args hroom hname ih =>
    have hself : Value.isApplication (.list (.sym name :: args)) = true := by
      simp [Value.isApplication, hname]
    obtain ⟨_, primitive, values, between, hinner, hcallee, hargs, -⟩ :=
      (evaluate_application_eq_ok_iff hname).mp h
    obtain rfl := Option.some.inj (hroom.symm.trans hinner)
    have heach := courseEach_of_ok hargs fun arg harg value session after hok =>
      ih arg harg hok fun c t a hwithin => hchoice c t a (.argument hname harg hwithin)
    rw [course_application hroom hname, hcallee, Value.applications_application hname,
      List.map_append, List.filter_append]
    simp only
    rw [heach]
    simp [hself]

end

end Sexpr
