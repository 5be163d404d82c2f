import Sexpr.Proofs.Attempts
import Sexpr.Proofs.Defining
import Sexpr.Shell.Source

/-!
# Histories

A session is driven by commands, each with a source text. Whatever the command and
whatever becomes of it, what it does to the session is to evaluate forms of the source
one after the other: the moments at which these begin lead from the session that the
command meets to the one that it leaves.
-/
namespace Sexpr

open EStateM (bind_apply)

/-! ## Forms in sequence -/

/-- The first session becomes the last by evaluations that begin at the moments. -/
inductive Leads [Host] : Session → List Moment → Session → Prop where
  | nil {session} : Leads session [] session
  | cons {room expr session moments last} : Leads ((evaluate room expr).exec session) moments last →
      Leads session (⟨room, expr, session⟩ :: moments) last

section
variable [Host] {room : Nat} {session middle last : Session} {moments : List Moment}

theorem Leads.append {others : List Moment} (h : Leads session moments middle)
    (hothers : Leads middle others last) : Leads session (moments ++ others) last := by
  induction h with
  | nil => exact hothers
  | cons _ ih => exact .cons (ih hothers)

/-- The moments of forms that are evaluated in order, until one halts for a reason that
is not passed over. -/
def momentsOf (passes : Halt → Bool) (room : Nat) : List Value → Session → List Moment
  | [], _ => []
  | form :: rest, session =>
    ⟨room, form, session⟩ ::
      match evaluate room form session with
      | .ok _ after => momentsOf passes room rest after
      | .error reason after => if passes reason then momentsOf passes room rest after else []

theorem expr_mem_of_mem_momentsOf {passes : Halt → Bool} {forms : List Value} {moment : Moment}
    (h : moment ∈ momentsOf passes room forms session) : moment.expr ∈ forms := by
  induction forms generalizing session with
  | nil => cases h
  | cons form rest ih =>
    rw [momentsOf, List.mem_cons] at h
    rcases h with rfl | h
    · exact List.mem_cons_self
    · refine List.mem_cons_of_mem _ ?_
      split at h
      · exact ih h
      · split at h
        · exact ih h
        · cases h

theorem leads_evaluateForms (value : Value) (forms : List Value) :
    Leads session (momentsOf (fun _ => false) room forms session)
      ((evaluateForms room value forms).exec session) := by
  induction forms generalizing session value with
  | nil => exact .nil
  | cons form rest ih =>
    refine .cons ?_
    unfold EStateM.exec at ih ⊢
    rw [evaluateForms, bind_apply]
    cases evaluate room form session with
    | error reason after => exact .nil
    | ok result after => exact ih result

/-- A form may fail or be nested too deeply without ending what is done to a source. -/
def Halt.isOutcome : Halt → Bool
  | .failure _ | .tooDeep => true
  | _ => false

theorem attempt_error {form : Value} {reason : Halt} {after : Session}
    (h : evaluate room form session = .error reason after) :
    (reason.isOutcome = true ∧ ∃ outcome, attempt room form session = .ok outcome after) ∨
      (reason.isOutcome = false ∧ attempt room form session = .error reason after) := by
  -- Failures are caught by `tryEvaluate`, the lack of room by `attempt`, nothing else is.
  unfold attempt tryEvaluate
  cases reason <;> simp [h, Halt.isOutcome]

theorem leads_attemptEach (forms : List Value) :
    Leads session (momentsOf Halt.isOutcome room forms session)
      (attemptEach room forms session).2 := by
  induction forms generalizing session with
  | nil => exact .nil
  | cons form rest ih =>
    refine .cons ?_
    unfold EStateM.exec
    rw [attemptEach]
    cases hform : evaluate room form session with
    | ok value after =>
      rw [attempt_eq_ok_iff.mpr (.value hform)]
      exact ih
    | error reason after =>
      rcases attempt_error hform with ⟨hpasses, outcome, hattempt⟩ | ⟨hpasses, hattempt⟩
      · simp only [hpasses, hattempt, if_true]
        exact ih
      · simp only [hpasses, hattempt, Bool.false_eq_true, if_false]
        exact .nil

end

/-! ## Reports -/

namespace Shell

variable (config : Config)

theorem printLine_keeps (text : String) : (printLine text).Keeps Console.session :=
  fun _ => rfl

theorem logLine_keeps (level : LogLevel) (source text : String) :
    (logLine config level source text).Keeps Console.session := by
  unfold logLine
  split <;> exact fun _ => rfl

theorem printFailure_keeps (failure : Failure) :
    (match failure.describe config.describeRoom with
      | .ok text => printLine ("error: " ++ text)
      | .error reason => throw (.halt reason.halt) : Shell Unit).Keeps Console.session := by
  cases failure.describe config.describeRoom <;> exact fun _ => rfl

theorem reportFailure_keeps (failure : Failure) :
    (reportFailure config failure).Keeps Console.session := by
  unfold reportFailure
  cases config.shows .info with
  | false => exact printFailure_keeps config failure
  | true =>
    cases failure.inspect config.logRoom with
    | ok text =>
      exact .bind (logLine_keeps config .info _ _) fun _ => printFailure_keeps config failure
    | error reason => exact fun _ => rfl

theorem reportOutcome_keeps (outcome : Outcome) :
    (reportOutcome config outcome).Keeps Console.session := by
  unfold reportOutcome
  split
  · split
    · exact .bind (printLine_keeps _) fun _ => .pure _
    · exact .bind (reportFailure_keeps config _) fun _ => .pure _
    · exact .throw _
  · exact .bind (reportFailure_keeps config _) fun _ => .pure _

theorem reportEach_keeps (outcomes : List Outcome) :
    (reportEach config outcomes).Keeps Console.session := by
  induction outcomes with
  | nil => exact .pure _
  | cons outcome rest ih =>
    exact .bind (reportOutcome_keeps config outcome) fun _ => .bind ih fun _ => .pure _

theorem logTooDeep_keeps (outcomes : List Outcome) :
    (logTooDeep config outcomes).Keeps Console.session := by
  induction outcomes using logTooDeep.induct with
  | case1 => exact .pure _
  | case2 rest ih => exact .bind (logLine_keeps config .debug _ _) fun _ => ih
  | case3 outcome rest houtcome ih =>
    rw [logTooDeep]
    · exact ih
    · exact houtcome

theorem reportSyntax_keeps (error : SyntaxError) : (reportSyntax error).Keeps Console.session :=
  .bind (printLine_keeps _) fun _ => .pure _

/-- All that comes after the attempts is a report. -/
theorem reportAttempts_keeps (attempts : Attempts) :
    (do
      logTooDeep config attempts.outcomes
      match attempts.escape? with
      | some (.unreadable (.malformed error)) => reportSyntax error
      | some reason => throw (.halt reason)
      | none => reportEach config attempts.outcomes : Shell Bool).Keeps Console.session := by
  refine .bind (logTooDeep_keeps config _) fun _ => ?_
  split
  · exact reportSyntax_keeps _
  · exact .throw _
  · exact reportEach_keeps config _

/-- What forms do to the session is done before anything is printed. -/
theorem runForms_session [Host] (forms : List Value) (console : Console) :
    ((runForms config forms).exec console).session =
      (attemptEach config.room forms console.session).2 :=
  reportAttempts_keeps config _ _

end Shell

/-! ## Commands -/

section
variable [Host]

theorem leads_eval (room : Nat) (source : String) (session : Session) :
    Leads session
      (momentsOf (fun _ => false) (room + Room.attempt) (Source.reading source).values session)
      ((eval room source).exec session) := by
  have hend : (eval room source).exec session =
      (evaluateForms (room + Room.attempt) .nil (Source.reading source).values).exec session := by
    unfold EStateM.exec
    rw [eval_apply]
    cases evaluateForms (room + Room.attempt) .nil (Source.reading source).values session with
    | error reason after => rfl
    | ok value after => cases (Source.reading source).error? <;> rfl
  rw [hend]
  exact leads_evaluateForms .nil _

theorem exec_evalPrelude (room : Nat) (source : String) (session : Session) :
    (evalPrelude room source).exec session = (eval room source).exec session := by
  unfold EStateM.exec
  rw [evalPrelude_apply]
  cases eval room source session <;> rfl

/-- The moments of the forms of a source that is read before any of it is evaluated. -/
def momentsOfAll (room : Nat) (source : String) (session : Session) : List Moment :=
  match Source.readAll source with
  | .ok forms => momentsOf Halt.isOutcome room forms session
  | .error _ => []

theorem leads_evalAll (room : Nat) (source : String) (session : Session) :
    Leads session (momentsOfAll room source session) ((evalAll room source).exec session) := by
  unfold momentsOfAll evalAll
  cases Source.readAll source with
  | error error => exact .nil
  | ok forms =>
    have hleads := @leads_attemptEach _ room session forms
    unfold EStateM.exec
    simp only
    generalize attemptEach room forms session = attempts at hleads ⊢
    obtain ⟨⟨outcomes, _ | reason⟩, after⟩ := attempts <;> exact hleads

theorem leads_runSource (config : Shell.Config) (source : String) (console : Console) :
    Leads console.session (momentsOfAll config.room source console.session)
      ((Shell.runSource config source).exec console).session := by
  unfold momentsOfAll Shell.runSource
  cases Source.readAll source with
  | error error =>
    cases error with
    | malformed error =>
      simp only
      rw [Shell.reportSyntax_keeps error console]
      exact .nil
    | oversizedInteger | danglingEscape => exact .nil
  | ok forms =>
    simp only
    rw [Shell.runForms_session]
    exact leads_attemptEach forms

end

/-- What is done to a session with a source text. -/
inductive Command where
  | eval (room : Nat) (source : String)
  | evalPrelude (room : Nat) (source : String)
  | evalAll (room : Nat) (source : String)
  | runSource (config : Shell.Config) (source : String)

namespace Command

variable [Host]

def source : Command → String
  | .eval _ source | .evalPrelude _ source | .evalAll _ source | .runSource _ source => source

/-- The session that the command leaves, however it ends. -/
def exec (session : Session) : Command → Session
  | .eval room source => (Sexpr.eval room source).exec session
  | .evalPrelude room source => (Sexpr.evalPrelude room source).exec session
  | .evalAll room source => (Sexpr.evalAll room source).exec session
  | .runSource config source => ((Shell.runSource config source).exec ⟨session, "", ""⟩).session

/-- The moments at which the command begins to evaluate a form. -/
def moments (session : Session) : Command → List Moment
  | .eval room source | .evalPrelude room source =>
    momentsOf (fun _ => false) (room + Room.attempt) (Source.reading source).values session
  | .evalAll room source => momentsOfAll room source session
  | .runSource config source => momentsOfAll config.room source session

theorem leads (session : Session) (command : Command) :
    Leads session (command.moments session) (command.exec session) := by
  cases command with
  | eval room source => exact leads_eval room source session
  | evalPrelude room source =>
    rw [exec, exec_evalPrelude]
    exact leads_eval room source session
  | evalAll room source => exact leads_evalAll room source session
  | runSource config source => exact leads_runSource config source ⟨session, "", ""⟩

/-- A command evaluates nothing but what its source reads as. -/
theorem expr_mem_of_mem_moments {session : Session} {command : Command} {moment : Moment}
    (h : moment ∈ command.moments session) :
    moment.expr ∈ (Source.reading command.source).values := by
  have hall {room : Nat} {source : String} (h : moment ∈ momentsOfAll room source session) :
      moment.expr ∈ (Source.reading source).values := by
    unfold momentsOfAll at h
    cases hread : Source.readAll source with
    | error error => simp [hread] at h
    | ok forms =>
      rw [hread] at h
      obtain ⟨-, hforms⟩ := Source.readAll_eq_ok_iff.mp hread
      exact hforms ▸ expr_mem_of_mem_momentsOf h
  cases command with
  | eval | evalPrelude => exact expr_mem_of_mem_momentsOf h
  | evalAll | runSource => exact hall h

end Command

/-! ## Histories -/

namespace History

variable [Host]

/-- The session that the commands leave. -/
def exec (session : Session) (history : List Command) : Session :=
  history.foldl Command.exec session

/-- The moments at which the commands begin to evaluate a form. -/
def moments : Session → List Command → List Moment
  | _, [] => []
  | session, command :: rest => command.moments session ++ moments (command.exec session) rest

theorem leads (session : Session) (history : List Command) :
    Leads session (moments session history) (exec session history) := by
  induction history generalizing session with
  | nil => exact .nil
  | cons command rest ih => exact (command.leads session).append (ih _)

/-- Every moment begins to evaluate a form that the source of a command reads as. -/
theorem expr_mem_of_mem_moments {session : Session} {history : List Command} {moment : Moment}
    (h : moment ∈ moments session history) :
    ∃ command ∈ history, moment.expr ∈ (Source.reading command.source).values := by
  induction history generalizing session with
  | nil => cases h
  | cons command rest ih =>
    rw [moments, List.mem_append] at h
    rcases h with hfirst | hrest
    · exact ⟨command, List.mem_cons_self, Command.expr_mem_of_mem_moments hfirst⟩
    · obtain ⟨later, hlater, hexpr⟩ := ih hrest
      exact ⟨later, List.mem_cons_of_mem _ hlater, hexpr⟩

end History

end Sexpr
