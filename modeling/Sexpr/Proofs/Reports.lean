import Sexpr.Proofs.Wording

/-!
# Reports

What the shell prints for a source: one line for each form, which is the written form of its
value or says what is wrong. Main statement: this is what comes of every source that can be
read, unless a failure shows a part of a form that is too deep to be shown, a value holds an
integer with too many digits, or evaluation needs the text of one. Then the shell ends.
-/
namespace Sexpr

open EStateM (bind_apply)

/-! ## Where outcomes come from -/

/-- The outcome is a value with such leaves, or a failure in something that comes from the form. -/
inductive Outcome.From (p : Value → Prop) (form : Value) : Outcome → Prop where
  | value {value} : value.Every p → From p form (.value value)
  | failure {failure} : failure.From form → From p form (.failure failure)

section
variable [Host] {p : Value → Prop} {room : Nat} {session last : Session} {forms : List Value}
  {outcomes : List Outcome}

theorem Becomes.outcome_from {form : Value} {outcome : Outcome} {after : Session} (hp : Closed p)
    (hnative : ∀ leaf, p leaf → Native leaf) (hread : form.Readable) (hform : form.Every p)
    (hsession : session.Every p) (h : Becomes room form session outcome after) :
    outcome.From p form ∧ after.Every p := by
  obtain ⟨hvalue, hafter⟩ := h.every hp hform hsession
  refine ⟨?_, hafter⟩
  cases h with
  | value => exact .value (hvalue _ rfl)
  | failure heval => exact .failure (evaluate_from hread (hsession.imp hnative) heval)
  | tooDeep => exact .failure .tooDeep

theorem BecomesEach.outcomes_from (hp : Closed p) (hnative : ∀ leaf, p leaf → Native leaf)
    (hread : ∀ form ∈ forms, form.Readable) (hforms : ∀ form ∈ forms, form.Every p)
    (hsession : session.Every p) (h : BecomesEach room session forms outcomes last) :
    ∀ outcome ∈ outcomes, ∃ form ∈ forms, outcome.From p form := by
  induction h with
  | nil => exact nofun
  | cons hform _ ih =>
    rw [List.forall_mem_cons] at hread hforms ⊢
    obtain ⟨hfirst, hmiddle⟩ := hform.outcome_from hp hnative hread.1 hforms.1 hsession
    refine ⟨⟨_, List.mem_cons_self, hfirst⟩, ?_⟩
    intro outcome houtcome
    obtain ⟨later, hlater, hfrom⟩ := ih hread.2 hforms.2 hmiddle outcome houtcome
    exact ⟨later, List.mem_cons_of_mem _ hlater, hfrom⟩

/-- A native form has an outcome, or it needs the text of an integer with too many digits. -/
theorem becomes_or_oversized {form : Value} (hform : form.Every Native)
    (hsession : session.Every Native) :
    (∃ outcome after, Becomes room form session outcome after ∧ after.Every Native) ∨
      ∃ final, evaluate room form session = .error .oversizedInteger final := by
  have hends := evaluate_ends native_closed room form hform session hsession
  cases heval : evaluate room form session with
  | ok value after =>
    rw [heval] at hends
    exact .inl ⟨_, after, .value heval, hends.2⟩
  | error reason after =>
    rw [heval] at hends
    rcases error_ends hform hsession heval with ⟨failure, rfl, _⟩ | rfl | rfl
    · exact .inl ⟨_, after, .failure heval, hends⟩
    · exact .inl ⟨_, after, .tooDeep heval, hends⟩
    · exact .inr ⟨after, rfl⟩

/-- After forms that have outcomes, one needs the text of an integer with too many digits. -/
inductive Oversteps (room : Nat) (session : Session) : List Value → Prop where
  | intro {before form after outcomes middle final} :
      BecomesEach room session before outcomes middle →
      evaluate room form middle = .error .oversizedInteger final →
      Oversteps room session (before ++ form :: after)

theorem becomesEach_or_oversteps (hforms : ∀ form ∈ forms, form.Every Native)
    (hsession : session.Every Native) :
    (∃ outcomes last, BecomesEach room session forms outcomes last) ∨
      Oversteps room session forms := by
  induction forms generalizing session with
  | nil => exact .inl ⟨[], session, .nil⟩
  | cons form rest ih =>
    rw [List.forall_mem_cons] at hforms
    rcases becomes_or_oversized hforms.1 hsession with ⟨outcome, middle, hform, hmiddle⟩ |
      ⟨final, heval⟩
    · rcases ih hforms.2 hmiddle with ⟨outcomes, last, hrest⟩ | @⟨before, _, _, _, _, _, hbefore, heval⟩
      · exact .inl ⟨outcome :: outcomes, last, .cons hform hrest⟩
      · exact .inr (@Oversteps.intro _ _ _ (form :: before) _ _ _ _ _ (.cons hform hbefore) heval)
    · exact .inr (@Oversteps.intro _ _ _ [] _ _ _ _ _ .nil heval)

/-- What is attempted after forms that have outcomes ends the attempts if it has none. -/
theorem Oversteps.attemptEach_eq (h : Oversteps room session forms) :
    ∃ outcomes final, attemptEach room forms session =
      (⟨outcomes, some .oversizedInteger⟩, final) := by
  obtain ⟨hbefore, heval⟩ := h
  rename_i before form after outcomes middle final
  have hattempt : attempt room form middle = .error .oversizedInteger final := by
    unfold attempt tryEvaluate
    rw [heval]
  refine ⟨outcomes, final, ?_⟩
  rw [attemptEach_append, attemptEach_eq_iff.mpr hbefore]
  simp only [attemptEach, hattempt, List.append_nil]

theorem Oversteps.not_becomesEach (h : Oversteps room session forms) :
    ¬BecomesEach room session forms outcomes last := by
  intro heach
  obtain ⟨before, final, hattempts⟩ := h.attemptEach_eq
  rw [attemptEach_eq_iff.mpr heach] at hattempts
  cases hattempts

end

/-! ## Runs of the shell -/

namespace Shell

variable {α β : Type}

/-- The run answers, and prints the text after all that has been printed before. What it
logs is left open. -/
def Prints (work : Shell α) (answer : α) (text : String) : Prop :=
  ∀ console, ∃ log, work console = .ok answer ⟨console.session, console.out ++ text, log⟩

/-- The run is ended before it is done, when it has printed the text. -/
def Escapes (work : Shell α) (text : String) : Prop :=
  ∀ console, ∃ reason log, work console = .error reason ⟨console.session, console.out ++ text, log⟩

theorem Prints.pure (answer : α) : (Pure.pure answer : Shell α).Prints answer "" := by
  intro console
  refine ⟨console.log, ?_⟩
  rw [String.append_empty]
  rfl

theorem Prints.bind {work : Shell α} {next : α → Shell β} {answer : α} {result : β}
    {text more all : String} (hwork : work.Prints answer text)
    (hnext : (next answer).Prints result more) (hall : text ++ more = all) :
    (work >>= next).Prints result all := by
  intro console
  obtain ⟨log, hfirst⟩ := hwork console
  obtain ⟨last, hlast⟩ := hnext ⟨console.session, console.out ++ text, log⟩
  refine ⟨last, ?_⟩
  rw [bind_apply, hfirst, ← hall, ← String.append_assoc]
  exact hlast

theorem Escapes.throw (reason : Escape) : (throw reason : Shell α).Escapes "" := by
  intro console
  refine ⟨reason, console.log, ?_⟩
  rw [String.append_empty]
  rfl

theorem Escapes.bind {work : Shell α} {text : String} (next : α → Shell β)
    (hwork : work.Escapes text) : (work >>= next).Escapes text := by
  intro console
  obtain ⟨reason, log, hfirst⟩ := hwork console
  exact ⟨reason, log, by rw [bind_apply, hfirst]⟩

theorem Prints.bind_escapes {work : Shell α} {next : α → Shell β} {answer : α}
    {text more all : String} (hwork : work.Prints answer text) (hnext : (next answer).Escapes more)
    (hall : text ++ more = all) : (work >>= next).Escapes all := by
  intro console
  obtain ⟨log, hfirst⟩ := hwork console
  obtain ⟨reason, last, hlast⟩ := hnext ⟨console.session, console.out ++ text, log⟩
  refine ⟨reason, last, ?_⟩
  rw [bind_apply, hfirst, ← hall, ← String.append_assoc]
  exact hlast

theorem printLine_prints (text : String) : (printLine text).Prints () (text ++ "\n") := by
  intro console
  refine ⟨console.log, ?_⟩
  rw [← String.append_assoc]
  rfl

theorem logLine_prints (config : Config) (level : LogLevel) (source text : String) :
    (logLine config level source text).Prints () "" := by
  intro console
  unfold logLine
  rw [String.append_empty]
  split <;> exact ⟨_, rfl⟩

theorem logTooDeep_prints (config : Config) (outcomes : List Outcome) :
    (logTooDeep config outcomes).Prints () "" := by
  induction outcomes using logTooDeep.induct with
  | case1 => exact .pure ()
  | case2 rest ih => exact .bind (logLine_prints config .debug _ _) ih rfl
  | case3 outcome rest houtcome ih =>
    rw [logTooDeep]
    · exact ih
    · exact houtcome

/-! ## Reports -/

variable {config : Config}

/-- The line in which an outcome is reported, and whether all is well with it. -/
inductive Reports (config : Config) : Outcome → String → Bool → Prop where
  | value {value text} : value.render config.printRoom = .ok text →
      Reports config (.value value) text true
  | tooDeep {value} : value.render config.printRoom = .error .tooDeep →
      Reports config (.value value) "error: expression nested too deeply" false
  | failure {failure text} : failure.describe config.describeRoom = .ok text →
      (config.shows .info = true → ∃ shown, failure.inspect config.logRoom = .ok shown) →
      Reports config (.failure failure) ("error: " ++ text) false

/-- There is no line for the outcome: the value holds an integer with too many digits, or
what the failure shows is too deep for its line or for that in the log. -/
inductive Unreportable (config : Config) : Outcome → Prop where
  | oversized {value} : value.render config.printRoom = .error .oversizedInteger →
      Unreportable config (.value value)
  | undescribed {failure} : failure.describe config.describeRoom = .error .tooDeep →
      Unreportable config (.failure failure)
  | unlogged {failure} : config.shows .info = true →
      failure.inspect config.logRoom = .error .tooDeep → Unreportable config (.failure failure)

theorem Reports.not_unreportable {outcome : Outcome} {line : String} {ok : Bool}
    (h : Reports config outcome line ok) : ¬Unreportable config outcome := by
  intro hnone
  cases h with
  | value hrender | tooDeep hrender =>
    cases hnone with
    | oversized hoversized => simp [hrender] at hoversized
  | failure hdescribe hinspect =>
    cases hnone with
    | undescribed hdeep => simp [hdescribe] at hdeep
    | unlogged hshows hdeep =>
      obtain ⟨shown, hshown⟩ := hinspect hshows
      simp [hshown] at hdeep

theorem reportFailure_prints {failure : Failure} {text : String}
    (hdescribe : failure.describe config.describeRoom = .ok text)
    (hinspect : config.shows .info = true → ∃ shown, failure.inspect config.logRoom = .ok shown) :
    (reportFailure config failure).Prints () ("error: " ++ text ++ "\n") := by
  unfold reportFailure
  rw [hdescribe]
  cases hshows : config.shows .info with
  | false => exact printLine_prints _
  | true =>
    obtain ⟨shown, hshown⟩ := hinspect hshows
    rw [hshown]
    exact .bind (logLine_prints config .info _ _) (printLine_prints _) (String.empty_append)

theorem reportFailure_undescribed {failure : Failure} {reason : Unwritable}
    (hdescribe : failure.describe config.describeRoom = .error reason) :
    (reportFailure config failure).Escapes "" := by
  unfold reportFailure
  rw [hdescribe]
  cases config.shows .info with
  | false => exact .throw _
  | true =>
    cases failure.inspect config.logRoom with
    | ok shown => exact (logLine_prints config .info _ _).bind_escapes (.throw _) rfl
    | error reason => exact .bind _ (.throw _)

theorem reportFailure_unlogged {failure : Failure} {reason : Unwritable}
    (hshows : config.shows .info = true) (hinspect : failure.inspect config.logRoom = .error reason) :
    (reportFailure config failure).Escapes "" := by
  unfold reportFailure
  rw [hshows, hinspect]
  exact .bind _ (.throw _)

theorem Reports.prints {outcome : Outcome} {line : String} {ok : Bool}
    (h : Reports config outcome line ok) :
    (reportOutcome config outcome).Prints ok (line ++ "\n") := by
  unfold reportOutcome
  cases h with
  | value hrender =>
    simp only [hrender]
    exact .bind (printLine_prints line) (.pure true) String.append_empty
  | tooDeep hrender =>
    simp only [hrender]
    exact .bind (reportFailure_prints rfl fun _ => ⟨_, rfl⟩) (.pure false) rfl
  | failure hdescribe hinspect =>
    exact .bind (reportFailure_prints hdescribe hinspect) (.pure false) String.append_empty

theorem Unreportable.escapes {outcome : Outcome} (h : Unreportable config outcome) :
    (reportOutcome config outcome).Escapes "" := by
  cases outcome with
  | value value =>
    cases h with
    | oversized hrender =>
      unfold reportOutcome
      simp only [hrender]
      exact .throw _
  | failure failure =>
    refine .bind _ ?_
    cases h with
    | undescribed hdescribe => exact reportFailure_undescribed hdescribe
    | unlogged hshows hinspect => exact reportFailure_unlogged hshows hinspect

/-- The lines in which outcomes are reported, and whether all is well with all of them. -/
inductive ReportsEach (config : Config) : List Outcome → List String → Bool → Prop where
  | nil : ReportsEach config [] [] true
  | cons {outcome outcomes line lines ok restOk} : Reports config outcome line ok →
      ReportsEach config outcomes lines restOk →
      ReportsEach config (outcome :: outcomes) (line :: lines) (ok && restOk)

theorem ReportsEach.length_eq {outcomes : List Outcome} {lines : List String} {ok : Bool}
    (h : ReportsEach config outcomes lines ok) : lines.length = outcomes.length := by
  induction h with
  | nil => rfl
  | cons _ _ ih => rw [List.length_cons, List.length_cons, ih]

theorem ReportsEach.prints {outcomes : List Outcome} {lines : List String} {ok : Bool}
    (h : ReportsEach config outcomes lines ok) :
    (reportEach config outcomes).Prints ok (String.join (lines.map (· ++ "\n"))) := by
  induction h with
  | nil => exact .pure true
  | cons hfirst _ ih =>
    exact .bind hfirst.prints (.bind ih (.pure _) String.append_empty) (by simp)

theorem ReportsEach.not_unreportable {outcomes : List Outcome} {lines : List String} {ok : Bool}
    (h : ReportsEach config outcomes lines ok) :
    ∀ outcome ∈ outcomes, ¬Unreportable config outcome := by
  induction h with
  | nil => exact nofun
  | cons hfirst _ ih => exact List.forall_mem_cons.mpr ⟨hfirst.not_unreportable, ih⟩

/-- An outcome without a line ends the reports when those before it are made. -/
theorem ReportsEach.escapes {before : List Outcome} {lines : List String} {ok : Bool}
    {outcome : Outcome} (h : ReportsEach config before lines ok)
    (hnone : Unreportable config outcome) (rest : List Outcome) :
    (reportEach config (before ++ outcome :: rest)).Escapes
      (String.join (lines.map (· ++ "\n"))) := by
  induction h with
  | nil => exact .bind _ hnone.escapes
  | cons hfirst _ ih => exact hfirst.prints.bind_escapes (.bind _ ih) (by simp)

/-! ## Reports of what comes from source text -/

section
variable {form : Value} {outcome : Outcome} {outcomes : List Outcome}

/-- The outcome of a form that has been read is reported, or there is no line for it. -/
theorem reports_or_unreportable (hread : form.Readable) (hfits : form.Every Fits)
    (h : outcome.From Native form) :
    (∃ line ok, Reports config outcome line ok) ∨ Unreportable config outcome := by
  cases h with
  | @value value hvalue =>
    cases hrender : value.render config.printRoom with
    | ok text => exact .inl ⟨_, _, .value hrender⟩
    | error reason =>
      rcases Value.render_error (hvalue.imp isExpression_of_native) hrender with rfl | ⟨rfl, _⟩
      · exact .inl ⟨_, _, .tooDeep hrender⟩
      · exact .inr (.oversized hrender)
  | failure hfailure =>
    rcases hfailure.describe_line hread hfits config.describeRoom with ⟨text, hdescribe, _⟩ |
      hdescribe
    · rcases hfailure.inspect_line hfits config.logRoom with hinspect | hinspect
      · exact .inl ⟨_, _, .failure hdescribe fun _ => hinspect⟩
      · -- The failure need be shown in the log only if the log is shown.
        cases hshows : config.shows .info with
        | true => exact .inr (.unlogged hshows hinspect)
        | false => exact .inl ⟨_, _, .failure hdescribe fun htrue => by simp [hshows] at htrue⟩
    · exact .inr (.undescribed hdescribe)

theorem Reports.line {line : String} {ok : Bool} (h : Reports config outcome line ok)
    (hread : form.Readable) (hfits : form.Every Fits) (hfrom : outcome.From Spoken form) :
    OneLine line ∧ (ok = true ↔ ¬IsErrorLine line) := by
  cases h with
  | value hrender =>
    cases hfrom with
    | value hvalue =>
      have herror := Value.render_ne_error hvalue hrender
      exact ⟨Value.render_oneLine hvalue hrender, by simp [herror]⟩
  | tooDeep =>
    have herror : IsErrorLine "error: expression nested too deeply" :=
      ⟨"expression nested too deeply", rfl⟩
    exact ⟨by simp [OneLine], by simp [herror]⟩
  | @failure failure text hdescribe _ =>
    cases hfrom with
    | failure hfailure =>
      have herror : IsErrorLine ("error: " ++ text) := ⟨text, rfl⟩
      refine ⟨oneLine_append_iff.mpr ⟨by simp [OneLine], ?_⟩, by simp [herror]⟩
      rcases hfailure.describe_line hread hfits config.describeRoom with ⟨text', htext', hline⟩ |
        hdeep
      · rw [hdescribe] at htext'
        cases htext'
        exact hline
      · simp [hdescribe] at hdeep

variable {forms : List Value} (hread : ∀ form ∈ forms, form.Readable)
  (hfits : ∀ form ∈ forms, form.Every Fits)
include hread hfits

/-- Outcomes are all reported, or there is a first one for which there is no line. -/
theorem reportsEach_or_unreportable
    (hfrom : ∀ outcome ∈ outcomes, ∃ form ∈ forms, outcome.From Native form) :
    (∃ lines ok, ReportsEach config outcomes lines ok) ∨
      ∃ before outcome rest lines ok, outcomes = before ++ outcome :: rest ∧
        ReportsEach config before lines ok ∧ Unreportable config outcome := by
  induction outcomes with
  | nil => exact .inl ⟨[], true, .nil⟩
  | cons outcome rest ih =>
    rw [List.forall_mem_cons] at hfrom
    obtain ⟨⟨form, hform, hfirst⟩, hrest⟩ := hfrom
    rcases reports_or_unreportable (hread form hform) (hfits form hform) hfirst with
      ⟨line, ok, hreports⟩ | hnone
    · rcases ih hrest with ⟨lines, restOk, hlines⟩ |
        ⟨before, later, rest, lines, restOk, rfl, hlines, hnone⟩
      · exact .inl ⟨line :: lines, ok && restOk, .cons hreports hlines⟩
      · exact .inr ⟨outcome :: before, later, rest, line :: lines, ok && restOk, rfl,
          .cons hreports hlines, hnone⟩
    · exact .inr ⟨[], outcome, rest, [], true, rfl, .nil, hnone⟩

theorem ReportsEach.lines {lines : List String} {ok : Bool}
    (h : ReportsEach config outcomes lines ok)
    (hfrom : ∀ outcome ∈ outcomes, ∃ form ∈ forms, outcome.From Spoken form) :
    (∀ line ∈ lines, OneLine line) ∧ (ok = true ↔ ∀ line ∈ lines, ¬IsErrorLine line) := by
  induction h with
  | nil => simp
  | cons hfirst _ ih =>
    rw [List.forall_mem_cons] at hfrom
    obtain ⟨⟨form, hform, hfrom⟩, hrest⟩ := hfrom
    obtain ⟨hline, hok⟩ := hfirst.line (hread form hform) (hfits form hform) hfrom
    obtain ⟨hlines, hrestOk⟩ := ih hrest
    rw [List.forall_mem_cons, List.forall_mem_cons, Bool.and_eq_true, hok, hrestOk]
    exact ⟨⟨hline, hlines⟩, Iff.rfl⟩

end

/-! ## Sources -/

section
variable [Host] {source : String} {forms : List Value} {session last : Session}
  {outcomes : List Outcome} (out log : String)

/-- What follows on the attempts is a report. -/
theorem runSource_apply (hread : Source.readAll source = .ok forms) {attempts : Attempts}
    (h : attemptEach config.room forms session = (attempts, last)) :
    runSource config source ⟨session, out, log⟩ =
      (do
        logTooDeep config attempts.outcomes
        match attempts.escape? with
        | some (.unreadable (.malformed error)) => reportSyntax error
        | some reason => throw (.halt reason)
        | none => reportEach config attempts.outcomes : Shell Bool) ⟨last, out, log⟩ := by
  have hattempts : attempts = (attemptEach config.room forms session).1 := by rw [h]
  have hlast : last = (attemptEach config.room forms session).2 := by rw [h]
  rw [runSource, hread, hattempts, hlast]
  rfl

theorem runSource_of_reportsEach (hread : Source.readAll source = .ok forms)
    (h : BecomesEach config.room session forms outcomes last) {lines : List String} {ok : Bool}
    (hlines : ReportsEach config outcomes lines ok) :
    ∃ log', runSource config source ⟨session, out, log⟩ =
      .ok ok ⟨last, out ++ String.join (lines.map (· ++ "\n")), log'⟩ := by
  rw [runSource_apply out log hread (attemptEach_eq_iff.mpr h)]
  exact Prints.bind (logTooDeep_prints config outcomes) hlines.prints String.empty_append
    ⟨last, out, log⟩

theorem runSource_of_unreportable (hread : Source.readAll source = .ok forms)
    {before rest : List Outcome} {outcome : Outcome} {lines : List String} {ok : Bool}
    (h : BecomesEach config.room session forms (before ++ outcome :: rest) last)
    (hlines : ReportsEach config before lines ok) (hnone : Unreportable config outcome) :
    ∃ reason log', runSource config source ⟨session, out, log⟩ =
      .error reason ⟨last, out ++ String.join (lines.map (· ++ "\n")), log'⟩ := by
  rw [runSource_apply out log hread (attemptEach_eq_iff.mpr h)]
  exact (logTooDeep_prints config _).bind_escapes (hlines.escapes hnone rest) String.empty_append
    ⟨last, out, log⟩

theorem runSource_of_oversteps (hread : Source.readAll source = .ok forms)
    (h : Oversteps config.room session forms) :
    ∃ reason final log', runSource config source ⟨session, out, log⟩ =
      .error reason ⟨final, out, log'⟩ := by
  obtain ⟨outcomes, final, hattempts⟩ := h.attemptEach_eq
  rw [runSource_apply out log hread hattempts]
  have hescapes : (do
      logTooDeep config outcomes
      throw (.halt .oversizedInteger) : Shell Bool).Escapes "" :=
    (logTooDeep_prints config outcomes).bind_escapes (.throw _) rfl
  obtain ⟨reason, log', herror⟩ := hescapes ⟨final, out, log⟩
  rw [String.append_empty] at herror
  exact ⟨reason, final, log', herror⟩

/-- Either all forms have outcomes that are reported, or one has none or has one without a
line, and then the shell ends. -/
theorem runSource_ends (hread : Source.readAll source = .ok forms)
    (hsession : session.Every Native) :
    (∃ outcomes lines ok last log', BecomesEach config.room session forms outcomes last ∧
      ReportsEach config outcomes lines ok ∧ runSource config source ⟨session, out, log⟩ =
        .ok ok ⟨last, out ++ String.join (lines.map (· ++ "\n")), log'⟩) ∨
      ((∀ outcomes last, BecomesEach config.room session forms outcomes last →
        ∃ outcome ∈ outcomes, Unreportable config outcome) ∧
        ∃ reason after, runSource config source ⟨session, out, log⟩ = .error reason after) := by
  have hreadable := Source.readable_of_readAll hread
  have hnative : ∀ form ∈ forms, form.Every Native := fun form hform =>
    (hreadable form hform).spoken.imp native_of_spoken
  rcases @becomesEach_or_oversteps _ config.room _ _ hnative hsession with
    ⟨outcomes, last, heach⟩ | hoversteps
  · have hfrom := heach.outcomes_from native_closed (fun _ h => h) hreadable hnative hsession
    rcases reportsEach_or_unreportable hreadable (Source.fits_of_readAll hread) hfrom with
      ⟨lines, ok, hlines⟩ | ⟨before, outcome, rest, lines, ok, rfl, hlines, hnone⟩
    · obtain ⟨log', hrun⟩ := runSource_of_reportsEach out log hread heach hlines
      exact .inl ⟨outcomes, lines, ok, last, log', heach, hlines, hrun⟩
    · obtain ⟨reason, log', hrun⟩ := runSource_of_unreportable out log hread heach hlines hnone
      refine .inr ⟨fun outcomes last' heach' => ?_, reason, _, hrun⟩
      obtain ⟨rfl, -⟩ := heach.unique heach'
      exact ⟨outcome, by simp, hnone⟩
  · obtain ⟨reason, final, log', hrun⟩ := runSource_of_oversteps out log hread hoversteps
    exact .inr ⟨fun outcomes last heach => (hoversteps.not_becomesEach heach).elim,
      reason, _, hrun⟩

end

end Shell

/-! ## One line for each form -/

/-- What comes of running a source that can be read, with built-in primitives only. The shell
comes to an end exactly if all forms have outcomes and each of these can be reported. Then it
has printed one line for each form, in order; and in a session that holds only what comes from
source text, these are lines, and the answer is whether none of them is an error. An outcome
that cannot be reported ends the shell after the lines of those before it. A form has no
outcome exactly if, after others that have, it needs the text of an integer with too many
digits, and this ends the shell before it prints. A failure that cannot be reported shows a
part of a form. And any session that was driven with source text from the initial one holds
only what comes from source text. -/
theorem runSource_reports [Host] (config : Shell.Config) (source : String) (forms : List Value)
    (session : Session) (out log : String) (hread : Source.readAll source = .ok forms)
    (hsession : session.Every Native) :
    ((∃ ok after, Shell.runSource config source ⟨session, out, log⟩ = .ok ok after) ↔
      ∃ outcomes last, BecomesEach config.room session forms outcomes last ∧
        ∀ outcome ∈ outcomes, ¬Shell.Unreportable config outcome) ∧
    (∀ ok after, Shell.runSource config source ⟨session, out, log⟩ = .ok ok after →
      ∃ outcomes lines, BecomesEach config.room session forms outcomes after.session ∧
        Shell.ReportsEach config outcomes lines ok ∧ lines.length = forms.length ∧
        after.out = out ++ String.join (lines.map (· ++ "\n")) ∧
        (session.Every Spoken → (∀ line ∈ lines, OneLine line) ∧
          (ok = true ↔ ∀ line ∈ lines, ¬IsErrorLine line))) ∧
    (∀ before outcome rest last lines ok,
      BecomesEach config.room session forms (before ++ outcome :: rest) last →
      Shell.ReportsEach config before lines ok → Shell.Unreportable config outcome →
      ∃ reason log', Shell.runSource config source ⟨session, out, log⟩ =
        .error reason ⟨last, out ++ String.join (lines.map (· ++ "\n")), log'⟩) ∧
    ((¬∃ outcomes last, BecomesEach config.room session forms outcomes last) ↔
      Oversteps config.room session forms) ∧
    (Oversteps config.room session forms → ∃ reason last log',
      Shell.runSource config source ⟨session, out, log⟩ = .error reason ⟨last, out, log'⟩) ∧
    (∀ outcomes last failure, BecomesEach config.room session forms outcomes last →
      .failure failure ∈ outcomes → Shell.Unreportable config (.failure failure) →
      ∃ form ∈ forms, ∃ value, failure.ShowsPart form value) ∧
    ∀ history, (History.exec .initial history).Every Spoken := by
  have hreadable := Source.readable_of_readAll hread
  have hspoken : ∀ form ∈ forms, form.Every Spoken := fun form hform => (hreadable form hform).spoken
  have hnative : ∀ form ∈ forms, form.Every Native := fun form hform =>
    (hspoken form hform).imp native_of_spoken
  have hends := @Shell.runSource_ends config _ source forms session out log hread hsession
  have hforms := @becomesEach_or_oversteps _ config.room _ _ hnative hsession
  refine ⟨⟨?_, ?_⟩, ?_, ?_, ⟨hforms.resolve_left, ?_⟩, ?_, ?_, History.every_spoken⟩
  · rintro ⟨ok, after, hrun⟩
    rcases hends with ⟨outcomes, _, _, last, _, heach, hlines, _⟩ | ⟨_, _, _, herror⟩
    · exact ⟨outcomes, last, heach, hlines.not_unreportable⟩
    · simp [herror] at hrun
  · rintro ⟨outcomes, last, heach, hall⟩
    rcases hends with ⟨_, _, ok, _, _, _, _, hok⟩ | ⟨hnone, _⟩
    · exact ⟨ok, _, hok⟩
    · obtain ⟨outcome, houtcome, hnone⟩ := hnone outcomes last heach
      exact (hall outcome houtcome hnone).elim
  · intro ok after hrun
    rcases hends with ⟨outcomes, lines, _, last, _, heach, hlines, hok⟩ | ⟨_, _, _, herror⟩
    · rw [hok] at hrun
      cases hrun
      refine ⟨outcomes, lines, heach, hlines, ?_, rfl, fun hsession => ?_⟩
      · rw [hlines.length_eq, heach.length_eq]
      · exact hlines.lines hreadable (Source.fits_of_readAll hread)
          (heach.outcomes_from spoken_closed native_of_spoken hreadable hspoken hsession)
    · simp [herror] at hrun
  · intro before outcome rest last lines ok heach hlines hnone
    exact Shell.runSource_of_unreportable out log hread heach hlines hnone
  · rintro hoversteps ⟨outcomes, last, heach⟩
    exact hoversteps.not_becomesEach heach
  · exact Shell.runSource_of_oversteps out log hread
  · intro outcomes last failure heach hfailure hnone
    obtain ⟨form, hform, houtcome⟩ :=
      heach.outcomes_from native_closed (fun _ h => h) hreadable hnative hsession _ hfailure
    cases houtcome with
    | failure hfailure =>
      rcases hfailure.words_or_part with hwords | ⟨value, hshows⟩
      · obtain ⟨⟨text, hdescribe, _⟩, _⟩ := hwords config.describeRoom
        obtain ⟨_, hinspect⟩ := hwords config.logRoom
        exact ((Shell.Reports.failure hdescribe fun _ => hinspect).not_unreportable hnone).elim
      · exact ⟨form, hform, value, hshows⟩

/-- An unbound symbol, and then a form that has a value. -/
theorem runSource_reports_sample :
    Source.readAll "b nil" = .ok [.sym "b", .nil] ∧ Session.initial.Every Native ∧
      ∃ after, Shell.runSource ⟨100, .warning⟩ "b nil" .initial = .ok false after ∧
        after.out = "error: undefined symbol: b\nnil\n" := by
  have hread : Source.readAll "b nil" = .ok [.sym "b", .nil] :=
    Source.readAll_eq _
  have heach : BecomesEach 100 .initial [.sym "b", .nil]
      [.failure (.undefined (.sym "b")), .value .nil] .initial :=
    .cons (.failure rfl) (.cons (.value rfl) .nil)
  have hreports : ∀ outcome ∈ [.failure (.undefined (.sym "b")), .value .nil],
      ¬Shell.Unreportable ⟨100, .warning⟩ outcome := by
    intro outcome houtcome hnone
    simp only [List.mem_cons, List.not_mem_nil, or_false] at houtcome
    rcases houtcome with rfl | rfl
    · cases hnone with
      | undescribed hdescribe => cases hdescribe
      | unlogged hshows => cases hshows
    · cases hnone with
      | oversized hrender => cases hrender
  obtain ⟨hends, hlines, _⟩ :=
    runSource_reports ⟨100, .warning⟩ "b nil" _ .initial "" "" hread initial_native
  obtain ⟨ok, after, hrun⟩ := hends.mpr ⟨_, _, heach, hreports⟩
  obtain ⟨outcomes, lines, heach', hreported, _, hout, _⟩ := hlines ok after hrun
  obtain ⟨rfl, _⟩ := heach.unique heach'
  cases hreported with
  | cons hfirst hrest =>
    cases hfirst with
    | failure hdescribe =>
      cases hdescribe
      cases hrest with
      | cons hsecond hend =>
        cases hsecond with
        | value hrender =>
          cases hrender
          cases hend
          exact ⟨hread, initial_native, after, hrun, hout⟩
        | tooDeep hrender => cases hrender

/-! ## A form that cannot be shown -/

/-- The empty list inside lists. -/
def Value.nested : Nat → Value
  | 0 => .list []
  | depth + 1 => .list [nested depth]

theorem Value.render_nested {depth room : Nat} (h : room < Room.renderList * (depth + 1)) :
    (nested depth).render room = .error .tooDeep := by
  induction depth generalizing room with
  | zero =>
    have hroom : Unwritable.within Room.renderList room = .error .tooDeep := by
      unfold Unwritable.within Room.enter
      rw [if_neg (by omega)]
    rw [nested, render, hroom]
    rfl
  | succ depth ih =>
    rw [nested, render]
    rcases Nat.lt_or_ge room Room.renderList with hlow | hhigh
    · have hroom : Unwritable.within Room.renderList room = .error .tooDeep := by
        unfold Unwritable.within Room.enter
        rw [if_neg (by omega)]
      rw [hroom]
      rfl
    · have hroom : Unwritable.within Room.renderList room = .ok (room - Room.renderList) := by
        unfold Unwritable.within Room.enter
        rw [if_pos hhigh]
      have hinner : (nested depth).render (room - Room.renderList) = .error .tooDeep :=
        ih (by rw [Nat.mul_succ] at h; omega)
      rw [hroom]
      simp only [bind, Except.bind, renderEach, hinner]

theorem spells_nested (depth : Nat) :
    Spells (List.replicate (depth + 1) '(' ++ List.replicate (depth + 1) ')')
      (.nested depth) := by
  induction depth with
  | zero => exact spells_list spellsEach_nil
  | succ depth ih =>
    have hlist := spells_list (spellsEach_single ih)
    rw [List.replicate_succ (n := depth + 1), List.replicate_succ' (n := depth + 1), Value.nested]
    simpa using hlist

/-- A list inside 1399 others has no meaning, and the words for that are too deep. They end
the shell, and nothing is printed for the form after it either. -/
theorem runSource_undescribed :
    let source := String.ofList
      (List.replicate 1400 '(' ++ List.replicate 1400 ')' ++ ' ' :: "nil".toList)
    Source.readAll source = .ok [.nested 1399, .nil] ∧
      ∃ reason log, Shell.runSource ⟨Room.ofLimit Room.defaultLimit, .warning⟩ source .initial =
        .error reason ⟨.initial, "", log⟩ := by
  intro source
  have hread : Source.readAll source = .ok [.nested 1399, .nil] := by
    refine Source.readAll_of_spellsEach ?_
    rw [String.toList_ofList]
    exact spellsEach_cons (spells_nested 1399)
      (spellsEach_single (spells_word (by decide) (by decide) rfl))
  have heach : BecomesEach (Room.ofLimit Room.defaultLimit) .initial [.nested 1399, .nil]
      [.failure (.unknown (.nested 1399)), .value .nil] .initial :=
    .cons (.failure (evaluate_headless _ nofun)) (.cons (.value rfl) .nil)
  have hdeep : (Failure.unknown (.nested 1399)).describe
      (Room.ofLimit Room.defaultLimit + Room.describe) = .error .tooDeep := by
    rw [Failure.describe, Value.render_nested (by decide)]
    rfl
  exact ⟨hread, Shell.runSource_of_unreportable "" "" hread heach .nil (.undescribed hdeep)⟩

end Sexpr
