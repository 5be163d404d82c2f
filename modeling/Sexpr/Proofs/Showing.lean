import Sexpr.Proofs.Reports

/-!
# What a source shows

Running a source is evaluating it as a whole and then reporting what has become of its forms.
Main statements: what a run of a source shows, answers and leaves, if nothing escapes from it,
is what follows from the evaluation, whatever else the console holds; and all is well exactly
if every form has a value that can be rendered.
-/
namespace Sexpr

open EStateM (bind_apply exec_ok exec_error)

namespace Shell

/-! ## Reports of any outcomes -/

section
variable {config : Config}

/-- Every outcome has its line, or the report of it is ended before there is one. -/
theorem reports_or_escapes (config : Config) (outcome : Outcome) :
    (∃ line ok, Reports config outcome line ok) ∨ (reportOutcome config outcome).Escapes "" := by
  cases outcome with
  | value value =>
    cases hrender : value.render config.printRoom with
    | ok text => exact .inl ⟨_, _, .value hrender⟩
    | error reason =>
      cases reason with
      | tooDeep => exact .inl ⟨_, _, .tooDeep hrender⟩
      | oversizedInteger | notAnExpression =>
        right
        simp only [reportOutcome, hrender]
        exact .throw _
  | failure failure =>
    cases hdescribe : failure.describe config.describeRoom with
    | error reason => exact .inr (.bind _ (reportFailure_undescribed hdescribe))
    | ok text =>
      -- The log line is made up only if it is shown.
      cases hshows : config.shows .info with
      | false => exact .inl ⟨_, _, .failure hdescribe fun htrue => by simp [hshows] at htrue⟩
      | true =>
        cases hinspect : failure.inspect config.logRoom with
        | ok shown => exact .inl ⟨_, _, .failure hdescribe fun _ => ⟨shown, hinspect⟩⟩
        | error reason => exact .inr (.bind _ (reportFailure_unlogged hshows hinspect))

theorem reportsEach_or_escapes (config : Config) (outcomes : List Outcome) :
    (∃ lines ok, ReportsEach config outcomes lines ok) ∨
      ∃ text, (reportEach config outcomes).Escapes text := by
  induction outcomes with
  | nil => exact .inl ⟨[], true, .nil⟩
  | cons outcome rest ih =>
    rcases reports_or_escapes config outcome with ⟨line, ok, hfirst⟩ | hescapes
    · rcases ih with ⟨lines, restOk, hrest⟩ | ⟨text, hescapes⟩
      · exact .inl ⟨line :: lines, ok && restOk, .cons hfirst hrest⟩
      · exact .inr ⟨_, hfirst.prints.bind_escapes (.bind _ hescapes) rfl⟩
    · exact .inr ⟨_, .bind _ hescapes⟩

theorem reportsEach_append_iff {outcomes others : List Outcome} {lines : List String} {ok : Bool} :
    ReportsEach config (outcomes ++ others) lines ok ↔
      ∃ front rest frontOk restOk, lines = front ++ rest ∧ ok = (frontOk && restOk) ∧
        ReportsEach config outcomes front frontOk ∧ ReportsEach config others rest restOk := by
  constructor
  · intro h
    induction outcomes generalizing lines ok with
    | nil => exact ⟨[], lines, true, ok, rfl, by simp, .nil, h⟩
    | cons outcome outcomes ih =>
      cases h with
      | @cons _ _ line _ firstOk _ hfirst hothers =>
        obtain ⟨front, rest, frontOk, restOk, rfl, rfl, hfront, hrest⟩ := ih hothers
        exact ⟨line :: front, rest, firstOk && frontOk, restOk, rfl, by rw [Bool.and_assoc],
          .cons hfirst hfront, hrest⟩
  · rintro ⟨front, rest, frontOk, restOk, rfl, rfl, hfront, hrest⟩
    induction hfront with
    | nil => exact hrest
    | cons hfirst _ ih =>
      rw [Bool.and_assoc]
      exact .cons hfirst ih

/-- The form has a value, which can be rendered. -/
def Rendered (config : Config) (outcome : Outcome) : Prop :=
  ∃ value text, outcome = .value value ∧ value.render config.printRoom = .ok text

theorem Reports.ok_iff {outcome : Outcome} {line : String} {ok : Bool}
    (h : Reports config outcome line ok) : ok = true ↔ Rendered config outcome := by
  cases h with
  | @value value _ hrender => simp [Rendered, hrender]
  | @tooDeep value hrender => simp [Rendered, hrender]
  | failure => simp [Rendered]

/-- All is well with outcomes exactly if they are all values that can be rendered. -/
theorem ReportsEach.ok_iff {outcomes : List Outcome} {lines : List String} {ok : Bool}
    (h : ReportsEach config outcomes lines ok) :
    ok = true ↔ ∀ outcome ∈ outcomes, Rendered config outcome := by
  induction h with
  | nil => simp
  | cons hfirst _ ih => rw [Bool.and_eq_true, List.forall_mem_cons, hfirst.ok_iff, ih]

end

/-! ## Runs of sources -/

variable [Host] {config : Config} {session last : Session} {source : String}
  {lines : List String} {ok : Bool}

/-- In the session, the source shows the lines, answers whether all is well and leaves the
last session. -/
inductive Shows (config : Config) (session : Session) (source : String) :
    List String → Bool → Session → Prop where
  /-- What has become of the forms is reported. -/
  | reported {outcomes lines ok last} : evalAll config.room source session = .ok outcomes last →
      ReportsEach config outcomes lines ok → Shows config session source lines ok last
  /-- The source could not be read, or a text that an operation has read. -/
  | refused {error last} :
      evalAll config.room source session = .error (.unreadable (.malformed error)) last →
      Shows config session source ["error: " ++ error.message] false last

omit [Host] in
theorem reportSyntax_prints (error : SyntaxError) :
    (reportSyntax error).Prints false ("error: " ++ error.message ++ "\n") :=
  .bind (printLine_prints _) (.pure false) String.append_empty

/-- How the evaluation of the source ends decides what is done after it. -/
theorem runSource_after_evalAll (config : Config) (source : String) (console : Console) :
    ∃ log, runSource config source console =
      match evalAll config.room source console.session with
      | .ok outcomes last => reportEach config outcomes ⟨last, console.out, log⟩
      | .error (.unreadable (.malformed error)) last =>
        reportSyntax error ⟨last, console.out, log⟩
      | .error reason last => .error (.halt reason) ⟨last, console.out, log⟩ := by
  obtain ⟨session, out, log⟩ := console
  cases hread : Source.readAll source with
  | error error =>
    refine ⟨log, ?_⟩
    rw [runSource, evalAll, hread]
    cases error <;> rfl
  | ok forms =>
    rcases hattempts : attemptEach config.room forms session with ⟨⟨outcomes, escape?⟩, last⟩
    obtain ⟨log', hlog⟩ := logTooDeep_prints config outcomes ⟨last, out, log⟩
    rw [String.append_empty] at hlog
    refine ⟨log', ?_⟩
    rw [runSource_apply out log hread hattempts, bind_apply, hlog, evalAll_of_readAll hread,
      hattempts]
    cases escape? with
    | none => rfl
    | some reason =>
      cases reason with
      | unreadable error => cases error <;> rfl
      | failure | tooDeep | oversizedInteger | notAnExpression | divisionByZero => rfl

/-- What a source shows is shown after all that has been printed before. -/
theorem Shows.runSource_eq (h : Shows config session source lines ok last) (out log : String) :
    ∃ log', runSource config source ⟨session, out, log⟩ =
      .ok ok ⟨last, out ++ String.join (lines.map (· ++ "\n")), log'⟩ := by
  obtain ⟨log', hrun⟩ := runSource_after_evalAll config source ⟨session, out, log⟩
  rw [hrun]
  cases h with
  | reported heval hlines =>
    rw [heval]
    exact hlines.prints ⟨last, out, log'⟩
  | @refused error _ heval =>
    rw [heval]
    simpa using reportSyntax_prints error ⟨last, out, log'⟩

/-- A run from which nothing escapes shows something. -/
theorem shows_of_runSource {console after : Console}
    (h : runSource config source console = .ok ok after) :
    ∃ lines, Shows config console.session source lines ok after.session ∧
      after.out = console.out ++ String.join (lines.map (· ++ "\n")) := by
  have hshows {lines : List String} {ok' : Bool} {last : Session}
      (hlines : Shows config console.session source lines ok' last) :
      ∃ lines, Shows config console.session source lines ok after.session ∧
        after.out = console.out ++ String.join (lines.map (· ++ "\n")) := by
    obtain ⟨log, hrun⟩ := hlines.runSource_eq console.out console.log
    rw [h] at hrun
    cases hrun
    exact ⟨lines, hlines, rfl⟩
  obtain ⟨log, hrun⟩ := runSource_after_evalAll config source console
  rw [h] at hrun
  split at hrun
  · rename_i outcomes last heval
    rcases reportsEach_or_escapes config outcomes with ⟨lines, ok', hlines⟩ | ⟨text, hescapes⟩
    · exact hshows (.reported heval hlines)
    · obtain ⟨reason, log', herror⟩ := hescapes ⟨last, console.out, log⟩
      rw [herror] at hrun
      cases hrun
  · rename_i heval
    exact hshows (.refused heval)
  · cases hrun

/-- A run of a source that is not refused reports outcomes. -/
theorem reported_of_runSource {console after : Console}
    (hquiet : ∀ error last, evalAll config.room source console.session ≠
      .error (.unreadable error) last)
    (h : runSource config source console = .ok ok after) :
    ∃ outcomes lines, evalAll config.room source console.session = .ok outcomes after.session ∧
      ReportsEach config outcomes lines ok := by
  obtain ⟨lines, hshows, -⟩ := shows_of_runSource h
  cases hshows with
  | reported heval hlines => exact ⟨_, _, heval, hlines⟩
  | refused heval => exact (hquiet _ _ heval).elim

theorem Shows.exec_eq (h : Shows config session source lines ok last) :
    (evalAll config.room source).exec session = last := by
  cases h with
  | reported heval _ => exact exec_ok heval
  | refused heval => exact exec_error heval

/-- All is well with a source exactly if it can be read and every form of it has a value that
can be rendered. -/
theorem Shows.ok_iff (h : Shows config session source lines ok last) :
    ok = true ↔ ∃ forms outcomes, Source.readAll source = .ok forms ∧
      BecomesEach config.room session forms outcomes last ∧
      ∀ outcome ∈ outcomes, Rendered config outcome := by
  cases h with
  | reported heval hlines =>
    obtain ⟨forms, hread⟩ := readAll_of_evalAll heval
    have heach := (evalAll_eq_ok_iff hread).mp heval
    rw [hlines.ok_iff]
    constructor
    · intro hall
      exact ⟨forms, _, hread, heach, hall⟩
    · rintro ⟨forms', outcomes', hread', heach', hall⟩
      rw [hread] at hread'
      cases hread'
      obtain ⟨rfl, -⟩ := heach.unique heach'
      exact hall
  | refused heval =>
    simp only [Bool.false_eq_true, false_iff]
    rintro ⟨forms, outcomes, hread, heach, _⟩
    rw [(evalAll_eq_ok_iff hread).mpr heach] at heval
    cases heval

end Shell
end Sexpr
