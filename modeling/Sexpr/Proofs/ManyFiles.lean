import Mathlib.Data.List.TakeWhile
import Sexpr.Proofs.Showing
import Sexpr.Shell

/-!
# Many files

The shell visits the files it is given in order, all of them on one session. A file that
cannot be had or cannot be read leaves the session as it is, and no file stops those after
it. Main statement: if nothing escapes from the files, there is one part of output for each,
and the exit status is 0 exactly if all is well with all of them.
-/
namespace Sexpr

open EStateM (bind_apply exec_ok)

namespace Shell

/-! ## Visits -/

/-- A path whose turn it is, and the session at that time. -/
structure Visit where
  session : Session
  path : String

namespace Visit

variable [Host] (config : Config) (files : Files) (visit : Visit)

/-- The session that the visit leaves, which is the same if the file has no text. -/
def leaves : Session :=
  match files.text visit.path with
  | .ok source => (evalAll config.room source).exec visit.session
  | .error _ => visit.session

/-- What is printed: what a run of the file prints, or why it has no text. -/
def part : String :=
  match files.text visit.path with
  | .ok source => ((runSource config source).exec ⟨visit.session, "", ""⟩).out
  | .error error => "error: cannot read " ++ visit.path ++ ": " ++ error.reason ++ "\n"

/-- Nothing escapes from a run of the file, if it has a text. -/
def Ends : Prop :=
  ∀ source, files.text visit.path = .ok source →
    ∃ ok after, runSource config source ⟨visit.session, "", ""⟩ = .ok ok after

/-- The file has a text that can be read, and every form of it has a value that can be
rendered. -/
def Clean : Prop :=
  ∃ source forms outcomes last, files.text visit.path = .ok source ∧
    Source.readAll source = .ok forms ∧
    BecomesEach config.room visit.session forms outcomes last ∧
    ∀ outcome ∈ outcomes, Rendered config outcome

end Visit

section
variable [Host] (config : Config) (files : Files)

/-- The visits to paths in order, each in the session that the one before it leaves. -/
def visits (session : Session) : List String → List Visit
  | [] => []
  | path :: rest =>
    ⟨session, path⟩ :: visits (Visit.leaves config files ⟨session, path⟩) rest

/-- The session that is left when all the paths have been visited. -/
def leavesEach (session : Session) (paths : List String) : Session :=
  paths.foldl (fun session path => Visit.leaves config files ⟨session, path⟩) session

theorem map_path_visits (session : Session) (paths : List String) :
    (visits config files session paths).map Visit.path = paths := by
  induction paths generalizing session with
  | nil => rfl
  | cons path rest ih => rw [visits, List.map_cons, ih]

/-- Whatever came of the paths before, the others are visited in the session they leave. -/
theorem visits_append (session : Session) (before rest : List String) :
    visits config files session (before ++ rest) =
      visits config files session before ++
        visits config files (leavesEach config files session before) rest := by
  induction before generalizing session with
  | nil => rfl
  | cons path before ih =>
    rw [List.cons_append, visits, ih]
    rfl

end

/-! ## Runs of files -/

section
variable [Host] {config : Config} {files : Files} {visit : Visit}

section
variable {source : String} {lines : List String} {ok : Bool} {last : Session}
  (htext : files.text visit.path = .ok source)
  (h : Shows config visit.session source lines ok last)
include htext h

theorem Visit.ends_of_shows : visit.Ends config files := by
  intro source' htext'
  cases htext.symm.trans htext'
  obtain ⟨log, hrun⟩ := h.runSource_eq "" ""
  exact ⟨ok, _, hrun⟩

theorem Visit.leaves_of_shows : visit.leaves config files = last := by
  rw [leaves, htext]
  exact h.exec_eq

theorem Visit.part_of_shows : visit.part config files = String.join (lines.map (· ++ "\n")) := by
  obtain ⟨log, hrun⟩ := h.runSource_eq "" ""
  rw [part, htext]
  simp only [exec_ok hrun, String.empty_append]

end

/-- A visit to a file from whose run nothing escapes. -/
theorem Visit.runFile_eq (visit : Visit) (hpath : isPath visit.path = true)
    (hends : visit.Ends config files) (out log : String) :
    ∃ ok log', runFile config visit.path (files.text visit.path) ⟨visit.session, out, log⟩ =
      .ok ok ⟨visit.leaves config files, out ++ visit.part config files, log'⟩ ∧
      (ok = true ↔ visit.Clean config files) := by
  have hrequire : requirePath visit.path = pure () := by rw [requirePath, if_pos hpath]
  unfold runFile
  rw [hrequire, pure_bind]
  cases htext : files.text visit.path with
  | error error =>
    have hprints : (do
        logLine config .info "sxeval" ("cannot read " ++ visit.path ++ ": " ++
          error.message visit.path)
        printLine ("error: cannot read " ++ visit.path ++ ": " ++ error.reason)
        return false : Shell Bool).Prints false (visit.part config files) := by
      unfold part
      rw [htext]
      exact .bind (logLine_prints config .info _ _)
        (.bind (printLine_prints _) (.pure false) String.append_empty) String.empty_append
    obtain ⟨log', hrun⟩ := hprints ⟨visit.session, out, log⟩
    have hleaves : visit.leaves config files = visit.session := by rw [leaves, htext]
    refine ⟨false, log', by rw [hleaves]; exact hrun, ?_⟩
    simp [Clean, htext]
  | ok source =>
    obtain ⟨ok, after, hrun⟩ := hends source htext
    obtain ⟨lines, hshows, -⟩ := shows_of_runSource hrun
    obtain ⟨log', hrun'⟩ := hshows.runSource_eq out log
    rw [leaves_of_shows htext hshows, part_of_shows htext hshows]
    refine ⟨ok, log', hrun', ?_⟩
    rw [hshows.ok_iff]
    constructor
    · rintro ⟨forms, outcomes, hread, heach, hall⟩
      exact ⟨source, forms, outcomes, after.session, htext, hread, heach, hall⟩
    · rintro ⟨source', forms, outcomes, last, htext', hread, heach, hall⟩
      rw [htext] at htext'
      cases htext'
      -- The outcomes are those of the run, and so is the session that they leave.
      have hlast : last = after.session := by
        rw [← hshows.exec_eq, exec_ok ((evalAll_eq_ok_iff hread).mpr heach)]
      exact ⟨forms, outcomes, hread, hlast ▸ heach, hall⟩

theorem runFiles_eq (paths : List String) (hpath : ∀ path ∈ paths, isPath path = true)
    {session : Session}
    (hends : ∀ visit ∈ visits config files session paths, visit.Ends config files)
    (out log : String) :
    ∃ ok log', runFiles config files paths ⟨session, out, log⟩ =
      .ok ok ⟨leavesEach config files session paths,
        out ++ String.join ((visits config files session paths).map (Visit.part config files)),
        log'⟩ ∧
      (ok = true ↔ ∀ visit ∈ visits config files session paths, visit.Clean config files) := by
  induction paths generalizing session out log with
  | nil =>
    refine ⟨true, log, ?_, by simp [visits]⟩
    rw [visits, List.map_nil, String.join_nil, String.append_empty]
    rfl
  | cons path rest ih =>
    rw [List.forall_mem_cons] at hpath
    rw [visits, List.forall_mem_cons] at hends
    obtain ⟨ok, log', hfirst, hok⟩ := Visit.runFile_eq ⟨session, path⟩ hpath.1 hends.1 out log
    obtain ⟨restOk, log'', hrest, hrestOk⟩ :=
      ih hpath.2 hends.2 (out ++ Visit.part config files ⟨session, path⟩) log'
    refine ⟨ok && restOk, log'', ?_, ?_⟩
    · rw [runFiles, bind_apply, hfirst]
      simp only [bind_apply, hrest, visits, List.map_cons, String.join_cons, String.append_assoc]
      rfl
    · rw [visits, List.forall_mem_cons, Bool.and_eq_true, hok, hrestOk]

/-- To run files is to run the first of them and then the others. -/
theorem runFiles_append (before rest : List String) :
    runFiles config files (before ++ rest) = do
      let ok ← runFiles config files before
      let restOk ← runFiles config files rest
      return ok && restOk := by
  induction before with
  | nil =>
    rw [List.nil_append, runFiles, pure_bind]
    simp only [Bool.true_and, bind_pure]
  | cons path before ih =>
    rw [List.cons_append, runFiles, runFiles, ih]
    simp only [bind_assoc, pure_bind, Bool.and_assoc]

/-- What is no path ends the run when it is its turn, and the files after it are not visited. -/
theorem runFiles_notAPath {before : List String} (hpath : ∀ path ∈ before, isPath path = true)
    {bad : String} (hbad : isPath bad = false) {session : Session}
    (hends : ∀ visit ∈ visits config files session before, visit.Ends config files)
    (rest : List String) (out log : String) :
    ∃ log', runFiles config files (before ++ bad :: rest) ⟨session, out, log⟩ =
      .error (.notAPath bad) ⟨leavesEach config files session before,
        out ++ String.join ((visits config files session before).map (Visit.part config files)),
        log'⟩ := by
  obtain ⟨ok, log', hbefore, -⟩ := runFiles_eq before hpath hends out log
  have hrequire : requirePath bad = throw (.notAPath bad) := by
    rw [requirePath, hbad]
    rfl
  refine ⟨log', ?_⟩
  rw [runFiles_append, bind_apply, hbefore, runFiles]
  unfold runFile
  rw [hrequire]
  rfl

section
variable {env : String → Option String} {paths : List String} {input : String}
  {console ready after : Console} (hstart : start env files console = .ok config ready)
  (hpaths : paths ≠ [])
include hstart hpaths

/-- With files to run the shell does not read its input. -/
theorem run_eq : run env files paths input console =
    (do return if ← runFiles config files paths then 0 else 1 : Shell Nat) ready := by
  have hargs : paths.isEmpty = false := by simpa using hpaths
  rw [run, bind_apply, hstart]
  simp only [hargs, Bool.false_eq_true, if_false]

theorem run_of_runFiles_ok {ok : Bool} (h : runFiles config files paths ready = .ok ok after) :
    run env files paths input console = .ok (if ok then 0 else 1) after := by
  rw [run_eq hstart hpaths, bind_apply, h]
  cases ok <;> rfl

theorem run_of_runFiles_error {reason : Escape}
    (h : runFiles config files paths ready = .error reason after) :
    run env files paths input console = .error reason after := by
  rw [run_eq hstart hpaths, bind_apply, h]

end

/-- A file that cannot be read as source text is refused before anything is evaluated. -/
theorem Visit.of_malformed {source : String} {error : SyntaxError}
    (htext : files.text visit.path = .ok source)
    (hread : Source.readAll source = .error (.malformed error)) :
    visit.leaves config files = visit.session ∧
      visit.part config files = "error: " ++ error.message ++ "\n" := by
  have hrefused : evalAll config.room source visit.session =
      .error (.unreadable (.malformed error)) visit.session := by
    rw [evalAll, hread]
    rfl
  have hshows : Shows config visit.session source ["error: " ++ error.message] false
      visit.session := .refused hrefused
  refine ⟨leaves_of_shows htext hshows, ?_⟩
  rw [part_of_shows htext hshows]
  simp

end

end Shell

/-- The shell is run on files, after a start that has come to its end, and nothing escapes
from the run of any of them when it is its turn.

If all names of files are paths, the shell comes to its end. Each path has been visited once,
in order, and each in the session that the visits before it have left, whatever came of them:
this is the session of evaluating the files that have a text. The output is one part for each
path. The exit status is 0 or 1, and it is 0 exactly if each file has a text that can be read
and every form of it has a value that can be rendered. A file that cannot be read as source
text leaves the session as it is, and its part is the error.

A name that is no path ends the shell when it is its turn. The files before it have been
visited, and those after it never are. -/
theorem files_visited_in_turn [Host] (env : String → Option String) (files : Files)
    (paths : List String) (input : String) (console ready : Console) (config : Shell.Config)
    (hstart : Shell.start env files console = .ok config ready) (hpaths : paths ≠ [])
    (hends : ∀ visit ∈ Shell.visits config files ready.session (paths.takeWhile isPath),
      visit.Ends config files) :
    let seen := Shell.visits config files ready.session paths
    ((∀ path ∈ paths, isPath path = true) →
      ∃ status after, Shell.run env files paths input console = .ok status after ∧
        after.session = Shell.leavesEach config files ready.session paths ∧
        after.out = ready.out ++ String.join (seen.map (Shell.Visit.part config files)) ∧
        (status = 0 ∨ status = 1) ∧
        (status = 0 ↔ ∀ visit ∈ seen, visit.Clean config files)) ∧
    seen.map Shell.Visit.path = paths ∧
    (∀ before rest, paths = before ++ rest →
      seen = Shell.visits config files ready.session before ++
        Shell.visits config files (Shell.leavesEach config files ready.session before) rest) ∧
    (∀ (visit : Shell.Visit) (source : String) (error : SyntaxError),
      files.text visit.path = .ok source → Source.readAll source = .error (.malformed error) →
      visit.leaves config files = visit.session ∧
        visit.part config files = "error: " ++ error.message ++ "\n") ∧
    ∀ before bad rest, paths = before ++ bad :: rest → (∀ path ∈ before, isPath path = true) →
      isPath bad = false →
      ∃ after, Shell.run env files paths input console = .error (.notAPath bad) after ∧
        after.session = Shell.leavesEach config files ready.session before ∧
        after.out = ready.out ++ String.join
          ((Shell.visits config files ready.session before).map (Shell.Visit.part config files)) := by
  intro seen
  refine ⟨?_, Shell.map_path_visits config files _ paths, ?_, fun _ _ _ => Shell.Visit.of_malformed,
    ?_⟩
  · intro hpath
    rw [List.takeWhile_eq_self_iff.mpr hpath] at hends
    obtain ⟨ok, log, hfiles, hok⟩ := Shell.runFiles_eq paths hpath hends ready.out ready.log
    refine ⟨_, _, Shell.run_of_runFiles_ok hstart hpaths hfiles, rfl, rfl, ?_, ?_⟩
    · cases ok <;> simp
    · rw [← hok]
      cases ok <;> simp
  · rintro before rest rfl
    exact Shell.visits_append config files ready.session before rest
  · rintro before bad rest rfl hpath hbad
    have htake : (before ++ bad :: rest).takeWhile isPath = before := by
      rw [List.takeWhile_append_of_pos hpath, List.takeWhile_cons_of_neg (by simp [hbad]),
        List.append_nil]
    rw [htake] at hends
    obtain ⟨log, hfiles⟩ := Shell.runFiles_notAPath hpath hbad hends rest ready.out ready.log
    exact ⟨_, Shell.run_of_runFiles_error hstart hpaths hfiles, rfl, rfl⟩

/-- One file ends too early, one is missing, and one is well. -/
theorem files_visited_in_turn_sample :
    let files : Files := fun path =>
      if path = "open" then .ok [40] else if path = "nil" then .ok [110, 105, 108]
      else .error .missing
    let paths := ["open", "lost", "nil"]
    let config : Shell.Config := ⟨Room.ofLimit Room.defaultLimit, .warning⟩
    Shell.start (fun _ => none) files .initial = .ok config .initial ∧
      (∀ path ∈ paths, isPath path = true) ∧
      (∀ visit ∈ Shell.visits config files Console.initial.session (paths.takeWhile isPath),
        visit.Ends config files) ∧
      ∃ after, Shell.run (fun _ => none) files paths "" .initial = .ok 1 after ∧
        after.out = "error: Unmatched '(' at 0\n" ++
          "error: cannot read lost: No such file or directory\n" ++ "nil\n" := by
  intro files paths config
  have hstart : Shell.start (fun _ => none) files .initial = .ok config .initial := rfl
  have hpath : ∀ path ∈ paths, isPath path = true := by decide
  have hopen : Shell.Shows config .initial "(" ["error: Unmatched '(' at 0"] false .initial := by
    have hread : Source.readAll "(" = .error (.malformed (.unmatchedOpen 0)) := Source.readAll_eq _
    have hrefused : evalAll config.room "(" .initial =
        .error (.unreadable (.malformed (.unmatchedOpen 0))) .initial := by
      rw [evalAll, hread]
      rfl
    exact .refused hrefused
  have hnil : Shell.Shows config .initial "nil" ["nil"] true .initial :=
    .reported ((evalAll_eq_ok_iff (Source.readAll_eq _)).mpr (.cons (.value rfl) .nil))
      (.cons (.value rfl) .nil)
  have hseen : Shell.visits config files Console.initial.session paths =
      [⟨.initial, "open"⟩, ⟨.initial, "lost"⟩, ⟨.initial, "nil"⟩] := by
    rw [Shell.visits, Shell.Visit.leaves_of_shows rfl hopen]
    rfl
  have hends : ∀ visit ∈ Shell.visits config files Console.initial.session
      (paths.takeWhile isPath), visit.Ends config files := by
    have htake : paths.takeWhile isPath = paths := List.takeWhile_eq_self_iff.mpr hpath
    rw [htake, hseen]
    intro visit hvisit
    simp only [List.mem_cons, List.not_mem_nil, or_false] at hvisit
    rcases hvisit with rfl | rfl | rfl
    · exact Shell.Visit.ends_of_shows rfl hopen
    · rintro source ⟨⟩
    · exact Shell.Visit.ends_of_shows rfl hnil
  obtain ⟨hall, -⟩ :=
    files_visited_in_turn (fun _ => none) files paths "" .initial .initial config hstart
      (List.cons_ne_nil _ _) hends
  obtain ⟨status, after, hrun, _, hout, hstatus, hzero⟩ := hall hpath
  have hlost : status ≠ 0 := by
    intro h
    have hclean := hzero.mp h
    rw [hseen] at hclean
    obtain ⟨source, _, _, _, htext, _⟩ := hclean ⟨.initial, "lost"⟩ (by simp)
    cases htext
  obtain rfl := hstatus.resolve_left hlost
  refine ⟨hstart, hpath, hends, after, hrun, ?_⟩
  have hfirst : Shell.Visit.part config files ⟨.initial, "open"⟩ =
      String.join (["error: Unmatched '(' at 0"].map (· ++ "\n")) :=
    Shell.Visit.part_of_shows rfl hopen
  have hlast : Shell.Visit.part config files ⟨.initial, "nil"⟩ =
      String.join (["nil"].map (· ++ "\n")) := Shell.Visit.part_of_shows rfl hnil
  rw [hout, hseen, List.map_cons, List.map_cons, List.map_cons, hfirst, hlast]
  rfl

/-- The first name is no path. The file after it is never run, though it could be. -/
theorem files_lost_after_bad_name :
    let files : Files := fun path => if path = "good" then .ok [110, 105, 108] else .error .missing
    let config : Shell.Config := ⟨Room.ofLimit Room.defaultLimit, .warning⟩
    let good : Shell.Visit := ⟨.initial, "good"⟩
    good.Ends config files ∧ good.part config files = "nil\n" ∧
      Shell.run (fun _ => none) files ["a\x00b", "good"] "" .initial =
        .error (.notAPath "a\x00b") .initial := by
  intro files config good
  have hshows : Shell.Shows config .initial "nil" ["nil"] true .initial :=
    .reported ((evalAll_eq_ok_iff (Source.readAll_eq _)).mpr (.cons (.value rfl) .nil))
      (.cons (.value rfl) .nil)
  have hpart : good.part config files = String.join (["nil"].map (· ++ "\n")) :=
    Shell.Visit.part_of_shows rfl hshows
  exact ⟨Shell.Visit.ends_of_shows rfl hshows, hpart, rfl⟩

end Sexpr
