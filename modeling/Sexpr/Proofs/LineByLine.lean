import Sexpr.Proofs.Agreement
import Sexpr.Proofs.Layout
import Sexpr.Proofs.LineBreaks
import Sexpr.Proofs.Showing
import Sexpr.Shell

/-!
# Sources typed line by line

Lines that can be read are a source that can be read, and to evaluate this source is to
evaluate the lines one after the other. Main statement: typed line by line, the source shows
what it shows as a file and leaves the same session; only the prompts are printed besides.
A blank line may be skipped, since nothing comes of it.
-/

/-! ## The lines of a text -/

namespace Sexpr.Text

theorem cutLines_append {line : List Char} (h : '\n' ∉ line) (piece rest : List Char) :
    cutLines piece (line ++ '\n' :: rest) = (piece.reverse ++ line) :: cutLines [] rest := by
  induction line generalizing piece with
  | nil => simp [cutLines]
  | cons c line ih =>
    rw [List.mem_cons, not_or] at h
    rw [List.cons_append, cutLines, if_neg (Ne.symm h.1), ih h.2]
    simp

/-- Lines that are ended by line feeds are the lines of the text. -/
theorem lines_join {lines : List String} (h : ∀ line ∈ lines, '\n' ∉ line.toList) :
    Text.lines (String.join (lines.map (· ++ "\n"))) = lines := by
  unfold Text.lines
  induction lines with
  | nil => rfl
  | cons line rest ih =>
    rw [List.forall_mem_cons] at h
    have htext : (String.join ((line :: rest).map (· ++ "\n"))).toList =
        line.toList ++ '\n' :: (String.join (rest.map (· ++ "\n"))).toList := by simp
    rw [htext, cutLines_append h.1, List.map_cons, ih h.2]
    simp

end Sexpr.Text

namespace Sexpr

open EStateM (bind_apply)

/-! ## Lines that can be read -/

/-- The lines can be read, each on its own. -/
def Source.ReadsEach (lines : List String) : Prop :=
  ∀ line ∈ lines, ∃ forms, Source.readAll line = .ok forms

theorem Source.ReadsEach.readAll {lines : List String} (h : Source.ReadsEach lines) :
    ∃ forms, Source.readAll ("\n".intercalate lines) = .ok forms := by
  induction lines with
  | nil => exact ⟨[], Source.readAll_eq _⟩
  | cons line rest ih =>
    obtain ⟨⟨forms, hline⟩, hrest⟩ := List.forall_mem_cons.mp h
    cases rest with
    | nil => exact ⟨forms, hline⟩
    | cons next rest =>
      obtain ⟨more, hmore⟩ := ih hrest
      refine ⟨forms ++ more, ?_⟩
      rw [String.intercalate_cons_cons, readAll_newline hline, hmore]

section
variable [Host]

theorem evalAll_no_lines (room : Nat) : evalAll room ("\n".intercalate []) = pure [] := by
  have hread : Source.readAll ("\n".intercalate []) = .ok [] := Source.readAll_eq _
  rw [evalAll, hread]
  rfl

/-- Lines are evaluated by evaluating the first and then the others. -/
theorem evalAll_lines {line : String} {lines : List String}
    (h : Source.ReadsEach (line :: lines)) (room : Nat) :
    evalAll room ("\n".intercalate (line :: lines)) = do
      let outcomes ← evalAll room line
      let others ← evalAll room ("\n".intercalate lines)
      return outcomes ++ others := by
  obtain ⟨⟨forms, hline⟩, hlines⟩ := List.forall_mem_cons.mp h
  cases lines with
  | nil =>
    -- No line feed follows the only line.
    rw [String.intercalate_singleton, evalAll_no_lines]
    simp
  | cons next rest =>
    obtain ⟨more, hmore⟩ := Source.ReadsEach.readAll hlines
    rw [String.intercalate_cons_cons]
    exact evalAll_newline hline hmore room

/-! ## Halts of evaluation -/

section
variable {room : Nat} (hreserves : Host.ReservesReading)
include hreserves

theorem attempt_ne_unreadable (form : Value) (session last : Session) (error : ReadError) :
    attempt room form session ≠ .error (.unreadable error) last := by
  intro h
  have hform : ∀ after, evaluate room form session ≠ .error (.unreadable error) after :=
    evaluate_ne_hosted .unreadable
      (fun operation room args journal => hreserves operation room args journal error) form session
  unfold attempt tryEvaluate at h
  cases heval : evaluate room form session with
  | ok value after => simp [heval] at h
  | error reason after =>
    cases reason <;> simp only [heval] at h <;> cases h
    exact hform _ heval

/-- Attempts do not end as if source text could not be read. -/
theorem attemptEach_ne_unreadable (forms : List Value) (session : Session) (error : ReadError) :
    (attemptEach room forms session).1.escape? ≠ some (.unreadable error) := by
  induction forms generalizing session with
  | nil => nofun
  | cons form rest ih =>
    rw [attemptEach]
    cases hform : attempt room form session with
    | ok outcome middle => exact ih middle
    | error reason last =>
      rintro ⟨⟩
      exact attempt_ne_unreadable hreserves form session last error hform

theorem evalAll_ne_unreadable {source : String} {forms : List Value}
    (hread : Source.readAll source = .ok forms) (session last : Session) (error : ReadError) :
    evalAll room source session ≠ .error (.unreadable error) last := by
  intro h
  have hattempts : (attemptEach room forms session).1.escape? ≠ some (.unreadable error) :=
    attemptEach_ne_unreadable hreserves forms session error
  rw [evalAll_of_readAll hread] at h
  rcases hends : attemptEach room forms session with ⟨⟨outcomes, _ | reason⟩, after⟩
  · simp [hends] at h
  · simp only [hends] at h hattempts
    cases h
    exact hattempts rfl

end
end

namespace Shell

/-! ## Blank lines -/

/-- There is nothing to be read on a blank line. -/
theorem readAll_of_isBlankText {line : String} (h : Text.isBlankText line = true) :
    Source.readAll line = .ok [] := by
  have hgap : Token.Gap [] line.toList := Token.Gap.of_blank (List.all_eq_true.mp h)
  have hlex : Token.lex line = ⟨[], none⟩ := (Token.Layout.Valid.finish hgap).lex_eq rfl
  rw [Source.readAll_eq, Source.reading, hlex]
  rfl

section
variable [Host]

/-- A line that is skipped could as well be run: nothing comes of it. -/
theorem runLine_eq (config : Config) (line : String) :
    runLine config line = discard (runSource config.forLine line) := by
  unfold runLine
  split
  · rename_i hblank
    have hrun : runSource config.forLine line = pure true := by
      unfold runSource
      rw [readAll_of_isBlankText hblank]
      rfl
    rw [hrun]
    rfl
  · rfl

/-- A line is asked for and run, and then the others are. -/
theorem runLines_cons_apply (config : Config) (line : String) (lines : List String)
    (session : Session) (out log : String) :
    runLines config (line :: lines) ⟨session, out, log⟩ =
      match runSource config.forLine line ⟨session, out ++ prompt, log⟩ with
      | .ok _ after => runLines config lines after
      | .error reason after => .error reason after := by
  rw [runLines, runLine_eq, EStateM.discard_eq_bind]
  change ((runSource config.forLine line >>= fun _ => pure ()) >>= fun _ => runLines config lines)
    ⟨session, out ++ prompt, log⟩ = _
  rw [bind_apply, bind_apply]
  cases runSource config.forLine line ⟨session, out ++ prompt, log⟩ <;> rfl

/-- A line that shows something, and then the others. -/
theorem Shows.runLines_cons {config : Config} {line : String} {shown : List String} {ok : Bool}
    {session middle : Session} (h : Shows config.forLine session line shown ok middle)
    (lines : List String) (out log : String) :
    ∃ log', runLines config (line :: lines) ⟨session, out, log⟩ =
      runLines config lines
        ⟨middle, out ++ prompt ++ String.join (shown.map (· ++ "\n")), log'⟩ := by
  obtain ⟨log', hrun⟩ := h.runSource_eq (out ++ prompt) log
  exact ⟨log', by rw [runLines_cons_apply, hrun]⟩

/-! ## What lines print -/

/-- The lines print the texts, one for each, every line in the session that those before it
leave. -/
inductive PrintsEach (config : Config) : Session → List String → List String → Session → Prop where
  | nil {session} : PrintsEach config session [] [] session
  | cons {line : String} {lines outcomes shown texts ok session middle last} :
      evalAll config.room line session = .ok outcomes middle →
      ReportsEach config outcomes shown ok → PrintsEach config middle lines texts last →
      PrintsEach config session (line :: lines) (String.join (shown.map (· ++ "\n")) :: texts) last

variable {config : Config} {lines texts : List String} {session last : Session}

theorem PrintsEach.length_eq (h : PrintsEach config session lines texts last) :
    texts.length = lines.length := by
  induction h with
  | nil => rfl
  | cons _ _ _ ih => rw [List.length_cons, List.length_cons, ih]

/-- Typed one after the other, the lines print their texts, each after a prompt. -/
theorem PrintsEach.runLines_eq (h : PrintsEach config.forLine session lines texts last)
    (out log : String) :
    ∃ log', runLines config lines ⟨session, out, log⟩ =
      .ok () ⟨last, out ++ String.join (texts.map (prompt ++ ·)) ++ prompt ++ "\n", log'⟩ := by
  induction h generalizing out log with
  | nil =>
    refine ⟨log, ?_⟩
    have hempty : out ++ prompt ++ "" = out ++ prompt := String.append_empty
    rw [List.map_nil, String.join_nil, String.append_empty, ← hempty]
    rfl
  | @cons _ _ _ shown _ _ _ _ _ heval hshown _ ih =>
    obtain ⟨log', hline⟩ := (Shows.reported heval hshown).runLines_cons _ out log
    obtain ⟨log'', hlast⟩ := ih (out ++ prompt ++ String.join (shown.map (· ++ "\n"))) log'
    refine ⟨log'', ?_⟩
    rw [hline]
    simpa only [List.map_cons, String.join_cons, String.append_assoc] using hlast

/-- Together the lines have the outcomes of them all, and the reports of these make up the
texts. -/
theorem PrintsEach.shows (hread : Source.ReadsEach lines)
    (h : PrintsEach config session lines texts last) :
    ∃ shown ok, Shows config session ("\n".intercalate lines) shown ok last ∧
      String.join (shown.map (· ++ "\n")) = String.join texts := by
  -- The induction needs the outcomes, which `Shows` does not tell.
  suffices hall : ∃ outcomes shown ok,
      evalAll config.room ("\n".intercalate lines) session = .ok outcomes last ∧
        ReportsEach config outcomes shown ok ∧
        String.join (shown.map (· ++ "\n")) = String.join texts by
    obtain ⟨outcomes, shown, ok, heval, hshown, htexts⟩ := hall
    exact ⟨shown, ok, .reported heval hshown, htexts⟩
  induction h with
  | nil => exact ⟨[], [], true, by rw [evalAll_no_lines]; rfl, .nil, rfl⟩
  | @cons line lines outcomes shown texts ok _ middle _ heval hshown _ ih =>
    obtain ⟨others, more, restOk, hothers, hmore, htexts⟩ := ih (List.forall_mem_cons.mp hread).2
    refine ⟨outcomes ++ others, shown ++ more, ok && restOk, ?_,
      reportsEach_append_iff.mpr ⟨_, _, _, _, rfl, rfl, hshown, hmore⟩, ?_⟩
    · rw [evalAll_lines hread, bind_apply, heval]
      simp only [bind_apply, hothers]
      rfl
    · rw [List.map_append, String.join_append, htexts, String.join_cons]

/-- What lines show together is made up of what they print one by one. -/
theorem printsEach_of_evalAll (hread : Source.ReadsEach lines) {outcomes : List Outcome}
    {shown : List String} {ok : Bool}
    (heval : evalAll config.room ("\n".intercalate lines) session = .ok outcomes last)
    (hshown : ReportsEach config outcomes shown ok) :
    ∃ texts, PrintsEach config session lines texts last := by
  induction lines generalizing session outcomes shown ok with
  | nil =>
    rw [evalAll_no_lines] at heval
    cases heval
    exact ⟨[], .nil⟩
  | cons line lines ih =>
    rw [evalAll_lines hread, bind_apply] at heval
    cases hline : evalAll config.room line session with
    | error reason middle => simp [hline] at heval
    | ok first middle =>
      simp only [hline, bind_apply] at heval
      cases hlines : evalAll config.room ("\n".intercalate lines) middle with
      | error reason final => simp [hlines] at heval
      | ok others final =>
        rw [hlines] at heval
        cases heval
        obtain ⟨front, rest, _, _, _, _, hfront, hrest⟩ := reportsEach_append_iff.mp hshown
        obtain ⟨texts, hprints⟩ := ih (List.forall_mem_cons.mp hread).2 hlines hrest
        exact ⟨_ :: texts, .cons hline hfront hprints⟩

/-- If the lines together are not refused, none of them is, and what is printed when they
are typed comes from their outcomes. -/
theorem printsEach_of_runLines (hread : Source.ReadsEach lines)
    {console after : Console}
    (hquiet : ∀ error last, evalAll config.forLine.room ("\n".intercalate lines) console.session ≠
      .error (.unreadable error) last)
    (h : runLines config lines console = .ok () after) :
    ∃ texts, PrintsEach config.forLine console.session lines texts after.session := by
  induction lines generalizing console with
  | nil =>
    cases h
    exact ⟨[], .nil⟩
  | cons line lines ih =>
    obtain ⟨session, out, log⟩ := console
    rw [runLines_cons_apply] at h
    cases hrun : runSource config.forLine line ⟨session, out ++ prompt, log⟩ with
    | error reason final => simp [hrun] at h
    | ok ok between =>
      rw [hrun] at h
      have heval := evalAll_lines hread config.forLine.room
      obtain ⟨shown, hshows, _⟩ := shows_of_runSource hrun
      cases hshows with
      | @refused error _ hrefused =>
        -- What refuses the first line refuses all of them together.
        refine (hquiet (.malformed error) between.session ?_).elim
        rw [heval, bind_apply, hrefused]
      | @reported outcomes _ _ _ hline hshown =>
        have hrest : ∀ error last, evalAll config.forLine.room ("\n".intercalate lines)
            between.session ≠ .error (.unreadable error) last := by
          intro error last herror
          refine hquiet error last ?_
          rw [heval, bind_apply, hline]
          simp only [bind_apply, herror]
        obtain ⟨texts, hprints⟩ := ih (List.forall_mem_cons.mp hread).2 hrest h
        exact ⟨_ :: texts, .cons hline hshown hprints⟩

/-! ## Reports with more room -/

/-- The outcome is that of a form or a value which is nested too deeply. -/
inductive TooDeep (config : Config) : Outcome → Prop where
  | attempted : TooDeep config (.failure .nestingTooDeep)
  | printed {value} : value.render config.printRoom = .error .tooDeep →
      TooDeep config (.value value)

variable {config' : Config} {outcome : Outcome} {outcomes : List Outcome}

omit [Host] in
/-- With more room an outcome is reported in the same line, unless it was too deep before. -/
theorem Reports.widened {line : String} {ok : Bool} (hlevel : config'.level = config.level)
    (hroom : config.room ≤ config'.room) (h : Reports config outcome line ok)
    (hdeep : ¬TooDeep config outcome) : Reports config' outcome line ok := by
  have hprint : config.printRoom ≤ config'.printRoom := Nat.add_le_add_right hroom Room.print
  have hdescribes : config.describeRoom ≤ config'.describeRoom :=
    Nat.add_le_add_right hroom Room.describe
  have hlog : config.logRoom ≤ config'.logRoom := Nat.sub_le_sub_right hroom Room.log
  cases h with
  | value hrender => exact .value ((render_persists hprint _).of_ok hrender)
  | tooDeep hrender => exact (hdeep (.printed hrender)).elim
  | @failure failure text hdescribe hinspect =>
    refine .failure ((failure.describe_persists hdescribes).of_ok hdescribe) fun hshows => ?_
    rw [Config.shows, hlevel] at hshows
    obtain ⟨shown, hshown⟩ := hinspect hshows
    exact ⟨shown, (failure.inspect_persists hlog).of_ok hshown⟩

omit [Host] in
theorem ReportsEach.widened {shown : List String} {ok : Bool}
    (hlevel : config'.level = config.level) (hroom : config.room ≤ config'.room)
    (h : ReportsEach config outcomes shown ok)
    (hdeep : ∀ outcome ∈ outcomes, ¬TooDeep config outcome) :
    ReportsEach config' outcomes shown ok := by
  induction h with
  | nil => exact .nil
  | cons hfirst _ ih =>
    rw [List.forall_mem_cons] at hdeep
    exact .cons (hfirst.widened hlevel hroom hdeep.1) (ih hdeep.2)

/-- With more room a source shows the same and leaves the same bindings, if nothing in it was
too deep before. -/
theorem ReportsEach.widened_shows {source : String} {shown : List String} {ok : Bool}
    {p : Value → Prop} {same : Journal → Journal → Prop} (hp : Sealed p)
    (hreadable : ∀ value : Value, value.Readable → value.Every p) (hsteady : Steady p same)
    (hrefl : ∀ journal, same journal journal) (hsession : session.Every p)
    (hlevel : config'.level = config.level) (hroom : config.room ≤ config'.room)
    (heval : evalAll config.room source session = .ok outcomes last)
    (h : ReportsEach config outcomes shown ok)
    (hdeep : ∀ outcome ∈ outcomes, ¬TooDeep config outcome) :
    ∃ last', Shows config' session source shown ok last' ∧
      last'.bindings = last.bindings ∧ same last.journal last'.journal := by
  obtain ⟨forms, hread⟩ := readAll_of_evalAll heval
  have heach := (evalAll_eq_ok_iff hread).mp heval
  have hevery : ∀ form ∈ forms, form.Every p :=
    fun form hform => hreadable form (Source.readable_of_readAll hread form hform)
  obtain ⟨last', heach', hlast⟩ := heach.widened hp hsteady hroom hevery
    (fun hmem => hdeep _ hmem .attempted) ⟨hsession, rfl, hrefl _⟩
  have hshows : ReportsEach config' outcomes shown ok := h.widened hlevel hroom hdeep
  exact ⟨last', .reported ((evalAll_eq_ok_iff hread).mpr heach') hshows, hlast.bindings.symm,
    hlast.journals⟩

end

end Shell

/-- Lines, each of which can be read, are typed one after the other, and as a file they are
run together. In the room that there is for typed lines, neither run is ended before it is
done unless the other is, and both leave the same session. Each line prints a text, perhaps an
empty one: the run of the file prints these texts, and the other prints each after a prompt,
and at last a prompt and a line feed. To skip a blank line is the same as to run it. And the
lines are those of a text in which each is ended by a line feed.

All this is so unless a hosted operation halts as if a text could not be read: this refuses
the file as a whole, but of typed lines only the one.

A file has more room. It still prints the same and leaves the same bindings, unless a form or
a value is too deep where it is typed. -/
theorem typed_as_filed [Host] (config : Shell.Config) (lines : List String) (console : Console)
    (hread : ∀ line ∈ lines, '\n' ∉ line.toList ∧ ∃ forms, Source.readAll line = .ok forms)
    (hquiet : Host.ReservesReading ∨ ∀ error last,
      evalAll config.forLine.room ("\n".intercalate lines) console.session ≠
        .error (.unreadable error) last) :
    let filed := Shell.runSource config ("\n".intercalate lines) console
    let typed := Shell.runLines config lines console
    let inner := Shell.runSource config.forLine ("\n".intercalate lines) console
    ((∃ ok after, inner = .ok ok after) ↔ ∃ after, typed = .ok () after) ∧
    (∀ ok after after', inner = .ok ok after → typed = .ok () after' →
      after'.session = after.session ∧
        ∃ texts : List String, texts.length = lines.length ∧
          after.out = console.out ++ String.join texts ∧
          after'.out = console.out ++ String.join (texts.map (Shell.prompt ++ ·)) ++
            Shell.prompt ++ "\n") ∧
    (∀ line, Shell.runLine config line = discard (Shell.runSource config.forLine line)) ∧
    Text.lines (String.join (lines.map (· ++ "\n"))) = lines ∧
    ∀ (p : Value → Prop) (same : Journal → Journal → Prop), Sealed p →
      (∀ value : Value, value.Readable → value.Every p) → Steady p same →
      (∀ journal, same journal journal) → console.session.Every p →
      (∀ outcomes last, evalAll config.forLine.room ("\n".intercalate lines) console.session =
          .ok outcomes last → ∀ outcome ∈ outcomes, ¬Shell.TooDeep config.forLine outcome) →
      ∀ ok after, inner = .ok ok after → ∃ after', filed = .ok ok after' ∧
        after'.out = after.out ∧ after'.session.bindings = after.session.bindings ∧
        same after.session.journal after'.session.journal := by
  intro filed typed inner
  obtain ⟨session, out, log⟩ := console
  have heach : Source.ReadsEach lines := fun line hline => (hread line hline).2
  have hquiet : ∀ error last, evalAll config.forLine.room ("\n".intercalate lines) session ≠
      .error (.unreadable error) last := by
    intro error last
    rcases hquiet with hreserves | hquiet
    · obtain ⟨forms, hforms⟩ := heach.readAll
      exact evalAll_ne_unreadable hreserves hforms session last error
    · exact hquiet error last
  have htexts : ∀ ok after, inner = .ok ok after →
      ∃ texts, Shell.PrintsEach config.forLine session lines texts after.session := by
    intro ok after hrun
    obtain ⟨outcomes, shown, heval, hshown⟩ := Shell.reported_of_runSource hquiet hrun
    exact Shell.printsEach_of_evalAll heach heval hshown
  refine ⟨⟨?_, ?_⟩, ?_, Shell.runLine_eq config, Text.lines_join fun line hline =>
    (hread line hline).1, ?_⟩
  · rintro ⟨ok, after, hrun⟩
    obtain ⟨texts, hprints⟩ := htexts ok after hrun
    obtain ⟨log', htyped⟩ := hprints.runLines_eq out log
    exact ⟨_, htyped⟩
  · rintro ⟨after, hrun⟩
    obtain ⟨texts, hprints⟩ := Shell.printsEach_of_runLines heach hquiet hrun
    obtain ⟨shown, ok, hshows, -⟩ := hprints.shows heach
    obtain ⟨log', hrun'⟩ := hshows.runSource_eq out log
    exact ⟨ok, _, hrun'⟩
  · intro ok after after' hrun htyped
    obtain ⟨texts, hprints⟩ := htexts ok after hrun
    obtain ⟨shown, ok', hshows, hjoined⟩ := hprints.shows heach
    -- Each run is known from the texts, so the given ends are these.
    obtain ⟨log', hrun'⟩ := hshows.runSource_eq out log
    obtain ⟨log'', htyped'⟩ := hprints.runLines_eq out log
    have hafter := (EStateM.Result.ok.inj (hrun.symm.trans hrun')).2
    have hafter' := (EStateM.Result.ok.inj (htyped.symm.trans htyped')).2
    rw [hjoined] at hafter
    exact ⟨by rw [hafter'], texts, hprints.length_eq,
      congrArg Console.out hafter, congrArg Console.out hafter'⟩
  · intro p same hp hreadable hsteady hrefl hsession hdeep ok after hrun
    obtain ⟨outcomes, shown, heval, hshown⟩ := Shell.reported_of_runSource hquiet hrun
    have hlevel : config.level = config.forLine.level := rfl
    have hroom : config.forLine.room ≤ config.room := Nat.sub_le config.room Room.line
    obtain ⟨last', hshows, hbindings, hjournals⟩ := hshown.widened_shows hp hreadable hsteady hrefl
      hsession hlevel hroom heval (hdeep _ _ heval)
    obtain ⟨log', hrun'⟩ := (Shell.Shows.reported heval hshown).runSource_eq out log
    obtain ⟨log'', hfiled⟩ := hshows.runSource_eq out log
    have hafter := (EStateM.Result.ok.inj (hrun.symm.trans hrun')).2
    exact ⟨_, hfiled, by rw [hafter], hbindings, hjournals⟩

/-- The second line is blank, and the third needs what the first has bound. -/
theorem typed_as_filed_sample :
    let lines := ["(def a 'b) ; c", " ", "a b"]
    let config : Shell.Config := ⟨100, .warning⟩
    (∀ line ∈ lines, '\n' ∉ line.toList ∧ ∃ forms, Source.readAll line = .ok forms) ∧
      Host.ReservesReading ∧
      ∃ ok after after' last, Shell.runLines config lines .initial = .ok () after' ∧
        Shell.runSource config.forLine ("\n".intercalate lines) .initial = .ok ok after ∧
        Shell.runSource config ("\n".intercalate lines) .initial = .ok ok last ∧
        after.out = "a\nb\nerror: undefined symbol: b\n" ∧ last.out = after.out ∧
        after'.session = after.session := by
  intro lines config
  have hread : ∀ line ∈ lines, '\n' ∉ line.toList ∧ ∃ forms, Source.readAll line = .ok forms := by
    intro line hline
    simp only [lines, List.mem_cons, List.not_mem_nil, or_false] at hline
    rcases hline with rfl | rfl | rfl
    · exact ⟨by decide, _, Source.readAll_eq _⟩
    · exact ⟨by decide, _, Source.readAll_eq _⟩
    · exact ⟨by decide, _, Source.readAll_eq _⟩
  have hjoined : Source.readAll ("\n".intercalate lines) =
      .ok [.definition "a" (.quote (.sym "b")), .sym "a", .sym "b"] := by
    rw [Source.readAll_eq]
    unfold lines
    rfl
  have heach : BecomesEach config.forLine.room .initial
      [.definition "a" (.quote (.sym "b")), .sym "a", .sym "b"]
      [.value (.sym "a"), .value (.sym "b"), .failure (.undefined (.sym "b"))]
      (Session.initial.put "a" (.sym "b")) :=
    .cons (.value rfl) (.cons (.value rfl) (.cons (.failure rfl) .nil))
  have heval := (evalAll_eq_ok_iff hjoined).mpr heach
  have hfails : Shell.Reports config.forLine (.failure (.undefined (.sym "b")))
      ("error: " ++ "undefined symbol: b") false := .failure rfl fun _ => ⟨_, rfl⟩
  have hshows := Shell.Shows.reported heval
    (.cons (.value rfl) (.cons (.value rfl) (.cons hfails .nil)))
  have hdeep : ∀ outcomes last, evalAll config.forLine.room ("\n".intercalate lines) .initial =
      .ok outcomes last → ∀ outcome ∈ outcomes, ¬Shell.TooDeep config.forLine outcome := by
    intro outcomes last heval' outcome houtcome hdeep
    cases heval.symm.trans heval'
    simp only [List.mem_cons, List.not_mem_nil, or_false] at houtcome
    rcases houtcome with rfl | rfl | rfl
    · cases hdeep with
      | printed hrender => cases hrender
    · cases hdeep with
      | printed hrender => cases hrender
    · cases hdeep
  obtain ⟨log, hinner⟩ := hshows.runSource_eq "" ""
  obtain ⟨hends, hboth, -, -, hroomier⟩ := typed_as_filed config lines .initial hread
    (.inl Hosted.reservesReading)
  obtain ⟨after', htyped⟩ := hends.mp ⟨_, _, hinner⟩
  obtain ⟨last, hfiled, hout, -⟩ := hroomier _ _ sealed_isExpression (fun _ => readable_isExpression)
    steady_isExpression (fun _ => rfl) initial_isExpression hdeep _ _ hinner
  exact ⟨hread, Hosted.reservesReading, _, _, after', last, htyped, hinner, hfiled, rfl, hout,
    (hboth _ _ _ hinner htyped).1⟩

/-- A program whose operations take a text for one expression in which there is none. -/
abbrev Host.misreading : Host := ⟨fun _ _ _ => throw (.unreadable (.malformed (.notOne 0)))⟩

/-- With the default recursion limit, 992 quotes are printed if they stand in a file, and not if
they are typed. And an operation that halts as if a text could not be read leaves nothing of a
file but the error, of typed lines also what the others print. -/
theorem typed_not_as_filed :
    (let config : Shell.Config := ⟨Room.ofLimit Room.defaultLimit, .warning⟩
      let line := quotedText "nil" 993
      '\n' ∉ line.toList ∧ Source.readAll line = .ok [Value.nil.quoted 993] ∧
      (∃ log, Shell.runSource config ("\n".intercalate [line]) .initial =
        .ok true ⟨.initial, quotedText "nil" 992 ++ "\n", log⟩) ∧
      ∃ log, Shell.runLines config [line] .initial =
        .ok () ⟨.initial, "sx> error: expression nested too deeply\nsx> \n", log⟩) ∧
    let config : Shell.Config := ⟨100, .warning⟩
    let lines := ["nil", "(f)"]
    let session := Session.initial.put "f" (.prim ⟨"f", 0, .hosted (.custom "f")⟩)
    (∀ line ∈ lines, '\n' ∉ line.toList ∧ ∃ forms, Source.readAll line = .ok forms) ∧
    (∃ log, @Shell.runSource .misreading config ("\n".intercalate lines) ⟨session, "", ""⟩ =
      .ok false ⟨session, "error: Expected exactly one expression, found 0\n", log⟩) ∧
    ∃ log, @Shell.runLines .misreading config lines ⟨session, "", ""⟩ = .ok ()
      ⟨session, "sx> nil\nsx> error: Expected exactly one expression, found 0\nsx> \n", log⟩ := by
  constructor
  · intro config line
    have heval (room : Nat) : evalAll room line .initial =
        .ok [.value (Value.nil.quoted 992)] .initial := evalAll_quotedText room 992 .initial
    refine ⟨newline_not_mem_quotedText (by decide) 993, readAll_quotedText 993, ?_, ?_⟩
    · have hrender : (Value.nil.quoted 992).render config.printRoom = .ok (quotedText "nil" 992) :=
        render_quoted .nil 0 992
      have hshows : Shell.Shows config .initial line [quotedText "nil" 992] true .initial :=
        .reported (heval _) (.cons (.value hrender) .nil)
      obtain ⟨log, hrun⟩ := hshows.runSource_eq "" ""
      refine ⟨log, ?_⟩
      rw [String.intercalate_singleton]
      simpa [String.join_cons, Console.initial] using hrun
    · have hrender : (Value.nil.quoted 992).render config.forLine.printRoom = .error .tooDeep :=
        render_quoted_tooDeep .nil (by decide)
      have hprints : Shell.PrintsEach config.forLine .initial [line]
          ["error: expression nested too deeply\n"] .initial :=
        .cons (heval _) (.cons (.tooDeep hrender) .nil) .nil
      exact hprints.runLines_eq "" ""
  · intro config lines session
    let _ : Host := .misreading
    have hjoined : Source.readAll ("\n".intercalate lines) = .ok [.nil, .list [.sym "f"]] := by
      rw [Source.readAll_eq]
      unfold lines
      rfl
    have hrefused : evalAll config.room ("\n".intercalate lines) session =
        .error (.unreadable (.malformed (.notOne 0))) session := by
      rw [evalAll, hjoined]
      rfl
    have hfirst : Source.readAll "nil" = .ok [.nil] := Source.readAll_eq _
    have hsecond : Source.readAll "(f)" = .ok [.list [.sym "f"]] := Source.readAll_eq _
    have hnil : evalAll config.forLine.room "nil" session = .ok [.value .nil] session :=
      (evalAll_eq_ok_iff hfirst).mpr (.cons (.value rfl) .nil)
    have hcall : evalAll config.forLine.room "(f)" session =
        .error (.unreadable (.malformed (.notOne 0))) session := by
      rw [evalAll, hsecond]
      rfl
    refine ⟨?_, ?_, ?_⟩
    · exact List.forall_mem_cons.mpr ⟨⟨by decide, _, hfirst⟩,
        List.forall_mem_singleton.mpr ⟨by decide, _, hsecond⟩⟩
    · exact (Shell.Shows.refused hrefused).runSource_eq "" ""
    · have hvalue : Shell.ReportsEach config.forLine [.value .nil] ["nil"] true :=
        .cons (.value rfl) .nil
      obtain ⟨log, hone⟩ := (Shell.Shows.reported hnil hvalue).runLines_cons ["(f)"] "" ""
      obtain ⟨log', hother⟩ := (Shell.Shows.refused hcall).runLines_cons [] "sx> nil\n" log
      exact ⟨log', hone.trans hother⟩

end Sexpr
