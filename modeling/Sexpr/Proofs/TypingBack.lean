import Sexpr.Proofs.Agreement
import Sexpr.Proofs.Wording

/-!
# Typing back what is printed

Whatever texts a session has been given, the values that it holds and those that it returns
are built from what the reader produces and from the built-in primitives. Main statement:
unless it holds a primitive, such a value is printed on one line, is read back from that
line, and is the value of that line after a quote, in any session.
-/
namespace Sexpr

/-! ## Values without primitives -/

theorem Value.readable_of_spoken {value : Value} (h : value.Every Spoken)
    (hprimitive : value.Every fun leaf => ∀ primitive, leaf ≠ .prim primitive) :
    value.Readable := by
  refine (h.and hprimitive).imp ?_
  rintro leaf ⟨hspoken, hother⟩
  cases leaf with
  | prim primitive => exact (hother primitive rfl).elim
  | foreign => exact hspoken.elim
  | sym name => exact hspoken
  | nil | bool | int | str | list | quote => trivial

/-! ## What commands return -/

/-- The command, given to the session, returns the value or prints it. -/
inductive Command.Returns [Host] (session : Session) : Command → Value → Prop where
  | eval {room source value last} : Sexpr.eval room source session = .ok value last →
      Returns session (.eval room source) value
  | evalAll {room source outcomes last value} :
      Sexpr.evalAll room source session = .ok outcomes last → .value value ∈ outcomes →
      Returns session (.evalAll room source) value
  | runSource {config source forms value} : Source.readAll source = .ok forms →
      .value value ∈ (attemptEach config.room forms session).1.outcomes →
      Returns session (.runSource config source) value

section
variable [Host] {p : Value → Prop} {room : Nat} {session : Session} {forms : List Value}

theorem evaluateForms_ends (hp : Closed p) {value : Value} (hvalue : value.Every p)
    (hforms : ∀ form ∈ forms, form.Every p) (hsession : session.Every p) :
    Ends p (Value.Every p) (evaluateForms room value forms session) := by
  induction forms generalizing value session with
  | nil => exact ⟨hvalue, hsession⟩
  | cons form rest ih =>
    rw [List.forall_mem_cons] at hforms
    have hends := evaluate_ends hp room form hforms.1 session hsession
    rw [evaluateForms, EStateM.bind_apply]
    cases hresult : evaluate room form session with
    | ok result after =>
      rw [hresult] at hends
      exact ih hends.1 hforms.2 hends.2
    | error reason after =>
      rw [hresult] at hends
      exact hends

/-- The values among the outcomes of forms are built from known leaves, also if the
attempts do not come to their end. -/
theorem every_of_attemptEach (hp : Closed p) (hforms : ∀ form ∈ forms, form.Every p)
    (hsession : session.Every p) {value : Value}
    (h : .value value ∈ (attemptEach room forms session).1.outcomes) : value.Every p := by
  induction forms generalizing session with
  | nil => cases h
  | cons form rest ih =>
    rw [List.forall_mem_cons] at hforms
    rw [attemptEach] at h
    cases hform : attempt room form session with
    | error reason after => simp [hform] at h
    | ok outcome after =>
      simp only [hform, List.mem_cons] at h
      obtain ⟨hvalue, hafter⟩ := (attempt_eq_ok_iff.mp hform).every hp hforms.1 hsession
      rcases h with heq | hrest
      · exact hvalue value heq.symm
      · exact ih hforms.2 hafter hrest

theorem Command.Returns.every {command : Command} {value : Value} (hp : Closed p)
    (hread : ∀ value : Value, value.Readable → value.Every p) (hsession : session.Every p)
    (h : command.Returns session value) : value.Every p := by
  have hforms {source : String} {forms : List Value} (h : Source.readAll source = .ok forms) :
      ∀ form ∈ forms, form.Every p :=
    fun form hform => hread form (Source.readable_of_readAll h form hform)
  cases h with
  | @eval room source _ last hresult =>
    -- The forms that are read are evaluated before it shows whether the source can be read.
    have hends := @evaluateForms_ends _ p (room + Room.attempt) session
      (Source.reading source).values hp .nil hp.nil
      (fun form hform => hread form (Source.readable_of_reading source form hform)) hsession
    rw [eval_apply] at hresult
    cases hvalue : evaluateForms (room + Room.attempt) .nil (Source.reading source).values
        session with
    | error reason after => simp [hvalue] at hresult
    | ok result after =>
      rw [hvalue] at hends
      simp only [hvalue] at hresult
      split at hresult
      · cases hresult
        exact hends.1
      · cases hresult
  | evalAll hresult hmem =>
    obtain ⟨forms, hall⟩ := readAll_of_evalAll hresult
    rw [evalAll_eq_ok_iff hall, ← attemptEach_eq_iff] at hresult
    exact every_of_attemptEach hp (hforms hall) hsession (by rwa [hresult])
  | runSource hall hmem => exact every_of_attemptEach hp (hforms hall) hsession hmem

end

/-! ## Typing back -/

/-- Evaluating the written form of a value after a quote has that value. -/
theorem eval_quoted [Host] {value : Value} {room : Nat} {text : String} (hvalue : value.Readable)
    (h : value.render room = .ok text) (room' : Nat) (session : Session) :
    eval room' ("'" ++ text) session = .ok value session := by
  have hreading := Source.readAll_eq_ok_iff.mp (readAll_quoted hvalue h)
  rw [eval_apply, hreading.1, hreading.2]
  rfl

/-- A session that has been given any texts, from the start with the built-in primitives.
The values that it holds, and those that a command would return, have leaves that come from
the reader or are built-in primitives; names of symbols are those that are read as such.
If there is no primitive in such a value and it has a written form, then that stands on one
line, it is read as the value, and after a quote it evaluates to the value in any session,
which it leaves as it is. -/
theorem printed_types_back [Host] (history : List Command) :
    let session := History.exec .initial history
    session.Every Spoken ∧
    (∀ (command : Command) value, command.Returns session value → value.Every Spoken) ∧
    (∀ name, Spoken (.sym name) ↔ Source.read name = .ok (.sym name)) ∧
    ∀ value : Value, ((∃ name, session.bindings.get? name = some value) ∨
        ∃ command : Command, command.Returns session value) →
      (value.Every fun leaf => ∀ primitive, leaf ≠ .prim primitive) →
      ∀ room text, value.render room = .ok text →
        OneLine text ∧ Source.read text = .ok value ∧
        ∀ (room' : Nat) (session' : Session),
          eval room' ("'" ++ text) session' = .ok value session' := by
  intro session
  have hsession : session.Every Spoken := History.every_spoken history
  have hreturns : ∀ command value, Command.Returns session command value → value.Every Spoken :=
    fun command value h => h.every spoken_closed (fun _ hvalue => hvalue.spoken) hsession
  refine ⟨hsession, hreturns, fun name => isName_iff_read, ?_⟩
  intro value hfrom hprimitive room text htext
  have hspoken : value.Every Spoken := by
    rcases hfrom with ⟨name, hname⟩ | ⟨command, hcommand⟩
    · exact hsession name value hname
    · exact hreturns command value hcommand
  have hvalue := Value.readable_of_spoken hspoken hprimitive
  exact ⟨Value.render_oneLine hspoken htext, Source.read_of_readAll (readAll_of_render hvalue htext),
    eval_quoted hvalue htext⟩

/-- A list with a string that holds a line feed. -/
theorem printed_types_back_sample :
    let value := Value.list [.sym "a", .str "\n"]
    (History.exec .initial [.evalAll 100 "(def x '(a \"\n\"))"]).bindings.get? "x" = some value ∧
      OneLine "(a \"\\n\")" ∧ Source.read "(a \"\\n\")" = .ok value ∧
      eval 0 "'(a \"\\n\")" .empty = .ok value .empty := by
  intro value
  have hread : Source.readAll "(def x '(a \"\n\"))" = .ok [.definition "x" (.quote value)] :=
    Source.readAll_eq _
  have hbound : (History.exec .initial [.evalAll 100 "(def x '(a \"\n\"))"]).bindings.get? "x" =
      some value := by
    rw [History.exec, List.foldl_cons, Command.exec, EStateM.exec, evalAll_of_readAll hread]
    rfl
  have hprimitive : value.Every fun leaf => ∀ primitive, leaf ≠ .prim primitive := by simp [value]
  have hwritten : value.render 10 = .ok "(a \"\\n\")" := rfl
  obtain ⟨-, -, -, hback⟩ := printed_types_back [.evalAll 100 "(def x '(a \"\n\"))"]
  obtain ⟨hline, hread, heval⟩ := hback value (.inl ⟨"x", hbound⟩) hprimitive 10 _ hwritten
  exact ⟨hbound, hline, hread, heval 0 .empty⟩

end Sexpr
