import Sexpr.Proofs.Histories

/-!
# Bindings only grow

However an evaluation ends, the bindings that it leaves extend those that it meets, and
the names that are new are targets of definitions in evaluated positions. If it succeeds
without a choice, the new names are all of these targets. Growth carries over to any
history of commands on any texts.
-/
namespace Sexpr

/-! ## Extensions -/

/-- What is bound in `before` is bound to the same value in `after`, and the names of
`before` come first and in their order. -/
structure Bindings.Extends (after before : Bindings) : Prop where
  get? : ∀ name value, before.get? name = some value → after.get? name = some value
  names : before.names <+: after.names

namespace Bindings.Extends

theorem refl (bindings : Bindings) : bindings.Extends bindings :=
  ⟨fun _ _ h => h, List.prefix_refl _⟩

theorem trans {first second third : Bindings} (h : third.Extends second)
    (h' : second.Extends first) : third.Extends first where
  get? name value hname := h.get? name value (h'.get? name value hname)
  names := h'.names.trans h.names

/-- Binding names that are not bound extends the bindings. -/
theorem of_defineEach {bindings : Bindings} {made : List (String × Value)}
    (hnew : ∀ entry ∈ made, bindings.contains entry.1 = false) :
    (bindings.defineEach made).Extends bindings where
  get? := by
    intro name value hname
    have hmem : name ∉ made.map Prod.fst := by
      intro hmem
      obtain ⟨entry, hentry, rfl⟩ := List.mem_map.mp hmem
      have hunbound := hnew entry hentry
      simp [contains, hname] at hunbound
    rw [get?_defineEach_of_not_mem hmem, hname]
  names := names_prefix_defineEach

end Bindings.Extends

/-! ## Evaluations -/

section
variable [Host] {room : Nat} {expr : Value} {session last : Session} {name : String}

theorem exec_extends (room : Nat) (expr : Value) (session : Session) :
    ((evaluate room expr).exec session).bindings.Extends session.bindings := by
  rw [bindings_exec]
  exact .of_defineEach fun entry hentry => contains_of_mem_definitions hentry

theorem evaluateEach_extends {args values : List Value} {after : Session}
    (h : evaluateEach room args session = .ok values after) :
    after.bindings.Extends session.bindings := by
  rw [bindings_okEach h]
  exact .of_defineEach fun entry hentry => contains_of_mem_definitionsEach hentry

/-- The names that are new are those for which a definition has come to its end. -/
theorem new_name_iff :
    (name ∈ ((evaluate room expr).exec session).bindings.names ∧ name ∉ session.bindings.names) ↔
      name ∈ (definitions room expr session).map Prod.fst := by
  rw [← Bindings.contains_iff, ← Bindings.contains_iff, bindings_exec,
    Bindings.contains_defineEach]
  constructor
  · rintro ⟨hbound | hmade, hnew⟩
    · exact (hnew hbound).elim
    · exact hmade
  · intro hmade
    obtain ⟨entry, hentry, rfl⟩ := List.mem_map.mp hmade
    exact ⟨.inr hmade, by simp [contains_of_mem_definitions hentry]⟩

theorem within_of_new_name (h : name ∈ (definitions room expr session).map Prod.fst) :
    ∃ body, Within (.definition name body) expr := by
  obtain ⟨⟨_, value⟩, hentry, rfl⟩ := List.mem_map.mp h
  exact within_of_mem_definitions hentry

/-- A definition that succeeds has bound its name. -/
theorem mem_definitions_of_ok {inner : Nat} {body value : Value} {middle after : Session}
    (h : evaluate inner (.definition name body) middle = .ok value after) :
    name ∈ (definitions inner (.definition name body) middle).map Prod.fst := by
  obtain ⟨room, result, between, hroom, hbound, hbody, -, -⟩ :=
    evaluate_definition_eq_ok_iff.mp h
  simp [definitions_defined hroom hbound hbody]

/-- Without choices, success has made every definition. -/
theorem new_name_of_within {value body : Value} {after : Session}
    (h : evaluate room expr session = .ok value after)
    (hchoice : ∀ c t a, ¬Within (.choice c t a) expr) (hbody : Within (.definition name body) expr) :
    name ∈ (definitions room expr session).map Prod.fst := by
  obtain ⟨target, result, done, hreach, htarget, hok⟩ := Moment.reaches_within hbody h hchoice
  obtain ⟨inner, _, middle⟩ := target
  cases htarget
  have hname : name ∈ (Moment.made ⟨inner, .definition name body, middle⟩).map Prod.fst :=
    mem_definitions_of_ok hok
  exact (hreach.made_sublist.map Prod.fst).subset hname

/-! ## Histories -/

theorem Leads.extends {moments : List Moment} (h : Leads session moments last) :
    last.bindings.Extends session.bindings := by
  induction h with
  | nil => exact .refl _
  | cons _ ih => exact ih.trans (exec_extends _ _ _)

end

/-- However an evaluation ends, it leaves what was bound as it was and adds only targets
of definitions in evaluated positions; all of them if it succeeds and makes no choice. A
history of commands leaves what was bound as it was, too. -/
theorem bindings_only_grow [Host] (room : Nat) (expr : Value) (session : Session) :
    let after := ((evaluate room expr).exec session).bindings
    after.Extends session.bindings ∧
    (∀ name, name ∈ after.names → name ∉ session.bindings.names →
      ∃ body, Within (.definition name body) expr) ∧
    ((∃ value done, evaluate room expr session = .ok value done) →
      (∀ c t a, ¬Within (.choice c t a) expr) →
      ∀ name, (name ∈ after.names ∧ name ∉ session.bindings.names) ↔
        ∃ body, Within (.definition name body) expr) ∧
    ∀ history, (History.exec session history).bindings.Extends session.bindings := by
  refine ⟨exec_extends room expr session, ?_, ?_, fun history => (History.leads session history).extends⟩
  · intro name hbound hnew
    exact within_of_new_name (new_name_iff.mp ⟨hbound, hnew⟩)
  · rintro ⟨value, done, hok⟩ hchoice name
    rw [new_name_iff]
    constructor
    · exact within_of_new_name
    · rintro ⟨body, hbody⟩
      exact new_name_of_within hok hchoice hbody

/-- The second definition of a form without choices is reached, and its name is new. -/
theorem bindings_only_grow_sample :
    let expr := Value.list [.sym "list", .definition "a" (.int 1), .definition "b" (.sym "a")]
    "b" ∈ ((evaluate 100 expr).exec .initial).bindings.names ∧
      "b" ∉ Session.initial.bindings.names := by
  refine ((bindings_only_grow 100 _ .initial).2.2.1 ⟨_, _, rfl⟩ ?_ "b").mpr
    ⟨.sym "a", .argument rfl (by simp) .self⟩
  intro c t a h
  rcases (within_application_iff rfl).mp h with heq | ⟨arg, harg, h⟩
  · simp [Value.choice] at heq
  · simp only [List.mem_cons, List.not_mem_nil, or_false] at harg
    rcases harg with rfl | rfl
    · rcases within_definition_iff.mp h with heq | h
      · simp [Value.choice, Value.definition] at heq
      · cases h
    · rcases within_definition_iff.mp h with heq | h
      · simp [Value.choice, Value.definition] at heq
      · cases h

end Sexpr
