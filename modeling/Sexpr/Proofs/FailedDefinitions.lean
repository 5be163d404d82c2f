import Sexpr.Proofs.Defining
import Sexpr.Session

/-!
# Definitions that fail

A definition is refused for its arguments or for what is bound already, before anything is
evaluated, or else it fails because its body does. Main statement: in the first case the
session is as it was, in the second it is what the body leaves, so that a definition which
fails adds nothing of its own. In a chain of definitions, each the body of the one before,
none of the names is bound if the innermost body fails or there is too little room for it.
-/
namespace Sexpr

/-! ## Single definitions -/

/-- A definition with these arguments is refused. The checks are made in this order: their
number, whether the first is a symbol, whether it is bound. -/
inductive Session.Refuses (session : Session) : List Value → Failure → Prop where
  | tooFew {args} : args.length < SpecialForm.define.arity →
      Refuses session args (.specialTooFewArgs (.sym "def"))
  | tooMany {args} : SpecialForm.define.arity < args.length →
      Refuses session args (.specialTooManyArgs (.sym "def"))
  | badTarget {target body} : (∀ name, target ≠ .sym name) →
      Refuses session [target, body] (.defineBadSymbol target)
  | bound {name body} : session.bindings.contains name = true →
      Refuses session [.sym name, body] (.redefine (.sym name))

/-- The arguments are refused, or they are a name that is not bound and a body. -/
theorem Session.refuses_or_defines (session : Session) (args : List Value) :
    (∃ failure, session.Refuses args failure) ∨
      ∃ name body, args = [.sym name, body] ∧ session.bindings.contains name = false := by
  rcases Nat.lt_trichotomy args.length SpecialForm.define.arity with hfew | hlength | hmany
  · exact .inl ⟨_, .tooFew hfew⟩
  · obtain ⟨target, body, rfl⟩ : ∃ target body, args = [target, body] :=
      match args, hlength with
      | [target, body], _ => ⟨target, body, rfl⟩
    rcases Value.sym_or_not target with ⟨name, rfl⟩ | htarget
    · cases hbound : session.bindings.contains name with
      | true => exact .inl ⟨_, .bound hbound⟩
      | false => exact .inr ⟨name, body, rfl, hbound⟩
    · exact .inl ⟨_, .badTarget htarget⟩
  · exact .inl ⟨_, .tooMany hmany⟩

theorem Session.not_refuses_iff {session : Session} {name : String} {body : Value} :
    (∀ failure, ¬session.Refuses [.sym name, body] failure) ↔
      session.bindings.contains name = false := by
  constructor
  · intro h
    exact eq_false_of_ne_true fun hbound => h _ (.bound hbound)
  · intro hbound failure h
    cases h with
    | tooFew hfew => exact Nat.lt_irrefl _ hfew
    | tooMany hmany => exact Nat.lt_irrefl _ hmany
    | badTarget htarget => exact htarget name rfl
    | bound hname => simp [hbound] at hname

/-- How a definition with these arguments fails, and what it leaves. -/
inductive FailsToDefine [Host] (room : Nat) (session : Session) :
    List Value → Halt → Session → Prop where
  | tooDeep {args} : Room.enter Room.evaluateForm room = none →
      FailsToDefine room session args .tooDeep session
  | refused {inner args failure} : Room.enter Room.evaluateForm room = some inner →
      session.Refuses args failure → FailsToDefine room session args (.failure failure) session
  | body {inner name body reason after} : Room.enter Room.evaluateForm room = some inner →
      session.bindings.contains name = false →
      evaluate inner body session = .error reason after →
      FailsToDefine room session [.sym name, body] reason after

section
variable [Host] {room inner : Nat} {session after : Session} {args : List Value} {reason : Halt}

theorem evaluate_refused {failure : Failure} (hroom : Room.enter Room.evaluateForm room = some inner)
    (h : session.Refuses args failure) :
    evaluate room (.list (.sym "def" :: args)) session = .error (.failure failure) session := by
  have hname : SpecialForm.ofName? "def" = some .define := rfl
  cases h with
  | tooFew hfew =>
    rw [evaluate_misuse session hroom hname (Nat.ne_of_lt hfew), SpecialForm.arityFailure, if_pos hfew]
  | tooMany hmany =>
    rw [evaluate_misuse session hroom hname (Nat.ne_of_gt hmany), SpecialForm.arityFailure,
      if_neg (Nat.lt_asymm hmany)]
  | badTarget htarget => exact evaluate_badTarget session hroom hname htarget
  | bound hbound => exact (evaluate_definition session hroom).trans (if_pos hbound)

theorem evaluate_unbound_error_iff {name : String} {body : Value}
    (hroom : Room.enter Room.evaluateForm room = some inner)
    (hbound : session.bindings.contains name = false) :
    evaluate room (.definition name body) session = .error reason after ↔
      evaluate inner body session = .error reason after := by
  rw [evaluate_definition session hroom, if_neg (by simp [hbound])]
  cases evaluate inner body session <;> simp

/-- A definition fails in one of three ways. -/
theorem evaluate_define_error_iff :
    evaluate room (.list (.sym "def" :: args)) session = .error reason after ↔
      FailsToDefine room session args reason after := by
  constructor
  · intro h
    cases hroom : Room.enter Room.evaluateForm room with
    | none =>
      rw [evaluate_tooDeep session hroom] at h
      cases h
      exact .tooDeep hroom
    | some inner =>
      rcases session.refuses_or_defines args with ⟨failure, hrefuses⟩ | ⟨name, body, rfl, hbound⟩
      · rw [evaluate_refused hroom hrefuses] at h
        cases h
        exact .refused hroom hrefuses
      · exact .body hroom hbound ((evaluate_unbound_error_iff hroom hbound).mp h)
  · intro h
    cases h with
    | tooDeep hroom => exact evaluate_tooDeep session hroom
    | refused hroom hrefuses => exact evaluate_refused hroom hrefuses
    | body hroom hbound hbody => exact (evaluate_unbound_error_iff hroom hbound).mpr hbody

/-- A definition comes to evaluate its body, and nothing else, exactly if it is not refused. -/
theorem Moment.enters_definition_iff {next : Moment} :
    Enters ⟨room, .list (.sym "def" :: args), session⟩ next ↔
      ∃ inner name body, Room.enter Room.evaluateForm room = some inner ∧
        (∀ failure, ¬session.Refuses args failure) ∧ args = [.sym name, body] ∧
        next = ⟨inner, body, session⟩ := by
  constructor
  · intro h
    generalize hexpr : Value.list (.sym "def" :: args) = expr at h
    cases h with
    | body hroom hbound =>
      cases hexpr
      exact ⟨_, _, _, hroom, Session.not_refuses_iff.mpr hbound, rfl, rfl⟩
    -- The other moments that enter one are a choice, and a call whose head is no special form.
    | condition | branch => simp [Value.choice] at hexpr
    | argument _ hname =>
      cases hexpr
      cases hname
  · rintro ⟨inner, name, body, hroom, hrefuses, rfl, rfl⟩
    exact .body hroom (Session.not_refuses_iff.mp hrefuses)

end

/-! ## Chains -/

/-- Definitions of the names, each the body of the one before, and this body in the last. -/
def Value.chain (names : List String) (body : Value) : Value := names.foldr definition body

section
variable [Host] {session after : Session} {names : List String} {body : Value} {reason : Halt}

theorem evaluate_chain_tooDeep {room : Nat} (hroom : room < names.length * Room.evaluateForm)
    (hnames : ∀ name ∈ names, session.bindings.contains name = false) :
    evaluate room (.chain names body) session = .error .tooDeep session := by
  -- The first definition that cannot be entered makes all those around it fail.
  induction names generalizing room with
  | nil => simp at hroom
  | cons name names ih =>
    rw [List.forall_mem_cons] at hnames
    change evaluate room (.definition name (.chain names body)) session = _
    rcases Nat.lt_or_ge room Room.evaluateForm with hlow | hhigh
    · exact evaluate_tooDeep session (Room.enter_eq_none_iff.mpr hlow)
    · obtain ⟨inner, rfl⟩ := Nat.exists_eq_add_of_le hhigh
      rw [List.length_cons, Nat.succ_mul] at hroom
      rw [evaluate_unbound_error_iff (Room.enter_eq_some_iff.mpr rfl) hnames.1]
      exact ih (by omega) hnames.2

/-- Where there is room for it, a chain of names that are not bound fails as its innermost
body does in the room that is left. -/
theorem evaluate_chain_error_iff {inner : Nat}
    (hnames : ∀ name ∈ names, session.bindings.contains name = false) :
    evaluate (names.length * Room.evaluateForm + inner) (.chain names body) session =
        .error reason after ↔
      evaluate inner body session = .error reason after := by
  induction names with
  | nil => simp [Value.chain]
  | cons name names ih =>
    rw [List.forall_mem_cons] at hnames
    change evaluate _ (.definition name (.chain names body)) session = _ ↔ _
    have hroom : Room.enter Room.evaluateForm ((name :: names).length * Room.evaluateForm + inner) =
        some (names.length * Room.evaluateForm + inner) := by
      rw [Room.enter_eq_some_iff, List.length_cons, Nat.succ_mul]
      omega
    rw [evaluate_unbound_error_iff hroom hnames.1, ih hnames.2]

/-- An evaluation leaves a name unbound if it makes no definition of it. -/
theorem contains_exec_of_not_defines {room : Nat} {name : String}
    (hname : session.bindings.contains name = false)
    (hbody : ∀ target value done, Moment.Reaches ⟨room, body, session⟩ target →
      ¬target.Defines name value done) :
    ((evaluate room body).exec session).bindings.contains name = false := by
  cases hbound : ((evaluate room body).exec session).bindings.contains name with
  | false => rfl
  | true =>
    rw [bindings_exec, Bindings.contains_defineEach] at hbound
    rcases hbound with hbefore | hmade
    · simp [hname] at hbefore
    · obtain ⟨⟨_, value⟩, hentry, rfl⟩ := List.mem_map.mp hmade
      obtain ⟨target, done, hreach, hdefines⟩ := Moment.exists_defines hentry
      exact (hbody target value done hreach hdefines).elim

end

/-- A definition that fails adds nothing of its own. For any arguments it fails in one of three
ways: it is too deep or it is refused, which leaves the session as it was, or its name is not
bound and it ends exactly as its body does in the room inside it. It comes to evaluate anything
only if it is not refused, and then its body. A chain of definitions of unbound names fails
exactly if it is too deep or its innermost body fails, and then no name of the chain is bound,
unless the innermost body has itself made a definition of it. -/
theorem failed_definitions_add_nothing [Host] (session : Session) :
    (∀ room args reason after,
      evaluate room (.list (.sym "def" :: args)) session = .error reason after ↔
        FailsToDefine room session args reason after) ∧
    (∀ room args next, Moment.Enters ⟨room, .list (.sym "def" :: args), session⟩ next ↔
      ∃ inner name body, Room.enter Room.evaluateForm room = some inner ∧
        (∀ failure, ¬session.Refuses args failure) ∧ args = [.sym name, body] ∧
        next = ⟨inner, body, session⟩) ∧
    ∀ names body, (∀ name ∈ names, session.bindings.contains name = false) →
      (∀ room, room < names.length * Room.evaluateForm →
        evaluate room (.chain names body) session = .error .tooDeep session) ∧
      ∀ inner reason after,
        let chained := evaluate (names.length * Room.evaluateForm + inner) (.chain names body) session
        (chained = .error reason after ↔ evaluate inner body session = .error reason after) ∧
        (chained = .error reason after → ∀ name ∈ names,
          (∀ target value done, Moment.Reaches ⟨inner, body, session⟩ target →
            ¬target.Defines name value done) →
          after.bindings.contains name = false) := by
  refine ⟨fun _ _ _ _ => evaluate_define_error_iff, fun _ _ _ => Moment.enters_definition_iff, ?_⟩
  intro names body hnames
  refine ⟨fun room hroom => evaluate_chain_tooDeep hroom hnames, fun inner reason after => ?_⟩
  have hchain : evaluate (names.length * Room.evaluateForm + inner) (.chain names body) session =
      .error reason after ↔ evaluate inner body session = .error reason after :=
    evaluate_chain_error_iff hnames
  refine ⟨hchain, fun herror name hname hbody => ?_⟩
  have hunbound := contains_exec_of_not_defines (hnames name hname) hbody
  rwa [EStateM.exec_error (hchain.mp herror)] at hunbound

/-- The innermost body defines `c` before it fails: `c` stays, `a` and `b` are not bound. -/
theorem failed_definitions_add_nothing_sample :
    let body := Value.list [.sym "list", .definition "c" (.int 1), .sym "d"]
    ∃ after, evaluate 100 (.chain ["a", "b"] body) .initial =
        .error (.failure (.undefined (.sym "d"))) after ∧
      after.bindings.contains "a" = false ∧ after.bindings.contains "b" = false ∧
      after.bindings.contains "c" = true := by
  intro body
  have hfails : evaluate 94 body .initial = .error (.failure (.undefined (.sym "d")))
      (Session.initial.put "c" (.int 1)) := rfl
  have hmade : Moment.made ⟨94, body, .initial⟩ = [("c", .int 1)] := rfl
  have hother (name : String) (hname : name ≠ "c") (target : Moment) (value : Value)
      (done : Session) (hreach : Moment.Reaches ⟨94, body, .initial⟩ target) :
      ¬target.Defines name value done := by
    intro hdefines
    have hmem := Moment.mem_made_iff.mpr ⟨target, done, hreach, hdefines⟩
    rw [hmade, List.mem_singleton] at hmem
    exact hname (congrArg Prod.fst hmem)
  obtain ⟨-, hchain⟩ :=
    (failed_definitions_add_nothing Session.initial).2.2 ["a", "b"] body (by decide)
  obtain ⟨herror, hnames⟩ := hchain 94 _ _
  have hchained := herror.mpr hfails
  exact ⟨_, hchained, hnames hchained "a" (by decide) (hother "a" (by decide)),
    hnames hchained "b" (by decide) (hother "b" (by decide)), rfl⟩

end Sexpr
