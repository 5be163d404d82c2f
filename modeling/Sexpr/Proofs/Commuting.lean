import Sexpr.Proofs.Attempts
import Sexpr.Proofs.Dependence

/-!
# Forms that do not depend on each other

What a form writes are the targets of its definitions, and what it reads are its free
names, to which these targets belong. Main statement: two forms of which neither has a
target that is free in the other come to the same in either order and leave the same
bindings, however they end. The operations that they call must leave the journal alone,
since that is read and written besides the bindings.
-/
namespace Sexpr

/-- The second form neither looks up nor binds a name that the first one may bind. -/
def Unaffected (first second : Value) : Prop :=
  ∀ name body, Within (.definition name body) first → name ∉ second.free

theorem unaffected_of_disjoint {first second : Value} (h : ∀ name ∈ first.free, name ∉ second.free) :
    Unaffected first second :=
  fun name _ hwithin => h name hwithin.target_mem_free

/-! ## Silence -/

/-- A session and itself, with leaves that satisfy `p` and a journal that stays as it is. -/
def stillness (p : Value → Prop) (journal : Journal) : Comparison where
  leaf := p
  bindings := Eq
  journals first second := first = journal ∧ second = journal
  roomier := False

section
variable [Host] {p : Value → Prop} {room : Nat} {session : Session}

theorem stillness_sound (hp : Sealed p) (hsilent : Silent p) (journal : Journal) :
    (stillness p journal).Sound where
  nil := hp.nil
  bool := hp.bool
  int := hp.int
  define := by
    rintro _ _ name value rfl
    rfl
  hosted := by
    intro operation args room room' before before' hcall hrooms hbefore
    obtain ⟨hbefore, hbefore'⟩ := hbefore
    subst hbefore hbefore'
    rcases hrooms with rfl | ⟨hroomier, -⟩
    · have hkeeps := hsilent operation args room hcall before'
      exact .of_agree (fun answer hanswer => hp.hosted _ _ _ _ _ hcall hanswer) ⟨rfl, hkeeps, hkeeps⟩
    · cases hroomier

/-- Evaluation leaves the journal as it is if all operations that may be called do. -/
theorem journal_exec (hp : Sealed p) (hsilent : Silent p) {expr : Value} (hexpr : expr.Every p)
    (hsession : session.Every p) : ((evaluate room expr).exec session).journal = session.journal := by
  -- The run is compared with itself: that it stays alike is the invariant.
  have halike : (stillness p session.journal).Alike session session := ⟨hsession, rfl, rfl, rfl⟩
  have hfollows : Follows False (Value.Every p) (stillness p session.journal).Alike
      (evaluate room expr session) (evaluate room expr session) :=
    Comparison.evaluate_follows (stillness_sound hp hsilent _) (.inl rfl) hexpr
      (fun _ _ _ _ h => h ▸ rfl) halike
  exact (hfollows.agree nofun).2.journals.1

/-! ## One form after another -/

variable {first second : Value}

/-- A form that is not affected comes to the same after the other as before it. -/
theorem evaluate_unaffected (h : Unaffected first second)
    (hjournal : ((evaluate room first).exec session).journal = session.journal) :
    let after := (evaluate room first).exec session
    (evaluate room second).outcome after = (evaluate room second).outcome session ∧
      ((evaluate room second).exec after).journal = ((evaluate room second).exec session).journal ∧
      Bindings.AgreeOn (· ∈ second.free) ((evaluate room second).exec after).bindings
        ((evaluate room second).exec session).bindings := by
  refine evaluate_congr (fun _ hname => hname) ?_ hjournal
  intro name hname
  exact get?_exec_of_not_target fun body hwithin => h name body hwithin hname

/-- In either order, the forms leave the same bindings. -/
theorem get?_exec_comm (h : Unaffected first second) (h' : Unaffected second first)
    (hjournal : ((evaluate room first).exec session).journal = session.journal)
    (hjournal' : ((evaluate room second).exec session).journal = session.journal) (name : String) :
    ((evaluate room second).exec ((evaluate room first).exec session)).bindings.get? name =
      ((evaluate room first).exec ((evaluate room second).exec session)).bindings.get? name := by
  have hsecond := (evaluate_unaffected h hjournal).2.2
  have hfirst := (evaluate_unaffected h' hjournal').2.2
  -- The name is a target of the first form, of the second one, or of none.
  by_cases htarget : ∃ body, Within (.definition name body) first
  · obtain ⟨body, hwithin⟩ := htarget
    rw [get?_exec_of_not_mem_free (h name body hwithin), hfirst name hwithin.target_mem_free]
  · by_cases htarget' : ∃ body, Within (.definition name body) second
    · obtain ⟨body, hwithin⟩ := htarget'
      rw [get?_exec_of_not_mem_free (h' name body hwithin), hsecond name hwithin.target_mem_free]
    · simp only [not_exists] at htarget htarget'
      rw [get?_exec_of_not_target htarget', get?_exec_of_not_target htarget,
        get?_exec_of_not_target htarget, get?_exec_of_not_target htarget']

/-! ## Attempts -/

theorem exec_attempt (form : Value) :
    (attempt room form).exec session = (evaluate room form).exec session := by
  unfold EStateM.exec attempt tryEvaluate
  cases evaluate room form session with
  | ok value after => rfl
  | error reason after => cases reason <;> rfl

/-- What becomes of a form is known from how its evaluation ends. -/
theorem outcome_attempt (form : Value) :
    (attempt room form).outcome session =
      match (evaluate room form).outcome session with
      | .ok value => .ok (.value value)
      | .error (.failure failure) => .ok (.failure failure)
      | .error .tooDeep => .ok (.failure .nestingTooDeep)
      | .error reason => .error reason := by
  unfold EStateM.outcome attempt tryEvaluate
  cases evaluate room form session with
  | ok value after => rfl
  | error reason after => cases reason <;> rfl

theorem attempt_unaffected (h : Unaffected first second)
    (hjournal : ((evaluate room first).exec session).journal = session.journal) :
    let after := (attempt room first).exec session
    (attempt room second).outcome after = (attempt room second).outcome session ∧
      ((attempt room second).exec after).journal = ((attempt room second).exec session).journal := by
  intro after
  obtain ⟨houtcome, hlast, -⟩ := evaluate_unaffected h hjournal
  simp only [after, exec_attempt, outcome_attempt]
  exact ⟨by rw [houtcome], hlast⟩

/-- Attempting two forms in order. -/
theorem attemptEach_pair_iff {outcome outcome' : Outcome} {last : Session} :
    attemptEach room [first, second] session = (⟨[outcome, outcome'], none⟩, last) ↔
      (attempt room first).outcome session = .ok outcome ∧
        (attempt room second).outcome ((attempt room first).exec session) = .ok outcome' ∧
        (attempt room second).exec ((attempt room first).exec session) = last := by
  unfold EStateM.outcome EStateM.exec
  simp only [attemptEach]
  cases attempt room first session with
  | error reason after => simp
  | ok value after =>
    simp only
    cases attempt room second after with
    | error reason after' => simp
    | ok value' after' => simp [and_assoc]

end

/-- Two forms of which neither may bind a name that is free in the other, with operations
that leave the journal as it is. What becomes of each does not depend on whether it comes
before or after the other, and in either order every name is bound to the same value
afterwards, however the forms end. So if something becomes of both in one order, the same
becomes of them in the other. -/
theorem independent_forms_commute [Host] {p : Value → Prop} (hp : Sealed p) (hsilent : Silent p)
    (room : Nat) {first second : Value} {session : Session} (hfirst : first.Every p)
    (hsecond : second.Every p) (hsession : session.Every p) (h : Unaffected first second)
    (h' : Unaffected second first) :
    let afterFirst := (attempt room first).exec session
    let afterSecond := (attempt room second).exec session
    (attempt room second).outcome afterFirst = (attempt room second).outcome session ∧
    (attempt room first).outcome afterSecond = (attempt room first).outcome session ∧
    (∀ name, ((attempt room second).exec afterFirst).bindings.get? name =
      ((attempt room first).exec afterSecond).bindings.get? name) ∧
    ((attempt room second).exec afterFirst).journal = session.journal ∧
    ((attempt room first).exec afterSecond).journal = session.journal ∧
    ∀ outcome outcome' last,
      attemptEach room [first, second] session = (⟨[outcome, outcome'], none⟩, last) →
      ∃ last', attemptEach room [second, first] session = (⟨[outcome', outcome], none⟩, last') ∧
        ∀ name, last.bindings.get? name = last'.bindings.get? name := by
  intro afterFirst afterSecond
  have hjournal : ((evaluate room first).exec session).journal = session.journal :=
    journal_exec hp hsilent hfirst hsession
  have hjournal' : ((evaluate room second).exec session).journal = session.journal :=
    journal_exec hp hsilent hsecond hsession
  obtain ⟨hafter, hlast⟩ := attempt_unaffected h hjournal
  obtain ⟨hafter', hlast'⟩ := attempt_unaffected h' hjournal'
  have hcomm : ∀ name, ((attempt room second).exec afterFirst).bindings.get? name =
      ((attempt room first).exec afterSecond).bindings.get? name := by
    intro name
    simp only [afterFirst, afterSecond, exec_attempt]
    exact get?_exec_comm h h' hjournal hjournal' name
  refine ⟨hafter, hafter', hcomm, ?_, ?_, ?_⟩
  · rw [hlast, exec_attempt, hjournal']
  · rw [hlast', exec_attempt, hjournal]
  · intro outcome outcome' last heach
    obtain ⟨hok, hok', rfl⟩ := attemptEach_pair_iff.mp heach
    refine ⟨_, attemptEach_pair_iff.mpr ⟨hafter ▸ hok', hafter' ▸ hok, rfl⟩, hcomm⟩

/-- The leaf is no primitive that records. -/
def Unrecorded : Value → Prop
  | .prim ⟨_, _, .hosted .record⟩ => False
  | _ => True

/-- The first form fails after it has bound a name, the second one collects. -/
theorem independent_forms_commute_sample :
    let collect : Value := .prim ⟨"collect", 0, .hosted .collect⟩
    let session := Session.initial.put "collect" collect
    let first := Value.list [.sym "list", .definition "a" (.int 1), .sym "b"]
    let second := Value.definition "c" (.list [.sym "collect", .int 2])
    ∃ last, attemptEach 100 [second, first] session =
        (⟨[.value (.sym "c"), .failure (.undefined (.sym "b"))], none⟩, last) ∧
      last.bindings.get? "a" = some (.int 1) := by
  intro collect session first second
  have hsealed : Sealed Unrecorded := sealed_of_leaves trivial (fun _ => trivial) fun _ => trivial
  have hsilent : Silent Unrecorded := silent_of_no_record fun _ _ h => h
  have hinitial : Session.initial.Every Unrecorded := by
    refine Session.Every.register (fun _ _ h => by cases h) ?_
    intro primitive hprimitive
    obtain ⟨operation, hoperation⟩ := operation_of_mem_builtins hprimitive
    obtain ⟨name, minArity, _⟩ := primitive
    cases hoperation
    trivial
  have hcollect : collect.Every Unrecorded := trivial
  have hfirst : first.Every Unrecorded := by simp [first, Value.definition, Unrecorded]
  have hsecond : second.Every Unrecorded := by simp [second, Value.definition, Unrecorded]
  have hsession : session.Every Unrecorded := hinitial.put hcollect
  obtain ⟨-, -, -, -, -, hswap⟩ := independent_forms_commute hsealed hsilent 100 hfirst hsecond
    hsession (unaffected_of_disjoint (by decide)) (unaffected_of_disjoint (by decide))
  obtain ⟨last, hlast, hsame⟩ := hswap (.failure (.undefined (.sym "b"))) (.value (.sym "c")) _ rfl
  exact ⟨last, hlast, (hsame "a").symm.trans rfl⟩

end Sexpr
