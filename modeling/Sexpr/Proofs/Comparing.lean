import Sexpr.Proofs.FreeNames
import Sexpr.Proofs.Hosting
import Sexpr.Proofs.MoreRoom

/-!
# Two runs side by side

An expression is evaluated in two sessions that are alike in some way, the second time
perhaps with more room. What has to be known of the ways in which the sessions are alike
is that bindings stay alike when a name is bound in both, and that the operations of the
embedding program treat alike what is alike. Main statement: if the names that are free
in the expression stand for the same in both sessions, the second run ends as the first
one does, unless that lacks room, and leaves a session that is alike.
-/
namespace Sexpr

/-! ## Ways to be alike -/

/-- A way in which two sessions are alike, and the room of two runs. -/
structure Comparison where
  /-- What the leaves of all values satisfy. -/
  leaf : Value → Prop
  bindings : Bindings → Bindings → Prop
  journals : Journal → Journal → Prop
  /-- The second run may have more room than the first. -/
  roomier : Prop

/-- The second run ends in the same result as the first one, or in the same halt, unless
the first is too deep and the second may have more room. -/
inductive Follows {σ α : Type} (roomier : Prop) (results : α → Prop) (states : σ → σ → Prop) :
    EStateM.Result Halt σ α → EStateM.Result Halt σ α → Prop where
  | ok {a after after'} : results a → states after after' →
      Follows roomier results states (.ok a after) (.ok a after')
  | error {reason after after'} : states after after' →
      Follows roomier results states (.error reason after) (.error reason after')
  | tooDeep {after result} : roomier → Follows roomier results states (.error .tooDeep after) result

namespace Comparison

variable (c : Comparison)

/-- The room of the first run and that of the second. -/
def Rooms (room room' : Nat) : Prop := room = room' ∨ (c.roomier ∧ room ≤ room')

structure Alike (session session' : Session) : Prop where
  every : session.Every c.leaf
  bindings : c.bindings session.bindings session'.bindings
  journals : c.journals session.journal session'.journal

/-- Bindings that are alike bind the name to the same value. -/
def Sees (name : String) : Prop :=
  ∀ bindings bindings', c.bindings bindings bindings' → bindings.get? name = bindings'.get? name

/-- What evaluation does to sessions that are alike, step by step, leaves them alike. -/
structure Sound [Host] : Prop where
  nil : c.leaf .nil
  bool : ∀ b, c.leaf (.bool b)
  int : ∀ n, c.leaf (.int n)
  define : ∀ bindings bindings' name value, c.bindings bindings bindings' →
    c.bindings (bindings.define name value) (bindings'.define name value)
  /-- The operations of the embedding program treat alike what is alike. -/
  hosted : ∀ operation args room room' journal journal', MayCall c.leaf operation args →
    c.Rooms room room' → c.journals journal journal' →
    Follows c.roomier (Answers c.leaf) c.journals (Host.callback operation room args journal)
      (Host.callback operation room' args journal')

end Comparison

namespace Follows

variable {σ α : Type} {roomier : Prop} {results : α → Prop} {states : σ → σ → Prop}

/-- A run follows another one that ends in the same way and leaves a state that is alike. -/
theorem of_agree {work work' : EStateM Halt σ α} {state state' : σ}
    (hresults : ∀ a, work.outcome state = .ok a → results a)
    (h : work.outcome state = work'.outcome state' ∧ states (work.exec state) (work'.exec state')) :
    Follows roomier results states (work state) (work' state') := by
  unfold EStateM.outcome EStateM.exec at *
  generalize work state = result, work' state' = result' at *
  obtain ⟨houtcome, hstates⟩ := h
  cases result with
  | ok a after =>
    cases result' with
    | ok a' after' =>
      cases houtcome
      exact .ok (hresults a rfl) hstates
    | error => cases houtcome
  | error reason after =>
    cases result' with
    | ok => cases houtcome
    | error reason' after' =>
      cases houtcome
      exact .error hstates

theorem of_tooDeep {work : EStateM Halt σ α} {state : σ} {result' : EStateM.Result Halt σ α}
    (hroomier : roomier) (h : work.outcome state = .error .tooDeep) :
    Follows roomier results states (work state) result' := by
  unfold EStateM.outcome at h
  cases hwork : work state with
  | ok a after => simp [hwork] at h
  | error reason after =>
    rw [hwork] at h
    cases h
    exact .tooDeep hroomier

/-- Unless the first run lacks room, both end in the same way and the states that they
leave are alike. -/
theorem agree {work work' : EStateM Halt σ α} {state state' : σ}
    (h : Follows roomier results states (work state) (work' state'))
    (henough : roomier → work.outcome state ≠ .error .tooDeep) :
    work.outcome state = work'.outcome state' ∧ states (work.exec state) (work'.exec state') := by
  unfold EStateM.outcome EStateM.exec at *
  generalize work state = result, work' state' = result' at *
  cases h with
  | ok _ hstates | error hstates => exact ⟨rfl, hstates⟩
  | tooDeep hroomier => exact absurd rfl (henough hroomier)

end Follows

/-! ## Room -/

namespace Comparison

variable {c : Comparison} {room room' : Nat}

theorem Rooms.enter {cost inner : Nat} (h : c.Rooms room room')
    (hroom : Room.enter cost room = some inner) :
    ∃ inner', Room.enter cost room' = some inner' ∧ c.Rooms inner inner' := by
  rcases h with rfl | ⟨hroomier, hle⟩
  · exact ⟨inner, hroom, .inl rfl⟩
  · obtain ⟨inner', hroom', hinner⟩ := Room.enter_mono hle hroom
    exact ⟨inner', hroom', .inr ⟨hroomier, hinner⟩⟩

/-- The words of a rejection are the same, unless there is too little room for them. -/
theorem Rooms.message (h : c.Rooms room room') (rejection : Rejection) :
    (c.roomier ∧ rejection.message room = .error .tooDeep) ∨
      rejection.message room' = rejection.message room := by
  rcases h with rfl | ⟨hroomier, hle⟩
  · exact .inr rfl
  · rcases message_persists hle rejection with hdeep | hsame
    · exact .inl ⟨hroomier, hdeep⟩
    · exact .inr hsame

/-! ## Sessions -/

variable {session session' : Session} {name : String}

theorem Sees.value? (h : c.Sees name) (halike : c.Alike session session') :
    session'.bindings.value? name = session.bindings.value? name := by
  unfold Bindings.value?
  rw [h _ _ halike.bindings]

theorem Sees.contains (h : c.Sees name) (halike : c.Alike session session') :
    session'.bindings.contains name = session.bindings.contains name := by
  unfold Bindings.contains
  rw [h _ _ halike.bindings]

variable [Host]

theorem Alike.put (h : c.Alike session session') (hc : c.Sound) {value : Value}
    (hvalue : value.Every c.leaf) : c.Alike (session.put name value) (session'.put name value) where
  every := h.every.put hvalue
  bindings := hc.define _ _ name value h.bindings
  journals := h.journals

/-! ## Calls -/

theorem run_follows (hc : c.Sound) (hrooms : c.Rooms room room') {primitive : Primitive}
    {args : List Value} (hprimitive : c.leaf (.prim primitive))
    (hargs : ∀ arg ∈ args, arg.Every c.leaf) (halike : c.Alike session session') :
    Follows c.roomier (Answers c.leaf) c.Alike (primitive.operation.run room args session)
      (primitive.operation.run room' args session') := by
  obtain ⟨name, minArity, operation⟩ := primitive
  cases operation with
  | builtin operation =>
    exact .ok (fun value => apply_every hc.nil hc.bool hc.int hargs) halike
  | hosted operation =>
    have hfollows := hc.hosted operation args room room' _ _ ⟨⟨name, minArity, hprimitive⟩, hargs⟩
      hrooms halike.journals
    simp only [Operation.run, Run.onJournal]
    generalize Host.callback operation room args session.journal = result,
      Host.callback operation room' args session'.journal = result' at hfollows
    cases hfollows with
    | ok hanswer hjournals => exact .ok hanswer ⟨halike.every, halike.bindings, hjournals⟩
    | error hjournals => exact .error ⟨halike.every, halike.bindings, hjournals⟩
    | tooDeep hroomier => exact .tooDeep hroomier

theorem call_follows (hc : c.Sound) (hrooms : c.Rooms room room') {primitive : Primitive}
    {head : Value} {args : List Value} (hprimitive : c.leaf (.prim primitive))
    (hargs : ∀ arg ∈ args, arg.Every c.leaf) (halike : c.Alike session session') :
    Follows c.roomier (Value.Every c.leaf) c.Alike (primitive.call room head args session)
      (primitive.call room' head args session') := by
  rw [call_apply, call_apply]
  split
  · exact .error halike
  · have hfollows := run_follows hc hrooms hprimitive hargs halike
    generalize primitive.operation.run room args session = result,
      primitive.operation.run room' args session' = result' at hfollows
    cases hfollows with
    | tooDeep hroomier => exact .tooDeep hroomier
    | error halike => exact .error halike
    | @ok answer after after' hanswer halike =>
      cases answer with
      | ok value => exact .ok (hanswer value rfl) halike
      | error rejection =>
        simp only
        rcases hrooms.message rejection with ⟨hroomier, hdeep⟩ | hsame
        · rw [hdeep]
          exact .tooDeep hroomier
        · rw [hsame]
          cases rejection.message room <;> exact .error halike

/-! ## Evaluation -/

theorem evaluateEach_follows {args : List Value}
    (h : ∀ arg ∈ args, ∀ session session', c.Alike session session' →
      Follows c.roomier (Value.Every c.leaf) c.Alike (evaluate room arg session)
        (evaluate room' arg session'))
    (halike : c.Alike session session') :
    Follows c.roomier (fun values => ∀ value ∈ values, value.Every c.leaf) c.Alike
      (evaluateEach room args session) (evaluateEach room' args session') := by
  induction args generalizing session session' with
  | nil => exact .ok (List.forall_mem_nil _) halike
  | cons arg rest ih =>
    have hfirst := h arg List.mem_cons_self session session' halike
    rw [evaluateEach_cons, evaluateEach_cons]
    generalize evaluate room arg session = result, evaluate room' arg session' = result' at hfirst
    cases hfirst with
    | tooDeep hroomier => exact .tooDeep hroomier
    | error halike => exact .error halike
    | @ok value after after' hvalue halike =>
      have hrest := ih (fun later hlater => h later (List.mem_cons_of_mem _ hlater)) halike
      simp only
      generalize evaluateEach room rest after = result, evaluateEach room' rest after' = result'
        at hrest
      cases hrest with
      | tooDeep hroomier => exact .tooDeep hroomier
      | error halike => exact .error halike
      | ok hvalues halike => exact .ok (List.forall_mem_cons.mpr ⟨hvalue, hvalues⟩) halike

theorem immediate_follows {expr : Value} (himmediate : expr.Immediate room)
    (hrooms : c.Rooms room room') (hexpr : expr.Every c.leaf)
    (hsees : ∀ name ∈ expr.free, c.Sees name) (halike : c.Alike session session') :
    Follows c.roomier (Value.Every c.leaf) c.Alike (evaluate room expr session)
      (evaluate room' expr session') := by
  cases himmediate with
  | nil | bool | int | str | prim | empty => exact .ok hexpr halike
  | quote inner => exact .ok (by simpa using hexpr) halike
  | foreign => exact .error halike
  | sym name =>
    rw [evaluate_sym, evaluate_sym, (hsees name (by simp)).value? halike]
    cases hvalue : session.bindings.value? name with
    | none => exact .error halike
    | some value => exact .ok (halike.every.value? hvalue) halike
  | headless hhead =>
    rw [evaluate_headless _ hhead, evaluate_headless _ hhead]
    exact .error halike
  | tooDeep hroom =>
    rw [evaluate_tooDeep _ hroom]
    rcases hrooms with rfl | ⟨hroomier, _⟩
    · rw [evaluate_tooDeep _ hroom]
      exact .error halike
    · exact .tooDeep hroomier
  | quotation hroom hname =>
    obtain ⟨inner', hroom', -⟩ := hrooms.enter hroom
    rw [evaluate_quotation _ hroom hname, evaluate_quotation _ hroom' hname]
    simp only [Value.Every, Value.everyEach_iff] at hexpr
    exact .ok (hexpr _ (by simp)) halike
  | badTarget hroom hname htarget =>
    obtain ⟨inner', hroom', -⟩ := hrooms.enter hroom
    rw [evaluate_badTarget _ hroom hname htarget, evaluate_badTarget _ hroom' hname htarget]
    exact .error halike
  | misuse hroom hname hlength =>
    obtain ⟨inner', hroom', -⟩ := hrooms.enter hroom
    rw [evaluate_misuse _ hroom hname hlength, evaluate_misuse _ hroom' hname hlength]
    exact .error halike

/-- The second run follows the first if what is free stands for the same in both. -/
theorem evaluate_follows (hc : c.Sound) {expr : Value} (hrooms : c.Rooms room room')
    (hexpr : expr.Every c.leaf) (hsees : ∀ name ∈ expr.free, c.Sees name)
    (halike : c.Alike session session') :
    Follows c.roomier (Value.Every c.leaf) c.Alike (evaluate room expr session)
      (evaluate room' expr session') := by
  induction room, expr using Value.evaluationInduction generalizing room' session session' with
  | immediate room expr himmediate =>
    exact immediate_follows himmediate hrooms hexpr hsees halike
  | definition room inner name body hroom ih =>
    obtain ⟨inner', hroom', hinner⟩ := hrooms.enter hroom
    simp only [Value.definition, Value.Every, Value.everyEach_iff, List.forall_mem_cons] at hexpr
    obtain ⟨_, hname, hbody, _⟩ := hexpr
    rw [Value.free_definition, List.forall_mem_cons] at hsees
    -- The target is free, so it is bound in both sessions or in neither.
    rw [evaluate_definition _ hroom, evaluate_definition _ hroom', hsees.1.contains halike]
    split
    · exact .error halike
    · have hfollows := ih hinner hbody hsees.2 halike
      generalize evaluate inner body session = result, evaluate inner' body session' = result'
        at hfollows
      cases hfollows with
      | tooDeep hroomier => exact .tooDeep hroomier
      | error halike => exact .error halike
      | ok hvalue halike => exact .ok hname (halike.put hc hvalue)
  | choice room inner condition consequent alternative hroom ihc ihbranch =>
    obtain ⟨inner', hroom', hinner⟩ := hrooms.enter hroom
    simp only [Value.choice, Value.Every, Value.everyEach_iff, List.forall_mem_cons] at hexpr
    obtain ⟨_, hc', ht, ha, _⟩ := hexpr
    simp only [Value.free_choice, List.forall_mem_append] at hsees
    obtain ⟨⟨hsc, hst⟩, hsa⟩ := hsees
    rw [evaluate_choice _ hroom, evaluate_choice _ hroom']
    have hfollows := ihc hinner hc' hsc halike
    generalize evaluate inner condition session = result,
      evaluate inner' condition session' = result' at hfollows
    cases hfollows with
    | tooDeep hroomier => exact .tooDeep hroomier
    | error halike => exact .error halike
    | ok hvalue halike =>
      -- Both runs have the same value to go by, so they take the same branch.
      refine ihbranch _ hinner ?_ ?_ halike
      · split
        · exact ht
        · exact ha
      · split
        · exact hst
        · exact hsa
  | application room inner name args hroom hname ih =>
    obtain ⟨inner', hroom', hinner⟩ := hrooms.enter hroom
    simp only [Value.Every, Value.everyEach_iff, List.forall_mem_cons] at hexpr
    rw [Value.free_application hname, List.forall_mem_cons] at hsees
    rw [evaluate_application _ hroom hname, evaluate_application _ hroom' hname,
      hsees.1.value? halike]
    split
    · rename_i primitive hcallee
      have hprimitive : c.leaf (.prim primitive) := halike.every.value? hcallee
      have hfollows := evaluateEach_follows (fun arg harg session session' halike =>
        ih arg harg hinner (hexpr.2 arg harg)
          (fun key hkey => hsees.2 key (Value.mem_freeEach_iff.mpr ⟨arg, harg, hkey⟩)) halike)
        halike
      generalize evaluateEach inner args session = result,
        evaluateEach inner' args session' = result' at hfollows
      cases hfollows with
      | tooDeep hroomier => exact .tooDeep hroomier
      | error halike => exact .error halike
      | ok hvalues halike => exact call_follows hc hinner hprimitive hvalues halike
    · exact .error halike
    · exact .error halike

end Comparison

end Sexpr
