import Sexpr.Proofs.Reaching
import Sexpr.Proofs.Rendering
import Sexpr.Session

/-!
# Leaves of computed values

What evaluation computes is built from the leaves of the expression, from those of the
values that are bound, and from new integers, booleans and nil. So a predicate on leaves
that holds of the latter is kept, as long as the primitives are built-in ones: nothing is
known of what others answer.
-/
namespace Sexpr

/-- The predicate holds of the leaves that built-in primitives make, and of no primitive
but these. -/
structure Closed (p : Value → Prop) : Prop where
  nil : p .nil
  bool : ∀ b, p (.bool b)
  int : ∀ n, p (.int n)
  builtin : ∀ primitive, p (.prim primitive) → primitive ∈ Primitive.builtins

/-- Every leaf of every value that is bound satisfies `p`. -/
def Session.Every (p : Value → Prop) (session : Session) : Prop :=
  ∀ name value, session.bindings.get? name = some value → value.Every p

/-- What is computed and what is left bound is built from leaves that satisfy `p`. -/
def Ends {α : Type} (p : Value → Prop) (q : α → Prop) : EStateM.Result Halt Session α → Prop
  | .ok a after => q a ∧ after.Every p
  | .error _ after => after.Every p

section
variable {p : Value → Prop} {session : Session} {name : String} {value : Value}

theorem Bindings.get?_of_value? {bindings : Bindings} (h : bindings.value? name = some value) :
    bindings.get? name = some value := by
  unfold value? at h
  split at h
  · cases h
  · exact h

theorem Session.Every.value? (h : session.Every p) (hname : session.bindings.value? name = some value) :
    value.Every p :=
  h name value (Bindings.get?_of_value? hname)

theorem Session.Every.put (h : session.Every p) (hvalue : value.Every p) :
    (session.put name value).Every p := by
  intro key found hkey
  rw [Session.put, Bindings.get?_define] at hkey
  split at hkey
  · cases hkey
    exact hvalue
  · exact h key found hkey

/-! ## Calls -/

theorem operation_of_mem_builtins {primitive : Primitive} (h : primitive ∈ Primitive.builtins) :
    ∃ operation, primitive.operation = .builtin operation := by
  simp only [Primitive.builtins, List.mem_cons, List.not_mem_nil, or_false] at h
  rcases h with rfl | rfl | rfl | rfl | rfl | rfl | rfl | rfl | rfl | rfl <;> exact ⟨_, rfl⟩

/-- What calling a primitive comes to. The words of a rejection are made up even though
they are not kept. -/
theorem call_apply [Host] (room : Nat) (head : Value) (primitive : Primitive) (args : List Value)
    (session : Session) :
    primitive.call room head args session =
      if args.length < primitive.minArity then
        .error (.failure (.primitiveTooFewArgs (.str primitive.name) (.int primitive.minArity)
          (.int args.length))) session
      else
        match primitive.operation.run room args session with
        | .ok (.ok value) after => .ok value after
        | .ok (.error rejection) after =>
          match rejection.message room with
          | .ok _ => .error (.failure (.badArg head)) after
          | .error reason => .error reason.halt after
        | .error reason after => .error reason after := by
  unfold Primitive.call
  split
  · rfl
  · rw [EStateM.bind_apply]
    cases primitive.operation.run room args session with
    | error reason after => rfl
    | ok answer after =>
      cases answer with
      | ok value => rfl
      | error rejection =>
        simp only [EStateM.bind_apply]
        cases rejection.message room <;> rfl

/-- What calling a built-in primitive comes to. -/
theorem call_builtin [Host] {room : Nat} {head : Value} {primitive : Primitive}
    {operation : Builtin} {args : List Value} (h : primitive.operation = .builtin operation) :
    primitive.call room head args session =
      if args.length < primitive.minArity then
        .error (.failure (.primitiveTooFewArgs (.str primitive.name) (.int primitive.minArity)
          (.int args.length))) session
      else
        match operation.apply args with
        | .ok value => .ok value session
        | .error rejection =>
          match rejection.message room with
          | .ok _ => .error (.failure (.badArg head)) session
          | .error reason => .error reason.halt session := by
  have hrun : primitive.operation.run room args session = .ok (operation.apply args) session := by
    rw [h]
    rfl
  rw [call_apply, hrun]
  cases operation.apply args <;> rfl

/-- A built-in primitive halts for want of arguments, or because it rejects those that it
has; then it blames the head, unless the words of the rejection cannot be made up. -/
theorem call_builtin_error [Host] {room : Nat} {head : Value} {primitive : Primitive}
    {operation : Builtin} {args : List Value} {reason : Halt} {after : Session}
    (hoperation : primitive.operation = .builtin operation)
    (h : primitive.call room head args session = .error reason after) :
    after = session ∧
      ((args.length < primitive.minArity ∧
          reason = .failure (.primitiveTooFewArgs (.str primitive.name) (.int primitive.minArity)
            (.int args.length))) ∨
        ∃ rejection, primitive.minArity ≤ args.length ∧ operation.apply args = .error rejection ∧
          reason = match rejection.message room with
            | .ok _ => .failure (.badArg head)
            | .error unwritable => unwritable.halt) := by
  rw [call_builtin hoperation] at h
  split at h
  · rename_i hfew
    cases h
    exact ⟨rfl, .inl ⟨hfew, rfl⟩⟩
  · rename_i hfloor
    cases hanswer : operation.apply args with
    | ok value => simp [hanswer] at h
    | error rejection =>
      simp only [hanswer] at h
      refine ⟨?_, .inr ⟨rejection, Nat.not_lt.mp hfloor, rfl, ?_⟩⟩
      · cases hmessage : rejection.message room <;> simp only [hmessage] at h <;> cases h <;> rfl
      · cases hmessage : rejection.message room <;> simp only [hmessage] at h <;> cases h <;> rfl

theorem members_every {value : Value} {items : List Value} (h : members value = .ok items)
    (hvalue : value.Every p) : ∀ item ∈ items, item.Every p := by
  cases value with
  | list _ =>
    cases h
    simpa using hvalue
  | nil | bool | int | str | sym | quote | prim | foreign => cases h

/-- A built-in operation answers with leaves of its arguments and with new ones. -/
theorem apply_every {operation : Builtin} {args : List Value} (hnil : p .nil)
    (hbool : ∀ b, p (.bool b)) (hint : ∀ n, p (.int n)) (hargs : ∀ arg ∈ args, arg.Every p)
    (h : operation.apply args = .ok value) : value.Every p := by
  have hnumbers {answer : List Int → Value}
      (h : (do return answer (← integers args)) = Except.ok value)
      (hanswer : ∀ numbers, (answer numbers).Every p) : value.Every p := by
    obtain ⟨numbers, _, hvalue⟩ := bind_eq_ok_iff.mp h
    cases hvalue
    exact hanswer numbers
  have hmembers {arg : Value} {answer : List Value → Value} (harg : arg.Every p)
      (hanswer : ∀ items, (∀ item ∈ items, item.Every p) → (answer items).Every p)
      (h : (do return answer (← members arg)) = Except.ok value) : value.Every p := by
    obtain ⟨items, hitems, hvalue⟩ := bind_eq_ok_iff.mp h
    cases hvalue
    exact hanswer items (members_every hitems harg)
  -- One case for each equation of `apply`, in its order.
  unfold Builtin.apply at h
  split at h
  · exact hnumbers h fun _ => hint _
  · exact hnumbers h fun _ => hint _
  · exact hnumbers h fun _ => hint _
  · exact hnumbers h fun _ => hbool _
  · exact hnumbers h fun _ => hbool _
  · cases h
    simpa using hargs
  · refine hmembers (hargs _ List.mem_cons_self) ?_ h
    intro items hitems
    cases items with
    | nil => exact hnil
    | cons first rest => exact hitems first List.mem_cons_self
  · cases h
  · refine hmembers (hargs _ List.mem_cons_self) ?_ h
    intro items hitems
    simpa using fun item hitem => hitems item (List.mem_of_mem_tail hitem)
  · cases h
  · refine hmembers (hargs _ (List.mem_cons_of_mem _ List.mem_cons_self)) ?_ h
    intro items hitems
    simpa using ⟨hargs _ List.mem_cons_self, hitems⟩
  · cases h
  · cases h
    exact hbool _

theorem call_ends [Host] {room : Nat} {head : Value} {primitive : Primitive} {args : List Value}
    (hp : Closed p) (hprimitive : p (.prim primitive)) (hargs : ∀ arg ∈ args, arg.Every p)
    (hsession : session.Every p) :
    Ends p (Value.Every p) (primitive.call room head args session) := by
  obtain ⟨operation, hoperation⟩ := operation_of_mem_builtins (hp.builtin primitive hprimitive)
  rw [call_builtin hoperation]
  split
  · exact hsession
  · cases hanswer : operation.apply args with
    | ok value => exact ⟨apply_every hp.nil hp.bool hp.int hargs hanswer, hsession⟩
    | error rejection =>
      simp only
      cases rejection.message room <;> exact hsession

/-! ## Evaluation -/

theorem evaluateEach_ends [Host] {room : Nat} {args : List Value}
    (h : ∀ arg ∈ args, ∀ session : Session, session.Every p →
      Ends p (Value.Every p) (evaluate room arg session)) (hsession : session.Every p) :
    Ends p (fun values => ∀ value ∈ values, value.Every p) (evaluateEach room args session) := by
  induction args generalizing session with
  | nil => exact ⟨List.forall_mem_nil _, hsession⟩
  | cons arg args ih =>
    have hfirst := h arg List.mem_cons_self session hsession
    rw [evaluateEach_cons]
    cases harg : evaluate room arg session with
    | error reason after =>
      rw [harg] at hfirst
      exact hfirst
    | ok value after =>
      rw [harg] at hfirst
      have hrest := ih (fun arg' harg' => h arg' (List.mem_cons_of_mem _ harg')) hfirst.2
      simp only
      cases hargs : evaluateEach room args after with
      | error reason after =>
        rw [hargs] at hrest
        exact hrest
      | ok values after =>
        rw [hargs] at hrest
        exact ⟨List.forall_mem_cons.mpr ⟨hfirst.1, hrest.1⟩, hrest.2⟩

theorem ends_immediate [Host] {room : Nat} {expr : Value} (himmediate : expr.Immediate room)
    (hexpr : expr.Every p) (hsession : session.Every p) :
    Ends p (Value.Every p) (evaluate room expr session) := by
  cases himmediate with
  | nil | bool | int | str | prim | empty => exact ⟨hexpr, hsession⟩
  | quote inner => exact ⟨by simpa using hexpr, hsession⟩
  | foreign => exact hsession
  | sym name =>
    rw [evaluate_sym]
    split
    · rename_i found hname
      exact ⟨hsession.value? hname, hsession⟩
    · exact hsession
  | headless hhead =>
    rw [evaluate_headless session hhead]
    exact hsession
  | tooDeep hroom =>
    rw [evaluate_tooDeep session hroom]
    exact hsession
  | quotation hroom hname =>
    rw [evaluate_quotation session hroom hname]
    simp only [Value.Every, Value.everyEach_iff] at hexpr
    exact ⟨hexpr _ (by simp), hsession⟩
  | badTarget hroom hname htarget =>
    rw [evaluate_badTarget session hroom hname htarget]
    exact hsession
  | misuse hroom hname hlength =>
    rw [evaluate_misuse session hroom hname hlength]
    exact hsession

/-- Evaluation keeps a closed predicate on leaves. -/
theorem evaluate_ends [Host] (hp : Closed p) (room : Nat) (expr : Value) (hexpr : expr.Every p)
    (session : Session) (hsession : session.Every p) :
    Ends p (Value.Every p) (evaluate room expr session) := by
  induction room, expr using Value.evaluationInduction generalizing session with
  | immediate room expr himmediate => exact ends_immediate himmediate hexpr hsession
  | definition room inner name body hroom ih =>
    simp only [Value.definition, Value.Every, Value.everyEach_iff, List.forall_mem_cons] at hexpr
    obtain ⟨_, hname, hbody, _⟩ := hexpr
    rw [evaluate_definition session hroom]
    split
    · exact hsession
    · have hends := ih hbody session hsession
      cases hvalue : evaluate inner body session with
      | error reason after =>
        rw [hvalue] at hends
        exact hends
      | ok value after =>
        rw [hvalue] at hends
        -- The form itself has its name as value, which is a leaf of it.
        exact ⟨hname, hends.2.put hends.1⟩
  | choice room inner c t a hroom ihc ihbranch =>
    simp only [Value.choice, Value.Every, Value.everyEach_iff, List.forall_mem_cons] at hexpr
    obtain ⟨_, hc, ht, ha, _⟩ := hexpr
    rw [evaluate_choice session hroom]
    have hends := ihc hc session hsession
    cases hvalue : evaluate inner c session with
    | error reason after =>
      rw [hvalue] at hends
      exact hends
    | ok value after =>
      rw [hvalue] at hends
      refine ihbranch value ?_ after hends.2
      split
      · exact ht
      · exact ha
  | application room inner name args hroom hname ih =>
    simp only [Value.Every, Value.everyEach_iff, List.forall_mem_cons] at hexpr
    rw [evaluate_application session hroom hname]
    split
    · rename_i primitive hcallee
      have hends := evaluateEach_ends (fun arg harg => ih arg harg (hexpr.2 arg harg)) hsession
      cases hvalues : evaluateEach inner args session with
      | error reason after =>
        rw [hvalues] at hends
        exact hends
      | ok values after =>
        rw [hvalues] at hends
        exact call_ends hp (hsession.value? hcallee) hends.1 hends.2
    · exact hsession
    · exact hsession

/-- However evaluation ends, what it leaves bound is built from known leaves. -/
theorem exec_every [Host] (hp : Closed p) {room : Nat} {expr : Value} (hexpr : expr.Every p)
    (hsession : session.Every p) : ((evaluate room expr).exec session).Every p := by
  have hends := evaluate_ends hp room expr hexpr session hsession
  unfold EStateM.exec
  cases hresult : evaluate room expr session with
  | ok value after =>
    rw [hresult] at hends
    exact hends.2
  | error reason after =>
    rw [hresult] at hends
    exact hends

/-! ## What is reached -/

theorem Moment.Enters.every [Host] {moment next : Moment} (hp : Closed p)
    (h : moment.Enters next) (hexpr : moment.expr.Every p) (hsession : moment.session.Every p) :
    next.expr.Every p ∧ next.session.Every p := by
  cases h with
  | body =>
    simp only [Value.definition, Value.Every, Value.everyEach_iff, List.forall_mem_cons] at hexpr
    exact ⟨hexpr.2.2.1, hsession⟩
  | condition =>
    simp only [Value.choice, Value.Every, Value.everyEach_iff, List.forall_mem_cons] at hexpr
    exact ⟨hexpr.2.1, hsession⟩
  | @branch _ inner c _ _ _ _ _ _ hcondition =>
    simp only [Value.choice, Value.Every, Value.everyEach_iff, List.forall_mem_cons] at hexpr
    have hends := evaluate_ends hp inner c hexpr.2.1 _ hsession
    rw [hcondition] at hends
    refine ⟨?_, hends.2⟩
    split
    · exact hexpr.2.2.1
    · exact hexpr.2.2.2.1
  | @argument _ inner _ _ session before arg rest _ _ _ _ _ hbefore =>
    simp only [Value.Every, Value.everyEach_iff, List.forall_mem_cons, List.forall_mem_append]
      at hexpr
    have hends := @evaluateEach_ends p session _ inner before
      (fun arg harg session hsession => evaluate_ends hp inner arg (hexpr.2.1 arg harg) session hsession)
      hsession
    rw [hbefore] at hends
    exact ⟨hexpr.2.2.1, hends.2⟩

theorem Moment.Reaches.every [Host] {moment target : Moment} (hp : Closed p)
    (h : moment.Reaches target) (hexpr : moment.expr.Every p)
    (hsession : moment.session.Every p) : target.expr.Every p ∧ target.session.Every p := by
  induction h with
  | refl => exact ⟨hexpr, hsession⟩
  | tail _ hstep ih => exact hstep.every hp ih.1 ih.2

/-- A primitive that is called satisfies the predicate, and so do its arguments. -/
theorem Moment.Calls.every [Host] {moment : Moment} {inner : Nat} {name : String}
    {primitive : Primitive} {values : List Value} {after : Session} (hp : Closed p)
    (h : moment.Calls inner name primitive values after) (hexpr : moment.expr.Every p)
    (hsession : moment.session.Every p) :
    p (.prim primitive) ∧ (∀ value ∈ values, value.Every p) ∧ after.Every p := by
  cases h with
  | @intro _ inner _ args session _ _ _ _ _ hcallee hargs =>
    simp only [Value.Every, Value.everyEach_iff, List.forall_mem_cons] at hexpr
    have hends := @evaluateEach_ends p session _ inner args
      (fun arg harg session hsession => evaluate_ends hp inner arg (hexpr.2 arg harg) session hsession)
      hsession
    rw [hargs] at hends
    exact ⟨hsession.value? hcallee, hends⟩

/-- Registering primitives binds nothing else. -/
theorem Session.Every.register {primitives : List Primitive} (h : session.Every p)
    (hprimitives : ∀ primitive ∈ primitives, p (.prim primitive)) :
    (session.register primitives).Every p := by
  induction primitives generalizing session with
  | nil => exact h
  | cons primitive rest ih =>
    have hput : (session.put primitive.name (.prim primitive)).Every p :=
      h.put (hprimitives primitive List.mem_cons_self)
    exact ih hput fun other hother => hprimitives other (List.mem_cons_of_mem _ hother)

end

end Sexpr
