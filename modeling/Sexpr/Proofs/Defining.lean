import Sexpr.Proofs.Reaching

/-!
# What evaluation defines

The bindings that an evaluation makes, as a list of names and values in the order in
which they are made. A name that is bound while its own definition is being evaluated
stands there twice. Main statements: the list accounts for the bindings that are left,
it holds what the definitions reached have made, and none of its names was bound before.
-/
namespace Sexpr

/-! ## Binding several names -/

/-- Bind the names in order. -/
def Bindings.defineEach (bindings : Bindings) (made : List (String × Value)) : Bindings :=
  made.foldl (fun bindings entry => bindings.define entry.1 entry.2) bindings

namespace Bindings

variable {bindings : Bindings} {name : String} {made : List (String × Value)}

@[simp] theorem defineEach_nil : bindings.defineEach [] = bindings := rfl

@[simp] theorem defineEach_cons (entry : String × Value) :
    bindings.defineEach (entry :: made) = (bindings.define entry.1 entry.2).defineEach made := rfl

@[simp] theorem defineEach_append (others : List (String × Value)) :
    bindings.defineEach (made ++ others) = (bindings.defineEach made).defineEach others :=
  List.foldl_append

theorem contains_define (key : String) (value : Value) :
    (bindings.define key value).contains name = (decide (name = key) || bindings.contains name) := by
  unfold contains
  rw [get?_define]
  by_cases h : name = key <;> simp [h]

/-- The names bound are those that were bound before and those of the list. -/
theorem contains_defineEach :
    (bindings.defineEach made).contains name = true ↔
      bindings.contains name = true ∨ name ∈ made.map Prod.fst := by
  induction made generalizing bindings with
  | nil => simp
  | cons entry made ih =>
    rw [defineEach_cons, ih, contains_define, List.map_cons, List.mem_cons, Bool.or_eq_true,
      decide_eq_true_iff, or_assoc, or_left_comm]

/-- A name that is not in the list keeps its value. -/
theorem get?_defineEach_of_not_mem (h : name ∉ made.map Prod.fst) :
    (bindings.defineEach made).get? name = bindings.get? name := by
  induction made generalizing bindings with
  | nil => rfl
  | cons entry made ih =>
    rw [List.map_cons, List.mem_cons, not_or] at h
    rw [defineEach_cons, ih h.2, get?_define, if_neg h.1]

/-- Names bound before stand first, in their order. -/
theorem names_prefix_defineEach : bindings.names <+: (bindings.defineEach made).names := by
  induction made generalizing bindings with
  | nil => exact List.prefix_refl _
  | cons entry made ih =>
    refine List.IsPrefix.trans ?_ ih
    rw [names_define]
    split
    · exact List.prefix_refl _
    · exact List.prefix_append _ _

/-- A name is bound if it is among the names. -/
theorem contains_iff : bindings.contains name = true ↔ name ∈ bindings.names := by
  obtain ⟨entries, _⟩ := bindings
  unfold contains get? names
  induction entries with
  | nil => simp
  | cons entry rest ih =>
    by_cases h : name = entry.1
    · simp [h]
    · simp_all

end Bindings

/-! ## The list of bindings made -/

mutual

/-- The bindings that evaluating an expression makes, from the first to the last. -/
def definitions [Host] (room : Nat) : Value → Session → List (String × Value)
  | .list (.sym name :: args), session =>
    match Room.enter Room.evaluateForm room with
    | none => []
    | some room =>
      match SpecialForm.ofName? name with
      | some form => definitionsSpecial room form args session
      | none =>
        match session.bindings.value? name with
        | some (.prim _) => definitionsEach room args session
        | _ => []
  | _, _ => []

/-- The bindings that evaluating a special form makes. -/
def definitionsSpecial [Host] (room : Nat) :
    SpecialForm → List Value → Session → List (String × Value)
  | .choose, [condition, consequent, alternative], session =>
    definitions room condition session ++
      match evaluate room condition session with
      | .ok value after =>
        if value.isTruthy then definitions room consequent after
        else definitions room alternative after
      | .error .. => []
  | .define, [.sym name, body], session =>
    if session.bindings.contains name then []
    else
      definitions room body session ++
        match evaluate room body session with
        | .ok value _ => [(name, value)]
        | .error .. => []
  | _, _, _ => []

/-- The bindings that evaluating expressions one after the other makes. -/
def definitionsEach [Host] (room : Nat) : List Value → Session → List (String × Value)
  | [], _ => []
  | expr :: rest, session =>
    definitions room expr session ++
      match evaluate room expr session with
      | .ok _ after => definitionsEach room rest after
      | .error .. => []

end

section
variable [Host] {room inner : Nat} {session after : Session}

theorem definitions_special {name : String} {form : SpecialForm} {args : List Value}
    (hroom : Room.enter Room.evaluateForm room = some inner)
    (hname : SpecialForm.ofName? name = some form) :
    definitions room (.list (.sym name :: args)) session =
      definitionsSpecial inner form args session := by
  rw [definitions, hroom]
  simp only [hname]

theorem definitions_immediate {expr : Value} (h : expr.Immediate room) :
    definitions room expr session = [] := by
  cases h with
  | nil | bool | int | str | prim | foreign | quote | sym | empty => rfl
  | @headless head _ hhead =>
    cases head with
    | sym name => exact absurd rfl (hhead name)
    | nil | bool | int | str | list | quote | prim | foreign => rfl
  | tooDeep hroom => rw [definitions, hroom]
  | quotation hroom hname =>
    rw [definitions_special hroom hname]
    rfl
  | @badTarget _ _ target _ hroom hname htarget =>
    rw [definitions_special hroom hname]
    cases target with
    | sym symbol => exact absurd rfl (htarget symbol)
    | nil | bool | int | str | list | quote | prim | foreign => rfl
  | misuse hroom hname hlength =>
    rw [definitions_special hroom hname]
    unfold definitionsSpecial
    split
    · exact absurd rfl hlength
    · exact absurd rfl hlength
    · rfl

theorem definitions_definition {name : String} {body : Value}
    (hroom : Room.enter Room.evaluateForm room = some inner) :
    definitions room (.definition name body) session =
      if session.bindings.contains name then []
      else
        definitions inner body session ++
          match evaluate inner body session with
          | .ok value _ => [(name, value)]
          | .error .. => [] := by
  have hname : SpecialForm.ofName? "def" = some .define := rfl
  rw [Value.definition, definitions_special hroom hname, definitionsSpecial]

/-- A definition that binds its name does so after all that its body binds. -/
theorem definitions_defined {name : String} {body value : Value} {after : Session}
    (hroom : Room.enter Room.evaluateForm room = some inner)
    (hbound : session.bindings.contains name = false)
    (hbody : evaluate inner body session = .ok value after) :
    definitions room (.definition name body) session =
      definitions inner body session ++ [(name, value)] := by
  rw [definitions_definition hroom, if_neg (by simp [hbound]), hbody]

theorem definitions_choice {c t a : Value}
    (hroom : Room.enter Room.evaluateForm room = some inner) :
    definitions room (.choice c t a) session =
      definitions inner c session ++
        match evaluate inner c session with
        | .ok value after => definitions inner (if value.isTruthy then t else a) after
        | .error .. => [] := by
  have hname : SpecialForm.ofName? "if" = some .choose := rfl
  rw [Value.choice, definitions_special hroom hname, definitionsSpecial]
  cases evaluate inner c session with
  | error reason after => rfl
  | ok value after => cases hvalue : value.isTruthy <;> simp [hvalue]

theorem definitions_application {name : String} {args : List Value}
    (hroom : Room.enter Room.evaluateForm room = some inner)
    (hname : SpecialForm.ofName? name = none) :
    definitions room (.list (.sym name :: args)) session =
      match session.bindings.value? name with
      | some (.prim _) => definitionsEach inner args session
      | _ => [] := by
  rw [definitions, hroom]
  simp only [hname]

theorem definitionsEach_collects (room : Nat) :
    Collects room (definitions room) (definitionsEach room) where
  nil _ := rfl
  cons _ _ _ := rfl

/-! ## The bindings that are left -/

omit [Host] in
theorem Run.onJournal_keeps {α : Type} (work : EStateM Halt Journal α) :
    (Run.onJournal work).Keeps Session.bindings := by
  intro session
  unfold EStateM.exec Run.onJournal
  cases work session.journal <;> rfl

/-- Calling a primitive binds nothing. -/
theorem call_keeps (head : Value) (primitive : Primitive) (args : List Value) :
    (primitive.call room head args).Keeps Session.bindings := by
  have hrun : (primitive.operation.run room args).Keeps Session.bindings := by
    cases primitive.operation with
    | builtin operation => exact fun _ => rfl
    | hosted operation => exact Run.onJournal_keeps _
  unfold Primitive.call
  split
  · exact fun _ => rfl
  · refine hrun.bind fun answer => ?_
    cases answer with
    | ok value => exact fun _ => rfl
    | error rejection =>
      refine EStateM.Keeps.bind ?_ fun _ _ => rfl
      cases rejection.message room <;> exact fun _ => rfl

theorem bindings_execEach {args : List Value}
    (h : ∀ arg ∈ args, ∀ session, ((evaluate room arg).exec session).bindings =
      session.bindings.defineEach (definitions room arg session)) (session : Session) :
    ((evaluateEach room args).exec session).bindings =
      session.bindings.defineEach (definitionsEach room args session) :=
  (definitionsEach_collects room).exec_eq Session.bindings Bindings.defineEach (fun _ => rfl)
    (fun _ _ others => Bindings.defineEach_append others) h session

/-- The bindings after an evaluation, however it ends, are those before with the list added. -/
theorem bindings_exec (room : Nat) (expr : Value) (session : Session) :
    ((evaluate room expr).exec session).bindings =
      session.bindings.defineEach (definitions room expr session) := by
  induction room, expr using Value.evaluationInduction generalizing session with
  | immediate room expr hexpr =>
    rw [exec_immediate session hexpr, definitions_immediate hexpr]
    rfl
  | definition room inner name body hroom ih =>
    rw [definitions_definition hroom]
    have hbody := ih session
    unfold EStateM.exec at hbody ⊢
    rw [evaluate_definition session hroom]
    cases session.bindings.contains name with
    | true => rfl
    | false =>
      -- The name is bound last, after whatever the body has bound.
      simp only [Bool.false_eq_true, if_false, Bindings.defineEach_append, ← hbody]
      cases evaluate inner body session <;> rfl
  | choice room inner c t a hroom ihc ihbranch =>
    rw [definitions_choice hroom, Bindings.defineEach_append, ← ihc session]
    unfold EStateM.exec at ihbranch ⊢
    rw [evaluate_choice session hroom]
    cases evaluate inner c session with
    | error reason after => rfl
    | ok value after => exact ihbranch value after
  | application room inner name args hroom hname ih =>
    have hargs := bindings_execEach ih session
    rw [definitions_application hroom hname]
    unfold EStateM.exec at hargs ⊢
    rw [evaluate_application session hroom hname]
    cases session.bindings.value? name with
    | none => rfl
    | some callee =>
      cases callee with
      | nil | bool | int | str | sym | list | quote | foreign => rfl
      | prim primitive =>
        simp only
        rw [← hargs]
        cases evaluateEach inner args session with
        | error reason after => rfl
        | ok values after => exact call_keeps _ primitive values after

theorem bindings_ok {expr value : Value} (h : evaluate room expr session = .ok value after) :
    after.bindings = session.bindings.defineEach (definitions room expr session) := by
  rw [← bindings_exec, EStateM.exec_ok h]

theorem bindings_okEach {args values : List Value}
    (h : evaluateEach room args session = .ok values after) :
    after.bindings = session.bindings.defineEach (definitionsEach room args session) := by
  rw [← bindings_execEach (fun arg _ => bindings_exec room arg) session, EStateM.exec_ok h]

end

/-! ## What the list holds -/

namespace Moment

variable [Host] {moment next target : Moment} {name : String} {value : Value} {after : Session}

/-- The bindings made from the moment on. -/
def made (moment : Moment) : List (String × Value) :=
  definitions moment.room moment.expr moment.session

/-- A definition binds the name to the value at the end of the moment; `after` is the
session that the evaluation of its body leaves. -/
inductive Defines : Moment → String → Value → Session → Prop where
  | intro {room inner name body session value after} :
      Room.enter Room.evaluateForm room = some inner → session.bindings.contains name = false →
      evaluate inner body session = .ok value after →
      Defines ⟨room, .definition name body, session⟩ name value after

theorem Defines.made_eq (h : moment.Defines name value after) :
    ∃ inner body, moment.expr = .definition name body ∧
      evaluate inner body moment.session = .ok value after ∧
      moment.made = definitions inner body moment.session ++ [(name, value)] := by
  cases h with
  | @intro _ inner _ body _ _ _ hroom hbound hbody =>
    exact ⟨inner, body, rfl, hbody, definitions_defined hroom hbound hbody⟩

/-- What a part makes is made in the same order by the whole. -/
theorem Enters.made_sublist (h : moment.Enters next) : next.made.Sublist moment.made := by
  unfold made
  cases h with
  | body hroom hbound =>
    rw [definitions_definition hroom, if_neg (by simp [hbound])]
    exact List.sublist_append_left _ _
  | condition hroom =>
    rw [definitions_choice hroom]
    exact List.sublist_append_left _ _
  | branch hroom hcondition =>
    rw [definitions_choice hroom, hcondition]
    exact List.sublist_append_right _ _
  | argument hroom hname hcallee hbefore =>
    rw [definitions_application hroom hname, hcallee,
      (definitionsEach_collects _).append hbefore, definitionsEach]
    exact (List.sublist_append_left _ _).trans (List.sublist_append_right _ _)

theorem Reaches.made_sublist (h : moment.Reaches target) : target.made.Sublist moment.made := by
  induction h using Relation.ReflTransGen.head_induction_on with
  | refl => exact List.Sublist.refl _
  | head hstep _ ih => exact ih.trans hstep.made_sublist

theorem Enters.defines (hstep : moment.Enters next)
    (h : ∃ target after, next.Reaches target ∧ target.Defines name value after) :
    ∃ target after, moment.Reaches target ∧ target.Defines name value after := by
  obtain ⟨target, after, hreach, hdefines⟩ := h
  exact ⟨target, after, .head hstep hreach, hdefines⟩

/-- Every entry of the list is made by a definition that is reached. -/
theorem exists_defines {room : Nat} {expr : Value} {session : Session}
    (h : (name, value) ∈ definitions room expr session) :
    ∃ target after, Reaches ⟨room, expr, session⟩ target ∧ target.Defines name value after := by
  induction room, expr using Value.evaluationInduction generalizing session with
  | immediate room expr hexpr => simp [definitions_immediate hexpr] at h
  | definition room inner key body hroom ih =>
    rw [definitions_definition hroom] at h
    cases hbound : session.bindings.contains key with
    | true => simp [hbound] at h
    | false =>
      -- The last entry is of the definition itself, those before it are of its body.
      rw [if_neg (by simp [hbound]), List.mem_append] at h
      rcases h with hinside | hlast
      · exact (Enters.body hroom hbound).defines (ih hinside)
      · cases hbody : evaluate inner body session with
        | error reason after => simp [hbody] at hlast
        | ok result after =>
          rw [hbody, List.mem_singleton] at hlast
          cases hlast
          exact ⟨_, after, .refl, .intro hroom hbound hbody⟩
  | choice room inner c t a hroom ihc ihbranch =>
    rw [definitions_choice hroom, List.mem_append] at h
    rcases h with hinside | hbranch
    · exact (Enters.condition hroom).defines (ihc hinside)
    · cases hcondition : evaluate inner c session with
      | error reason after => simp [hcondition] at hbranch
      | ok result between =>
        simp only [hcondition] at hbranch
        exact (Enters.branch hroom hcondition).defines (ihbranch result hbranch)
  | application room inner key args hroom hname ih =>
    rw [definitions_application hroom hname] at h
    split at h
    · rename_i primitive hcallee
      obtain ⟨before, arg, rest, values, between, rfl, hbefore, hmem⟩ :=
        (definitionsEach_collects inner).exists_of_mem h
      exact (Enters.argument hroom hname hcallee hbefore).defines (ih arg (by simp) hmem)
    · cases h

/-- What is made from a moment on is what the definitions reached bind. -/
theorem mem_made_iff : (name, value) ∈ moment.made ↔
    ∃ target after, moment.Reaches target ∧ target.Defines name value after := by
  constructor
  · exact exists_defines
  · rintro ⟨target, after, hreach, hdefines⟩
    obtain ⟨inner, body, -, -, heq⟩ := hdefines.made_eq
    refine hreach.made_sublist.subset ?_
    rw [heq]
    exact List.mem_append_right _ List.mem_cons_self

/-! ## Names stay bound -/

theorem Enters.contains (h : moment.Enters next)
    (hbound : moment.session.bindings.contains name = true) :
    next.session.bindings.contains name = true := by
  cases h with
  | body | condition => exact hbound
  | branch _ hcondition =>
    rw [bindings_ok hcondition, Bindings.contains_defineEach]
    exact .inl hbound
  | argument _ _ _ hbefore =>
    rw [bindings_okEach hbefore, Bindings.contains_defineEach]
    exact .inl hbound

theorem Reaches.contains (h : moment.Reaches target)
    (hbound : moment.session.bindings.contains name = true) :
    target.session.bindings.contains name = true := by
  induction h with
  | refl => exact hbound
  | tail _ hstep ih => exact hstep.contains ih

end Moment

section
variable [Host] {room : Nat} {expr : Value} {session : Session} {name : String} {value : Value}

/-- Only names that are not bound before are bound. -/
theorem contains_of_mem_definitions (h : (name, value) ∈ definitions room expr session) :
    session.bindings.contains name = false := by
  obtain ⟨target, after, hreach, hdefines⟩ := Moment.exists_defines h
  cases hbound : session.bindings.contains name with
  | false => rfl
  | true =>
    have htarget := hreach.contains hbound
    cases hdefines with
    | intro _ hunbound _ => simp [htarget] at hunbound

theorem contains_of_mem_definitionsEach {args : List Value} {entry : String × Value}
    (h : entry ∈ definitionsEach room args session) :
    session.bindings.contains entry.1 = false := by
  obtain ⟨before, arg, rest, values, between, rfl, hbefore, hmem⟩ :=
    (definitionsEach_collects room).exists_of_mem h
  have hbetween := contains_of_mem_definitions hmem
  cases hbound : session.bindings.contains entry.1 with
  | false => rfl
  | true =>
    rw [bindings_okEach hbefore, Bindings.contains_defineEach.mpr (.inl hbound)] at hbetween
    cases hbetween

/-- Only targets of definitions in evaluated positions are bound. -/
theorem within_of_mem_definitions (h : (name, value) ∈ definitions room expr session) :
    ∃ body, Within (.definition name body) expr := by
  obtain ⟨target, after, hreach, hdefines⟩ := Moment.exists_defines h
  cases hdefines with
  | @intro _ _ _ body => exact ⟨body, hreach.within⟩

end

end Sexpr
