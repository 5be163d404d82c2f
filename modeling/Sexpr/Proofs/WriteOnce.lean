import Sexpr.Proofs.Histories

/-!
# Names are bound once, unless a definition binds its own name

A definition looks whether its name is bound before it evaluates its body, and binds it
afterwards in any case. So a body that binds the name is overwritten. Main statement:
this is the only way in which a name comes to have two values, in any history of
commands; and without a definition inside another one of the same name, every name is
bound at most once.
-/
namespace Sexpr

/-- If the entries are of one name, they give it one value. -/
def Agree (entry other : String × Value) : Prop := entry.1 = other.1 → entry.2 = other.2

/-- The moment is of a definition whose body has bound the name to another value. -/
def Moment.Overwrites [Host] (moment : Moment) : Prop :=
  ∃ name value after old,
    moment.Defines name value after ∧ after.bindings.get? name = some old ∧ old ≠ value

/-- Somewhere in the expression a definition is evaluated inside another one of its name. -/
def Value.Renests (expr : Value) : Prop :=
  ∃ name outer inner, Within (.definition name outer) expr ∧ Within (.definition name inner) outer

/-! ## Values in the list -/

namespace Bindings

variable {bindings : Bindings} {name : String} {value : Value} {made : List (String × Value)}

/-- If the entries of each name agree, they are what is left. -/
theorem get?_defineEach_of_mem (hmade : made.Pairwise Agree) (h : (name, value) ∈ made) :
    (bindings.defineEach made).get? name = some value := by
  induction made generalizing bindings with
  | nil => cases h
  | cons entry rest ih =>
    obtain ⟨hentry, hrest⟩ := List.pairwise_cons.mp hmade
    rw [defineEach_cons]
    rcases List.mem_cons.mp h with rfl | hmem
    · by_cases hname : name ∈ rest.map Prod.fst
      · obtain ⟨later, hlater, heq⟩ := List.mem_map.mp hname
        have hvalue : later.2 = value := (hentry later hlater heq.symm).symm
        exact ih hrest (heq ▸ hvalue ▸ hlater)
      · rw [get?_defineEach_of_not_mem hname, get?_define, if_pos rfl]
    · exact ih hrest hmem

/-- What a name is bound to stands in the list, or the name was bound to it before. -/
theorem mem_or_of_get?_defineEach (h : (bindings.defineEach made).get? name = some value) :
    (name, value) ∈ made ∨ bindings.get? name = some value := by
  induction made generalizing bindings with
  | nil => exact .inr h
  | cons entry rest ih =>
    rcases ih h with hmem | hget
    · exact .inl (List.mem_cons_of_mem _ hmem)
    · rw [get?_define] at hget
      split at hget
      · rename_i hname
        cases hget
        exact .inl (by simp [hname])
      · exact .inr hget

end Bindings

/-! ## Pairs of entries -/

section
variable {R : String × Value → String × Value → Prop} {made others : List (String × Value)}

/-- Entries that are made one after the other are of different names. -/
theorem pairwise_append_of_fresh {session middle : Session}
    (hR : ∀ entry other, entry.1 ≠ other.1 → R entry other)
    (hmiddle : middle.bindings = session.bindings.defineEach made)
    (hfresh : ∀ other ∈ others, middle.bindings.contains other.1 = false)
    (hmade : made.Pairwise R) (hothers : others.Pairwise R) : (made ++ others).Pairwise R := by
  refine List.pairwise_append.mpr ⟨hmade, hothers, ?_⟩
  intro entry hentry other hother
  refine hR entry other fun hname => ?_
  have hbound : middle.bindings.contains other.1 = true := by
    rw [hmiddle, Bindings.contains_defineEach, ← hname]
    exact .inr (List.mem_map_of_mem hentry)
  simp [hfresh other hother] at hbound

variable [Host] {room : Nat} {session : Session}

theorem pairwise_definitionsEach {args : List Value}
    (hR : ∀ entry other, entry.1 ≠ other.1 → R entry other)
    (h : ∀ before arg rest values between, args = before ++ arg :: rest →
      evaluateEach room before session = .ok values between →
      (definitions room arg between).Pairwise R) :
    (definitionsEach room args session).Pairwise R := by
  induction args generalizing session with
  | nil => exact .nil
  | cons arg args ih =>
    rw [definitionsEach]
    have hfirst := h [] arg args [] session rfl rfl
    cases harg : evaluate room arg session with
    | error reason after => simpa using hfirst
    | ok value after =>
      refine pairwise_append_of_fresh hR (bindings_ok harg)
        (fun other hother => contains_of_mem_definitionsEach hother) hfirst (ih ?_)
      intro before arg' rest values between hargs hbefore
      exact h (arg :: before) arg' rest (value :: values) between (by rw [hargs]; rfl)
        (evaluateEach_cons_eq_ok_iff.mpr ⟨value, values, after, rfl, harg, hbefore⟩)

/-- Entries of different names stand in the relation to each other. So do all if those that
the body of a definition has made stand in it to that of the definition. -/
theorem pairwise_definitions {expr : Value} (hR : ∀ entry other, entry.1 ≠ other.1 → R entry other)
    (h : ∀ target name value after, Moment.Reaches ⟨room, expr, session⟩ target →
      target.Defines name value after → target.made.dropLast.Pairwise R →
      ∀ entry ∈ target.made.dropLast, R entry (name, value)) :
    (definitions room expr session).Pairwise R := by
  induction room, expr using Value.evaluationInduction generalizing session with
  | immediate room expr hexpr =>
    rw [definitions_immediate hexpr]
    exact .nil
  | definition room inner name body hroom ih =>
    cases hbound : session.bindings.contains name with
    | true => simp [definitions_definition hroom, hbound]
    | false =>
      have hbody := ih fun target key value after hreach =>
        h target key value after (.head (.body hroom hbound) hreach)
      cases hvalue : evaluate inner body session with
      | error reason after => simpa [definitions_definition hroom, hbound, hvalue] using hbody
      | ok value after =>
        have heq := definitions_defined hroom hbound hvalue
        have hlast := h _ name value after .refl (.intro hroom hbound hvalue)
        rw [Moment.made, heq, List.dropLast_concat] at hlast
        rw [heq, List.pairwise_append]
        refine ⟨hbody, List.pairwise_singleton _ _, ?_⟩
        intro entry hentry other hother
        rw [List.mem_singleton] at hother
        exact hother ▸ hlast hbody entry hentry
  | choice room inner c t a hroom ihc ihbranch =>
    rw [definitions_choice hroom]
    have hcondition := ihc fun target key value after hreach =>
      h target key value after (.head (.condition hroom) hreach)
    cases hvalue : evaluate inner c session with
    | error reason after => simpa using hcondition
    | ok value after =>
      -- The branch begins in the session that the condition leaves, where what the
      -- condition has made is bound.
      refine pairwise_append_of_fresh hR (bindings_ok hvalue)
        (fun other hother => contains_of_mem_definitions hother) hcondition ?_
      exact ihbranch value fun target key result later hreach =>
        h target key result later (.head (.branch hroom hvalue) hreach)
  | application room inner name args hroom hname ih =>
    rw [definitions_application hroom hname]
    split
    · rename_i primitive hcallee
      refine pairwise_definitionsEach hR ?_
      rintro before arg rest values between rfl hbefore
      exact ih arg (by simp) fun target key value after hreach =>
        h target key value after (.head (.argument hroom hname hcallee hbefore) hreach)
    · exact .nil

/-- A relation between all entries of different names is one between all entries exactly if
no definition that is reached breaks it, where none inside it has. -/
theorem pairwise_made_iff (hR : ∀ entry other, entry.1 ≠ other.1 → R entry other)
    (moment : Moment) :
    moment.made.Pairwise R ↔
      ∀ target name value after, moment.Reaches target → target.Defines name value after →
        target.made.dropLast.Pairwise R → ∀ entry ∈ target.made.dropLast, R entry (name, value) := by
  constructor
  · intro hmade target name value after hreach hdefines _ entry hentry
    obtain ⟨inner, body, -, -, heq⟩ := hdefines.made_eq
    have htarget := hmade.sublist hreach.made_sublist
    rw [heq, List.pairwise_append] at htarget
    rw [heq, List.dropLast_concat] at hentry
    exact htarget.2.2 entry hentry _ List.mem_cons_self
  · exact pairwise_definitions hR

/-! ## One value for each name -/

/-- The values of a name differ exactly if a definition that is reached overwrites one. -/
theorem pairwise_agree_iff (moment : Moment) :
    moment.made.Pairwise Agree ↔ ∀ target, moment.Reaches target → ¬target.Overwrites := by
  constructor
  · rintro hmade target hreach ⟨name, value, after, old, hdefines, hget, hne⟩
    obtain ⟨inner, body, -, hbody, heq⟩ := hdefines.made_eq
    have htarget := hmade.sublist hreach.made_sublist
    rw [heq, List.pairwise_append] at htarget
    rw [bindings_ok hbody] at hget
    -- The old value was made by the body, since the name was unbound before it.
    rcases Bindings.mem_or_of_get?_defineEach hget with hmem | hbefore
    · exact hne (htarget.2.2 _ hmem _ List.mem_cons_self rfl)
    · cases hdefines with
      | intro _ hunbound _ => simp [Bindings.contains, hbefore] at hunbound
  · intro h
    have hdiffer (entry other : String × Value) (hname : entry.1 ≠ other.1) : Agree entry other :=
      fun heq => (hname heq).elim
    rw [pairwise_made_iff hdiffer]
    intro target name value after hreach hdefines hpairs entry hentry hname
    have hkey : entry.1 = name := hname
    refine Classical.byContradiction fun hne => ?_
    obtain ⟨inner, body, -, hbody, heq⟩ := hdefines.made_eq
    -- The entries of the body agree, so this one is what the body leaves of its name.
    rw [heq, List.dropLast_concat] at hpairs hentry
    refine h target hreach ⟨name, value, after, entry.2, hdefines, ?_, hne⟩
    rw [bindings_ok hbody]
    exact Bindings.get?_defineEach_of_mem hpairs (hkey ▸ hentry)

/-- Without a definition inside another one of its name, no name is bound twice. -/
theorem nodup_made {moment : Moment} (h : ¬moment.expr.Renests) :
    (moment.made.map Prod.fst).Nodup := by
  unfold List.Nodup
  rw [List.pairwise_map, pairwise_made_iff fun entry other hname => hname]
  intro target name value after hreach hdefines _ entry hentry hname
  obtain ⟨inner, body, hexpr, _, heq⟩ := hdefines.made_eq
  rw [heq, List.dropLast_concat] at hentry
  have hkey : entry.1 = name := hname
  obtain ⟨innermost, hwithin⟩ := within_of_mem_definitions (hentry : (entry.1, entry.2) ∈ _)
  exact h ⟨name, body, innermost, hexpr ▸ hreach.within, hkey ▸ hwithin⟩

end

/-! ## Histories -/

namespace Leads

variable [Host] {session last : Session} {moments : List Moment}

theorem bindings_eq (h : Leads session moments last) :
    last.bindings = session.bindings.defineEach (moments.flatMap Moment.made) := by
  induction h with
  | nil => rfl
  | cons _ ih => rw [ih, bindings_exec, List.flatMap_cons, Bindings.defineEach_append]; rfl

theorem contains_of_mem (h : Leads session moments last) {entry : String × Value}
    (hentry : entry ∈ moments.flatMap Moment.made) :
    session.bindings.contains entry.1 = false := by
  induction h with
  | nil => cases hentry
  | @cons room expr session moments last _ ih =>
    rw [List.flatMap_cons, List.mem_append] at hentry
    rcases hentry with hfirst | hrest
    · exact contains_of_mem_definitions hfirst
    · have hlater := ih hrest
      cases hbound : session.bindings.contains entry.1 with
      | false => rfl
      | true =>
        rw [bindings_exec, Bindings.contains_defineEach.mpr (.inl hbound)] at hlater
        cases hlater

theorem pairwise_iff {R : String × Value → String × Value → Prop} (h : Leads session moments last)
    (hR : ∀ entry other, entry.1 ≠ other.1 → R entry other) :
    (moments.flatMap Moment.made).Pairwise R ↔ ∀ moment ∈ moments, moment.made.Pairwise R := by
  constructor
  · intro hmade moment hmoment
    rw [List.flatMap_def] at hmade
    exact hmade.sublist (List.sublist_flatten_of_mem (List.mem_map_of_mem hmoment))
  · intro hmade
    induction h with
    | nil => exact .nil
    | @cons room expr session moments last hrest ih =>
      refine pairwise_append_of_fresh hR (bindings_exec room expr session)
        (fun other hother => hrest.contains_of_mem hother) (hmade _ List.mem_cons_self) ?_
      exact ih fun moment hmoment => hmade moment (List.mem_cons_of_mem _ hmoment)

end Leads

/-! ## When names are bound once -/

/-- A definition leaves what its body has bound its name to exactly if that is the value
of the body. -/
theorem evaluate_definition_rebound [Host] {room inner : Nat} {name : String} {body value old : Value}
    {session after : Session} (hnew : session.bindings.contains name = false)
    (hroom : Room.enter Room.evaluateForm room = some inner)
    (hbody : evaluate inner body session = .ok value after) :
    ∃ final, evaluate room (.definition name body) session = .ok (.sym name) final ∧
      (final.bindings.get? name = some old ↔ value = old) := by
  refine ⟨after.put name value, ?_, ?_⟩
  · rw [evaluate_definition session hroom, if_neg (by simp [hnew]), hbody]
  · have hfinal : (after.put name value).bindings.get? name = some value := by
      rw [Session.put, Bindings.get?_define, if_pos rfl]
    rw [hfinal, Option.some_inj]

/-- When names are bound once. For a definition whose body binds its name: what the body
has bound stays exactly if it is the value of the body. For any history of commands: the
bindings it makes account for those it leaves, are the ones of the definitions reached, and
are of no name that was bound before; a name has two values among them exactly if a
definition is reached that overwrites one; and no name is bound twice unless some source
has a definition inside another one of its name. -/
theorem names_bound_once [Host] :
    (∀ room inner name body session value after old,
      session.bindings.contains name = false → Room.enter Room.evaluateForm room = some inner →
      evaluate inner body session = .ok value after → after.bindings.get? name = some old →
      ∃ final, evaluate room (.definition name body) session = .ok (.sym name) final ∧
        (final.bindings.get? name = some old ↔ value = old)) ∧
    ∀ session history,
      let moments := History.moments session history
      let made := moments.flatMap Moment.made
      (History.exec session history).bindings = session.bindings.defineEach made ∧
      (∀ name value, (name, value) ∈ made ↔ ∃ start ∈ moments, ∃ target after,
        start.Reaches target ∧ target.Defines name value after) ∧
      (∀ entry ∈ made, session.bindings.contains entry.1 = false) ∧
      (made.Pairwise Agree ↔
        ∀ start ∈ moments, ∀ target, start.Reaches target → ¬target.Overwrites) ∧
      ((∀ command ∈ history, ∀ form ∈ (Source.reading command.source).values, ¬form.Renests) →
        (made.map Prod.fst).Nodup) := by
  refine ⟨?_, fun session history => ?_⟩
  · intro room inner name body session value after old hnew hroom hbody _
    exact evaluate_definition_rebound hnew hroom hbody
  have hleads := History.leads session history
  refine ⟨hleads.bindings_eq, ?_, fun entry => hleads.contains_of_mem, ?_, ?_⟩
  · intro name value
    simp only [List.mem_flatMap, Moment.mem_made_iff]
  · rw [hleads.pairwise_iff fun entry other hname heq => (hname heq).elim]
    exact forall₂_congr fun moment _ => pairwise_agree_iff moment
  · intro hforms
    unfold List.Nodup
    rw [List.pairwise_map, hleads.pairwise_iff fun entry other hname => hname]
    intro moment hmoment
    obtain ⟨command, hcommand, hexpr⟩ := History.expr_mem_of_mem_moments hmoment
    exact List.pairwise_map.mp (nodup_made (hforms command hcommand _ hexpr))

/-- The body of the definition binds `n` to the value it has itself, which stays. -/
theorem names_bound_once_sample :
    ∃ final, evaluate 100 (.definition "n" (.choice (.definition "n" (.int 1)) (.sym "n") .nil))
        .initial = .ok (.sym "n") final ∧
      final.bindings.get? "n" = some (.int 1) := by
  obtain ⟨final, hfinal, hiff⟩ := names_bound_once.1 100 97 "n"
    (.choice (.definition "n" (.int 1)) (.sym "n") .nil) .initial (.int 1)
    (Session.initial.put "n" (.int 1)) (.int 1) rfl rfl rfl rfl
  exact ⟨final, hfinal, hiff.mpr rfl⟩

/-- A definition overwrites what its body has bound its name to: here `1` by the symbol. -/
theorem name_bound_twice :
    ∃ after final, Session.initial.bindings.contains "n" = false ∧
      evaluate 97 (.definition "n" (.int 1)) .initial = .ok (.sym "n") after ∧
      after.bindings.get? "n" = some (.int 1) ∧
      evaluate 100 (.definition "n" (.definition "n" (.int 1))) .initial = .ok (.sym "n") final ∧
      final.bindings.get? "n" = some (.sym "n") :=
  ⟨_, _, rfl, rfl, rfl, rfl, rfl⟩

end Sexpr
