import Sexpr.Builtin
import Sexpr.Proofs.Rendering

/-!
# Lists

Main statement: the operations on lists put lists together and take them apart as one
expects. What is put in front of a list is its first member, and the list is what is left;
taking the rest again and again comes to every member and then stays at the empty list,
whose first member is nil. Each operation has a value exactly for the arguments that it is
meant for, and nil alone is nil: the empty list, false and zero are not.
-/
namespace Sexpr

variable {args : List Value} {value : Value}

theorem members_eq_ok_iff {items : List Value} :
    members value = .ok items ↔ value = .list items := by
  cases value with
  | list others => simp [members]
  | nil | bool | int | str | sym | quote | prim | foreign => simp [members]

/-- What is made of the members of an argument is made of those of a list. -/
theorem members_bind_eq_ok_iff {arg : Value} {make : List Value → Except Rejection Value} :
    (members arg >>= make) = .ok value ↔
      ∃ items, arg = .list items ∧ make items = .ok value := by
  simp only [bind_eq_ok_iff, members_eq_ok_iff]

/-- Nothing but nil is nil. -/
theorem Value.isNil_iff : value.isNil = true ↔ value = .nil := by
  cases value with
  | nil => simp [isNil]
  | bool | int | str | sym | list | quote | prim | foreign => simp [isNil]

namespace Builtin

/-! ## Single operations -/

theorem first_eq_ok_iff : first.apply args = .ok value ↔
    ∃ items, args = [.list items] ∧ value = items.head?.getD .nil := by
  constructor
  · intro h
    match args, h with
    | [arg], h =>
      obtain ⟨items, rfl, hreturn⟩ := members_bind_eq_ok_iff.mp h
      cases hreturn
      exact ⟨items, rfl, rfl⟩
  · rintro ⟨items, rfl, rfl⟩
    rfl

theorem rest_eq_ok_iff : rest.apply args = .ok value ↔
    ∃ items, args = [.list items] ∧ value = .list items.tail := by
  constructor
  · intro h
    match args, h with
    | [arg], h =>
      obtain ⟨items, rfl, hreturn⟩ := members_bind_eq_ok_iff.mp h
      cases hreturn
      exact ⟨items, rfl, rfl⟩
  · rintro ⟨items, rfl, rfl⟩
    rfl

theorem cons_eq_ok_iff : cons.apply args = .ok value ↔
    ∃ head items, args = [head, .list items] ∧ value = .list (head :: items) := by
  constructor
  · intro h
    match args, h with
    | [head, arg], h =>
      obtain ⟨items, rfl, hreturn⟩ := members_bind_eq_ok_iff.mp h
      cases hreturn
      exact ⟨head, items, rfl, rfl⟩
  · rintro ⟨head, items, rfl, rfl⟩
    rfl

/-! ## Operations one after the other -/

/-- Take the rest so many times. -/
def restTimes : Nat → Value → Except Rejection Value
  | 0, value => .ok value
  | times + 1, value => do restTimes times (← rest.apply [value])

theorem restTimes_list (times : Nat) (items : List Value) :
    restTimes times (.list items) = .ok (.list (items.drop times)) := by
  induction times generalizing items with
  | zero => rfl
  | succ times ih =>
    have hrest : rest.apply [.list items] = .ok (.list items.tail) :=
      rest_eq_ok_iff.mpr ⟨items, rfl, rfl⟩
    rw [restTimes, hrest]
    change restTimes times (.list items.tail) = _
    rw [ih, List.drop_tail]

/-- Putting the items in front of the empty list, from the last to the first, makes their list. -/
theorem foldrM_cons (items : List Value) :
    items.foldrM (fun item tail => cons.apply [item, tail]) (.list []) =
      (.ok (.list items) : Except Rejection Value) := by
  induction items with
  | nil => rfl
  | cons item items ih =>
    rw [List.foldrM_cons, ih]
    exact cons_eq_ok_iff.mpr ⟨item, items, rfl, rfl⟩

end Builtin

/-- The operations on lists put lists together and take them apart. What is put in front of a
list is its first member and leaves that list as the rest, and a list that is not empty is its
first member in front of its rest. After any number of rests, the first member is the one at
that place, or nil past the end, where only the empty list is left. A list of values is made
by putting each in front, from the last to the first. First and rest have a value exactly for
one list, and cons for any value and a list; list and nil? always have one, and nil? answers
whether all arguments are nil. -/
theorem lists_put_together :
    (∀ value items,
      (Builtin.cons.apply [value, .list items] >>= fun list => Builtin.first.apply [list]) = .ok value ∧
      (Builtin.cons.apply [value, .list items] >>= fun list => Builtin.rest.apply [list]) =
        .ok (.list items)) ∧
    (∀ items, items ≠ [] →
      (do Builtin.cons.apply [← Builtin.first.apply [.list items], ← Builtin.rest.apply [.list items]]) =
        .ok (.list items)) ∧
    (∀ times items,
      (Builtin.restTimes times (.list items) >>= fun list => Builtin.first.apply [list]) =
        .ok (items.getD times .nil) ∧
      (items.length ≤ times → Builtin.restTimes times (.list items) = .ok (.list []))) ∧
    (∀ items, Builtin.list.apply items =
      items.foldrM (fun item tail => Builtin.cons.apply [item, tail]) (.list [])) ∧
    (∀ args, ((∃ value, Builtin.first.apply args = .ok value) ↔ ∃ items, args = [.list items]) ∧
      ((∃ value, Builtin.rest.apply args = .ok value) ↔ ∃ items, args = [.list items]) ∧
      ((∃ value, Builtin.cons.apply args = .ok value) ↔ ∃ head items, args = [head, .list items]) ∧
      (∃ value, Builtin.list.apply args = .ok value) ∧
      ∃ answer, Builtin.isNil.apply args = .ok (.bool answer) ∧
        (answer = true ↔ ∀ arg ∈ args, arg = .nil)) := by
  refine ⟨fun value items => ⟨?_, ?_⟩, fun items hitems => ?_, fun times items => ⟨?_, fun hlength => ?_⟩,
    fun items => ?_, fun args => ⟨?_, ?_, ?_, ⟨_, rfl⟩, _, rfl, ?_⟩⟩
  · rfl
  · rfl
  · cases items with
    | nil => exact absurd rfl hitems
    | cons item items => rfl
  · rw [Builtin.restTimes_list]
    change Builtin.first.apply [.list (items.drop times)] = _
    rw [Builtin.first_eq_ok_iff]
    exact ⟨_, rfl, by rw [List.head?_drop, List.getD_eq_getElem?_getD]⟩
  · rw [Builtin.restTimes_list, List.drop_eq_nil_of_le hlength]
  · rw [Builtin.foldrM_cons]
    rfl
  · simp only [Builtin.first_eq_ok_iff]
    exact ⟨fun ⟨_, items, hargs, _⟩ => ⟨items, hargs⟩, fun ⟨items, hargs⟩ => ⟨_, items, hargs, rfl⟩⟩
  · simp only [Builtin.rest_eq_ok_iff]
    exact ⟨fun ⟨_, items, hargs, _⟩ => ⟨items, hargs⟩, fun ⟨items, hargs⟩ => ⟨_, items, hargs, rfl⟩⟩
  · simp only [Builtin.cons_eq_ok_iff]
    exact ⟨fun ⟨_, head, items, hargs, _⟩ => ⟨head, items, hargs⟩,
      fun ⟨head, items, hargs⟩ => ⟨_, head, items, hargs, rfl⟩⟩
  · simp only [List.all_eq_true, Value.isNil_iff]

/-- A list that is not empty is put together from its parts, and past its end there is nil. -/
theorem lists_put_together_sample :
    let items := [Value.list [], .bool false]
    (do Builtin.cons.apply [← Builtin.first.apply [.list items], ← Builtin.rest.apply [.list items]]) =
        .ok (.list items) ∧
      Builtin.restTimes 5 (.list items) = .ok (.list []) ∧
      (Builtin.restTimes 5 (.list items) >>= fun list => Builtin.first.apply [list]) = .ok .nil := by
  intro items
  obtain ⟨-, htogether, hrests, -⟩ := lists_put_together
  obtain ⟨hnil, hempty⟩ := hrests 5 items
  exact ⟨htogether items (by simp [items]), hempty (by decide), hnil⟩

end Sexpr
