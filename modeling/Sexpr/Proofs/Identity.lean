import Mathlib.Data.List.Forall2
import Sexpr.Failure
import Sexpr.Proofs.Values

/-!
# Equality is identity of trees

Main statement: a comparison that has room enough tells whether the values are the same
tree, whichever of them comes first, and failures are told apart by their kinds and by what
they carry. Values may have parts in common. A comparison that knows parts to be one object
can pass over them, which saves room, and comes to the same answer.
-/
namespace Sexpr

/-- Where there is room for some levels, there is room inside for one less. -/
theorem Room.enter_level {levels room : Nat} (h : compareLevel * (levels + 1) ≤ room) :
    ∃ inner, enter compareLevel room = some inner ∧ compareLevel * levels ≤ inner := by
  obtain ⟨rest, rfl⟩ := Nat.exists_eq_add_of_le h
  refine ⟨compareLevel * levels + rest, enter_eq_some_iff.mpr ?_, Nat.le_add_right _ _⟩
  rw [Nat.mul_succ]
  omega

namespace Value

/-! ## Levels -/

mutual

/-- How many lists and quotes stand one inside the other. -/
def levels : Value → Nat
  | .list items => levelsEach items + 1
  | .quote inner => levels inner + 1
  | _ => 0

/-- The most levels that one of the values has. -/
def levelsEach : List Value → Nat
  | [] => 0
  | value :: rest => max (levels value) (levelsEach rest)

end

/-! ## Parts in common -/

mutual

/-- A comparison that passes over some parts which are one object may come to this answer.
What it can tell without going a level down, it tells as `compare` does. -/
inductive Tells : Nat → Value → Value → Bool → Prop where
  | one {room value} : Tells room value value true
  | plain {room a b answer} : a.compare 0 b = some answer → Tells room a b answer
  | list {room inner as bs answer} : as.length = bs.length →
      Room.enter Room.compareLevel room = some inner → TellsEach inner as bs answer →
      Tells room (.list as) (.list bs) answer
  | quote {room inner a b answer} : Room.enter Room.compareLevel room = some inner →
      Tells inner a b answer → Tells room (.quote a) (.quote b) answer

/-- A comparison of the members of two lists, in order, may come to this answer. -/
inductive TellsEach : Nat → List Value → List Value → Bool → Prop where
  | nil {room} : TellsEach room [] [] true
  | differ {room a b as bs} : Tells room a b false → TellsEach room (a :: as) (b :: bs) false
  | next {room a b as bs answer} : Tells room a b true → TellsEach room as bs answer →
      TellsEach room (a :: as) (b :: bs) answer

end

variable {room : Nat} {a b : Value} {answer : Bool}

/-! ## Two trees side by side -/

/-- The values are told apart or found equal without going a level down. -/
structure Plain (a b : Value) (answer : Bool) : Prop where
  iff : answer = true ↔ a = b
  compare : ∀ room, a.compare room b = some answer
  reverse : ∀ room, b.compare room a = some answer

/-- Leaves of one variant are equal if they hold the same. -/
theorem plain_leaf {α : Type} [DecidableEq α] {leaf : α → Value}
    (hleaf : ∀ x y, leaf x = leaf y → x = y)
    (h : ∀ room x y, (leaf x).compare room (leaf y) = some (decide (x = y))) (x y : α) :
    Plain (leaf x) (leaf y) (decide (x = y)) where
  iff := by
    rw [decide_eq_true_iff]
    exact ⟨congrArg leaf, hleaf x y⟩
  compare room := h room x y
  reverse room := by
    rw [h]
    simp only [eq_comm]

/-- Induction over two values side by side, as far as they are lists of one length or quotes. -/
@[elab_as_elim]
theorem pairInduction {P : Value → Value → Prop}
    (plain : ∀ a b answer, Plain a b answer → P a b)
    (list : ∀ as bs, as.length = bs.length → (∀ a ∈ as, ∀ b ∈ bs, P a b) → P (.list as) (.list bs))
    (quote : ∀ a b, P a b → P (.quote a) (.quote b)) (a b : Value) : P a b := by
  -- Values of two variants differ at once; those of one variant are taken apart.
  have hdiffer {a b : Value} (hne : a ≠ b) (h : ∀ room, a.compare room b = some false)
      (h' : ∀ room, b.compare room a = some false) : P a b :=
    plain a b false ⟨by simp [hne], h, h'⟩
  induction a generalizing b with
  | nil =>
    cases b with
    | nil => exact plain _ _ true ⟨by simp, fun _ => rfl, fun _ => rfl⟩
    | bool | int | str | sym | list | quote | prim | foreign =>
      exact hdiffer nofun (fun _ => rfl) fun _ => rfl
  | bool x =>
    cases b with
    | bool y => exact plain _ _ _ (plain_leaf (fun _ _ => bool.inj) (fun _ _ _ => rfl) x y)
    | nil | int | str | sym | list | quote | prim | foreign =>
      exact hdiffer nofun (fun _ => rfl) fun _ => rfl
  | int x =>
    cases b with
    | int y => exact plain _ _ _ (plain_leaf (fun _ _ => int.inj) (fun _ _ _ => rfl) x y)
    | nil | bool | str | sym | list | quote | prim | foreign =>
      exact hdiffer nofun (fun _ => rfl) fun _ => rfl
  | str x =>
    cases b with
    | str y => exact plain _ _ _ (plain_leaf (fun _ _ => str.inj) (fun _ _ _ => rfl) x y)
    | nil | bool | int | sym | list | quote | prim | foreign =>
      exact hdiffer nofun (fun _ => rfl) fun _ => rfl
  | sym x =>
    cases b with
    | sym y => exact plain _ _ _ (plain_leaf (fun _ _ => sym.inj) (fun _ _ _ => rfl) x y)
    | nil | bool | int | str | list | quote | prim | foreign =>
      exact hdiffer nofun (fun _ => rfl) fun _ => rfl
  | prim x =>
    cases b with
    | prim y => exact plain _ _ _ (plain_leaf (fun _ _ => prim.inj) (fun _ _ _ => rfl) x y)
    | nil | bool | int | str | sym | list | quote | foreign =>
      exact hdiffer nofun (fun _ => rfl) fun _ => rfl
  | foreign x =>
    cases b with
    | foreign y => exact plain _ _ _ (plain_leaf (fun _ _ => foreign.inj) (fun _ _ _ => rfl) x y)
    | nil | bool | int | str | sym | list | quote | prim =>
      exact hdiffer nofun (fun _ => rfl) fun _ => rfl
  | list as ih =>
    cases b with
    | list bs =>
      by_cases hlength : as.length = bs.length
      · exact list as bs hlength fun a ha b _ => ih a ha b
      · refine hdiffer (fun h => hlength (congrArg List.length (Value.list.inj h))) ?_ ?_
        · exact fun _ => if_neg hlength
        · exact fun _ => if_neg (Ne.symm hlength)
    | nil | bool | int | str | sym | quote | prim | foreign =>
      exact hdiffer nofun (fun _ => rfl) fun _ => rfl
  | quote a ih =>
    cases b with
    | quote b => exact quote a b (ih b)
    | nil | bool | int | str | sym | list | prim | foreign =>
      exact hdiffer nofun (fun _ => rfl) fun _ => rfl

/-! ## Comparisons of lists and quotes -/

theorem compare_list {as bs : List Value} (hlength : as.length = bs.length) :
    (list as).compare room (.list bs) = some answer ↔
      ∃ inner, Room.enter Room.compareLevel room = some inner ∧
        compareEach inner as bs = some answer := by
  rw [compare, if_pos hlength]
  cases Room.enter Room.compareLevel room <;> simp

theorem compare_quote :
    (quote a).compare room (.quote b) = some answer ↔
      ∃ inner, Room.enter Room.compareLevel room = some inner ∧
        a.compare inner b = some answer := by
  rw [compare]
  cases Room.enter Room.compareLevel room <;> simp

theorem compareEach_cons {as bs : List Value} :
    compareEach room (a :: as) (b :: bs) = some answer ↔
      (a.compare room b = some false ∧ answer = false) ∨
        (a.compare room b = some true ∧ compareEach room as bs = some answer) := by
  rw [compareEach]
  cases a.compare room b with
  | none => simp
  | some first => cases first <;> simp [eq_comm]

theorem compareEach_comm {as bs : List Value}
    (h : ∀ a ∈ as, ∀ b ∈ bs, a.compare room b = b.compare room a) :
    compareEach room as bs = compareEach room bs as := by
  induction as generalizing bs with
  | nil => cases bs <;> rfl
  | cons a as ih =>
    cases bs with
    | nil => rfl
    | cons b bs =>
      have hrest : compareEach room as bs = compareEach room bs as :=
        ih fun a ha b hb => h a (List.mem_cons_of_mem _ ha) b (List.mem_cons_of_mem _ hb)
      rw [compareEach, compareEach, h a List.mem_cons_self b List.mem_cons_self, hrest]

/-- Which of the values comes first does not matter. -/
theorem compare_comm (room : Nat) (a b : Value) : a.compare room b = b.compare room a := by
  induction a, b using pairInduction generalizing room with
  | plain a b answer h => rw [h.compare, h.reverse]
  | list as bs hlength ih =>
    rw [compare, compare, if_pos hlength, if_pos hlength.symm]
    cases Room.enter Room.compareLevel room with
    | none => rfl
    | some inner => exact compareEach_comm fun a ha b hb => ih a ha b hb inner
  | quote a b ih =>
    rw [compare, compare]
    cases Room.enter Room.compareLevel room with
    | none => rfl
    | some inner => exact ih inner

/-! ## Passing over parts -/

theorem tellsEach_of_compareEach {as bs : List Value} (hlength : as.length = bs.length)
    (h : ∀ a ∈ as, ∀ b ∈ bs, ∀ answer, a.compare room b = some answer → Tells room a b answer)
    (hanswer : compareEach room as bs = some answer) : TellsEach room as bs answer := by
  induction as generalizing bs with
  | nil =>
    cases bs with
    | nil =>
      cases hanswer
      exact .nil
    | cons b bs => cases hlength
  | cons a as ih =>
    cases bs with
    | nil => cases hlength
    | cons b bs =>
      have hfirst := h a List.mem_cons_self b List.mem_cons_self
      rcases compareEach_cons.mp hanswer with ⟨hdiffer, rfl⟩ | ⟨hsame, hrest⟩
      · exact .differ (hfirst false hdiffer)
      · refine .next (hfirst true hsame) (ih (Nat.succ.inj hlength) ?_ hrest)
        exact fun a ha b hb => h a (List.mem_cons_of_mem _ ha) b (List.mem_cons_of_mem _ hb)

/-- Passing over nothing is one way to compare. -/
theorem tells_of_compare (h : a.compare room b = some answer) : Tells room a b answer := by
  induction a, b using pairInduction generalizing room answer with
  | plain a b told hplain =>
    rw [hplain.compare] at h
    cases h
    exact .plain (hplain.compare 0)
  | list as bs hlength ih =>
    obtain ⟨inner, hroom, heach⟩ := (compare_list hlength).mp h
    exact .list hlength hroom
      (tellsEach_of_compareEach hlength (fun a ha b hb _ h => ih a ha b hb h) heach)
  | quote a b ih =>
    obtain ⟨inner, hroom, hinner⟩ := compare_quote.mp h
    exact .quote hroom (ih hinner)

theorem TellsEach.iff {as bs : List Value}
    (h : ∀ a ∈ as, ∀ b ∈ bs, ∀ answer, Tells room a b answer → (answer = true ↔ a = b))
    (heach : TellsEach room as bs answer) : answer = true ↔ as = bs := by
  induction as generalizing bs with
  | nil =>
    cases heach
    simp
  | cons a as ih =>
    cases heach with
    | differ hdiffer =>
      refine ⟨Bool.noConfusion, fun heq => ?_⟩
      exact (h a List.mem_cons_self _ List.mem_cons_self false hdiffer).mpr (List.cons.inj heq).1
    | next hsame hrest =>
      have heq := (h a List.mem_cons_self _ List.mem_cons_self true hsame).mp rfl
      rw [heq, List.cons.injEq]
      refine (ih ?_ hrest).trans (by simp)
      exact fun a ha b hb => h a (List.mem_cons_of_mem _ ha) b (List.mem_cons_of_mem _ hb)

/-- Whatever is passed over, the answer tells whether the values are the same tree. -/
theorem Tells.iff (h : Tells room a b answer) : answer = true ↔ a = b := by
  induction a, b using pairInduction generalizing room answer with
  | plain a b told hplain =>
    cases h with
    | one => simp
    | plain hanswer =>
      rw [hplain.compare] at hanswer
      cases hanswer
      exact hplain.iff
    | list hlength =>
      obtain ⟨inner, hroom, -⟩ := (compare_list hlength).mp (hplain.compare 0)
      cases hroom
    | quote =>
      obtain ⟨inner, hroom, -⟩ := compare_quote.mp (hplain.compare 0)
      cases hroom
  | list as bs hlength ih =>
    cases h with
    | one => simp
    | plain hanswer =>
      obtain ⟨inner, hroom, -⟩ := (compare_list hlength).mp hanswer
      cases hroom
    | list _ _ heach =>
      rw [Value.list.injEq]
      exact heach.iff fun a ha b hb _ h => ih a ha b hb h
  | quote a b ih =>
    cases h with
    | one => simp
    | plain hanswer =>
      obtain ⟨inner, hroom, -⟩ := compare_quote.mp hanswer
      cases hroom
    | quote _ hinner =>
      rw [Value.quote.injEq]
      exact ih hinner

/-- The answer tells whether the values are the same tree. -/
theorem compare_iff (h : a.compare room b = some answer) : answer = true ↔ a = b :=
  (tells_of_compare h).iff

theorem compareEach_iff {as bs : List Value} (hlength : as.length = bs.length)
    (h : compareEach room as bs = some answer) : answer = true ↔ as = bs :=
  (tellsEach_of_compareEach hlength (fun _ _ _ _ _ => tells_of_compare) h).iff
    fun _ _ _ _ _ => Tells.iff

theorem compareEach_eq_true_iff {as bs : List Value} :
    compareEach room as bs = some true ↔
      List.Forall₂ (fun a b => a.compare room b = some true) as bs := by
  induction as generalizing bs with
  | nil => cases bs <;> simp [compareEach]
  | cons a as ih =>
    cases bs with
    | nil => simp [compareEach]
    | cons b bs =>
      rw [compareEach_cons, List.forall₂_cons, ih]
      simp

/-! ## Room enough -/

theorem levels_le_levelsEach {item : Value} {items : List Value} (h : item ∈ items) :
    item.levels ≤ levelsEach items := by
  induction items with
  | nil => cases h
  | cons first rest ih =>
    rw [levelsEach]
    rcases List.mem_cons.mp h with rfl | h
    · exact Nat.le_max_left _ _
    · exact Nat.le_trans (ih h) (Nat.le_max_right _ _)

theorem exists_compareEach {as bs : List Value} (hlength : as.length = bs.length)
    (h : ∀ a ∈ as, ∀ b ∈ bs, ∃ answer, a.compare room b = some answer) :
    ∃ answer, compareEach room as bs = some answer := by
  induction as generalizing bs with
  | nil =>
    cases bs with
    | nil => exact ⟨true, rfl⟩
    | cons b bs => cases hlength
  | cons a as ih =>
    cases bs with
    | nil => cases hlength
    | cons b bs =>
      obtain ⟨first, hfirst⟩ := h a List.mem_cons_self b List.mem_cons_self
      obtain ⟨answer, hrest⟩ := ih (Nat.succ.inj hlength) fun a ha b hb =>
        h a (List.mem_cons_of_mem _ ha) b (List.mem_cons_of_mem _ hb)
      cases first with
      | false => exact ⟨false, compareEach_cons.mpr (.inl ⟨hfirst, rfl⟩)⟩
      | true => exact ⟨answer, compareEach_cons.mpr (.inr ⟨hfirst, hrest⟩)⟩

/-- Room for the levels of one of the values is enough. -/
theorem exists_compare (h : Room.compareLevel * a.levels ≤ room) :
    ∃ answer, a.compare room b = some answer := by
  induction a, b using pairInduction generalizing room with
  | plain a b answer hplain => exact ⟨answer, hplain.compare room⟩
  | list as bs hlength ih =>
    obtain ⟨inner, hroom, hinner⟩ := Room.enter_level h
    have hmembers : ∀ a ∈ as, ∀ b ∈ bs, ∃ answer, a.compare inner b = some answer := by
      intro a ha b hb
      exact ih a ha b hb (Nat.le_trans (Nat.mul_le_mul_left _ (levels_le_levelsEach ha)) hinner)
    obtain ⟨answer, hanswer⟩ := exists_compareEach hlength hmembers
    exact ⟨answer, (compare_list hlength).mpr ⟨inner, hroom, hanswer⟩⟩
  | quote a b ih =>
    obtain ⟨inner, hroom, hinner⟩ := Room.enter_level h
    obtain ⟨answer, hanswer⟩ := ih hinner
    exact ⟨answer, compare_quote.mpr ⟨inner, hroom, hanswer⟩⟩

end Value

/-! ## Failures -/

namespace Failure

variable {room : Nat} {x y : Failure} {answer : Bool}

theorem ofPayload?_payload (failure : Failure) :
    ofPayload? failure.kind failure.payload = some failure := by
  cases failure <;> rfl

/-- A failure is its kind and what it carries. -/
theorem eq_iff : x = y ↔ x.kind = y.kind ∧ x.payload = y.payload := by
  constructor
  · rintro rfl
    exact ⟨rfl, rfl⟩
  · rintro ⟨hkind, hpayload⟩
    have h := ofPayload?_payload x
    rw [hkind, hpayload, ofPayload?_payload] at h
    exact (Option.some.inj h).symm

theorem payload_length (h : x.kind = y.kind) : x.payload.length = y.payload.length := by
  have hcount (failure : Failure) : failure.payload.length = failure.kind.fieldCount := by
    cases failure <;> rfl
  rw [hcount, hcount, h]

theorem compare_eq_true_iff : x.compare room y = some true ↔
    x.kind = y.kind ∧ List.Forall₂ (fun a b => a.compare room b = some true) x.payload y.payload := by
  rw [compare]
  split
  · rename_i hkind
    rw [Value.compareEach_eq_true_iff, and_iff_right hkind]
  · rename_i hkind
    simp [hkind]

theorem compare_iff (h : x.compare room y = some answer) : answer = true ↔ x = y := by
  rw [compare] at h
  split at h
  · rename_i hkind
    rw [eq_iff, and_iff_right hkind]
    exact Value.compareEach_iff (payload_length hkind) h
  · rename_i hkind
    cases h
    simp [eq_iff, hkind]

end Failure

/-- Equality is identity of trees. A comparison of values that has room enough tells whether
they are the same tree, and so does one that passes over parts which are one object; the
order of the two does not matter, no value differs from itself, and what equals the same is
equal. Room for the levels of one of them is enough. Failures are equal exactly if they are of
one kind and carry equal values, in pairs; otherwise, where there is an answer, they differ.
Equal failures show the same kind and the same texts. -/
theorem equality_is_identity (room : Nat) :
    (∀ (a b : Value) answer, a.compare room b = some answer → (answer = true ↔ a = b)) ∧
    (∀ (a b : Value) answer, a.compare room b = some answer → a.Tells room b answer) ∧
    (∀ (a b : Value) answer, Value.Tells room a b answer → (answer = true ↔ a = b)) ∧
    (∀ a b : Value, Room.compareLevel * a.levels ≤ room →
      ∃ answer, a.compare room b = some answer) ∧
    (∀ a : Value, a.compare room a ≠ some false) ∧
    (∀ a b : Value, a.compare room b = b.compare room a) ∧
    (∀ a b c : Value, a.compare room b = some true → b.compare room c = some true →
      a.compare room c = some true) ∧
    (∀ x y : Failure, x.compare room y = some true ↔ x.kind = y.kind ∧
      List.Forall₂ (fun a b => a.compare room b = some true) x.payload y.payload) ∧
    (∀ (x y : Failure) answer, x.compare room y = some answer → (answer = true ↔ x = y)) ∧
    ∀ x y : Failure, x.compare room y = some true →
      x.kind = y.kind ∧ ∀ shown, x.inspectPayload shown = y.inspectPayload shown := by
  refine ⟨fun _ _ _ => Value.compare_iff, fun _ _ _ => Value.tells_of_compare,
    fun _ _ _ => Value.Tells.iff, fun _ _ => Value.exists_compare, ?_, Value.compare_comm room, ?_,
    fun _ _ => Failure.compare_eq_true_iff, fun _ _ _ => Failure.compare_iff, ?_⟩
  · intro a h
    cases (Value.compare_iff h).mpr rfl
  · intro a b c hab hbc
    rwa [(Value.compare_iff hab).mp rfl]
  · intro x y h
    rw [(Failure.compare_iff h).mp rfl]
    exact ⟨rfl, fun _ => rfl⟩

/-- True is not one, however deep they stand: in room for one level the comparison that knows
the first members to be one object tells it, and in room for two any comparison does. -/
theorem equality_is_identity_sample :
    let shared := Value.quote .nil
    let a := Value.list [shared, .bool true]
    let b := Value.list [shared, .int 1]
    a.compare 3 b = none ∧ Value.Tells 3 a b false ∧ a.compare 6 b = some false ∧ a ≠ b ∧
      (Failure.unknown a).compare 6 (.unknown b) = some false ∧
      Failure.unknown a ≠ .unknown b := by
  intro shared a b
  have htells : Value.Tells 3 a b false := .list rfl rfl (.next .one (.differ (.plain rfl)))
  obtain ⟨-, -, hpassing, -⟩ := equality_is_identity 3
  obtain ⟨-, -, -, -, -, -, -, -, hfailures, -⟩ := equality_is_identity 6
  have hne : a ≠ b := fun heq => Bool.noConfusion ((hpassing a b false htells).mpr heq)
  refine ⟨rfl, htells, rfl, hne, rfl, fun heq => ?_⟩
  exact Bool.noConfusion ((hfailures (.unknown a) (.unknown b) false rfl).mpr heq)

end Sexpr
