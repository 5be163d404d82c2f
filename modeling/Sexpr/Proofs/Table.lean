import Mathlib.Data.Finset.Card
import Sexpr.Proofs.Defining
import Sexpr.Session

/-!
# The table of an embedding program

An embedding program binds names one by one, several at once, or as those of primitives,
and looks at the table in between. Main statement: whatever it does, the table is the
ordered finite map of the definitions that were accepted. The last definition of a name
counts, the first one gives it its place, and a name that is no symbol is refused and
never found.
-/
namespace Sexpr

/-! ## Keys -/

namespace Bindings

mutual

/-- The room that looking a value up needs. -/
def keyRoom : Value → Nat
  | .list items => keyRoomEach items
  | .quote inner => Room.hashQuote + keyRoom inner
  | _ => 0

/-- The room that looking all of the values up needs. -/
def keyRoomEach : List Value → Nat
  | [] => 0
  | value :: rest => max (keyRoom value) (keyRoomEach rest)

end

theorem keyErrorEach?_eq {items : List Value} {room : Nat}
    (h : ∀ item ∈ items, keyError? room item = if keyRoom item ≤ room then none else some .tooDeep) :
    keyErrorEach? room items = if keyRoomEach items ≤ room then none else some .tooDeep := by
  induction items with
  | nil => simp [keyErrorEach?, keyRoomEach]
  | cons item rest ih =>
    rw [List.forall_mem_cons] at h
    rw [keyErrorEach?, h.1, keyRoomEach]
    by_cases hitem : keyRoom item ≤ room
    · simp [hitem, ih h.2]
    · simp [hitem]

/-- An expression can be looked up if there is room for its quotes. -/
theorem keyError?_eq {key : Value} (h : key.Every Value.IsExpression) (room : Nat) :
    keyError? room key = if keyRoom key ≤ room then none else some .tooDeep := by
  induction key generalizing room with
  | list items ih =>
    simp only [Value.Every, Value.everyEach_iff] at h
    rw [keyError?, keyRoom]
    exact keyErrorEach?_eq fun item hitem => ih item hitem (h item hitem) room
  | quote inner ih =>
    rw [keyError?, keyRoom]
    cases hroom : Room.enter Room.hashQuote room with
    | none =>
      have := Room.enter_eq_none_iff.mp hroom
      rw [if_neg (by omega)]
    | some left =>
      have := Room.enter_eq_some_iff.mp hroom
      simp only [ih h left, this, Nat.add_le_add_iff_left]
  | foreign object => exact h.elim
  | nil | bool | int | str | sym | prim => simp [keyError?, keyRoom]

variable {bindings : Bindings} {name : String} {value : Value} {made : List (String × Value)}

/-- What is no symbol is not found, if it can be looked up at all. -/
theorem not_found {key : Value} (hkey : key.Every Value.IsExpression)
    (h : ∀ name, key ≠ .sym name) (room : Nat) :
    bindings.lookup room key = (if keyRoom key ≤ room then .ok none else .error .tooDeep) ∧
      bindings.hasKey room key = (if keyRoom key ≤ room then .ok false else .error .tooDeep) := by
  have hroom := keyError?_eq hkey room
  by_cases hfits : keyRoom key ≤ room
  · rw [if_pos hfits] at hroom
    rw [if_pos hfits, if_pos hfits]
    cases key with
    | sym name => exact absurd rfl (h name)
    | nil | bool | int | str | list | quote | prim | foreign =>
      unfold lookup hasKey
      rw [hroom]
      exact ⟨rfl, rfl⟩
  · rw [if_neg hfits] at hroom
    rw [if_neg hfits, if_neg hfits]
    unfold lookup hasKey
    rw [hroom]
    exact ⟨rfl, rfl⟩

/-! ## The last definition of a name -/

theorem get?_defineEach_of_last {before after : List (String × Value)}
    (h : name ∉ after.map Prod.fst) :
    (bindings.defineEach (before ++ (name, value) :: after)).get? name = some value := by
  rw [defineEach_append, defineEach_cons, get?_defineEach_of_not_mem h, get?_define, if_pos rfl]

theorem exists_last (h : name ∈ made.map Prod.fst) :
    ∃ value before after, made = before ++ (name, value) :: after ∧ name ∉ after.map Prod.fst := by
  induction made with
  | nil => cases h
  | cons entry rest ih =>
    by_cases hrest : name ∈ rest.map Prod.fst
    · obtain ⟨value, before, after, rfl, hafter⟩ := ih hrest
      exact ⟨value, entry :: before, after, rfl, hafter⟩
    · obtain rfl : name = entry.1 := by simpa [hrest] using h
      exact ⟨entry.2, [], rest, rfl, hrest⟩

theorem get?_empty : empty.get? name = none := rfl

theorem get?_made_eq_some_iff : (empty.defineEach made).get? name = some value ↔
    ∃ before after, made = before ++ (name, value) :: after ∧ name ∉ after.map Prod.fst := by
  constructor
  · intro h
    by_cases hname : name ∈ made.map Prod.fst
    · obtain ⟨last, before, after, rfl, hafter⟩ := exists_last hname
      obtain rfl : last = value := by
        rw [get?_defineEach_of_last hafter] at h
        exact Option.some.inj h
      exact ⟨before, after, rfl, hafter⟩
    · rw [get?_defineEach_of_not_mem hname, get?_empty] at h
      cases h
  · rintro ⟨before, after, rfl, hafter⟩
    exact get?_defineEach_of_last hafter

theorem contains_made_iff :
    (empty.defineEach made).contains name = true ↔ name ∈ made.map Prod.fst := by
  rw [contains_defineEach, contains, get?_empty]
  simp

/-- Where all values are expressions, a name stands for what it is bound to. -/
theorem value?_made (hvalues : ∀ entry ∈ made, entry.2.Every Value.IsExpression) (name : String) :
    (empty.defineEach made).value? name = (empty.defineEach made).get? name := by
  unfold value?
  split
  · rename_i hnull
    obtain ⟨before, after, rfl, -⟩ := get?_made_eq_some_iff.mp hnull
    exact (hvalues (name, .foreign .null) (by simp)).elim
  · rfl

theorem lookup_made (hvalues : ∀ entry ∈ made, entry.2.Every Value.IsExpression) (room : Nat)
    (name : String) :
    (∀ value, (empty.defineEach made).lookup room (.sym name) = .ok (some value) ↔
      ∃ before after, made = before ++ (name, value) :: after ∧ name ∉ after.map Prod.fst) ∧
    ((empty.defineEach made).lookup room (.sym name) = .ok none ↔ name ∉ made.map Prod.fst) ∧
    (empty.defineEach made).hasKey room (.sym name) = .ok (decide (name ∈ made.map Prod.fst)) := by
  have hlookup : (empty.defineEach made).lookup room (.sym name) =
      .ok ((empty.defineEach made).get? name) := by
    rw [← value?_made hvalues]
    rfl
  have hhasKey : (empty.defineEach made).hasKey room (.sym name) =
      .ok ((empty.defineEach made).contains name) := rfl
  refine ⟨fun value => ?_, ?_, ?_⟩
  · rw [hlookup, Except.ok.injEq, get?_made_eq_some_iff]
  · rw [hlookup, Except.ok.injEq, ← contains_made_iff, contains, Option.not_isSome_iff_eq_none]
  · rw [hhasKey, Bool.eq_iff_iff.mpr (contains_made_iff.trans decide_eq_true_iff.symm)]

/-! ## The order of names -/

theorem mem_names_made_iff : name ∈ (empty.defineEach made).names ↔ name ∈ made.map Prod.fst := by
  rw [← contains_iff, contains_made_iff]

/-- The names stand in the order of their first definitions. -/
theorem names_made_pairwise (made : List (String × Value)) :
    (empty.defineEach made).names.Pairwise fun a b =>
      (made.map Prod.fst).idxOf a < (made.map Prod.fst).idxOf b := by
  induction made using List.reverseRecOn with
  | nil => exact .nil
  | append_singleton made entry ih =>
    have hold : (empty.defineEach made).names.Pairwise fun a b =>
        ((made ++ [entry]).map Prod.fst).idxOf a < ((made ++ [entry]).map Prod.fst).idxOf b := by
      refine ih.imp_of_mem fun ha hb h => ?_
      rw [List.map_append, List.idxOf_append_of_mem (mem_names_made_iff.mp ha),
        List.idxOf_append_of_mem (mem_names_made_iff.mp hb)]
      exact h
    rw [defineEach_append, defineEach_cons, defineEach_nil, names_define]
    split
    · exact hold
    · rename_i hnew
      refine List.pairwise_append.mpr ⟨hold, List.pairwise_singleton _ _, fun a ha b hb => ?_⟩
      obtain rfl := List.mem_singleton.mp hb
      rw [mem_names_made_iff] at ha hnew
      rw [List.map_append, List.idxOf_append_of_mem ha, List.idxOf_append_of_notMem hnew]
      exact Nat.lt_add_right _ (List.idxOf_lt_length_of_mem ha)

/-- Names that are bound keep their places when they are bound again. -/
theorem names_defineEach_of_subset (h : ∀ entry ∈ made, entry.1 ∈ bindings.names) :
    (bindings.defineEach made).names = bindings.names := by
  induction made generalizing bindings with
  | nil => rfl
  | cons entry rest ih =>
    rw [List.forall_mem_cons] at h
    have hnames : (bindings.define entry.1 entry.2).names = bindings.names := by
      rw [names_define, if_pos h.1]
    rw [defineEach_cons, ih (by rw [hnames]; exact h.2), hnames]

theorem size_made (made : List (String × Value)) :
    (empty.defineEach made).size = (made.map Prod.fst).toFinset.card := by
  have hsame : (made.map Prod.fst).toFinset = (empty.defineEach made).names.toFinset := by
    ext name
    rw [List.mem_toFinset, List.mem_toFinset, mem_names_made_iff]
  have hnodup : (empty.defineEach made).names.Nodup := (empty.defineEach made).nodup
  rw [hsame, List.toFinset_card_of_nodup hnodup, names, size, List.length_map]

theorem sortedNames_perm (bindings : Bindings) : bindings.sortedNames.Perm bindings.names :=
  List.mergeSort_perm _ _

theorem sortedNames_pairwise (bindings : Bindings) : bindings.sortedNames.Pairwise (· < ·) := by
  have hle : bindings.sortedNames.Pairwise (· ≤ ·) := by
    refine (List.pairwise_mergeSort ?_ ?_ bindings.names).imp fun h => of_decide_eq_true h
    · intro a b c hab hbc
      exact decide_eq_true (String.le_trans (of_decide_eq_true hab) (of_decide_eq_true hbc))
    · intro a b
      simpa using String.le_total a b
  have hne : bindings.sortedNames.Nodup := bindings.sortedNames_perm.nodup_iff.mpr bindings.nodup
  exact (hle.and hne).imp fun h => String.not_le.mp fun hba => h.2 (String.le_antisymm h.1 hba)

end Bindings

/-! ## Changes from outside -/

/-- What an embedding program does to the table of a session. -/
inductive Change where
  | define (name value : Value)
  | update (entries : List (Value × Value))
  | register (primitives : List Primitive)

/-- The session with the names bound in order. -/
def Session.defineEach (session : Session) (made : List (String × Value)) : Session :=
  { session with bindings := session.bindings.defineEach made }

namespace Change

/-- The session that the change leaves, and why it has been refused or cut short, if so. -/
def apply (session : Session) : Change → Option DefineError × Session
  | .define name value =>
    match session.define name value with
    | .ok after => (none, after)
    | .error error => (some error, session)
  | .update entries => session.update entries
  | .register primitives => (none, session.register primitives)

/-- The session that the changes leave. -/
def execEach (session : Session) (history : List Change) : Session :=
  history.foldl (fun session change => (change.apply session).2) session

/-- The entries before the first one whose name is no symbol. -/
def admitted : List (Value × Value) → List (String × Value)
  | (.sym name, value) :: rest => (name, value) :: admitted rest
  | _ => []

/-- The definitions of the change that are accepted. -/
def accepted : Change → List (String × Value)
  | .define name value => admitted [(name, value)]
  | .update entries => admitted entries
  | .register primitives => primitives.map fun primitive => (primitive.name, .prim primitive)

end Change

section
variable {session : Session} {key value : Value}

theorem Session.define_refused (h : ∀ name, key ≠ .sym name) :
    session.define key value = .error (.notASymbol key) := by
  cases key with
  | sym name => exact absurd rfl (h name)
  | nil | bool | int | str | list | quote | prim | foreign => rfl

/-- Symbols are bound one after the other, and what is no symbol ends it there. -/
theorem Session.update_symbols {before : List (Value × Value)}
    (h : ∀ entry ∈ before, ∃ name, entry.1 = .sym name) :
    ∃ after, before.foldlM (fun session entry => session.define entry.1 entry.2) session = .ok after ∧
      session.update before = (none, after) ∧
      ∀ key value rest, (∀ name, key ≠ .sym name) →
        session.update (before ++ (key, value) :: rest) = (some (.notASymbol key), after) := by
  induction before generalizing session with
  | nil =>
    refine ⟨session, rfl, rfl, fun key value rest hkey => ?_⟩
    rw [List.nil_append, update, define_refused hkey]
  | cons entry rest ih =>
    rw [List.forall_mem_cons] at h
    obtain ⟨⟨name, hname⟩, hrest⟩ := h
    obtain ⟨symbol, value⟩ := entry
    obtain rfl : symbol = .sym name := hname
    exact ih hrest

theorem Change.admitted_refused {rest : List (Value × Value)} (h : ∀ name, key ≠ .sym name) :
    admitted ((key, value) :: rest) = [] := by
  cases key with
  | sym name => exact absurd rfl (h name)
  | nil | bool | int | str | list | quote | prim | foreign => rfl

theorem Session.update_exec (entries : List (Value × Value)) :
    (session.update entries).2 = session.defineEach (Change.admitted entries) := by
  induction entries generalizing session with
  | nil => rfl
  | cons entry rest ih =>
    obtain ⟨key, value⟩ := entry
    rcases Value.sym_or_not key with ⟨name, rfl⟩ | hkey
    · exact ih
    · rw [update, define_refused hkey, Change.admitted_refused hkey]
      rfl

namespace Change

/-- A change makes the definitions that are accepted, and does nothing else. -/
theorem apply_exec (change : Change) :
    (change.apply session).2 = session.defineEach change.accepted := by
  cases change with
  | define name value =>
    rw [accepted, ← Session.update_exec, apply, Session.update]
    cases session.define name value <;> rfl
  | update entries => exact Session.update_exec entries
  | register primitives =>
    rw [apply, accepted, Session.register, Session.defineEach, Bindings.defineEach, List.foldl_map]

theorem execEach_eq (history : List Change) :
    execEach session history = session.defineEach (history.flatMap accepted) := by
  induction history generalizing session with
  | nil => rfl
  | cons change rest ih =>
    have hfirst : execEach session (change :: rest) =
        execEach (session.defineEach change.accepted) rest := by
      rw [← apply_exec, execEach, List.foldl_cons]
      rfl
    rw [hfirst, ih, List.flatMap_cons, Session.defineEach, Session.defineEach, Session.defineEach,
      Bindings.defineEach_append]

end Change

end

/-- Whatever changes an embedding program makes to an empty table, of values that are
expressions, the table is the map of the definitions that are accepted. A symbol stands for
the value of its last definition, and is unbound exactly if there is none. What is no symbol is
refused without a trace, and is not found. The names are listed once each, by their first
definitions, and keep their places when they are bound again. The size is the number of names,
and the sorted names are the names, increasing by code points. Of several names, those before
the first that is no symbol are bound, and none after it. -/
theorem table_is_ordered_map (history : List Change)
    (hvalues : ∀ entry ∈ history.flatMap Change.accepted, entry.2.Every Value.IsExpression) :
    let made := history.flatMap Change.accepted
    let session := Change.execEach Session.empty history
    let bindings := session.bindings
    (∀ room name,
      (∀ value, bindings.lookup room (.sym name) = .ok (some value) ↔
        ∃ before after, made = before ++ (name, value) :: after ∧ name ∉ after.map Prod.fst) ∧
      (bindings.lookup room (.sym name) = .ok none ↔ name ∉ made.map Prod.fst) ∧
      bindings.hasKey room (.sym name) = .ok (decide (name ∈ made.map Prod.fst))) ∧
    (∀ key, (∀ name, key ≠ .sym name) →
      (∀ value, (Change.define key value).apply session = (some (.notASymbol key), session)) ∧
      (key.Every Value.IsExpression → ∀ room,
        bindings.lookup room key =
          (if Bindings.keyRoom key ≤ room then .ok none else .error .tooDeep) ∧
        bindings.hasKey room key =
          (if Bindings.keyRoom key ≤ room then .ok false else .error .tooDeep))) ∧
    (bindings.names.Nodup ∧ (∀ name, name ∈ bindings.names ↔ name ∈ made.map Prod.fst) ∧
      bindings.names.Pairwise (fun a b =>
        (made.map Prod.fst).idxOf a < (made.map Prod.fst).idxOf b) ∧
      ∀ later, (∀ entry ∈ later.flatMap Change.accepted, entry.1 ∈ bindings.names) →
        (Change.execEach session later).bindings.names = bindings.names) ∧
    bindings.size = (made.map Prod.fst).toFinset.card ∧
    (bindings.sortedNames.Perm bindings.names ∧ bindings.sortedNames.Pairwise fun a b =>
      a.toList.map Char.toNat < b.toList.map Char.toNat) ∧
    ∀ before : List (Value × Value), (∀ entry ∈ before, ∃ name, entry.1 = .sym name) →
      ∃ after,
        before.foldlM (fun session entry => session.define entry.1 entry.2) session = .ok after ∧
        (Change.update before).apply session = (none, after) ∧
        ∀ key value rest, (∀ name, key ≠ .sym name) →
          (Change.update (before ++ (key, value) :: rest)).apply session =
            (some (.notASymbol key), after) := by
  intro made session bindings
  have hbindings : bindings = Bindings.empty.defineEach made := by
    simp only [bindings, session, Change.execEach_eq, Session.defineEach, Session.empty, made]
  refine ⟨fun room name => ?_, fun key hkey => ⟨fun value => ?_, fun hexpr room => ?_⟩,
    ⟨bindings.nodup, fun name => ?_, ?_, fun later hlater => ?_⟩, ?_,
    ⟨bindings.sortedNames_perm, ?_⟩, fun before => Session.update_symbols⟩
  · rw [hbindings]
    exact Bindings.lookup_made hvalues room name
  · rw [Change.apply, Session.define_refused hkey]
  · exact Bindings.not_found hexpr hkey room
  · rw [hbindings, Bindings.mem_names_made_iff]
  · rw [hbindings]
    exact Bindings.names_made_pairwise made
  · rw [Change.execEach_eq]
    exact Bindings.names_defineEach_of_subset hlater
  · rw [hbindings, Bindings.size_made]
  · refine bindings.sortedNames_pairwise.imp fun h => ?_
    exact List.map_lt (fun _ _ hlt => hlt) h

/-- A name is bound twice, an update breaks off at a string, and a number is refused. -/
theorem table_is_ordered_map_sample :
    let primitive : Primitive := ⟨"a", 0, .builtin .add⟩
    let history := [Change.define (.sym "b") .nil, .register [primitive],
      .update [(.sym "b", .int 1), (.str "c", .nil), (.sym "d", .nil)], .define (.int 2) .nil]
    let bindings := (Change.execEach Session.empty history).bindings
    (∀ entry ∈ history.flatMap Change.accepted, entry.2.Every Value.IsExpression) ∧
      bindings.lookup 0 (.sym "b") = .ok (some (.int 1)) ∧
      bindings.lookup 0 (.sym "d") = .ok none ∧
      bindings.lookup 0 (.str "c") = .ok none ∧
      bindings.names = ["b", "a"] ∧ bindings.size = 2 := by
  intro primitive history bindings
  have hmade : history.flatMap Change.accepted =
      [("b", .nil), ("a", .prim primitive), ("b", .int 1)] := rfl
  have hvalues : ∀ entry ∈ history.flatMap Change.accepted, entry.2.Every Value.IsExpression := by
    rw [hmade]
    simp [Value.IsExpression]
  obtain ⟨hlookup, hrefused, -, hsize, -⟩ := table_is_ordered_map history hvalues
  rw [hmade] at hlookup hsize
  refine ⟨hvalues, ((hlookup 0 "b").1 _).mpr ⟨[("b", .nil), ("a", .prim primitive)], [], rfl, by simp⟩,
    (hlookup 0 "d").2.1.mpr (by simp), ?_, rfl, hsize⟩
  exact ((hrefused (.str "c") nofun).2 trivial 0).1

end Sexpr
