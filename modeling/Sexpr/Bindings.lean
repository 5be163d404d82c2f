import Sexpr.Value.Inspect

/-!
# Bindings

The environment of a session: one flat table from names to values, in the order
in which the names were first bound. Binding a name again replaces its value and
keeps its place. That a program binds each name once is a rule of definitions,
not of the table.
-/
namespace Sexpr

/-- Names with their values, each name once, in the order of their first binding. -/
structure Bindings where
  entries : List (String × Value)
  nodup : (entries.map Prod.fst).Nodup

namespace Bindings

/-! ## The table -/

/-- The table without entries. -/
def empty : Bindings := ⟨[], List.nodup_nil⟩

/-- The names in the order of their first binding. -/
def names (bindings : Bindings) : List String := bindings.entries.map Prod.fst

/-- The number of names. -/
def size (bindings : Bindings) : Nat := bindings.entries.length

/-- The value of a name. -/
def get? (bindings : Bindings) (name : String) : Option Value :=
  bindings.entries.lookup name

/-- The name is bound. -/
def contains (bindings : Bindings) (name : String) : Bool := (bindings.get? name).isSome

/-- The entries with `name` bound: in its place if it is there, at the end if not. -/
def put (name : String) (value : Value) : List (String × Value) → List (String × Value)
  | [] => [(name, value)]
  | entry :: rest =>
    if entry.1 = name then (name, value) :: rest else entry :: put name value rest

/-- A name that is new comes last; one that is there stays in its place. -/
theorem put_names (name : String) (value : Value) (entries : List (String × Value)) :
    (put name value entries).map Prod.fst =
      if name ∈ entries.map Prod.fst then entries.map Prod.fst
      else entries.map Prod.fst ++ [name] := by
  induction entries with
  | nil => simp [put]
  | cons entry rest ih =>
    by_cases h : entry.1 = name
    · simp [put, h]
    · have h' : ¬name = entry.1 := fun heq => h heq.symm
      simp only [put, h, if_false, List.map_cons, ih, List.mem_cons, h', false_or]
      split <;> simp

/-- The name that is bound has the new value, and no other name is touched. -/
theorem put_lookup (name key : String) (value : Value) (entries : List (String × Value)) :
    (put name value entries).lookup key =
      if key = name then some value else entries.lookup key := by
  induction entries with
  | nil =>
    by_cases h : key = name
    · simp [put, h]
    · simp [put, List.lookup_cons, h, beq_eq_false_iff_ne.mpr h]
  | cons entry rest ih =>
    obtain ⟨first, old⟩ := entry
    by_cases h : first = name
    · subst h
      by_cases hkey : key = first
      · simp [put, hkey]
      · simp [put, List.lookup_cons, hkey, beq_eq_false_iff_ne.mpr hkey]
    · by_cases hkey : key = first
      · subst hkey
        simp [put, h]
      · simp [put, List.lookup_cons, h, ih, beq_eq_false_iff_ne.mpr hkey]

/-- Bind the name, whether it is bound already or not. -/
def define (bindings : Bindings) (name : String) (value : Value) : Bindings where
  entries := put name value bindings.entries
  nodup := by
    rw [put_names]
    split
    · exact bindings.nodup
    · rename_i hnew
      rw [List.nodup_append]
      refine ⟨bindings.nodup, by simp, ?_⟩
      intro a ha b hb hab
      rw [List.mem_singleton] at hb
      exact hnew (hb ▸ hab ▸ ha)

@[simp] theorem get?_define (bindings : Bindings) (name key : String) (value : Value) :
    (bindings.define name value).get? key =
      if key = name then some value else bindings.get? key :=
  put_lookup name key value bindings.entries

/-- The names after a definition. -/
theorem names_define (bindings : Bindings) (name : String) (value : Value) :
    (bindings.define name value).names =
      if name ∈ bindings.names then bindings.names else bindings.names ++ [name] :=
  put_names name value bindings.entries

/-- The value a name stands for. The null object is the absence of a value: a name
bound to it stands for nothing. -/
def value? (bindings : Bindings) (name : String) : Option Value :=
  match bindings.get? name with
  | some (.foreign .null) => none
  | found => found

/-- The names by code point. -/
def sortedNames (bindings : Bindings) : List String :=
  bindings.names.mergeSort fun a b => decide (a ≤ b)

/-! ## Names that may be any value -/

/-- Why a value is no key of the table. -/
inductive KeyError where
  /-- An object of the embedding program in it has no identity to look up. -/
  | unhashable (object : Foreign)
  /-- The value is nested too deeply. -/
  | tooDeep
  deriving Repr, DecidableEq

mutual

/-- Why the value cannot be looked up in the table, if it cannot. -/
def keyError? (room : Nat) : Value → Option KeyError
  | .foreign .array => some (.unhashable .array)
  | .foreign .table => some (.unhashable .table)
  | .list items => keyErrorEach? room items
  | .quote inner =>
    match Room.enter Room.hashQuote room with
    | none => some .tooDeep
    | some room => keyError? room inner
  | _ => none

/-- Why the first of the values that cannot be looked up cannot. -/
def keyErrorEach? (room : Nat) : List Value → Option KeyError
  | [] => none
  | value :: rest =>
    match keyError? room value with
    | none => keyErrorEach? room rest
    | error => error

end

/-- What is bound to a value taken as a name. Only symbols are ever bound. -/
def lookup (bindings : Bindings) (room : Nat) (key : Value) : Except KeyError (Option Value) :=
  match keyError? room key, key with
  | some error, _ => .error error
  | none, .sym name => .ok (bindings.value? name)
  | none, _ => .ok none

/-- A value taken as a name is bound. -/
def hasKey (bindings : Bindings) (room : Nat) (key : Value) : Except KeyError Bool :=
  match keyError? room key, key with
  | some error, _ => .error error
  | none, .sym name => .ok (bindings.contains name)
  | none, _ => .ok false

/-! ## Text -/

/-- The names and their inspected values. -/
def inspectEntries (room : Nat) : List (String × Value) → Except Unwritable (List String)
  | [] => .ok []
  | (name, value) :: rest => do
    let text ← value.inspect room
    let texts ← inspectEntries room rest
    return (name ++ ": " ++ text) :: texts

/-- All entries in one line. -/
def inspect (bindings : Bindings) (room : Nat) : Except Unwritable String := do
  let texts ← inspectEntries room bindings.entries
  return "\x7b" ++ ", ".intercalate texts ++ "\x7d"

/-- The table in a few words. -/
def summary (bindings : Bindings) : String :=
  "<Environment " ++ toString bindings.size ++ " binding(s)>"

end Bindings
end Sexpr
