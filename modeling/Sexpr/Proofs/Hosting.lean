import Sexpr.Proofs.Wording

/-!
# What is asked of an embedding program

The operations of an embedding program do what it likes. Some laws of evaluation hold only
if those that are called answer with values that are built from known leaves, leave the
journal as it is, or answer the same with more room. Each is asked only of operations that
may be called where leaves satisfy a predicate. Main statements: the operations of a program
that adds none of its own do as asked, all but `record` leave the journal as it is, and
what is recorded does not depend on the room.
-/
namespace Sexpr

/-! ## Conditions -/

/-- A primitive that satisfies `p` may call the operation with these arguments. -/
def MayCall (p : Value → Prop) (operation : Hosted) (args : List Value) : Prop :=
  (∃ name minArity, p (.prim ⟨name, minArity, .hosted operation⟩)) ∧ ∀ arg ∈ args, arg.Every p

/-- What is answered, if anything is, is built from leaves that satisfy `p`. -/
def Answers (p : Value → Prop) (answer : Except Rejection Value) : Prop :=
  ∀ value, answer = .ok value → value.Every p

section
variable [Host] (p : Value → Prop)

/-- The predicate holds of the leaves that primitives make. -/
structure Sealed : Prop where
  nil : p .nil
  bool : ∀ b, p (.bool b)
  int : ∀ n, p (.int n)
  hosted : ∀ operation args room journal answer, MayCall p operation args →
    (Host.callback operation room args).outcome journal = .ok answer → Answers p answer

/-- The operations leave the journal as it is. -/
def Silent : Prop :=
  ∀ operation args room, MayCall p operation args → (Host.callback operation room args).Keeps id

/-- With more room, and a journal that is the same in this sense, an operation ends in the
same way and leaves journals that are the same, unless it lacks room. -/
def Steady (same : Journal → Journal → Prop) : Prop :=
  ∀ operation args room room' journal journal', MayCall p operation args → room ≤ room' →
    same journal journal' →
    (Host.callback operation room args).outcome journal = .error .tooDeep ∨
      ((Host.callback operation room args).outcome journal =
          (Host.callback operation room' args).outcome journal' ∧
        same ((Host.callback operation room args).exec journal)
          ((Host.callback operation room' args).exec journal'))

end

/-! ## A program that adds no operations -/

/-- The arguments of the recorded calls, without their written forms. -/
def Journal.values (journal : Journal) : List (List Value) :=
  journal.map fun entry => entry.map Recorded.value

/-- Expressions can be recorded, whether they have a written form or not. -/
theorem Recorded.entry_of_expressions (room : Nat) {args : List Value}
    (h : ∀ arg ∈ args, arg.Every Value.IsExpression) :
    ∃ recorded, Recorded.entry room args = .ok recorded := by
  induction args with
  | nil => exact ⟨[], rfl⟩
  | cons arg rest ih =>
    rw [List.forall_mem_cons] at h
    obtain ⟨others, hothers⟩ := ih h.2
    rw [entry, hothers]
    split
    · rename_i object hrender
      rcases Value.render_error h.1 hrender with hreason | ⟨hreason, _⟩ <;> cases hreason
    · exact ⟨_, rfl⟩

section
variable {p : Value → Prop}

theorem sealed_of_leaves (hnil : p .nil) (hbool : ∀ b, p (.bool b)) (hint : ∀ n, p (.int n)) :
    Sealed p where
  nil := hnil
  bool := hbool
  int := hint
  hosted := by
    rintro operation args room journal answer ⟨-, hargs⟩ hanswer
    cases operation with
    | count =>
      cases hanswer
      rintro _ ⟨⟩
      exact hint _
    | collect =>
      cases hanswer
      rintro _ ⟨⟩
      simpa using hargs
    | record =>
      simp only [Host.callback, Hosted.callback, EStateM.outcome] at hanswer
      cases hentry : Recorded.entry room args with
      | error object =>
        rw [hentry] at hanswer
        cases hanswer
      | ok recorded =>
        rw [hentry] at hanswer
        cases hanswer
        rintro _ ⟨⟩
        cases args with
        | nil => exact hnil
        | cons first rest => exact hargs first List.mem_cons_self
    | refuse | custom =>
      cases hanswer
      exact nofun
    | divideByZero | undefined => cases hanswer

/-- Only `record` changes the journal. -/
theorem silent_of_no_record (h : ∀ name minArity, ¬p (.prim ⟨name, minArity, .hosted .record⟩)) :
    Silent p := by
  rintro operation args room ⟨⟨name, minArity, hprimitive⟩, -⟩ journal
  cases operation with
  | record => exact (h name minArity hprimitive).elim
  | count | collect | refuse | divideByZero | undefined | custom => rfl

/-- What is recorded does not depend on the room, as long as it is an expression. -/
theorem steady_of_expressions (h : ∀ leaf, p leaf → leaf.IsExpression) :
    Steady p fun journal journal' => Journal.values journal = Journal.values journal' := by
  rintro operation args room room' journal journal' ⟨-, hargs⟩ - hsame
  refine .inr ?_
  cases operation with
  | record =>
    have hexpressions : ∀ arg ∈ args, arg.Every Value.IsExpression :=
      fun arg harg => (hargs arg harg).imp h
    obtain ⟨recorded, hentry⟩ := Recorded.entry_of_expressions room hexpressions
    obtain ⟨recorded', hentry'⟩ := Recorded.entry_of_expressions room' hexpressions
    -- The texts in the entries may differ, the arguments do not.
    simp only [Host.callback, Hosted.callback, hentry, hentry', EStateM.outcome, EStateM.exec]
    refine ⟨rfl, ?_⟩
    have hvalues : recorded.map Recorded.value = recorded'.map Recorded.value :=
      (Recorded.entry_values hentry).trans (Recorded.entry_values hentry').symm
    change Journal.values (journal ++ [recorded]) = Journal.values (journal' ++ [recorded'])
    unfold Journal.values at hsame ⊢
    rw [List.map_append, List.map_append, hsame, List.map_singleton, List.map_singleton, hvalues]
  | count | collect | refuse | divideByZero | undefined | custom => exact ⟨rfl, hsame⟩

end

end Sexpr
