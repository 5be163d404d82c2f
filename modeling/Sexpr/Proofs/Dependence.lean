import Sexpr.Proofs.Comparing

/-!
# What evaluation depends on

Of the bindings of a session, evaluation depends on those of the names that are free in
the expression, and on no others. Main statement: where two tables agree on the free
names, an expression comes to the same in both, and they still agree on these names
afterwards; all other names keep their bindings. In particular, the name of a special
form may be bound to anything.
-/
namespace Sexpr

/-! ## Agreement -/

/-- The tables bind each of the names to the same value, if to any. -/
def Bindings.AgreeOn (names : String → Prop) (bindings bindings' : Bindings) : Prop :=
  ∀ name, names name → bindings.get? name = bindings'.get? name

theorem Bindings.AgreeOn.define {names : String → Prop} {bindings bindings' : Bindings}
    (h : Bindings.AgreeOn names bindings bindings') (name : String) (value : Value) :
    Bindings.AgreeOn names (bindings.define name value) (bindings'.define name value) := by
  intro key hkey
  rw [get?_define, get?_define, h key hkey]

theorem Bindings.agreeOn_define (bindings : Bindings) (name : String) (value : Value) :
    Bindings.AgreeOn (· ≠ name) bindings (bindings.define name value) := by
  intro key hkey
  rw [get?_define, if_neg hkey]

/-- Sessions with one journal, whose tables agree on the names. -/
def agreement (names : String → Prop) : Comparison where
  leaf _ := True
  bindings := Bindings.AgreeOn names
  journals := Eq
  roomier := False

section
variable [Host] {room : Nat} {expr : Value} {names : String → Prop}

theorem agreement_sound (names : String → Prop) : (agreement names).Sound where
  nil := trivial
  bool _ := trivial
  int _ := trivial
  define _ _ name value h := h.define name value
  hosted := by
    rintro operation args room room' journal journal' - (rfl | ⟨hroomier, -⟩) hjournals
    · cases hjournals
      exact .of_agree (fun _ _ value _ => value.every_of_forall fun _ => trivial) ⟨rfl, rfl⟩
    · cases hroomier

/-- An expression comes to the same where its free names stand for the same, and what is
agreed on remains so. -/
theorem evaluate_congr {session session' : Session} (hnames : ∀ name ∈ expr.free, names name)
    (hagree : Bindings.AgreeOn names session.bindings session'.bindings)
    (hjournal : session.journal = session'.journal) :
    (evaluate room expr).outcome session = (evaluate room expr).outcome session' ∧
      ((evaluate room expr).exec session).journal = ((evaluate room expr).exec session').journal ∧
      Bindings.AgreeOn names ((evaluate room expr).exec session).bindings
        ((evaluate room expr).exec session').bindings := by
  have halike : (agreement names).Alike session session' :=
    ⟨fun _ value _ => value.every_of_forall fun _ => trivial, hagree, hjournal⟩
  have hfollows : Follows False (Value.Every fun _ => True) (agreement names).Alike
      (evaluate room expr session) (evaluate room expr session') :=
    Comparison.evaluate_follows (agreement_sound names) (.inl rfl)
      (expr.every_of_forall fun _ => trivial) (fun name hname _ _ h => h name (hnames name hname))
      halike
  obtain ⟨houtcome, hafter⟩ := hfollows.agree nofun
  exact ⟨houtcome, hafter.journals, hafter.bindings⟩

/-- A special form comes to the same whatever its name is bound to, unless an argument
asks for that. -/
theorem special_congr {form : SpecialForm} {args : List Value}
    (h : ∀ arg ∈ args, form.name ∉ arg.free) (session : Session) (value : Value) :
    let expr := Value.list (.sym form.name :: args)
    let bound := session.put form.name value
    (evaluate room expr).outcome session = (evaluate room expr).outcome bound ∧
      ((evaluate room expr).exec session).journal = ((evaluate room expr).exec bound).journal ∧
      Bindings.AgreeOn (· ≠ form.name) ((evaluate room expr).exec session).bindings
        ((evaluate room expr).exec bound).bindings := by
  -- The tables agree on all names but that of the form, and it is not free in the arguments.
  refine evaluate_congr ?_ (session.bindings.agreeOn_define form.name value) rfl
  intro name hname heq
  have hform : SpecialForm.ofName? form.name = some form := by cases form <;> rfl
  obtain ⟨arg, harg, hfree⟩ := Value.mem_free_special hform hname
  exact h arg harg (heq ▸ hfree)

end

/-- Two tables that agree on the names that are free in an expression. It comes to the same
in both and does the same to the journal, and the tables still agree on these names; every
other name keeps its binding in each of them. The name of a special form is not free in it
as such: whatever it is bound to, the form comes to the same. -/
theorem depends_on_free_names [Host] (room : Nat) (expr : Value) (bindings bindings' : Bindings)
    (journal : Journal) (hagree : Bindings.AgreeOn (· ∈ expr.free) bindings bindings') :
    let session : Session := ⟨bindings, journal⟩
    let session' : Session := ⟨bindings', journal⟩
    let after := (evaluate room expr).exec session
    let after' := (evaluate room expr).exec session'
    (evaluate room expr).outcome session = (evaluate room expr).outcome session' ∧
    after.journal = after'.journal ∧
    Bindings.AgreeOn (· ∈ expr.free) after.bindings after'.bindings ∧
    (∀ name, name ∉ expr.free → after.bindings.get? name = bindings.get? name ∧
      after'.bindings.get? name = bindings'.get? name) ∧
    ∀ (form : SpecialForm) (args : List Value) (value : Value),
      (∀ arg ∈ args, form.name ∉ arg.free) →
      let special := Value.list (.sym form.name :: args)
      let bound := session.put form.name value
      (evaluate room special).outcome session = (evaluate room special).outcome bound ∧
        ((evaluate room special).exec session).journal =
          ((evaluate room special).exec bound).journal ∧
        Bindings.AgreeOn (· ≠ form.name) ((evaluate room special).exec session).bindings
          ((evaluate room special).exec bound).bindings := by
  obtain ⟨houtcome, hjournal, hafter⟩ := @evaluate_congr _ room expr (· ∈ expr.free)
    ⟨bindings, journal⟩ ⟨bindings', journal⟩ (fun _ hname => hname) hagree rfl
  refine ⟨houtcome, hjournal, hafter, ?_, fun form args value h => special_congr h _ value⟩
  intro name hname
  exact ⟨get?_exec_of_not_mem_free hname, get?_exec_of_not_mem_free hname⟩

/-- The condition binds a name before the addition fails on it; what `if` and the quoted
name are bound to does not matter. -/
theorem depends_on_free_names_sample :
    let expr := Value.choice (.definition "a" (.bool true)) (.list [.sym "+", .sym "a"])
      (.quote (.sym "b"))
    let bindings := Session.initial.bindings
    let bindings' := (bindings.define "if" .nil).define "b" (.int 1)
    Bindings.AgreeOn (· ∈ expr.free) bindings bindings' ∧
      (evaluate 100 expr).outcome ⟨bindings', []⟩ = .error (.failure (.badArg (.sym "+"))) ∧
      ((evaluate 100 expr).exec ⟨bindings', []⟩).bindings.get? "a" = some (.bool true) := by
  intro expr bindings bindings'
  have hagree : Bindings.AgreeOn (· ∈ expr.free) bindings bindings' := by
    intro name hname
    have hfree : name ∈ ["a", "+", "a"] := hname
    have hif : name ≠ "if" := by rintro rfl; simp at hfree
    have hb : name ≠ "b" := by rintro rfl; simp at hfree
    rw [Bindings.get?_define, if_neg hb, Bindings.get?_define, if_neg hif]
  obtain ⟨houtcome, -, hafter, -⟩ := depends_on_free_names 100 expr bindings bindings' [] hagree
  exact ⟨hagree, houtcome.symm.trans rfl, (hafter "a" (by decide)).symm.trans rfl⟩

end Sexpr
