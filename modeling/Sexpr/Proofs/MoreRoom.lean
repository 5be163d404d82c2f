import Sexpr.Builtin
import Sexpr.Failure
import Sexpr.Proofs.Rendering
import Sexpr.Proofs.Values
import Sexpr.Value.Equal

/-!
# More room

How much room there is decides whether a value can be written, shown or compared, never
what comes of it. An answer that is not that the value is too deep is the answer with
more room, too.
-/
namespace Sexpr

/-- A larger limit leaves more room. -/
theorem Room.ofLimit_mono {limit limit' : Nat} (h : limit ≤ limit') :
    ofLimit limit ≤ ofLimit limit' :=
  Nat.sub_le_sub_right h reserved

/-! ## Answers that persist -/

/-- The second answer is the first one, unless that is for lack of room. -/
def Persists {α : Type} (answer answer' : Except Unwritable α) : Prop :=
  answer = .error .tooDeep ∨ answer' = answer

namespace Persists

variable {α β : Type} {answer answer' : Except Unwritable α}

theorem refl (answer : Except Unwritable α) : Persists answer answer := .inr rfl

theorem of_ok {a : α} (h : Persists answer answer') (hanswer : answer = .ok a) :
    answer' = .ok a := by
  rcases h with rfl | rfl
  · cases hanswer
  · exact hanswer

theorem bind {next next' : α → Except Unwritable β} (h : Persists answer answer')
    (hnext : ∀ a, Persists (next a) (next' a)) :
    Persists (answer >>= next) (answer' >>= next') := by
  rcases h with rfl | rfl
  · exact .inl rfl
  · cases answer' with
    | error reason => exact .refl _
    | ok a => exact hnext a

theorem map (f : α → β) (h : Persists answer answer') : Persists (f <$> answer) (f <$> answer') := by
  rcases h with rfl | rfl
  · exact .inl rfl
  · exact .refl _

theorem mapM {f f' : α → Except Unwritable β} {items : List α}
    (h : ∀ item ∈ items, Persists (f item) (f' item)) : Persists (items.mapM f) (items.mapM f') := by
  induction items with
  | nil => exact .refl _
  | cons item rest ih =>
    rw [List.mapM_cons, List.mapM_cons]
    refine (h item List.mem_cons_self).bind fun b => ?_
    exact (ih fun later hlater => h later (List.mem_cons_of_mem _ hlater)).bind fun bs => .refl _

/-- Work on the next level persists if it does with more room there. -/
theorem within {cost room room' : Nat} {next next' : Nat → Except Unwritable β} (h : room ≤ room')
    (hnext : ∀ inner inner', inner ≤ inner' → Persists (next inner) (next' inner')) :
    Persists (Unwritable.within cost room >>= next) (Unwritable.within cost room' >>= next') := by
  unfold Unwritable.within
  cases hroom : Room.enter cost room with
  | none => exact .inl rfl
  | some inner =>
    obtain ⟨inner', hroom', hinner⟩ := Room.enter_mono h hroom
    rw [hroom']
    exact hnext inner inner' hinner

end Persists

/-! ## Texts -/

section
variable {room room' : Nat}

theorem render_persists (h : room ≤ room') (value : Value) :
    Persists (value.render room) (value.render room') := by
  induction value generalizing room room' with
  | nil | int | str | sym | prim | foreign => exact .refl _
  | bool b => cases b <;> exact .refl _
  | list items ih =>
    refine Persists.within h fun inner inner' hinner => ?_
    rw [Value.renderEach_eq, Value.renderEach_eq]
    exact (Persists.mapM fun item hitem => ih item hitem hinner).bind fun texts => .refl _
  | quote value ih =>
    exact Persists.within h fun inner inner' hinner => (ih hinner).bind fun text => .refl _

theorem inspect_persists (h : room ≤ room') (value : Value) :
    Persists (value.inspect room) (value.inspect room') := by
  induction value generalizing room room' with
  | nil | int | str | sym | prim | foreign => exact .refl _
  | bool b => cases b <;> exact .refl _
  | list items ih =>
    refine Persists.within h fun inner inner' hinner => ?_
    rw [Value.inspectEach_eq, Value.inspectEach_eq]
    exact (Persists.mapM fun item hitem => ih item hitem hinner).bind fun texts => .refl _
  | quote value ih =>
    exact Persists.within h fun inner inner' hinner => (ih hinner).bind fun text => .refl _

theorem message_persists (h : room ≤ room') (rejection : Rejection) :
    Persists (rejection.message room) (rejection.message room') := by
  unfold Rejection.message
  split
  · exact (inspect_persists h _).map _
  · exact (inspect_persists h _).map _
  · exact .refl _
  · exact .refl _
  · exact .refl _

theorem display_persists (h : room ≤ room') (value : Value) :
    Persists (value.display room) (value.display room') := by
  unfold Value.display
  split
  · exact .refl _
  · exact .refl _
  · exact inspect_persists h _

theorem Failure.inspect_persists (h : room ≤ room') (failure : Failure) :
    Persists (failure.inspect room) (failure.inspect room') := by
  refine Persists.bind ?_ fun texts => .refl _
  rw [inspectPayload, inspectPayload, Value.inspectEach_eq, Value.inspectEach_eq]
  exact Persists.mapM fun value _ => Sexpr.inspect_persists h value

theorem Failure.describe_persists (h : room ≤ room') (failure : Failure) :
    Persists (failure.describe room) (failure.describe room') := by
  cases failure with
  | undefined | redefine | specialTooFewArgs | specialTooManyArgs =>
    exact (display_persists h _).map _
  | defineBadSymbol | badArg | notAFunction | unknown => exact (render_persists h _).map _
  | primitiveTooFewArgs name minimum actual =>
    refine (display_persists h name).bind fun name => ?_
    refine (display_persists h minimum).bind fun minimum => ?_
    exact (display_persists h actual).bind fun actual => .refl _
  | nestingTooDeep => exact .refl _
  | unspecified => exact inspect_persists h _

/-! ## Comparisons -/

theorem compareEach_mono {as : List Value}
    (h : ∀ a ∈ as, ∀ b answer, a.compare room b = some answer → a.compare room' b = some answer)
    {bs : List Value} {answer : Bool} (hanswer : Value.compareEach room as bs = some answer) :
    Value.compareEach room' as bs = some answer := by
  induction as generalizing bs with
  | nil => cases bs <;> exact hanswer
  | cons a as ih =>
    cases bs with
    | nil => exact hanswer
    | cons b bs =>
      rw [Value.compareEach] at hanswer ⊢
      -- The first members tell unless they are equal.
      cases hfirst : a.compare room b with
      | none => simp [hfirst] at hanswer
      | some same =>
        rw [h a List.mem_cons_self b same hfirst]
        cases same with
        | false => simpa [hfirst] using hanswer
        | true =>
          rw [hfirst] at hanswer
          exact ih (fun a' ha' => h a' (List.mem_cons_of_mem _ ha')) hanswer

theorem compare_mono (h : room ≤ room') (a b : Value) {answer : Bool}
    (hanswer : a.compare room b = some answer) : a.compare room' b = some answer := by
  induction a generalizing room room' b answer with
  | nil | bool | int | str | sym | prim | foreign =>
    cases b <;> simpa [Value.compare] using hanswer
  | list as ih =>
    cases b with
    | list bs =>
      rw [Value.compare] at hanswer ⊢
      split at hanswer
      · rename_i hlength
        rw [if_pos hlength]
        cases hroom : Room.enter Room.compareLevel room with
        | none => simp [hroom] at hanswer
        | some inner =>
          obtain ⟨inner', hroom', hinner⟩ := Room.enter_mono h hroom
          rw [hroom] at hanswer
          rw [hroom']
          exact compareEach_mono (fun a ha b answer => ih a ha hinner b) hanswer
      · rename_i hlength
        rwa [if_neg hlength]
    | nil | bool | int | str | sym | quote | prim | foreign =>
      simpa [Value.compare] using hanswer
  | quote a ih =>
    cases b with
    | quote b =>
      rw [Value.compare] at hanswer ⊢
      cases hroom : Room.enter Room.compareLevel room with
      | none => simp [hroom] at hanswer
      | some inner =>
        obtain ⟨inner', hroom', hinner⟩ := Room.enter_mono h hroom
        rw [hroom] at hanswer
        rw [hroom']
        exact ih hinner b hanswer
    | nil | bool | int | str | sym | list | prim | foreign =>
      simpa [Value.compare] using hanswer

end

end Sexpr
