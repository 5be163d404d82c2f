import Sexpr.Value.Inspect

/-!
# Written forms taken apart

A list or a quote has a written form only if what it holds has one.
-/
namespace Sexpr

/-- Two steps end well exactly if both do, one after the other. -/
theorem bind_eq_ok_iff {ε α β : Type} {first : Except ε α} {next : α → Except ε β} {b : β} :
    first >>= next = .ok b ↔ ∃ a, first = .ok a ∧ next a = .ok b := by
  cases first with
  | error error => exact ⟨nofun, nofun⟩
  | ok a =>
    constructor
    · exact fun h => ⟨a, rfl, h⟩
    · rintro ⟨a', ha, h⟩
      cases ha
      exact h

/-- Two steps fail exactly if the first does, or the second one after it. -/
theorem bind_eq_error_iff {ε α β : Type} {first : Except ε α} {next : α → Except ε β} {error : ε} :
    first >>= next = .error error ↔
      first = .error error ∨ ∃ a, first = .ok a ∧ next a = .error error := by
  cases first with
  | error reason =>
    constructor
    · intro h
      cases h
      exact .inl rfl
    · rintro (h | ⟨a, ha, _⟩)
      · cases h
        rfl
      · cases ha
  | ok a =>
    constructor
    · exact fun h => .inr ⟨a, rfl, h⟩
    · rintro (h | ⟨a', ha, h⟩)
      · cases h
      · cases ha
        exact h

/-- Steps in order fail only if one of them does. -/
theorem mapM_eq_error {ε α β : Type} {f : α → Except ε β} {items : List α} {error : ε}
    (h : items.mapM f = .error error) : ∃ item ∈ items, f item = .error error := by
  induction items with
  | nil => cases h
  | cons item rest ih =>
    rw [List.mapM_cons] at h
    rcases bind_eq_error_iff.mp h with hitem | ⟨b, _, hrest⟩
    · exact ⟨item, List.mem_cons_self, hitem⟩
    · rcases bind_eq_error_iff.mp hrest with hrest | ⟨bs, _, hreturn⟩
      · obtain ⟨later, hlater, herror⟩ := ih hrest
        exact ⟨later, List.mem_cons_of_mem _ hlater, herror⟩
      · cases hreturn

theorem Value.renderEach_eq (room : Nat) (items : List Value) :
    renderEach room items = items.mapM (render room) := by
  induction items with
  | nil => rfl
  | cons item rest ih => rw [renderEach, ih, List.mapM_cons]

theorem Value.inspectEach_eq (room : Nat) (items : List Value) :
    inspectEach room items = items.mapM (inspect room) := by
  induction items with
  | nil => rfl
  | cons item rest ih => rw [inspectEach, ih, List.mapM_cons]

theorem Unwritable.numeral_of_fits {n : Int} (h : Numeral.fits n = true) :
    numeral n = .ok (toString n) := by
  unfold numeral Numeral.render
  rw [if_pos h]

theorem Unwritable.numeral_of_not_fits {n : Int} (h : Numeral.fits n = false) :
    numeral n = .error .oversizedInteger := by
  unfold numeral Numeral.render
  rw [if_neg (by simp [h])]

theorem Unwritable.numeral_error {n : Int} {reason : Unwritable}
    (h : numeral n = .error reason) : reason = .oversizedInteger ∧ Numeral.fits n = false := by
  cases hfits : Numeral.fits n with
  | true =>
    rw [numeral_of_fits hfits] at h
    cases h
  | false =>
    rw [numeral_of_not_fits hfits] at h
    cases h
    exact ⟨rfl, rfl⟩

theorem Unwritable.within_error {cost room : Nat} {reason : Unwritable}
    (h : within cost room = .error reason) : reason = .tooDeep := by
  unfold within at h
  split at h
  · cases h
  · cases h
    rfl

theorem Unwritable.numeral_ok {n : Int} {text : String} (h : numeral n = .ok text) :
    Numeral.render n = .ok text := by
  unfold numeral at h
  -- The integer must not be compared with the bound by computation.
  generalize Numeral.render n = result at h ⊢
  cases result with
  | ok numeral =>
    rw [Except.ok.inj h]
  | error reason =>
    cases reason
    cases h

namespace Value

theorem render_list {room : Nat} {items : List Value} {text : String}
    (h : (list items).render room = .ok text) :
    ∃ inner texts, renderEach inner items = .ok texts ∧
      text = "(" ++ " ".intercalate texts ++ ")" := by
  rw [render, bind_eq_ok_iff] at h
  obtain ⟨inner, -, h⟩ := h
  obtain ⟨texts, htexts, h⟩ := bind_eq_ok_iff.mp h
  cases h
  exact ⟨inner, texts, htexts, rfl⟩

theorem render_quote {room : Nat} {inner : Value} {text : String}
    (h : (quote inner).render room = .ok text) :
    ∃ room' text', inner.render room' = .ok text' ∧ text = "'" ++ text' := by
  rw [render, bind_eq_ok_iff] at h
  obtain ⟨room', -, h⟩ := h
  obtain ⟨text', htext', h⟩ := bind_eq_ok_iff.mp h
  cases h
  exact ⟨room', text', htext', rfl⟩

theorem renderEach_cons {room : Nat} {value : Value} {values : List Value} {texts : List String}
    (h : renderEach room (value :: values) = .ok texts) :
    ∃ text others, value.render room = .ok text ∧ renderEach room values = .ok others ∧
      texts = text :: others := by
  rw [renderEach, bind_eq_ok_iff] at h
  obtain ⟨text, htext, h⟩ := h
  obtain ⟨others, hothers, h⟩ := bind_eq_ok_iff.mp h
  cases h
  exact ⟨text, others, htext, hothers, rfl⟩

theorem render_int {room : Nat} {n : Int} {text : String} (h : (int n).render room = .ok text) :
    Numeral.render n = .ok text := by
  rw [render] at h
  exact Unwritable.numeral_ok h

end Value
end Sexpr
