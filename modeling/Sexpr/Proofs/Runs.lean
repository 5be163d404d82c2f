import Sexpr.Run

/-!
# What runs leave

A run leaves a state however it ends. Much of what runs do to their state is said of
the state they leave, whether or not they come to a result.
-/
namespace EStateM

variable {ε σ α β γ : Type}

/-- The state that a run leaves, however it ends. -/
def exec (work : EStateM ε σ α) (state : σ) : σ :=
  match work state with
  | .ok _ after => after
  | .error _ after => after

theorem exec_ok {work : EStateM ε σ α} {state after : σ} {a : α} (h : work state = .ok a after) :
    work.exec state = after := by
  rw [exec, h]

theorem exec_error {work : EStateM ε σ α} {state after : σ} {reason : ε}
    (h : work state = .error reason after) : work.exec state = after := by
  rw [exec, h]

/-- How a run ends, without the state that it leaves. -/
def outcome (work : EStateM ε σ α) (state : σ) : Except ε α :=
  match work state with
  | .ok a _ => .ok a
  | .error reason _ => .error reason

theorem bind_apply (work : EStateM ε σ α) (next : α → EStateM ε σ β) (state : σ) :
    (work >>= next) state =
      match work state with
      | .ok a after => next a after
      | .error reason after => .error reason after :=
  run_bind work next

theorem discard_eq_bind (work : EStateM ε σ α) : discard work = work >>= fun _ => pure () := by
  rw [bind_pure_comp]
  rfl

theorem get_apply (state : σ) : (get : EStateM ε σ σ) state = .ok state state := rfl

/-! ## Parts of the state that a run keeps -/

/-- The run leaves this part of the state as it is, however it ends. -/
def Keeps (part : σ → γ) (work : EStateM ε σ α) : Prop :=
  ∀ state, part (work.exec state) = part state

theorem Keeps.bind {part : σ → γ} {work : EStateM ε σ α} {next : α → EStateM ε σ β}
    (hwork : work.Keeps part) (hnext : ∀ a, (next a).Keeps part) : (work >>= next).Keeps part := by
  intro state
  have hfirst := hwork state
  unfold exec at hfirst ⊢
  rw [bind_apply]
  cases hresult : work state with
  | error reason after =>
    rw [hresult] at hfirst
    exact hfirst
  | ok a after =>
    rw [hresult] at hfirst
    exact (hnext a after).trans hfirst

theorem Keeps.pure {part : σ → γ} (a : α) : (Pure.pure a : EStateM ε σ α).Keeps part :=
  fun _ => rfl

theorem Keeps.throw {part : σ → γ} (reason : ε) : (throw reason : EStateM ε σ α).Keeps part :=
  fun _ => rfl

end EStateM
