import EnclaveNetworkGateway.Transition
import Mathlib.Logic.Function.Iterate

/-!
# Systems that are told what to do next

A rule that gives each state its next action makes one infinite sequence of states out of
a partial step function. Where the rule has no action that is enabled, the system stays
as it is.
-/
namespace EnclaveNetworkGateway

variable {σ α : Type*}

/-- One step by the rule `next`. -/
def advance (step : σ → α → Option σ) (next : σ → Option α) (s : σ) : σ :=
  ((next s).bind (step s)).getD s

/-- The state after `n` steps by the rule. -/
def after (step : σ → α → Option σ) (next : σ → Option α) (s : σ) (n : ℕ) : σ :=
  (advance step next)^[n] s

namespace Schedule

variable {step : σ → α → Option σ} {next : σ → Option α} {s t : σ}

/-- The system takes a step or stays as it is. -/
theorem advance_cases (step : σ → α → Option σ) (next : σ → Option α) (s : σ) :
    advance step next s = s ∨ ∃ a, next s = some a ∧ step s a = some (advance step next s) := by
  cases h : (next s).bind (step s) with
  | none => exact .inl (by rw [advance, h, Option.getD_none])
  | some t =>
    obtain ⟨a, ha, ht⟩ := Option.bind_eq_some_iff.mp h
    exact .inr ⟨a, ha, by rw [advance, h, Option.getD_some, ht]⟩

@[simp] theorem after_zero : after step next s 0 = s := rfl

theorem after_succ (n : ℕ) : after step next s (n + 1) = advance step next (after step next s n) :=
  Function.iterate_succ_apply' _ n s

theorem after_add (m n : ℕ) :
    after step next s (m + n) = after step next (after step next s m) n := by
  rw [Nat.add_comm, after, Function.iterate_add_apply]
  rfl

theorem invariant {I : σ → Prop} (hstep : ∀ s, I s → I (advance step next s)) (hs : I s) (n : ℕ) :
    I (after step next s n) := by
  induction n with
  | zero => exact hs
  | succ n ih =>
    rw [after_succ]
    exact hstep _ ih

/-- A measure that no step lowers only grows along the sequence. -/
theorem monotone {μ : σ → ℕ} (hstep : ∀ s, μ s ≤ μ (advance step next s)) {m n : ℕ} (h : m ≤ n) :
    μ (after step next s m) ≤ μ (after step next s n) := by
  obtain ⟨d, rfl⟩ := Nat.exists_eq_add_of_le h
  rw [after_add]
  exact invariant (I := fun t => μ (after step next s m) ≤ μ t)
    (fun t ht => Nat.le_trans ht (hstep t)) (Nat.le_refl _) d

/-- Where every state of a kind leads on to the goal, or to a state of that kind with a
smaller measure, the goal is reached. -/
theorem reaches_of_measure {I Q : σ → Prop} (μ : σ → ℕ)
    (hstep : ∀ s, I s → ∃ n, Q (after step next s n) ∨
      I (after step next s n) ∧ μ (after step next s n) < μ s) {s : σ} (hs : I s) :
    ∃ n, Q (after step next s n) := by
  induction hn : μ s using Nat.strongRecOn generalizing s with
  | ind n ih =>
    obtain ⟨m, hQ | ⟨hI, hlt⟩⟩ := hstep s hs
    · exact ⟨m, hQ⟩
    · obtain ⟨k, hk⟩ := ih _ (hn ▸ hlt) hI rfl
      exact ⟨m + k, by rwa [after_add]⟩

end Schedule

end EnclaveNetworkGateway
