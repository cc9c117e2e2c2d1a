import Mathlib.Data.List.Basic
import Mathlib.Data.List.Induction

/-!
# Runs of partial step functions

A system is a partial step function: `none` means that the action is not enabled
in the state. A run performs a list of actions in order. A guarded trace lists the
events that a system records, each allowed by those in front of it.
-/
namespace EnclaveNetworkGateway

variable {σ α : Type*}

/-- The state after performing `as` one after the other, if each is enabled. -/
def run (step : σ → α → Option σ) (s : σ) (as : List α) : Option σ := as.foldlM step s

namespace Run

variable {step : σ → α → Option σ}

@[simp] theorem run_nil (s : σ) : run step s [] = some s := rfl

@[simp] theorem run_singleton (s : σ) (a : α) : run step s [a] = step s a := by simp [run]

theorem run_cons {s u : σ} {a : α} {as : List α} :
    run step s (a :: as) = some u ↔ ∃ t, step s a = some t ∧ run step t as = some u := by
  simp [run, Option.bind_eq_some_iff]

theorem run_append {s u : σ} {as bs : List α} :
    run step s (as ++ bs) = some u ↔ ∃ t, run step s as = some t ∧ run step t bs = some u := by
  simp [run, Option.bind_eq_some_iff]

/-- A run that ends with `a` performs `a` in the state before. -/
theorem run_concat {s u : σ} {as : List α} {a : α} :
    run step s (as ++ [a]) = some u ↔ ∃ t, run step s as = some t ∧ step t a = some u := by
  simp [run_append]

/-- A run and a property of the state it ends in, both found by evaluation. -/
theorem exists_of_any (step : σ → α → Option σ) (s : σ) (as : List α) (P : σ → Prop)
    [DecidablePred P] (h : (run step s as).any (fun t => P t) = true) :
    ∃ t, run step s as = some t ∧ P t := by
  obtain ⟨t, ht, hP⟩ := (Option.any_eq_true _ _).mp h
  exact ⟨t, ht, of_decide_eq_true hP⟩

/-- What every step with an `ok` action keeps, every run of such actions keeps. -/
theorem invariant_of_forall {I : σ → Prop} {ok : α → Prop}
    (hstep : ∀ s a t, I s → ok a → step s a = some t → I t)
    {as : List α} {s t : σ} (hok : ∀ a ∈ as, ok a) (hs : I s) (hrun : run step s as = some t) :
    I t := by
  induction as generalizing s with
  | nil => exact Option.some.inj hrun ▸ hs
  | cons a as ih =>
    obtain ⟨u, hu, hrest⟩ := run_cons.mp hrun
    exact ih (fun b hb => hok b (by simp [hb])) (hstep s a u hs (hok a (by simp)) hu) hrest

theorem invariant {I : σ → Prop} (hstep : ∀ s a t, I s → step s a = some t → I t)
    {as : List α} {s t : σ} (hs : I s) (hrun : run step s as = some t) : I t :=
  @invariant_of_forall σ α step I (fun _ => True) (fun s a t hI _ => hstep s a t hI) as s t
    (fun _ _ => trivial) hs hrun

/-- The run from `s` to `t` takes the step from `s₀` to `s₁`. -/
def TakesStep (step : σ → α → Option σ) (s : σ) (as : List α) (t s₀ : σ) (a : α) (s₁ : σ) : Prop :=
  ∃ as₀ as₁, as = as₀ ++ a :: as₁ ∧ run step s as₀ = some s₀ ∧ step s₀ a = some s₁ ∧
    run step s₁ as₁ = some t

theorem TakesStep.enabled {as : List α} {s t s₀ s₁ : σ} {a : α}
    (h : TakesStep step s as t s₀ a s₁) : step s₀ a = some s₁ := by
  obtain ⟨_, _, _, _, ha, _⟩ := h
  exact ha

theorem TakesStep.before {as : List α} {s t s₀ s₁ : σ} {a : α}
    (h : TakesStep step s as t s₀ a s₁) : ∃ as₀, run step s as₀ = some s₀ := by
  obtain ⟨as₀, _, _, h₀, _, _⟩ := h
  exact ⟨as₀, h₀⟩

/-- What holds after the step and every later step keeps holds at the end of the run. -/
theorem TakesStep.kept {I : σ → Prop} {as : List α} {s t s₀ s₁ : σ} {a : α}
    (h : TakesStep step s as t s₀ a s₁) (hstep : ∀ u b v, I u → step u b = some v → I v)
    (hs : I s₁) : I t := by
  obtain ⟨_, _, _, _, _, h₁⟩ := h
  exact invariant hstep hs h₁

/-- A property that a run brings about is brought about by one of its steps. -/
theorem exists_step_of_change {P : σ → Prop} {as : List α} {s t : σ}
    (hrun : run step s as = some t) (hs : ¬ P s) (ht : P t) :
    ∃ s₀ a s₁, TakesStep step s as t s₀ a s₁ ∧ ¬ P s₀ ∧ P s₁ := by
  induction as generalizing s with
  | nil => exact absurd (Option.some.inj hrun ▸ ht) hs
  | cons a as ih =>
    obtain ⟨u, hu, hrest⟩ := run_cons.mp hrun
    by_cases hPu : P u
    · exact ⟨s, a, u, ⟨[], as, rfl, rfl, hu, hrest⟩, hs, hPu⟩
    · obtain ⟨s₀, b, s₁, ⟨as₀, as₁, rfl, h₀, hb, h₁⟩, hs₀, hs₁⟩ := ih hrest hPu
      exact ⟨s₀, b, s₁, ⟨a :: as₀, as₁, rfl, run_cons.mpr ⟨u, hu, h₀⟩, hb, h₁⟩, hs₀, hs₁⟩

/-- Steps of the kind `p` lower the measure and no step raises it, so a run takes no more of
them than the measure allows. -/
theorem countP_le_of_measure {I : σ → Prop} {p : α → Bool} {μ : σ → ℕ}
    (hstep : ∀ s a t, I s → step s a = some t → I t ∧ μ t + (p a).toNat ≤ μ s)
    {as : List α} {s t : σ} (hs : I s) (hrun : run step s as = some t) :
    μ t + as.countP p ≤ μ s := by
  induction as generalizing s with
  | nil =>
    obtain rfl := Option.some.inj hrun
    simp
  | cons a as ih =>
    obtain ⟨u, hu, hrest⟩ := run_cons.mp hrun
    obtain ⟨hI, hle⟩ := hstep s a u hs hu
    have hrec := ih hI hrest
    rw [List.countP_cons]
    cases hp : p a <;> simp only [hp, Bool.toNat_false, Bool.toNat_true] at hle <;> simp <;> omega

/-- Steps of the kind `p` use up the measure, and no step raises it by more than what it adds to
the credit. -/
theorem countP_le_of_credit {I : σ → Prop} {p : α → Bool} {μ γ : σ → ℕ}
    (hstep : ∀ s a t, I s → step s a = some t → I t ∧ μ t + (p a).toNat + γ s ≤ μ s + γ t)
    {as : List α} {s t : σ} (hs : I s) (hrun : run step s as = some t) :
    μ t + as.countP p + γ s ≤ μ s + γ t := by
  induction as generalizing s with
  | nil =>
    obtain rfl := Option.some.inj hrun
    simp
  | cons a as ih =>
    obtain ⟨u, hu, hrest⟩ := run_cons.mp hrun
    obtain ⟨hI, hle⟩ := hstep s a u hs hu
    have hrec := ih hI hrest
    rw [List.countP_cons]
    cases hp : p a <;> simp only [hp, Bool.toNat_false, Bool.toNat_true] at hle <;> simp <;> omega

/-- Where every state of a kind is at the goal or has a run to one with a smaller measure, a run
leads to the goal. -/
theorem exists_run_of_measure {I Q : σ → Prop} (μ : σ → ℕ)
    (hstep : ∀ s, I s → Q s ∨ ∃ as t, run step s as = some t ∧ I t ∧ μ t < μ s) {s : σ}
    (hs : I s) : ∃ as t, run step s as = some t ∧ Q t := by
  induction hn : μ s using Nat.strongRecOn generalizing s with
  | ind n ih =>
    rcases hstep s hs with hQ | ⟨as, t, hrun, hI, hlt⟩
    · exact ⟨[], s, rfl, hQ⟩
    · obtain ⟨bs, u, hrest, hQ⟩ := ih _ (hn ▸ hlt) hI rfl
      exact ⟨as ++ bs, u, run_append.mpr ⟨t, hrun, hrest⟩, hQ⟩

/-- Where a step of the kind `p` that lowers the measure is always enabled short of the goal, the
goal is no further away than the measure says. -/
theorem exists_run_length_le {I Q : σ → Prop} {p : α → Bool} (μ : σ → ℕ)
    (hstep : ∀ s, I s → Q s ∨ ∃ a t, p a = true ∧ step s a = some t ∧ I t ∧ μ t < μ s) {s : σ}
    (hs : I s) : ∃ as t, as.length ≤ μ s ∧ as.all p = true ∧ run step s as = some t ∧ Q t := by
  induction hn : μ s using Nat.strongRecOn generalizing s with
  | ind n ih =>
    rcases hstep s hs with hQ | ⟨a, t, hp, ha, hI, hlt⟩
    · exact ⟨[], s, Nat.zero_le _, rfl, rfl, hQ⟩
    · obtain ⟨as, u, hlen, hall, hrest, hQ⟩ := ih _ (hn ▸ hlt) hI rfl
      refine ⟨a :: as, u, ?_, by simp [hp, hall], run_cons.mpr ⟨t, ha, hrest⟩, hQ⟩
      rw [List.length_cons]
      omega

/-- Each step of one system is a step of the other one with the label `lab`
gives it, or none where it gives no label. Then so is each run. -/
theorem simulation {τ β : Type*} {spec : τ → β → Option τ} {lab : α → Option β}
    {R : σ → τ → Prop}
    (hstep : ∀ s t a s', R s t → step s a = some s' →
      ∃ t', run spec t (lab a).toList = some t' ∧ R s' t')
    {as : List α} {s s' : σ} {t : τ} (hR : R s t) (hrun : run step s as = some s') :
    ∃ t', run spec t (as.filterMap lab) = some t' ∧ R s' t' := by
  induction as generalizing s t with
  | nil => exact ⟨t, rfl, Option.some.inj hrun ▸ hR⟩
  | cons a as ih =>
    obtain ⟨u, hu, hrest⟩ := run_cons.mp hrun
    obtain ⟨t₁, ht₁, hR₁⟩ := hstep s t a u hR hu
    obtain ⟨t', ht', hR'⟩ := ih hR₁ hrest
    have hlab : (a :: as).filterMap lab = (lab a).toList ++ as.filterMap lab := by
      cases h : lab a <;> simp [h]
    rw [hlab]
    exact ⟨t', run_append.mpr ⟨t₁, ht₁, ht'⟩, hR'⟩

/-- The property holds in every state that the run goes through. -/
def Always (step : σ → α → Option σ) (s : σ) (as : List α) (P : σ → Prop) : Prop :=
  ∀ pre t, pre <+: as → run step s pre = some t → P t

/-- The run takes only steps that `ok` allows. -/
def EachStep (step : σ → α → Option σ) (s : σ) (as : List α) (ok : σ → α → Prop) : Prop :=
  ∀ pre a t, pre ++ [a] <+: as → run step s pre = some t → ok t a

theorem eachStep_nil {s : σ} {ok : σ → α → Prop} : EachStep step s [] ok := by
  intro pre a t hpre
  simp at hpre

theorem eachStep_cons {s : σ} {a : α} {as : List α} {ok : σ → α → Prop} :
    EachStep step s (a :: as) ok ↔ ok s a ∧ ∀ t, step s a = some t → EachStep step t as ok := by
  constructor
  · intro h
    refine ⟨h [] a s (by simp) rfl, fun t ht pre b u hpre hu => ?_⟩
    exact h (a :: pre) b u (by simpa using hpre) (run_cons.mpr ⟨t, ht, hu⟩)
  · rintro ⟨hok, hrest⟩ pre b u hpre hu
    cases pre with
    | nil =>
      obtain rfl := Option.some.inj hu
      obtain rfl : b = a := by simpa using hpre
      exact hok
    | cons c pre =>
      obtain ⟨rfl, hpre'⟩ : c = a ∧ pre ++ [b] <+: as := by simpa using hpre
      obtain ⟨t, ht, hu'⟩ := run_cons.mp hu
      exact hrest t ht pre b u hpre' hu'

instance decidableEachStep {ok : σ → α → Prop} [∀ s, DecidablePred (ok s)] (s : σ) :
    (as : List α) → Decidable (EachStep step s as ok)
  | [] => isTrue eachStep_nil
  | a :: as =>
    match h : step s a with
    | none => decidable_of_iff (ok s a) (by simp [eachStep_cons, h])
    | some t =>
      have : Decidable (EachStep step t as ok) := decidableEachStep t as
      decidable_of_iff (ok s a ∧ EachStep step t as ok) (by simp [eachStep_cons, h])

/-- What every allowed step keeps, every run of allowed steps keeps. -/
theorem invariant_of_eachStep {I : σ → Prop} {ok : σ → α → Prop}
    (hstep : ∀ s a t, I s → ok s a → step s a = some t → I t)
    {as : List α} {s t : σ} (hok : EachStep step s as ok) (hs : I s)
    (hrun : run step s as = some t) : I t := by
  induction as generalizing s with
  | nil => exact Option.some.inj hrun ▸ hs
  | cons a as ih =>
    obtain ⟨u, hu, hrest⟩ := run_cons.mp hrun
    obtain ⟨ha, has⟩ := eachStep_cons.mp hok
    exact ih (has u hu) (hstep s a u hs ha hu) hrest

/-- Where the steps that are not allowed are those that break a property, the property holds
all along a run exactly if each of its steps is allowed. -/
theorem always_iff_eachStep {J P : σ → Prop} {ok : σ → α → Prop} {s : σ}
    (hkeep : ∀ s a t, J s → step s a = some t → J t)
    (hgood : ∀ s a t, J s → P s → ok s a → step s a = some t → P t)
    (hbad : ∀ s a, J s → P s → ¬ ok s a → ∃ t, step s a = some t ∧ ¬ P t)
    (hJ : J s) (hP : P s) (as : List α) :
    Always step s as P ↔ EachStep step s as ok := by
  constructor
  · intro h pre a t hpre ht
    by_contra hok
    have hJt : J t := invariant hkeep hJ ht
    have hPt : P t := h pre t ((List.prefix_append pre [a]).trans hpre) ht
    obtain ⟨u, hu, hPu⟩ := hbad t a hJt hPt hok
    exact hPu (h (pre ++ [a]) u hpre (run_concat.mpr ⟨t, ht, hu⟩))
  · intro h pre
    induction pre using List.reverseRecOn with
    | nil => exact fun t _ ht => Option.some.inj ht ▸ hP
    | append_singleton pre a ih =>
      intro t hpre ht
      obtain ⟨u, hu, ha⟩ := run_concat.mp ht
      have hPu : P u := ih u ((List.prefix_append pre [a]).trans hpre) hu
      exact hgood u a t (invariant hkeep hJ hu) hPu (h pre a u hpre hu) ha

end Run

/-- No action that the system takes by itself is enabled. -/
def Quiescent (step : σ → α → Option σ) (own : α → Prop) (s : σ) : Prop :=
  ∀ a, own a → step s a = none

/-- Where every step of its own lowers a measure, the system comes to rest by itself. -/
theorem Run.exists_quiescent {step : σ → α → Option σ} {I : σ → Prop} {own : α → Prop} (μ : σ → ℕ)
    (hstep : ∀ s a t, I s → own a → step s a = some t → I t ∧ μ t < μ s) {s : σ} (hs : I s) :
    ∃ as t, (∀ a ∈ as, own a) ∧ run step s as = some t ∧ Quiescent step own t := by
  induction hn : μ s using Nat.strongRecOn generalizing s with
  | ind n ih =>
    by_cases hq : Quiescent step own s
    · exact ⟨[], s, by simp, rfl, hq⟩
    · simp only [Quiescent, not_forall] at hq
      obtain ⟨a, ha, hne⟩ := hq
      obtain ⟨t, ht⟩ := Option.ne_none_iff_exists'.mp hne
      obtain ⟨hI, hlt⟩ := hstep s a t hs ha ht
      obtain ⟨as, u, hown, hrun, hrest⟩ := ih _ (hn ▸ hlt) hI rfl
      exact ⟨a :: as, u, by simpa [ha] using hown, Run.run_cons.mpr ⟨t, ht, hrun⟩, hrest⟩

section Trace

variable {ε : Type*} {allowed : List ε → ε → Prop} {tr : List ε}

/-- Each event of the trace is allowed after the events in front of it. -/
def Guarded (allowed : List ε → ε → Prop) (tr : List ε) : Prop :=
  ∀ pre ev post, tr = pre ++ ev :: post → allowed pre ev

theorem guarded_nil : Guarded allowed [] := by
  intro pre ev post h
  simp at h

theorem guarded_concat {ev : ε} :
    Guarded allowed (tr ++ [ev]) ↔ Guarded allowed tr ∧ allowed tr ev := by
  constructor
  · intro h
    refine ⟨fun pre e post heq => h pre e (post ++ [ev]) (by simp [heq]), h tr ev [] rfl⟩
  · rintro ⟨h, hev⟩ pre e post heq
    rcases List.eq_nil_or_concat' post with rfl | ⟨post', e', rfl⟩
    · have hlast : tr ++ [ev] = pre ++ [e] := heq
      obtain ⟨rfl, hone⟩ := List.append_inj' hlast rfl
      obtain rfl := List.singleton_inj.mp hone
      exact hev
    · have hlast : tr ++ [ev] = (pre ++ e :: post') ++ [e'] := by simpa using heq
      exact h pre e post' (List.append_inj' hlast rfl).1

end Trace

end EnclaveNetworkGateway
