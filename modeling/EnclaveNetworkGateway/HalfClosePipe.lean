import EnclaveNetworkGateway.Sides
import EnclaveNetworkGateway.Transition
import Mathlib.Data.List.Infix

/-!
# Pipes with half-close

A one-way pipe as its two users see it: what was written, what was read, whether
the writer has closed it. A pipe may break, and only a broken pipe ends early.
-/
namespace EnclaveNetworkGateway

variable {α : Type*}

/-- What is read is always a prefix of what was written. -/
structure HalfClosePipe (α : Type*) where
  written : List α
  read : List α
  prefix_written : read <+: written
  closed : Bool
  broken : Bool

inductive PipeOp (α : Type*) where
  | write (w : List α)
  | read (r : List α)
  | close
  | fail
  | eof

namespace HalfClosePipe

def new : HalfClosePipe α := ⟨[], [], List.prefix_rfl, false, false⟩

variable [DecidableEq α]

def step (p : HalfClosePipe α) : PipeOp α → Option (HalfClosePipe α)
  | .write w =>
    if p.closed then none
    else some { p with
      written := p.written ++ w
      prefix_written := p.prefix_written.trans (List.prefix_append _ _) }
  | .read r =>
    if h : p.read ++ r <+: p.written then some { p with read := p.read ++ r, prefix_written := h }
    else none
  | .close => some { p with closed := true }
  | .fail => some { p with broken := true }
  | .eof => if p.broken ∨ p.closed ∧ p.read = p.written then some p else none

/-- Two pipes side by side: a step of one leaves the other as it is. -/
def pairStep (p : Pair (HalfClosePipe α)) (a : Side × PipeOp α) :
    Option (Pair (HalfClosePipe α)) :=
  ((p.get a.1).step a.2).map (p.set a.1)

theorem pairStep_of_step {p : Pair (HalfClosePipe α)} {d : Side} {op : PipeOp α}
    {q : HalfClosePipe α} (h : (p.get d).step op = some q) :
    pairStep p (d, op) = some (p.set d q) := by
  simp [pairStep, h]

/-- An open pipe accepts every write. -/
theorem step_write {p : HalfClosePipe α} (h : p.closed = false) (w : List α) :
    p.step (.write w) = some { p with
      written := p.written ++ w
      prefix_written := p.prefix_written.trans (List.prefix_append _ _) } := by
  simp [step, h]

theorem step_read {p : HalfClosePipe α} {r : List α} (h : p.read ++ r <+: p.written) :
    p.step (.read r) = some { p with read := p.read ++ r, prefix_written := h } := by
  simp [step, h]

theorem step_eof {p : HalfClosePipe α}
    (h : p.broken = false → p.closed = true ∧ p.read = p.written) : p.step .eof = some p := by
  cases hb : p.broken with
  | false => simp [step, h hb]
  | true => simp [step, hb]

theorem step_broken {p p' : HalfClosePipe α} {op : PipeOp α} (h : p.step op = some p')
    (hb : p'.broken = true) : op = .fail ∨ p.broken = true := by
  cases op with
  | fail => exact .inl rfl
  | write w =>
    simp only [step] at h
    split_ifs at h
    obtain rfl := Option.some.inj h
    exact .inr hb
  | read r =>
    simp only [step] at h
    split_ifs at h
    obtain rfl := Option.some.inj h
    exact .inr hb
  | close =>
    obtain rfl := Option.some.inj h
    exact .inr hb
  | eof =>
    simp only [step] at h
    split_ifs at h
    obtain rfl := Option.some.inj h
    exact .inr hb

/-- A direction whose pipe never failed ends only after it was closed and read
to the end, whatever happened to the other direction. -/
theorem eof_of_run {as : List (Side × PipeOp α)} {p p' : Pair (HalfClosePipe α)} {d : Side}
    (hrun : run pairStep (.both new) as = some p) (has : (d, .fail) ∉ as)
    (h : pairStep p (d, .eof) = some p') :
    (p.get d).closed = true ∧ (p.get d).read = (p.get d).written := by
  have hbroken : (p.get d).broken = false := by
    have hne : ∀ a ∈ as, a ≠ (d, .fail) := fun a ha he => has (he ▸ ha)
    refine Run.invariant_of_forall (I := fun q => (q.get d).broken = false) ?_ hne (by simp [new])
      hrun
    intro q a q' hq hne hstep
    simp only [pairStep, Option.map_eq_some_iff] at hstep
    obtain ⟨x, hx, rfl⟩ := hstep
    rcases Side.eq_or_eq_other d a.1 with hd | hd
    · rw [hd, Pair.get_set]
      rw [hd] at hq hne
      by_contra hb
      rcases step_broken hx (by simpa using hb) with hf | hf
      · exact hne (Prod.ext rfl hf)
      · simp [hq] at hf
    · rw [hd] at hq ⊢
      simpa using hq
  simp only [pairStep, step, hbroken, Bool.false_eq_true, false_or] at h
  split_ifs at h with hc
  · exact hc
  · simp at h

end HalfClosePipe

end EnclaveNetworkGateway
