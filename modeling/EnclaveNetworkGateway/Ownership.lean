import EnclaveNetworkGateway.Transition
import Mathlib.Data.Set.Insert

/-!
# Linear use of resources

A resource is made, used by calls, and released. Values refer to it in between. Its use is
linear if it is released once, when no value refers to it any more, and not used after that.
-/
namespace EnclaveNetworkGateway

/-- What happens to resources of the type `ρ`, with calls of the kinds `κ`. -/
inductive ResourceEvent (κ ρ : Type*) where
  | make (x : ρ)
  | use (c : κ) (x : ρ)
  | release (x : ρ)
  deriving DecidableEq, Repr

namespace ResourceEvent

variable {κ ρ : Type*}

/-- The histories after which an event may occur. -/
def Allowed (pre : List (ResourceEvent κ ρ)) : ResourceEvent κ ρ → Prop
  | use _ x => release x ∉ pre
  | make _ | release _ => True

end ResourceEvent

variable {κ ρ : Type*} [DecidableEq κ] [DecidableEq ρ]

/-- The resources in `referred` are those that some value refers to. -/
structure LinearUse (referred : Set ρ) (tr : List (ResourceEvent κ ρ)) : Prop where
  released : ∀ x, .make x ∈ tr → x ∉ referred → tr.count (.release x) = 1
  kept : ∀ x ∈ referred, tr.count (.release x) = 0
  used : Guarded ResourceEvent.Allowed tr

namespace LinearUse

variable {referred : Set ρ} {tr : List (ResourceEvent κ ρ)} {x : ρ}

theorem nil : LinearUse ∅ ([] : List (ResourceEvent κ ρ)) where
  released := by simp
  kept := by simp
  used := guarded_nil

theorem make (h : LinearUse referred tr) (hx : .release x ∉ tr) :
    LinearUse (insert x referred) (tr ++ [.make x]) where
  released y hmake hy := by
    rw [Set.mem_insert_iff, not_or] at hy
    have hmake' : .make y ∈ tr := by simpa [hy.1] using hmake
    simpa using h.released y hmake' hy.2
  kept y hy := by
    rcases Set.mem_insert_iff.mp hy with rfl | hy
    · simp [List.count_eq_zero.mpr hx]
    · simpa using h.kept y hy
  used := guarded_concat.mpr ⟨h.used, trivial⟩

theorem use (h : LinearUse referred tr) (hx : x ∈ referred) (c : κ) :
    LinearUse referred (tr ++ [.use c x]) where
  released y hmake hy := by
    have hmake' : .make y ∈ tr := by simpa using hmake
    simpa using h.released y hmake' hy
  kept y hy := by simpa using h.kept y hy
  used := guarded_concat.mpr ⟨h.used, List.count_eq_zero.mp (h.kept x hx)⟩

theorem release (h : LinearUse referred tr) (hx : x ∈ referred) :
    LinearUse (referred \ {x}) (tr ++ [.release x]) where
  released y hmake hy := by
    have hmake' : .make y ∈ tr := by simpa using hmake
    by_cases hyx : y = x
    · subst hyx
      simp [h.kept y hx]
    · have hy' : y ∉ referred := fun hmem => hy ⟨hmem, hyx⟩
      simpa [Ne.symm hyx] using h.released y hmake' hy'
  kept y hy := by
    have hyx : x ≠ y := fun heq => hy.2 heq.symm
    simpa [hyx] using h.kept y hy.1
  used := guarded_concat.mpr ⟨h.used, trivial⟩

/-- A resource that a value still refers to must not be released. -/
theorem not_release (hx : x ∈ referred) : ¬ LinearUse referred (tr ++ [.release x]) := by
  intro h
  have hkept := h.kept x hx
  simp at hkept

/-- A resource that is neither referred to nor released is lost. -/
theorem not_of_lost (hmake : .make x ∈ tr) (hx : x ∉ referred) (hrelease : .release x ∉ tr) :
    ¬ LinearUse referred tr := by
  intro h
  have hreleased := h.released x hmake hx
  rw [List.count_eq_zero.mpr hrelease] at hreleased
  simp at hreleased

end LinearUse

end EnclaveNetworkGateway
