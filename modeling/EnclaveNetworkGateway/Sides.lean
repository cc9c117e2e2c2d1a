import Mathlib.Tactic.TypeStar

/-!
# Two-ended objects

A link has two ends and a tunnel has two halves. `Pair` stores one value for each
side; a direction is named by the side it starts from.
-/
namespace EnclaveNetworkGateway

inductive Side where
  | left
  | right
  deriving DecidableEq, Repr

namespace Side

def other : Side → Side
  | left => right
  | right => left

@[simp] theorem other_other (s : Side) : s.other.other = s := by cases s <;> rfl

@[simp] theorem other_ne (s : Side) : s.other ≠ s := by cases s <;> simp [other]

@[simp] theorem ne_other (s : Side) : s ≠ s.other := by cases s <;> simp [other]

theorem eq_or_eq_other (s d : Side) : s = d ∨ s = d.other := by
  cases s <;> cases d <;> simp [other]

theorem forall_iff (d : Side) {P : Side → Prop} : (∀ s, P s) ↔ P d ∧ P d.other := by
  constructor
  · exact fun h => ⟨h d, h d.other⟩
  · rintro ⟨hd, ho⟩ s
    rcases eq_or_eq_other s d with rfl | rfl
    · exact hd
    · exact ho

instance {P : Side → Prop} [DecidablePred P] : Decidable (∀ s, P s) :=
  decidable_of_iff (P left ∧ P right) (forall_iff left).symm

end Side

/-- One value for each side. -/
structure Pair (α : Type*) where
  left : α
  right : α
  deriving DecidableEq, Repr

namespace Pair

variable {α : Type*}

def get (p : Pair α) : Side → α
  | .left => p.left
  | .right => p.right

def set (p : Pair α) (s : Side) (x : α) : Pair α :=
  match s with
  | .left => { p with left := x }
  | .right => { p with right := x }

/-- The same value on both sides. -/
def both (x : α) : Pair α := ⟨x, x⟩

@[simp] theorem get_both (x : α) (s : Side) : (both x).get s = x := by cases s <;> rfl

@[simp] theorem get_set (p : Pair α) (s : Side) (x : α) : (p.set s x).get s = x := by
  cases s <;> rfl

@[simp] theorem get_set_other (p : Pair α) (s : Side) (x : α) :
    (p.set s x).get s.other = p.get s.other := by cases s <;> rfl

@[simp] theorem get_other_set (p : Pair α) (s : Side) (x : α) :
    (p.set s.other x).get s = p.get s := by cases s <;> rfl

@[simp] theorem set_get (p : Pair α) (s : Side) : p.set s (p.get s) = p := by cases s <;> rfl

end Pair

end EnclaveNetworkGateway
