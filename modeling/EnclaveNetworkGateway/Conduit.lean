import Mathlib.Algebra.BigOperators.Group.List.Basic
import Mathlib.Algebra.Order.Monoid.Unbundled.Basic
import Mathlib.Data.List.Infix

/-!
# The monoid of conduits

A conduit describes what one stretch of a stream still holds and whether it
takes over what is written behind it. Joining two stretches, the one nearer to
the reader on the left, is the product of a monoid: a stretch that is cut off
absorbs everything behind it. The order says that one conduit is the other one
or a truncation of it, so an inequality whose left side is live is an equation.
-/
namespace EnclaveNetworkGateway

/-- The items held, oldest first, and whether the stretch is still connected at
its writing end. -/
@[ext] structure Conduit (α : Type*) where
  held : List α
  live : Bool
  deriving DecidableEq

namespace Conduit

variable {α : Type*}

/-- A connected stretch that holds `w`. -/
def flow (w : List α) : Conduit α := ⟨w, true⟩

/-- A stretch that holds `w` and takes nothing more. -/
def cut (w : List α) : Conduit α := ⟨w, false⟩

@[simp] theorem flow_held (w : List α) : (flow w).held = w := rfl
@[simp] theorem flow_live (w : List α) : (flow w).live = true := rfl
@[simp] theorem cut_held (w : List α) : (cut w).held = w := rfl
@[simp] theorem cut_live (w : List α) : (cut w).live = false := rfl

instance : Mul (Conduit α) where
  mul x y := ⟨x.held ++ if x.live then y.held else [], x.live && y.live⟩

instance : One (Conduit α) := ⟨flow []⟩

theorem eq_flow_held {x : Conduit α} (h : x.live = true) : x = flow x.held := Conduit.ext rfl h

theorem mul_def (x y : Conduit α) :
    x * y = ⟨x.held ++ if x.live then y.held else [], x.live && y.live⟩ := rfl

@[simp] theorem one_held : (1 : Conduit α).held = [] := rfl
@[simp] theorem one_live : (1 : Conduit α).live = true := rfl

@[simp] theorem mul_live (x y : Conduit α) : (x * y).live = (x.live && y.live) := rfl

theorem mul_held (x y : Conduit α) :
    (x * y).held = x.held ++ if x.live then y.held else [] := rfl

instance : Monoid (Conduit α) where
  mul_assoc x y z := by
    rcases x with ⟨u, a⟩
    rcases y with ⟨v, b⟩
    rcases z with ⟨w, c⟩
    cases a <;> cases b <;> simp [mul_def]
  one_mul x := by
    rcases x with ⟨u, a⟩
    simp [mul_def]
  mul_one x := by
    rcases x with ⟨u, a⟩
    cases a <;> simp [mul_def]

@[simp] theorem flow_nil : flow ([] : List α) = 1 := rfl

@[simp] theorem flow_mul_flow (v w : List α) : flow v * flow w = flow (v ++ w) := rfl

@[simp] theorem flow_mul_cut (v w : List α) : flow v * cut w = cut (v ++ w) := rfl

/-- A cut stretch absorbs whatever lies behind it. -/
theorem mul_of_not_live {x : Conduit α} (hx : x.live = false) (y : Conduit α) : x * y = x := by
  rcases x with ⟨u, a⟩
  subst hx
  simp [mul_def]

@[simp] theorem cut_mul (w : List α) (y : Conduit α) : cut w * y = cut w :=
  mul_of_not_live rfl y

theorem flow_append (v w : List α) : flow (v ++ w) = flow v * flow w := rfl

/-- `x ≤ y`: the stretch `x` is `y` itself or `y` cut off after a prefix. -/
instance : PartialOrder (Conduit α) where
  le x y := x = y ∨ x.live = false ∧ x.held <+: y.held
  le_refl x := .inl rfl
  le_trans x y z := by
    rintro (rfl | ⟨hx, hxy⟩) (rfl | ⟨hy, hyz⟩)
    · exact .inl rfl
    · exact .inr ⟨hy, hyz⟩
    · exact .inr ⟨hx, hxy⟩
    · exact .inr ⟨hx, hxy.trans hyz⟩
  le_antisymm x y := by
    rintro (rfl | ⟨hx, hxy⟩) (h | ⟨hy, hyx⟩)
    · rfl
    · rfl
    · exact h.symm
    · exact Conduit.ext (hxy.eq_of_length (le_antisymm hxy.length_le hyx.length_le))
        (hx.trans hy.symm)

/-- Nothing is lost in front of a live reading: the smaller conduit is the larger one. -/
theorem eq_of_le_of_live {x y : Conduit α} (h : x ≤ y) (hx : x.live = true) : x = y := by
  rcases h with rfl | ⟨hx', _⟩
  · rfl
  · simp [hx] at hx'

theorem held_prefix_of_le {x y : Conduit α} (h : x ≤ y) : x.held <+: y.held := by
  rcases h with rfl | ⟨_, hp⟩
  · exact List.prefix_rfl
  · exact hp

theorem cut_le {v : List α} {y : Conduit α} (h : v <+: y.held) : cut v ≤ y := .inr ⟨rfl, h⟩

@[simp] theorem cut_nil_le (y : Conduit α) : cut [] ≤ y := cut_le (List.nil_prefix)

theorem cut_le_flow (w : List α) : cut w ≤ flow w := cut_le List.prefix_rfl

theorem held_prefix_mul (x y : Conduit α) : x.held <+: (x * y).held := List.prefix_append _ _

/-- Cutting the last stretch of a stream cuts the stream. -/
theorem mul_cut_held (x y : Conduit α) : x * cut y.held = cut (x * y).held := by
  rcases x with ⟨u, a⟩
  cases a <;> simp [mul_def, cut]

theorem eq_cut_held {x : Conduit α} (h : x.live = false) : x = cut x.held := Conduit.ext rfl h

instance : MulLeftMono (Conduit α) where
  elim z x y h := by
    rcases h with rfl | ⟨hx, hp⟩
    · exact le_rfl
    · rcases z with ⟨w, b⟩
      cases b
      · exact .inl (by simp [mul_def])
      · exact .inr ⟨by simp [hx], by simpa [mul_held] using hp⟩

instance : MulRightMono (Conduit α) where
  elim z x y h := by
    rcases h with rfl | ⟨hx, hp⟩
    · exact le_rfl
    · refine .inr ⟨by simp [Function.swap, hx], ?_⟩
      have hxz : x * z = x := mul_of_not_live hx z
      simpa only [Function.swap, hxz] using hp.trans (held_prefix_mul y z)

/-- A chunk that one stretch takes over from the one behind it may cross the
boundary between them. -/
theorem handover {x x' y y' c : Conduit α} (hx : x' ≤ x * c) (hy : c * y' ≤ y) :
    x' * y' ≤ x * y :=
  calc x' * y' ≤ x * c * y' := mul_le_mul_left hx y'
    _ = x * (c * y') := mul_assoc x c y'
    _ ≤ x * y := mul_le_mul_right hy x

end Conduit

end EnclaveNetworkGateway
