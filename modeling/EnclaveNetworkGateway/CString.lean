import Mathlib.Data.List.TakeWhile
import Mathlib.Tactic.SplitIfs

/-!
# Strings in C memory

A NUL-terminated string read from a block of memory, and fixed-size arrays that names are
copied into.
-/
namespace EnclaveNetworkGateway

/-- The bytes from `off` up to the first NUL of the memory. -/
def cString (mem : List UInt8) (off : ℕ) : Option (List UInt8) :=
  if 0 ∈ mem.drop off then some ((mem.drop off).takeWhile (· ≠ 0)) else none

theorem notMem_of_cString {mem s : List UInt8} {off : ℕ} (h : cString mem off = some s) :
    0 ∉ s := by
  rw [cString] at h
  split_ifs at h
  obtain rfl := Option.some.inj h
  intro h0
  simpa using List.mem_takeWhile_imp h0

/-- A name that lies at `off`, followed by `rest`, is read back exactly if it has no NUL and
`rest` starts with one. -/
theorem cString_eq_iff {mem name rest : List UInt8} {off : ℕ} (hmem : mem.drop off = name ++ rest)
    (hrest : 0 ∈ rest) : cString mem off = some name ↔ 0 ∉ name ∧ rest.head? = some 0 := by
  rw [cString, hmem, if_pos (List.mem_append_right _ hrest), Option.some.injEq]
  constructor
  · intro h
    have hname : ∀ b ∈ name, b ≠ 0 := by
      intro b hb
      rw [← h] at hb
      simpa using List.mem_takeWhile_imp hb
    refine ⟨fun h0 => hname 0 h0 rfl, ?_⟩
    rw [List.takeWhile_append_of_pos (by simpa using hname), List.append_right_eq_self] at h
    cases rest with
    | nil => simp at hrest
    | cons b rest =>
      by_contra hb
      have hb' : b ≠ 0 := by simpa using hb
      simp [hb'] at h
  · rintro ⟨h0, hhead⟩
    have hname : ∀ b ∈ name, b ≠ 0 := fun b hb heq => h0 (heq ▸ hb)
    rw [List.takeWhile_append_of_pos (by simpa using hname)]
    cases rest with
    | nil => simp at hrest
    | cons b rest =>
      obtain rfl : b = 0 := by simpa using hhead
      simp

/-- `[c_uchar; n]`. -/
structure CharArray (n : ℕ) where
  bytes : List UInt8
  length_eq : bytes.length = n
  deriving DecidableEq

namespace CharArray

variable {n : ℕ}

def zeroed (n : ℕ) : CharArray n := ⟨List.replicate n 0, by simp⟩

/-- `array[..name.len()].copy_from_slice(name)`, which panics if the name is too long. -/
def copyFrom (a : CharArray n) (name : List UInt8) : Option (CharArray n) :=
  if h : name.length ≤ n then
    some ⟨name ++ a.bytes.drop name.length, by simp [a.length_eq]; omega⟩
  else none

theorem copyFrom_zeroed {a : CharArray n} {name : List UInt8} :
    (zeroed n).copyFrom name = some a ↔
      name.length ≤ n ∧ a.bytes = name ++ List.replicate (n - name.length) 0 := by
  rw [copyFrom]
  split_ifs with h
  · rcases a with ⟨bytes, hlen⟩
    simp [zeroed, h, eq_comm]
  · simp [h]

end CharArray

end EnclaveNetworkGateway
