import Mathlib.Data.List.Infix

/-!
# Prefix codes

An encoder is a prefix code on a set of words when no code word is empty or a
proper prefix of another one. A concatenation of code words can then be cut into
words in one way only, also where it is followed by the start of further words.
-/
namespace EnclaveNetworkGateway

variable {α β : Type*}

/-- Two streams that begin with code words of `ok` words and agree begin with
the same word. -/
structure PrefixCode (enc : α → List β) (ok : α → Prop) : Prop where
  ne_nil : ∀ a, enc a ≠ []
  head_eq : ∀ {a b x y}, ok a → ok b → enc a ++ x = enc b ++ y → a = b

namespace PrefixCode

variable {enc : α → List β} {ok : α → Prop}

/-- Code words read off the front of a stream of code words are the first words
of that stream, and what follows them are the remaining words. -/
theorem split (hc : PrefixCode enc ok) {ps cs : List α} {x : List β}
    (hp : ∀ p ∈ ps, ok p) (hs : ∀ c ∈ cs, ok c) (h : ps.flatMap enc ++ x = cs.flatMap enc) :
    ∃ qs, cs = ps ++ qs ∧ x = qs.flatMap enc := by
  induction ps generalizing cs with
  | nil => exact ⟨cs, rfl, by simpa using h⟩
  | cons p ps ih =>
    cases cs with
    | nil => simp [hc.ne_nil] at h
    | cons c cs =>
      simp only [List.flatMap_cons, List.append_assoc] at h
      obtain rfl := hc.head_eq (hp p (by simp)) (hs c (by simp)) h
      obtain ⟨qs, rfl, hx⟩ := ih (fun q hq => hp q (by simp [hq])) (fun q hq => hs q (by simp [hq]))
        (List.append_cancel_left h)
      exact ⟨qs, rfl, hx⟩

/-- A prefix of the encoded stream that consists of whole words encodes a prefix
of the words. -/
theorem prefix_of_flatMap (hc : PrefixCode enc ok) {ps cs : List α}
    (hp : ∀ p ∈ ps, ok p) (hs : ∀ c ∈ cs, ok c) (h : ps.flatMap enc <+: cs.flatMap enc) :
    ps <+: cs := by
  obtain ⟨x, hx⟩ := h
  obtain ⟨qs, rfl, _⟩ := hc.split hp hs hx
  exact List.prefix_append ps qs

end PrefixCode

/-! ## The words at the front of a stream -/

/-- No code word of an `ok` word stands at the front. -/
def Wordless (enc : α → List β) (ok : α → Prop) (x : List β) : Prop := ∀ a, ok a → ¬ enc a <+: x

/-- `ps` are all the words that stand one behind the other at the front of `x`. -/
structure LongestWords (enc : α → List β) (ok : α → Prop) (x : List β) (ps : List α) : Prop where
  ok_of_mem : ∀ p ∈ ps, ok p
  isPrefix : ps.flatMap enc <+: x
  longest : ∀ qs, (∀ q ∈ qs, ok q) → qs.flatMap enc <+: x → qs <+: ps

namespace LongestWords

variable {enc : α → List β} {ok : α → Prop} {x : List β} {ps qs : List α}

/-- The stream alone determines its words. -/
theorem unique (hp : LongestWords enc ok x ps) (hq : LongestWords enc ok x qs) : ps = qs := by
  have hpq := hq.longest ps hp.ok_of_mem hp.isPrefix
  have hqp := hp.longest qs hq.ok_of_mem hq.isPrefix
  exact hpq.eq_of_length (le_antisymm hpq.length_le hqp.length_le)

theorem of_wordless (hc : PrefixCode enc ok) (hp : ∀ p ∈ ps, ok p) (hx : Wordless enc ok x) :
    LongestWords enc ok (ps.flatMap enc ++ x) ps := by
  refine ⟨hp, List.prefix_append _ _, fun qs hq hqx => ?_⟩
  induction qs generalizing ps with
  | nil => exact List.nil_prefix
  | cons q qs ih =>
    obtain ⟨y, hy⟩ := hqx
    rw [List.flatMap_cons, List.append_assoc] at hy
    cases ps with
    | nil => exact absurd ⟨_, hy⟩ (hx q (hq q (by simp)))
    | cons p ps =>
      rw [List.flatMap_cons, List.append_assoc] at hy
      obtain rfl := hc.head_eq (hq q (by simp)) (hp p (by simp)) hy
      have htail := ih (fun p hmem => hp p (by simp [hmem])) (fun q hmem => hq q (by simp [hmem]))
        ⟨y, List.append_cancel_left hy⟩
      exact (List.prefix_cons_inj q).mpr htail

/-- Every stream is a sequence of code words and a rest without one at its front. -/
theorem exists_split (hc : PrefixCode enc ok) (x : List β) :
    ∃ (ps : List α) (y : List β), x = ps.flatMap enc ++ y ∧ (∀ p ∈ ps, ok p) ∧
      Wordless enc ok y := by
  by_cases hx : Wordless enc ok x
  · exact ⟨[], x, rfl, by simp, hx⟩
  · simp only [Wordless, not_forall, not_not] at hx
    obtain ⟨a, ha, y, hy⟩ := hx
    have hpos := List.length_pos_iff.mpr (hc.ne_nil a)
    have hlt : y.length < x.length := by
      rw [← hy, List.length_append]
      omega
    obtain ⟨ps, z, hz, hp, hw⟩ := exists_split hc y
    exact ⟨a :: ps, z, by rw [← hy, hz]; simp, by simpa using ⟨ha, hp⟩, hw⟩
termination_by x.length

theorem exists_of_prefixCode (hc : PrefixCode enc ok) (x : List β) :
    ∃ ps, LongestWords enc ok x ps := by
  obtain ⟨ps, y, rfl, hp, hy⟩ := exists_split hc x
  exact ⟨ps, of_wordless hc hp hy⟩

end LongestWords

end EnclaveNetworkGateway
