import EnclaveNetworkGateway.Ownership
import EnclaveNetworkGateway.RatsTlsConf
import EnclaveNetworkGateway.SessionProtocol
import EnclaveNetworkGateway.Transition
import Mathlib.Tactic.SplitIfs

/-!
# The handles behind `RatsTls` values

A `RatsTls` is a pointer to a handle of the library. `Clone` is derived and copies the
pointer, and `Drop` calls `rats_tls_cleanup`.
-/
namespace EnclaveNetworkGateway

namespace RatsTls

/-- The functions that use a handle. -/
inductive HandleCall where
  | setVerificationCallback
  | session (c : FfiCall)
  deriving DecidableEq, Repr

/-- The values that are alive, each with its handle, the number of handles that
`rats_tls_init` has produced, and what has happened to them. -/
structure Handles where
  values : List ℕ
  produced : ℕ
  trace : List (ResourceEvent HandleCall ℕ)
  deriving DecidableEq, Repr

/-- The safe operations; a value is named by its place among the live ones. -/
inductive ValueOp where
  | new (server : Bool) (enclaveId : UInt64) (names : TypeNames) (isMutual : Bool)
      (initErr callbackErr : UInt32)
  | clone (i : ℕ)
  | call (c : FfiCall) (i : ℕ)
  | drop (i : ℕ)
  deriving DecidableEq, Repr

namespace Handles

def empty : Handles := ⟨[], 0, []⟩

/-- `RatsTls::new`. Only its success makes a value of the handle. -/
def new (s : Handles) (server : Bool) (enclaveId : UInt64) (names : TypeNames) (isMutual : Bool)
    (initErr callbackErr : UInt32) : Handles :=
  match RatsTls.new server enclaveId names isMutual initErr callbackErr with
  -- the panic comes before the first call of the library
  | none => s
  | some (_, result) =>
    if initErr ≠ errNone then s
    else
      { values := match result with
          | .ok () => s.values ++ [s.produced]
          | .error _ => s.values
        produced := s.produced + 1
        trace := s.trace ++ [.make s.produced] ++ [.use .setVerificationCallback s.produced] }

def step (s : Handles) : ValueOp → Option Handles
  | .new server enclaveId names isMutual initErr callbackErr =>
    some (s.new server enclaveId names isMutual initErr callbackErr)
  | .clone i => s.values[i]?.map fun h => { s with values := s.values ++ [h] }
  | .call c i => s.values[i]?.map fun h => { s with trace := s.trace ++ [.use (.session c) h] }
  | .drop i => s.values[i]?.map fun h => { s with
      values := s.values.eraseIdx i
      trace := s.trace ++ [.release h] }

/-- The handles are owned linearly. -/
def Linear (s : Handles) : Prop := LinearUse {h | h ∈ s.values} s.trace

/-- An operation that does not clean up a handle which another value refers to, and does not
lose one. -/
def Careful (s : Handles) : ValueOp → Prop
  | .new server enclaveId names isMutual initErr callbackErr =>
    (conf server enclaveId names isMutual).isSome = true → initErr = errNone →
      callbackErr = errNone
  | .drop i => ∀ h, s.values[i]? = some h → s.values.count h = 1
  | .clone _ | .call _ _ => True

/-- The next handle is a new one. -/
structure Fresh (s : Handles) : Prop where
  values : ∀ h ∈ s.values, h < s.produced
  released : ∀ h, .release h ∈ s.trace → h < s.produced

section Step

variable {s t : Handles} {op : ValueOp} {h i : ℕ}

/-- The ways a call of `new` can go. -/
theorem new_cases (s : Handles) (server : Bool) (enclaveId : UInt64) (names : TypeNames)
    (isMutual : Bool) (initErr callbackErr : UInt32) :
    ((conf server enclaveId names isMutual = none ∨ initErr ≠ errNone) ∧
      s.new server enclaveId names isMutual initErr callbackErr = s) ∨
    ((conf server enclaveId names isMutual).isSome = true ∧ initErr = errNone ∧
      s.new server enclaveId names isMutual initErr callbackErr =
        { values := if callbackErr = errNone then s.values ++ [s.produced] else s.values
          produced := s.produced + 1
          trace := s.trace ++ [.make s.produced] ++
            [.use .setVerificationCallback s.produced] }) := by
  cases hconf : conf server enclaveId names isMutual with
  | none => exact .inl ⟨.inl rfl, by simp [new, RatsTls.new, hconf]⟩
  | some c =>
    by_cases hinit : initErr = errNone
    · refine .inr ⟨rfl, hinit, ?_⟩
      by_cases hcallback : callbackErr = errNone <;>
        simp [new, RatsTls.new, hconf, hinit, hcallback]
    · exact .inl ⟨.inr hinit, by simp [new, RatsTls.new, hconf, hinit]⟩

theorem fresh_step (hs : s.Fresh) (hstep : s.step op = some t) : t.Fresh := by
  cases op with
  | new server enclaveId names isMutual initErr callbackErr =>
    obtain rfl := Option.some.inj hstep
    obtain ⟨_, heq⟩ | ⟨_, _, heq⟩ :=
      new_cases s server enclaveId names isMutual initErr callbackErr
    · rw [heq]
      exact hs
    · rw [heq]
      constructor
      · intro h hmem
        split_ifs at hmem
        · rcases List.mem_append.mp hmem with hmem | hmem
          · exact Nat.lt_succ_of_lt (hs.values h hmem)
          · simp [List.mem_singleton.mp hmem]
        · exact Nat.lt_succ_of_lt (hs.values h hmem)
      · intro h hmem
        exact Nat.lt_succ_of_lt (hs.released h (by simpa using hmem))
  | clone i =>
    obtain ⟨h, hi, rfl⟩ := Option.map_eq_some_iff.mp hstep
    refine ⟨fun k hk => ?_, hs.released⟩
    rcases List.mem_append.mp hk with hk | hk
    · exact hs.values k hk
    · rw [List.mem_singleton.mp hk]
      exact hs.values h (List.mem_of_getElem? hi)
  | call c i =>
    obtain ⟨h, hi, rfl⟩ := Option.map_eq_some_iff.mp hstep
    exact ⟨hs.values, fun k hk => hs.released k (by simpa using hk)⟩
  | drop i =>
    obtain ⟨h, hi, rfl⟩ := Option.map_eq_some_iff.mp hstep
    refine ⟨fun k hk => hs.values k (List.mem_of_mem_eraseIdx hk), fun k hk => ?_⟩
    rcases List.mem_append.mp hk with hk | hk
    · exact hs.released k hk
    · obtain rfl : k = h := by simpa using hk
      exact hs.values k (List.mem_of_getElem? hi)

theorem count_values (hi : s.values[i]? = some h) (k : ℕ) :
    s.values.count k = (s.values.eraseIdx i).count k + if h = k then 1 else 0 := by
  obtain ⟨hlt, rfl⟩ := List.getElem?_eq_some_iff.mp hi
  rw [← (List.getElem_cons_eraseIdx_perm hlt).count_eq k, List.count_cons]
  simp

/-- Dropping the only value of a handle leaves the values of the others. -/
theorem values_eraseIdx (hi : s.values[i]? = some h) (hone : s.values.count h = 1) :
    {k | k ∈ s.values.eraseIdx i} = {k | k ∈ s.values} \ {h} := by
  ext k
  have hcount := count_values hi k
  by_cases hk : h = k
  · subst hk
    have hgone : h ∉ s.values.eraseIdx i := by
      rw [← List.count_eq_zero]
      simp only [if_true] at hcount
      omega
    simp [hgone]
  · have hsame : k ∈ s.values.eraseIdx i ↔ k ∈ s.values := by
      rw [if_neg hk, Nat.add_zero] at hcount
      rw [← List.count_pos_iff, ← List.count_pos_iff, hcount]
    simp [hsame, Ne.symm hk]

theorem linear_step (hfresh : s.Fresh) (hs : s.Linear) (hop : s.Careful op)
    (hstep : s.step op = some t) : t.Linear := by
  cases op with
  | new server enclaveId names isMutual initErr callbackErr =>
    obtain rfl := Option.some.inj hstep
    obtain ⟨_, heq⟩ | ⟨hconf, hinit, heq⟩ :=
      new_cases s server enclaveId names isMutual initErr callbackErr
    · rw [heq]
      exact hs
    · rw [heq, if_pos (hop hconf hinit)]
      have hnew : .release s.produced ∉ s.trace :=
        fun hmem => Nat.lt_irrefl _ (hfresh.released _ hmem)
      have hset : {h | h ∈ s.values ++ [s.produced]} = insert s.produced {h | h ∈ s.values} := by
        ext h
        simp [or_comm]
      rw [Linear, hset]
      exact (hs.make hnew).use (Set.mem_insert _ _) _
  | clone i =>
    obtain ⟨h, hi, rfl⟩ := Option.map_eq_some_iff.mp hstep
    have hset : {k | k ∈ s.values ++ [h]} = {k | k ∈ s.values} := by
      have hmem := List.mem_of_getElem? hi
      ext k
      constructor
      · rintro hk
        rcases List.mem_append.mp hk with hk | hk
        · exact hk
        · exact List.mem_singleton.mp hk ▸ hmem
      · exact List.mem_append_left _
    rw [Linear, hset]
    exact hs
  | call c i =>
    obtain ⟨h, hi, rfl⟩ := Option.map_eq_some_iff.mp hstep
    exact hs.use (List.mem_of_getElem? hi) _
  | drop i =>
    obtain ⟨h, hi, rfl⟩ := Option.map_eq_some_iff.mp hstep
    rw [Linear, values_eraseIdx hi (hop h hi)]
    exact hs.release (List.mem_of_getElem? hi)

/-- A careless operation breaks the ownership. -/
theorem not_linear_step (hfresh : s.Fresh) (hop : ¬ s.Careful op) :
    ∃ t, s.step op = some t ∧ ¬ t.Linear := by
  cases op with
  | new server enclaveId names isMutual initErr callbackErr =>
    simp only [Careful, not_forall] at hop
    obtain ⟨hconf, hinit, hcallback⟩ := hop
    obtain ⟨hno, _⟩ | ⟨_, _, heq⟩ :=
      new_cases s server enclaveId names isMutual initErr callbackErr
    · rcases hno with hno | hno
      · simp [hno] at hconf
      · exact absurd hinit hno
    · refine ⟨_, rfl, ?_⟩
      rw [heq, if_neg hcallback]
      refine LinearUse.not_of_lost (x := s.produced) (by simp) ?_ ?_
      · exact fun hmem => Nat.lt_irrefl _ (hfresh.values _ hmem)
      · intro hmem
        exact Nat.lt_irrefl _ (hfresh.released _ (by simpa using hmem))
  | clone i | call c i => exact absurd trivial hop
  | drop i =>
    simp only [Careful, not_forall] at hop
    obtain ⟨h, hi, hcount⟩ := hop
    refine ⟨_, Option.map_eq_some_iff.mpr ⟨h, hi, rfl⟩, ?_⟩
    have hmem := List.count_pos_iff.mpr (List.mem_of_getElem? hi)
    have hrest := count_values hi h
    rw [if_pos rfl] at hrest
    apply LinearUse.not_release
    show h ∈ s.values.eraseIdx i
    rw [← List.count_pos_iff]
    omega

end Step

theorem empty_fresh : empty.Fresh := ⟨by simp [empty], by simp [empty]⟩

theorem empty_linear : empty.Linear := by
  simpa [Linear, empty] using LinearUse.nil

/-- The handles are owned linearly all along a run exactly if each operation is careful. -/
theorem linear_iff (as : List ValueOp) :
    Run.Always step empty as Linear ↔ Run.EachStep step empty as Careful :=
  Run.always_iff_eachStep (J := Fresh) (fun _ _ _ => fresh_step)
    (fun _ _ _ => linear_step) (fun _ _ hfresh _ => not_linear_step hfresh)
    empty_fresh empty_linear as


/-- A value is cloned, and both are dropped with a call in between. -/
def clonedRun : List ValueOp :=
  [.new false 0 ⟨none, none, none, none⟩ false errNone errNone, .clone 0, .drop 1,
    .call .transmit 0, .drop 0]

/-- The library refuses the verification callback. -/
def refusedRun : List ValueOp := [.new false 0 ⟨none, none, none, none⟩ false errNone 1]

/-- The handle is cleaned up twice in the first run and not at all in the second one. -/
theorem careless_not_linear :
    (∃ s, run step empty clonedRun = some s ∧ s.trace.count (.release 0) = 2 ∧ ¬ s.Linear) ∧
    (∃ s, run step empty refusedRun = some s ∧ s.trace.count (.release 0) = 0 ∧ ¬ s.Linear) := by
  have hlost : ∀ s : Handles, .make 0 ∈ s.trace ∧ s.values = [] ∧ s.trace.count (.release 0) ≠ 1 →
      ¬ s.Linear := by
    rintro s ⟨hmake, hvalues, hcount⟩ hs
    exact hcount (hs.released 0 hmake (by simp [hvalues]))
  constructor
  · obtain ⟨s, hrun, hs, htwo⟩ := Run.exists_of_any step empty clonedRun
      (fun s => (.make 0 ∈ s.trace ∧ s.values = [] ∧ s.trace.count (.release 0) ≠ 1) ∧
        s.trace.count (.release 0) = 2) (by decide)
    exact ⟨s, hrun, htwo, hlost s hs⟩
  · obtain ⟨s, hrun, hs, hzero⟩ := Run.exists_of_any step empty refusedRun
      (fun s => (.make 0 ∈ s.trace ∧ s.values = [] ∧ s.trace.count (.release 0) ≠ 1) ∧
        s.trace.count (.release 0) = 0) (by decide)
    exact ⟨s, hrun, hzero, hlost s hs⟩

end Handles

end RatsTls

/-! ## The handle of a session

`negotiate_async` does not clone its value but shares it through an `Arc`. -/

/-- What an event of a session is to its handle. -/
def SessionEvent.toHandle : SessionEvent → Option (ResourceEvent RatsTls.HandleCall Unit)
  | call c => some (.use (.session c) ())
  | cleanup => some (.release ())
  | ret _ _ | cleanupRet | socketClosed => none

namespace SessionArc

variable {a b : SessionArc}

/-- The owners of the `Arc` refer to its one handle. -/
def Linear (a : SessionArc) : Prop :=
  LinearUse {_x : Unit | 0 < a.strong} (.make () :: a.trace.filterMap SessionEvent.toHandle)

theorem Linear.congr (h : a.Linear) (hstrong : 0 < b.strong ↔ 0 < a.strong)
    (htrace : b.trace.filterMap SessionEvent.toHandle = a.trace.filterMap SessionEvent.toHandle) :
    b.Linear := by
  have hset : {_x : Unit | 0 < b.strong} = {_x : Unit | 0 < a.strong} := Set.ext fun _ => hstrong
  rw [Linear, htrace, hset]
  exact h

theorem Linear.call (h : a.Linear) (hpos : 0 < a.strong) (c : FfiCall) :
    (a.emit (.call c)).Linear := by
  have huse := LinearUse.use (x := ()) h hpos (.session c)
  simpa [Linear, SessionEvent.toHandle] using huse

/-- Only the last owner cleans the handle up. -/
theorem Linear.release (h : a.Linear) (hpos : 0 < a.strong) : a.release.Linear := by
  by_cases hone : a.strong = 1
  · have hrelease := LinearUse.release (x := ()) h hpos
    have hnone : {_x : Unit | 0 < a.strong} \ {()} = {_x : Unit | 0 < a.release.strong} := by
      ext
      simp [SessionArc.release, hone]
    rw [hnone] at hrelease
    simpa [Linear, release_trace, hone, SessionEvent.toHandle] using hrelease
  · exact h.congr (by simp [SessionArc.release, hone]; omega) (by simp [release_trace, hone])

end SessionArc

namespace Session

variable {s s' : Session}

theorem linear_effect (hs : s.Accounted) (hlinear : s.arc.Linear) (h : Effect s s') :
    s'.arc.Linear := by
  have hstrong := hs.strong
  cases h with
  | idle ha => rwa [ha]
  | share ha hh hpos =>
    rw [ha]
    exact hlinear.congr (by simp [SessionArc.clone]; omega) rfl
  | call c ha hh hc hpos =>
    rw [ha]
    exact hlinear.call (by omega) c
  | ret c ok ha =>
    rw [ha]
    exact hlinear.congr Iff.rfl (by simp [SessionEvent.toHandle])
  | release ha hh =>
    rw [ha]
    exact hlinear.release (by omega)
  | abandon ha hh hc hnew hone =>
    rw [ha]
    have hclosed : s.arc.closeSocket.Linear :=
      hlinear.congr Iff.rfl (by simp [SessionEvent.toHandle])
    exact hclosed.release (by rw [SessionArc.closeSocket_strong]; omega)
  | cleanupRet ha | close ha =>
    rw [ha]
    exact hlinear.congr Iff.rfl (by simp [SessionEvent.toHandle])

theorem new_linear : new.arc.Linear := by
  have hset : insert () (∅ : Set Unit) = {_x : Unit | 0 < new.arc.strong} := by
    ext
    simp [new, SessionArc.new]
  rw [SessionArc.Linear, ← hset]
  exact LinearUse.nil.make (by simp)

/-- However the owners are interleaved, the handle of a session is owned linearly. -/
theorem linear_of_run {as : List SessionAct} {s : Session} (hrun : run step new as = some s) :
    s.arc.Linear := by
  have hall : (s.Coherent ∧ s.Accounted) ∧ s.arc.Linear :=
    Run.invariant (I := fun s => (s.Coherent ∧ s.Accounted) ∧ s.arc.Linear)
      (fun _ _ _ hs hstep =>
        have heffect := effect_of_step hs.1.1 hstep
        ⟨⟨coherent_step hs.1.1 hstep, accounted_effect hs.1.2 heffect⟩,
          linear_effect hs.1.2 hs.2 heffect⟩)
      ⟨⟨new_coherent, new_accounted⟩, new_linear⟩ hrun
  exact hall.2

end Session

end EnclaveNetworkGateway
