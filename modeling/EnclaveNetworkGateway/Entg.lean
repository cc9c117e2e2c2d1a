import EnclaveNetworkGateway.Link
import EnclaveNetworkGateway.Transition
import Mathlib.Data.List.Chain

/-!
# ENTG

After both streams are established, `main` runs two `tokio::io::copy` loops under
one `select!`: from the ENTA to the peer ENTG and back. The first one that ends
cancels the other one and lets `main` return, which drops both streams.
-/
namespace EnclaveNetworkGateway

/-- A poll that a copy loop makes on its source or on its destination, or the
`Ok` with which it ends. -/
inductive CopyOp where
  | source (op : StreamOp)
  | sink (op : StreamOp)
  | finish
  deriving DecidableEq, Repr

namespace CopyOp

/-- The bytes taken from the source. -/
def taken : CopyOp → Bytes
  | source op => op.taken
  | _ => []

/-- The bytes put into the destination. -/
def written : CopyOp → Bytes
  | sink op => op.written
  | _ => []

def fails : CopyOp → Bool
  | source .readErr | sink .writeErr => true
  | _ => false

/-- The loop keeps bytes behind a read, and behind a write that the destination has taken in part
only. -/
def leaves : CopyOp → Bool
  | source (.read _) => true
  | sink (.write offer n) => n < offer.length
  | _ => false

end CopyOp

/-- `tokio::io::copy`: the part of its buffer that is read and not written, whether
the source is at its end, and all that was read and written so far. -/
structure CopyLoop where
  buf : Bytes
  readDone : Bool
  read : Bytes
  written : Bytes
  deriving DecidableEq

namespace CopyLoop

def new : CopyLoop := ⟨[], false, [], []⟩

/-- The next state, with the result of the copy if it is ready: `true` for `Ok`. The
buffer is written out in full before the next read. -/
def step (c : CopyLoop) : CopyOp → Option (CopyLoop × Option Bool)
  | .source (.read bs) =>
    if c.buf = [] ∧ c.readDone = false ∧ bs ≠ [] then
      some ({ c with buf := bs, read := c.read ++ bs }, none)
    else none
  | .source .readEof =>
    if c.buf = [] ∧ c.readDone = false then some ({ c with readDone := true }, none) else none
  | .source .readErr => if c.buf = [] ∧ c.readDone = false then some (c, some false) else none
  | .sink (.write offer n) =>
    if c.buf ≠ [] ∧ offer = c.buf ∧ 0 < n ∧ n ≤ c.buf.length then
      some ({ c with buf := c.buf.drop n, written := c.written ++ c.buf.take n }, none)
    else none
  | .sink .writeErr => if c.buf ≠ [] then some (c, some false) else none
  | .finish => if c.buf = [] ∧ c.readDone then some (c, some true) else none
  | _ => none

def conduit (c : CopyLoop) : Conduit UInt8 := ⟨c.buf, !c.readDone⟩

/-- A copy loop passes bytes on in order and keeps count of them. -/
theorem step_spec {c c' : CopyLoop} {op : CopyOp} {r : Option Bool}
    (h : c.step op = some (c', r)) :
    .flow op.written * c'.conduit ≤ c.conduit * .flow op.taken ∧
      c'.read = c.read ++ op.taken ∧ c'.written = c.written ++ op.written ∧
      op.written ++ c'.buf = c.buf ++ op.taken := by
  cases op with
  | source op =>
    cases op with
    | read bs =>
      simp only [step] at h
      split_ifs at h with hc
      simp only [Option.some.injEq, Prod.mk.injEq] at h
      obtain ⟨rfl, rfl⟩ := h
      simp [conduit, CopyOp.written, CopyOp.taken, StreamOp.taken, hc.1, hc.2.1, Conduit.mul_def]
    | readEof =>
      simp only [step] at h
      split_ifs at h with hc
      simp only [Option.some.injEq, Prod.mk.injEq] at h
      obtain ⟨rfl, rfl⟩ := h
      have hle : conduit { c with readDone := true } ≤ c.conduit :=
        Conduit.cut_le List.prefix_rfl
      simpa [CopyOp.written, CopyOp.taken, StreamOp.taken] using hle
    | readErr =>
      simp only [step] at h
      split_ifs at h with hc
      simp only [Option.some.injEq, Prod.mk.injEq] at h
      obtain ⟨rfl, rfl⟩ := h
      simp [CopyOp.written, CopyOp.taken, StreamOp.taken]
    | write offer n => simp [step] at h
    | writeErr => simp [step] at h
  | sink op =>
    cases op with
    | write offer n =>
      simp only [step] at h
      split_ifs at h with hc
      simp only [Option.some.injEq, Prod.mk.injEq] at h
      obtain ⟨rfl, rfl⟩ := h
      simp [conduit, CopyOp.written, CopyOp.taken, StreamOp.written, hc.2.1, Conduit.mul_def]
    | writeErr =>
      simp only [step] at h
      split_ifs at h with hc
      simp only [Option.some.injEq, Prod.mk.injEq] at h
      obtain ⟨rfl, rfl⟩ := h
      simp [CopyOp.written, CopyOp.taken, StreamOp.written]
    | read bs => simp [step] at h
    | readEof => simp [step] at h
    | readErr => simp [step] at h
  | finish =>
    simp only [step] at h
    split_ifs at h with hc
    simp only [Option.some.injEq, Prod.mk.injEq] at h
    obtain ⟨rfl, rfl⟩ := h
    simp [CopyOp.written, CopyOp.taken]

/-- A copy loop only reads its source and only writes its destination. -/
theorem step_poll {c : CopyLoop} {op : StreamOp} :
    ((c.step (.source op)).isSome → op.written = []) ∧
      ((c.step (.sink op)).isSome → op.taken = []) := by
  cases op <;> simp [step, StreamOp.written, StreamOp.taken]

/-- Only a read of the end sets the flag for it. -/
theorem step_readDone {c c' : CopyLoop} {op : CopyOp} {r : Option Bool}
    (h : c.step op = some (c', r)) (hop : op ≠ .source .readEof) : c'.readDone = c.readDone := by
  unfold step at h
  split at h
  case h_2 => exact absurd rfl hop
  all_goals try split_ifs at h
  all_goals
    simp only [Option.some.injEq, Prod.mk.injEq, reduceCtorEq] at h
  all_goals rw [← h.1]

/-- A copy loop ends with an error of a read or of a write, or with its buffer empty. -/
theorem step_result {c c' : CopyLoop} {op : CopyOp} {b : Bool}
    (h : c.step op = some (c', some b)) :
    c' = c ∧ (op.fails = true ∨ op = .finish ∧ c.buf = []) := by
  cases op with
  | source op =>
    cases op <;> simp only [step] at h <;> try split_ifs at h
    all_goals simp_all [CopyOp.fails]
  | sink op =>
    cases op <;> simp only [step] at h <;> try split_ifs at h
    all_goals simp_all [CopyOp.fails]
  | finish =>
    simp only [step] at h
    split_ifs at h with hc
    simp only [Option.some.injEq, Prod.mk.injEq] at h
    exact ⟨h.1.symm, .inr ⟨rfl, hc.1⟩⟩

/-- What a loop still holds is decided by the poll that has moved bytes last. -/
theorem step_buf {c c' : CopyLoop} {op : CopyOp} (h : c.step op = some (c', none)) :
    c'.buf = [] ↔
      op.leaves = false ∧ (c.buf = [] ∨ ∃ offer n, op = .sink (.write offer n)) := by
  unfold step at h
  split at h
  case h_1 =>
    split_ifs at h with hc
    obtain ⟨rfl, -⟩ := Prod.mk.inj (Option.some.inj h)
    simp [CopyOp.leaves, hc.2.2]
  case h_2 =>
    split_ifs at h with hc
    obtain ⟨rfl, -⟩ := Prod.mk.inj (Option.some.inj h)
    simp [CopyOp.leaves, hc.1]
  case h_4 =>
    split_ifs at h with hc
    obtain ⟨rfl, -⟩ := Prod.mk.inj (Option.some.inj h)
    simp [CopyOp.leaves, hc.2.1]
  all_goals
    try split_ifs at h
    simp at h

end CopyLoop

/-- The forwarding part of `main`. The loops are indexed by the side their bytes come
from; `returned` holds the loop that ended first and its result. -/
structure Entg where
  loops : Pair CopyLoop
  returned : Option (Side × Bool)
  deriving DecidableEq

namespace Entg

def new : Entg := ⟨.both .new, none⟩

/-- A step of one of the two loops. -/
def step (g : Entg) (a : Side × CopyOp) : Option Entg :=
  match g.returned with
  | some _ => none
  | none => ((g.loops.get a.1).step a.2).map fun r =>
    ⟨g.loops.set a.1 r.1, r.2.map fun b => (a.1, b)⟩

/-- The bytes that loop `d` holds; nothing passes once `main` has returned. -/
def conduit (g : Entg) (d : Side) : Conduit UInt8 :=
  if g.returned = none then (g.loops.get d).conduit else .cut []

theorem step_eq_some {g g' : Entg} {d : Side} {op : CopyOp} :
    g.step (d, op) = some g' ↔ g.returned = none ∧ ∃ c r, (g.loops.get d).step op = some (c, r) ∧
      g' = ⟨g.loops.set d c, r.map fun b => (d, b)⟩ := by
  simp only [step]
  cases g.returned with
  | some x => simp
  | none => simp [eq_comm]

/-- The bytes written are the bytes read, behind those already in the loop. -/
theorem step_conduit {g g' : Entg} {d : Side} {op : CopyOp} (h : g.step (d, op) = some g') :
    .flow op.written * g'.conduit d ≤ g.conduit d * .flow op.taken ∧
      g'.conduit d.other ≤ g.conduit d.other := by
  obtain ⟨hret, c, r, hc, rfl⟩ := step_eq_some.mp h
  obtain ⟨hle, _, _, _⟩ := CopyLoop.step_spec hc
  cases r with
  | none => simpa [conduit, hret] using hle
  | some b =>
    obtain ⟨rfl, hend⟩ := CopyLoop.step_result hc
    have hop : op.written = [] ∧ op.taken = [] := by
      rcases hend with hf | ⟨rfl, _⟩
      · unfold CopyOp.fails at hf
        split at hf <;> simp_all [CopyOp.written, CopyOp.taken, StreamOp.written, StreamOp.taken]
      · exact ⟨rfl, rfl⟩
    simp [conduit, hop]

/-- What a loop has read is what it has written and what it still holds. -/
theorem read_eq {as : List (Side × CopyOp)} {g : Entg} (hrun : run step new as = some g)
    (d : Side) : (g.loops.get d).read = (g.loops.get d).written ++ (g.loops.get d).buf := by
  refine Run.invariant (I := fun g => ∀ d, (g.loops.get d).read =
    (g.loops.get d).written ++ (g.loops.get d).buf) ?_ (by simp [new, CopyLoop.new]) hrun d
  intro g a g' hg hstep e
  obtain ⟨s, op⟩ := a
  obtain ⟨_, c, r, hc, rfl⟩ := step_eq_some.mp hstep
  rcases Side.eq_or_eq_other e s with rfl | rfl
  · obtain ⟨_, hread, hwritten, hbuf⟩ := CopyLoop.step_spec hc
    rw [Pair.get_set, hread, hwritten, hg e, List.append_assoc, List.append_assoc, hbuf]
  · simpa using hg s.other

/-! ## What is lost at the end -/

/-- Behind each poll in which loop `e` keeps bytes, its destination takes some again. -/
def Served (e : Side) (as : List (Side × CopyOp)) : Prop :=
  ∀ as₁ op as₂, as = as₁ ++ (e, op) :: as₂ → op.leaves = true →
    ∃ offer n, (e, .sink (.write offer n)) ∈ as₂

theorem served_concat {e : Side} {as : List (Side × CopyOp)} {a : Side × CopyOp} :
    Served e (as ++ [a]) ↔ (∀ op, a = (e, op) → op.leaves = false) ∧
      (Served e as ∨ ∃ offer n, a = (e, .sink (.write offer n))) := by
  constructor
  · intro h
    refine ⟨fun op hop => ?_, ?_⟩
    · by_contra hleaves
      obtain ⟨offer, n, hmem⟩ := h as op [] (by rw [hop]) (by simpa using hleaves)
      simp at hmem
    · by_cases ha : ∃ offer n, a = (e, .sink (.write offer n))
      · exact .inr ha
      · refine .inl fun as₁ op as₂ has hop => ?_
        obtain ⟨offer, n, hmem⟩ := h as₁ op (as₂ ++ [a]) (by simp [has]) hop
        refine ⟨offer, n, (List.mem_append.mp hmem).resolve_right fun hlast => ?_⟩
        exact ha ⟨offer, n, (List.mem_singleton.mp hlast).symm⟩
  · rintro ⟨hlast, hserved⟩ as₁ op as₂ has hop
    rcases List.eq_nil_or_concat' as₂ with rfl | ⟨bs, b, rfl⟩
    · obtain ⟨-, ha⟩ := List.append_inj' has rfl
      simp [hlast op (List.singleton_inj.mp ha)] at hop
    · rw [← List.cons_append, ← List.append_assoc] at has
      obtain ⟨rfl, ha⟩ := List.append_inj' has rfl
      obtain rfl := List.singleton_inj.mp ha
      rcases hserved with hserved | ⟨offer, n, rfl⟩
      · obtain ⟨offer, n, hmem⟩ := hserved as₁ op bs rfl hop
        exact ⟨offer, n, List.mem_append_left _ hmem⟩
      · exact ⟨offer, n, by simp⟩

/-- As long as `main` has not returned, a loop has nothing left exactly if it was served. -/
theorem buf_eq_nil_iff {as : List (Side × CopyOp)} {g : Entg} (hrun : run step new as = some g)
    (hret : g.returned = none) (e : Side) : (g.loops.get e).buf = [] ↔ Served e as := by
  induction as using List.reverseRecOn generalizing g with
  | nil =>
    obtain rfl := Option.some.inj hrun
    simp [new, CopyLoop.new, Served]
  | append_singleton as a ih =>
    obtain ⟨d, op⟩ := a
    obtain ⟨g₀, hg₀, hstep⟩ := Run.run_concat.mp hrun
    obtain ⟨hnone, c, r, hc, rfl⟩ := step_eq_some.mp hstep
    obtain rfl : r = none := by simpa using hret
    rw [served_concat, ← ih hg₀ hnone]
    rcases Side.eq_or_eq_other e d with rfl | rfl
    · simpa using CopyLoop.step_buf hc
    · simp

/-- A loop knows of the end of its source by a read only. -/
theorem readEof_mem {as : List (Side × CopyOp)} {g : Entg} (hrun : run step new as = some g)
    {d : Side} (hdone : (g.loops.get d).readDone = true) : (d, .source .readEof) ∈ as := by
  induction as using List.reverseRecOn generalizing g with
  | nil =>
    obtain rfl := Option.some.inj hrun
    simp [new, CopyLoop.new] at hdone
  | append_singleton as a ih =>
    obtain ⟨e, op⟩ := a
    obtain ⟨g₀, hg₀, hstep⟩ := Run.run_concat.mp hrun
    obtain ⟨hnone, c, r, hc, rfl⟩ := step_eq_some.mp hstep
    by_cases hop : (e, op) = (d, .source .readEof)
    · simp [hop]
    · refine List.mem_append_left _ (ih hg₀ ?_)
      rcases Side.eq_or_eq_other d e with rfl | rfl
      · rw [← CopyLoop.step_readDone hc fun h => hop (by rw [h])]
        simpa using hdone
      · simpa using hdone

/-- A failure-free run of `main` that has returned ended with one loop at the end of its source
and behind all that it has read. -/
theorem finish_of_returned {as : List (Side × CopyOp)} {g' : Entg}
    (hrun : run step new as = some g') (hok : ∀ a ∈ as, a.2.fails = false)
    (hret : g'.returned ≠ none) :
    ∃ as₀ d g, as = as₀ ++ [(d, .finish)] ∧ run step new as₀ = some g ∧ g.returned = none ∧
      g'.loops = g.loops ∧ (g.loops.get d).buf = [] ∧ (g.loops.get d).readDone = true := by
  rcases List.eq_nil_or_concat' as with rfl | ⟨as₀, ⟨d, op⟩, rfl⟩
  · obtain rfl := Option.some.inj hrun
    simp [new] at hret
  obtain ⟨g, hg, hstep⟩ := Run.run_concat.mp hrun
  obtain ⟨hnone, c, r, hc, rfl⟩ := step_eq_some.mp hstep
  obtain ⟨b, rfl⟩ : ∃ b, r = some b := by
    cases r with
    | none => simp at hret
    | some b => exact ⟨b, rfl⟩
  obtain ⟨rfl, hend⟩ := CopyLoop.step_result hc
  have hopok : op.fails = false := hok (d, op) (by simp)
  obtain ⟨rfl, hempty⟩ := hend.resolve_left (by simp [hopok])
  have hdone : (g.loops.get d).readDone = true := by
    simp only [CopyLoop.step] at hc
    split_ifs at hc with hfinish
    exact hfinish.2
  exact ⟨as₀, d, g, rfl, hg, hnone, Pair.set_get _ _, hempty, hdone⟩

theorem written_iff {as : List (Side × CopyOp)} {g : Entg} (hrun : run step new as = some g)
    {d : Side} (hempty : (g.loops.get d).buf = []) :
    (∀ e, (g.loops.get e).written = (g.loops.get e).read) ↔ (g.loops.get d.other).buf = [] := by
  have hd := read_eq hrun d
  have ho := read_eq hrun d.other
  rw [hempty, List.append_nil] at hd
  rw [Side.forall_iff d]
  constructor
  · rintro ⟨_, hw⟩
    simpa [← hw] using ho
  · intro hb
    rw [hb, List.append_nil] at ho
    exact ⟨hd.symm, ho.symm⟩

/-- A failure-free run of `main` that has returned ended with one loop, which had read the end of
its source, and it has lost nothing exactly if the other loop was served until then. -/
theorem all_written_iff {as : List (Side × CopyOp)} {g : Entg}
    (hrun : run step new as = some g) (hok : ∀ a ∈ as, a.2.fails = false)
    (hret : g.returned ≠ none) :
    ∃ as₀ d, as = as₀ ++ [(d, .finish)] ∧ (d, .source .readEof) ∈ as₀ ∧
      ((∀ e, (g.loops.get e).written = (g.loops.get e).read) ↔ Served d.other as₀) := by
  obtain ⟨as₀, d, g₀, rfl, hg, hnone, hloops, hempty, hdone⟩ := finish_of_returned hrun hok hret
  refine ⟨as₀, d, rfl, readEof_mem hg hdone, ?_⟩
  rw [hloops, written_iff hg hempty, buf_eq_nil_iff hg hnone]

/-- The ENTA closes when the other loop has nothing left to write. -/
def drainedRun : List (Side × CopyOp) :=
  [(.right, .source (.read [1])), (.right, .sink (.write [1] 1)), (.left, .source .readEof),
    (.left, .finish)]

theorem drainedRun_all_written_iff : ∃ g, run step new drainedRun = some g ∧
    ∃ as₀ d, drainedRun = as₀ ++ [(d, .finish)] ∧ (d, .source .readEof) ∈ as₀ ∧
      ((∀ e, (g.loops.get e).written = (g.loops.get e).read) ↔ Served d.other as₀) := by
  obtain ⟨g, hg, hret⟩ := Run.exists_of_any step new drainedRun
    (fun g => g.returned ≠ none) (by decide)
  exact ⟨g, hg, all_written_iff hg (by decide) hret⟩

/-- A loop that keeps bytes goes on at once with a write, as it does while its destination takes
each chunk in the poll that reads it. -/
def Prompt (as : List (Side × CopyOp)) : Prop :=
  as.IsChain fun a b => a.2.leaves = true → ∃ offer n, b = (a.1, .sink (.write offer n))

theorem Prompt.served {as : List (Side × CopyOp)} {d : Side}
    (h : Prompt (as ++ [(d, .finish)])) (e : Side) : Served e as := by
  rintro as₁ op as₂ rfl hop
  rw [Prompt, List.append_assoc, List.cons_append] at h
  cases as₂ with
  | nil =>
    obtain ⟨offer, n, hnext⟩ := (List.isChain_append_cons_cons.mp h).2.1 hop
    simp at hnext
  | cons b bs =>
    obtain ⟨offer, n, rfl⟩ := (List.isChain_append_cons_cons.mp h).2.1 hop
    exact ⟨offer, n, List.mem_cons_self⟩

/-- Destinations that take each chunk in the poll that reads it lose nothing. -/
theorem written_of_prompt {as : List (Side × CopyOp)} {g : Entg}
    (hrun : run step new as = some g) (hok : ∀ a ∈ as, a.2.fails = false)
    (hret : g.returned ≠ none) (hprompt : Prompt as) (e : Side) :
    (g.loops.get e).written = (g.loops.get e).read := by
  obtain ⟨as₀, d, g₀, rfl, hg, hnone, hloops, hempty, -⟩ := finish_of_returned hrun hok hret
  rw [hloops]
  exact (written_iff hg hempty).mpr ((buf_eq_nil_iff hg hnone _).mpr (hprompt.served _)) e

/-- The ENTA closes while the loop towards it holds a byte of the peer ENTG. -/
def entaCloses : List (Side × CopyOp) :=
  [(.right, .source (.read [1])), (.left, .source .readEof), (.left, .finish)]

theorem entaCloses_loses : ¬ ∀ (as : List (Side × CopyOp)) (g : Entg),
    run step new as = some g → (∀ a ∈ as, a.2.fails = false) → g.returned ≠ none →
    ∀ e, (g.loops.get e).written = (g.loops.get e).read := by
  intro hall
  obtain ⟨g, hg, hret, hlost⟩ := Run.exists_of_any step new entaCloses (fun g =>
    g.returned ≠ none ∧ (g.loops.get .right).written ≠ (g.loops.get .right).read) (by decide)
  exact hlost (hall entaCloses g hg (by decide) hret .right)

end Entg

end EnclaveNetworkGateway
