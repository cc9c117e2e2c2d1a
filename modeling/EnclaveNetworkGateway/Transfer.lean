import EnclaveNetworkGateway.BridgeInvariant
import EnclaveNetworkGateway.HalfClosePipe

/-!
# The bridge as two pipes

Seen from the two returned streams, a bridge behaves as a pair of pipes with
half-close, one in each direction. A direction breaks only when a rats-tls call
on it fails, other than a receive at the end of the stream.
-/
namespace EnclaveNetworkGateway

/-- A bridge with what its two applications have written and read so far. -/
structure Transfer where
  bridge : Bridge
  accepted : Pair Bytes
  read : Pair Bytes
  deriving DecidableEq

namespace Transfer

open Bridge

inductive Act where
  | writer (s : Side) (ev : WriterEvent)
  | reader (s : Side) (ev : ReaderEvent)
  | poll (s : Side) (op : StreamOp)
  | shutdown (s : Side)
  | drop (s : Side)
  deriving DecidableEq, Repr

def new (cap : ℕ) (h : 0 < cap) : Transfer := ⟨.new cap h, .both [], .both []⟩

def step (t : Transfer) : Act → Option Transfer
  | .writer s ev => (t.bridge.writerStep s ev).map fun b => { t with bridge := b }
  | .reader s ev => (t.bridge.readerStep s ev).map fun b => { t with bridge := b }
  | .poll s op => (t.bridge.appStep s op).map fun b =>
    { bridge := b
      accepted := t.accepted.set s (t.accepted.get s ++ op.written)
      read := t.read.set s (t.read.get s ++ op.taken) }
  | .shutdown s => some { t with bridge := t.bridge.shutdown s }
  | .drop s => some { t with bridge := t.bridge.drop s }

/-- What a step means for the two pipes. A failed call breaks the direction that
it works for. -/
def pipeOp : Act → Option (Side × PipeOp UInt8)
  | .writer s .transmitClosed | .writer s .transmitErr => some (s, .fail)
  | .reader s .receiveErr => some (s.other, .fail)
  | .poll s (.write offer n) => some (s, .write (offer.take n))
  | .poll s (.read bs) => some (s.other, .read bs)
  | .poll s .readEof => some (s.other, .eof)
  | .shutdown s | .drop s => some (s, .close)
  | _ => none

/-- Direction `d` of the transfer against its pipe: no byte is invented or moved,
and none is lost while the pipe is whole and its reader there. -/
structure Carries (t : Transfer) (d : Side) (q : HalfClosePipe UInt8) : Prop where
  written : q.written = t.accepted.get d
  read : q.read = t.read.get d.other
  closed : q.closed = true ↔ (t.bridge.ends.get d).app ≠ .live
  carried : .flow q.read * t.bridge.conduit d ≤ .flow q.written
  whole : q.broken = false → (t.bridge.ends.get d.other).app ≠ .dropped →
    .flow q.read * t.bridge.conduit d = ⟨q.written, !q.closed⟩

/-- The simulation relation between a transfer and a pair of pipes. -/
structure Simulates (t : Transfer) (p : Pair (HalfClosePipe UInt8)) : Prop where
  wf : t.bridge.Wf
  carries : ∀ d, t.Carries d (p.get d)

section Keep

variable {t t' : Transfer} {d : Side} {q : HalfClosePipe UInt8} {b : Bridge}

/-- A step of the bridge that loses nothing of direction `d` while it has a reader. -/
theorem Carries.keep (h : t.Carries d q) (hacc : t'.accepted.get d = t.accepted.get d)
    (hread : t'.read.get d.other = t.read.get d.other)
    (happ : (t'.bridge.ends.get d).app = (t.bridge.ends.get d).app)
    (hle : t'.bridge.conduit d ≤ t.bridge.conduit d)
    (heq : (t'.bridge.ends.get d.other).app ≠ .dropped →
      (t.bridge.ends.get d.other).app ≠ .dropped ∧
        t'.bridge.conduit d = t.bridge.conduit d) : t'.Carries d q where
  written := h.written.trans hacc.symm
  read := h.read.trans hread.symm
  closed := by simpa only [happ] using h.closed
  carried := by
    have hmul : .flow q.read * t'.bridge.conduit d ≤ .flow q.read * t.bridge.conduit d :=
      mul_le_mul_right hle _
    exact hmul.trans h.carried
  whole := by
    intro hb hd
    obtain ⟨hd', hc⟩ := heq hd
    simpa only [hc] using h.whole hb hd'

/-- What the sender writes goes behind everything else. -/
theorem Carries.write {w : Bytes} (h : t.Carries d q)
    (hacc : t'.accepted.get d = t.accepted.get d ++ w)
    (hread : t'.read.get d.other = t.read.get d.other)
    (happ : ∀ s, (t'.bridge.ends.get s).app = (t.bridge.ends.get s).app)
    (hopen : q.closed = false) (hc : t'.bridge.conduit d = t.bridge.conduit d * .flow w)
    (hp : q.read <+: q.written ++ w) :
    t'.Carries d { q with written := q.written ++ w, prefix_written := hp } where
  written := by simp [h.written, hacc]
  read := h.read.trans hread.symm
  closed := by simpa only [happ] using h.closed
  carried := by
    rw [hc, ← mul_assoc, Conduit.flow_append]
    exact mul_le_mul_left h.carried _
  whole := by
    intro hb hd
    rw [happ] at hd
    rw [hc, ← mul_assoc, h.whole hb hd, hopen]
    rfl

/-- What the receiver reads comes off the front. -/
theorem Carries.take {r : Bytes} (h : t.Carries d q)
    (hacc : t'.accepted.get d = t.accepted.get d)
    (hread : t'.read.get d.other = t.read.get d.other ++ r)
    (happ : ∀ s, (t'.bridge.ends.get s).app = (t.bridge.ends.get s).app)
    (hc : .flow r * t'.bridge.conduit d = t.bridge.conduit d) (hp : q.read ++ r <+: q.written) :
    t'.Carries d { q with read := q.read ++ r, prefix_written := hp } where
  written := h.written.trans hacc.symm
  read := by simp [h.read, hread]
  closed := by simpa only [happ] using h.closed
  carried := by
    rw [Conduit.flow_append, mul_assoc, hc]
    exact h.carried
  whole := by
    intro hb hd
    rw [happ] at hd
    rw [Conduit.flow_append, mul_assoc, hc]
    exact h.whole hb hd

/-- A step that may lose bytes of direction `d` breaks its pipe. -/
theorem Carries.fail (h : t.Carries d q)
    (happ : (b.ends.get d).app = (t.bridge.ends.get d).app)
    (hle : b.conduit d ≤ t.bridge.conduit d) :
    Carries { t with bridge := b } d { q with broken := true } where
  written := h.written
  read := h.read
  closed := by simpa only [happ] using h.closed
  carried := by
    have hmul : .flow q.read * b.conduit d ≤ .flow q.read * t.bridge.conduit d :=
      mul_le_mul_right hle _
    exact hmul.trans h.carried
  whole := by simp

/-- Closing the sending stream closes the pipe behind everything written. -/
theorem Carries.close (h : t.Carries d q) (happ : (b.ends.get d).app ≠ .live)
    (hother : (b.ends.get d.other).app = (t.bridge.ends.get d.other).app)
    (hc : b.conduit d = .cut (t.bridge.conduit d).held) :
    Carries { t with bridge := b } d { q with closed := true } where
  written := h.written
  read := h.read
  closed := by simpa using happ
  carried := by
    have hp := Conduit.held_prefix_of_le h.carried
    rw [hc, Conduit.mul_cut_held]
    exact Conduit.cut_le hp
  whole := by
    intro hb hd
    rw [hother] at hd
    rw [hc, Conduit.mul_cut_held, h.whole hb hd]
    rfl

end Keep

/-- Updating one pipe of a matching pair. -/
theorem Simulates.set {t' : Transfer} {p : Pair (HalfClosePipe UInt8)} {s : Side}
    {q : HalfClosePipe UInt8} (hwf : t'.bridge.Wf) (hs : t'.Carries s q)
    (ho : t'.Carries s.other (p.get s.other)) : t'.Simulates (p.set s q) where
  wf := hwf
  carries := by
    rw [Side.forall_iff s, Pair.get_set, Pair.get_set_other]
    exact ⟨hs, ho⟩

section Steps

variable {t t' : Transfer} {p : Pair (HalfClosePipe UInt8)} {s : Side}

/-- One step of a pipe accounts for a step of the bridge. -/
theorem run_pipeOp {a : Act} {op : PipeOp UInt8} {q : HalfClosePipe UInt8}
    (ha : pipeOp a = some (s, op)) (hq : (p.get s).step op = some q) :
    run HalfClosePipe.pairStep p (pipeOp a).toList = some (p.set s q) := by
  simp [ha, HalfClosePipe.pairStep_of_step hq]

theorem simulates_writer {ev : WriterEvent} (h : t.Simulates p)
    (hstep : t.step (.writer s ev) = some t') :
    ∃ p', run HalfClosePipe.pairStep p (pipeOp (.writer s ev)).toList = some p' ∧
      t'.Simulates p' := by
  simp only [step, Option.map_eq_some_iff] at hstep
  obtain ⟨b, hb, rfl⟩ := hstep
  have hmove := writerMove_of_step hb
  by_cases hfail : ev = .transmitClosed ∨ ev = .transmitErr
  · have hop : pipeOp (.writer s ev) = some (s, .fail) := by
      rcases hfail with rfl | rfl <;> rfl
    refine ⟨_, run_pipeOp hop rfl, Simulates.set (hmove.wf h.wf) ?_ ?_⟩
    · exact (h.carries s).fail (hmove.app s) (hmove.conduit_le s)
    · have hc := hmove.conduit_other hfail
      exact (h.carries s.other).keep rfl rfl (hmove.app _) hc.le fun hd => ⟨hmove.app _ ▸ hd, hc⟩
  · have hop : pipeOp (.writer s ev) = none := by
      cases ev <;> simp_all [pipeOp]
    push Not at hfail
    refine ⟨p, by simp [hop], hmove.wf h.wf, fun d => ?_⟩
    have hc := hmove.conduit_eq hfail.1 hfail.2 d
    exact (h.carries d).keep rfl rfl (hmove.app d) hc.le fun hd => ⟨hmove.app _ ▸ hd, hc⟩

theorem simulates_reader {ev : ReaderEvent} (h : t.Simulates p)
    (hstep : t.step (.reader s ev) = some t') :
    ∃ p', run HalfClosePipe.pairStep p (pipeOp (.reader s ev)).toList = some p' ∧
      t'.Simulates p' := by
  simp only [step, Option.map_eq_some_iff] at hstep
  obtain ⟨b, hb, rfl⟩ := hstep
  have hmove := readerMove_of_step hb
  by_cases hfail : ev = .receiveErr
  · subst hfail
    refine ⟨_, run_pipeOp rfl rfl, Simulates.set (hmove.wf h.wf) ?_ ?_⟩
    · exact (h.carries s.other).fail (hmove.app _) (hmove.conduit_le _)
    · simp only [Side.other_other]
      have hc : b.conduit s = t.bridge.conduit s := by
        cases hmove
        exact reader_left_conduit _ _
      exact (h.carries s).keep rfl rfl (hmove.app _) hc.le fun hd => ⟨hmove.app _ ▸ hd, hc⟩
  · have hop : pipeOp (.reader s ev) = none := by
      cases ev <;> simp_all [pipeOp]
    refine ⟨p, by simp [hop], hmove.wf h.wf, ?_⟩
    rcases hmove.conduit_cases with hc | ⟨rfl, hleft⟩
    · intro d
      exact (h.carries d).keep rfl rfl (hmove.app d) (hc d).le fun hd => ⟨hmove.app _ ▸ hd, hc d⟩
    · -- the pipe to the application is broken: the stream was dropped
      have hdropped : (t.bridge.ends.get s).app = .dropped := by
        obtain ⟨hloop, hclosed⟩ := hleft.resolve_left hfail
        rcases (h.wf s).inp_closed.mp hclosed with hd | he
        · exact hd
        · cases hr : (t.bridge.ends.get s).reader <;>
            simp [hr, ReaderTask.looping, ReaderTask.hasEnded] at hloop he
      rw [Side.forall_iff s]
      constructor
      · have hc := reader_left_conduit t.bridge s
        exact (h.carries s).keep rfl rfl (hmove.app _) hc.le fun hd => ⟨hmove.app _ ▸ hd, hc⟩
      · refine (h.carries s.other).keep rfl rfl (hmove.app _) (hmove.conduit_le _) fun hd => ?_
        simp [hdropped] at hd

theorem simulates_poll {op : StreamOp} (h : t.Simulates p)
    (hstep : t.step (.poll s op) = some t') :
    ∃ p', run HalfClosePipe.pairStep p (pipeOp (.poll s op)).toList = some p' ∧
      t'.Simulates p' := by
  simp only [step, Option.map_eq_some_iff] at hstep
  obtain ⟨b, hb, rfl⟩ := hstep
  have hmove := appMove_of_step hb
  obtain ⟨hs, ho⟩ := hmove.conduit_eq
  have happ := hmove.app
  have hwf := hmove.wf h.wf
  have hcs := h.carries s
  have hco := h.carries s.other
  cases op with
  | write offer n =>
    have hlive : (t.bridge.ends.get s).app = .live := by
      cases hmove with
      | write _ _ hopen _ _ =>
        by_contra hne
        simp [(h.wf s).out_closed.mpr (.inl hne)] at hopen
    have hclosed : (p.get s).closed = false := by
      by_contra hc
      exact hcs.closed.mp (by simpa using hc) hlive
    refine ⟨_, run_pipeOp rfl (HalfClosePipe.step_write hclosed _), Simulates.set hwf ?_ ?_⟩
    · exact hcs.write (by simp [StreamOp.written]) (by simp [StreamOp.taken]) happ hclosed hs _
    · exact hco.keep (by simp) (by simp [StreamOp.taken]) (happ _) ho.le
        fun hd => ⟨happ _ ▸ hd, ho⟩
  | writeErr =>
    refine ⟨p, rfl, hwf, fun d => ?_⟩
    cases hmove
    exact (h.carries d).keep (by simp [StreamOp.written]) (by simp [StreamOp.taken]) rfl le_rfl
      fun hd => ⟨hd, rfl⟩
  | read bs =>
    have hp : (p.get s.other).read ++ bs <+: (p.get s.other).written := by
      have hle := hco.carried
      rw [← ho, ← mul_assoc] at hle
      exact (Conduit.held_prefix_mul _ _).trans (Conduit.held_prefix_of_le hle)
    refine ⟨_, run_pipeOp rfl (HalfClosePipe.step_read hp), Simulates.set hwf ?_ ?_⟩
    · exact hco.take (by simp) (by simp [StreamOp.taken]) happ ho hp
    · simp only [Side.other_other]
      have hs' : b.conduit s = t.bridge.conduit s := by simpa [StreamOp.written] using hs
      exact hcs.keep (by simp [StreamOp.written]) (by simp) (happ _) hs'.le
        fun hd => ⟨happ _ ▸ hd, hs'⟩
  | readEof =>
    have hend : (p.get s.other).broken = false →
        (p.get s.other).closed = true ∧ (p.get s.other).read = (p.get s.other).written := by
      intro hbroken
      cases hmove with
      | readEof hd hinp hclosed =>
        -- only the end of the reader task closes the pipe under a reading application
        have hended := ((h.wf s).inp_closed.mp hclosed).resolve_left hd
        have hrecv : t.bridge.conduit s.other = .cut [] := by
          have hr : (t.bridge.ends.get s).reader.conduit = .cut [] := by
            cases hr : (t.bridge.ends.get s).reader <;> simp [hr, ReaderTask.hasEnded] at hended
            rfl
          simp [conduit, Endpoint.recv, hd, hinp, hr]
        have hw := hco.whole hbroken (by simpa using hd)
        rw [hrecv, Conduit.flow_mul_cut, List.append_nil, Conduit.ext_iff] at hw
        exact ⟨by simpa using hw.2, hw.1⟩
    refine ⟨_, run_pipeOp rfl (HalfClosePipe.step_eof hend), ?_⟩
    rw [Pair.set_get]
    refine ⟨hwf, fun d => ?_⟩
    cases hmove
    exact (h.carries d).keep (by simp [StreamOp.written]) (by simp [StreamOp.taken]) rfl le_rfl
      fun hd => ⟨hd, rfl⟩
  | readErr => cases hmove

theorem simulates_shutdown (h : t.Simulates p) (hstep : t.step (.shutdown s) = some t') :
    ∃ p', run HalfClosePipe.pairStep p (pipeOp (.shutdown s)).toList = some p' ∧
      t'.Simulates p' := by
  obtain rfl := Option.some.inj hstep
  refine ⟨_, run_pipeOp rfl rfl, Simulates.set (shutdown_wf h.wf s) ?_ ?_⟩
  · refine (h.carries s).close ?_ (by simp [shutdown]) (shutdown_conduit h.wf s)
    by_cases hl : (t.bridge.ends.get s).app = .live
    · simp [shutdown, Endpoint.shutdown, hl]
    · simp [shutdown, Endpoint.shutdown, hl]
  · have hc := shutdown_conduit_other t.bridge s
    refine (h.carries s.other).keep rfl rfl (by simp [shutdown]) hc.le fun hd => ⟨?_, hc⟩
    simp only [shutdown, Side.other_other, setEnd_ends, Pair.get_set] at hd
    intro hd'
    rw [Side.other_other] at hd'
    simp [Endpoint.shutdown, hd'] at hd

theorem simulates_drop (h : t.Simulates p) (hstep : t.step (.drop s) = some t') :
    ∃ p', run HalfClosePipe.pairStep p (pipeOp (.drop s)).toList = some p' ∧
      t'.Simulates p' := by
  obtain rfl := Option.some.inj hstep
  refine ⟨_, run_pipeOp rfl rfl, Simulates.set (drop_wf h.wf s) ?_ ?_⟩
  · exact (h.carries s).close (by simp [drop, Endpoint.drop]) (by simp [drop])
      (drop_conduit t.bridge s)
  · refine (h.carries s.other).keep rfl rfl (by simp [drop]) (drop_conduit_le _ _ _) fun hd => ?_
    simp [drop, Endpoint.drop] at hd

/-- Every step of a bridge is a step of the two pipes. -/
theorem simulates_step {a : Act} (h : t.Simulates p) (hstep : t.step a = some t') :
    ∃ p', run HalfClosePipe.pairStep p (pipeOp a).toList = some p' ∧ t'.Simulates p' := by
  cases a with
  | writer s ev => exact simulates_writer h hstep
  | reader s ev => exact simulates_reader h hstep
  | poll s op => exact simulates_poll h hstep
  | shutdown s => exact simulates_shutdown h hstep
  | drop s => exact simulates_drop h hstep

end Steps

theorem new_simulates (cap : ℕ) (h : 0 < cap) :
    (new cap h).Simulates (.both HalfClosePipe.new) where
  wf := new_wf cap h
  carries d := by
    have hone : (new cap h).bridge.conduit d = 1 := by
      simp [new, Bridge.new, conduit, Endpoint.new, Endpoint.recv, Endpoint.send,
        ReaderTask.conduit, WriterTask.conduit, DuplexPipe.conduit, DuplexPipe.new]
      rfl
    refine ⟨by simp [new, HalfClosePipe.new], by simp [new, HalfClosePipe.new], ?_, ?_, ?_⟩
    · simp [new, Bridge.new, HalfClosePipe.new, Endpoint.new]
    · simp [hone, HalfClosePipe.new]
    · simp only [hone, HalfClosePipe.new, Pair.get_both]
      intros
      rfl

/-- Every run of a bridge is a run of a pair of pipes with half-close. -/
theorem run_simulates {cap : ℕ} {h : 0 < cap} {as : List Act} {t : Transfer}
    (hrun : run step (new cap h) as = some t) :
    ∃ p, run HalfClosePipe.pairStep (.both .new) (as.filterMap pipeOp) = some p ∧
      t.Simulates p :=
  Run.simulation (fun _ _ _ _ hs hstep => simulates_step hs hstep) (new_simulates cap h) hrun

/-- A rats-tls call failed, other than a receive at the end of the stream. -/
def Act.fails : Act → Bool
  | .writer _ .transmitClosed | .writer _ .transmitErr | .reader _ .receiveErr => true
  | _ => false

theorem fails_of_pipeOp {a : Act} {d : Side} (h : pipeOp a = some (d, .fail)) :
    a.fails = true := by
  cases a with
  | writer s ev => cases ev <;> simp_all [pipeOp, Act.fails]
  | reader s ev => cases ev <;> simp_all [pipeOp, Act.fails]
  | poll s op => cases op <;> simp [pipeOp] at h
  | shutdown s => simp [pipeOp] at h
  | drop s => simp [pipeOp] at h

/-- The bridge refines a pair of pipes with half-close: in every run it is
simulated by the two pipes, what an end has read is a prefix of what the other
end wrote, and unless a call has failed an end reads the end of the stream only
after the other end was closed and everything that it wrote was read. -/
theorem refines_halfClosePipes {cap : ℕ} {h : 0 < cap} {as : List Act} {t : Transfer}
    (hrun : run step (new cap h) as = some t) :
    (∃ p, run HalfClosePipe.pairStep (.both .new) (as.filterMap pipeOp) = some p ∧
      t.Simulates p) ∧
    (∀ d, t.read.get d.other <+: t.accepted.get d) ∧
    ((∀ a ∈ as, a.fails = false) → ∀ d t', t.step (.poll d.other .readEof) = some t' →
      (t.bridge.ends.get d).app ≠ .live ∧ t.read.get d.other = t.accepted.get d) := by
  obtain ⟨p, hp, hsim⟩ := run_simulates hrun
  refine ⟨⟨p, hp, hsim⟩, fun d => ?_, fun hok d t' hstep => ?_⟩
  · rw [← (hsim.carries d).read, ← (hsim.carries d).written]
    exact (p.get d).prefix_written
  · obtain ⟨p', hp', _⟩ := simulates_step hsim hstep
    have hnot : (d, .fail) ∉ as.filterMap pipeOp := by
      intro hmem
      obtain ⟨a, ha, hop⟩ := List.mem_filterMap.mp hmem
      simpa [fails_of_pipeOp hop] using hok a ha
    simp only [pipeOp, Side.other_other, Option.toList_some, Run.run_singleton] at hp'
    obtain ⟨hclosed, heq⟩ := HalfClosePipe.eof_of_run hp hnot hp'
    have hc := hsim.carries d
    exact ⟨hc.closed.mp hclosed, by rw [← hc.read, ← hc.written, heq]⟩

/-- Three bytes cross a small socket in uneven pieces while the sender closes. -/
def closingRun : List Act :=
  [.poll .left (.write [1, 2, 3] 3), .writer .left .read, .writer .left (.transmit 2),
    .shutdown .left, .reader .right (.receive 1), .reader .right .write,
    .writer .left (.transmit 1), .writer .left .read, .writer .left .shutdown,
    .reader .right (.receive 2), .reader .right .write, .reader .right .receiveEnd,
    .reader .right .shutdown, .reader .right .drop, .poll .right (.read [1, 2]),
    .poll .right (.read [3])]

theorem closingRun_reads_all : ∃ t, run step (new 2 Nat.two_pos) closingRun = some t ∧
    (t.bridge.ends.get .left).app ≠ .live ∧ t.read.get .right = t.accepted.get .left := by
  obtain ⟨t', ht'⟩ := Option.isSome_iff_exists.mp (by decide +kernel :
    (run step (new 2 Nat.two_pos) (closingRun ++ [.poll .right .readEof])).isSome = true)
  obtain ⟨t, ht, hstep⟩ := Run.run_concat.mp ht'
  exact ⟨t, ht, (refines_halfClosePipes ht).2.2 (by decide) .left t' hstep⟩

end Transfer

end EnclaveNetworkGateway
