import EnclaveNetworkGateway.Bridge

/-!
# Ownership of the pipes of a bridge

Which of the application, the writer task and the reader task have let go of a
stream decides which pipes are closed. The flags are kept in step with the owners
by every step of the two ends.
-/
namespace EnclaveNetworkGateway.Bridge

/-- The pipes of one end are closed exactly by their owners, and a task that is in
the middle of a buffer has bytes left in it. -/
structure Endpoint.Wf (e : Endpoint) : Prop where
  out_closed : e.out.isClosed = true ↔ e.app ≠ .live ∨ e.socketClosed = true
  inp_closed : e.inp.isClosed = true ↔ e.app = .dropped ∨ e.reader.hasEnded = true
  transmit_ne : ∀ b, e.writer = .transmit b → b.slice ≠ []
  writeAll_ne : ∀ b, e.reader = .writeAll b → b.slice ≠ []

/-- Both ends are well-formed. -/
def Wf (b : Bridge) : Prop := ∀ s, (b.ends.get s).Wf

theorem Endpoint.new_wf : Endpoint.new.Wf where
  out_closed := by decide
  inp_closed := by decide
  transmit_ne := by simp [Endpoint.new]
  writeAll_ne := by simp [Endpoint.new]

theorem new_wf (cap : ℕ) (h : 0 < cap) : (new cap h).Wf := by
  intro s
  simpa [new] using Endpoint.new_wf

/-- A step at one end leaves the other end alone. -/
theorem Wf.set {b b' : Bridge} {s : Side} (h : b.Wf) (he : (b'.ends.get s).Wf)
    (hother : b'.ends.get s.other = b.ends.get s.other) : b'.Wf := by
  intro d
  rcases Side.eq_or_eq_other d s with rfl | rfl
  · exact he
  · exact hother ▸ h s.other

/-- The last owner of the inner stream closes both of its pipes. -/
theorem Endpoint.dropHalf_wf {e : Endpoint}
    (hout : e.out.isClosed = true ↔ e.app ≠ .live)
    (hinp : e.inp.isClosed = true ↔ e.app = .dropped ∨ e.reader.hasEnded = true)
    (ht : ∀ b, e.writer = .transmit b → b.slice ≠ [])
    (hw : ∀ b, e.reader = .writeAll b → b.slice ≠ []) : e.dropHalf.Wf := by
  by_cases hc : e.socketClosed = true
  · have hended : e.reader.hasEnded = true := by
      simp only [socketClosed, Bool.and_eq_true] at hc
      exact hc.2
    have hc' : ({ e with out := e.out.close, inp := e.inp.close } : Endpoint).socketClosed =
        true := hc
    simp only [dropHalf, if_pos hc]
    exact ⟨by simp [hc'], by simp [hended], ht, hw⟩
  · simp only [dropHalf, if_neg hc]
    exact ⟨by simp [hout, hc], hinp, ht, hw⟩

theorem WriterMove.wf {b b' : Bridge} {s : Side} {ev : WriterEvent} (h : WriterMove b s ev b')
    (hb : b.Wf) : b'.Wf := by
  have he := hb s
  cases h with
  | @read buf bs out hw hne hlen hout hclosed =>
    refine hb.set (s := s) ?_ (by simp)
    simp only [setEnd_ends, Pair.get_set]
    refine ⟨?_, he.inp_closed, ?_, he.writeAll_ne⟩
    · simpa [hclosed, Endpoint.socketClosed, hw, WriterTask.hasEnded] using he.out_closed
    · intro c hc
      obtain rfl := WriterTask.transmit.inj hc
      simpa using hne
  | readEnd hw hout hclosed =>
    refine hb.set (s := s) ?_ (by simp)
    simp only [setEnd_ends, Pair.get_set]
    refine ⟨?_, he.inp_closed, by simp, he.writeAll_ne⟩
    simpa [Endpoint.socketClosed, hw, WriterTask.hasEnded] using he.out_closed
  | @transmit buf w q hw hle hq =>
    refine hb.set (s := s) ?_ (by simp)
    simp only [setEnd_ends, Pair.get_set]
    refine ⟨?_, he.inp_closed, ?_, he.writeAll_ne⟩
    · by_cases hlt : w < buf.slice.length
      · simpa [Endpoint.socketClosed, hw, hlt, WriterTask.hasEnded] using he.out_closed
      · simpa [Endpoint.socketClosed, hw, hlt, WriterTask.hasEnded] using he.out_closed
    · intro c hc
      by_cases hlt : w < buf.slice.length
      · simp only [hlt, if_true] at hc
        obtain rfl := WriterTask.transmit.inj hc
        rw [TaskBuf.slice_advance]
        exact List.ne_nil_of_length_pos (by simp; omega)
      · simp [hlt] at hc
  | closed hw _ | failed hw =>
    refine hb.set (s := s) ?_ (by simp)
    simp only [setEnd_ends, Pair.get_set]
    refine ⟨?_, he.inp_closed, by simp, he.writeAll_ne⟩
    simpa [Endpoint.socketClosed, hw, WriterTask.hasEnded] using he.out_closed
  | shutdown hw =>
    refine hb.set (s := s) ?_ (by simp)
    simp only [setEnd_ends, Pair.get_set]
    refine ⟨?_, he.inp_closed, by simp, he.writeAll_ne⟩
    simpa [Endpoint.socketClosed, hw, WriterTask.hasEnded] using he.out_closed
  | drop hw =>
    refine hb.set (s := s) ?_ (by simp)
    simp only [setEnd_ends, Pair.get_set]
    refine Endpoint.dropHalf_wf ?_ he.inp_closed (by simp) he.writeAll_ne
    simpa [Endpoint.socketClosed, hw, WriterTask.hasEnded] using he.out_closed

theorem ReaderMove.wf {b b' : Bridge} {s : Side} {ev : ReaderEvent} (h : ReaderMove b s ev b')
    (hb : b.Wf) : b'.Wf := by
  have he := hb s
  cases h with
  | @receive buf r bs q hr hne hlen hq =>
    refine hb.set (s := s) ?_ (by simp)
    simp only [setEnd_ends, Pair.get_set]
    refine ⟨?_, ?_, he.transmit_ne, ?_⟩
    · simpa [Endpoint.socketClosed, hr, ReaderTask.hasEnded] using he.out_closed
    · simpa [hr, ReaderTask.hasEnded] using he.inp_closed
    · intro c hc
      obtain rfl := ReaderTask.writeAll.inj hc
      simpa using hne
  | receiveNone => exact hb
  | receiveEnd hr _ _ | failed hr | writeBroken hr _ =>
    refine hb.set (s := s) ?_ (by simp)
    simp only [setEnd_ends, Pair.get_set]
    refine ⟨?_, ?_, he.transmit_ne, by simp⟩
    · simpa [Endpoint.socketClosed, hr, ReaderTask.hasEnded] using he.out_closed
    · simpa [hr, ReaderTask.hasEnded] using he.inp_closed
  | @write buf n inp hr hopen hopen' hitems =>
    refine hb.set (s := s) ?_ (by simp)
    simp only [setEnd_ends, Pair.get_set]
    refine ⟨?_, ?_, he.transmit_ne, ?_⟩
    · by_cases hlt : n < buf.slice.length
      · simpa [Endpoint.socketClosed, hr, hlt, ReaderTask.hasEnded] using he.out_closed
      · simpa [Endpoint.socketClosed, hr, hlt, ReaderTask.hasEnded] using he.out_closed
    · have hi := he.inp_closed
      by_cases hlt : n < buf.slice.length
      · simpa [hr, hlt, hopen, hopen', ReaderTask.hasEnded] using hi
      · simpa [hr, hlt, hopen, hopen', ReaderTask.hasEnded] using hi
    · intro c hc
      by_cases hlt : n < buf.slice.length
      · simp only [hlt, if_true] at hc
        obtain rfl := ReaderTask.writeAll.inj hc
        rw [TaskBuf.slice_advance]
        exact List.ne_nil_of_length_pos (by simp; omega)
      · simp [hlt] at hc
  | shutdown hr =>
    refine hb.set (s := s) ?_ (by simp)
    simp only [setEnd_ends, Pair.get_set]
    refine ⟨?_, ?_, he.transmit_ne, by simp⟩
    · simpa [Endpoint.socketClosed, hr, ReaderTask.hasEnded] using he.out_closed
    · simpa [hr, ReaderTask.hasEnded] using he.inp_closed
  | drop hr =>
    refine hb.set (s := s) ?_ (by simp)
    simp only [setEnd_ends, Pair.get_set]
    refine Endpoint.dropHalf_wf ?_ (by simp [ReaderTask.hasEnded]) he.transmit_ne (by simp)
    simpa [Endpoint.socketClosed, hr, ReaderTask.hasEnded] using he.out_closed

theorem AppMove.wf {b b' : Bridge} {s : Side} {op : StreamOp} (h : AppMove b s op b')
    (hb : b.Wf) : b'.Wf := by
  have he := hb s
  cases h with
  | write happ hne hopen hopen' hout =>
    refine hb.set (s := s) ?_ (by simp)
    simp only [setEnd_ends, Pair.get_set]
    refine ⟨?_, he.inp_closed, he.transmit_ne, he.writeAll_ne⟩
    have ho := he.out_closed
    simpa [hopen, hopen', Endpoint.socketClosed] using ho
  | writeErr => exact hb
  | read happ hne hinp hclosed =>
    refine hb.set (s := s) ?_ (by simp)
    simp only [setEnd_ends, Pair.get_set]
    refine ⟨he.out_closed, ?_, he.transmit_ne, he.writeAll_ne⟩
    simpa [hclosed] using he.inp_closed
  | readEof => exact hb

/-- The tasks never touch the application's stream. -/
theorem WriterMove.app {b b' : Bridge} {s : Side} {ev : WriterEvent} (h : WriterMove b s ev b')
    (d : Side) : (b'.ends.get d).app = (b.ends.get d).app := by
  rcases Side.eq_or_eq_other d s with rfl | rfl
  · cases h <;> simp
  · cases h <;> simp

theorem ReaderMove.app {b b' : Bridge} {s : Side} {ev : ReaderEvent} (h : ReaderMove b s ev b')
    (d : Side) : (b'.ends.get d).app = (b.ends.get d).app := by
  rcases Side.eq_or_eq_other d s with rfl | rfl
  · cases h <;> simp
  · cases h <;> simp

theorem AppMove.app {b b' : Bridge} {s : Side} {op : StreamOp} (h : AppMove b s op b')
    (d : Side) : (b'.ends.get d).app = (b.ends.get d).app := by
  rcases Side.eq_or_eq_other d s with rfl | rfl
  · cases h <;> simp
  · cases h <;> simp

/-- Only the reader task itself moves on. -/
theorem WriterMove.reader {b b' : Bridge} {s : Side} {ev : WriterEvent} (h : WriterMove b s ev b')
    (d : Side) : (b'.ends.get d).reader = (b.ends.get d).reader := by
  rcases Side.eq_or_eq_other d s with rfl | rfl
  · cases h <;> simp
  · cases h <;> simp

theorem AppMove.reader {b b' : Bridge} {s : Side} {op : StreamOp} (h : AppMove b s op b')
    (d : Side) : (b'.ends.get d).reader = (b.ends.get d).reader := by
  rcases Side.eq_or_eq_other d s with rfl | rfl
  · cases h <;> simp
  · cases h <;> simp

theorem drop_reader (b : Bridge) (s d : Side) :
    ((b.drop s).ends.get d).reader = (b.ends.get d).reader := by
  rcases Side.eq_or_eq_other d s with rfl | rfl
  · simp [drop, Endpoint.drop]
  · simp [drop]

theorem ReaderMove.hasEnded {b b' : Bridge} {s d : Side} {ev : ReaderEvent}
    (h : ReaderMove b s ev b') (hd : (b.ends.get d).reader.hasEnded = true) :
    (b'.ends.get d).reader.hasEnded = true := by
  rcases Side.eq_or_eq_other d s with rfl | rfl
  · cases h <;> simp_all [ReaderTask.hasEnded]
  · cases h <;> simpa using hd

theorem drop_wf {b : Bridge} (hb : b.Wf) (s : Side) : (b.drop s).Wf := by
  have he := hb s
  refine hb.set (s := s) ?_ (by simp [drop])
  simp only [drop, setEnd_ends, Pair.get_set]
  exact ⟨by simp [Endpoint.drop], by simp [Endpoint.drop], he.transmit_ne, he.writeAll_ne⟩

theorem shutdown_wf {b : Bridge} (hb : b.Wf) (s : Side) : (b.shutdown s).Wf := by
  have he := hb s
  refine hb.set (s := s) ?_ (by simp [shutdown])
  simp only [shutdown, setEnd_ends, Pair.get_set, Endpoint.shutdown]
  split
  · rename_i hl
    refine ⟨by simp, ?_, he.transmit_ne, he.writeAll_ne⟩
    simpa [hl] using he.inp_closed
  · exact he

/-- Closing the sending stream ends the direction behind what is under way. -/
theorem drop_conduit (b : Bridge) (s : Side) : (b.drop s).conduit s = .cut (b.conduit s).held := by
  simp only [conduit, ← mul_assoc, Endpoint.send, ← Conduit.mul_cut_held _ (Endpoint.out _).conduit]
  simp [drop, Endpoint.drop, DuplexPipe.conduit_close]

theorem shutdown_conduit {b : Bridge} (hb : b.Wf) (s : Side) :
    (b.shutdown s).conduit s = .cut (b.conduit s).held := by
  by_cases hl : (b.ends.get s).app = .live
  · simp only [conduit, ← mul_assoc, Endpoint.send,
      ← Conduit.mul_cut_held _ (Endpoint.out _).conduit]
    simp [shutdown, Endpoint.shutdown, hl, DuplexPipe.conduit_close]
  · have hclosed := (hb s).out_closed.mpr (.inl hl)
    have hlive : (b.conduit s).live = false := by
      simp [conduit, Endpoint.send, hclosed]
    rw [← Conduit.eq_cut_held hlive]
    simp [conduit, shutdown, Endpoint.shutdown, hl]

/-- Closing the sending stream leaves the other direction alone. -/
theorem shutdown_conduit_other (b : Bridge) (s : Side) :
    (b.shutdown s).conduit s.other = b.conduit s.other := by
  simp only [conduit, shutdown, setEnd_ends, setEnd_sock, Side.other_other, Pair.get_set,
    Pair.get_set_other, Endpoint.shutdown]
  split
  · rename_i hl
    simp [Endpoint.recv, hl]
  · rfl

/-- A failing transmit leaves the other direction alone. -/
theorem WriterMove.conduit_other {b b' : Bridge} {s : Side} {ev : WriterEvent}
    (h : WriterMove b s ev b') (hfail : ev = .transmitClosed ∨ ev = .transmitErr) :
    b'.conduit s.other = b.conduit s.other := by
  rcases hfail with rfl | rfl
  · cases h
    simp [conduit, Endpoint.recv]
  · cases h
    simp [conduit, Endpoint.recv]

/-- A reader that leaves its loop leaves the direction it does not work for alone. -/
theorem reader_left_conduit (b : Bridge) (s : Side) :
    (b.setEnd s { b.ends.get s with reader := .left }).conduit s = b.conduit s := by
  simp [conduit, Endpoint.send]

end EnclaveNetworkGateway.Bridge
