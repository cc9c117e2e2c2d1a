import EnclaveNetworkGateway.LinkQuiescence

/-!
# Stalled tasks

A writer task can be stuck in `rats_tls_transmit` and a reader task in `write_all`. The other
end or the application may still free them. A bridge keeps flowing as long as no task leaves
its loop while the tasks that would have to be freed by it are stuck.
-/
namespace EnclaveNetworkGateway

namespace Bridge

/-- The writer task is inside a transmit of more than the socket takes, and the peer has not
closed its socket. -/
def WriterStalled (b : Bridge) (s : Side) : Prop :=
  (b.ends.get s.other).socketClosed = false ∧
    (b.sock.get s).room < (b.ends.get s).writer.conduit.held.length

/-- The reader task is inside a `write_all` of more than its pipe takes, and the pipe is open. -/
def ReaderStalled (b : Bridge) (s : Side) : Prop :=
  (b.ends.get s).inp.isClosed = false ∧
    (b.ends.get s).inp.buffer.room < (b.ends.get s).reader.conduit.held.length

/-- While both writer tasks are stalled both reader tasks are in their loops, and a stalled
reader task has a writer task beside it that is in its loops or at the end of its pipe. -/
structure Flowing (b : Bridge) : Prop where
  writers : (∀ s, b.WriterStalled s) → ∀ s, (b.ends.get s).reader.looping = true
  readers : ∀ s, b.ReaderStalled s →
    (b.ends.get s).writer.looping = true ∨ (b.ends.get s).out.isClosed = true

/-- What the writer task may do: take bytes that the socket has no room for only as long as the
other writer task is not stalled or both reader tasks are in their loops, and fail only if the
reader task beside it is not stalled or the application is gone. -/
def WriterAllows (b : Bridge) (s : Side) : WriterEvent → Prop
  | .read =>
    (b.sock.get s).room < ((b.ends.get s).out.buffer.items.take duplexSize).length →
      b.WriterStalled s.other → ∀ d, (b.ends.get d).reader.looping = true
  | .transmitClosed | .transmitErr =>
    b.ReaderStalled s → (b.ends.get s).out.isClosed = true
  | _ => True

/-- What the reader task may do: leave its loop, by a failed receive or on a closed pipe, only
as long as one of the writer tasks is not stalled, and behind a failed writer task receive only
what its pipe has room for. -/
def ReaderAllows (b : Bridge) (s : Side) : ReaderEvent → Prop
  | .receive r =>
    (b.ends.get s).inp.isClosed = false → (b.ends.get s).inp.buffer.room < r →
      (b.ends.get s).writer.looping = true ∨ (b.ends.get s).out.isClosed = true
  | .receiveErr => ¬ ∀ d, b.WriterStalled d
  | .write => (b.ends.get s).inp.isClosed = true → ¬ ∀ d, b.WriterStalled d
  | _ => True

variable {b b' : Bridge} {s : Side}

instance : Decidable (b.WriterStalled s) := inferInstanceAs (Decidable (_ ∧ _))

instance : Decidable (b.ReaderStalled s) := inferInstanceAs (Decidable (_ ∧ _))

instance : DecidablePred (b.WriterAllows s)
  | .read => inferInstanceAs (Decidable (_ → _ → ∀ _, _))
  | .transmitClosed | .transmitErr => inferInstanceAs (Decidable (_ → _))
  | .transmit _ | .shutdown | .drop => inferInstanceAs (Decidable True)

instance : DecidablePred (b.ReaderAllows s)
  | .receive _ => inferInstanceAs (Decidable (_ → _ → _))
  | .receiveErr => inferInstanceAs (Decidable (¬ ∀ _, _))
  | .write => inferInstanceAs (Decidable (_ → ¬ ∀ _, _))
  | .receiveEnd | .shutdown | .drop => inferInstanceAs (Decidable True)

theorem new_flowing (cap : ℕ) (h : 0 < cap) : (new cap h).Flowing where
  writers _ s := by simp [new, Endpoint.new, ReaderTask.looping]
  readers s _ := .inl (by simp [new, Endpoint.new, WriterTask.looping])

section Kept

/-- A task that has left its loop is not stalled. -/
theorem WriterStalled.looping (h : b.WriterStalled s) : (b.ends.get s).writer.looping = true := by
  have hlt := h.2
  cases hw : (b.ends.get s).writer <;> simp [hw, WriterTask.conduit, WriterTask.looping] at hlt ⊢

theorem ReaderStalled.looping (h : b.ReaderStalled s) : (b.ends.get s).reader.looping = true := by
  have hlt := h.2
  cases hr : (b.ends.get s).reader <;> simp [hr, ReaderTask.conduit, ReaderTask.looping] at hlt ⊢

/-- A task that can take a step holds the session, so its socket is open. -/
theorem WriterMove.socket_open {ev : WriterEvent} (h : WriterMove b s ev b') :
    (b.ends.get s).socketClosed = false := by
  cases h <;> simp_all [Endpoint.socketClosed, WriterTask.hasEnded]

theorem ReaderMove.socket_open {ev : ReaderEvent} (h : ReaderMove b s ev b') :
    (b.ends.get s).socketClosed = false := by
  cases h <;> simp_all [Endpoint.socketClosed, ReaderTask.hasEnded]

/-- Only a chunk for which the socket has no room stalls a writer task. -/
theorem WriterMove.writerStalled {ev : WriterEvent} (h : WriterMove b s ev b') {d : Side}
    (hd : b'.WriterStalled d) : b.WriterStalled d ∨ d = s ∧ ev = .read ∧
      (b.sock.get s).room < ((b.ends.get s).out.buffer.items.take duplexSize).length := by
  obtain ⟨hclosed, hlt⟩ := hd
  rcases Side.eq_or_eq_other d s with rfl | rfl
  · cases h with
    | @read buf bs out hw hne hlen hout hc =>
      right
      simp [WriterTask.conduit] at hlt
      refine ⟨rfl, rfl, hlt.trans_le ?_⟩
      rw [hout, List.length_take, List.length_append]
      omega
    | @transmit buf w q hw hle hq hroom =>
      left
      refine ⟨by simpa using hclosed, ?_⟩
      by_cases hw' : w < buf.slice.length
      · simp [hw', WriterTask.conduit] at hlt
        simp only [hw, WriterTask.conduit, Conduit.flow_held]
        omega
      · simp [hw', WriterTask.conduit] at hlt
    | readEnd | closed | failed | shutdown | drop => simp [WriterTask.conduit] at hlt
  · refine .inl ⟨by simpa using h.socket_open, ?_⟩
    cases h <;> simpa using hlt

/-- A reader task makes room in the socket, and keeps it open. -/
theorem ReaderMove.writerStalled {ev : ReaderEvent} (h : ReaderMove b s ev b') {d : Side}
    (hd : b'.WriterStalled d) : b.WriterStalled d := by
  obtain ⟨hclosed, hlt⟩ := hd
  rcases Side.eq_or_eq_other d s with rfl | rfl
  · refine ⟨?_, ?_⟩
    · cases h <;> simpa using hclosed
    · cases h <;> simpa using hlt
  · refine ⟨by simpa using h.socket_open, ?_⟩
    cases h with
    | receive hr hne hlen hq hbs hroom =>
      simp at hlt
      omega
    | _ => simpa using hlt

theorem WriterMove.readerStalled {ev : WriterEvent} (h : WriterMove b s ev b') {d : Side}
    (hd : b'.ReaderStalled d) : b.ReaderStalled d := by
  obtain ⟨hopen, hlt⟩ := hd
  rcases Side.eq_or_eq_other d s with rfl | rfl
  · cases h with
    | drop hw =>
      simp only [setEnd_ends, Pair.get_set, Endpoint.dropHalf] at hopen hlt
      split at hopen
      · simp at hopen
      · rename_i hc
        simp only [hc] at hlt
        exact ⟨hopen, hlt⟩
    | _ => exact ⟨by simpa using hopen, by simpa using hlt⟩
  · cases h <;> exact ⟨by simpa using hopen, by simpa using hlt⟩

/-- Only bytes for which the pipe has no room stall a reader task. -/
theorem ReaderMove.readerStalled {ev : ReaderEvent} (h : ReaderMove b s ev b') {d : Side}
    (hd : b'.ReaderStalled d) : b.ReaderStalled d ∨ d = s ∧ ∃ r, ev = .receive r ∧
      (b.ends.get s).inp.isClosed = false ∧ (b.ends.get s).inp.buffer.room < r := by
  obtain ⟨hopen, hlt⟩ := hd
  rcases Side.eq_or_eq_other d s with rfl | rfl
  · cases h with
    | @receive buf r bs q hr hne hlen hq hbs hroom =>
      right
      simp [ReaderTask.conduit, hbs] at hopen hlt
      exact ⟨rfl, r, rfl, hopen, hlt⟩
    | receiveNone => exact .inl ⟨hopen, hlt⟩
    | @write buf n inp hr hopen' hopen'' hinp =>
      left
      refine ⟨hopen', ?_⟩
      have hlen := congrArg List.length hinp
      rw [List.length_append, List.length_take] at hlen
      have hle := inp.buffer.length_le
      by_cases hn : n < buf.slice.length
      · simp [hn, ReaderTask.conduit, Fifo.room] at hlt
        simp only [hr, ReaderTask.conduit, Conduit.flow_held, Fifo.room]
        omega
      · simp [hn, ReaderTask.conduit] at hlt
    | receiveEnd | failed | writeBroken | shutdown | drop =>
      simp [ReaderTask.conduit] at hlt
  · left
    cases h <;> exact ⟨by simpa using hopen, by simpa using hlt⟩

theorem Endpoint.dropHalf_out_isClosed (e : Endpoint) (h : e.out.isClosed = true) :
    e.dropHalf.out.isClosed = true := by
  simp only [dropHalf]
  split
  · rfl
  · exact h

theorem WriterMove.flowing {ev : WriterEvent} (h : WriterMove b s ev b') (hb : b.Flowing)
    (hok : b.WriterAllows s ev) : b'.Flowing where
  writers hall d := by
    rw [h.reader]
    have hother : b.WriterStalled s.other :=
      (h.writerStalled (hall s.other)).resolve_right (by simp)
    rcases h.writerStalled (hall s) with hs | ⟨_, rfl, hroom⟩
    · exact hb.writers ((Side.forall_iff s).mpr ⟨hs, hother⟩) d
    · exact hok hroom hother d
  readers d hd := by
    have hstalled := h.readerStalled hd
    have hd' := hb.readers d hstalled
    rcases Side.eq_or_eq_other d s with rfl | rfl
    · cases h with
      | read => exact .inl (by simp [WriterTask.looping])
      | @transmit buf w =>
        left
        by_cases hlt : w < buf.slice.length <;> simp [hlt, WriterTask.looping]
      | readEnd hw hout hclosed => exact .inr (by simpa using hclosed)
      | closed | failed => exact .inr (by simpa using hok hstalled)
      | shutdown hw => exact .inr (by simpa [hw, WriterTask.looping] using hd')
      | drop hw =>
        have hclosed : (b.ends.get d).out.isClosed = true := by
          simpa [hw, WriterTask.looping] using hd'
        right
        rw [setEnd_ends, Pair.get_set]
        exact Endpoint.dropHalf_out_isClosed _ hclosed
    · cases h <;> simpa using hd'

theorem ReaderMove.flowing {ev : ReaderEvent} (h : ReaderMove b s ev b') (hb : b.Flowing)
    (hok : b.ReaderAllows s ev) : b'.Flowing where
  writers hall d := by
    have hall' : ∀ d, b.WriterStalled d := fun d => h.writerStalled (hall d)
    have hd := hb.writers hall' d
    rcases Side.eq_or_eq_other d s with rfl | rfl
    · cases h with
      | receive => simp [ReaderTask.looping]
      | receiveNone => exact hd
      | @write buf n => by_cases hlt : n < buf.slice.length <;> simp [hlt, ReaderTask.looping]
      | receiveEnd hr hq hshut =>
        -- the writer task of the peer has ended
        have hlooping := (hall' d.other).looping
        cases hw : (b.ends.get d.other).writer <;>
          simp [hw, WriterTask.hasShut, WriterTask.looping] at hshut hlooping
      | failed => exact absurd hall' hok
      | writeBroken hr hclosed => exact absurd hall' (hok hclosed)
      | shutdown hr | drop hr => simp [hr, ReaderTask.looping] at hd
    · cases h <;> simpa using hd
  readers d hd := by
    have hd' : (b.ends.get d).writer.looping = true ∨ (b.ends.get d).out.isClosed = true := by
      rcases h.readerStalled hd with hs | ⟨rfl, r, rfl, hopen, hlt⟩
      · exact hb.readers d hs
      · exact hok hopen hlt
    rcases Side.eq_or_eq_other d s with rfl | rfl
    · cases h with
      | drop hr =>
        rw [setEnd_ends, Pair.get_set, Endpoint.dropHalf_writer]
        exact hd'.imp_right (Endpoint.dropHalf_out_isClosed _)
      | _ => simpa using hd'
    · cases h <;> simpa using hd'

/-- The application can only free a task, or end what it waits for. -/
theorem AppMove.flowing {op : StreamOp} (h : AppMove b s op b') (hb : b.Flowing) :
    b'.Flowing where
  writers hall d := by
    rw [h.reader]
    refine hb.writers (fun e => ?_) d
    obtain ⟨hclosed, hlt⟩ := hall e
    rcases Side.eq_or_eq_other e s with rfl | rfl
    · cases h <;> exact ⟨by simpa using hclosed, by simpa using hlt⟩
    · cases h <;> exact ⟨by simpa [Endpoint.socketClosed] using hclosed, by simpa using hlt⟩
  readers d hd := by
    obtain ⟨hopen, hlt⟩ := hd
    rcases Side.eq_or_eq_other d s with rfl | rfl
    · cases h with
      | write happ hne hout hout' =>
        simpa [hout, hout'] using hb.readers d ⟨by simpa using hopen, by simpa using hlt⟩
      | writeErr | readEof => exact hb.readers d ⟨hopen, hlt⟩
      | @read bs inp happ hne hinp hclosed =>
        simp only [setEnd_ends, Pair.get_set, Fifo.room] at hopen hlt ⊢
        have hlen := congrArg List.length hinp
        rw [List.length_append] at hlen
        refine hb.readers d ⟨hclosed ▸ hopen, ?_⟩
        rw [Fifo.room]
        omega
    · cases h <;> simpa using hb.readers s.other ⟨by simpa using hopen, by simpa using hlt⟩

theorem drop_flowing (hb : b.Flowing) (s : Side) : (b.drop s).Flowing where
  writers hall d := by
    rw [drop_reader]
    refine hb.writers (fun e => ?_) d
    obtain ⟨hclosed, hlt⟩ := hall e
    rcases Side.eq_or_eq_other e s with rfl | rfl
    · exact ⟨by simpa [drop] using hclosed, by simpa [drop, Endpoint.drop] using hlt⟩
    · exact ⟨by simpa [drop, Endpoint.drop, Endpoint.socketClosed] using hclosed,
        by simpa [drop] using hlt⟩
  readers d hd := by
    obtain ⟨hopen, hlt⟩ := hd
    rcases Side.eq_or_eq_other d s with rfl | rfl
    · simp [drop, Endpoint.drop] at hopen
    · simpa [drop] using hb.readers s.other ⟨by simpa [drop] using hopen, by simpa [drop] using hlt⟩

end Kept

/-! ## At rest -/

section Resting

/-- At rest a writer task inside a transmit is stalled. -/
theorem Resting.writerStalled (h : b.Resting) (hb : b.Wf)
    (hw : (b.ends.get s).writer.transmitting = true) : b.WriterStalled s := by
  rcases h.writer_cases hb (s := s) with ⟨buf, hr, _⟩ | ⟨buf, ht, hroom, hclosed⟩ | he
  · simp [hr, WriterTask.transmitting] at hw
  · refine ⟨hclosed, ?_⟩
    rw [ht, hroom]
    exact List.length_pos_iff.mpr ((hb s).transmit_ne buf ht)
  · cases hw' : (b.ends.get s).writer <;>
      simp [hw', WriterTask.transmitting, WriterTask.hasEnded] at hw he

theorem Flowing.not_crossBlocked (hf : b.Flowing) (h : b.Resting) (hb : b.Wf) :
    ¬ b.CrossBlocked := by
  intro hc
  have hlooping := hf.writers (fun s => h.writerStalled hb (hc s).2) .left
  have hended := (hc .left).1
  cases hr : (b.ends.get .left).reader <;>
    simp [hr, ReaderTask.looping, ReaderTask.hasEnded] at hlooping hended

/-- At rest a pipe that nobody has closed is empty if the application at the other end is gone. -/
theorem Flowing.out_empty (hf : b.Flowing) (h : b.Resting) (hb : b.Wf)
    (happ : (b.ends.get s.other).app = .dropped) (hopen : (b.ends.get s).out.isClosed = false) :
    (b.ends.get s).out.buffer.items = [] := by
  have hout' : (b.ends.get s.other).out.isClosed = true :=
    (hb s.other).out_closed.mpr (.inl (by simp [happ]))
  have hinp' : (b.ends.get s.other).inp.isClosed = true := (hb s.other).inp_closed.mpr (.inl happ)
  rcases h.writer_cases hb (s := s) with ⟨_, _, hempty, _⟩ | ⟨_, ht, hroom, hsocket⟩ | hended
  · exact hempty
  · exfalso
    -- the peer's reader task has left its loop, so its writer task is inside a transmit as well
    have hreader : (b.ends.get s.other).reader.hasEnded = true := by
      rcases h.reader_cases (s := s.other) with ⟨_, _, hsock, _⟩ | ⟨_, _, hopen', _⟩ | he
      · rw [Side.other_other] at hsock
        exact absurd hsock (Socket.ne_nil_of_room_eq_zero hroom)
      · simp [hinp'] at hopen'
      · exact he
    have hwriter : (b.ends.get s.other).writer.transmitting = true := by
      rcases h.writer_cases hb (s := s.other) with ⟨_, _, _, hopen'⟩ | ⟨_, ht', _⟩ | he
      · simp [hout'] at hopen'
      · rw [ht', WriterTask.transmitting]
      · simp [Endpoint.socketClosed, he, hreader] at hsocket
    have hstalled := h.writerStalled hb (s := s) (by rw [ht, WriterTask.transmitting])
    have hlooping := hf.writers
      ((Side.forall_iff s).mpr ⟨hstalled, h.writerStalled hb hwriter⟩) s.other
    cases hr : (b.ends.get s.other).reader <;>
      simp [hr, ReaderTask.looping, ReaderTask.hasEnded] at hlooping hreader
  · exfalso
    -- the writer task has failed, and the reader task beside it waits for the application
    have hstalled : b.ReaderStalled s := by
      rcases h.reader_cases (s := s) with ⟨_, _, hsock, hshut⟩ | ⟨buf, hr, hopen', hroom⟩ | he
      · rcases h.writer_cases hb (s := s.other) with ⟨_, _, _, hopen'⟩ | ⟨_, _, hroom, _⟩ | he
        · simp [hout'] at hopen'
        · exact absurd hsock (Socket.ne_nil_of_room_eq_zero hroom)
        · cases hw : (b.ends.get s.other).writer <;>
            simp [hw, WriterTask.hasEnded, WriterTask.hasShut] at he hshut
      · refine ⟨hopen', ?_⟩
        rw [hr, hroom]
        exact List.length_pos_iff.mpr ((hb s).writeAll_ne buf hr)
      · have hclosed := (hb s).out_closed.mpr (.inr (by simp [Endpoint.socketClosed, hended, he]))
        simp [hclosed] at hopen
    rcases hf.readers s hstalled with hw | hclosed
    · cases hw' : (b.ends.get s).writer <;>
        simp [hw', WriterTask.looping, WriterTask.hasEnded] at hw hended
    · simp [hclosed] at hopen

end Resting

end Bridge

namespace Link

/-- The tasks of a bridge keep flowing; a plain connection has none. -/
def Flowing : Link → Prop
  | plain _ => True
  | tls b => b.Flowing

/-- What the tasks of a bridge may do. -/
def Allows (l : Link) (ev : LinkEvent) : Prop :=
  match l, ev with
  | tls b, .writer s ev => b.WriterAllows s ev
  | tls b, .reader s ev => b.ReaderAllows s ev
  | _, _ => True

instance (l : Link) : DecidablePred l.Allows := fun ev =>
  match l, ev with
  | tls b, .writer s ev => inferInstanceAs (Decidable (b.WriterAllows s ev))
  | tls b, .reader s ev => inferInstanceAs (Decidable (b.ReaderAllows s ev))
  | plain _, _ => inferInstanceAs (Decidable True)
  | tls _, .sever _ _ => inferInstanceAs (Decidable True)

variable {l l' : Link} {s : Side}

theorem Fresh.flowing (h : l.Fresh) : l.Flowing := by
  obtain ⟨cap, hcap, rfl | rfl⟩ := h
  · trivial
  · exact Bridge.new_flowing cap hcap

theorem io_flowing {op : StreamOp} (h : l.io s op = some l') (hl : l.Flowing) : l'.Flowing := by
  cases ioMove_of_io h with
  | plain hm => trivial
  | tls hm => exact hm.flowing hl

theorem drop_flowing (hl : l.Flowing) (s : Side) : (l.drop s).Flowing := by
  cases l with
  | plain c => trivial
  | tls b => exact Bridge.drop_flowing hl s

theorem step_flowing {ev : LinkEvent} (h : l.step ev = some l') (hl : l.Flowing)
    (hok : l.Allows ev) : l'.Flowing := by
  cases stepMove_of_step h with
  | sever c e n => trivial
  | writer hm => exact hm.flowing hl hok
  | reader hm => exact hm.flowing hl hok

theorem Flowing.not_crossBlocked (hf : l.Flowing) (hrest : l.Resting) (hl : l.Wf) :
    ¬ l.CrossBlocked := by
  cases l with
  | plain c => exact id
  | tls b => exact Bridge.Flowing.not_crossBlocked hf hrest.bridge hl

/-- A process that waits to write has a neighbour. -/
theorem WritePending.neighbour {bs : Bytes} (h : l.WritePending s bs) (hne : bs ≠ [])
    (hf : l.Flowing) (hrest : l.Resting) (hl : l.Wf) (hs : l.gone s = false) :
    l.gone s.other = false := by
  by_contra hgone
  cases l with
  | plain c =>
    have hsgone : c.gone.get s = false := hs
    have hother : c.gone.get s.other = true := by simpa [gone] using hgone
    have herr := h.writeErr
    simp [io, Connection.io, hsgone, Connection.lost, hother] at herr
  | tls b =>
    have hlive : (b.ends.get s).app ≠ .dropped := by simpa [gone] using hs
    have hopen : (b.ends.get s).out.isClosed = false := by
      by_contra hc
      have herr := h.writeErr
      simp [io, Bridge.appStep, hlive, hc] at herr
    have hempty := Bridge.Flowing.out_empty hf hrest.bridge hl (by simpa [gone] using hgone) hopen
    exact not_writePending_of_pipe hne hlive hempty hopen h

end Link

end EnclaveNetworkGateway
