import EnclaveNetworkGateway.Link
import EnclaveNetworkGateway.Transition

/-!
# Links at rest

What is known of a link none of whose own steps is enabled. A process that waits
for bytes then knows that its neighbour is there and can write.
-/
namespace EnclaveNetworkGateway

namespace Bridge

/-- The steps that a task takes by itself. A call of the library that fails or that moves no byte
is a choice of the library and the network and is left out, so a task that spins on such calls
takes no step of its own. -/
def WriterEvent.own : WriterEvent → Bool
  | transmit w => w ≠ 0
  | transmitErr => false
  | _ => true

def ReaderEvent.own : ReaderEvent → Bool
  | receive r => r ≠ 0
  | receiveErr => false
  | _ => true

/-- The task is inside `rats_tls_transmit`. -/
def WriterTask.transmitting : WriterTask → Bool
  | transmit _ => true
  | _ => false

/-- No task can take a step. -/
structure Resting (b : Bridge) : Prop where
  writer : ∀ s ev, ev.own = true → b.writerStep s ev = none
  reader : ∀ s ev, ev.own = true → b.readerStep s ev = none

section Resting

variable {b : Bridge} {s : Side}

/-- Where a writer task waits: for bytes of the application, or for room in the socket. -/
theorem Resting.writer_cases (h : b.Resting) (hb : b.Wf) :
    (∃ buf, (b.ends.get s).writer = .read buf ∧ (b.ends.get s).out.buffer.items = [] ∧
      (b.ends.get s).out.isClosed = false) ∨
    (∃ buf, (b.ends.get s).writer = .transmit buf ∧ (b.sock.get s).room = 0 ∧
      (b.ends.get s.other).socketClosed = false) ∨
    (b.ends.get s).writer.hasEnded = true := by
  cases hw : (b.ends.get s).writer with
  | read buf =>
    left
    have hread := h.writer s .read rfl
    simp only [writerStep, hw] at hread
    split at hread
    · rename_i hp
      obtain ⟨hitems, hopen⟩ := DuplexPipe.pollRead_eq_pending.mp hp
      exact ⟨buf, rfl, hitems, hopen⟩
    · rename_i bs out hp
      have hlen : bs.length ≤ duplexSize := DuplexPipe.pollRead_length hp
      rw [dif_pos hlen] at hread
      split_ifs at hread
  | transmit buf =>
    right
    left
    have hslice := (hb s).transmit_ne buf hw
    have hpos : 0 < buf.slice.length := List.length_pos_iff.mpr hslice
    have hone := h.writer s (.transmit 1) rfl
    have hclosed := h.writer s .transmitClosed rfl
    refine ⟨buf, rfl, ?_, ?_⟩
    · have hle : 1 ≤ buf.slice.length := hpos
      simp only [writerStep, hw, if_pos hle, Option.map_eq_none_iff] at hone
      rw [Socket.append_eq_none, List.length_take, min_eq_left hle] at hone
      omega
    · by_contra hc
      simp [writerStep, hw, hc] at hclosed
  | left failed => simpa [writerStep, hw] using h.writer s .shutdown rfl
  | shut failed => simpa [writerStep, hw] using h.writer s .drop rfl
  | ended failed => exact .inr (.inr rfl)

/-- Where a reader task waits: for bytes from the socket, or for room in the pipe. -/
theorem Resting.reader_cases (h : b.Resting) :
    (∃ buf, (b.ends.get s).reader = .receive buf ∧ (b.sock.get s.other).items = [] ∧
      (b.ends.get s.other).writer.hasShut = false) ∨
    (∃ buf, (b.ends.get s).reader = .writeAll buf ∧ (b.ends.get s).inp.isClosed = false ∧
      (b.ends.get s).inp.buffer.room = 0) ∨
    (b.ends.get s).reader.hasEnded = true := by
  cases hr : (b.ends.get s).reader with
  | receive buf =>
    left
    have hone := h.reader s (.receive 1) rfl
    have hend := h.reader s .receiveEnd rfl
    have hitems : (b.sock.get s.other).items = [] := by
      by_contra hne
      have hpos : 1 ≤ (b.sock.get s.other).items.length := List.length_pos_iff.mpr hne
      have hle : 1 ≤ duplexSize := by decide
      simp [readerStep, hr, hpos, hle] at hone
    refine ⟨buf, rfl, hitems, ?_⟩
    by_contra hc
    simp [readerStep, hr, hitems, hc] at hend
  | writeAll buf =>
    right
    left
    have hwrite := h.reader s .write rfl
    simp only [readerStep, hr] at hwrite
    split at hwrite
    · rename_i hp
      obtain ⟨hopen, hroom⟩ := DuplexPipe.pollWrite_eq_pending.mp hp
      exact ⟨buf, rfl, hopen, hroom⟩
    · simp at hwrite
    · simp at hwrite
  | left => simpa [readerStep, hr] using h.reader s .shutdown rfl
  | shut => simpa [readerStep, hr] using h.reader s .drop rfl
  | ended => exact .inr (.inr rfl)

/-- A reader task that finds nothing to do for a waiting application leaves the peer's writer
task at its read, in front of an open and empty pipe. -/
theorem Resting.idle (h : b.Resting) (hb : b.Wf)
    (hempty : (b.ends.get s).inp.buffer.items = []) (hopen : (b.ends.get s).inp.isClosed = false) :
    (b.ends.get s).reader.looping = true ∧ (b.ends.get s.other).writer.looping = true ∧
      (b.ends.get s.other).out.buffer.items = [] ∧
      (b.ends.get s.other).out.isClosed = false := by
  rcases h.reader_cases (s := s) with ⟨buf, hr, hsock, hshut⟩ | ⟨buf, _, _, hroom⟩ | hended
  · rcases h.writer_cases hb (s := s.other) with ⟨buf', hw, hout, hopen'⟩ | ⟨_, _, hroom, _⟩ | hw
    · exact ⟨by simp [hr, ReaderTask.looping], by simp [hw, WriterTask.looping], hout, hopen'⟩
    · exact absurd hsock (Socket.ne_nil_of_room_eq_zero hroom)
    · cases hw' : (b.ends.get s.other).writer <;>
        simp [hw', WriterTask.hasEnded, WriterTask.hasShut] at hw hshut
  · exact absurd hempty (Fifo.ne_nil_of_room_eq_zero (by decide) hroom)
  · simp [(hb s).inp_closed.mpr (.inr hended)] at hopen

/-- Both reader tasks have ended while both writer tasks are inside `rats_tls_transmit`. -/
def CrossBlocked (b : Bridge) : Prop :=
  ∀ s, (b.ends.get s).reader.hasEnded = true ∧ (b.ends.get s).writer.transmitting = true

/-- With both streams dropped, the tasks have all ended or the writers block each other. -/
theorem Resting.ended_or_crossBlocked (h : b.Resting) (hb : b.Wf)
    (happ : ∀ s, (b.ends.get s).app = .dropped) :
    (∀ s, (b.ends.get s).writer.hasEnded = true ∧ (b.ends.get s).reader.hasEnded = true) ∨
      b.CrossBlocked := by
  have hwriter : ∀ s, (∃ buf, (b.ends.get s).writer = .transmit buf ∧ (b.sock.get s).room = 0 ∧
      (b.ends.get s.other).socketClosed = false) ∨ (b.ends.get s).writer.hasEnded = true := by
    intro s
    rcases h.writer_cases hb (s := s) with ⟨_, _, _, hopen⟩ | ht | he
    · simp [(hb s).out_closed.mpr (.inl (by simp [happ s]))] at hopen
    · exact .inl ht
    · exact .inr he
  have hreader : ∀ s, (b.ends.get s).reader.hasEnded = true := by
    intro s
    rcases h.reader_cases (s := s) with ⟨_, _, hsock, hshut⟩ | ⟨_, _, hopen, _⟩ | he
    · rcases hwriter s.other with ⟨_, _, hroom, _⟩ | hw
      · exact absurd hsock (Socket.ne_nil_of_room_eq_zero hroom)
      · cases hw' : (b.ends.get s.other).writer <;>
          simp [hw', WriterTask.hasEnded, WriterTask.hasShut] at hw hshut
    · simp [(hb s).inp_closed.mpr (.inl (happ s))] at hopen
    · exact he
  -- a writer inside a transmit finds the peer's socket open, so the peer's writer is there too
  have hcross : ∀ s, (b.ends.get s).writer.hasEnded = true →
      (b.ends.get s.other).writer.hasEnded = true := by
    intro s hs
    rcases hwriter s.other with ⟨_, _, _, hopen⟩ | he
    · simp [Endpoint.socketClosed, hs, hreader s] at hopen
    · exact he
  by_cases hl : (b.ends.get .left).writer.hasEnded = true
  · left
    rw [Side.forall_iff .left]
    exact ⟨⟨hl, hreader _⟩, hcross _ hl, hreader _⟩
  · right
    have hr : ¬ (b.ends.get Side.left.other).writer.hasEnded = true := fun hr => hl (hcross _ hr)
    have htransmit : ∀ s, ¬ (b.ends.get s).writer.hasEnded = true →
        (b.ends.get s).writer.transmitting = true := by
      intro s hs
      obtain ⟨buf, ht, _⟩ := (hwriter s).resolve_right hs
      rw [ht, WriterTask.transmitting]
    rw [CrossBlocked, Side.forall_iff .left]
    exact ⟨⟨hreader _, htransmit _ hl⟩, hreader _, htransmit _ hr⟩

/-- The readers have ended, and each writer has ended or faces a full socket that its peer
keeps open. -/
def Stuck (b : Bridge) : Prop :=
  ∀ s, (b.ends.get s).reader.hasEnded = true ∧
    ((b.ends.get s).writer.hasEnded = true ∨
      (b.ends.get s).writer.transmitting = true ∧ (b.sock.get s).room = 0 ∧
        (b.ends.get s.other).writer.hasEnded = false)

instance : Decidable b.Stuck := inferInstanceAs (Decidable (∀ _, _))

/-- Then no task can take a step. -/
theorem Stuck.resting (h : b.Stuck) : b.Resting where
  writer s ev hev := by
    have hw := (h s).2
    cases hs : (b.ends.get s).writer with
    | transmit buf =>
      obtain ⟨_, hroom, hpeer⟩ := hw.resolve_left (by simp [hs, WriterTask.hasEnded])
      cases ev with
      | transmit w =>
        have hw0 : w ≠ 0 := by simpa [WriterEvent.own] using hev
        simp only [writerStep, hs]
        split
        · rename_i hle
          rw [Option.map_eq_none_iff, Socket.append_eq_none, List.length_take, min_eq_left hle]
          omega
        · rfl
      | transmitClosed => simp [writerStep, hs, Endpoint.socketClosed, hpeer]
      | transmitErr => simp [WriterEvent.own] at hev
      | read | shutdown | drop => simp [writerStep, hs]
    | ended failed => simp [writerStep, hs]
    | read _ | left _ | shut _ => simp [hs, WriterTask.hasEnded, WriterTask.transmitting] at hw
  reader s ev _ := by
    have hs := (h s).1
    cases hs' : (b.ends.get s).reader <;> simp [hs', ReaderTask.hasEnded] at hs
    simp [readerStep, hs']

end Resting

end Bridge

/-- The steps that a link takes by itself; cutting it is up to the network. -/
def LinkEvent.own : LinkEvent → Bool
  | sever _ _ => false
  | writer _ ev => ev.own
  | reader _ ev => ev.own

namespace Link

def Resting (l : Link) : Prop := Quiescent step (fun ev => ev.own = true) l

/-- A read at end `s` waits. -/
structure ReadPending (l : Link) (s : Side) : Prop where
  read : ∀ bs, bs ≠ [] → l.io s (.read bs) = none
  readEof : l.io s .readEof = none
  readErr : l.io s .readErr = none

/-- A write of `bs` at end `s` waits. -/
structure WritePending (l : Link) (s : Side) (bs : Bytes) : Prop where
  write : ∀ n, 0 < n → n ≤ bs.length → l.io s (.write bs n) = none
  writeErr : l.io s .writeErr = none

/-- The tasks that work for the link have all ended. -/
def TasksEnded : Link → Prop
  | plain _ => True
  | tls b => ∀ s, (b.ends.get s).writer.hasEnded = true ∧ (b.ends.get s).reader.hasEnded = true

/-- A task that works for the link has left its loop. -/
def TaskStopped : Link → Prop
  | plain _ => False
  | tls b => ∃ s, (b.ends.get s).writer.looping = false ∨ (b.ends.get s).reader.looping = false

def CrossBlocked : Link → Prop
  | plain _ => False
  | tls b => b.CrossBlocked

/-- No task of the link can move, whether it has ended or not. -/
def Stuck : Link → Prop
  | plain _ => True
  | tls b => b.Stuck

instance : DecidablePred TasksEnded
  | plain _ => inferInstanceAs (Decidable True)
  | tls _ => inferInstanceAs (Decidable (∀ _, _))

instance : DecidablePred Stuck
  | plain _ => inferInstanceAs (Decidable True)
  | tls b => inferInstanceAs (Decidable b.Stuck)

section Pending

variable {l : Link} {s : Side}

theorem Resting.bridge {b : Bridge} (h : (tls b).Resting) : b.Resting where
  writer s ev hev := by simpa [step] using h (.writer s ev) hev
  reader s ev hev := by simpa [step] using h (.reader s ev) hev

theorem Stuck.resting (h : l.Stuck) : l.Resting := by
  intro ev hev
  cases l with
  | plain c =>
    cases ev with
    | sever d n => simp [LinkEvent.own] at hev
    | writer s ev => rfl
    | reader s ev => rfl
  | tls b =>
    have hb := Bridge.Stuck.resting h
    cases ev with
    | sever d n => rfl
    | writer s ev => simp [step, hb.writer s ev hev]
    | reader s ev => simp [step, hb.reader s ev hev]

/-- A process that waits for bytes of a bridge has an empty pipe in front of it. -/
theorem ReadPending.pipe {b : Bridge} (h : (tls b).ReadPending s)
    (hs : (b.ends.get s).app ≠ .dropped) :
    (b.ends.get s).inp.buffer.items = [] ∧ (b.ends.get s).inp.isClosed = false := by
  have hempty : (b.ends.get s).inp.buffer.items = [] := by
    by_contra hne
    have hread := h.read _ hne
    simp [io, Bridge.appStep, hs, DuplexPipe.pollRead, hne] at hread
  refine ⟨hempty, ?_⟩
  by_contra hc
  have hclosed : (b.ends.get s).inp.isClosed = true := by simpa using hc
  have hend := h.readEof
  simp [io, Bridge.appStep, hs, DuplexPipe.pollRead, hempty, hclosed] at hend

/-- Where the pipe is empty and open, a write does not wait. -/
theorem not_writePending_of_pipe {b : Bridge} {bs : Bytes} (hne : bs ≠ [])
    (hs : (b.ends.get s).app ≠ .dropped) (hempty : (b.ends.get s).out.buffer.items = [])
    (hopen : (b.ends.get s).out.isClosed = false) : ¬ (tls b).WritePending s bs := by
  intro h
  cases hw : (b.ends.get s).out.pollWrite bs with
  | pending =>
    have hroom := (DuplexPipe.pollWrite_eq_pending.mp hw).2
    exact Fifo.ne_nil_of_room_eq_zero (by decide) hroom hempty
  | ready r =>
    cases r with
    | none => simp [DuplexPipe.pollWrite_eq_broken.mp hw] at hopen
    | some x =>
      obtain ⟨hpos, hle⟩ := DuplexPipe.pollWrite_pos hne hw
      have hwrite := h.write x.1 hpos hle
      simp [io, Bridge.appStep, hs, hw, hne] at hwrite

/-- A process that waits for bytes of a plain connection has an open and empty one. -/
theorem ReadPending.connection {c : Connection} (h : (plain c).ReadPending s)
    (hs : c.gone.get s = false) :
    (c.sock.get s.other).items = [] ∧ c.cut.get s.other = false ∧ c.gone.get s.other = false := by
  have hempty : (c.sock.get s.other).items = [] := by
    by_contra hne
    have hread := h.read _ hne
    simp [io, Connection.io, hs, hne] at hread
  refine ⟨hempty, ?_⟩
  rw [← Bool.or_eq_false_iff]
  by_contra hc
  have hended : c.ended s.other = true := Bool.of_not_eq_false hc
  have hend := h.readErr
  simp [io, Connection.io, hs, hended] at hend

/-- A process that waits for bytes on a link at rest has a neighbour that can write. -/
theorem ReadPending.neighbour (h : l.ReadPending s) (hrest : l.Resting) (hl : l.Wf)
    (hs : l.gone s = false) :
    l.gone s.other = false ∧ ∀ bs, bs ≠ [] → ¬ l.WritePending s.other bs := by
  cases l with
  | plain c =>
    obtain ⟨hempty, hcut, hgone⟩ := h.connection hs
    refine ⟨hgone, fun bs hne hw => ?_⟩
    have hpos : 1 ≤ bs.length := List.length_pos_iff.mpr hne
    have hone := hw.write 1 one_pos hpos
    have hsgone : c.gone.get s = false := hs
    simp only [io, Connection.io, hgone, Connection.lost, hcut, Side.other_other, hsgone,
      Bool.or_self, Bool.false_eq_true, if_false, one_pos, hpos, and_self, if_true,
      Option.map_map, Option.map_eq_none_iff, Socket.append_eq_none, List.length_take] at hone
    have hroom : (c.sock.get s.other).room = 0 := by omega
    exact Socket.ne_nil_of_room_eq_zero hroom hempty
  | tls b =>
    have happ : (b.ends.get s).app ≠ .dropped := by simpa [gone] using hs
    obtain ⟨hempty, hopen⟩ := h.pipe happ
    obtain ⟨_, _, hout, hout'⟩ := hrest.bridge.idle hl hempty hopen
    have hother : (b.ends.get s.other).app ≠ .dropped := by
      intro hd
      simp [(hl s.other).out_closed.mpr (.inl (by simp [hd]))] at hout'
    exact ⟨by simpa [gone] using hother,
      fun bs hne => not_writePending_of_pipe hne hother hout hout'⟩

/-- If both processes wait for bytes, no task has stopped. -/
theorem not_taskStopped (hrest : l.Resting) (hl : l.Wf)
    (h : ∀ s, l.ReadPending s ∧ l.gone s = false) : ¬ l.TaskStopped := by
  cases l with
  | plain c => exact id
  | tls b =>
    have hidle : ∀ s, (b.ends.get s).reader.looping = true ∧
        (b.ends.get s.other).writer.looping = true := by
      intro s
      have happ : (b.ends.get s).app ≠ .dropped := by simpa [gone] using (h s).2
      obtain ⟨hempty, hopen⟩ := (h s).1.pipe happ
      obtain ⟨hr, hw, _⟩ := hrest.bridge.idle hl hempty hopen
      exact ⟨hr, hw⟩
    rintro ⟨s, hw | hr⟩
    · have hlooping := (hidle s.other).2
      simp [hw] at hlooping
    · simp [(hidle s).1] at hr

/-- When both processes are gone, the tasks have ended unless they block each other. -/
theorem tasksEnded_or_crossBlocked (hrest : l.Resting) (hl : l.Wf) (h : ∀ s, l.gone s = true) :
    l.TasksEnded ∨ l.CrossBlocked := by
  cases l with
  | plain c => exact .inl trivial
  | tls b => exact hrest.bridge.ended_or_crossBlocked hl fun s => by simpa [gone] using h s

end Pending

end Link

end EnclaveNetworkGateway
