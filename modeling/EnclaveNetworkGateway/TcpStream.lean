import EnclaveNetworkGateway.Link

/-!
# TCP streams with half-close

`shutdown` ends one direction of a connection and leaves the other one open. An end of the
connection sees an error only if the network cut it, or if the other end closed its socket
before it had read everything up to the end of the stream.
-/
namespace EnclaveNetworkGateway

/-- `shut` is indexed by the end that has shut down its writing half. -/
structure TcpStream where
  conn : Connection
  shut : Pair Bool
  deriving DecidableEq

namespace TcpStream

def new (cap : ℕ) (h : 0 < cap) : TcpStream := ⟨.new cap h, .both false⟩

/-- The bytes sent from end `d` that nobody has read. -/
def unread (c : TcpStream) (d : Side) : Bytes := (c.conn.sock.get d).items

def gone (c : TcpStream) (s : Side) : Bool := c.conn.gone.get s

/-- The network cut a direction. -/
def severed (c : TcpStream) : Bool := c.conn.cut.get .left || c.conn.cut.get .right

/-- End `s` has shut down its half, and everything it sent was read. -/
def spoken (c : TcpStream) (s : Side) : Bool := c.shut.get s && c.unread s = []

/-- End `s` may find its connection reset. -/
def mayFail (c : TcpStream) (s : Side) : Bool := c.severed || (c.gone s.other && !c.spoken s)

def setSock (c : TcpStream) (s : Side) (q : Socket) : TcpStream :=
  { c with conn := c.conn.setSock s q }

/-- A poll of the process at end `s`. -/
def io (c : TcpStream) (s : Side) (op : StreamOp) : Option TcpStream :=
  match op with
  | .write _ _ | .writeErr =>
    if c.shut.get s then none else (c.conn.io s op).map fun k => { c with conn := k }
  | .read _ => (c.conn.io s op).map fun k => { c with conn := k }
  | .readEof =>
    if c.gone s = false ∧ c.unread s.other = [] ∧ (c.shut.get s.other || c.conn.ended s.other) then
      some c
    else none
  | .readErr => if c.gone s = false ∧ c.mayFail s then some c else none

def shutdown (c : TcpStream) (s : Side) : Option TcpStream :=
  if c.gone s then none else some { c with shut := c.shut.set s true }

def sever (c : TcpStream) (d : Side) (n : ℕ) : TcpStream := { c with conn := c.conn.sever d n }

def drop (c : TcpStream) (s : Side) : TcpStream := { c with conn := c.conn.drop s }

def conduit (c : TcpStream) (d : Side) : Conduit UInt8 := c.conn.conduit d

section Fields

variable (c : TcpStream) (s d : Side) (q : Socket)

@[simp] theorem setSock_unread : (c.setSock s q).unread s = q.items := by
  simp [unread, setSock, Connection.setSock]

@[simp] theorem setSock_unread_other : (c.setSock s q).unread s.other = c.unread s.other := by
  simp [unread, setSock, Connection.setSock]

@[simp] theorem setSock_other_unread : (c.setSock s.other q).unread s = c.unread s := by
  simp [unread, setSock, Connection.setSock]

@[simp] theorem drop_unread : (c.drop s).unread d = c.unread d := rfl

@[simp] theorem drop_gone : (c.drop s).gone s = true := by simp [gone, drop, Connection.drop]

@[simp] theorem drop_gone_other : (c.drop s).gone s.other = c.gone s.other := by
  simp [gone, drop, Connection.drop]

@[simp] theorem sever_severed (n : ℕ) : (c.sever s n).severed = true := by
  cases s <;> simp [severed, sever, Connection.sever, Pair.get, Pair.set]

theorem spoken_iff : c.spoken s = true ↔ c.shut.get s = true ∧ c.unread s = [] := by
  simp [spoken]

end Fields

/-- Everything a poll can do. -/
inductive Move (c : TcpStream) (s : Side) : StreamOp → TcpStream → Prop where
  | write {offer : Bytes} {n : ℕ} {q : Socket} (hn : 0 < n) (hle : n ≤ offer.length)
      (hs : c.gone s = false) (hshut : c.shut.get s = false) (hl : c.conn.lost s = false)
      (hq : q.items = c.unread s ++ offer.take n) :
      Move c s (.write offer n) (c.setSock s q)
  | swallow {offer : Bytes} {n : ℕ} (hn : 0 < n) (hle : n ≤ offer.length)
      (hshut : c.shut.get s = false) (hl : c.conn.lost s = true) : Move c s (.write offer n) c
  | writeErr (hl : c.conn.lost s = true) : Move c s .writeErr c
  | read {bs : Bytes} {q : Socket} (hbs : bs ≠ []) (hs : c.gone s = false)
      (hq : c.unread s.other = bs ++ q.items) :
      Move c s (.read bs) (c.setSock s.other q)
  | readEof (hs : c.gone s = false) (hempty : c.unread s.other = [])
      (hend : c.shut.get s.other = true ∨ c.conn.ended s.other = true) : Move c s .readEof c
  | readErr (hfail : c.mayFail s = true) : Move c s .readErr c

theorem move_of_io {c c' : TcpStream} {s : Side} {op : StreamOp} (h : c.io s op = some c') :
    Move c s op c' := by
  cases op with
  | write offer n =>
    simp only [io, Connection.io] at h
    split_ifs at h with hshut hs hn hl
    · simp at h
    · obtain rfl := Option.some.inj h
      exact .swallow hn.1 hn.2 (by simpa using hshut) hl
    · simp only [Option.map_map, Option.map_eq_some_iff] at h
      obtain ⟨q, hq, rfl⟩ := h
      exact .write hn.1 hn.2 (by simpa [gone] using hs) (by simpa using hshut) (by simpa using hl)
        (Socket.items_of_append hq)
    · simp at h
  | writeErr =>
    simp only [io, Connection.io] at h
    split_ifs at h with hshut hs hl
    · simp at h
    · obtain rfl := Option.some.inj h
      exact .writeErr hl
    · simp at h
  | read bs =>
    simp only [io, Connection.io] at h
    split_ifs at h with hs hbs
    · simp at h
    · obtain rfl := Option.some.inj h
      obtain ⟨rest, hrest⟩ := hbs.2
      exact .read hbs.1 (by simpa [gone] using hs) (by simp [unread, ← hrest])
    · simp at h
  | readEof =>
    simp only [io] at h
    split_ifs at h with hend
    obtain rfl := Option.some.inj h
    exact .readEof hend.1 hend.2.1 (by simpa using hend.2.2)
  | readErr =>
    simp only [io] at h
    split_ifs at h with hfail
    obtain rfl := Option.some.inj h
    exact .readErr hfail.2

/-- A poll moves exactly the bytes that it reports. -/
theorem Move.conduit_eq {c c' : TcpStream} {s : Side} {op : StreamOp} (h : Move c s op c') :
    c'.conduit s = c.conduit s * .flow op.written ∧
      .flow op.taken * c'.conduit s.other = c.conduit s.other := by
  cases h with
  | write _ _ hs _ hl hq => exact (Connection.Move.write hs hl hq).conduit_eq
  | swallow _ _ _ hl => exact (Connection.Move.swallow hl).conduit_eq
  | read _ hs hq => exact (Connection.Move.read hs hq).conduit_eq
  | writeErr | readEof | readErr => simp [StreamOp.written, StreamOp.taken]

/-- A poll takes away the bytes that it reports, and adds them where none are lost. -/
theorem Move.taken_eq {c c' : TcpStream} {s : Side} {op : StreamOp} (h : Move c s op c') :
    c.unread s.other = op.taken ++ c'.unread s.other := by
  cases h with
  | read _ _ hq => simp [StreamOp.taken, hq]
  | _ => simp [StreamOp.taken]

theorem Move.written_eq {c c' : TcpStream} {s : Side} {op : StreamOp} (h : Move c s op c')
    (hl : op.written = [] ∨ c.conn.lost s = false) :
    c'.unread s = c.unread s ++ op.written := by
  cases h with
  | write _ _ _ _ _ hq => simp [StreamOp.written, hq]
  | swallow _ _ _ hl' =>
    cases hl with
    | inl hnil => simp [hnil]
    | inr hl => simp [hl] at hl'
  | _ => simp [StreamOp.written]

theorem Move.shut_eq {c c' : TcpStream} {s : Side} {op : StreamOp} (h : Move c s op c') :
    c'.shut = c.shut := by
  cases h <;> rfl

theorem Move.written_of_shut {c c' : TcpStream} {s : Side} {op : StreamOp} (h : Move c s op c')
    (hshut : c.shut.get s = true) : op.written = [] := by
  cases h with
  | write _ _ _ hopen | swallow _ _ hopen => simp [hshut] at hopen
  | _ => rfl

/-- An end that has shut down its half or dropped the stream writes nothing more. -/
theorem Move.written_eq_nil {c c' : TcpStream} {s : Side} {op : StreamOp} (h : Move c s op c')
    (hl : c.conn.lost s = false) (hend : c.shut.get s = true ∨ c.gone s = true) :
    op.written = [] := by
  cases h with
  | write _ _ hs hshut => simp [hs, hshut] at hend
  | swallow _ _ _ hl' => simp [hl] at hl'
  | _ => rfl

/-- Without a cut, only the other end can keep writes from arriving, or end the stream. -/
theorem lost_of_not_severed {c : TcpStream} (h : c.severed = false) (s : Side) :
    c.conn.lost s = c.gone s.other := by
  simp only [severed, Bool.or_eq_false_iff] at h
  cases s <;> simp [Connection.lost, h, gone]

theorem ended_of_not_severed {c : TcpStream} (h : c.severed = false) (s : Side) :
    c.conn.ended s = c.gone s := by
  simp only [severed, Bool.or_eq_false_iff] at h
  cases s <;> simp [Connection.ended, h, gone]

theorem Move.severed_eq {c c' : TcpStream} {s : Side} {op : StreamOp} (h : Move c s op c') :
    c'.severed = c.severed := by
  cases h <;> rfl

theorem Move.gone_eq {c c' : TcpStream} {s : Side} {op : StreamOp} (h : Move c s op c')
    (d : Side) : c'.gone d = c.gone d := by
  cases h <;> rfl

theorem shutdown_eq {c c' : TcpStream} {s : Side} (h : c.shutdown s = some c') :
    c.gone s = false ∧ c' = { c with shut := c.shut.set s true } := by
  unfold shutdown at h
  split_ifs at h with hs
  exact ⟨by simpa using hs, (Option.some.inj h).symm⟩

theorem sever_conduit_le (c : TcpStream) (e : Side) (n : ℕ) (d : Side) :
    (c.sever e n).conduit d ≤ c.conduit d := c.conn.sever_conduit_le e n d

theorem drop_conduit_le (c : TcpStream) (s d : Side) : (c.drop s).conduit d ≤ c.conduit d :=
  c.conn.drop_conduit_le s d

/-! ## What can always be done -/

theorem exists_read {c : TcpStream} {s : Side} {b : UInt8} {rest : Bytes} (hs : c.gone s = false)
    (h : c.unread s.other = b :: rest) : ∃ c', c.io s (.read [b]) = some c' := by
  have hinitial : [b] <+: (c.conn.sock.get s.other).items := by
    show [b] <+: c.unread s.other
    rw [h]
    exact ⟨rest, rfl⟩
  simp only [gone] at hs
  simp [io, Connection.io, hs, hinitial]

/-- There is room for a byte where nothing is under way. -/
theorem exists_write {c : TcpStream} {s : Side} {offer : Bytes} (hs : c.gone s = false)
    (hshut : c.shut.get s = false) (hl : c.conn.lost s = false) (h : c.unread s = [])
    (hoffer : offer ≠ []) : ∃ c', c.io s (.write offer 1) = some c' := by
  have hlen := List.length_pos_of_ne_nil hoffer
  have hroom : ∃ q, (c.conn.sock.get s).append (offer.take 1) = some q := by
    rw [← Option.isSome_iff_exists, Option.isSome_iff_ne_none, ne_eq, Socket.append_eq_none]
    intro hroom
    have hzero : (c.conn.sock.get s).room = 0 := by
      rw [List.length_take] at hroom
      omega
    exact Socket.ne_nil_of_room_eq_zero hzero h
  obtain ⟨q, hq⟩ := hroom
  simp only [gone] at hs
  simp [io, Connection.io, hs, hshut, hl, hq, Nat.succ_le_of_lt hlen]

theorem io_readEof {c : TcpStream} {s : Side} (hs : c.gone s = false)
    (h : c.unread s.other = []) (hend : c.shut.get s.other = true ∨ c.gone s.other = true) :
    c.io s .readEof = some c := by
  have hended : c.conn.ended s.other = true ∨ c.shut.get s.other = true := by
    cases hend with
    | inl hshut => exact .inr hshut
    | inr hgone =>
      simp only [gone] at hgone
      simp [Connection.ended, hgone]
  rw [io, if_pos ⟨hs, h, by simpa [or_comm] using hended⟩]

end TcpStream

end EnclaveNetworkGateway
