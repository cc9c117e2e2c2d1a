import EnclaveNetworkGateway.TcpStream
import EnclaveNetworkGateway.Transition

/-!
# The echo client

`run_echo_client` sends its data and shuts down its half of the connection, reads until the end
of the stream at the same time, and prints whether the answer has the size and the content of
the data. The other end of the connection does what it wants.
-/
namespace EnclaveNetworkGateway

/-- `write_data`: at `write_all` with the rest of the data, at `shutdown` with the result of
`write_all`, or done. -/
inductive WriteData where
  | writing (rest : Bytes)
  | shutdown (ret : Except String Unit)
  | done (ret : Except String Unit)
  deriving DecidableEq

/-- `read_data`: in the loop with the first `recv_size` bytes of the buffer, or done. -/
inductive ReadData where
  | reading (received : Bytes)
  | done (ret : Except String Bytes)
  deriving DecidableEq

/-- The line that is printed. -/
structure Verdict where
  sent : ℕ
  received : ℕ
  checkSize : Bool
  checkContent : Bool
  deriving DecidableEq, Repr

/-- The two futures under `join!`. -/
structure EchoClient where
  write : WriteData
  read : ReadData
  deriving DecidableEq

namespace WriteData

def writeAll (rest : Bytes) : WriteData := if rest = [] then shutdown (.ok ()) else writing rest

def poll : WriteData → StreamOp → Option WriteData
  | writing rest, .write offer n => if offer = rest then some (writeAll (rest.drop n)) else none
  | writing _, .writeErr => some (shutdown (.error "Failed to send data to server"))
  | _, _ => none

end WriteData

namespace ReadData

/-- `while recv_size < buf.len()`, with a buffer that is larger than the data by one byte. -/
def loop (data received : Bytes) : ReadData :=
  if received.length < data.length + 1 then reading received else done (.ok received)

def poll (data : Bytes) : ReadData → StreamOp → Option ReadData
  | reading received, .read bs =>
    if bs.length ≤ data.length + 1 - received.length then some (loop data (received ++ bs))
    else none
  | reading received, .readEof => some (done (.ok received))
  | reading _, .readErr => some (done (.error "Failed to receive data from server"))
  | _, _ => none

end ReadData

namespace EchoClient

def new (data : Bytes) : EchoClient := ⟨.writeAll data, .loop data []⟩

/-- A poll of one of the two halves. -/
def poll (data : Bytes) (c : EchoClient) (op : StreamOp) : Option EchoClient :=
  match op with
  | .write _ _ | .writeErr => (c.write.poll op).map fun w => { c with write := w }
  | .read _ | .readEof | .readErr => (c.read.poll data op).map fun r => { c with read := r }

/-- `shutdown` returns; its error comes before that of `write_all`. -/
def shutdown (c : EchoClient) (ok : Bool) : Option EchoClient :=
  match c.write with
  | .shutdown ret => some { c with
      write := .done (if ok then ret else .error "Failed to shutdown connection") }
  | _ => none

/-- The buffer of `read_data`. -/
def buffer (data received : Bytes) : Bytes :=
  received ++ List.replicate (data.length + 1 - received.length) 0

def verify (data received : Bytes) : Verdict :=
  ⟨data.length, received.length, data.length = received.length,
    data = (buffer data received).take data.length⟩

/-- What the client returns, once both futures are done. -/
def outcome (data : Bytes) (c : EchoClient) : Option (Except String Verdict) :=
  match c.write, c.read with
  | .done ret, .done ret' => some (ret.bind fun _ => ret'.map (verify data))
  | _, _ => none

end EchoClient

/-- The client on the left of a connection, with all the bytes that the other end has written. -/
structure EchoDial where
  stream : TcpStream
  client : EchoClient
  answered : Bytes
  deriving DecidableEq

inductive DialAct where
  | client (op : StreamOp)
  | shutdown (ok : Bool)
  | peer (op : StreamOp)
  | peerShutdown
  | peerDrop
  | sever (d : Side) (n : ℕ)
  deriving DecidableEq, Repr

namespace EchoDial

def new (cap : ℕ) (h : 0 < cap) (data : Bytes) : EchoDial := ⟨.new cap h, .new data, []⟩

variable (data : Bytes)

def step (c : EchoDial) : DialAct → Option EchoDial
  | .client op => (c.client.poll data op).bind fun k => (c.stream.io .left op).map fun s =>
      { c with stream := s, client := k }
  | .shutdown ok => (c.client.shutdown ok).bind fun k =>
      if ok then (c.stream.shutdown .left).map fun s => { c with stream := s, client := k }
      else if c.stream.mayFail .left then some { c with client := k } else none
  | .peer op => (c.stream.io .right op).map fun s =>
      { c with stream := s, answered := c.answered ++ op.written }
  | .peerShutdown => (c.stream.shutdown .right).map fun s => { c with stream := s }
  | .peerDrop => some { c with stream := c.stream.drop .right }
  | .sever d n => some { c with stream := c.stream.sever d n }

end EchoDial

/-! ## What the verdict says -/

namespace EchoClient

variable {data received : Bytes}

theorem verify_iff : (verify data received).checkSize = true ∧
    (verify data received).checkContent = true ↔ received = data := by
  show decide _ = true ∧ decide _ = true ↔ _
  rw [decide_eq_true_iff, decide_eq_true_iff]
  unfold buffer
  constructor
  · intro h
    have hcontent := h.2
    rw [List.take_append_of_le_length (by omega), h.1, List.take_length] at hcontent
    exact hcontent.symm
  · intro h
    subst h
    simp

theorem verify_self (data : Bytes) :
    verify data data = ⟨data.length, data.length, true, true⟩ := by
  simp [verify, buffer]

/-- Without a zero byte in the data, the zeros of the buffer cannot stand in for a part of it. -/
theorem checkContent_iff (h : 0 ∉ data) :
    (verify data received).checkContent = true ↔ data <+: received := by
  show decide _ = true ↔ _
  rw [decide_eq_true_iff]
  unfold buffer
  by_cases hlen : data.length ≤ received.length
  · rw [List.take_append_of_le_length hlen, List.prefix_iff_eq_take]
  · constructor
    · intro heq
      have hzero : 0 ∈ data := by
        rw [heq, List.take_append, List.take_replicate]
        apply List.mem_append_right
        exact List.mem_replicate.mpr ⟨by omega, rfl⟩
      exact absurd hzero h
    · exact fun hinitial => absurd hinitial.length_le hlen

end EchoClient

namespace ReadData

/-- Everything that was read, unless `read_data` has failed. -/
def received : ReadData → Option Bytes
  | reading r | done (.ok r) => some r
  | done (.error _) => none

/-- Everything a poll can do to `read_data`. -/
inductive Polled (data : Bytes) : ReadData → StreamOp → ReadData → Prop where
  | read {r bs : Bytes} : Polled data (reading r) (.read bs) (loop data (r ++ bs))
  | readEof {r : Bytes} : Polled data (reading r) .readEof (done (.ok r))
  | readErr {r : Bytes} :
    Polled data (reading r) .readErr (done (.error "Failed to receive data from server"))

theorem polled_of_poll {data : Bytes} {k k' : ReadData} {op : StreamOp}
    (h : k.poll data op = some k') : Polled data k op k' := by
  unfold poll at h
  split at h
  · split_ifs at h
    exact Option.some.inj h ▸ .read
  · exact Option.some.inj h ▸ .readEof
  · exact Option.some.inj h ▸ .readErr
  · simp at h

theorem Polled.written_eq {data : Bytes} {k k' : ReadData} {op : StreamOp}
    (h : Polled data k op k') : op.written = [] := by
  cases h <;> rfl

theorem loop_received (data r : Bytes) : (loop data r).received = some r := by
  unfold loop
  split_ifs <;> rfl

end ReadData

namespace WriteData

/-- Everything a poll can do to `write_data`. -/
inductive Polled : WriteData → StreamOp → WriteData → Prop where
  | write {rest : Bytes} {n : ℕ} : Polled (writing rest) (.write rest n) (writeAll (rest.drop n))
  | writeErr {rest : Bytes} :
    Polled (writing rest) .writeErr (shutdown (.error "Failed to send data to server"))

theorem polled_of_poll {k k' : WriteData} {op : StreamOp} (h : k.poll op = some k') :
    Polled k op k' := by
  unfold poll at h
  split at h
  · split_ifs at h with hoffer
    subst hoffer
    exact Option.some.inj h ▸ .write
  · exact Option.some.inj h ▸ .writeErr
  · simp at h

theorem Polled.exists_writing {k k' : WriteData} {op : StreamOp} (h : Polled k op k') :
    ∃ rest, k = writing rest := by
  cases h <;> exact ⟨_, rfl⟩

theorem Polled.taken_eq {k k' : WriteData} {op : StreamOp} (h : Polled k op k') :
    op.taken = [] := by
  cases h <;> rfl

end WriteData

/-- A poll concerns one of the two futures. -/
theorem EchoClient.poll_cases {data : Bytes} {k k' : EchoClient} {op : StreamOp}
    (h : k.poll data op = some k') :
    (WriteData.Polled k.write op k'.write ∧ k'.read = k.read) ∨
      (ReadData.Polled data k.read op k'.read ∧ k'.write = k.write) := by
  unfold poll at h
  split at h
  · obtain ⟨w, hw, rfl⟩ := Option.map_eq_some_iff.mp h
    exact .inl ⟨WriteData.polled_of_poll hw, rfl⟩
  · obtain ⟨w, hw, rfl⟩ := Option.map_eq_some_iff.mp h
    exact .inl ⟨WriteData.polled_of_poll hw, rfl⟩
  all_goals
    obtain ⟨r, hr, rfl⟩ := Option.map_eq_some_iff.mp h
    exact .inr ⟨ReadData.polled_of_poll hr, rfl⟩

namespace EchoDial

variable {data : Bytes} {c c' : EchoDial}

/-- What was read is the beginning of what the other end has written. -/
def Faithful (c : EchoDial) : Prop :=
  ∀ r, c.client.read.received = some r → .flow r * c.stream.conduit .right ≤ .flow c.answered

/-- On a connection that the network does not cut, `read_data` ends with one byte too many or
with all that the other end will ever write. -/
def Exact (data : Bytes) (c : EchoDial) : Prop :=
  match c.client.read with
  | .reading r => c.answered = r ++ c.stream.unread .right
  | .done (.ok r) => data.length < r.length ∧ r <+: c.answered ∨
      c.answered = r ∧ (c.stream.shut.get .right = true ∨ c.stream.gone .right = true)
  | .done (.error _) => True

structure Sound (data : Bytes) (c : EchoDial) : Prop where
  faithful : c.Faithful
  stays : c.stream.gone .left = false
  exact : c.stream.severed = false → c.Exact data

theorem new_sound (cap : ℕ) (h : 0 < cap) : (new cap h data).Sound data := by
  have hread : (new cap h data).client.read = .reading [] := rfl
  refine ⟨fun r hr => ?_, rfl, fun _ => ?_⟩
  · rw [hread] at hr
    exact Option.some.inj hr ▸ le_refl _
  · rw [Exact, hread]
    rfl

theorem faithful_client {op : StreamOp} {k : EchoClient} {s : TcpStream} (hc : c.Faithful)
    (hk : c.client.poll data op = some k) (hs : c.stream.io .left op = some s) :
    Faithful { c with stream := s, client := k } := by
  have hright := (TcpStream.move_of_io hs).conduit_eq.2
  rw [Side.other] at hright
  unfold Faithful at hc ⊢
  rw [← hright] at hc
  dsimp only
  cases EchoClient.poll_cases hk with
  | inl h =>
    rw [h.2]
    simpa [h.1.taken_eq] using hc
  | inr h =>
    have hpolled := h.1
    generalize c.client.read = r at hc hpolled
    generalize k.read = r' at hpolled
    intro x hx
    cases hpolled with
    | @read r bs =>
      rw [ReadData.loop_received] at hx
      obtain rfl := Option.some.inj hx
      rw [Conduit.flow_append, mul_assoc]
      exact hc r rfl
    | @readEof r =>
      obtain rfl := Option.some.inj hx
      simpa [StreamOp.taken] using hc r rfl
    | readErr => simp [ReadData.received] at hx

theorem exact_client {op : StreamOp} {k : EchoClient} {s : TcpStream} (hc : c.Exact data)
    (hsevered : c.stream.severed = false) (hk : c.client.poll data op = some k)
    (hs : c.stream.io .left op = some s) : Exact data { c with stream := s, client := k } := by
  have hmove := TcpStream.move_of_io hs
  unfold Exact at hc ⊢
  dsimp only
  cases EchoClient.poll_cases hk with
  | inl h =>
    have hkept := hmove.taken_eq
    rw [h.1.taken_eq, List.nil_append, Side.other] at hkept
    rw [h.2, ← hkept, hmove.shut_eq, hmove.gone_eq]
    exact hc
  | inr h =>
    have hpolled := h.1
    generalize c.client.read = r at hc hpolled
    generalize k.read = r' at hpolled
    cases hpolled with
    | @read r bs =>
      cases hmove with
      | @read _ q hbs hgone hq =>
        rw [Side.other] at hq ⊢
        have hanswered : c.answered = r ++ bs ++ q.items := by
          rw [List.append_assoc, ← hq]
          exact hc
        unfold ReadData.loop
        split_ifs with hlen
        · simpa using hanswered
        · exact .inl ⟨by omega, hanswered ▸ List.prefix_append _ _⟩
    | @readEof r =>
      cases hmove with
      | readEof hgone hempty hend =>
        rw [Side.other] at hempty hend
        rw [TcpStream.ended_of_not_severed hsevered] at hend
        exact .inr ⟨by simpa [hempty] using hc, hend⟩
    | readErr => trivial

theorem exact_peer {op : StreamOp} {s : TcpStream} (hc : c.Exact data)
    (hlost : c.stream.conn.lost .right = false) (hs : c.stream.io .right op = some s) :
    Exact data { c with stream := s, answered := c.answered ++ op.written } := by
  have hmove := TcpStream.move_of_io hs
  unfold Exact at hc ⊢
  dsimp only
  rw [hmove.written_eq (.inr hlost), hmove.shut_eq, hmove.gone_eq]
  split
  · rename_i r hr
    rw [hr] at hc
    rw [← List.append_assoc, ← hc]
  · rename_i r hr
    rw [hr] at hc
    cases hc with
    | inl hfull => exact .inl ⟨hfull.1, hfull.2.trans (List.prefix_append _ _)⟩
    | inr hend => exact .inr ⟨by rw [hmove.written_eq_nil hlost hend.2]; simpa using hend.1, hend.2⟩
  · trivial

/-- A stream on which nothing moves. -/
theorem exact_of_quiet {k : EchoClient} {s : TcpStream} (hc : c.Exact data)
    (hk : k.read = c.client.read) (hunread : s.unread .right = c.stream.unread .right)
    (hshut : c.stream.shut.get .right = true → s.shut.get .right = true)
    (hgone : c.stream.gone .right = true → s.gone .right = true) :
    Exact data { c with stream := s, client := k } := by
  unfold Exact at hc ⊢
  dsimp only
  rw [hk, hunread]
  split
  · rename_i r hr
    simpa [hr] using hc
  · rename_i r hr
    rw [hr] at hc
    exact hc.imp id fun hend => ⟨hend.1, hend.2.imp hshut hgone⟩
  · trivial

theorem faithful_of_le {k : EchoClient} {s : TcpStream} (hc : c.Faithful)
    (hk : k.read = c.client.read) (hs : s.conduit .right ≤ c.stream.conduit .right) :
    Faithful { c with stream := s, client := k } := by
  intro r hr
  exact (mul_le_mul_right hs _).trans (hc r (hk ▸ hr))

theorem shutdown_read {k k' : EchoClient} {ok : Bool} (h : k.shutdown ok = some k') :
    k'.read = k.read := by
  unfold EchoClient.shutdown at h
  split at h
  · exact Option.some.inj h ▸ rfl
  · simp at h

theorem sound_step {a : DialAct} (hc : c.Sound data) (h : c.step data a = some c') :
    c'.Sound data := by
  cases a with
  | client op =>
    obtain ⟨k, hk, hmap⟩ := Option.bind_eq_some_iff.mp h
    obtain ⟨s, hs, rfl⟩ := Option.map_eq_some_iff.mp hmap
    have hmove := TcpStream.move_of_io hs
    refine ⟨faithful_client hc.faithful hk hs, (hmove.gone_eq .left).trans hc.stays, ?_⟩
    intro hsevered
    have hbefore := hmove.severed_eq.symm.trans hsevered
    exact exact_client (hc.exact hbefore) hbefore hk hs
  | shutdown ok =>
    obtain ⟨k, hk, hrest⟩ := Option.bind_eq_some_iff.mp h
    have hread := shutdown_read hk
    cases ok with
    | true =>
      obtain ⟨s, hs, rfl⟩ := Option.map_eq_some_iff.mp hrest
      obtain rfl := (TcpStream.shutdown_eq hs).2
      exact ⟨faithful_of_le hc.faithful hread (le_refl _), hc.stays,
        fun hsevered => exact_of_quiet (hc.exact hsevered) hread rfl id id⟩
    | false =>
      simp only [Bool.false_eq_true, if_false] at hrest
      split_ifs at hrest
      obtain rfl := Option.some.inj hrest
      exact ⟨faithful_of_le hc.faithful hread (le_refl _), hc.stays,
        fun hsevered => exact_of_quiet (hc.exact hsevered) hread rfl id id⟩
  | peer op =>
    obtain ⟨s, hs, rfl⟩ := Option.map_eq_some_iff.mp h
    have hmove := TcpStream.move_of_io hs
    refine ⟨fun r hr => ?_, (hmove.gone_eq .left).trans hc.stays, fun hsevered => ?_⟩
    · rw [hmove.conduit_eq.1, ← mul_assoc]
      exact mul_le_mul_left (hc.faithful r hr) _
    · have hbefore := hmove.severed_eq.symm.trans hsevered
      apply exact_peer (hc.exact hbefore) ?_ hs
      rw [TcpStream.lost_of_not_severed hbefore]
      exact hc.stays
  | peerShutdown =>
    obtain ⟨s, hs, rfl⟩ := Option.map_eq_some_iff.mp h
    obtain rfl := (TcpStream.shutdown_eq hs).2
    refine ⟨faithful_of_le hc.faithful rfl (le_refl _), hc.stays, fun hsevered => ?_⟩
    exact exact_of_quiet (hc.exact hsevered) rfl rfl (fun _ => c.stream.shut.get_set .right true) id
  | peerDrop =>
    obtain rfl := Option.some.inj h
    refine ⟨faithful_of_le hc.faithful rfl (c.stream.drop_conduit_le .right .right), ?_, ?_⟩
    · exact (c.stream.drop_gone_other .right).trans hc.stays
    · exact fun hsevered => exact_of_quiet (hc.exact hsevered) rfl rfl id fun _ => by simp
  | sever d n =>
    obtain rfl := Option.some.inj h
    refine ⟨faithful_of_le hc.faithful rfl (c.stream.sever_conduit_le d n .right), hc.stays, ?_⟩
    intro hsevered
    simp at hsevered

/-- An outcome without an error is the verdict on what was read. -/
theorem verify_of_outcome {k : EchoClient} {v : Verdict} (h : k.outcome data = some (.ok v)) :
    ∃ r, k.read = .done (.ok r) ∧ v = EchoClient.verify data r := by
  unfold EchoClient.outcome at h
  split at h
  · rename_i ret ret' hwrite hread
    have hok := Option.some.inj h
    cases ret with
    | error e => simp [Except.bind] at hok
    | ok =>
      cases ret' with
      | error e => simp [Except.bind, Except.map] at hok
      | ok r => exact ⟨r, hread, (Except.ok.inj hok).symm⟩
  · simp at h

/-- Whatever the other end does, the two checks pass exactly if the data came back and nothing
else, which on a connection that the network does not cut is all that the other end has written.
For data without a zero byte the second check alone says that the data came back first. -/
theorem checks_iff {cap : ℕ} {hcap : 0 < cap} {as : List DialAct} {v : Verdict}
    (hrun : run (step data) (new cap hcap data) as = some c)
    (hv : c.client.outcome data = some (.ok v)) :
    (∃ r, r <+: c.answered ∧ v.received = r.length ∧
      (v.checkSize = true ∧ v.checkContent = true ↔ r = data) ∧
      (0 ∉ data → (v.checkContent = true ↔ data <+: r))) ∧
    (c.stream.severed = false →
      (v.checkSize = true ∧ v.checkContent = true ↔ c.answered = data)) := by
  have hsound : c.Sound data :=
    Run.invariant (fun _ _ _ hc hstep => sound_step hc hstep) (new_sound cap hcap) hrun
  obtain ⟨r, hread, rfl⟩ := verify_of_outcome hv
  constructor
  · have hinitial := Conduit.held_prefix_of_le (hsound.faithful r (by rw [hread]; rfl))
    exact ⟨r, (Conduit.held_prefix_mul _ _).trans hinitial, rfl, EchoClient.verify_iff,
      EchoClient.checkContent_iff⟩
  · intro hsevered
    rw [EchoClient.verify_iff]
    have hexact := hsound.exact hsevered
    unfold Exact at hexact
    rw [hread] at hexact
    cases hexact with
    | inl hfull =>
      have hlen := hfull.2.length_le
      constructor
      · intro heq
        rw [heq] at hfull
        omega
      · intro heq
        rw [heq] at hlen
        omega
    | inr hend => rw [hend.1]

/-- The other end answers with one byte less. -/
def shortAnswer : List DialAct :=
  [.client (.write [5, 6] 2), .shutdown true, .peer (.read [5, 6]), .peer (.write [5] 1), .peerDrop,
    .client (.read [5]), .client .readEof]

theorem shortAnswer_checks : ∃ c v,
    run (step [5, 6]) (new 4 (by decide) [5, 6]) shortAnswer = some c ∧
      c.client.outcome [5, 6] = some (.ok v) ∧
        ¬ (v.checkSize = true ∧ v.checkContent = true) := by
  obtain ⟨c, hc, hsevered, hanswered, hv⟩ := Run.exists_of_any (step [5, 6])
    (new 4 (by decide) [5, 6]) shortAnswer (fun c => c.stream.severed = false ∧
      c.answered = [5] ∧ c.client.outcome [5, 6] = some (.ok ⟨2, 1, false, false⟩)) (by decide)
  refine ⟨c, _, hc, hv, ?_⟩
  rw [(checks_iff hc hv).2 hsevered, hanswered]
  decide

end EchoDial

end EnclaveNetworkGateway
