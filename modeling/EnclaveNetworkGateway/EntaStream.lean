import EnclaveNetworkGateway.EntaMove

/-!
# The two streams through ENTA

What ENTA holds on its way from the TUN device to the ENTG and back, as conduits.
A step hands on what it takes over; a loop that stops cuts its stream.
-/
namespace EnclaveNetworkGateway

open FrameCodec

namespace FrameCodec.FramedRead

/-- What the outcome of a pass still stands for. -/
def outcome : Polled × FramedRead → Conduit UInt8
  | (.again, r) => r.conduit
  | (.ready (some (.ok p)), r) => packet p * r.conduit
  | (.ready (some (.error _)), r) => r.conduit
  | (.ready none, _) => .cut []

/-- The stream has ended or can be polled again, and a packet that the pass yields
is within the limit. -/
def Sound : Polled × FramedRead → Prop
  | (.again, r) => r.Polling
  | (.ready (some (.ok p)), r) => p.length ≤ maxFrameLen ∧ r.Polling
  | (.ready (some (.error _)), r) => r.Polling
  | (.ready none, _) => True

theorem poll_outcome {r : FramedRead} (hp : r.Polling) :
    outcome r.poll ≤ r.conduit ∧ Sound r.poll := by
  cases hr : r.poll with
  | mk x r' =>
    cases x with
    | again =>
      obtain ⟨hc, hpoll, _⟩ := poll_again hr
      exact ⟨hc.le, hpoll hp⟩
    | ready item =>
      match item with
      | none => exact ⟨Conduit.cut_nil_le _, trivial⟩
      | some (.ok p) =>
        obtain ⟨hlen, hc, hpoll, _⟩ := poll_packet hr
        rw [← packet_of_le hlen] at hc
        exact ⟨hc.le, hlen, hpoll⟩
      | some (.error err) =>
        obtain ⟨hc, hpoll, _⟩ := poll_error hr
        exact ⟨by simp [outcome, hc], hpoll⟩

theorem afterRead_outcome {r : FramedRead} {bs : Bytes} (hne : bs ≠ []) (hp : r.Polling)
    (hb : r.busy = false) :
    outcome (r.afterRead bs) = r.conduit * .flow bs ∧ Sound (r.afterRead bs) := by
  obtain ⟨ha, hc, hpoll, _⟩ := afterRead_chunk hne hp hb
  rw [show r.afterRead bs = (.again, (r.afterRead bs).2) from Prod.ext ha rfl]
  exact ⟨hc, hpoll⟩

theorem afterEof_outcome {r : FramedRead} (hp : r.Polling) (hb : r.busy = false) :
    outcome (r.afterRead []) ≤ r.conduit ∧ Sound (r.afterRead []) := by
  obtain ⟨ha, hc, hpoll⟩ := afterRead_eof hp hb
  rw [show r.afterRead [] = (.again, (r.afterRead []).2) from Prod.ext ha rfl]
  exact ⟨hc, hpoll⟩

theorem failRead_outcome (r : FramedRead) :
    outcome r.failRead ≤ r.conduit ∧ Sound r.failRead := by
  refine ⟨?_, failRead_polling r⟩
  show r.failRead.2.conduit ≤ r.conduit
  simp

end FrameCodec.FramedRead

namespace ToEntg

def conduit : ToEntg → Conduit UInt8
  | recv => 1
  | send _ buf => .flow buf

/-- The packet that is not sent in full. -/
def held : ToEntg → List ENPacket
  | recv => []
  | send p _ => [p]

end ToEntg

namespace FromEntg

def reader : FromEntg → FramedRead
  | next r => r
  | put r _ => r

def held : FromEntg → List ENPacket
  | next _ => []
  | put _ p => [p]

def conduit (f : FromEntg) : Conduit UInt8 := packets f.held * f.reader.conduit

end FromEntg

def ToTun.held : ToTun → List ENPacket
  | recv => []
  | send p => [p]

def FromTun.held : FromTun → List ENPacket
  | next | failed => []
  | put p => [p]

namespace EntaAct

/-- The poll that the step makes on the stream to the ENTG. -/
def op : EntaAct → Option StreamOp
  | sendEntg op | readEntg op => some op
  | _ => none

/-- The bytes put into the stream to the ENTG. -/
def written : EntaAct → Bytes
  | sendEntg op => op.written
  | _ => []

/-- The bytes taken from the stream to the ENTG. -/
def taken : EntaAct → Bytes
  | readEntg op => op.taken
  | _ => []

/-- The packet that arrives from the TUN device. -/
def captured : EntaAct → List ENPacket
  | capture p => [p]
  | _ => []

end EntaAct

namespace Enta

/-- From the stream to the ENTG back to the TUN device. -/
def send (e : Enta) : Conduit UInt8 :=
  match e.withEntg with
  | .running w => w.toEntg.conduit * (packets e.outbound.items *
    match e.withTun with
    | .running v => packets v.fromTun.held
    | .returned _ => .cut [])
  | .returned _ => .cut []

/-- From the TUN device back to the stream from the ENTG. -/
def recv (e : Enta) : Conduit UInt8 :=
  match e.withTun with
  | .running _ => packets e.inbound.items *
    match e.withEntg with
    | .running w => w.fromEntg.conduit
    | .returned _ => .cut []
  | .returned _ => .cut []

/-- The packets that have left the decoder and are not handed to the TUN device. -/
def arriving (e : Enta) : List ENPacket :=
  e.inbound.items ++ match e.withEntg with
    | .running w => w.fromEntg.held
    | .returned _ => []

/-- The packets that came from the TUN device and are not in the encoder yet. -/
def leaving (e : Enta) : List ENPacket :=
  e.outbound.items ++ match e.withTun with
    | .running v => v.fromTun.held
    | .returned _ => []

/-- The bytes read from the stream that are not a packet yet. -/
def decoding (e : Enta) : Conduit UInt8 :=
  match e.withEntg with
  | .running w => w.fromEntg.reader.conduit
  | .returned _ => .cut []

/-- The bytes of the packet that is being sent. -/
def encoding (e : Enta) : Conduit UInt8 :=
  match e.withEntg with
  | .running w => w.toEntg.conduit
  | .returned _ => .cut []

theorem recv_of_running {e : Enta} (hv : e.withTun.isRunning = true)
    (hw : e.withEntg.isRunning = true) : e.recv = packets e.arriving * e.decoding := by
  cases hv' : e.withTun <;> cases hw' : e.withEntg <;> simp [hv', hw', Task.isRunning] at hv hw
  simp [recv, arriving, decoding, hv', hw', FromEntg.conduit, packets_append, mul_assoc]

theorem send_of_running {e : Enta} (hv : e.withTun.isRunning = true)
    (hw : e.withEntg.isRunning = true) : e.send = e.encoding * packets e.leaving := by
  cases hv' : e.withTun <;> cases hw' : e.withEntg <;> simp [hv', hw', Task.isRunning] at hv hw
  simp [send, leaving, encoding, hv', hw', packets_append]

/-- The decoder goes on only where something may come, what `to_entg` is sending is not
sent yet, and every packet that came off the wire fits into a frame. -/
structure Wf (e : Enta) : Prop where
  polling : ∀ w, e.withEntg = .running w → w.fromEntg.reader.Polling
  sending : ∀ f p buf, e.withEntg = .running ⟨.send p buf, f⟩ → buf ≠ []
  held_le : ∀ w, e.withEntg = .running w → ∀ p ∈ w.fromEntg.held, p.length ≤ maxFrameLen
  inbound_le : ∀ p ∈ e.inbound.items, p.length ≤ maxFrameLen
  handed_le : ∀ p ∈ e.log.handed, p.length ≤ maxFrameLen

theorem new_wf : new.Wf where
  polling w h := by
    obtain rfl := Task.running.inj h
    decide
  sending f p buf h := by simp [new] at h
  held_le w h := by
    obtain rfl := Task.running.inj h
    simp [FromEntg.held]
  inbound_le := by simp [new]
  handed_le := by simp [new]

section Leave

variable {e : Enta}

theorem Wf.leaveEntg (h : e.Wf) (x : EntgExit) : (e.leaveEntg x).Wf :=
  ⟨by simp [Enta.leaveEntg], by simp [Enta.leaveEntg], by simp [Enta.leaveEntg],
    h.inbound_le, h.handed_le⟩

theorem Wf.leaveTun (h : e.Wf) (x : TunExit) : (e.leaveTun x).Wf :=
  ⟨h.polling, h.sending, h.held_le, by simp [Enta.leaveTun], h.handed_le⟩

theorem Wf.stop (h : e.Wf) (m : MainState) : (e.stop m).Wf := by
  have hw : ∀ w, (e.stop m).withEntg ≠ .running w := by
    intro w
    simp only [Enta.stop, Task.cancel]
    split <;> simp
  exact ⟨fun w hw' => absurd hw' (hw w), fun f p buf hw' => absurd hw' (hw _),
    fun w hw' => absurd hw' (hw w), by simp [Enta.stop], h.handed_le⟩

theorem Wf.onPolled (h : e.Wf) {t : ToEntg} {r : FramedRead}
    (hw : e.withEntg = .running ⟨t, .next r⟩) {x : Polled × FramedRead}
    (hx : FramedRead.Sound x) : (e.onPolled t x).Wf := by
  have hs : ∀ f g p buf, (.running ⟨t, f⟩ : Task WithEntg EntgExit) = .running ⟨.send p buf, g⟩ →
      buf ≠ [] := by
    intro f g p buf hf
    simp only [Task.running.injEq, WithEntg.mk.injEq] at hf
    exact h.sending (.next r) p buf (by rw [hw, hf.1])
  rcases x with ⟨_ | _ | _ | p, r'⟩
  · exact ⟨by rintro w ⟨⟩; exact hx, hs _, by rintro w ⟨⟩; simp [FromEntg.held],
      h.inbound_le, h.handed_le⟩
  · exact h.leaveEntg _
  · exact ⟨by rintro w ⟨⟩; exact hx, hs _, by rintro w ⟨⟩; simp [FromEntg.held],
      h.inbound_le, h.handed_le⟩
  · exact ⟨by rintro w ⟨⟩; exact hx.2, hs _, by rintro w ⟨⟩; simpa [FromEntg.held] using hx.1,
      h.inbound_le, h.handed_le⟩

@[simp] theorem leaveEntg_send (x : EntgExit) : (e.leaveEntg x).send = .cut [] := rfl

@[simp] theorem leaveTun_recv (x : TunExit) : (e.leaveTun x).recv = .cut [] := rfl

theorem leaveEntg_recv_le (x : EntgExit) : (e.leaveEntg x).recv ≤ e.recv := by
  simp only [recv, leaveEntg]
  split
  · gcongr
    exact Conduit.cut_nil_le _
  · exact le_rfl

theorem leaveTun_send_le (x : TunExit) : (e.leaveTun x).send ≤ e.send := by
  simp only [send, leaveTun]
  split
  · gcongr
    exact Conduit.cut_nil_le _
  · exact le_rfl

@[simp] theorem stop_send (m : MainState) : (e.stop m).send = .cut [] := by
  simp only [send, stop, Task.cancel]
  cases e.withEntg <;> rfl

@[simp] theorem stop_recv (m : MainState) : (e.stop m).recv = .cut [] := by
  simp only [recv, stop, Task.cancel]
  cases e.withTun <;> rfl

/-- Passing on the outcome of a pass keeps what the outcome stands for. -/
theorem onPolled_recv_le {t : ToEntg} {r : FramedRead} (hw : e.withEntg = .running ⟨t, .next r⟩)
    {x : Polled × FramedRead} {c : Conduit UInt8} (hx : FramedRead.outcome x ≤ r.conduit * c) :
    (e.onPolled t x).recv ≤ e.recv * c := by
  have hrecv : (e.onPolled t x).recv =
      match e.withTun with
      | .running _ => packets e.inbound.items * FramedRead.outcome x
      | .returned _ => .cut [] := by
    rcases x with ⟨_ | _ | _ | p, r'⟩ <;>
      simp [Enta.onPolled, recv, Enta.leaveEntg, FramedRead.outcome, FromEntg.conduit, FromEntg.held,
        FromEntg.reader]
  rw [hrecv]
  simp only [recv, hw]
  cases e.withTun with
  | running v =>
    simp only [FromEntg.conduit, FromEntg.held, FromEntg.reader, packets_nil, one_mul, mul_assoc]
    gcongr
  | returned y => simp

theorem onPolled_send_le {t : ToEntg} {r : FramedRead} (hw : e.withEntg = .running ⟨t, .next r⟩)
    (x : Polled × FramedRead) : (e.onPolled t x).send ≤ e.send := by
  rcases x with ⟨_ | _ | _ | p, r'⟩
  · simp [Enta.onPolled, send, hw]
  · simp [Enta.onPolled]
  · simp [Enta.onPolled, send, hw]
  · simp [Enta.onPolled, send, hw]

end Leave

/-! ## What a step hands on -/

variable {codec : TunCodec} {e e' : Enta} {a : EntaAct}

theorem Move.wf (h : Move codec e a e') (he : e.Wf) : e'.Wf := by
  cases h with
  | recvOutbound hw hq hp =>
    have hpoll := he.polling _ hw
    have hheld := he.held_le _ hw
    refine ⟨by rintro w ⟨⟩; exact hpoll, ?_, by rintro w ⟨⟩; exact hheld, he.inbound_le,
      he.handed_le⟩
    rintro f p buf ⟨⟩
    exact frame_ne_nil _
  | refused | outboundEnd | sendErr | capturersClosed => exact he.leaveEntg _
  | @sendSome f p buf n hw hn =>
    have hpoll := he.polling _ hw
    have hheld := he.held_le _ hw
    refine ⟨by rintro w ⟨⟩; exact hpoll, ?_, by rintro w ⟨⟩; exact hheld, he.inbound_le,
      he.handed_le⟩
    rintro f p buf ⟨⟩
    exact List.ne_nil_of_length_pos (by simp; omega)
  | sendLast hw hn =>
    have hpoll := he.polling _ hw
    have hheld := he.held_le _ hw
    exact ⟨by rintro w ⟨⟩; exact hpoll, by simp, by rintro w ⟨⟩; exact hheld, he.inbound_le,
      he.handed_le⟩
  | pollEntg hw hb => exact he.onPolled hw (FramedRead.poll_outcome (he.polling _ hw)).2
  | readSome hw hb hne =>
    exact he.onPolled hw (FramedRead.afterRead_outcome hne (he.polling _ hw) hb).2
  | readEof hw hb => exact he.onPolled hw (FramedRead.afterEof_outcome (he.polling _ hw) hb).2
  | @readErr t r hw hb => exact he.onPolled hw (FramedRead.failRead_outcome r).2
  | @putInbound t r p q hw ht hq =>
    have hpoll := he.polling _ hw
    have hp := he.held_le _ hw p (by simp [FromEntg.held])
    refine ⟨by rintro w ⟨⟩; exact hpoll, ?_, by rintro w ⟨⟩; simp [FromEntg.held],
      ?_, he.handed_le⟩
    · rintro f p buf ⟨⟩
      exact he.sending _ p buf hw
    · intro p' hp'
      rw [hq, List.mem_append, List.mem_singleton] at hp'
      rcases hp' with hp' | rfl
      · exact he.inbound_le p' hp'
      · exact hp
  | @recvInbound f p q ht hq hp =>
    refine ⟨he.polling, he.sending, he.held_le,
      fun p' hp' => he.inbound_le p' (by rw [hq]; exact List.mem_cons_of_mem _ hp'), ?_⟩
    intro p' hp'
    rw [List.mem_append, List.mem_singleton] at hp'
    rcases hp' with hp' | rfl
    · exact he.handed_le p' hp'
    · exact he.inbound_le p' (by simp [hq])
  | panic | ctrlC => exact he.stop _
  | inboundEnd | tunRefused | tunWriteErr | pollTun | tunEnd | outboundClosed => exact he.leaveTun _
  | tunWrite | capture | tunReadErr | putOutbound | joined =>
    exact ⟨he.polling, he.sending, he.held_le, he.inbound_le, he.handed_le⟩

/-- A loop reads or writes the stream, never both. -/
theorem Move.op_bytes (h : Move codec e a e') {op : StreamOp} (hop : a.op = some op) :
    op.written = a.written ∧ op.taken = a.taken := by
  cases h <;> simp_all [EntaAct.op, EntaAct.written, EntaAct.taken] <;> subst hop <;>
    simp [StreamOp.written, StreamOp.taken]

/-- A step without a poll moves nothing. -/
theorem Move.no_bytes (h : Move codec e a e') (hop : a.op = none) :
    a.written = [] ∧ a.taken = [] := by
  cases h <;> simp_all [EntaAct.op, EntaAct.written, EntaAct.taken]

/-- What a step puts into the stream to the ENTG comes off the front of what ENTA was
sending, and what it captures goes behind everything else. -/
theorem Move.send_le (h : Move codec e a e') :
    .flow a.written * e'.send ≤ e.send * packets a.captured := by
  cases h with
  | recvOutbound hw hq hp =>
    simp [EntaAct.written, EntaAct.captured, send, hw, hq, ToEntg.conduit, packet_of_le hp,
      mul_assoc]
  | refused | outboundEnd | sendErr | capturersClosed =>
    simp [EntaAct.written, EntaAct.captured, StreamOp.written]
  | sendSome hw hn =>
    simp [EntaAct.written, EntaAct.captured, StreamOp.written, send, hw, ToEntg.conduit,
      ← mul_assoc]
  | sendLast hw hn =>
    simp [EntaAct.written, EntaAct.captured, StreamOp.written, send, hw, ToEntg.conduit, hn]
  | pollEntg hw hb =>
    simpa [EntaAct.written, EntaAct.captured] using onPolled_send_le hw _
  | readSome hw hb hne =>
    simpa [EntaAct.written, EntaAct.captured] using onPolled_send_le hw _
  | readEof hw hb => simpa [EntaAct.written, EntaAct.captured] using onPolled_send_le hw _
  | readErr hw hb => simpa [EntaAct.written, EntaAct.captured] using onPolled_send_le hw _
  | putInbound hw ht hq => simp [EntaAct.written, EntaAct.captured, send, hw]
  | recvInbound ht hq hp => simp [EntaAct.written, EntaAct.captured, send, ht]
  | panic | ctrlC => simp [EntaAct.written, EntaAct.captured]
  | inboundEnd | tunRefused | tunWriteErr | pollTun | tunEnd | outboundClosed =>
    simpa [EntaAct.written, EntaAct.captured] using leaveTun_send_le _
  | tunWrite ht => simp [EntaAct.written, EntaAct.captured, send, ht]
  | capture ht =>
    simp only [EntaAct.written, EntaAct.captured, send, ht, FromTun.held]
    cases e.withEntg with
    | running w => simp [mul_assoc]
    | returned x => simp
  | tunReadErr ht => simp [EntaAct.written, EntaAct.captured, send, ht, FromTun.held]
  | putOutbound ht hw hq =>
    simp only [EntaAct.written, EntaAct.captured, send, ht, hq, FromTun.held, packets_append]
    cases e.withEntg <;> simp
  | joined => simp [EntaAct.written, EntaAct.captured, send]

theorem Move.captured_eq (h : Move codec e a e') :
    e'.log.captured = e.log.captured ++ a.captured := by
  have hpolled : ∀ t x, (e.onPolled t x).log.captured = e.log.captured := by
    intro t x
    rw [(onPolled_frame e t x).2.2]
  cases h <;> simp [EntaAct.captured, hpolled, leaveEntg, leaveTun, stop]

/-- What a step takes from the stream from the ENTG goes behind everything that ENTA was
receiving, and what it hands to the TUN device comes off the front. -/
theorem Move.recv_le (h : Move codec e a e') (he : e.Wf) :
    packets e'.log.handed * e'.recv ≤ packets e.log.handed * e.recv * .flow a.taken := by
  have hkeep : ∀ u : Enta, u.log.handed = e.log.handed → u.recv ≤ e.recv * .flow a.taken →
      packets u.log.handed * u.recv ≤ packets e.log.handed * e.recv * .flow a.taken := by
    intro u hlog hle
    rw [hlog, mul_assoc]
    gcongr
  have hpolled : ∀ t x, (e.onPolled t x).log.handed = e.log.handed := by
    intro t x
    rw [(onPolled_frame e t x).2.2]
  cases h with
  | recvOutbound hw hq hp => exact hkeep _ rfl (by simp [EntaAct.taken, recv, hw])
  | refused | outboundEnd | sendErr | capturersClosed =>
    exact hkeep _ rfl (by simpa [EntaAct.taken, StreamOp.taken] using leaveEntg_recv_le _)
  | sendSome hw hn => exact hkeep _ rfl (by simp [EntaAct.taken, recv, hw])
  | sendLast hw hn => exact hkeep _ rfl (by simp [EntaAct.taken, recv, hw])
  | pollEntg hw hb =>
    have hle := (FramedRead.poll_outcome (he.polling _ hw)).1
    exact hkeep _ (hpolled _ _)
      (onPolled_recv_le hw (by simpa [EntaAct.taken, FromEntg.reader] using hle))
  | readSome hw hb hne =>
    have hle := (FramedRead.afterRead_outcome hne (he.polling _ hw) hb).1.le
    exact hkeep _ (hpolled _ _) (onPolled_recv_le hw hle)
  | readEof hw hb =>
    have hle := (FramedRead.afterEof_outcome (he.polling _ hw) hb).1
    exact hkeep _ (hpolled _ _)
      (onPolled_recv_le hw (by simpa [EntaAct.taken, StreamOp.taken, FromEntg.reader] using hle))
  | @readErr t r hw hb =>
    have hle := (FramedRead.failRead_outcome r).1
    exact hkeep _ (hpolled _ _)
      (onPolled_recv_le hw (by simpa [EntaAct.taken, StreamOp.taken] using hle))
  | putInbound hw ht hq =>
    refine hkeep _ rfl ?_
    simp only [EntaAct.taken, recv, hw, hq, FromEntg.conduit, FromEntg.held, FromEntg.reader]
    cases e.withTun <;> simp [packets_append, mul_assoc]
  | recvInbound ht hq hp =>
    simp [EntaAct.taken, recv, ht, hq, packets_append, mul_assoc]
  | panic ht hq => exact hkeep _ rfl (by simp)
  | ctrlC => exact hkeep _ rfl (by simp)
  | inboundEnd | tunRefused | tunWriteErr | pollTun | tunEnd | outboundClosed =>
    exact hkeep _ rfl (by simp)
  | tunWrite ht => exact hkeep _ rfl (by simp [EntaAct.taken, recv, ht])
  | capture ht => exact hkeep _ rfl (by simp [EntaAct.taken, recv, ht])
  | tunReadErr ht => exact hkeep _ rfl (by simp [EntaAct.taken, recv, ht])
  | putOutbound ht hw hq => exact hkeep _ rfl (by simp [EntaAct.taken, recv, ht])
  | joined => exact hkeep _ rfl (by simp [EntaAct.taken, recv])

/-- The decoder stays fresh unless the stream is at its end or it refuses its input. -/
theorem Move.fresh (h : Move codec e a e') (he : e.Wf) {w' : WithEntg}
    (hw' : e'.withEntg = .running w') : ∃ w, e.withEntg = .running w ∧
      (w'.fromEntg.reader.fresh = w.fromEntg.reader.fresh ∨
        a = .readEntg .readEof ∨ a = .readEntg .readErr ∨
        ∃ r err r', w.fromEntg = .next r ∧ r.poll = (.ready (some (.error err)), r')) := by
  cases h with
  | @pollEntg t r hw hb =>
    refine ⟨_, hw, ?_⟩
    cases hr : r.poll with
    | mk x r' =>
      rw [hr] at hw'
      cases x with
      | again =>
        obtain ⟨_, _, hf⟩ := FramedRead.poll_again hr
        obtain rfl := Task.running.inj hw'
        exact .inl hf
      | ready item =>
        match item with
        | none => simp [onPolled, leaveEntg] at hw'
        | some (.ok p) =>
          obtain ⟨_, _, _, hf⟩ := FramedRead.poll_packet hr
          obtain rfl := Task.running.inj hw'
          exact .inl hf
        | some (.error err) => exact .inr (.inr (.inr ⟨r, err, r', rfl, hr⟩))
  | @readSome t r bs hw hb hne =>
    refine ⟨_, hw, .inl ?_⟩
    obtain ⟨ha, _, _, hf⟩ := FramedRead.afterRead_chunk hne (he.polling _ hw) hb
    rw [show r.afterRead bs = (.again, (r.afterRead bs).2) from Prod.ext ha rfl] at hw'
    obtain rfl := Task.running.inj hw'
    exact hf
  | readEof hw hb => exact ⟨_, hw, .inr (.inl rfl)⟩
  | readErr hw hb => exact ⟨_, hw, .inr (.inr (.inl rfl))⟩
  | recvOutbound hw | sendSome hw | sendLast hw | putInbound hw =>
    obtain rfl := Task.running.inj hw'
    exact ⟨_, hw, .inl rfl⟩
  | refused | outboundEnd | sendErr | capturersClosed => simp [leaveEntg] at hw'
  | panic | ctrlC =>
    simp only [stop, Task.cancel] at hw'
    split at hw' <;> simp at hw'
  | recvInbound | inboundEnd | tunWrite | tunRefused | tunWriteErr | capture | tunReadErr |
    pollTun | tunEnd | putOutbound | outboundClosed | joined => exact ⟨w', hw', .inl rfl⟩

end Enta

end EnclaveNetworkGateway
