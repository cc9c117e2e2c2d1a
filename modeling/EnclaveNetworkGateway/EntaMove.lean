import EnclaveNetworkGateway.Enta

/-!
# The steps of ENTA

One constructor for each thing that a step of ENTA can do, with what its guards
guarantee. The invariants of ENTA are proved over these cases.
-/
namespace EnclaveNetworkGateway.Enta

open FrameCodec

/-- Everything a step can do in a state where `run` is not over. -/
inductive Move (codec : TunCodec) (e : Enta) : EntaAct → Enta → Prop where
  | recvOutbound {f : FromEntg} {p : ENPacket} {q : Fifo ENPacket channelSize}
      (hw : e.withEntg = .running ⟨.recv, f⟩) (hq : e.outbound.items = p :: q.items)
      (hp : p.length ≤ maxFrameLen) :
      Move codec e .recvOutbound { e with
        withEntg := .running ⟨.send p (frame p), f⟩
        outbound := q }
  | refused {f : FromEntg} {p : ENPacket} {ps : List ENPacket}
      (hw : e.withEntg = .running ⟨.recv, f⟩) (hq : e.outbound.items = p :: ps)
      (hp : maxFrameLen < p.length) : Move codec e .recvOutbound (e.leaveEntg .sendFailed)
  | outboundEnd {f : FromEntg} (hw : e.withEntg = .running ⟨.recv, f⟩)
      (hq : e.outbound.items = []) (ht : e.withTun.isRunning = false) :
      Move codec e .recvOutbound (e.leaveEntg .outboundClosed)
  | sendSome {f : FromEntg} {p : ENPacket} {buf : Bytes} {n : ℕ}
      (hw : e.withEntg = .running ⟨.send p buf, f⟩) (hn : n < buf.length) :
      Move codec e (.sendEntg (.write buf n)) { e with
        withEntg := .running ⟨.send p (buf.drop n), f⟩ }
  | sendLast {f : FromEntg} {p : ENPacket} {buf : Bytes} {n : ℕ}
      (hw : e.withEntg = .running ⟨.send p buf, f⟩) (hn : n = buf.length) :
      Move codec e (.sendEntg (.write buf n)) { e with
        withEntg := .running ⟨.recv, f⟩
        log := { e.log with sent := e.log.sent ++ [p] } }
  | sendErr {f : FromEntg} {p : ENPacket} {buf : Bytes}
      (hw : e.withEntg = .running ⟨.send p buf, f⟩) :
      Move codec e (.sendEntg .writeErr) (e.leaveEntg .sendFailed)
  | pollEntg {t : ToEntg} {r : FramedRead} (hw : e.withEntg = .running ⟨t, .next r⟩)
      (hb : r.busy = true) : Move codec e .pollEntg (e.onPolled t r.poll)
  | readSome {t : ToEntg} {r : FramedRead} {bs : Bytes}
      (hw : e.withEntg = .running ⟨t, .next r⟩) (hb : r.busy = false) (hne : bs ≠ []) :
      Move codec e (.readEntg (.read bs)) (e.onPolled t (r.afterRead bs))
  | readEof {t : ToEntg} {r : FramedRead} (hw : e.withEntg = .running ⟨t, .next r⟩)
      (hb : r.busy = false) : Move codec e (.readEntg .readEof) (e.onPolled t (r.afterRead []))
  | readErr {t : ToEntg} {r : FramedRead} (hw : e.withEntg = .running ⟨t, .next r⟩)
      (hb : r.busy = false) : Move codec e (.readEntg .readErr) (e.onPolled t r.failRead)
  | putInbound {t : ToEntg} {r : FramedRead} {p : ENPacket} {q : Fifo ENPacket channelSize}
      (hw : e.withEntg = .running ⟨t, .put r p⟩) (ht : e.withTun.isRunning = true)
      (hq : q.items = e.inbound.items ++ [p]) :
      Move codec e .putInbound { e with
        withEntg := .running ⟨t, .next r⟩
        inbound := q
        log := { e.log with received := e.log.received ++ [p] } }
  | capturersClosed {t : ToEntg} {r : FramedRead} {p : ENPacket}
      (hw : e.withEntg = .running ⟨t, .put r p⟩) (ht : e.withTun.isRunning = false) :
      Move codec e .putInbound (e.leaveEntg .capturersClosed)
  | recvInbound {f : FromTun} {p : ENPacket} {q : Fifo ENPacket channelSize}
      (ht : e.withTun = .running ⟨.recv, f⟩) (hq : e.inbound.items = p :: q.items) (hp : p ≠ []) :
      Move codec e .recvInbound { e with
        withTun := .running ⟨.send p, f⟩
        inbound := q
        log := { e.log with handed := e.log.handed ++ [p] } }
  | panic {f : FromTun} {ps : List ENPacket} (ht : e.withTun = .running ⟨.recv, f⟩)
      (hq : e.inbound.items = [] :: ps) : Move codec e .recvInbound (e.stop .panicked)
  | inboundEnd {f : FromTun} (ht : e.withTun = .running ⟨.recv, f⟩)
      (hq : e.inbound.items = []) (hw : e.withEntg.isRunning = false) :
      Move codec e .recvInbound (e.leaveTun .inboundClosed)
  | tunWrite {f : FromTun} {p : ENPacket} (ht : e.withTun = .running ⟨.send p, f⟩)
      (hp : codec p = true) :
      Move codec e .tunWrite { e with
        withTun := .running ⟨.recv, f⟩
        log := { e.log with written := e.log.written ++ [p] } }
  | tunRefused {f : FromTun} {p : ENPacket} (ht : e.withTun = .running ⟨.send p, f⟩)
      (hp : codec p = false) : Move codec e .tunWrite (e.leaveTun .sendFailed)
  | tunWriteErr {f : FromTun} {p : ENPacket} (ht : e.withTun = .running ⟨.send p, f⟩) :
      Move codec e .tunWriteErr (e.leaveTun .sendFailed)
  | capture {t : ToTun} {p : ENPacket} (ht : e.withTun = .running ⟨t, .next⟩) :
      Move codec e (.capture p) { e with
        withTun := .running ⟨t, .put p⟩
        log := { e.log with captured := e.log.captured ++ [p] } }
  | tunReadErr {t : ToTun} (ht : e.withTun = .running ⟨t, .next⟩) :
      Move codec e .tunReadErr { e with withTun := .running ⟨t, .failed⟩ }
  | pollTun {t : ToTun} (ht : e.withTun = .running ⟨t, .failed⟩) :
      Move codec e .pollTun (e.leaveTun .tunEnded)
  | tunEnd {t : ToTun} (ht : e.withTun = .running ⟨t, .next⟩) :
      Move codec e .tunEnd (e.leaveTun .tunEnded)
  | putOutbound {t : ToTun} {p : ENPacket} {q : Fifo ENPacket channelSize}
      (ht : e.withTun = .running ⟨t, .put p⟩) (hw : e.withEntg.isRunning = true)
      (hq : q.items = e.outbound.items ++ [p]) :
      Move codec e .putOutbound { e with
        withTun := .running ⟨t, .next⟩
        outbound := q
        log := { e.log with queued := e.log.queued ++ [p] } }
  | outboundClosed {t : ToTun} {p : ENPacket} (ht : e.withTun = .running ⟨t, .put p⟩)
      (hw : e.withEntg.isRunning = false) : Move codec e .putOutbound (e.leaveTun .outboundClosed)
  | joined (hw : e.withEntg.isRunning = false) (ht : e.withTun.isRunning = false) :
      Move codec e .joined { e with main := .cleanUp }
  | ctrlC : Move codec e .ctrlC (e.stop .cleanUp)

section Inversion

variable {codec : TunCodec} {e e' : Enta}

theorem move_of_recvOutbound (h : e.recvOutbound = some e') : Move codec e .recvOutbound e' := by
  unfold recvOutbound at h
  split at h
  · rename_i f hw
    split at h
    · rename_i p ps hq
      split at h
      · rename_i w henc
        obtain ⟨hp, rfl⟩ := encode_eq_some.mp henc
        obtain rfl := Option.some.inj h
        exact .recvOutbound hw (by simp [hq]) hp
      · rename_i henc
        obtain rfl := Option.some.inj h
        exact .refused hw hq (encode_eq_none.mp henc)
    · rename_i hq
      split_ifs at h with ht
      obtain rfl := Option.some.inj h
      exact .outboundEnd hw hq (by simpa using ht)
  · simp at h

theorem move_of_sendEntg {op : StreamOp} (h : e.sendEntg op = some e') :
    Move codec e (.sendEntg op) e' := by
  unfold sendEntg at h
  split at h
  · rename_i p buf f offer n hw
    split_ifs at h with hc hn
    · obtain rfl := Option.some.inj h
      obtain ⟨rfl, _⟩ := hc
      exact .sendSome hw hn
    · obtain rfl := Option.some.inj h
      obtain ⟨rfl, _, hle⟩ := hc
      exact .sendLast hw (by omega)
  · rename_i p buf f hw
    obtain rfl := Option.some.inj h
    exact .sendErr hw
  · simp at h

theorem move_of_pollEntg (h : e.pollEntg = some e') : Move codec e .pollEntg e' := by
  unfold pollEntg at h
  split at h
  · rename_i t r hw
    split_ifs at h with hb
    obtain rfl := Option.some.inj h
    exact .pollEntg hw hb
  · simp at h

theorem move_of_readEntg {op : StreamOp} (h : e.readEntg op = some e') :
    Move codec e (.readEntg op) e' := by
  unfold readEntg at h
  split at h
  · rename_i t r hw
    by_cases hb : r.busy = true
    · simp [hb] at h
    · rw [if_neg hb] at h
      have hb' : r.busy = false := by simpa using hb
      cases op with
      | read bs =>
        dsimp only at h
        split_ifs at h with hne
        obtain rfl := Option.some.inj h
        exact .readSome hw hb' hne
      | readEof =>
        obtain rfl := Option.some.inj h
        exact .readEof hw hb'
      | readErr =>
        obtain rfl := Option.some.inj h
        exact .readErr hw hb'
      | write offer n => simp at h
      | writeErr => simp at h
  · simp at h

theorem move_of_putInbound (h : e.putInbound = some e') : Move codec e .putInbound e' := by
  unfold putInbound at h
  split at h
  · rename_i t r p hw
    split_ifs at h with ht
    · simp only [Option.map_eq_some_iff] at h
      obtain ⟨q, hq, rfl⟩ := h
      exact .putInbound hw ht (Fifo.append_eq_some.mp hq)
    · obtain rfl := Option.some.inj h
      exact .capturersClosed hw (by simpa using ht)
  · simp at h

theorem move_of_recvInbound (h : e.recvInbound = some e') : Move codec e .recvInbound e' := by
  unfold recvInbound at h
  split at h
  · rename_i f ht
    split at h
    · rename_i ps hq
      obtain rfl := Option.some.inj h
      exact .panic ht hq
    · rename_i p ps hne hq
      obtain rfl := Option.some.inj h
      exact .recvInbound ht (by simp [hq]) hne
    · rename_i hq
      split_ifs at h with hw
      obtain rfl := Option.some.inj h
      exact .inboundEnd ht hq (by simpa using hw)
  · simp at h

theorem move_of_putOutbound (h : e.putOutbound = some e') : Move codec e .putOutbound e' := by
  unfold putOutbound at h
  split at h
  · rename_i t p ht
    split_ifs at h with hw
    · simp only [Option.map_eq_some_iff] at h
      obtain ⟨q, hq, rfl⟩ := h
      exact .putOutbound ht hw (Fifo.append_eq_some.mp hq)
    · obtain rfl := Option.some.inj h
      exact .outboundClosed ht (by simpa using hw)
  · simp at h

theorem move_of_step {a : EntaAct} (h : e.step codec a = some e') :
    e.main = .run ∧ Move codec e a e' := by
  simp only [step] at h
  by_cases hm : e.main = .run
  · refine ⟨hm, ?_⟩
    simp only [hm, ne_eq, not_true_eq_false, if_false] at h
    cases a with
    | recvOutbound => exact move_of_recvOutbound h
    | sendEntg op => exact move_of_sendEntg h
    | pollEntg => exact move_of_pollEntg h
    | readEntg op => exact move_of_readEntg h
    | putInbound => exact move_of_putInbound h
    | recvInbound => exact move_of_recvInbound h
    | tunWrite =>
      simp only [tunWrite] at h
      split at h
      · rename_i p f ht
        split_ifs at h with hp
        · obtain rfl := Option.some.inj h
          exact .tunWrite ht hp
        · obtain rfl := Option.some.inj h
          exact .tunRefused ht (by simpa using hp)
      · simp at h
    | tunWriteErr =>
      simp only [tunWriteErr] at h
      split at h
      · obtain rfl := Option.some.inj h
        exact .tunWriteErr (by assumption)
      · simp at h
    | capture p =>
      simp only [capture] at h
      split at h
      · obtain rfl := Option.some.inj h
        exact .capture (by assumption)
      · simp at h
    | tunReadErr =>
      simp only [tunReadErr] at h
      split at h
      · obtain rfl := Option.some.inj h
        exact .tunReadErr (by assumption)
      · simp at h
    | pollTun =>
      simp only [pollTun] at h
      split at h
      · obtain rfl := Option.some.inj h
        exact .pollTun (by assumption)
      · simp at h
    | tunEnd =>
      simp only [tunEnd] at h
      split at h
      · obtain rfl := Option.some.inj h
        exact .tunEnd (by assumption)
      · simp at h
    | putOutbound => exact move_of_putOutbound h
    | joined =>
      unfold joined at h
      split_ifs at h with hr
      obtain rfl := Option.some.inj h
      simp only [not_or, Bool.not_eq_true] at hr
      exact .joined hr.1 hr.2
    | ctrlC =>
      obtain rfl := Option.some.inj h
      exact .ctrlC
  · simp [hm] at h

end Inversion

/-- `from_entg` does not touch `main` and the other function, nor the log of the packets. -/
theorem onPolled_frame (e : Enta) (t : ToEntg) (x : Polled × FramedRead) :
    (e.onPolled t x).main = e.main ∧ (e.onPolled t x).withTun = e.withTun ∧
      (e.onPolled t x).log = { e.log with errors := (e.onPolled t x).log.errors } := by
  rcases x with ⟨_ | _ | _ | p, r'⟩ <;> exact ⟨rfl, rfl, rfl⟩

/-- `run` is over exactly when both functions have ended, up to the `join!`. -/
theorem Move.main {codec : TunCodec} {e e' : Enta} {a : EntaAct} (h : Move codec e a e')
    (he : e.main = .run) :
    e'.main = .run ∨ e'.withEntg.isRunning = false ∧ e'.withTun.isRunning = false := by
  cases h with
  | joined hw ht => exact .inr ⟨hw, ht⟩
  | panic | ctrlC =>
    right
    constructor
    · cases hw : e.withEntg <;> simp [stop, hw, Task.cancel, Task.isRunning]
    · cases ht : e.withTun <;> simp [stop, ht, Task.cancel, Task.isRunning]
  | pollEntg | readSome | readEof | readErr =>
    exact .inl ((onPolled_frame e _ _).1.trans he)
  | _ => exact .inl he

end EnclaveNetworkGateway.Enta
