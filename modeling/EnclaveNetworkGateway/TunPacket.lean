import EnclaveNetworkGateway.Reception

/-!
# The packets that reach `TunPacket::new`

`to_tun` calls `TunPacket::new` on every packet of the inbound channel, and the call looks
at the first byte. Whether it finds one is decided by the stream from the ENTG.
-/
namespace EnclaveNetworkGateway

open FrameCodec

namespace Enta

variable {codec : TunCodec} {e : Enta} {a : EntaAct} {p : ENPacket}

/-- The packet on which a step calls `TunPacket::new`. -/
def newTunPacket (e : Enta) (a : EntaAct) : Option ENPacket :=
  match a, e.main, e.withTun with
  | .recvInbound, .run, .running ⟨.recv, _⟩ => e.inbound.items.head?
  | _, _, _ => none

theorem newTunPacket_eq_some (h : e.newTunPacket a = some p) :
    a = .recvInbound ∧ e.main = .run ∧ (∃ f, e.withTun = .running ⟨.recv, f⟩) ∧
      ∃ ps, e.inbound.items = p :: ps := by
  unfold newTunPacket at h
  split at h
  · rename_i f hm ht
    exact ⟨rfl, hm, ⟨f, ht⟩, List.head?_eq_some_iff.mp h⟩
  · simp at h

/-- Without a first byte the call panics, and `main` is unwound with everything in it. -/
theorem panics_of_newTunPacket (h : e.newTunPacket a = some []) :
    e.step codec a = some (e.stop .panicked) := by
  obtain ⟨rfl, hm, ⟨f, ht⟩, ps, hps⟩ := newTunPacket_eq_some h
  simp [step, recvInbound, hm, ht, hps]

/-- Nothing else unwinds `main`. -/
theorem newTunPacket_of_panicked {e' : Enta} (h : e.step codec a = some e')
    (hm : e'.main = .panicked) : e.newTunPacket a = some [] := by
  obtain ⟨hrun, hmove⟩ := move_of_step h
  cases hmove with
  | panic ht hq => simp [newTunPacket, hrun, ht, hq]
  | joined | ctrlC => simp [stop] at hm
  | pollEntg | readSome | readEof | readErr =>
    rw [(onPolled_frame e _ _).1, hrun] at hm
    simp at hm
  | _ =>
    have hkeep := hrun.symm.trans hm
    simp at hkeep

/-- The call is made on the packet that `from_entg` has put into the channel behind those that
are written to the device. -/
theorem written_concat_of_newTunPacket (he : e.Ledger) (h : e.newTunPacket a = some p) :
    e.log.written ++ [p] <+: e.log.received := by
  obtain ⟨rfl, hm, ⟨f, ht⟩, ps, hps⟩ := newTunPacket_eq_some h
  have hhanded : e.log.handed = e.log.written := by simpa [ToTun.held] using he.handed_eq _ ht
  have hreceived : e.log.received = e.log.written ++ p :: ps := by
    rw [he.received_eq _ ht, hhanded, hps]
  exact ⟨ps, by rw [hreceived, List.append_assoc, List.singleton_append]⟩

/-- What is written to the device is what its codec takes. -/
theorem Move.written_taken {e' : Enta} (h : Move codec e a e')
    (he : ∀ p ∈ e.log.written, codec p = true) : ∀ p ∈ e'.log.written, codec p = true := by
  cases h with
  | tunWrite ht hp =>
    intro q hq
    rcases List.mem_append.mp hq with hq | hq
    · exact he q hq
    · rw [List.mem_singleton.mp hq]
      exact hp
  | pollEntg | readSome | readEof | readErr =>
    rw [(onPolled_frame e _ _).2.2]
    exact he
  | _ => exact he

theorem written_taken_of_run {as : List EntaAct} (hrun : run (step codec) new as = some e) :
    ∀ p ∈ e.log.written, codec p = true :=
  Run.invariant (I := fun e => ∀ p ∈ e.log.written, codec p = true)
    (fun _ _ _ hs hstep => (move_of_step hstep).2.written_taken hs) (by simp [new]) hrun

end Enta

namespace Reception

variable {codec : TunCodec}

/-- Both functions wait for packets, and the reader has the bytes `x` at hand. -/
def feeding (x : Bytes) (inbound : Fifo ENPacket channelSize) (log : PacketLog) : Reception :=
  ⟨{ Enta.new with
      withEntg := .running ⟨.recv, .next ⟨false, true, false, ⟨.head, x⟩⟩⟩
      inbound := inbound
      log := log }, []⟩

theorem run_read {bs : Bytes} (hne : bs ≠ []) :
    run (step codec) (start bs) [.readEntg (.read bs)] = some (feeding bs .empty Enta.new.log) := by
  simp [step, start, feeding, Enta.step, Enta.readEntg, Enta.new, FramedRead.new, FramedRead.busy,
    FramedRead.afterRead, Enta.onPolled, hne]

/-- The channel that holds one packet. -/
def oneInbound (p : ENPacket) : Fifo ENPacket channelSize := ⟨[p], by simp [channelSize]⟩

/-- The frame at the front is decoded and its packet put into the empty channel. -/
theorem run_decode (codec : TunCodec) {p : ENPacket} (hp : p.length ≤ maxFrameLen) (x : Bytes)
    (log : PacketLog) :
    run (step codec) (feeding (frame p ++ x) .empty log) [.pollEntg, .putInbound] =
      some (feeding x (oneInbound p) { log with received := log.received ++ [p] }) := by
  have happend : (Fifo.empty : Fifo ENPacket channelSize).append [p] = some (oneInbound p) :=
    Fifo.append_eq_some.mpr rfl
  have hpoll := FramedRead.poll_frame hp x
  simp only [Run.run_cons, step, feeding, Enta.step, Enta.pollEntg, Enta.putInbound, Enta.new,
    FramedRead.busy, hpoll]
  simp [Enta.onPolled, Task.isRunning, happend]

/-- A packet with a first byte gets through to the device if its codec takes it. -/
theorem run_write {p : ENPacket} (hp : p ≠ []) (hc : codec p = true) (x : Bytes) (log : PacketLog) :
    ∃ log', run (step codec) (feeding x (oneInbound p) log) [.recvInbound, .tunWrite] =
      some (feeding x .empty log') := by
  refine ⟨{ log with handed := log.handed ++ [p], written := log.written ++ [p] }, ?_⟩
  have hdrop : (oneInbound p).drop 1 = .empty := Fifo.ext rfl
  cases p with
  | nil => exact absurd rfl hp
  | cons b bs =>
    simp [Run.run_cons, step, feeding, Enta.step, Enta.recvInbound, Enta.tunWrite, Enta.new,
      oneInbound, hc] at hdrop ⊢
    simp [hdrop]

/-- ENTA can take in any such packets one after the other. -/
theorem exists_run_through {qs : List ENPacket}
    (hq : ∀ q ∈ qs, q ≠ [] ∧ codec q = true ∧ q.length ≤ maxFrameLen) (x : Bytes)
    (log : PacketLog) :
    ∃ as log', run (step codec) (feeding (qs.flatMap frame ++ x) .empty log) as =
      some (feeding x .empty log') := by
  induction qs generalizing log with
  | nil => exact ⟨[], log, rfl⟩
  | cons q qs ih =>
    obtain ⟨hne, hc, hlen⟩ := hq q (by simp)
    rw [List.flatMap_cons, List.append_assoc]
    have hdecode := run_decode codec hlen (qs.flatMap frame ++ x) log
    obtain ⟨log₁, hwrite⟩ := run_write hne hc (qs.flatMap frame ++ x)
      { log with received := log.received ++ [q] }
    obtain ⟨as, log₂, hrest⟩ := ih (fun p hp => hq p (by simp [hp])) log₁
    exact ⟨_, log₂, Run.run_append.mpr ⟨_, hdecode, Run.run_append.mpr ⟨_, hwrite, hrest⟩⟩⟩

/-- A stream with an empty packet behind packets that the codec takes can bring it to
`TunPacket::new`. -/
theorem exists_empty_newTunPacket {bs : Bytes} {ps qs : List ENPacket} (hps : Payloads bs ps)
    (hpre : qs ++ [[]] <+: ps) (htaken : ∀ q ∈ qs, codec q = true) :
    ∃ as s, run (step codec) (start bs) as = some s ∧
      s.enta.newTunPacket .recvInbound = some [] := by
  obtain ⟨x, rfl⟩ := hps.isPrefix
  obtain ⟨rest, rfl⟩ := hpre
  -- `ws` is in front of the first empty packet
  have hmem : [] ∈ qs ++ [[]] := by simp
  obtain ⟨ws, rs, hsplit, hws⟩ := List.eq_append_cons_of_mem hmem
  have hstream : (qs ++ [[]] ++ rest).flatMap frame ++ x =
      ws.flatMap frame ++ (frame [] ++ ((rs ++ rest).flatMap frame ++ x)) := by
    rw [hsplit]
    simp
  have hne : ws.flatMap frame ++ (frame [] ++ ((rs ++ rest).flatMap frame ++ x)) ≠ [] := by
    simp [frame_ne_nil]
  have hq : ∀ q ∈ ws, q ≠ [] ∧ codec q = true ∧ q.length ≤ maxFrameLen := by
    intro q hmem
    have hnil : q ≠ [] := fun h => hws (h ▸ hmem)
    have hmem' : q ∈ qs ++ [[]] := hsplit ▸ List.mem_append_left _ hmem
    refine ⟨hnil, htaken q ?_, hps.ok_of_mem q (List.mem_append_left _ hmem')⟩
    simpa [hnil] using hmem'
  rw [hstream]
  obtain ⟨as, log, hthrough⟩ := exists_run_through hq
    (frame [] ++ ((rs ++ rest).flatMap frame ++ x)) Enta.new.log
  have hlast := run_decode codec (p := []) (Nat.zero_le _) ((rs ++ rest).flatMap frame ++ x) log
  exact ⟨_, _, Run.run_append.mpr ⟨_, run_read hne, Run.run_append.mpr ⟨_, hthrough, hlast⟩⟩, rfl⟩

/-- No step calls `TunPacket::new` on an empty packet, in no run on the stream, exactly if
each empty one among its well-formed frames comes behind one that the codec refuses. -/
theorem newTunPacket_ne_nil_iff (codec : TunCodec) (bs : Bytes) :
    (∀ as s a p, run (step codec) (start bs) as = some s → s.enta.newTunPacket a = some p →
      p ≠ []) ↔
      ∀ ps qs, Payloads bs ps → qs ++ [[]] <+: ps → ∃ q ∈ qs, codec q = false := by
  constructor
  · intro hsafe ps qs hps hpre
    by_contra hnone
    have htaken : ∀ q ∈ qs, codec q = true := by simpa using hnone
    obtain ⟨as, s, hrun, hnew⟩ := exists_empty_newTunPacket hps hpre htaken
    exact hsafe as s _ [] hrun hnew rfl
  · rintro hframes as s a p hrun hnew rfl
    obtain ⟨ps, hps⟩ := LongestWords.exists_of_prefixCode frame_prefixCode bs
    have hs := (sound_of_run hrun).receives
    have henta := enta_run hrun
    -- in front of it are the packets that are written, and the codec has taken those
    have hlast := Enta.written_concat_of_newTunPacket (Enta.ledger_of_run henta) hnew
    have hpre := hlast.trans (hps.longest _ hs.received_le hs.delivered)
    obtain ⟨q, hq, hrefused⟩ := hframes ps s.enta.log.written hps hpre
    simp [Enta.written_taken_of_run henta q hq] at hrefused

/-- The frame of the empty packet: four bytes from the ENTG unwind `main`. -/
theorem emptyFrame_panics : ¬ ∀ (bs : Bytes) as s a p,
    run (step ipCodec) (start bs) as = some s → s.enta.newTunPacket a = some p → p ≠ [] := by
  intro h
  obtain ⟨s, hrun, hnew⟩ := Run.exists_of_any (step ipCodec) (start [0, 0, 0, 0])
    [.readEntg (.read [0, 0, 0, 0]), .pollEntg, .putInbound]
    (fun s => s.enta.newTunPacket .recvInbound = some []) (by decide +kernel)
  exact h _ _ s _ [] hrun hnew rfl

end Reception

end EnclaveNetworkGateway
