import EnclaveNetworkGateway.TunnelCalm
import EnclaveNetworkGateway.TunnelWork

/-!
# Delivery through the tunnel

Where the tunnel has come to rest without a disturbance, nothing is under way in it any
more: every packet that was captured has been written to the other TUN device.
-/
namespace EnclaveNetworkGateway

open FrameCodec

/-! ## Links at rest -/

/-- In front of an empty pipe that an application waits at, the whole direction is empty. -/
theorem Bridge.Resting.drained {b : Bridge} {s : Side} (h : b.Resting) (hb : b.Wf)
    (hempty : (b.ends.get s).inp.buffer.items = []) (hopen : (b.ends.get s).inp.isClosed = false) :
    (b.ends.get s).reader.conduit = 1 ∧ (b.sock.get s.other).items = [] ∧
      (b.ends.get s.other).send = 1 := by
  rcases h.reader_cases (s := s) with ⟨buf, hr, hsock, hshut⟩ | ⟨buf, _, _, hroom⟩ | hended
  · refine ⟨by rw [hr, ReaderTask.conduit], hsock, ?_⟩
    rcases h.writer_cases hb (s := s.other) with ⟨buf', hw, hout, hopen'⟩ | ⟨_, _, hroom, _⟩ | hw
    · rw [Endpoint.send, hw, WriterTask.conduit, DuplexPipe.conduit_of_open hopen', hout,
        Conduit.flow_nil, one_mul]
    · exact absurd hsock (Socket.ne_nil_of_room_eq_zero hroom)
    · cases hw' : (b.ends.get s.other).writer <;>
        simp [hw', WriterTask.hasEnded, WriterTask.hasShut] at hw hshut
  · exact absurd hempty (Fifo.ne_nil_of_room_eq_zero (by decide) hroom)
  · simp [(hb s).inp_closed.mpr (.inr hended)] at hopen

/-- A link at rest holds nothing where a process waits for bytes. -/
theorem Link.ReadPending.conduit {l : Link} {s : Side} (h : l.ReadPending s) (hrest : l.Resting)
    (hl : l.Wf) (hs : l.gone s = false) : l.conduit s.other = 1 := by
  cases l with
  | plain c =>
    obtain ⟨hempty, hcut, hgone⟩ := h.connection hs
    have hsgone : c.gone.get s = false := hs
    simp only [Link.conduit, Connection.conduit, Connection.ended, Side.other_other, hsgone,
      hempty, hcut, hgone]
    rfl
  | tls b =>
    have happ : (b.ends.get s).app ≠ .dropped := by simpa [gone] using hs
    obtain ⟨hempty, hopen⟩ := h.pipe happ
    obtain ⟨hreader, hsock, hsend⟩ := hrest.bridge.drained hl hempty hopen
    simp [Link.conduit, Bridge.conduit, Bridge.Endpoint.recv, happ, hempty, hreader, hsock, hsend]

/-! ## The decoder -/

namespace FrameCodec.FramedRead

/-- A reader that waits for bytes has no frame at hand. -/
def Drained (r : FramedRead) : Prop := r.isReadable = false → Frameless r.decoder.pending

variable {r : FramedRead}

theorem poll_drained (h : r.Drained) (hnone : r.poll.1 ≠ .ready none) : r.poll.2.Drained := by
  have hpass := pass_of_poll r
  generalize r.poll = x at hpass hnone
  cases hpass with
  | idle => exact h
  | errored | drained => exact absurd rfl hnone
  | packet _ hr | refused _ hr | leftover _ hr => exact fun hread => by simp [hr] at hread
  | more _ _ _ hd => exact fun _ => Decoder.decode_none hd ▸ Decoder.decode_none_frameless hd

theorem afterRead_drained {bs : Bytes} (hnone : (r.afterRead bs).1 ≠ .ready none) :
    (r.afterRead bs).2.Drained := by
  intro hread
  simp only [afterRead] at hread hnone
  split_ifs at hread hnone
  simp at hnone

end FrameCodec.FramedRead

namespace Enta

variable {codec : TunCodec} {e e' : Enta} {a : EntaAct}

def Drained (e : Enta) : Prop := ∀ w, e.withEntg = .running w → w.fromEntg.reader.Drained

theorem onPolled_drained {t : ToEntg} {x : Polled × FramedRead}
    (hx : x.1 ≠ .ready none → x.2.Drained) : (e.onPolled t x).Drained := by
  rcases x with ⟨_ | _ | _ | p, r⟩
  · rintro w ⟨⟩
    exact hx (by simp)
  · intro w hw
    simp [onPolled, leaveEntg] at hw
  · rintro w ⟨⟩
    exact hx (by simp)
  · rintro w ⟨⟩
    exact hx (by simp)

theorem Move.drained (h : Move codec e a e') (he : e.Drained) : e'.Drained := by
  cases h with
  | pollEntg hw => exact onPolled_drained (FramedRead.poll_drained (he _ hw))
  | readSome | readEof => exact onPolled_drained FramedRead.afterRead_drained
  | readErr hw => exact onPolled_drained fun _ hread => he _ hw hread
  | recvOutbound hw | sendSome hw | sendLast hw | putInbound hw =>
    have hdrained := he _ hw
    rintro w ⟨⟩
    exact hdrained
  | refused | outboundEnd | sendErr | capturersClosed =>
    intro w hw
    simp [leaveEntg] at hw
  | panic | ctrlC =>
    intro w hw
    simp only [stop, Task.cancel] at hw
    split at hw <;> simp at hw
  | recvInbound | inboundEnd | tunWrite | tunRefused | tunWriteErr | capture | tunReadErr |
    pollTun | tunEnd | putOutbound | outboundClosed | joined => exact he

/-! ## ENTA at rest -/

namespace Waiting

variable {l : Link} {s : Side}

/-- `to_entg` waits for a packet, and there is none. -/
theorem toEntg (h : e.Waiting codec l s) (hm : e.main = .run) (he : e.Wf) {w : WithEntg}
    (hw : e.withEntg = .running w) (hfree : ∀ buf, buf ≠ [] → ¬ l.WritePending s buf) :
    w.toEntg = .recv ∧ e.outbound.items = [] := by
  obtain ⟨t, f⟩ := w
  cases t with
  | recv =>
    refine ⟨rfl, ?_⟩
    have hrecv := h.eq_none (a := .recvOutbound) rfl rfl
    simp only [step, hm, ne_eq, not_true_eq_false, if_false, recvOutbound, hw] at hrecv
    split at hrecv
    · split at hrecv <;> simp at hrecv
    · assumption
  | send p buf =>
    have hblocked : ∀ op, e.sendEntg op ≠ none → l.io s op = none := by
      intro op hop
      obtain ⟨e', he'⟩ := Option.ne_none_iff_exists'.mp hop
      obtain ⟨op', hop', hio⟩ := h (.sendEntg op) e' rfl (by simpa [step, hm] using he')
      exact Option.some.inj hop' ▸ hio
    refine absurd ⟨fun n hn hle => hblocked _ ?_, hblocked _ ?_⟩ (hfree buf (he.sending f p buf hw))
    · simp only [sendEntg, hw, hn, hle, and_self, if_true]
      split <;> simp
    · simp [sendEntg, hw]

/-- `from_tun` waits for a packet. -/
theorem fromTun (h : e.Waiting codec l s) (hm : e.main = .run) (hq : e.outbound.items = [])
    {v : WithTun} (hv : e.withTun = .running v) : v.fromTun = .next := by
  obtain ⟨t, f⟩ := v
  cases f with
  | next => rfl
  | failed =>
    have hpoll := h.eq_none (a := .pollTun) rfl rfl
    simp [step, hm, pollTun, hv] at hpoll
  | put p =>
    have hput := h.eq_none (a := .putOutbound) rfl rfl
    simp only [step, hm, ne_eq, not_true_eq_false, if_false, putOutbound, hv] at hput
    rw [if_pos (h.withEntg hm), Option.map_eq_none_iff, Fifo.append_eq_none,
      List.length_singleton] at hput
    have hroom : e.outbound.room = 0 := by omega
    exact absurd hq (Fifo.ne_nil_of_room_eq_zero (by decide) hroom)

/-- `from_entg` has passed on its packet, and its reader has to read. -/
theorem fromEntg (h : e.Waiting codec l s) (hm : e.main = .run) (hq : e.inbound.items = [])
    (ht : e.withTun.isRunning = true) {w : WithEntg} (hw : e.withEntg = .running w) :
    w.fromEntg.held = [] ∧ w.fromEntg.reader.isReadable = false := by
  obtain ⟨t, f⟩ := w
  cases f with
  | next r =>
    refine ⟨rfl, ?_⟩
    by_contra hr
    have hpoll := h.eq_none (a := .pollEntg) rfl rfl
    have hread : r.isReadable = true := by simpa [FromEntg.reader] using hr
    simp [step, hm, pollEntg, hw, FramedRead.busy, hread] at hpoll
  | put r p =>
    have hput := h.eq_none (a := .putInbound) rfl rfl
    simp only [step, hm, ne_eq, not_true_eq_false, if_false, putInbound, hw] at hput
    rw [if_pos ht, Option.map_eq_none_iff, Fifo.append_eq_none, List.length_singleton] at hput
    have hroom : e.inbound.room = 0 := by omega
    exact absurd hq (Fifo.ne_nil_of_room_eq_zero (by decide) hroom)

end Waiting

end Enta

/-! ## The tunnel at rest -/

namespace Tunnel

variable {codec : TunCodec} {t : Tunnel} {s d : Side}

/-- At both ends of every link a process waits for bytes. -/
theorem Resting.all_read (h : t.Resting codec) (ht : t.Wf) (ho : t.Owned) (hi : t.Intact) :
    (∀ s e, (t.outer.get s).ReadPending e) ∧ ∀ e, t.middle.ReadPending e := by
  have henta : ∀ s, (t.outer.get s).gone s = false ∧ (t.outer.get s).ReadPending s := by
    intro s
    have hgone : (t.outer.get s).gone s = false := by rw [ho.enta, hi.withEntg, Bool.not_true]
    exact ⟨hgone, (h.enta_reads ho hgone).2⟩
  have hj : ∀ s, ¬ t.Jammed s := by
    rintro s ⟨hret, hbuf⟩
    rcases h.copy s s.other hret with ⟨hnil, _⟩ | ⟨hne, hwrite⟩
    · exact hbuf s.other hnil
    · rw [sink, if_neg (Side.other_ne s)] at hwrite
      obtain ⟨hgone, hread⟩ := henta s
      exact (hread.neighbour (h.outer s) (ht.outer s) hgone).2 _ hne hwrite
  refine ⟨fun s => ?_, fun e => h.entg_reads_middle ht ho (hi.entg e) (hj e)⟩
  rw [Side.forall_iff s]
  exact ⟨(henta s).2, h.entg_reads_outer ht ho (hi.entg s) hj⟩

theorem Intact.gone (hi : t.Intact) (ho : t.Owned) :
    (∀ s e, (t.outer.get s).gone e = false) ∧ ∀ e, t.middle.gone e = false := by
  refine ⟨fun s => ?_, fun e => ?_⟩
  · rw [Side.forall_iff s, ho.enta, ho.outer, hi.withEntg, hi.entg]
    exact ⟨rfl, rfl⟩
  · rw [ho.middle, hi.entg]
    rfl

/-- No link and no gateway holds a byte. -/
theorem Resting.gateways_empty (h : t.Resting codec) (ht : t.Wf) (ho : t.Owned) (hd : t.Told d)
    (hi : t.Intact) : (∀ s, (t.outer.get s).conduit d = 1) ∧ t.middle.conduit d = 1 ∧
      ∀ s, (t.entg.get s).conduit d = 1 := by
  obtain ⟨hout, hmiddle⟩ := h.all_read ht ho hi
  obtain ⟨hgo, hgm⟩ := hi.gone ho
  refine ⟨fun s => ?_, ?_, fun s => ?_⟩
  · simpa using (hout s d.other).conduit (h.outer s) (ht.outer s) (hgo s d.other)
  · simpa using (hmiddle d.other).conduit h.middle ht.middle (hgm d.other)
  · have hbuf : ((t.entg.get s).loops.get d).buf = [] := by
      rcases h.copy s d (hi.entg s) with ⟨hnil, _⟩ | ⟨hne, hwrite⟩
      · exact hnil
      · exfalso
        simp only [sink] at hwrite
        split at hwrite
        · have hfree := ((hmiddle d.other).neighbour h.middle ht.middle (hgm d.other)).2
          rw [Side.other_other] at hfree
          exact hfree _ hne hwrite
        · have hfree := ((hout s d.other).neighbour (h.outer s) (ht.outer s) (hgo s d.other)).2
          rw [Side.other_other] at hfree
          exact hfree _ hne hwrite
    have hdone : ((t.entg.get s).loops.get d).readDone = false := by
      by_contra hdone
      have hend := hd.entg s (hi.entg s) (by simpa using hdone)
      simp [hi.source_ended ht] at hend
    rw [Entg.conduit, if_pos (hi.entg s), CopyLoop.conduit, hbuf, hdone]
    rfl

/-- The sending agent has passed on all that it captured. -/
theorem Resting.leaving_empty (h : t.Resting codec) (ht : t.Wf) (ho : t.Owned) (hi : t.Intact)
    (s : Side) : (t.enta.get s).encoding = 1 ∧ (t.enta.get s).leaving = [] := by
  obtain ⟨hout, _⟩ := h.all_read ht ho hi
  obtain ⟨hgo, _⟩ := hi.gone ho
  have hm := (h.enta_reads ho (hgo s s)).1
  have hfree := ((hout s s.other).neighbour (h.outer s) (ht.outer s) (hgo s s.other)).2
  rw [Side.other_other] at hfree
  cases hw : (t.enta.get s).withEntg with
  | returned x => simpa [hw, Task.isRunning] using hi.withEntg s
  | running w =>
    cases hv : (t.enta.get s).withTun with
    | returned x => simpa [hv, Task.isRunning] using hi.withTun s
    | running v =>
      obtain ⟨hto, hq⟩ := (h.waiting s).toEntg hm (ht.enta s) hw hfree
      have hfrom := (h.waiting s).fromTun hm hq hv
      exact ⟨by rw [Enta.encoding, hw]; simp [hto, ToEntg.conduit],
        by simp [Enta.leaving, hq, hv, hfrom, FromTun.held]⟩

/-- The receiving agent has passed on every packet and waits for the rest of a frame. -/
theorem Resting.arriving_empty (h : t.Resting codec) (ho : t.Owned) (hi : t.Intact) {s : Side}
    (hl : (t.enta.get s).Ledger) {w : WithEntg} (hw : (t.enta.get s).withEntg = .running w) :
    (t.enta.get s).arriving = [] ∧ (t.enta.get s).log.handed = (t.enta.get s).log.written ∧
      w.fromEntg.reader.isReadable = false := by
  obtain ⟨hgo, _⟩ := hi.gone ho
  have hm := (h.enta_reads ho (hgo s s)).1
  cases hv : (t.enta.get s).withTun with
  | returned x => simpa [hv, Task.isRunning] using hi.withTun s
  | running v =>
    obtain ⟨hq, _⟩ := (h.waiting s).toTun hm hv
    obtain ⟨hheld, hread⟩ := (h.waiting s).fromEntg hm hq (hi.withTun s) hw
    have hhanded := hl.handed_eq v hv
    rw [(h.waiting s).toTun_eq hm hv, ToTun.held, List.append_nil] at hhanded
    exact ⟨by simp [Enta.arriving, hq, hw, hheld], hhanded, hread⟩

/-- What was captured on one side has been written on the other one. -/
theorem Resting.written_eq (h : t.Resting codec) (ht : t.Wf) (ho : t.Owned) (hd : t.Told d)
    (hi : t.Intact) (hcap : ∀ p ∈ (t.enta.get d).log.captured, p.length ≤ maxFrameLen)
    (hdr : (t.enta.get d.other).Drained) :
    (t.enta.get d.other).log.written = (t.enta.get d).log.captured := by
  obtain ⟨mid, hmid, hwire⟩ := hi.captured_eq ht hd hcap
  obtain ⟨houter, hmiddle, hentg⟩ := h.gateways_empty ht ho hd hi
  obtain ⟨hencoding, hleaving⟩ := h.leaving_empty ht ho hi d
  cases hw : (t.enta.get d.other).withEntg with
  | returned x => simpa [hw, Task.isRunning] using hi.withEntg d.other
  | running w =>
    obtain ⟨harriving, hhanded, hread⟩ := h.arriving_empty ho hi (ht.ledger d.other) hw
    have hended : (t.outer.get d.other).ended d = false :=
      (Link.conduit_live_of_whole (ht.outer d.other) (hi.outer d.other) d).2
    have hf : w.fromEntg.reader.fresh = true :=
      (hd.enta hcap (hi.withTun _) w hw).resolve_right (by simp [hended])
    -- all that is on the wire is what the decoder holds, and that is no frame
    have hpending : w.fromEntg.reader.decoder.pending = mid.flatMap frame := by
      have heq := congrArg Conduit.held hwire
      simpa [wire, Enta.decoding, hw, houter, hmiddle, hentg, hencoding,
        FramedRead.conduit_of_fresh hf] using heq
    have hnil : mid = [] := by
      cases mid with
      | nil => rfl
      | cons p ps =>
        have hp : p.length ≤ maxFrameLen := hcap p (by simp [hmid])
        refine absurd ?_ (hdr w hw hread p hp)
        rw [hpending, List.flatMap_cons]
        exact List.prefix_append _ _
    rw [hmid, hnil, harriving, hleaving, hhanded, List.append_nil, List.append_nil,
      List.append_nil]

theorem drained_of_run {outer : Pair Link} {middle : Link} {as : List TunnelAct}
    (hrun : run (step codec) (new outer middle) as = some t) (s : Side) :
    (t.enta.get s).Drained := by
  refine Run.invariant (I := fun t => ∀ s, (t.enta.get s).Drained) (fun u a u' hu hstep s => ?_)
    (fun s => ?_) hrun s
  · rcases enta_step hstep s with heq | ⟨b, _, hmove⟩
    · exact heq ▸ hu s
    · exact hmove.drained (hu s)
  · simp only [new, Pair.get_both]
    rintro w ⟨⟩ _ p _ hp
    exact frame_ne_nil p (List.prefix_nil.mp hp)

/-- Undisturbed, the tunnel delivers everything. After any run without a disturbance, the steps
that it takes by itself come to an end within the bound, in whatever order they are taken, and
then all packets captured on each side have been written to the TUN device of the other one, in
order: none is stuck in a channel, a buffer or a half-read frame. The calls of rats-tls that move
no byte are not among these steps. -/
theorem delivers {outer : Pair Link} {middle : Link} {as : List TunnelAct} {t : Tunnel}
    (h : Start outer middle) (hcalm : ∀ a ∈ as, a.calm codec = true)
    (hrun : run (step codec) (new outer middle) as = some t) :
    (∃ bs u, (∀ b ∈ bs, b.own = true) ∧ run (step codec) t bs = some u ∧ u.Resting codec) ∧
      ∀ bs u, (∀ b ∈ bs, b.own = true) → run (step codec) t bs = some u →
        bs.length ≤ 25 * t.capturedBytes + 54 ∧
        (u.Resting codec → ∀ d,
          (u.enta.get d.other).log.written = (t.enta.get d).log.captured) := by
  refine ⟨(wf_of_run h hrun).exists_resting, fun bs u hown hbs => ?_⟩
  have hrun' : run (step codec) (new outer middle) (as ++ bs) = some u :=
    Run.run_append.mpr ⟨t, hrun, hbs⟩
  have hcap : ∀ s, (u.enta.get s).log.captured = (t.enta.get s).log.captured :=
    Run.invariant_of_forall
      (I := fun v => ∀ s, (v.enta.get s).log.captured = (t.enta.get s).log.captured)
      (fun v a v' hv ha hstep s => (captured_of_own ha hstep s).trans (hv s)) hown
      (fun _ => rfl) hbs
  constructor
  · have hle := countP_own_le h hrun'
    have hall : bs.countP TunnelAct.own = bs.length := List.countP_eq_length.mpr hown
    rw [List.countP_append, hall] at hle
    simp only [capturedBytes, hcap] at hle ⊢
    omega
  · intro hrest d
    have hall : ∀ a ∈ as ++ bs, a.calm codec = true := by
      intro a ha
      rcases List.mem_append.mp ha with ha | ha
      · exact hcalm a ha
      · exact TunnelAct.calm_of_own codec (hown a ha)
    have hc := calm_of_run h hall hrun'
    rw [← hcap d]
    exact hrest.written_eq (wf_of_run h hrun') (owned_of_run h hrun') (told_of_run h hrun' d)
      hc.intact (hc.captured_le d) (drained_of_run hrun' d.other)

theorem crossingRun_delivers :
    ∃ t, run (step ipCodec) (new (.both smallLink) smallLink) crossingRun = some t ∧
      (∃ bs u, (∀ b ∈ bs, b.own = true) ∧ run (step ipCodec) t bs = some u ∧ u.Resting ipCodec) ∧
      ∀ bs u, (∀ b ∈ bs, b.own = true) → run (step ipCodec) t bs = some u →
        bs.length ≤ 25 * t.capturedBytes + 54 ∧
        (u.Resting ipCodec → ∀ d,
          (u.enta.get d.other).log.written = (t.enta.get d).log.captured) := by
  have hfresh : smallLink.Fresh := ⟨8, by decide, .inl rfl⟩
  obtain ⟨t, ht, _⟩ := Run.exists_of_any (step ipCodec) (new (.both smallLink) smallLink)
    crossingRun (fun _ => True) (by decide +kernel)
  have hstart : Start (.both smallLink) smallLink := ⟨fun s => by simpa using hfresh, hfresh⟩
  exact ⟨t, ht, delivers hstart (by decide) ht⟩

end Tunnel

end EnclaveNetworkGateway
