import EnclaveNetworkGateway.TunnelShutdown

/-!
# The tunnel undisturbed

While the network cuts nothing, rats-tls reports no error, nobody stops an agent and the
TUN devices work and deliver packets that fit into a frame, nothing in the tunnel stops.
-/
namespace EnclaveNetworkGateway

open FrameCodec

/-- A packet that the encoder takes, that `TunPacket::new` can look at and that the codec of
the other TUN device takes. -/
def Sendable (codec : TunCodec) (p : ENPacket) : Prop :=
  p ≠ [] ∧ p.length ≤ maxFrameLen ∧ codec p = true

instance (codec : TunCodec) : DecidablePred (Sendable codec) :=
  fun _ => inferInstanceAs (Decidable (_ ∧ _))

/-- The step is no failure from outside and no stop. -/
def EntaAct.calm (codec : TunCodec) : EntaAct → Bool
  | capture p => Sendable codec p
  | tunWriteErr | tunReadErr | tunEnd | ctrlC => false
  | _ => true

def LinkEvent.calm : LinkEvent → Bool
  | sever _ _ | writer _ .transmitErr | reader _ .receiveErr => false
  | _ => true

def TunnelAct.calm (codec : TunCodec) : TunnelAct → Bool
  | enta _ a => a.calm codec
  | entg _ _ _ => true
  | outer _ ev | middle ev => ev.calm

/-- What the tunnel does by itself is calm. -/
theorem TunnelAct.calm_of_own (codec : TunCodec) {a : TunnelAct} (h : a.own = true) :
    a.calm codec = true := by
  cases a with
  | enta s a => cases a <;> simp [own, EntaAct.own, calm, EntaAct.calm] at h ⊢
  | entg s d op => rfl
  | outer s ev | middle ev =>
    cases ev with
    | sever d n => simp [own, LinkEvent.own] at h
    | writer s ev =>
      cases ev <;> simp [own, LinkEvent.own, Bridge.WriterEvent.own, calm, LinkEvent.calm] at h ⊢
    | reader s ev =>
      cases ev <;> simp [own, LinkEvent.own, Bridge.ReaderEvent.own, calm, LinkEvent.calm] at h ⊢

/-! ## Links -/

namespace Bridge

variable {b b' : Bridge} {s : Side}

theorem AppMove.writer {op : StreamOp} (h : AppMove b s op b') (d : Side) :
    (b'.ends.get d).writer = (b.ends.get d).writer := by
  rcases Side.eq_or_eq_other d s with rfl | rfl
  · cases h <;> simp
  · cases h <;> simp

/-- Both applications hold their streams, and all tasks are in their loops. -/
def Looping (b : Bridge) : Prop := ∀ s, (b.ends.get s).app = .live ∧
  (b.ends.get s).writer.looping = true ∧ (b.ends.get s).reader.looping = true

/-- Then no pipe is closed. -/
theorem Looping.isOpen (h : b.Looping) (hb : b.Wf) (s : Side) :
    (b.ends.get s).out.isClosed = false ∧ (b.ends.get s).inp.isClosed = false := by
  obtain ⟨happ, hw, hr⟩ := h s
  constructor
  · by_contra hc
    have hor := (hb s).out_closed.mp (by simpa using hc)
    simp [happ, Endpoint.socketClosed, WriterTask.hasEnded_of_looping hw] at hor
  · by_contra hc
    have hor := (hb s).inp_closed.mp (by simpa using hc)
    simp [happ, ReaderTask.hasEnded_of_looping hr] at hor

theorem Looping.set {e : Endpoint} (h : b.Looping) (hends : b'.ends = b.ends.set s e)
    (happ : e.app = .live) (hw : e.writer.looping = true) (hr : e.reader.looping = true) :
    b'.Looping := by
  rw [Looping, Side.forall_iff s, hends, Pair.get_set, Pair.get_set_other]
  exact ⟨⟨happ, hw, hr⟩, h s.other⟩

/-- A writer task leaves its loops only when a transmit fails. -/
theorem Looping.writer {ev : WriterEvent} (h : b.Looping) (hb : b.Wf) (hm : WriterMove b s ev b')
    (hev : ev ≠ .transmitErr) : b'.Looping := by
  obtain ⟨happ, hlooping, hr⟩ := h s
  cases hm with
  | read hw => exact h.set rfl happ rfl hr
  | readEnd hw hout hclosed => simp [(h.isOpen hb s).1] at hclosed
  | transmit hw hle hq =>
    refine h.set rfl happ ?_ hr
    dsimp only
    split <;> rfl
  | closed hw hclosed =>
    have hpeer := (h s.other).2.1
    simp [Endpoint.socketClosed, WriterTask.hasEnded_of_looping hpeer] at hclosed
  | failed hw => exact absurd rfl hev
  | shutdown hw | drop hw => simp [hw, WriterTask.looping] at hlooping

/-- A reader task leaves its loop only when a receive fails. -/
theorem Looping.reader {ev : ReaderEvent} (h : b.Looping) (hb : b.Wf) (hm : ReaderMove b s ev b')
    (hev : ev ≠ .receiveErr) : b'.Looping := by
  obtain ⟨happ, hw, hlooping⟩ := h s
  cases hm with
  | receive hr => exact h.set rfl happ hw rfl
  | receiveNone hr => exact h
  | receiveEnd hr hq hshut =>
    have hpeer := (h s.other).2.1
    cases hw' : (b.ends.get s.other).writer <;>
      simp [hw', WriterTask.looping, WriterTask.hasShut] at hpeer hshut
  | failed hr => exact absurd rfl hev
  | write hr hopen hopen' hinp =>
    refine h.set rfl happ hw ?_
    dsimp only
    split <;> rfl
  | writeBroken hr hclosed => simp [(h.isOpen hb s).2] at hclosed
  | shutdown hr | drop hr => simp [hr, ReaderTask.looping] at hlooping

end Bridge

namespace Link

variable {l l' : Link} {s : Side}

theorem whole_tls {b : Bridge} : (tls b).whole = true ↔ b.Looping := by
  rw [Bridge.Looping, Side.forall_iff .left]
  simp [whole, Side.other, and_assoc]

theorem Fresh.whole (h : l.Fresh) : l.whole = true := by
  obtain ⟨cap, hcap, rfl | rfl⟩ := h
  · simp [Link.whole, Connection.new, Connection.ended]
  · rw [whole_tls]
    intro s
    simp [Bridge.new, Bridge.Endpoint.new, Bridge.WriterTask.looping, Bridge.ReaderTask.looping]

/-- A poll stops nothing. -/
theorem io_whole {op : StreamOp} (h : l.io s op = some l') : l'.whole = l.whole := by
  cases ioMove_of_io h with
  | plain hm => cases hm <;> rfl
  | tls hm =>
    rw [Bool.eq_iff_iff, whole_tls, whole_tls]
    simp only [Bridge.Looping, hm.app, hm.reader, hm.writer]

/-- The polls of a whole link are reads of some bytes and writes. -/
theorem io_of_whole {op : StreamOp} (h : l.io s op = some l') (hl : l.Wf) (hw : l.whole = true) :
    op ≠ .writeErr ∧ op ≠ .readEof ∧ op ≠ .readErr := by
  have hended : l.ended s.other = false := (conduit_live_of_whole hl hw s.other).2
  refine ⟨?_, ?_, ?_⟩
  · rintro rfl
    cases ioMove_of_io h with
    | plain hm =>
      cases hm with
      | writeErr hlost =>
        simp only [whole, Connection.ended, Bool.and_eq_true, Bool.not_eq_true',
          Bool.or_eq_false_iff] at hw
        cases s <;> simp [Connection.lost, hw, Side.other] at hlost
    | tls hm =>
      cases hm with
      | writeErr happ hclosed => simp [((whole_tls.mp hw).isOpen hl s).1] at hclosed
  · rintro rfl
    simp [io_end h hl (.inl rfl)] at hended
  · rintro rfl
    simp [io_end h hl (.inr rfl)] at hended

/-- A whole link stays whole in calm. -/
theorem step_whole {ev : LinkEvent} (h : l.step ev = some l') (hev : ev.calm = true) (hl : l.Wf)
    (hw : l.whole = true) : l'.whole = true := by
  cases stepMove_of_step h with
  | sever c d n => simp [LinkEvent.calm] at hev
  | @writer _ _ _ ev hm =>
    have hne : ev ≠ .transmitErr := by
      rintro rfl
      simp [LinkEvent.calm] at hev
    exact whole_tls.mpr ((whole_tls.mp hw).writer hl hm hne)
  | @reader _ _ _ ev hm =>
    have hne : ev ≠ .receiveErr := by
      rintro rfl
      simp [LinkEvent.calm] at hev
    exact whole_tls.mpr ((whole_tls.mp hw).reader hl hm hne)

end Link

/-! ## The processes -/

/-- A copy loop whose source has not ended and whose polls do not fail goes on. -/
theorem Entg.step_returned {g g' : Entg} {d : Side} {op : CopyOp} (h : g.step (d, op) = some g')
    (hop : op.fails = false) (hdone : (g.loops.get d).readDone = false) : g'.returned = none := by
  obtain ⟨hret, c, r, hc, rfl⟩ := step_eq_some.mp h
  cases r with
  | none => rfl
  | some x =>
    rcases (CopyLoop.step_result hc).2 with hf | ⟨rfl, hbuf⟩
    · simp [hop] at hf
    · simp [CopyLoop.step, hdone] at hc

namespace FrameCodec.FramedRead

/-- A fresh reader in front of whole frames goes on or yields a packet. -/
theorem poll_of_fresh {r : FramedRead} (hf : r.fresh = true)
    (hd : ∀ err dec, r.decoder.decode ≠ (.error err, dec)) :
    r.poll.1 = .again ∨ ∃ p, r.poll.1 = .ready (some (.ok p)) := by
  have hflags : r.eof = false ∧ r.hasErrored = false := by simpa [fresh] using hf
  have hpass := pass_of_poll r
  generalize r.poll = x at hpass
  cases hpass with
  | idle | more => exact .inl rfl
  | packet => exact .inr ⟨_, rfl⟩
  | refused _ _ hdec => exact absurd hdec (hd _ _)
  | errored he => simp [hflags.2] at he
  | leftover _ _ he | drained _ he => simp [hflags.1] at he

end FrameCodec.FramedRead

namespace Enta

variable {codec : TunCodec} {e e' : Enta} {a : EntaAct}

/-- Both functions run, no read of the device has failed, and `from_entg` has logged no error. -/
structure Going (e : Enta) : Prop where
  withEntg : e.withEntg.isRunning = true
  withTun : e.withTun.isRunning = true
  reading : ∀ v, e.withTun = .running v → v.fromTun ≠ .failed
  errors : e.log.errors = 0

theorem onPolled_going {t : ToEntg} {x : Polled × FramedRead} (h : e.Going)
    (hx : x.1 = .again ∨ ∃ p, x.1 = .ready (some (.ok p))) : (e.onPolled t x).Going := by
  obtain ⟨x, r⟩ := x
  rcases hx with rfl | ⟨p, rfl⟩
  · exact ⟨rfl, h.withTun, h.reading, h.errors⟩
  · exact ⟨rfl, h.withTun, h.reading, h.errors⟩

/-- In calm both functions go on, if the stream neither ends nor fails, the decoder sees whole
frames, and no packet in the channels or in the hand of `to_tun` is refused. -/
theorem Move.going (h : Move codec e a e') (he : e.Going) (hcalm : a.calm codec = true)
    (hop : ∀ op, a.op = some op → op ≠ .writeErr ∧ op ≠ .readEof ∧ op ≠ .readErr)
    (hdec : ∀ t r, e.withEntg = .running ⟨t, .next r⟩ → r.fresh = true ∧
      ∀ err dec, r.decoder.decode ≠ (.error err, dec))
    (hout : ∀ p ∈ e.outbound.items, Sendable codec p)
    (hin : ∀ p ∈ e.inbound.items, Sendable codec p)
    (hheld : ∀ v, e.withTun = .running v → ∀ p ∈ v.toTun.held, Sendable codec p) :
    e'.Going := by
  cases h with
  | recvOutbound | sendSome | sendLast | putInbound =>
    exact ⟨rfl, he.withTun, he.reading, he.errors⟩
  | recvInbound ht | tunWrite ht =>
    have hreading := he.reading _ ht
    exact ⟨he.withEntg, rfl, by rintro v ⟨⟩; exact hreading, he.errors⟩
  | capture ht | putOutbound ht =>
    exact ⟨he.withEntg, rfl, by rintro v ⟨⟩; simp, he.errors⟩
  | @refused f p ps hw hq hp =>
    have hle := (hout p (by simp [hq])).2.1
    omega
  | @tunRefused f p ht hp =>
    have htaken := (hheld _ ht p (by simp [ToTun.held])).2.2
    simp [hp] at htaken
  | pollTun ht => exact absurd rfl (he.reading _ ht)
  | panic ht hq => exact absurd rfl (hin [] (by simp [hq])).1
  | pollEntg hw hb =>
    obtain ⟨hf, hd⟩ := hdec _ _ hw
    exact onPolled_going he (FramedRead.poll_of_fresh hf hd)
  | readSome hw hb hne => exact onPolled_going he (.inl (by simp [FramedRead.afterRead, hne]))
  | sendErr => exact absurd rfl (hop _ rfl).1
  | readEof => exact absurd rfl (hop _ rfl).2.1
  | readErr => exact absurd rfl (hop _ rfl).2.2
  | outboundEnd _ _ ht | capturersClosed _ ht => simp [he.withTun] at ht
  | inboundEnd _ _ hw | outboundClosed _ hw | joined hw => simp [he.withEntg] at hw
  | tunWriteErr | tunReadErr | tunEnd | ctrlC => simp [EntaAct.calm] at hcalm

end Enta

/-! ## The tunnel -/

namespace Tunnel

variable {codec : TunCodec} {t t' : Tunnel} {s d : Side}

/-- Nothing has stopped, failed or been cut, and the packets captured can be sent. -/
structure Calm (codec : TunCodec) (t : Tunnel) : Prop where
  intact : t.Intact
  reading : ∀ s v, (t.enta.get s).withTun = .running v → v.fromTun ≠ .failed
  errors : ∀ s, (t.enta.get s).log.errors = 0
  captured : ∀ s, ∀ p ∈ (t.enta.get s).log.captured, Sendable codec p

theorem Calm.captured_le (h : t.Calm codec) (s : Side) :
    ∀ p ∈ (t.enta.get s).log.captured, p.length ≤ maxFrameLen :=
  fun p hp => (h.captured s p hp).2.1

theorem Calm.going (h : t.Calm codec) (s : Side) : (t.enta.get s).Going :=
  ⟨h.intact.withEntg s, h.intact.withTun s, h.reading s, h.errors s⟩

/-- What is handed to a TUN device was captured on the other side. -/
theorem Calm.held (h : t.Calm codec) (ht : t.Wf) (s : Side) {v : WithTun}
    (hv : (t.enta.get s).withTun = .running v) : ∀ p ∈ v.toTun.held, Sendable codec p := by
  intro p hp
  have hhanded : p ∈ (t.enta.get s).log.handed := by
    rw [(ht.ledger s).handed_eq v hv]
    exact List.mem_append_right _ hp
  have hinitial := ht.handed_prefix s.other
  rw [Side.other_other] at hinitial
  exact h.captured s.other p (hinitial.subset hhanded)

/-- What is captured on one side passes through the channels of both. -/
theorem Calm.channels (h : t.Calm codec) (ht : t.Wf) (hd : ∀ d, t.Told d) (s : Side) :
    (∀ p ∈ (t.enta.get s).outbound.items, Sendable codec p) ∧
      ∀ p ∈ (t.enta.get s).inbound.items, Sendable codec p := by
  constructor
  · intro p hp
    obtain ⟨cs, hcs⟩ := h.intact.leaving_suffix ht s
    exact h.captured s p (by simp [hcs, Enta.leaving, hp])
  · intro p hp
    obtain ⟨mid, hmid, _⟩ := h.intact.captured_eq ht (hd s.other) (h.captured_le s.other)
    rw [Side.other_other] at hmid
    exact h.captured s.other p (by simp [hmid, Enta.arriving, hp])

theorem calm_enta {a : EntaAct} (ht : t.Wf) (hd : ∀ d, t.Told d) (hc : t.Calm codec)
    (hcalm : a.calm codec = true) (h : t.entaStep codec s a = some t') : t'.Calm codec := by
  obtain ⟨e', l', _, hmove, hl, rfl⟩ := entaStep_eq_some h
  have hi := hc.intact
  have hwhole : l'.whole = true := by
    rw [← hi.outer s]
    cases hop : a.op with
    | none =>
      simp only [hop] at hl
      rw [Option.some.inj hl]
    | some op =>
      simp only [hop] at hl
      exact Link.io_whole hl
  have hgoing : e'.Going := by
    obtain ⟨hout, hin⟩ := hc.channels ht hd s
    refine hmove.going (hc.going s) hcalm (fun op hop => ?_) (fun te r hw => ?_) hout hin
      (fun v hv => hc.held ht s hv)
    · simp only [hop] at hl
      exact Link.io_of_whole hl (ht.outer s) (hi.outer s)
    · have hcap := hc.captured_le s.other
      have htold := (hd s.other).enta hcap
      have hdec := ht.decode_ne_error hcap
      rw [Side.other_other] at htold hdec
      have hended : (t.outer.get s).ended s.other = false :=
        (Link.conduit_live_of_whole (ht.outer s) (hi.outer s) s.other).2
      have hf : r.fresh = true := (htold (hi.withTun s) _ hw).resolve_right (by simp [hended])
      exact ⟨hf, hdec (hi.withTun s) hw hf⟩
  refine ⟨⟨?_, ?_, hi.entg, ?_, hi.middle⟩, ?_, ?_, ?_⟩
  · rw [Side.forall_iff s]
    simpa using ⟨hgoing.withEntg, hi.withEntg s.other⟩
  · rw [Side.forall_iff s]
    simpa using ⟨hgoing.withTun, hi.withTun s.other⟩
  · rw [Side.forall_iff s]
    simpa [released, hgoing.withEntg] using ⟨hwhole, hi.outer s.other⟩
  · rw [Side.forall_iff s]
    simpa using ⟨hgoing.reading, hc.reading s.other⟩
  · rw [Side.forall_iff s]
    simpa using ⟨hgoing.errors, hc.errors s.other⟩
  · rw [Side.forall_iff s]
    simp only [Pair.get_set, Pair.get_set_other]
    refine ⟨fun p hp => ?_, hc.captured s.other⟩
    rw [hmove.captured_eq, List.mem_append] at hp
    rcases hp with hp | hp
    · exact hc.captured s p hp
    · cases a <;> simp [EntaAct.captured] at hp
      simpa [hp, EntaAct.calm] using hcalm

/-- The polls of a gateway in an intact tunnel do not fail. -/
theorem Intact.entg_fails {op : CopyOp} (hi : t.Intact) (ht : t.Wf)
    (h : t.entgIo s d op = some t') : op.fails = false := by
  have hsource : (t.source s d).Wf ∧ (t.source s d).whole = true := by
    simp only [source]
    split
    · exact ⟨ht.outer s, hi.outer s⟩
    · exact ⟨ht.middle, hi.middle⟩
  have hsink : (t.sink s d).Wf ∧ (t.sink s d).whole = true := by
    simp only [sink]
    split
    · exact ⟨ht.middle, hi.middle⟩
    · exact ⟨ht.outer s, hi.outer s⟩
  cases op with
  | finish => rfl
  | source op =>
    have hio := Link.io_of_whole (entgIo_source h).1 hsource.1 hsource.2
    cases op <;> simp [CopyOp.fails] at hio ⊢
  | sink op =>
    have hio := Link.io_of_whole (entgIo_sink h).1 hsink.1 hsink.2
    cases op <;> simp [CopyOp.fails] at hio ⊢

/-- Its sources do not end. -/
theorem Intact.source_ended (hi : t.Intact) (ht : t.Wf) (s d : Side) :
    (t.source s d).ended d = false := by
  simp only [source]
  split
  · exact (Link.conduit_live_of_whole (ht.outer s) (hi.outer s) d).2
  · exact (Link.conduit_live_of_whole ht.middle hi.middle d).2

theorem calm_entg {op : CopyOp} (ht : t.Wf) (hd : ∀ d, t.Told d) (hc : t.Calm codec)
    (h : t.entgStep s d op = some t') : t'.Calm codec := by
  obtain ⟨g, u, hg, hu, rfl⟩ := entgStep_eq_some h
  have hi := hc.intact
  have hdone : ((t.entg.get s).loops.get d).readDone = false := by
    by_contra hdone
    have hend := (hd d).entg s (hi.entg s) (by simpa using hdone)
    simp [hi.source_ended ht] at hend
  have hret : g.returned = none := Entg.step_returned hg (hi.entg_fails ht hu) hdone
  obtain ⟨henta, _, _⟩ := entgIo_frame hu
  have hwhole : (∀ s, (u.outer.get s).whole = true) ∧ u.middle.whole = true := by
    rcases entgIo_cases hu with rfl | ⟨e, o, l, hl, rfl⟩ | ⟨e, o, l, hl, rfl⟩
    · exact ⟨hi.outer, hi.middle⟩
    · rw [Side.forall_iff s]
      simpa [Link.io_whole hl] using ⟨⟨hi.outer s, hi.outer s.other⟩, hi.middle⟩
    · exact ⟨hi.outer, (Link.io_whole hl).trans hi.middle⟩
  rw [if_pos hret]
  refine ⟨⟨?_, ?_, ?_, hwhole.1, hwhole.2⟩, ?_, ?_, ?_⟩
  · exact fun s => henta ▸ hi.withEntg s
  · exact fun s => henta ▸ hi.withTun s
  · rw [Side.forall_iff s]
    simpa using ⟨hret, hi.entg s.other⟩
  · exact fun s => henta ▸ hc.reading s
  · exact fun s => henta ▸ hc.errors s
  · exact fun s => henta ▸ hc.captured s

theorem calm_step {a : TunnelAct} (ht : t.Wf) (hd : ∀ d, t.Told d) (hc : t.Calm codec)
    (hcalm : a.calm codec = true) (h : t.step codec a = some t') : t'.Calm codec := by
  have hi := hc.intact
  cases a with
  | enta s a => exact calm_enta ht hd hc hcalm h
  | entg s d op => exact calm_entg ht hd hc h
  | outer s ev =>
    simp only [step, Option.map_eq_some_iff] at h
    obtain ⟨l, hl, rfl⟩ := h
    have hwhole := Link.step_whole hl hcalm (ht.outer s) (hi.outer s)
    refine ⟨⟨hi.withEntg, hi.withTun, hi.entg, ?_, hi.middle⟩, hc.reading, hc.errors,
      hc.captured⟩
    rw [Side.forall_iff s]
    simpa using ⟨hwhole, hi.outer s.other⟩
  | middle ev =>
    simp only [step, Option.map_eq_some_iff] at h
    obtain ⟨l, hl, rfl⟩ := h
    have hwhole := Link.step_whole hl hcalm ht.middle hi.middle
    exact ⟨⟨hi.withEntg, hi.withTun, hi.entg, hi.outer, hwhole⟩, hc.reading, hc.errors,
      hc.captured⟩

theorem new_calm {outer : Pair Link} {middle : Link} (h : Start outer middle) :
    (new outer middle).Calm codec where
  intact := {
    withEntg := fun s => by simp [new, Enta.new, Task.isRunning]
    withTun := fun s => by simp [new, Enta.new, Task.isRunning]
    entg := fun s => by simp [new, Entg.new]
    outer := fun s => (h.outer s).whole
    middle := h.middle.whole }
  reading s v hv := by
    simp only [new, Pair.get_both] at hv
    obtain rfl := Task.running.inj hv
    simp
  errors s := by simp [new, Enta.new]
  captured s := by simp [new, Enta.new]

theorem calm_of_run {outer : Pair Link} {middle : Link} {as : List TunnelAct}
    (h : Start outer middle) (hcalm : ∀ a ∈ as, a.calm codec = true)
    (hrun : run (step codec) (new outer middle) as = some t) : t.Calm codec := by
  have hkeep : ∀ (s : Tunnel) a t, (s.Wf ∧ (∀ d, s.Told d) ∧ s.Calm codec) → a.calm codec = true →
      step codec s a = some t → t.Wf ∧ (∀ d, t.Told d) ∧ t.Calm codec := by
    rintro s a t ⟨ht, hd, hc⟩ ha hstep
    exact ⟨step_wf ht hstep, fun d => told_step ht (hd d) hstep, calm_step ht hd hc ha hstep⟩
  have hnil : run (step codec) (new outer middle) [] = some (new outer middle) := Run.run_nil _
  have hnew : (new outer middle).Wf ∧ (∀ d, (new outer middle).Told d) ∧
      (new outer middle).Calm codec := ⟨new_wf h, told_of_run h hnil, new_calm h⟩
  exact (Run.invariant_of_forall hkeep hcalm hnew hrun).2.2

/-- Nothing stops by itself. As long as no direction of a link is cut, no call of rats-tls fails,
no TUN device ends or fails, nobody interrupts an agent and the packets captured are not empty,
fit into a frame and are taken by the codec of the TUN devices, every loop of both agents and
both gateways and every task of the bridges goes on, in any order of their steps, and
`from_entg` has no error to log. -/
theorem keeps_going {outer : Pair Link} {middle : Link} {as : List TunnelAct} {t : Tunnel}
    (h : Start outer middle) (hcalm : ∀ a ∈ as, a.calm codec = true)
    (hrun : run (step codec) (new outer middle) as = some t) :
    t.Intact ∧ ∀ s, (t.enta.get s).main = .run ∧ (t.enta.get s).log.errors = 0 := by
  have hc := calm_of_run h hcalm hrun
  refine ⟨hc.intact, fun s => ⟨?_, hc.errors s⟩⟩
  by_contra hm
  have hw := ((owned_of_run h hrun).main s hm).1
  simp [hc.intact.withEntg s] at hw

theorem crossingRun_keeps_going :
    ∃ t, run (step ipCodec) (new (.both smallLink) smallLink) crossingRun = some t ∧ t.Intact ∧
      ∀ s, (t.enta.get s).main = .run ∧ (t.enta.get s).log.errors = 0 := by
  have hfresh : smallLink.Fresh := ⟨8, by decide, .inl rfl⟩
  obtain ⟨t, ht, _⟩ := Run.exists_of_any (step ipCodec) (new (.both smallLink) smallLink)
    crossingRun (fun _ => True) (by decide +kernel)
  have hstart : Start (.both smallLink) smallLink := ⟨fun s => by simpa using hfresh, hfresh⟩
  exact ⟨t, ht, keeps_going hstart (by decide) ht⟩

end Tunnel

end EnclaveNetworkGateway
