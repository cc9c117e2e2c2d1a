import EnclaveNetworkGateway.EntaLedger
import EnclaveNetworkGateway.Tunnel

/-!
# End-to-end integrity of the tunnel

In every state that the tunnel can reach, the packets handed to a TUN device are the
first of those captured at the other end, and as long as nothing was cut or has
stopped the rest of them is under way, in order.
-/
namespace EnclaveNetworkGateway

open FrameCodec

namespace Tunnel

/-- The invariant that every step keeps. -/
structure Wf (t : Tunnel) : Prop where
  enta : ∀ s, (t.enta.get s).Wf
  ledger : ∀ s, (t.enta.get s).Ledger
  outer : ∀ s, (t.outer.get s).Wf
  middle : t.middle.Wf
  integrity : ∀ d, t.Integrity d

section Invariant

variable {codec : TunCodec} {t t' : Tunnel} {s d : Side}

/-- What a step does to the links, it does by polls, drops and their own steps. -/
structure LinksMove (t t' : Tunnel) : Prop where
  outer : ∀ s, Link.Moves (t.outer.get s) (t'.outer.get s)
  middle : Link.Moves t.middle t'.middle

theorem LinksMove.refl (t : Tunnel) : LinksMove t t := ⟨fun _ => .refl, .refl⟩

theorem LinksMove.trans {u : Tunnel} (h : LinksMove t u) (h' : LinksMove u t') : LinksMove t t' :=
  ⟨fun s => (h.outer s).trans (h'.outer s), h.middle.trans h'.middle⟩

theorem linksMove_outer {l : Link} (h : Link.Moves (t.outer.get s) l)
    (houter : t'.outer = t.outer.set s l) (hmiddle : t'.middle = t.middle) : LinksMove t t' where
  outer := by
    rw [Side.forall_iff s, houter, Pair.get_set, Pair.get_set_other]
    exact ⟨h, .refl⟩
  middle := hmiddle ▸ .refl

theorem linksMove_middle {l : Link} (h : Link.Moves t.middle l) (houter : t'.outer = t.outer)
    (hmiddle : t'.middle = l) : LinksMove t t' :=
  ⟨fun _ => houter ▸ .refl, hmiddle ▸ h⟩

theorem linksMove_enta {a : EntaAct} (h : t.entaStep codec s a = some t') : LinksMove t t' := by
  obtain ⟨e', l', _, _, hl, rfl⟩ := entaStep_eq_some h
  have hio : Link.Moves (t.outer.get s) l' := by
    cases hop : a.op with
    | none =>
      simp only [hop] at hl
      exact Option.some.inj hl ▸ .refl
    | some op =>
      simp only [hop] at hl
      exact .single (.io hl)
  refine linksMove_outer ?_ rfl rfl
  simp only [released]
  split
  · exact hio.tail (.drop _ _)
  · exact hio

theorem linksMove_entg {op : CopyOp} (h : t.entgStep s d op = some t') : LinksMove t t' := by
  obtain ⟨g, u, _, hu, rfl⟩ := entgStep_eq_some h
  have hio : LinksMove t u := by
    rcases entgIo_cases hu with rfl | ⟨e, o, l, hl, rfl⟩ | ⟨e, o, l, hl, rfl⟩
    · exact .refl u
    · exact linksMove_outer (.single (.io hl)) rfl rfl
    · exact linksMove_middle (.single (.io hl)) rfl rfl
  refine hio.trans ?_
  split
  · exact ⟨fun _ => .refl, .refl⟩
  · have hmiddle : LinksMove u { u with middle := u.middle.drop s } :=
      linksMove_middle (.single (.drop _ _)) rfl rfl
    have houter : LinksMove { u with middle := u.middle.drop s } (u.entgDrop s) :=
      linksMove_outer (.single (.drop _ _)) rfl rfl
    have hdrop := hmiddle.trans houter
    exact ⟨hdrop.outer, hdrop.middle⟩

theorem linksMove_step {a : TunnelAct} (h : t.step codec a = some t') : LinksMove t t' := by
  cases a with
  | enta s a => exact linksMove_enta h
  | entg s d op => exact linksMove_entg h
  | outer s ev =>
    simp only [step, Option.map_eq_some_iff] at h
    obtain ⟨l, hl, rfl⟩ := h
    exact linksMove_outer (.single (.step hl)) rfl rfl
  | middle ev =>
    simp only [step, Option.map_eq_some_iff] at h
    obtain ⟨l, hl, rfl⟩ := h
    exact linksMove_middle (.single (.step hl)) rfl rfl

/-- Each agent takes a step of its own or stays as it is. -/
theorem enta_step {a : TunnelAct} (h : t.step codec a = some t') (s : Side) :
    t'.enta.get s = t.enta.get s ∨
      ∃ b, a = .enta s b ∧ Enta.Move codec (t.enta.get s) b (t'.enta.get s) := by
  cases a with
  | enta e b =>
    obtain ⟨e', l', _, hmove, _, rfl⟩ := entaStep_eq_some h
    rcases Side.eq_or_eq_other s e with rfl | rfl
    · exact .inr ⟨b, rfl, by simpa using hmove⟩
    · exact .inl (by simp)
  | entg e d op =>
    obtain ⟨g, u, _, hu, rfl⟩ := entgStep_eq_some h
    have henta := (entgIo_frame hu).1
    left
    rw [← henta]
    split <;> rfl
  | outer e ev =>
    simp only [step, Option.map_eq_some_iff] at h
    obtain ⟨l, hl, rfl⟩ := h
    exact .inl rfl
  | middle ev =>
    simp only [step, Option.map_eq_some_iff] at h
    obtain ⟨l, hl, rfl⟩ := h
    exact .inl rfl

theorem integrity_step {a : TunnelAct} (ht : t.Wf) (h : t.step codec a = some t') (d : Side) :
    t'.Integrity d := by
  cases a with
  | enta s a => exact integrity_enta h (ht.enta s) ht.integrity d
  | entg s e op => exact integrity_entg h ht.integrity d
  | outer s ev =>
    simp only [step, Option.map_eq_some_iff] at h
    obtain ⟨l, hl, rfl⟩ := h
    exact integrity_outer hl (ht.integrity d)
  | middle ev =>
    simp only [step, Option.map_eq_some_iff] at h
    obtain ⟨l, hl, rfl⟩ := h
    exact integrity_middle hl (ht.integrity d)

theorem step_wf {a : TunnelAct} (ht : t.Wf) (h : t.step codec a = some t') : t'.Wf where
  enta s := by
    rcases enta_step h s with heq | ⟨b, _, hmove⟩
    · exact heq ▸ ht.enta s
    · exact hmove.wf (ht.enta s)
  ledger s := by
    rcases enta_step h s with heq | ⟨b, _, hmove⟩
    · exact heq ▸ ht.ledger s
    · exact hmove.ledger (ht.ledger s)
  outer s := ((linksMove_step h).outer s).wf (ht.outer s)
  middle := (linksMove_step h).middle.wf ht.middle
  integrity := integrity_step ht h

/-- The links are those of a chain where forwarding is about to start. -/
structure Start (outer : Pair Link) (middle : Link) : Prop where
  outer : ∀ s, (outer.get s).Fresh
  middle : middle.Fresh

theorem new_wf {outer : Pair Link} {middle : Link} (h : Start outer middle) :
    (new outer middle).Wf where
  enta s := by simpa [new] using Enta.new_wf
  ledger s := by simpa [new] using Enta.new_ledger
  outer s := (h.outer s).wf
  middle := h.middle.wf
  integrity d := by
    have hsend : Enta.new.send = 1 := rfl
    have hrecv : Enta.new.recv = 1 := rfl
    have hentg : ∀ d, Entg.new.conduit d = 1 := by
      intro d
      simp [Entg.new, Entg.conduit]
      rfl
    have hlog : Enta.new.log.handed = [] ∧ Enta.new.log.captured = [] := ⟨rfl, rfl⟩
    simp [Integrity, path, hop, sink, source, new, hsend, hrecv, hentg, (h.outer _).conduit,
      h.middle.conduit, hlog]

end Invariant

/-- Every reachable state satisfies the invariant. -/
theorem wf_of_run {outer : Pair Link} {middle : Link} {as : List TunnelAct} {t : Tunnel}
    (h : Start outer middle) (hrun : run (step codec) (new outer middle) as = some t) : t.Wf :=
  Run.invariant (fun _ _ _ ht hstep => step_wf ht hstep) (new_wf h) hrun

/-- What is handed over is always a prefix of what was captured. -/
theorem Wf.handed_prefix {t : Tunnel} (ht : t.Wf) (d : Side) :
    (t.enta.get d.other).log.handed <+: (t.enta.get d).log.captured :=
  prefix_of_packets_le (ht.enta d.other).handed_le (ht.integrity d)

/-! ## Nothing is lost while everything runs -/

/-- The copy loops and the decoder see the end of a stream only where it has ended. -/
structure Told (t : Tunnel) (d : Side) : Prop where
  entg : ∀ s, (t.entg.get s).returned = none → ((t.entg.get s).loops.get d).readDone = true →
    (t.source s d).ended d = true
  enta : (∀ p ∈ (t.enta.get d).log.captured, p.length ≤ maxFrameLen) →
    (t.enta.get d.other).withTun.isRunning = true →
      ∀ w, (t.enta.get d.other).withEntg = .running w →
        w.fromEntg.reader.fresh = true ∨ (t.outer.get d.other).ended d = true

section Told

variable {codec : TunCodec} {t t' : Tunnel} {s d : Side}

theorem LinksMove.source_ended (h : LinksMove t t') (hd : (t.source s d).ended d = true) :
    (t'.source s d).ended d = true := by
  simp only [source] at hd ⊢
  split at hd
  · rename_i heq
    rw [if_pos heq]
    exact (h.outer s).ended hd
  · rename_i hne
    rw [if_neg hne]
    exact h.middle.ended hd

/-- A copy loop that reads the end of its source finds it ended. -/
theorem entgIo_end (ht : t.Wf) (h : t.entgIo s d (.source .readEof) = some t') :
    (t.source s d).ended d = true := by
  have hwf : (t.source s d).Wf := by
    simp only [source]
    split
    · exact ht.outer s
    · exact ht.middle
  simpa using Link.io_end (entgIo_source h).1 hwf (.inl rfl)

/-- Each gateway takes a step of one of its loops or stays as it is. -/
theorem entg_step {a : TunnelAct} (h : t.step codec a = some t') (s : Side) :
    t'.entg.get s = t.entg.get s ∨
      ∃ e op u, a = .entg s e op ∧ (t.entg.get s).step (e, op) = some (t'.entg.get s) ∧
        t.entgIo s e op = some u := by
  cases a with
  | enta e b =>
    obtain ⟨e', l', _, _, _, rfl⟩ := entaStep_eq_some h
    exact .inl rfl
  | entg e d op =>
    obtain ⟨g, u, hg, hu, rfl⟩ := entgStep_eq_some h
    rcases Side.eq_or_eq_other s e with rfl | rfl
    · exact .inr ⟨d, op, u, rfl, by simpa using hg, hu⟩
    · exact .inl (by simp)
  | outer e ev =>
    simp only [step, Option.map_eq_some_iff] at h
    obtain ⟨l, hl, rfl⟩ := h
    exact .inl rfl
  | middle ev =>
    simp only [step, Option.map_eq_some_iff] at h
    obtain ⟨l, hl, rfl⟩ := h
    exact .inl rfl

/-- While all its input comes from packets within the limit, a decoder refuses nothing. -/
theorem Wf.decode_ne_error (ht : t.Wf)
    (hcap : ∀ p ∈ (t.enta.get d).log.captured, p.length ≤ maxFrameLen)
    (htun : (t.enta.get d.other).withTun.isRunning = true) {te : ToEntg} {r : FramedRead}
    (hw : (t.enta.get d.other).withEntg = .running ⟨te, .next r⟩) (hf : r.fresh = true)
    (err : FrameError) (dec : Decoder) : r.decoder.decode ≠ (.error err, dec) := by
  have he := ht.enta d.other
  have hrecv : (t.enta.get d.other).recv =
      packets (t.enta.get d.other).inbound.items * .flow r.decoder.pending := by
    cases hv : (t.enta.get d.other).withTun with
    | running v => simp [Enta.recv, hv, hw, FromEntg.conduit, FromEntg.held, FromEntg.reader,
        FramedRead.conduit_of_fresh hf]
    | returned x => simp [hv, Task.isRunning] at htun
  set ps := (t.enta.get d.other).log.handed ++ (t.enta.get d.other).inbound.items with hps
  have hle : ∀ p ∈ ps, p.length ≤ maxFrameLen := by
    intro p hp
    rcases List.mem_append.mp hp with hp | hp
    · exact he.handed_le p hp
    · exact he.inbound_le p hp
  have hpre : ps.flatMap frame ++ r.decoder.pending <+:
      (t.enta.get d).log.captured.flatMap frame := by
    have hsplit : packets (t.enta.get d.other).log.handed * t.path d =
        .flow (ps.flatMap frame ++ r.decoder.pending) * ((t.outer.get d.other).conduit d *
          ((t.entg.get d.other).conduit d * (t.hop d d * (t.enta.get d).send))) := by
      rw [path, hrecv, Conduit.flow_append, ← packets_of_le hle, hps, packets_append]
      simp only [mul_assoc]
    have hi := ht.integrity d
    rw [Integrity, hsplit, packets_of_le hcap] at hi
    exact (Conduit.held_prefix_mul _ _).trans (Conduit.held_prefix_of_le hi)
  obtain ⟨y, hy⟩ := hpre
  rw [List.append_assoc] at hy
  obtain ⟨qs, hqs, hpend⟩ := frame_prefixCode.split hle hcap hy
  have hqle : ∀ q ∈ qs, q.length ≤ maxFrameLen := fun q hq => hcap q (by simp [hqs, hq])
  exact Decoder.decode_ne_error hqle ⟨y, hpend⟩

theorem told_step {a : TunnelAct} (ht : t.Wf) (hd : t.Told d) (h : t.step codec a = some t') :
    t'.Told d where
  entg s hret hdone := by
    have hlinks := linksMove_step h
    rcases entg_step h s with heq | ⟨e, op, u, rfl, hg, hu⟩
    · exact hlinks.source_ended (hd.entg s (heq ▸ hret) (heq ▸ hdone))
    · obtain ⟨hret', c, r, hc, hg'⟩ := Entg.step_eq_some.mp hg
      apply hlinks.source_ended
      rw [hg'] at hdone
      rcases Side.eq_or_eq_other d e with rfl | rfl
      · by_cases hop : op = .source .readEof
        · exact entgIo_end ht (hop ▸ hu)
        · rw [Pair.get_set, CopyLoop.step_readDone hc hop] at hdone
          exact hd.entg s hret' hdone
      · exact hd.entg s hret' (by simpa using hdone)
  enta hcap htun w' hw' := by
    have hlinks := (linksMove_step h).outer d.other
    have hcap' : ∀ p ∈ (t.enta.get d).log.captured, p.length ≤ maxFrameLen := by
      rcases enta_step h d with heq | ⟨b, _, hmove⟩
      · exact heq ▸ hcap
      · intro p hp
        exact hcap p (by rw [hmove.captured_eq]; exact List.mem_append_left _ hp)
    rcases enta_step h d.other with heq | ⟨b, rfl, hmove⟩
    · rw [heq] at htun hw'
      exact (hd.enta hcap' htun w' hw').imp_right hlinks.ended
    · have htun' : (t.enta.get d.other).withTun.isRunning = true := by
        by_contra hret
        cases hx : (t.enta.get d.other).withTun with
        | running v => simp [hx, Task.isRunning] at hret
        | returned x => simp [(hmove.tun_frozen hx).1, Task.isRunning] at htun
      obtain ⟨w, hw, hcases⟩ := hmove.fresh (ht.enta d.other) hw'
      rcases hd.enta hcap' htun' w hw with hf | hend
      · rcases hcases with heq | rfl | rfl | ⟨r, err, r', hr, hpoll⟩
        · exact .inl (heq.trans hf)
        · obtain ⟨e', l', _, _, hl, _⟩ := entaStep_eq_some h
          have hend := Link.io_end hl (ht.outer d.other) (.inl rfl)
          exact .inr (hlinks.ended (by simpa using hend))
        · obtain ⟨e', l', _, _, hl, _⟩ := entaStep_eq_some h
          have hend := Link.io_end hl (ht.outer d.other) (.inr rfl)
          exact .inr (hlinks.ended (by simpa using hend))
        · -- the decoder has seen whole frames only
          rcases w with ⟨te, f⟩
          dsimp only at hr hf
          subst hr
          obtain ⟨dec, hdec⟩ := (FramedRead.poll_error hpoll).2.2 hf
          exact absurd hdec (ht.decode_ne_error hcap' htun' hw hf err dec)
      · exact .inr (hlinks.ended hend)

end Told

/-- No link is cut and nothing has stopped. -/
structure Intact (t : Tunnel) : Prop where
  withEntg : ∀ s, (t.enta.get s).withEntg.isRunning = true
  withTun : ∀ s, (t.enta.get s).withTun.isRunning = true
  entg : ∀ s, (t.entg.get s).returned = none
  outer : ∀ s, (t.outer.get s).whole = true
  middle : t.middle.whole = true

/-- The bytes between the encoder at one end and the decoder at the other one. -/
def wire (t : Tunnel) (d : Side) : Conduit UInt8 :=
  (t.enta.get d.other).decoding * ((t.outer.get d.other).conduit d *
    ((t.entg.get d.other).conduit d * (t.middle.conduit d * ((t.entg.get d).conduit d *
      ((t.outer.get d).conduit d * (t.enta.get d).encoding)))))

section Exact

variable {t : Tunnel} {d : Side}

theorem Intact.path_eq (hi : t.Intact) (d : Side) :
    t.path d = packets (t.enta.get d.other).arriving *
      (t.wire d * packets (t.enta.get d).leaving) := by
  rw [path, Enta.recv_of_running (hi.withTun _) (hi.withEntg _),
    Enta.send_of_running (hi.withTun _) (hi.withEntg _)]
  simp [wire, hop, source, sink, mul_assoc]

/-- In an intact tunnel the wire is connected from end to end. -/
theorem Intact.wire_live (hi : t.Intact) (ht : t.Wf) (hd : t.Told d)
    (hcap : ∀ p ∈ (t.enta.get d).log.captured, p.length ≤ maxFrameLen) :
    (t.wire d).live = true := by
  have houter := fun s => Link.conduit_live_of_whole (ht.outer s) (hi.outer s) d
  have hmiddle := Link.conduit_live_of_whole ht.middle hi.middle d
  have hsource : ∀ s, (t.source s d).ended d = false := by
    intro s
    simp only [source]
    split
    · exact (houter s).2
    · exact hmiddle.2
  have hentg : ∀ s, ((t.entg.get s).conduit d).live = true := by
    intro s
    have hdone : ((t.entg.get s).loops.get d).readDone = false := by
      by_contra hdone
      have hend := hd.entg s (hi.entg s) (by simpa using hdone)
      simp [hsource s] at hend
    simp [Entg.conduit, hi.entg s, CopyLoop.conduit, hdone]
  have hdecoding : (t.enta.get d.other).decoding.live = true := by
    cases hw : (t.enta.get d.other).withEntg with
    | running w =>
      rcases hd.enta hcap (hi.withTun _) w hw with hf | hend
      · simpa [Enta.decoding, hw, FramedRead.conduit_live] using hf
      · simp [(houter d.other).2] at hend
    | returned x => simpa [hw, Task.isRunning] using hi.withEntg d.other
  have hencoding : (t.enta.get d).encoding.live = true := by
    cases hw : (t.enta.get d).withEntg with
    | running w => cases ht : w.toEntg <;> simp [Enta.encoding, hw, ht, ToEntg.conduit]
    | returned x => simpa [hw, Task.isRunning] using hi.withEntg d
  simp [wire, houter, hmiddle, hentg, hdecoding, hencoding]

/-- The packets that are still on their way are the last ones captured. -/
theorem Intact.leaving_suffix (hi : t.Intact) (ht : t.Wf) (d : Side) :
    ∃ cs, (t.enta.get d).log.captured = cs ++ (t.enta.get d).leaving := by
  cases hv : (t.enta.get d).withTun with
  | returned x => simpa [hv, Task.isRunning] using hi.withTun d
  | running v =>
    cases hw : (t.enta.get d).withEntg with
    | returned x => simpa [hw, Task.isRunning] using hi.withEntg d
    | running w =>
      have hl := ht.ledger d
      exact ⟨(t.enta.get d).log.sent ++ w.toEntg.held, by
        simp [hl.captured_eq v hv, hl.queued_eq w hw, Enta.leaving, hv]⟩

theorem Wf.arriving_le (ht : t.Wf) (s : Side) :
    ∀ p ∈ (t.enta.get s).arriving, p.length ≤ maxFrameLen := by
  intro p hp
  rcases List.mem_append.mp hp with hp | hp
  · exact (ht.enta s).inbound_le p hp
  · cases hw : (t.enta.get s).withEntg with
    | running w => exact (ht.enta s).held_le w hw p (by simpa [hw] using hp)
    | returned x => simp [hw] at hp

/-- In an intact tunnel the captured packets are those handed over, those in the receiving
agent, those on the wire and those in the sending agent. -/
theorem Intact.captured_eq (hi : t.Intact) (ht : t.Wf) (hd : t.Told d)
    (hcap : ∀ p ∈ (t.enta.get d).log.captured, p.length ≤ maxFrameLen) :
    ∃ mid, (t.enta.get d).log.captured = (t.enta.get d.other).log.handed ++
        (t.enta.get d.other).arriving ++ mid ++ (t.enta.get d).leaving ∧
      t.wire d = .flow (mid.flatMap frame) := by
  obtain ⟨cs, hcs⟩ := hi.leaving_suffix ht d
  have hwire := Conduit.eq_flow_held (hi.wire_live ht hd hcap)
  set w := (t.wire d).held with hw
  set ps := (t.enta.get d.other).log.handed ++ (t.enta.get d.other).arriving with hps
  have hple : ∀ p ∈ ps, p.length ≤ maxFrameLen := by
    intro p hp
    rcases List.mem_append.mp hp with hp | hp
    · exact (ht.enta d.other).handed_le p hp
    · exact ht.arriving_le d.other p hp
  have hcle : ∀ p ∈ cs, p.length ≤ maxFrameLen := fun p hp => hcap p (by simp [hcs, hp])
  have hlle : ∀ p ∈ (t.enta.get d).leaving, p.length ≤ maxFrameLen :=
    fun p hp => hcap p (by simp [hcs, hp])
  have hint : Conduit.flow (ps.flatMap frame ++ (w ++ (t.enta.get d).leaving.flatMap frame)) ≤
      .flow ((cs ++ (t.enta.get d).leaving).flatMap frame) := by
    have h := ht.integrity d
    rw [Integrity, hi.path_eq, ← mul_assoc, ← packets_append, ← hps, hwire, packets_of_le hple,
      packets_of_le hlle, packets_of_le hcap, hcs, Conduit.flow_mul_flow,
      Conduit.flow_mul_flow] at h
    exact h
  have heq := congrArg Conduit.held (Conduit.eq_of_le_of_live hint rfl)
  simp only [Conduit.flow_held, List.flatMap_append, ← List.append_assoc,
    List.append_cancel_right_eq] at heq
  obtain ⟨mid, rfl, hmid⟩ := frame_prefixCode.split hple hcle heq
  exact ⟨mid, by rw [hcs, hps], by rw [hwire, hmid]⟩

end Exact

theorem told_of_run {outer : Pair Link} {middle : Link} {as : List TunnelAct} {t : Tunnel}
    (h : Start outer middle) (hrun : run (step codec) (new outer middle) as = some t) (d : Side) :
    t.Told d := by
  have hboth : t.Wf ∧ t.Told d :=
    Run.invariant (I := fun t => t.Wf ∧ t.Told d)
      (fun _ _ _ ht hstep => ⟨step_wf ht.1 hstep, told_step ht.1 ht.2 hstep⟩)
      ⟨new_wf h, ⟨by simp [new, Entg.new, CopyLoop.new], by
        intro _ _ w hw
        simp only [new, Pair.get_both] at hw
        obtain rfl := Task.running.inj hw
        exact .inl rfl⟩⟩ hrun
  exact hboth.2

/-- In every reachable state the packets handed to the TUN device of one side are a prefix
of those captured at the other one. While nothing is cut or has stopped, the captured
packets are, in order, those handed over and those under way. -/
theorem end_to_end {outer : Pair Link} {middle : Link} {as : List TunnelAct} {t : Tunnel}
    (h : Start outer middle) (hrun : run (step codec) (new outer middle) as = some t) (d : Side) :
    (t.enta.get d.other).log.handed <+: (t.enta.get d).log.captured ∧
    (t.Intact → (∀ p ∈ (t.enta.get d).log.captured, p.length ≤ maxFrameLen) →
      ∃ mid, (t.enta.get d).log.captured = (t.enta.get d.other).log.handed ++
          (t.enta.get d.other).arriving ++ mid ++ (t.enta.get d).leaving ∧
        t.wire d = .flow (mid.flatMap frame)) := by
  have ht := wf_of_run h hrun
  exact ⟨ht.handed_prefix d, fun hi hcap => hi.captured_eq ht (told_of_run h hrun d) hcap⟩

/-- One packet crosses the tunnel in pieces and is handed over while a second one is
captured. -/
def crossingRun : List TunnelAct :=
  let w := frame [69]
  [.enta .left (.capture [69]), .enta .left .putOutbound, .enta .left .recvOutbound,
    .enta .left (.sendEntg (.write w 3)), .entg .left .left (.source (.read (w.take 3))),
    .enta .left (.sendEntg (.write (w.drop 3) 2)),
    .entg .left .left (.sink (.write (w.take 3) 3)),
    .entg .left .left (.source (.read (w.drop 3))),
    .entg .left .left (.sink (.write (w.drop 3) 2)), .entg .right .left (.source (.read w)),
    .entg .right .left (.sink (.write w 5)), .enta .right (.readEntg (.read w)),
    .enta .right .pollEntg, .enta .right .putInbound, .enta .right .recvInbound,
    .enta .left (.capture [70]), .enta .left .putOutbound]

/-- Plain links that hold eight bytes in each direction. -/
def smallLink : Link := .plain (.new 8 (by decide))

theorem crossingRun_end_to_end :
    ∃ t, run (step ipCodec) (new (.both smallLink) smallLink) crossingRun = some t ∧
      ∃ mid, (t.enta.get .left).log.captured = (t.enta.get .right).log.handed ++
          (t.enta.get .right).arriving ++ mid ++ (t.enta.get .left).leaving ∧
        t.wire .left = .flow (mid.flatMap frame) := by
  have hfresh : smallLink.Fresh := ⟨8, by decide, .inl rfl⟩
  obtain ⟨t, ht, hentg, htun, hret, houter, hmiddle, hcap⟩ := Run.exists_of_any (step ipCodec)
    (new (.both smallLink) smallLink) crossingRun (fun t =>
      (∀ s, (t.enta.get s).withEntg.isRunning = true) ∧
      (∀ s, (t.enta.get s).withTun.isRunning = true) ∧ (∀ s, (t.entg.get s).returned = none) ∧
      (∀ s, (t.outer.get s).whole = true) ∧ t.middle.whole = true ∧
      ∀ p ∈ (t.enta.get .left).log.captured, p.length ≤ maxFrameLen) (by decide +kernel)
  have hstart : Start (.both smallLink) smallLink := ⟨fun s => by simpa using hfresh, hfresh⟩
  exact ⟨t, ht, (end_to_end hstart ht .left).2 ⟨hentg, htun, hret, houter, hmiddle⟩ hcap⟩

end Tunnel

end EnclaveNetworkGateway
