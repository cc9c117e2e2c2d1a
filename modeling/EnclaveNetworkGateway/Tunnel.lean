import EnclaveNetworkGateway.EntaStream

/-!
# The tunnel

The chain ENTA - ENTG - ENTG - ENTA. Everything has two sides: `enta` and `entg` hold
the two agents and the two gateways, the outer link of a side connects its ENTA, at
the end of the same name, with its ENTG, at the other end, and the middle link
connects the gateways. A process that returns drops its streams.
-/
namespace EnclaveNetworkGateway

open FrameCodec

structure Tunnel where
  enta : Pair Enta
  entg : Pair Entg
  outer : Pair Link
  middle : Link
  deriving DecidableEq

/-- A step of an ENTA, of the loop of an ENTG for the bytes from side `d`, or of a link. -/
inductive TunnelAct where
  | enta (s : Side) (a : EntaAct)
  | entg (s d : Side) (op : CopyOp)
  | outer (s : Side) (ev : LinkEvent)
  | middle (ev : LinkEvent)
  deriving DecidableEq, Repr

namespace Tunnel

/-- The established chain over the given links. -/
def new (outer : Pair Link) (middle : Link) : Tunnel := ⟨.both .new, .both .new, outer, middle⟩

/-- The stream of an ENTA after a step: `exchange_with_entg` drops it on return. -/
def released (e e' : Enta) (l : Link) (s : Side) : Link :=
  if e.withEntg.isRunning && !e'.withEntg.isRunning then l.drop s else l

def entaStep (codec : TunCodec) (t : Tunnel) (s : Side) (a : EntaAct) : Option Tunnel :=
  let e := t.enta.get s
  let l := t.outer.get s
  (e.step codec a).bind fun e' =>
    (match a.op with
      | some op => l.io s op
      | none => some l).map fun l' =>
        { t with enta := t.enta.set s e', outer := t.outer.set s (released e e' l' s) }

def outerIo (t : Tunnel) (s e : Side) (op : StreamOp) : Option Tunnel :=
  ((t.outer.get s).io e op).map fun l => { t with outer := t.outer.set s l }

def middleIo (t : Tunnel) (e : Side) (op : StreamOp) : Option Tunnel :=
  (t.middle.io e op).map fun l => { t with middle := l }

/-- The poll that a step of loop `d` makes: the bytes from the own side come over the
outer link and leave over the middle one. -/
def entgIo (t : Tunnel) (s d : Side) : CopyOp → Option Tunnel
  | .source op => if d = s then t.outerIo s s.other op else t.middleIo s op
  | .sink op => if d = s then t.middleIo s op else t.outerIo s s.other op
  | .finish => some t

/-- `main` of ENTG drops both streams on return. -/
def entgDrop (t : Tunnel) (s : Side) : Tunnel :=
  { t with
    outer := t.outer.set s ((t.outer.get s).drop s.other)
    middle := t.middle.drop s }

def entgStep (t : Tunnel) (s d : Side) (op : CopyOp) : Option Tunnel :=
  ((t.entg.get s).step (d, op)).bind fun g =>
    (t.entgIo s d op).map fun t' =>
      let t'' := if g.returned = none then t' else t'.entgDrop s
      { t'' with entg := t''.entg.set s g }

def step (codec : TunCodec) (t : Tunnel) : TunnelAct → Option Tunnel
  | .enta s a => t.entaStep codec s a
  | .entg s d op => t.entgStep s d op
  | .outer s ev => ((t.outer.get s).step ev).map fun l => { t with outer := t.outer.set s l }
  | .middle ev => (t.middle.step ev).map fun l => { t with middle := l }

/-! ## The stream from one TUN device to the other -/

/-- The link that brings the bytes from side `d` to the ENTG of side `s`. -/
def source (t : Tunnel) (s d : Side) : Link := if d = s then t.outer.get s else t.middle

/-- The link on which the ENTG of side `s` passes them on. -/
def sink (t : Tunnel) (s d : Side) : Link := if d = s then t.middle else t.outer.get s

/-- The ENTG of side `s` for the bytes from side `d`, with the links on both sides of it. -/
def hop (t : Tunnel) (s d : Side) : Conduit UInt8 :=
  (t.sink s d).conduit d * ((t.entg.get s).conduit d * (t.source s d).conduit d)

/-- Everything between the TUN device of side `d` and the other one. -/
def path (t : Tunnel) (d : Side) : Conduit UInt8 :=
  (t.enta.get d.other).recv * ((t.outer.get d.other).conduit d *
    ((t.entg.get d.other).conduit d * (t.hop d d * (t.enta.get d).send)))

/-- The packets handed to the TUN device at the far end, with what is under way, are
those captured, or the first of them where something was cut off. -/
def Integrity (t : Tunnel) (d : Side) : Prop :=
  packets (t.enta.get d.other).log.handed * t.path d ≤ packets (t.enta.get d).log.captured

/-- The path seen from the far ENTG. -/
theorem path_eq_other (t : Tunnel) (d : Side) :
    t.path d = (t.enta.get d.other).recv * (t.hop d.other d *
      ((t.entg.get d).conduit d * ((t.outer.get d).conduit d * (t.enta.get d).send))) := by
  simp [path, hop, source, sink, mul_assoc]

section Step

variable {codec : TunCodec} {t t' : Tunnel} {s d : Side}

theorem released_conduit_le (e e' : Enta) (l : Link) (s d : Side) :
    (released e e' l s).conduit d ≤ l.conduit d := by
  simp only [released]
  split
  · exact l.drop_conduit_le s d
  · exact le_rfl

/-- A step of an ENTA and its stream. -/
theorem entaStep_eq_some {a : EntaAct} (h : t.entaStep codec s a = some t') :
    ∃ e' l', (t.enta.get s).main = .run ∧ Enta.Move codec (t.enta.get s) a e' ∧
      (match a.op with
        | some op => (t.outer.get s).io s op
        | none => some (t.outer.get s)) = some l' ∧
      t' = { t with
        enta := t.enta.set s e'
        outer := t.outer.set s (released (t.enta.get s) e' l' s) } := by
  simp only [entaStep, Option.bind_eq_some_iff, Option.map_eq_some_iff] at h
  obtain ⟨e', he, l', hl, rfl⟩ := h
  obtain ⟨hrun, hmove⟩ := Enta.move_of_step he
  exact ⟨e', l', hrun, hmove, hl, rfl⟩

/-- The bytes that a step of an ENTA moves through its stream. -/
theorem entaLink_conduit {e e' : Enta} {a : EntaAct} {l l' : Link} (hm : Enta.Move codec e a e')
    (h : (match a.op with
      | some op => l.io s op
      | none => some l) = some l') :
    l'.conduit s = l.conduit s * .flow a.written ∧
      .flow a.taken * l'.conduit s.other = l.conduit s.other := by
  cases hop : a.op with
  | none =>
    obtain ⟨hw, ht⟩ := hm.no_bytes hop
    simp only [hop] at h
    obtain rfl := Option.some.inj h
    simp [hw, ht]
  | some op =>
    obtain ⟨hw, ht⟩ := hm.op_bytes hop
    simp only [hop] at h
    rw [← hw, ← ht]
    exact Link.io_conduit h

theorem integrity_enta {a : EntaAct} (h : t.entaStep codec s a = some t') (hwf : (t.enta.get s).Wf)
    (hi : ∀ d, t.Integrity d) (d : Side) : t'.Integrity d := by
  obtain ⟨e', l', _, hmove, hl, rfl⟩ := entaStep_eq_some h
  obtain ⟨hs, ho⟩ := entaLink_conduit hmove hl
  have hrel := released_conduit_le (t.enta.get s) e' l' s
  have hd := hi d
  rcases Side.eq_or_eq_other d s with rfl | rfl
  · -- the sending end: the stream takes what the agent puts out
    have hsend : (released (t.enta.get d) e' l' d).conduit d * e'.send ≤
        (t.outer.get d).conduit d * ((t.enta.get d).send * packets a.captured) :=
      Conduit.handover (hs ▸ hrel d) hmove.send_le
    simp only [Integrity, path_eq_other, hop, source, sink, Pair.get_set, Pair.get_set_other, 
      hmove.captured_eq, packets_append] at hd ⊢
    refine le_trans ?_ (mul_le_mul_left hd (packets a.captured))
    simp only [mul_assoc] at hsend ⊢
    gcongr
  · -- the receiving end: the agent takes what comes off the stream
    have hrecv : packets e'.log.handed * e'.recv *
          (released (t.enta.get s) e' l' s).conduit s.other ≤
        packets (t.enta.get s).log.handed * (t.enta.get s).recv *
          (t.outer.get s).conduit s.other :=
      Conduit.handover (hmove.recv_le hwf) (le_trans (by gcongr; exact hrel _) ho.le)
    simp only [Integrity, path, hop, source, sink, if_true, Side.other_other, Pair.get_set,
      Pair.get_set_other, ← mul_assoc] at hd ⊢
    refine le_trans ?_ hd
    gcongr

/-- The two directions use the same two links. -/
theorem sink_other (t : Tunnel) (s d : Side) : t.sink s d.other = t.source s d := by
  rcases Side.eq_or_eq_other d s with rfl | rfl <;> simp [sink, source]

theorem source_other (t : Tunnel) (s d : Side) : t.source s d.other = t.sink s d := by
  rcases Side.eq_or_eq_other d s with rfl | rfl <;> simp [sink, source]

/-- A poll of an ENTG is one on its outer link or on the middle one. -/
theorem entgIo_cases {op : CopyOp} (h : t.entgIo s d op = some t') : t' = t ∨
    (∃ e o l, (t.outer.get s).io e o = some l ∧ t' = { t with outer := t.outer.set s l }) ∨
      ∃ e o l, t.middle.io e o = some l ∧ t' = { t with middle := l } := by
  cases op with
  | finish => exact .inl (Option.some.inj h).symm
  | source op =>
    simp only [entgIo, outerIo, middleIo] at h
    split_ifs at h
    · simp only [Option.map_eq_some_iff] at h
      obtain ⟨l, hl, rfl⟩ := h
      exact .inr (.inl ⟨_, _, l, hl, rfl⟩)
    · simp only [Option.map_eq_some_iff] at h
      obtain ⟨l, hl, rfl⟩ := h
      exact .inr (.inr ⟨_, _, l, hl, rfl⟩)
  | sink op =>
    simp only [entgIo, outerIo, middleIo] at h
    split_ifs at h
    · simp only [Option.map_eq_some_iff] at h
      obtain ⟨l, hl, rfl⟩ := h
      exact .inr (.inr ⟨_, _, l, hl, rfl⟩)
    · simp only [Option.map_eq_some_iff] at h
      obtain ⟨l, hl, rfl⟩ := h
      exact .inr (.inl ⟨_, _, l, hl, rfl⟩)

/-- A poll of an ENTG concerns the links of that ENTG only. -/
theorem entgIo_frame {op : CopyOp} (h : t.entgIo s d op = some t') :
    t'.enta = t.enta ∧ t'.entg = t.entg ∧ t'.outer.get s.other = t.outer.get s.other := by
  rcases entgIo_cases h with rfl | ⟨e, o, l, _, rfl⟩ | ⟨e, o, l, _, rfl⟩
  · simp
  · simp
  · simp

/-- A read of a copy loop is a poll of its source. -/
theorem entgIo_source {op : StreamOp} (h : t.entgIo s d (.source op) = some t') :
    (t.source s d).io d.other op = some (t'.source s d) ∧ t'.sink s d = t.sink s d := by
  rcases Side.eq_or_eq_other d s with rfl | rfl
  · simp only [entgIo, if_true, outerIo, Option.map_eq_some_iff] at h
    obtain ⟨l, hl, rfl⟩ := h
    simp [source, sink, hl]
  · simp only [entgIo, Side.other_ne, if_false, middleIo, Option.map_eq_some_iff] at h
    obtain ⟨l, hl, rfl⟩ := h
    simp [source, sink, hl]

/-- A write of one copy loop polls the link that the other loop reads. -/
theorem entgIo_sink {op : StreamOp} (h : t.entgIo s d (.sink op) = some t') :
    (t.sink s d).io d op = some (t'.sink s d) ∧ t'.source s d = t.source s d := by
  have heq : t.entgIo s d (.sink op) = t.entgIo s d.other (.source op) := by
    rcases Side.eq_or_eq_other d s with rfl | rfl <;> simp [entgIo]
  rw [heq] at h
  simpa [source_other, sink_other] using entgIo_source h

/-- The bytes that a step of an ENTG takes from its source and puts into its destination. -/
theorem entgIo_conduit {c : CopyLoop} {op : CopyOp} (hc : (c.step op).isSome = true)
    (h : t.entgIo s d op = some t') :
    (t'.sink s d).conduit d = (t.sink s d).conduit d * .flow op.written ∧
      .flow op.taken * (t'.source s d).conduit d = (t.source s d).conduit d ∧
      (t'.sink s d).conduit d.other = (t.sink s d).conduit d.other ∧
      (t'.source s d).conduit d.other = (t.source s d).conduit d.other := by
  cases op with
  | finish =>
    obtain rfl := Option.some.inj h
    simp [CopyOp.written, CopyOp.taken]
  | source op =>
    have hw := CopyLoop.step_poll.1 hc
    obtain ⟨hio, hsink⟩ := entgIo_source h
    obtain ⟨hs, ho⟩ := Link.io_conduit hio
    simp_all [CopyOp.written, CopyOp.taken]
  | sink op =>
    have ht := CopyLoop.step_poll.2 hc
    obtain ⟨hio, hsource⟩ := entgIo_sink h
    obtain ⟨hs, ho⟩ := Link.io_conduit hio
    simp_all [CopyOp.written, CopyOp.taken]

/-- A step of an ENTG: the copy loop and the poll it makes, and on return the end of both
streams. -/
theorem entgStep_eq_some {op : CopyOp} (h : t.entgStep s d op = some t') :
    ∃ g u, (t.entg.get s).step (d, op) = some g ∧ t.entgIo s d op = some u ∧
      t' = { (if g.returned = none then u else u.entgDrop s) with entg := t.entg.set s g } := by
  simp only [entgStep, Option.bind_eq_some_iff, Option.map_eq_some_iff] at h
  obtain ⟨g, hg, u, hu, rfl⟩ := h
  refine ⟨g, u, hg, hu, ?_⟩
  have hentg := (entgIo_frame hu).2.1
  split <;> simp [entgDrop, hentg]

theorem entgDrop_source_le (t : Tunnel) (s d e : Side) :
    ((t.entgDrop s).source s d).conduit e ≤ (t.source s d).conduit e := by
  simp only [source, entgDrop]
  split
  · simpa using Link.drop_conduit_le _ _ _
  · exact Link.drop_conduit_le _ _ _

theorem entgDrop_sink_le (t : Tunnel) (s d e : Side) :
    ((t.entgDrop s).sink s d).conduit e ≤ (t.sink s d).conduit e := by
  simp only [sink, entgDrop]
  split
  · exact Link.drop_conduit_le _ _ _
  · simpa using Link.drop_conduit_le _ _ _

/-- An ENTG passes on what it takes over, in both directions. -/
theorem hop_entg_le {op : CopyOp} (h : t.entgStep s d op = some t') (e : Side) :
    t'.hop s e ≤ t.hop s e := by
  obtain ⟨g, u, hg, hu, rfl⟩ := entgStep_eq_some h
  obtain ⟨_, c, r, hc, _⟩ := Entg.step_eq_some.mp hg
  obtain ⟨hsink, hsource, hsink', hsource'⟩ :=
    entgIo_conduit (Option.isSome_iff_exists.mpr ⟨_, hc⟩) hu
  obtain ⟨hle, hle'⟩ := Entg.step_conduit hg
  set v : Tunnel := if g.returned = none then u else u.entgDrop s with hv
  have hvsink : ∀ d e, (v.sink s d).conduit e ≤ (u.sink s d).conduit e := by
    intro d e
    rw [hv]
    split
    · exact le_rfl
    · exact entgDrop_sink_le u s d e
  have hvsource : ∀ d e, (v.source s d).conduit e ≤ (u.source s d).conduit e := by
    intro d e
    rw [hv]
    split
    · exact le_rfl
    · exact entgDrop_source_le u s d e
  show (v.sink s e).conduit e * (((t.entg.set s g).get s).conduit e * (v.source s e).conduit e) ≤ _
  rw [Pair.get_set]
  rcases Side.eq_or_eq_other e d with rfl | rfl
  · refine Conduit.handover (hsink ▸ hvsink e e) ?_
    rw [← mul_assoc]
    exact Conduit.handover hle (le_trans (mul_le_mul_right (hvsource e e) _) hsource.le)
  · have hs : (v.sink s d.other).conduit d.other ≤ (t.sink s d.other).conduit d.other := by
      refine (hvsink _ _).trans ?_
      rw [sink_other, sink_other, hsource']
    have ho : (v.source s d.other).conduit d.other ≤ (t.source s d.other).conduit d.other := by
      refine (hvsource _ _).trans ?_
      rw [source_other, source_other, hsink']
    simp only [hop]
    gcongr

theorem integrity_entg {op : CopyOp} (h : t.entgStep s d op = some t')
    (hi : ∀ e, t.Integrity e) (e : Side) : t'.Integrity e := by
  have hhop := hop_entg_le h
  obtain ⟨g, u, _, hu, rfl⟩ := entgStep_eq_some h
  obtain ⟨henta, _, houter⟩ := entgIo_frame hu
  set v : Tunnel := { (if g.returned = none then u else u.entgDrop s) with
    entg := t.entg.set s g } with hv
  have hventa : v.enta = t.enta := by
    rw [hv, ← henta]
    split <;> rfl
  have hvouter : v.outer.get s.other = t.outer.get s.other := by
    rw [hv, ← houter]
    split <;> simp [entgDrop]
  have hventg : v.entg.get s.other = t.entg.get s.other := by simp [hv]
  have hie := hi e
  rcases Side.eq_or_eq_other e s with rfl | rfl
  · simp only [Integrity, path, hventa, hvouter, hventg] at hie ⊢
    refine le_trans ?_ hie
    gcongr
    exact hhop e
  · simp only [Integrity, path_eq_other, Side.other_other, hventa, hvouter, hventg] at hie ⊢
    refine le_trans ?_ hie
    gcongr
    exact hhop s.other

theorem integrity_outer {ev : LinkEvent} {l : Link} (h : (t.outer.get s).step ev = some l)
    (hi : t.Integrity d) : Integrity { t with outer := t.outer.set s l } d := by
  have hle := Link.step_conduit_le h
  refine le_trans ?_ hi
  rcases Side.eq_or_eq_other d s with rfl | rfl
  · simp only [path, hop, sink, source, if_true, Pair.get_set, Pair.get_set_other]
    gcongr
    exact hle d
  · simp only [path, hop, sink, source, Side.other_other, if_true, Pair.get_set,
      Pair.get_set_other]
    gcongr
    exact hle s.other

theorem integrity_middle {ev : LinkEvent} {l : Link} (h : t.middle.step ev = some l)
    (hi : t.Integrity d) : Integrity { t with middle := l } d := by
  refine le_trans ?_ hi
  simp only [path, hop, sink, source, if_true]
  gcongr
  exact Link.step_conduit_le h d

end Step

end Tunnel

end EnclaveNetworkGateway
