import EnclaveNetworkGateway.BridgeStall
import EnclaveNetworkGateway.EntaQuiescence
import EnclaveNetworkGateway.TunPacket
import EnclaveNetworkGateway.TunnelIntegrity

/-!
# Shutdown of the tunnel

Once something in the tunnel has stopped and nothing can move any more, all of it has
stopped, if no agent has panicked and the tasks of the bridges have kept flowing.
-/
namespace EnclaveNetworkGateway

open FrameCodec

/-- The steps that the processes and the tasks of the bridges take by themselves. -/
def TunnelAct.own : TunnelAct → Bool
  | enta _ a => a.own
  | entg _ _ _ => true
  | outer _ ev => ev.own
  | middle ev => ev.own

namespace Tunnel

/-! ## Who holds which stream -/

/-- A process holds its streams as long as it has not returned. -/
structure Owned (t : Tunnel) : Prop where
  enta : ∀ s, (t.outer.get s).gone s = !(t.enta.get s).withEntg.isRunning
  outer : ∀ s, (t.outer.get s).gone s.other = (t.entg.get s).returned.isSome
  middle : ∀ s, t.middle.gone s = (t.entg.get s).returned.isSome
  main : ∀ s, (t.enta.get s).main ≠ .run →
    (t.enta.get s).withEntg.isRunning = false ∧ (t.enta.get s).withTun.isRunning = false

section Owned

variable {codec : TunCodec} {t t' : Tunnel} {s d : Side}

theorem new_owned {outer : Pair Link} {middle : Link} (h : Start outer middle) :
    (new outer middle).Owned where
  enta s := by simpa [new, Enta.new, Task.isRunning] using (h.outer s).gone s
  outer s := by simpa [new, Entg.new] using (h.outer s).gone s.other
  middle s := by simpa [new, Entg.new] using h.middle.gone s
  main s hm := by simp [new, Enta.new] at hm

/-- The stream of an ENTA ends with `exchange_with_entg`. -/
theorem released_gone {e e' : Enta} {l : Link} (h : l.gone s = !e.withEntg.isRunning)
    (hkeep : e.withEntg.isRunning = false → e'.withEntg.isRunning = false) :
    (released e e' l s).gone s = !e'.withEntg.isRunning ∧
      (released e e' l s).gone s.other = l.gone s.other := by
  cases he : e.withEntg.isRunning with
  | false => simp [released, h, he, hkeep he]
  | true => cases he' : e'.withEntg.isRunning <;> simp [released, h, he, he']

theorem owned_enta {a : EntaAct} (ht : t.Owned) (h : t.entaStep codec s a = some t') :
    t'.Owned := by
  obtain ⟨e', l', hrun, hmove, hl, rfl⟩ := entaStep_eq_some h
  have hgone : ∀ d, l'.gone d = (t.outer.get s).gone d := by
    intro d
    cases hop : a.op with
    | none =>
      simp only [hop] at hl
      rw [Option.some.inj hl]
    | some op =>
      simp only [hop] at hl
      exact Link.io_gone hl d
  have hkeep : (t.enta.get s).withEntg.isRunning = false → e'.withEntg.isRunning = false := by
    intro hw
    cases hx : (t.enta.get s).withEntg with
    | running w => simp [hx, Task.isRunning] at hw
    | returned x => rw [(hmove.entg_frozen hx).1, Task.isRunning]
  obtain ⟨hs, ho⟩ := released_gone ((hgone s).trans (ht.enta s)) hkeep
  constructor
  · rw [Side.forall_iff s]
    simpa [hs] using ht.enta s.other
  · rw [Side.forall_iff s]
    constructor
    · simpa [ho, hgone] using ht.outer s
    · simpa using ht.outer s.other
  · exact ht.middle
  · rw [Side.forall_iff s]
    constructor
    · intro hm
      simp only [Pair.get_set] at hm ⊢
      exact (hmove.main hrun).resolve_left hm
    · simpa using ht.main s.other

theorem entgIo_gone {op : CopyOp} (h : t.entgIo s d op = some t') :
    (∀ e, (t'.outer.get s).gone e = (t.outer.get s).gone e) ∧
      ∀ e, t'.middle.gone e = t.middle.gone e := by
  rcases entgIo_cases h with rfl | ⟨e, o, l, hl, rfl⟩ | ⟨e, o, l, hl, rfl⟩
  · simp
  · simp [Link.io_gone hl]
  · simp [Link.io_gone hl]

theorem owned_entg {op : CopyOp} (ht : t.Owned) (h : t.entgStep s d op = some t') : t'.Owned := by
  obtain ⟨g, u, hg, hu, rfl⟩ := entgStep_eq_some h
  obtain ⟨henta, _, houter⟩ := entgIo_frame hu
  obtain ⟨hgo, hgm⟩ := entgIo_gone hu
  have hret : (t.entg.get s).returned = none := (Entg.step_eq_some.mp hg).1
  have hos := ht.outer s
  have hms := ht.middle s
  simp only [hret, Option.isSome_none] at hos hms
  have hes := ht.enta s
  have heo := ht.enta s.other
  have hoo := ht.outer s.other
  have hmo := ht.middle s.other
  have hmain := ht.main
  rw [← henta] at hes heo hmain
  rw [← hgo] at hes hos
  rw [← houter] at heo hoo
  rw [← hgm] at hms hmo
  split
  · rename_i hnone
    constructor
    · exact (Side.forall_iff s).mpr ⟨hes, heo⟩
    · exact (Side.forall_iff s).mpr ⟨by simpa [hnone] using hos, by simpa using hoo⟩
    · exact (Side.forall_iff s).mpr ⟨by simpa [hnone] using hms, by simpa using hmo⟩
    · exact hmain
  · rename_i hsome
    have hsome' : g.returned.isSome = true := Option.isSome_iff_ne_none.mpr hsome
    have hes' : ((u.outer.get s).drop s.other).gone s = (u.outer.get s).gone s := by
      simpa using Link.drop_gone_other (u.outer.get s) s.other
    constructor
    · exact (Side.forall_iff s).mpr
        ⟨by simpa [entgDrop, hes'] using hes, by simpa [entgDrop] using heo⟩
    · exact (Side.forall_iff s).mpr ⟨by simp [entgDrop, hsome'], by simpa [entgDrop] using hoo⟩
    · exact (Side.forall_iff s).mpr ⟨by simp [entgDrop, hsome'], by simpa [entgDrop] using hmo⟩
    · exact hmain

theorem owned_step {a : TunnelAct} (ht : t.Owned) (h : t.step codec a = some t') : t'.Owned := by
  cases a with
  | enta s a => exact owned_enta ht h
  | entg s d op => exact owned_entg ht h
  | outer s ev =>
    simp only [step, Option.map_eq_some_iff] at h
    obtain ⟨l, hl, rfl⟩ := h
    have hgone := Link.step_gone hl
    constructor
    · rw [Side.forall_iff s]
      simpa [hgone] using And.intro (ht.enta s) (ht.enta s.other)
    · rw [Side.forall_iff s]
      simpa [hgone] using And.intro (ht.outer s) (ht.outer s.other)
    · exact ht.middle
    · exact ht.main
  | middle ev =>
    simp only [step, Option.map_eq_some_iff] at h
    obtain ⟨l, hl, rfl⟩ := h
    exact ⟨ht.enta, ht.outer, fun s => (Link.step_gone hl s).trans (ht.middle s), ht.main⟩

theorem owned_of_run {outer : Pair Link} {middle : Link} {as : List TunnelAct}
    (h : Start outer middle) (hrun : run (step codec) (new outer middle) as = some t) : t.Owned :=
  Run.invariant (fun _ _ _ ht hstep => owned_step ht hstep) (new_owned h) hrun

end Owned

/-! ## The processes at rest -/

/-- Both loops of the ENTG hold bytes that they have read and not written. -/
def Jammed (t : Tunnel) (s : Side) : Prop :=
  (t.entg.get s).returned = none ∧ ∀ d, ((t.entg.get s).loops.get d).buf ≠ []

/-- A loop or a task has stopped. -/
def SomeStopped (t : Tunnel) : Prop :=
  ∃ s, (t.enta.get s).withEntg.isRunning = false ∨ (t.enta.get s).withTun.isRunning = false ∨
    (t.entg.get s).returned ≠ none ∨ (t.outer.get s).TaskStopped ∨ t.middle.TaskStopped

/-- All loops and tasks have stopped, and both agents have cleaned up. -/
structure AllStopped (t : Tunnel) : Prop where
  main : ∀ s, (t.enta.get s).main = .cleanUp
  withEntg : ∀ s, (t.enta.get s).withEntg.isRunning = false
  withTun : ∀ s, (t.enta.get s).withTun.isRunning = false
  entg : ∀ s, (t.entg.get s).returned ≠ none
  outer : ∀ s, (t.outer.get s).TasksEnded
  middle : t.middle.TasksEnded

/-- No agent has panicked, and the tasks of the bridges keep flowing. -/
structure Flowing (t : Tunnel) : Prop where
  main : ∀ s, (t.enta.get s).main ≠ .panicked
  outer : ∀ s, (t.outer.get s).Flowing
  middle : t.middle.Flowing

/-- No agent calls `TunPacket::new` on an empty packet, and the tasks of the bridges do what
they may. -/
def Allows (t : Tunnel) : TunnelAct → Prop
  | .enta s a => (t.enta.get s).newTunPacket a ≠ some []
  | .entg _ _ _ => True
  | .outer s ev => (t.outer.get s).Allows ev
  | .middle ev => t.middle.Allows ev

instance (t : Tunnel) : DecidablePred t.Allows
  | .enta s a => inferInstanceAs (Decidable ((t.enta.get s).newTunPacket a ≠ some []))
  | .entg _ _ _ => inferInstanceAs (Decidable True)
  | .outer s ev => inferInstanceAs (Decidable ((t.outer.get s).Allows ev))
  | .middle ev => inferInstanceAs (Decidable (t.middle.Allows ev))

section Flowing

variable {codec : TunCodec} {t t' : Tunnel} {s d : Side}

theorem new_flowing {outer : Pair Link} {middle : Link} (h : Start outer middle) :
    (new outer middle).Flowing where
  main s := by simp [new, Enta.new]
  outer s := (h.outer s).flowing
  middle := h.middle.flowing

theorem flowing_enta {a : EntaAct} (ht : t.Flowing) (h : t.entaStep codec s a = some t')
    (hok : (t.enta.get s).newTunPacket a ≠ some []) : t'.Flowing := by
  simp only [entaStep, Option.bind_eq_some_iff, Option.map_eq_some_iff] at h
  obtain ⟨e', he, l', hl, rfl⟩ := h
  have hmain : e'.main ≠ .panicked := fun hm => hok (Enta.newTunPacket_of_panicked he hm)
  have hlink : l'.Flowing := by
    cases hop : a.op with
    | none =>
      simp only [hop] at hl
      exact Option.some.inj hl ▸ ht.outer s
    | some op =>
      simp only [hop] at hl
      exact Link.io_flowing hl (ht.outer s)
  have hrel : (released (t.enta.get s) e' l' s).Flowing := by
    simp only [released]
    split
    · exact Link.drop_flowing hlink s
    · exact hlink
  refine ⟨?_, ?_, ht.middle⟩
  · rw [Side.forall_iff s]
    simpa using ⟨hmain, ht.main s.other⟩
  · rw [Side.forall_iff s]
    simpa using ⟨hrel, ht.outer s.other⟩

theorem flowing_entg {op : CopyOp} (ht : t.Flowing) (h : t.entgStep s d op = some t') :
    t'.Flowing := by
  obtain ⟨g, u, _, hu, rfl⟩ := entgStep_eq_some h
  have hflow : u.Flowing := by
    rcases entgIo_cases hu with rfl | ⟨e, o, l, hl, rfl⟩ | ⟨e, o, l, hl, rfl⟩
    · exact ht
    · refine ⟨ht.main, ?_, ht.middle⟩
      rw [Side.forall_iff s]
      simpa using ⟨Link.io_flowing hl (ht.outer s), ht.outer s.other⟩
    · exact ⟨ht.main, ht.outer, Link.io_flowing hl ht.middle⟩
  split
  · exact ⟨hflow.main, hflow.outer, hflow.middle⟩
  · refine ⟨hflow.main, ?_, Link.drop_flowing hflow.middle s⟩
    rw [Side.forall_iff s]
    simpa [entgDrop] using ⟨Link.drop_flowing (hflow.outer s) s.other, hflow.outer s.other⟩

theorem flowing_step {a : TunnelAct} (ht : t.Flowing) (hok : t.Allows a)
    (h : t.step codec a = some t') : t'.Flowing := by
  cases a with
  | enta s a => exact flowing_enta ht h hok
  | entg s d op => exact flowing_entg ht h
  | outer s ev =>
    simp only [step, Option.map_eq_some_iff] at h
    obtain ⟨l, hl, rfl⟩ := h
    refine ⟨ht.main, ?_, ht.middle⟩
    rw [Side.forall_iff s]
    simpa using ⟨Link.step_flowing hl (ht.outer s) hok, ht.outer s.other⟩
  | middle ev =>
    simp only [step, Option.map_eq_some_iff] at h
    obtain ⟨l, hl, rfl⟩ := h
    exact ⟨ht.main, ht.outer, Link.step_flowing hl ht.middle hok⟩

theorem flowing_of_run {outer : Pair Link} {middle : Link} {as : List TunnelAct}
    (h : Start outer middle) (hok : Run.EachStep (step codec) (new outer middle) as Allows)
    (hrun : run (step codec) (new outer middle) as = some t) : t.Flowing :=
  Run.invariant_of_eachStep (fun _ _ _ ht hok hstep => flowing_step ht hok hstep) hok
    (new_flowing h) hrun

end Flowing

/-- No process can take a step by itself. -/
abbrev Resting (codec : TunCodec) (t : Tunnel) : Prop :=
  Quiescent (step codec) (fun a => a.own = true) t

section Resting

variable {codec : TunCodec} {t : Tunnel} {s d : Side}

theorem Resting.outer (h : t.Resting codec) (s : Side) : (t.outer.get s).Resting := by
  intro ev hev
  simpa [step] using h (.outer s ev) hev

theorem Resting.middle (h : t.Resting codec) : t.middle.Resting := by
  intro ev hev
  simpa [step] using h (.middle ev) hev

theorem Resting.waiting (h : t.Resting codec) (s : Side) :
    (t.enta.get s).Waiting codec (t.outer.get s) s := by
  intro a e' hown he'
  have hnone : t.entaStep codec s a = none := h (.enta s a) hown
  simp only [entaStep, he', Option.bind_some, Option.map_eq_none_iff] at hnone
  cases hop : a.op with
  | none => simp [hop] at hnone
  | some op => exact ⟨op, rfl, by simpa [hop] using hnone⟩

/-- A loop of an ENTG waits for bytes of its source, or writes to its destination. -/
theorem Resting.copy (h : t.Resting codec) (s d : Side) (hret : (t.entg.get s).returned = none) :
    ((t.entg.get s).loops.get d).buf = [] ∧ (t.source s d).ReadPending d.other ∨
      ((t.entg.get s).loops.get d).buf ≠ [] ∧
        (t.sink s d).WritePending d ((t.entg.get s).loops.get d).buf := by
  set c := (t.entg.get s).loops.get d with hc
  have hio : ∀ op r, c.step op = some r → t.entgIo s d op = none := by
    intro op r hr
    have hstep : (t.entg.get s).step (d, op) = some ⟨(t.entg.get s).loops.set d r.1,
        r.2.map fun b => (d, b)⟩ := Entg.step_eq_some.mpr ⟨hret, r.1, r.2, hr, rfl⟩
    have hnone : t.entgStep s d op = none := h (.entg s d op) rfl
    simpa [entgStep, hstep] using hnone
  have hsource : ∀ op, t.entgIo s d (.source op) = none → (t.source s d).io d.other op = none := by
    intro op hop
    rcases Side.eq_or_eq_other d s with rfl | rfl
    · simpa [entgIo, outerIo, source] using hop
    · simpa [entgIo, middleIo, source] using hop
  have hsink : ∀ op, t.entgIo s d (.sink op) = none → (t.sink s d).io d op = none := by
    intro op hop
    rcases Side.eq_or_eq_other d s with rfl | rfl
    · simpa [entgIo, middleIo, sink] using hop
    · simpa [entgIo, outerIo, sink] using hop
  by_cases hbuf : c.buf = []
  · left
    have hdone : c.readDone = false := by
      by_contra hdone
      have hfin := hio .finish (c, some true) (by simp [CopyLoop.step, hbuf, hdone])
      simp [entgIo] at hfin
    refine ⟨hbuf, fun bs hbs => hsource _ ?_, hsource _ ?_, hsource _ ?_⟩
    · exact hio _ ({ c with buf := bs, read := c.read ++ bs }, none)
        (by simp [CopyLoop.step, hbuf, hdone, hbs])
    · exact hio _ ({ c with readDone := true }, none) (by simp [CopyLoop.step, hbuf, hdone])
    · exact hio _ (c, some false) (by simp [CopyLoop.step, hbuf, hdone])
  · right
    refine ⟨hbuf, fun n hn hle => hsink _ ?_, hsink _ ?_⟩
    · exact hio _ ({ c with buf := c.buf.drop n, written := c.written ++ c.buf.take n }, none)
        (by simp [CopyLoop.step, hbuf, hn, hle])
    · exact hio _ (c, some false) (by simp [CopyLoop.step, hbuf])

/-- An ENTA that still has its stream is reading it. -/
theorem Resting.enta_reads (h : t.Resting codec) (ho : t.Owned)
    (hg : (t.outer.get s).gone s = false) :
    (t.enta.get s).main = .run ∧ (t.outer.get s).ReadPending s := by
  have hrunning : (t.enta.get s).withEntg.isRunning = true := by simpa [ho.enta s] using hg
  have hm : (t.enta.get s).main = .run := by
    by_contra hm
    simp [(ho.main s hm).1] at hrunning
  cases hw : (t.enta.get s).withEntg with
  | running w => exact ⟨hm, (h.waiting s).readPending hm hw⟩
  | returned x => simp [hw, Task.isRunning] at hrunning

/-- An ENTG that is not jammed waits for bytes of its peer: the bytes towards the ENTA
cannot be stuck while the ENTA is reading. -/
theorem Resting.entg_reads_middle (h : t.Resting codec) (ht : t.Wf) (ho : t.Owned)
    (hret : (t.entg.get s).returned = none) (hj : ¬ t.Jammed s) : t.middle.ReadPending s := by
  rcases h.copy s s.other hret with ⟨_, hread⟩ | ⟨hne, hwrite⟩
  · simpa [source] using hread
  · exfalso
    have hgone : (t.outer.get s).gone s.other = false := by rw [ho.outer, hret, Option.isSome_none]
    rcases h.copy s s hret with ⟨_, hread⟩ | ⟨hne', _⟩
    · rw [source, if_pos rfl] at hread
      have henta := (hread.neighbour (h.outer s) (ht.outer s) hgone).1
      rw [Side.other_other] at henta
      obtain ⟨_, hread'⟩ := h.enta_reads ho henta
      rw [sink, if_neg (Side.other_ne s)] at hwrite
      exact (hread'.neighbour (h.outer s) (ht.outer s) henta).2 _ hne hwrite
    · exact hj ⟨hret, (Side.forall_iff s).mpr ⟨hne', hne⟩⟩

/-- It waits for bytes of its ENTA as well, since the peer is reading. -/
theorem Resting.entg_reads_outer (h : t.Resting codec) (ht : t.Wf) (ho : t.Owned)
    (hret : (t.entg.get s).returned = none) (hj : ∀ s, ¬ t.Jammed s) :
    (t.outer.get s).ReadPending s.other := by
  rcases h.copy s s hret with ⟨_, hread⟩ | ⟨hne, hwrite⟩
  · simpa [source] using hread
  · exfalso
    have hgone : t.middle.gone s = false := by rw [ho.middle, hret, Option.isSome_none]
    have hread := h.entg_reads_middle ht ho hret (hj s)
    have hpeer := (hread.neighbour h.middle ht.middle hgone).1
    have hret' : (t.entg.get s.other).returned = none := by simpa [ho.middle] using hpeer
    have hread' := h.entg_reads_middle ht ho hret' (hj s.other)
    have hfree := (hread'.neighbour h.middle ht.middle hpeer).2
    rw [Side.other_other] at hfree
    rw [sink, if_pos rfl] at hwrite
    exact hfree _ hne hwrite

/-- The neighbours of an ENTG that has not returned have not returned either. -/
theorem Resting.entg_neighbours (h : t.Resting codec) (ht : t.Wf) (ho : t.Owned)
    (hret : (t.entg.get s).returned = none) (hj : ∀ s, ¬ t.Jammed s) :
    (t.outer.get s).gone s = false ∧ (t.entg.get s.other).returned = none := by
  constructor
  · have hgone : (t.outer.get s).gone s.other = false := by rw [ho.outer, hret, Option.isSome_none]
    have hread := h.entg_reads_outer ht ho hret hj
    simpa using (hread.neighbour (h.outer s) (ht.outer s) hgone).1
  · have hgone : t.middle.gone s = false := by rw [ho.middle, hret, Option.isSome_none]
    have hread := h.entg_reads_middle ht ho hret (hj s)
    simpa [ho.middle] using (hread.neighbour h.middle ht.middle hgone).1

/-- While both ENTGs run, everything runs. -/
theorem Resting.not_someStopped (h : t.Resting codec) (ht : t.Wf) (ho : t.Owned)
    (hret : ∀ s, (t.entg.get s).returned = none) (hj : ∀ s, ¬ t.Jammed s) : ¬ t.SomeStopped := by
  have houter : ∀ s e, (t.outer.get s).ReadPending e ∧ (t.outer.get s).gone e = false := by
    intro s
    have henta := (h.entg_neighbours ht ho (hret s) hj).1
    rw [Side.forall_iff s]
    refine ⟨⟨(h.enta_reads ho henta).2, henta⟩, h.entg_reads_outer ht ho (hret s) hj, ?_⟩
    rw [ho.outer, hret, Option.isSome_none]
  have hmiddle : ∀ e, t.middle.ReadPending e ∧ t.middle.gone e = false := by
    intro e
    refine ⟨h.entg_reads_middle ht ho (hret e) (hj e), ?_⟩
    rw [ho.middle, hret, Option.isSome_none]
  rintro ⟨s, hw | htun | hentg | hout | hmid⟩
  · have hgone := (houter s s).2
    simp [ho.enta, hw] at hgone
  · obtain ⟨_, hgone⟩ := houter s s
    obtain ⟨hm, hread⟩ := h.enta_reads ho hgone
    cases hw : (t.enta.get s).withEntg with
    | running w =>
      obtain ⟨buf, hne, hwrite⟩ := (h.waiting s).writePending hm (ht.enta s) hw htun
      have hfree := ((houter s s.other).1.neighbour (h.outer s) (ht.outer s) (houter s s.other).2).2
      rw [Side.other_other] at hfree
      exact hfree buf hne hwrite
    | returned x => simp [ho.enta, hw, Task.isRunning] at hgone
  · exact hentg (hret s)
  · exact Link.not_taskStopped (h.outer s) (ht.outer s) (houter s) hout
  · exact Link.not_taskStopped h.middle ht.middle hmiddle hmid

/-- Once both ENTGs have returned, everything stops. -/
theorem Resting.allStopped_of_returned (h : t.Resting codec) (ht : t.Wf) (ho : t.Owned)
    (hret : ∀ s, (t.entg.get s).returned ≠ none) (hf : t.Flowing) : t.AllStopped := by
  have hsome : ∀ s, (t.entg.get s).returned.isSome = true := fun s =>
    Option.isSome_iff_ne_none.mpr (hret s)
  -- an agent that still read its stream would find the ENTG there
  have henta : ∀ s, (t.outer.get s).gone s = true := by
    intro s
    by_contra hgone
    have hgone' : (t.outer.get s).gone s = false := by simpa using hgone
    have hread := (h.enta_reads ho hgone').2
    have hentg := (hread.neighbour (h.outer s) (ht.outer s) hgone').1
    simp [ho.outer, hsome s] at hentg
  have hmain : ∀ s, (t.enta.get s).main ≠ .run := by
    intro s hm
    have hw := (h.waiting s).withEntg hm
    have hgone := henta s
    simp [ho.enta, hw] at hgone
  constructor
  · intro s
    cases hm : (t.enta.get s).main with
    | run => exact absurd hm (hmain s)
    | cleanUp => rfl
    | panicked => exact absurd hm (hf.main s)
  · exact fun s => (ho.main s (hmain s)).1
  · exact fun s => (ho.main s (hmain s)).2
  · exact hret
  · intro s
    have hgone : ∀ e, (t.outer.get s).gone e = true := by
      rw [Side.forall_iff s, ho.outer]
      exact ⟨henta s, hsome s⟩
    exact (Link.tasksEnded_or_crossBlocked (h.outer s) (ht.outer s) hgone).resolve_right
      ((hf.outer s).not_crossBlocked (h.outer s) (ht.outer s))
  · have hgone : ∀ e, t.middle.gone e = true := fun e => by rw [ho.middle, hsome]
    exact (Link.tasksEnded_or_crossBlocked h.middle ht.middle hgone).resolve_right
      (hf.middle.not_crossBlocked h.middle ht.middle)

/-- A gateway that cannot write to its agent has lost it, and then its write fails. -/
theorem Resting.not_jammed (h : t.Resting codec) (ht : t.Wf) (ho : t.Owned) (hf : t.Flowing)
    (s : Side) : ¬ t.Jammed s := by
  rintro ⟨hret, hbuf⟩
  have hgone : (t.outer.get s).gone s.other = false := by rw [ho.outer, hret, Option.isSome_none]
  rcases h.copy s s.other hret with ⟨hnil, _⟩ | ⟨hne, hwrite⟩
  · exact hbuf s.other hnil
  · rw [sink, if_neg (Side.other_ne s)] at hwrite
    have henta := hwrite.neighbour hne (hf.outer s) (h.outer s) (ht.outer s) hgone
    rw [Side.other_other] at henta
    have hread := (h.enta_reads ho henta).2
    exact (hread.neighbour (h.outer s) (ht.outer s) henta).2 _ hne hwrite

/-- A stop goes through the whole tunnel while the tasks keep flowing. -/
theorem Resting.allStopped (h : t.Resting codec) (ht : t.Wf) (ho : t.Owned) (hf : t.Flowing)
    (hs : t.SomeStopped) : t.AllStopped := by
  have hj := h.not_jammed ht ho hf
  by_cases hret : (t.entg.get .left).returned = none
  · have hother := (h.entg_neighbours ht ho hret hj).2
    have hall : ∀ s, (t.entg.get s).returned = none := (Side.forall_iff .left).mpr ⟨hret, hother⟩
    exact absurd hs (h.not_someStopped ht ho hall hj)
  · have hother : ¬ (t.entg.get Side.left.other).returned = none := by
      intro hr
      exact hret (by simpa using (h.entg_neighbours ht ho hr hj).2)
    exact h.allStopped_of_returned ht ho ((Side.forall_iff .left).mpr ⟨hret, hother⟩) hf

end Resting

/-- A stop goes through the whole tunnel. In every run whose steps are allowed, in every state
where something has stopped and no process can go on, all of it has. -/
theorem allStopped_of_allowed {outer : Pair Link} {middle : Link} {as : List TunnelAct}
    {t : Tunnel} (h : Start outer middle)
    (hok : Run.EachStep (step codec) (new outer middle) as Allows)
    (hrun : run (step codec) (new outer middle) as = some t) (hrest : t.Resting codec)
    (hs : t.SomeStopped) : t.AllStopped :=
  hrest.allStopped (wf_of_run h hrun) (owned_of_run h hrun) (flowing_of_run h hok hrun) hs

/-- Where the processes are gone and the tasks that are left are stuck, nothing moves. -/
theorem resting_of_stuck {t : Tunnel} (hm : ∀ s, (t.enta.get s).main ≠ .run)
    (hret : ∀ s, (t.entg.get s).returned ≠ none) (ho : ∀ s, (t.outer.get s).Stuck)
    (hmiddle : t.middle.Stuck) : t.Resting codec := by
  intro a hown
  cases a with
  | enta s a => simp [step, entaStep, Enta.step, hm s]
  | entg s d op =>
    obtain ⟨x, hx⟩ := Option.ne_none_iff_exists'.mp (hret s)
    simp [step, entgStep, Entg.step, hx]
  | outer s ev => simp [step, (ho s).resting ev hown]
  | middle ev => simp [step, hmiddle.resting ev hown]

/-- A bridge over sockets for one byte in each direction. -/
def tinyBridge : Link := .tls (.new 1 (by decide))

theorem tinyBridge_start : Start ⟨tinyBridge, smallLink⟩ smallLink where
  outer s := by
    cases s
    · exact ⟨1, by decide, .inr rfl⟩
    · exact ⟨8, by decide, .inl rfl⟩
  middle := ⟨8, by decide, .inl rfl⟩

/-- Both TUN streams end and everything is passed on from there. -/
def closingRun : List TunnelAct :=
  [.enta .left .tunEnd, .enta .left .recvOutbound, .enta .left .joined,
    .enta .right .tunEnd, .enta .right .recvOutbound, .enta .right .joined,
    .entg .right .right (.source .readEof), .entg .right .right .finish,
    .entg .left .right (.source .readEof), .entg .left .right .finish]

/-- Without traffic the tasks of the bridge see the end of their pipes. -/
def idleRun : List TunnelAct :=
  closingRun ++ [Side.left, .right].flatMap (fun s =>
    [.outer .left (.writer s .read), .outer .left (.writer s .shutdown)])
  ++ [Side.left, .right].flatMap (fun s =>
    [.outer .left (.reader s .receiveEnd), .outer .left (.reader s .shutdown),
      .outer .left (.reader s .drop), .outer .left (.writer s .drop)])

theorem idleRun_allStopped :
    ∃ t, run (step ipCodec) (new ⟨tinyBridge, smallLink⟩ smallLink) idleRun = some t ∧
      t.AllStopped := by
  obtain ⟨t, ht, hm, hret, houter, hmiddle⟩ := Run.exists_of_any (step ipCodec)
    (new ⟨tinyBridge, smallLink⟩ smallLink) idleRun (fun t =>
      (∀ s, (t.enta.get s).main ≠ .run) ∧ (∀ s, (t.entg.get s).returned ≠ none) ∧
      (∀ s, (t.outer.get s).Stuck) ∧ t.middle.Stuck) (by decide +kernel)
  have hs : t.SomeStopped := ⟨.left, .inr (.inr (.inl (hret .left)))⟩
  exact ⟨t, ht, allStopped_of_allowed tinyBridge_start (by decide +kernel) ht
    (resting_of_stuck hm hret houter hmiddle) hs⟩

/-- A packet is under way in each direction, with both sockets of the bridge full, when
both TUN streams end. -/
def busyRun : List TunnelAct :=
  let w := frame [69]
  [.enta .left (.capture [69]), .enta .left .putOutbound, .enta .left .recvOutbound,
    .enta .left (.sendEntg (.write w 5)), .outer .left (.writer .left .read),
    .enta .right (.capture [69]), .enta .right .putOutbound, .enta .right .recvOutbound,
    .enta .right (.sendEntg (.write w 5)), .entg .right .right (.source (.read w)),
    .entg .right .right (.sink (.write w 5)), .entg .left .right (.source (.read w)),
    .entg .left .right (.sink (.write w 5)), .outer .left (.writer .right .read)]
  ++ [Side.left, .right].flatMap (fun s =>
    [.outer .left (.writer s (.transmit 1)), .outer .left (.reader s.other (.receive 1)),
      .outer .left (.writer s (.transmit 1))])
  ++ closingRun ++ [Side.left, .right].flatMap (fun s =>
    [.outer .left (.reader s .write), .outer .left (.reader s .shutdown),
      .outer .left (.reader s .drop)])

/-- Both reader tasks end on their broken pipes, and each writer task is left inside a
transmit that the other end will never take. -/
theorem busyRun_not_allStopped : ¬ ∀ (outer : Pair Link) (middle : Link) (as : List TunnelAct)
    (t : Tunnel), Start outer middle → run (step ipCodec) (new outer middle) as = some t →
    t.Resting ipCodec → t.SomeStopped → t.AllStopped := by
  intro hall
  obtain ⟨t, ht, hm, hret, houter, hmiddle, htasks⟩ := Run.exists_of_any (step ipCodec)
    (new ⟨tinyBridge, smallLink⟩ smallLink) busyRun (fun t =>
      (∀ s, (t.enta.get s).main ≠ .run) ∧ (∀ s, (t.entg.get s).returned ≠ none) ∧
      (∀ s, (t.outer.get s).Stuck) ∧ t.middle.Stuck ∧
      ¬ (t.outer.get .left).TasksEnded) (by decide +kernel)
  have hrest : t.Resting ipCodec := resting_of_stuck hm hret houter hmiddle
  have hs : t.SomeStopped := ⟨.left, .inr (.inr (.inl (hret .left)))⟩
  exact htasks ((hall _ _ _ t tinyBridge_start ht hrest hs).outer .left)

end Tunnel

end EnclaveNetworkGateway
