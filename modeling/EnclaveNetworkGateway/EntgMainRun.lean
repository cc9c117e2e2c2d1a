import EnclaveNetworkGateway.EntgMain

/-!
# Runs of ENTG

Whatever the outside answers and in whatever order the futures are polled, `main` does not
panic, forwards only between two streams that are as the options ask for, and leaves nothing
behind.
-/
namespace EnclaveNetworkGateway

namespace StreamTask

/-- The task is not polled, and has ended exactly if `main` has its stream. -/
def Idle (t : StreamTask) : Prop := t.parked = true ∧ (t.state = .finished ↔ t.stream.isSome = true)

theorem Shape.stream_isSome {a : GetStream} {t : StreamTask} (ht : Shape a t)
    (h : t.stream.isSome = true) : t.state = .finished := by
  cases ht <;> simp at h ⊢

theorem parked_of_finished {t : StreamTask} (h : t.state = .finished) : t.parked = true := by
  simp [parked, h]

theorem Idle.store {t : StreamTask} (h : t.state = .finished) (st : AsyncStream) :
    (t.store st).Idle :=
  ⟨parked_of_finished h, by simp [StreamTask.store, h]⟩

theorem Shape.stream_none {a : GetStream} {t : StreamTask} (ht : Shape a t)
    (h : 1 < t.rank) : t.stream = none := by
  have hne := (one_lt_rank_iff.mp h).1
  by_contra hsome
  exact hne (ht.stream_isSome (Option.isSome_iff_ne_none.mpr hsome))

end StreamTask

namespace EntgMain

open StreamTask

/-- What the stage says of the tasks. -/
def Fits (tasks : Pair StreamTask) : EntgStage → Prop
  | .loop => ∀ d, (tasks.get d).Idle
  | .select enabled => (∃ d, enabled.get d = true) ∧
      ∀ d, (tasks.get d).Idle ∧ enabled.get d = (tasks.get d).stream.isNone
  | .poll d enabled => 1 < (tasks.get d).rank ∧ (tasks.get d.other).Idle ∧
      ∀ e, enabled.get e = (tasks.get e).stream.isNone
  | .unwrap => ∀ d, (tasks.get d).stream.isSome = true
  | .forward g => g.returned = none ∧ ∀ d, (tasks.get d).stream.isSome = true
  | .leave _ => ∀ d, (tasks.get d).parked = true ∨ (tasks.get d).state = .dropped
  | .shutdown _ => ∀ d, (tasks.get d).state = .dropped
  | .exited _ => ∀ d, (tasks.get d).state = .dropped ∧ (tasks.get d).session.all Session.settled
  | .panicked => False

structure Sound (args : EntgArgs) (m : EntgMain) : Prop where
  shape : ∀ d, Shape (args.call d) (m.tasks.get d)
  fits : Fits m.tasks m.stage

theorem forall_set {P : Side → StreamTask → Prop} {tasks : Pair StreamTask} {d : Side}
    {t : StreamTask} (hd : P d t) (ho : P d.other (tasks.get d.other)) :
    ∀ e, P e ((tasks.set d t).get e) := by
  rw [Side.forall_iff d]
  simpa using ⟨hd, ho⟩

section Steps

variable {args : EntgArgs} {m m' : EntgMain}

theorem new_sound (args : EntgArgs) : (new).Sound args where
  shape d := by
    rw [new, Pair.get_both]
    exact .start
  fits d := by
    rw [new, Pair.get_both]
    exact ⟨rfl, by simp [StreamTask.new]⟩

theorem sound_loop (hs : m.Sound args) (h : m.loop = some m') : m'.Sound args := by
  unfold loop at h
  split at h
  · rename_i hstage
    have hfits := hs.fits
    rw [hstage] at hfits
    have hleft : (m.tasks.get .left).stream = m.tasks.left.stream := rfl
    have hright : (m.tasks.get .right).stream = m.tasks.right.stream := rfl
    dsimp only at h
    split_ifs at h with hopen hnone
    · simp only [Bool.and_eq_true, Bool.not_eq_true'] at hnone
      simp [hnone] at hopen
    · obtain rfl := Option.some.inj h
      have hsome : ∃ d, Pair.get ⟨m.tasks.left.stream.isNone, m.tasks.right.stream.isNone⟩ d =
          true := by
        rcases Bool.or_eq_true_iff.mp hopen with hl | hr
        · exact ⟨.left, hl⟩
        · exact ⟨.right, hr⟩
      exact ⟨hs.shape, hsome, fun d => ⟨hfits d, by cases d <;> rfl⟩⟩
    · obtain rfl := Option.some.inj h
      simp only [Bool.or_eq_true, not_or, Option.isNone_iff_eq_none] at hopen
      refine ⟨hs.shape, fun d => ?_⟩
      rw [Option.isSome_iff_ne_none]
      cases d with
      | left => exact hopen.1
      | right => exact hopen.2
  · simp at h

theorem sound_poll {d : Side} (hs : m.Sound args) (h : m.poll d = some m') : m'.Sound args := by
  unfold poll at h
  split at h
  · rename_i enabled hstage
    have hfits := hs.fits
    rw [hstage] at hfits
    obtain ⟨_, hfits⟩ := hfits
    split_ifs at h with henabled hfin
    · -- the branch of a future that has ended is disabled
      have hsome := (hfits d).1.2.mp hfin
      rw [(hfits d).2, Option.isNone_iff_eq_none] at henabled
      simp [henabled] at hsome
    · obtain rfl := Option.some.inj h
      have hparked := (hfits d).1.1
      have hrank : 1 < (m.tasks.get d).rank := by
        rw [one_lt_rank_iff]
        refine ⟨hfin, fun hdropped => ?_⟩
        simp [parked, waits, hdropped] at hparked
      exact ⟨hs.shape, hrank, (hfits d.other).1, fun e => (hfits e).2⟩
  · simp at h

theorem sound_advance {ev : PollEvent} (hs : m.Sound args) (h : m.advance args ev = some m') :
    m'.Sound args := by
  unfold advance at h
  split at h
  · rename_i d enabled hstage
    have hfits := hs.fits
    rw [hstage] at hfits
    obtain ⟨hrank, hother, henabled⟩ := hfits
    obtain ⟨⟨t, p⟩, hadv, rfl⟩ := Option.map_eq_some_iff.mp h
    have hsettles := (hs.shape d).settles hadv
    have hend := ((hs.shape d).rank_lt hadv).2
    have hoshape := hs.shape d.other
    cases p with
    | going =>
      have hlt : 1 < t.rank := by simpa using hend
      have hnone := (show Shape (args.call d) t from hsettles).stream_none hlt
      have hdnone := (hs.shape d).stream_none hrank
      refine ⟨forall_set hsettles hoshape, by simpa [onProgress] using hlt,
        by simpa [onProgress] using hother, ?_⟩
      refine forall_set (P := fun e t => enabled.get e = t.stream.isNone) ?_ (henabled d.other)
      rw [henabled d, hnone, hdnone]
    | ready r =>
      have hfin : t.state = .finished := by simpa using hend
      cases r with
      | ok st =>
        exact ⟨forall_set hsettles hoshape,
          forall_set (P := fun _ t => t.Idle) (Idle.store hfin st) hother⟩
      | error e =>
        refine ⟨forall_set hsettles hoshape, ?_⟩
        exact forall_set (P := fun _ t => t.parked = true ∨ t.state = .dropped)
          (.inl (parked_of_finished hfin)) (.inl hother.1)
    | panicked => exact absurd hsettles id
  · simp at h

theorem sound_pend (hs : m.Sound args) (h : m.pend = some m') : m'.Sound args := by
  unfold pend at h
  split at h
  · rename_i d enabled hstage
    have hfits := hs.fits
    rw [hstage] at hfits
    obtain ⟨hrank, hother, henabled⟩ := hfits
    split_ifs at h with hwaits
    obtain rfl := Option.some.inj h
    have hnone := (hs.shape d).stream_none hrank
    have hidle : (m.tasks.get d).Idle := by
      refine ⟨by simp [parked, hwaits], ?_⟩
      simp [(one_lt_rank_iff.mp hrank).1, hnone]
    have hboth : ∀ e, (m.tasks.get e).Idle := (Side.forall_iff d).mpr ⟨hidle, hother⟩
    exact ⟨hs.shape, ⟨d, by simp [henabled d, hnone]⟩, fun e => ⟨hboth e, henabled e⟩⟩
  · simp at h

theorem sound_unwrap (hs : m.Sound args) (h : m.unwrap = some m') : m'.Sound args := by
  unfold unwrap at h
  split at h
  · rename_i hstage
    have hfits := hs.fits
    rw [hstage] at hfits
    obtain ⟨l, hl⟩ := Option.isSome_iff_exists.mp (hfits .left)
    obtain ⟨r, hr⟩ := Option.isSome_iff_exists.mp (hfits .right)
    have hl' : m.tasks.left.stream = some l := hl
    have hr' : m.tasks.right.stream = some r := hr
    rw [hl', hr'] at h
    obtain rfl := Option.some.inj h
    exact ⟨hs.shape, rfl, hfits⟩
  · simp at h

theorem sound_copy {d : Side} {op : CopyOp} (hs : m.Sound args) (h : m.copy d op = some m') :
    m'.Sound args := by
  unfold copy at h
  split at h
  · rename_i g hstage
    have hfits := hs.fits
    rw [hstage] at hfits
    obtain ⟨g', hstep, rfl⟩ := Option.map_eq_some_iff.mp h
    have hleave : ∀ e, (m.tasks.get e).parked = true ∨ (m.tasks.get e).state = .dropped :=
      fun e => .inl (parked_of_finished ((hs.shape e).stream_isSome (hfits.2 e)))
    refine ⟨hs.shape, ?_⟩
    cases hret : g'.returned with
    | none => exact ⟨hret, hfits.2⟩
    | some x =>
      rcases x with ⟨e, _ | _⟩
      · exact hleave
      · exact hleave
  · simp at h

theorem sound_drop {d : Side} (hs : m.Sound args) (h : m.drop d = some m') : m'.Sound args := by
  unfold drop at h
  split at h
  · rename_i r hstage
    have hfits := hs.fits
    rw [hstage] at hfits
    obtain ⟨t, hdrop, rfl⟩ := Option.map_eq_some_iff.mp h
    obtain ⟨hshape, hdropped⟩ := (hs.shape d).of_drop hdrop
    refine ⟨forall_set hshape (hs.shape d.other), ?_⟩
    rw [hstage]
    exact forall_set (P := fun _ t => t.parked = true ∨ t.state = .dropped) (.inr hdropped)
      (hfits d.other)
  · simp at h

theorem sound_shutdown (hs : m.Sound args) (h : m.shutdown = some m') : m'.Sound args := by
  unfold shutdown at h
  split at h
  · split_ifs at h with hdropped
    obtain rfl := Option.some.inj h
    refine ⟨hs.shape, fun d => ?_⟩
    cases d with
    | left => exact hdropped.1
    | right => exact hdropped.2
  · simp at h

theorem sound_exit (hs : m.Sound args) (h : m.exit = some m') : m'.Sound args := by
  unfold exit at h
  split at h
  · rename_i r hstage
    have hfits := hs.fits
    rw [hstage] at hfits
    split_ifs at h with hsettled
    obtain rfl := Option.some.inj h
    refine ⟨hs.shape, fun d => ⟨hfits d, ?_⟩⟩
    cases d with
    | left => exact hsettled.1
    | right => exact hsettled.2
  · simp at h

/-- A thread may change a session at any time, but not what `main` sees of the task. -/
theorem sound_background {d : Side} {a : SessionAct} (hs : m.Sound args)
    (h : m.background d a = some m') : m'.Sound args := by
  unfold background at h
  split_ifs at h with hguard
  obtain ⟨t, ht, rfl⟩ := Option.map_eq_some_iff.mp h
  obtain ⟨hstate, hstream, hwaits, hparked⟩ := background_frame ht
  have hrank := rank_background ht
  refine ⟨forall_set ((hs.shape d).of_background ht) (hs.shape d.other), ?_⟩
  have hidle : t.Idle ↔ (m.tasks.get d).Idle := by simp only [Idle, hstate, hstream, hparked]
  have hfits := hs.fits
  cases hstage : m.stage with
  | loop =>
    rw [hstage] at hfits
    exact forall_set (P := fun _ t => t.Idle) (hidle.mpr (hfits d)) (hfits d.other)
  | select enabled =>
    rw [hstage] at hfits
    refine ⟨hfits.1, forall_set (P := fun e t => t.Idle ∧ enabled.get e = t.stream.isNone) ?_
      (hfits.2 d.other)⟩
    rw [hidle, hstream]
    exact hfits.2 d
  | poll e enabled =>
    rw [hstage] at hfits
    obtain ⟨hlt, hother, henabled⟩ := hfits
    refine ⟨?_, ?_, forall_set (P := fun e t => enabled.get e = t.stream.isNone)
      (hstream ▸ henabled d) (henabled d.other)⟩
    · exact forall_set (P := fun f t => f = e → 1 < t.rank)
        (fun hde => by rw [hrank, hde]; exact hlt) (fun hde => hde ▸ hlt) e rfl
    · exact forall_set (P := fun f t => f = e.other → t.Idle)
        (fun hde => by rw [hidle, hde]; exact hother) (fun hde => hde ▸ hother) e.other rfl
  | unwrap =>
    rw [hstage] at hfits
    exact forall_set (P := fun _ t => t.stream.isSome = true) (hstream ▸ hfits d) (hfits d.other)
  | forward g =>
    rw [hstage] at hfits
    exact ⟨hfits.1, forall_set (P := fun _ t => t.stream.isSome = true) (hstream ▸ hfits.2 d)
      (hfits.2 d.other)⟩
  | leave r =>
    rw [hstage] at hfits
    refine forall_set (P := fun _ t => t.parked = true ∨ t.state = .dropped) ?_ (hfits d.other)
    rw [hparked, hstate]
    exact hfits d
  | shutdown r =>
    rw [hstage] at hfits
    exact forall_set (P := fun _ t => t.state = .dropped) (hstate ▸ hfits d) (hfits d.other)
  | exited r => simp [ended, hstage] at hguard
  | panicked => simp [ended, hstage] at hguard

theorem sound_step {a : EntgAct} (hs : m.Sound args) (h : step args m a = some m') :
    m'.Sound args := by
  cases a with
  | loop => exact sound_loop hs h
  | poll d => exact sound_poll hs h
  | advance ev => exact sound_advance hs h
  | pend => exact sound_pend hs h
  | unwrap => exact sound_unwrap hs h
  | copy d op => exact sound_copy hs h
  | drop d => exact sound_drop hs h
  | shutdown => exact sound_shutdown hs h
  | background d a => exact sound_background hs h
  | exit => exact sound_exit hs h

end Steps

theorem sound_of_run {args : EntgArgs} {as : List EntgAct} {m : EntgMain}
    (hrun : run (step args) new as = some m) : m.Sound args :=
  Run.invariant (fun _ _ _ hs hstep => sound_step hs hstep) (new_sound args) hrun

/-- No branch of the `select!` polls a future that has ended, no `select!` has all its branches
disabled, no `unwrap` meets a `None`, and no name is too long for its field. -/
theorem never_panics {args : EntgArgs} {as : List EntgAct} {m : EntgMain}
    (hrun : run (step args) new as = some m) : m.stage ≠ .panicked := by
  intro hstage
  have hfits := (sound_of_run hrun).fits
  rw [hstage] at hfits
  exact hfits

/-- The client of another ENTG, attested on that side only. -/
def attestedArgs : EntgArgs := ⟨some "172.17.0.1:6979", 6979, 6980, true, false⟩

/-- The peer ENTG is connected and negotiated with while the ENTA is still awaited. -/
def establishing : List EntgAct :=
  [.loop, .poll .left, .advance (.bind true), .pend, .poll .right, .advance .connect, .pend,
    .poll .right, .advance (.connected true), .advance (.peerAddr true), .advance (.ratsTls 0 0),
    .advance (.negotiate (.intoStd true)), .advance (.negotiate (.setNonblocking true)),
    .advance (.negotiate .spawn), .pend, .background .right (.negotiator .call),
    .background .right (.negotiator (.ret true)), .background .right (.negotiator .drop),
    .poll .right, .advance (.negotiate .join), .advance (.negotiate .spawn),
    .advance (.negotiate .spawn), .loop, .poll .left, .advance (.accept true),
    .advance (.peerAddr true), .loop, .unwrap]

/-- The ENTA closes its connection before any blocking task has started. -/
def leaving : List EntgAct :=
  [.copy .left (.source .readEof), .copy .left .finish, .drop .left, .drop .right, .shutdown,
    .background .right (.writer .discard), .background .right (.reader .discard),
    .background .right .cleanupRet, .background .right .closeSocket, .exit]

theorem establishing_never_panics : ∃ m, run (step attestedArgs) new establishing = some m ∧
    m.stage ≠ .panicked := by
  obtain ⟨m, hm, _⟩ := Run.exists_of_any (step attestedArgs) new establishing
    (fun m => m.stage = .forward .new) (by decide)
  exact ⟨m, hm, never_panics hm⟩

/-! ## What is forwarded -/

/-- The stream is of the kind that the option asks for. A session has been negotiated, for a
configuration from which the library reads the role and the four names. -/
def AsAsked (a : GetStream) (t : StreamTask) : Prop :=
  if a.ratsTls then
    t.stream = some .duplex ∧ ∃ s c, t.session = some s ∧ t.conf = some c ∧
      .ret .negotiate true ∈ s.arc.trace ∧
      c.flags = (if a.isServer then RatsTls.confFlagsServer else 0) ∧
      ∀ pad f, cString (c.image pad) f.offset = some ((upgradeNames a.isServer).get f)
  else t.stream = some .tcp ∧ t.session = none

theorem upgradeNames_readable (server : Bool) : RatsTls.Readable (upgradeNames server) := by
  constructor
  · intro f
    cases server <;> cases f <;> decide
  · intro f
    left
    cases server <;> cases f <;> decide

theorem conf_flags {server isMutual : Bool} {enclaveId : UInt64} {names : RatsTls.TypeNames}
    {c : RatsTls.RatsTlsConf} (h : RatsTls.conf server enclaveId names isMutual = some c) :
    c.flags = (if isMutual then RatsTls.confFlagsMutual else 0) |||
      if server then RatsTls.confFlagsServer else 0 := by
  simp only [RatsTls.conf, Option.bind_eq_bind, Option.bind_eq_some_iff] at h
  obtain ⟨tls, _, crypto, _, attester, _, verifier, _, hc⟩ := h
  rw [← Option.some.inj hc]
  simp [RatsTls.RatsTlsConf.default]

theorem asAsked_of_shape {a : GetStream} {t : StreamTask} (ht : Shape a t)
    (hsome : t.stream.isSome = true) : AsAsked a t := by
  cases ht with
  | tcp hr htr => simp [AsAsked, hr]
  | @duplex c s tr hr hs hc =>
    obtain ⟨as, hrun⟩ := hs.reachable
    have hnegotiated : .ret .negotiate true ∈ s.arc.trace := by
      have hreader := (Session.spawned_of_run hrun).2 hc
      exact (Session.coherent_of_run hrun).succeeded (by simp [hreader])
    have hflags := conf_flags hs.conf
    have hread := upgradeNames_readable a.isServer
    rw [AsAsked, if_pos hr]
    refine ⟨rfl, s, c, rfl, rfl, hnegotiated, by simpa using hflags, fun pad f => ?_⟩
    rw [RatsTls.cString_field_iff hs.conf pad fun g _ => hread.1 g]
    exact ⟨hread.1 f, hread.2 f⟩
  | _ => simp at hsome

/-- The stages in front of the forwarding, and those that a stream which `main` did not get
leads to. -/
def unforwarded : EntgStage → Bool
  | .loop | .select _ | .poll _ _ | .unwrap => true
  | .leave r | .shutdown r | .exited r =>
    match r with
    | .error (.stream _ _) => true
    | .error (.copy _) | .ok () => false
  | .forward _ | .panicked => false

theorem unforwarded_step {args : EntgArgs} {m m' : EntgMain} {a : EntgAct}
    (h : step args m a = some m') (hm' : unforwarded m'.stage = true) :
    unforwarded m.stage = true ∧ ∀ d op, a ≠ .copy d op := by
  cases a with
  | loop =>
    simp only [step, loop] at h
    split at h
    · rename_i hstage
      simp [hstage, unforwarded]
    · simp at h
  | poll d =>
    simp only [step, poll] at h
    split at h
    · rename_i enabled hstage
      simp [hstage, unforwarded]
    · simp at h
  | advance ev =>
    simp only [step, advance] at h
    split at h
    · rename_i d enabled hstage
      simp [hstage, unforwarded]
    · simp at h
  | pend =>
    simp only [step, pend] at h
    split at h
    · rename_i d enabled hstage
      simp [hstage, unforwarded]
    · simp at h
  | unwrap =>
    simp only [step, unwrap] at h
    split at h
    · rename_i hstage
      simp [hstage, unforwarded]
    · simp at h
  | copy d op =>
    simp only [step, copy] at h
    split at h
    · obtain ⟨g', _, rfl⟩ := Option.map_eq_some_iff.mp h
      dsimp only at hm'
      split at hm' <;> simp [unforwarded] at hm'
    · simp at h
  | drop d =>
    simp only [step, drop] at h
    split at h
    · obtain ⟨t, _, rfl⟩ := Option.map_eq_some_iff.mp h
      exact ⟨hm', by simp⟩
    · simp at h
  | shutdown =>
    simp only [step, shutdown] at h
    split at h
    · rename_i r hstage
      split_ifs at h
      obtain rfl := Option.some.inj h
      rw [hstage]
      exact ⟨hm', by simp⟩
    · simp at h
  | background d b =>
    simp only [step, background] at h
    split_ifs at h
    obtain ⟨t, _, rfl⟩ := Option.map_eq_some_iff.mp h
    exact ⟨hm', by simp⟩
  | exit =>
    simp only [step, exit] at h
    split at h
    · rename_i r hstage
      split_ifs at h
      obtain rfl := Option.some.inj h
      rw [hstage]
      exact ⟨hm', by simp⟩
    · simp at h

theorem copy_notMem {args : EntgArgs} {as : List EntgAct} {m m' : EntgMain}
    (hrun : run (step args) m as = some m') (hm' : unforwarded m'.stage = true) (d : Side)
    (op : CopyOp) : .copy d op ∉ as := by
  induction as using List.reverseRecOn generalizing m' with
  | nil => simp
  | append_singleton as a ih =>
    obtain ⟨u, hu, ha⟩ := Run.run_concat.mp hrun
    obtain ⟨hunforwarded, hne⟩ := unforwarded_step ha hm'
    simpa using ⟨ih hu hunforwarded, (hne d op).symm⟩

/-- A copy loop takes a step only between two streams that are both as the options ask for. A
run that ends with the error of a stream has copied nothing. -/
theorem forwards_asAsked {args : EntgArgs} {as : List EntgAct} {m : EntgMain}
    (hrun : run (step args) new as = some m) :
    (∀ d op m', step args m (.copy d op) = some m' →
      ∀ e, AsAsked (args.call e) (m.tasks.get e)) ∧
    ∀ d e, m.stage = .exited (.error (.stream d e)) → ∀ d op, .copy d op ∉ as := by
  have hs := sound_of_run hrun
  constructor
  · intro d op m' hcopy e
    have hfits := hs.fits
    simp only [step, copy] at hcopy
    split at hcopy
    · rename_i g hstage
      rw [hstage] at hfits
      exact asAsked_of_shape (hs.shape e) (hfits.2 e)
    · simp at hcopy
  · intro d e hexit
    exact copy_notMem hrun (by rw [hexit]; rfl)

theorem establishing_asAsked : ∃ m, run (step attestedArgs) new establishing = some m ∧
    (step attestedArgs m (.copy .left (.source .readEof))).isSome = true ∧
    (∀ d op m', step attestedArgs m (.copy d op) = some m' →
      ∀ e, AsAsked (attestedArgs.call e) (m.tasks.get e)) ∧
    ∀ d e, m.stage = .exited (.error (.stream d e)) → ∀ d op, .copy d op ∉ establishing := by
  obtain ⟨m, hm, hcopy⟩ := Run.exists_of_any (step attestedArgs) new establishing
    (fun m => (step attestedArgs m (.copy .left (.source .readEof))).isSome = true) (by decide)
  exact ⟨m, hm, hcopy, forwards_asAsked hm⟩

/-! ## The end of the process -/

/-- However the process ends, it has closed each listener and each socket once and has not used
them afterwards, and the handle of each session has been cleaned up once. -/
theorem exits_clean {args : EntgArgs} {as : List EntgAct} {m : EntgMain}
    {r : Except EntgError Unit} (hrun : run (step args) new as = some m)
    (hexit : m.stage = .exited r) (d : Side) :
    LinearUse ∅ (m.tasks.get d).trace ∧ ∀ s, (m.tasks.get d).session = some s →
      s.holders = 0 ∧ s.arc.handle = .cleaned ∧ s.arc.socketOpen = false ∧
        s.arc.trace.count .cleanup = 1 := by
  have hs := sound_of_run hrun
  have hfits := hs.fits
  rw [hexit] at hfits
  obtain ⟨hdropped, hsettled⟩ := hfits d
  have hshape := hs.shape d
  revert hdropped hsettled hshape
  generalize m.tasks.get d = t
  intro hdropped hsettled hshape
  cases hshape with
  | failed hst htr => exact ⟨htr, by simp⟩
  | @left state c s tr hst hs hc =>
    obtain ⟨as, hsession⟩ := hs.reachable
    have hcleaned := (Session.accounted_of_run hsession).cleaned_up hc (by simpa using hsettled)
    have hlinear := hs.linear
    simp only [hcleaned.2.2.1, Bool.false_eq_true, and_false, Set.ofPred_false] at hlinear
    refine ⟨hlinear, fun s' hs' => ?_⟩
    rw [← Option.some.inj hs']
    exact hcleaned
  | _ => simp at hdropped

theorem leaving_clean : ∃ m, run (step attestedArgs) new (establishing ++ leaving) = some m ∧
    (m.tasks.get .right).session.isSome = true ∧
    LinearUse ∅ (m.tasks.get .right).trace ∧ ∀ s, (m.tasks.get .right).session = some s →
      s.holders = 0 ∧ s.arc.handle = .cleaned ∧ s.arc.socketOpen = false ∧
        s.arc.trace.count .cleanup = 1 := by
  obtain ⟨m, hm, hexit, hsome⟩ := Run.exists_of_any (step attestedArgs) new
    (establishing ++ leaving) (fun m => m.stage = .exited (.ok ()) ∧
      (m.tasks.get .right).session.isSome = true) (by decide)
  exact ⟨m, hm, hsome, exits_clean hm hexit .right⟩

end EntgMain

end EnclaveNetworkGateway
