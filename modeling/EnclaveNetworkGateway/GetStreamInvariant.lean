import EnclaveNetworkGateway.GetStream
import EnclaveNetworkGateway.SessionProgress

/-!
# The shapes of a stream task

Every task is in one of a few shapes, whatever the outside answers and whenever `main` drops
it. In each of them the task owns its descriptors linearly, and its session is one of those
that `negotiate_async` can reach by itself.
-/
namespace EnclaveNetworkGateway

namespace StreamTask

variable {a : GetStream}

/-- The session and the socket inside it, with the configuration it was made with. -/
structure Shared (a : GetStream) (c : RatsTls.RatsTlsConf) (s : Session)
    (tr : List DescriptorEvent) : Prop where
  conf : RatsTls.conf a.isServer 0 (upgradeNames a.isServer) false = some c
  reachable : ∃ as, run Session.step Session.new as = some s
  linear : LinearUse {x | x = .socket ∧ s.arc.socketOpen = true} tr

/-- The shapes that a task can have. -/
inductive Shape (a : GetStream) : StreamTask → Prop where
  | start : Shape a ⟨.start, none, none, none, []⟩
  | accepting : Shape a ⟨.accepting, none, none, none, [.make .listener]⟩
  | connecting {addr : String} (ht : a.target = .connectTo addr) :
      Shape a ⟨.connecting, none, none, none, []⟩
  | connected {tr : List DescriptorEvent} (htr : LinearUse {.socket} tr) :
      Shape a ⟨.connected, none, none, none, tr⟩
  | upgrading {tr : List DescriptorEvent} (hr : a.ratsTls = true) (htr : LinearUse {.socket} tr) :
      Shape a ⟨.upgrading, none, none, none, tr⟩
  | negotiating {c : RatsTls.RatsTlsConf} {s : Session} {tr : List DescriptorEvent}
      (hr : a.ratsTls = true) (hs : Shared a c s tr) (hc : s.caller.holds = true) :
      Shape a ⟨.negotiating, none, some c, some s, tr⟩
  | tcp {tr : List DescriptorEvent} (hr : a.ratsTls = false) (htr : LinearUse {.socket} tr) :
      Shape a ⟨.finished, some .tcp, none, none, tr⟩
  | duplex {c : RatsTls.RatsTlsConf} {s : Session} {tr : List DescriptorEvent}
      (hr : a.ratsTls = true) (hs : Shared a c s tr) (hc : s.caller = .returned true) :
      Shape a ⟨.finished, some .duplex, some c, some s, tr⟩
  | failed {state : GetState} {c : Option RatsTls.RatsTlsConf} {tr : List DescriptorEvent}
      (hst : state = .finished ∨ state = .dropped) (htr : LinearUse ∅ tr) :
      Shape a ⟨state, none, c, none, tr⟩
  | left {state : GetState} {c : RatsTls.RatsTlsConf} {s : Session} {tr : List DescriptorEvent}
      (hst : state = .finished ∨ state = .dropped) (hs : Shared a c s tr)
      (hc : s.caller.holds = false) : Shape a ⟨state, none, some c, some s, tr⟩

theorem Shape.reachable {t : StreamTask} {s : Session} (ht : Shape a t) (h : t.session = some s) :
    ∃ as, run Session.step Session.new as = some s := by
  cases ht with
  | negotiating hr hs hc | duplex hr hs hc | left hst hs hc =>
    obtain rfl := Option.some.inj h
    exact hs.reachable
  | _ => simp at h

/-! ## Descriptors -/

theorem linear_listener :
    LinearUse ({.listener} : Set Descriptor) ([.make .listener] : List DescriptorEvent) := by
  simpa using (LinearUse.nil (κ := DescriptorCall)).make (x := Descriptor.listener) (by simp)

theorem linear_socket :
    LinearUse ({.socket} : Set Descriptor) ([.make .socket] : List DescriptorEvent) := by
  simpa using (LinearUse.nil (κ := DescriptorCall)).make (x := Descriptor.socket) (by simp)

theorem linear_accepted : LinearUse ({.socket} : Set Descriptor)
    ([.make .listener] ++ [.use .accept .listener, .make .socket, .release .listener] :
      List DescriptorEvent) := by
  have hused := linear_listener.use (x := Descriptor.listener) rfl DescriptorCall.accept
  have hboth := hused.make (x := Descriptor.socket) (by simp)
  have hdone := hboth.release (x := Descriptor.listener) (by simp)
  have hset : insert .socket {.listener} \ {.listener} = ({.socket} : Set Descriptor) := by
    ext x
    cases x <;> simp
  rw [hset] at hdone
  exact hdone

/-- The owner of a single descriptor gives it up. -/
theorem linear_release {x : Descriptor} {tr : List DescriptorEvent} (h : LinearUse {x} tr) :
    LinearUse ∅ (tr ++ [.release x]) := by
  simpa using h.release (x := x) rfl

theorem Shared.of_step {c : RatsTls.RatsTlsConf} {s s' : Session} {tr : List DescriptorEvent}
    {ev : SessionAct} (hs : Shared a c s tr) (h : s.step ev = some s') :
    Shared a c s' (tr ++
      if s.arc.socketOpen && !s'.arc.socketOpen then [.release .socket] else []) := by
  obtain ⟨as, hrun⟩ := hs.reachable
  have hback := Session.socketOpen_of_step (Session.coherent_of_run hrun) h
  refine ⟨hs.conf, ⟨as ++ [ev], Session.step_reachable hrun h⟩, ?_⟩
  have hlinear := hs.linear
  cases hopen : s.arc.socketOpen with
  | false =>
    have hclosed : s'.arc.socketOpen = false := by
      by_contra hne
      simp [hback (by simpa using hne)] at hopen
    simpa [hclosed, hopen] using hlinear
  | true =>
    have hset : {x | x = Descriptor.socket ∧ s.arc.socketOpen = true} = {Descriptor.socket} := by
      simp [hopen]
    rw [hset] at hlinear
    cases hopen' : s'.arc.socketOpen with
    | false => simpa using linear_release hlinear
    | true => simpa using hlinear

/-! ## Steps -/

/-- The shape of a task behind a part of a poll, with its value stored if it has one. -/
def Settles (a : GetStream) (t : StreamTask) : Progress → Prop
  | .going | .ready (.error _) => Shape a t
  | .ready (.ok st) => Shape a (t.store st)
  | .panicked => False

theorem upgradeNames_length (server : Bool) (f : RatsTls.TypeField) :
    ((upgradeNames server).get f).length ≤ 32 := by
  cases server <;> cases f <;> decide

/-- None of the names is too long for its field. -/
theorem upgradeToRatsTls_eq (server : Bool) (initErr callbackErr : UInt32) :
    ∃ c r, upgradeToRatsTls server initErr callbackErr = some (c, r) ∧
      RatsTls.conf server 0 (upgradeNames server) false = some c := by
  have hsome := (RatsTls.conf_isSome_iff server 0 (upgradeNames server) false).mpr
    (upgradeNames_length server)
  obtain ⟨c, hc⟩ := Option.isSome_iff_exists.mp hsome
  exact ⟨c, _, by rw [upgradeToRatsTls, RatsTls.new, hc, Option.map_some], hc⟩

/-- The future of a session returns at the latest with the last of its own steps. -/
theorem caller_of_step {s s' : Session} {ev : Session.CallerEvent} (hev : ev ≠ .drop)
    (h : s.step (.caller ev) = some s') : s'.caller ≠ .dropped := by
  have hc : s.callerStep ev = some s' := h
  unfold Session.callerStep at hc
  split at hc
  case h_6 =>
    split at hc
    · simp [← Option.some.inj hc]
    · simp [← Option.some.inj hc]
    · simp at hc
  case h_9 | h_10 => exact absurd rfl hev
  case h_11 => simp at hc
  all_goals simp [← Option.some.inj hc]

theorem shape_negotiate {c : RatsTls.RatsTlsConf} {s : Session} {tr : List DescriptorEvent}
    {ev : Session.CallerEvent} {t' : StreamTask} {p : Progress} (hr : a.ratsTls = true)
    (hs : Shared a c s tr)
    (h : negotiate ⟨.negotiating, none, some c, some s, tr⟩ ev = some (t', p)) :
    Settles a t' p := by
  simp only [negotiate] at h
  split_ifs at h with hev
  obtain ⟨s', hstep, hres⟩ := Option.map_eq_some_iff.mp h
  have hs' := hs.of_step hstep
  have hdropped := caller_of_step hev hstep
  split at hres
  · rename_i hc
    obtain ⟨rfl, rfl⟩ := Prod.mk.inj hres
    simpa [Settles, withSession, enter, store] using Shape.duplex hr hs' hc
  · rename_i hc
    obtain ⟨rfl, rfl⟩ := Prod.mk.inj hres
    have hgone : s'.caller.holds = false := by simp [hc, Session.Caller.holds]
    simpa [Settles, withSession, enter] using Shape.left (.inl rfl) hs' hgone
  · rename_i htrue hfalse
    obtain ⟨rfl, rfl⟩ := Prod.mk.inj hres
    have hholds : s'.caller.holds = true := by
      cases hc : s'.caller with
      | returned ok => cases ok <;> simp_all
      | dropped => exact absurd hc hdropped
      | _ => rfl
    exact .negotiating hr hs' hholds

theorem Shape.settles {t t' : StreamTask} {ev : PollEvent} {p : Progress} (ht : Shape a t)
    (h : t.advance a ev = some (t', p)) : Settles a t' p := by
  cases ht with
  | start =>
    cases ev with
    | bind ok =>
      simp only [advance] at h
      split at h
      · split_ifs at h
        · obtain ⟨rfl, rfl⟩ := Prod.mk.inj (Option.some.inj h)
          exact .accepting
        · obtain ⟨rfl, rfl⟩ := Prod.mk.inj (Option.some.inj h)
          exact .failed (.inl rfl) .nil
      · simp at h
    | connect =>
      simp only [advance] at h
      split at h
      · rename_i addr htarget
        obtain ⟨rfl, rfl⟩ := Prod.mk.inj (Option.some.inj h)
        exact .connecting htarget
      · simp at h
    | _ => simp [advance] at h
  | accepting =>
    cases ev with
    | accept ok =>
      simp only [advance] at h
      split_ifs at h
      · obtain ⟨rfl, rfl⟩ := Prod.mk.inj (Option.some.inj h)
        exact .connected linear_accepted
      · obtain ⟨rfl, rfl⟩ := Prod.mk.inj (Option.some.inj h)
        have hused := linear_listener.use (x := Descriptor.listener) rfl DescriptorCall.accept
        exact .failed (.inl rfl) (linear_release hused)
    | _ => simp [advance] at h
  | connecting ht =>
    cases ev with
    | connected ok =>
      simp only [advance] at h
      split at h
      · split_ifs at h
        · obtain ⟨rfl, rfl⟩ := Prod.mk.inj (Option.some.inj h)
          exact .connected linear_socket
        · obtain ⟨rfl, rfl⟩ := Prod.mk.inj (Option.some.inj h)
          exact .failed (.inl rfl) .nil
      · simp at h
    | _ => simp [advance] at h
  | connected htr =>
    have hused := htr.use (x := Descriptor.socket) rfl DescriptorCall.peerAddr
    cases ev with
    | peerAddr ok =>
      simp only [advance] at h
      split_ifs at h with hok hr
      · obtain ⟨rfl, rfl⟩ := Prod.mk.inj (Option.some.inj h)
        exact .upgrading hr hused
      · obtain ⟨rfl, rfl⟩ := Prod.mk.inj (Option.some.inj h)
        exact .tcp (by simpa using hr) hused
      · obtain ⟨rfl, rfl⟩ := Prod.mk.inj (Option.some.inj h)
        have hreleased := linear_release hused
        rw [List.append_assoc] at hreleased
        exact .failed (.inl rfl) hreleased
    | _ => simp [advance] at h
  | upgrading hr htr =>
    cases ev with
    | ratsTls initErr callbackErr =>
      obtain ⟨c, r, hnew, hc⟩ := upgradeToRatsTls_eq a.isServer initErr callbackErr
      simp only [advance, hnew] at h
      cases r with
      | ok u =>
        obtain ⟨rfl, rfl⟩ := Prod.mk.inj (Option.some.inj h)
        have hs : Shared a c Session.new _ :=
          ⟨hc, ⟨[], rfl⟩, by simpa [Session.new, SessionArc.new] using htr⟩
        exact .negotiating hr hs rfl
      | error err =>
        obtain ⟨rfl, rfl⟩ := Prod.mk.inj (Option.some.inj h)
        exact .failed (.inl rfl) (linear_release htr)
    | _ => simp [advance] at h
  | negotiating hr hs hc =>
    cases ev with
    | negotiate ev => exact shape_negotiate hr hs h
    | _ => simp [advance] at h
  | tcp hr htr => cases ev <;> simp [advance] at h
  | duplex hr hs hc => cases ev <;> simp [advance] at h
  | failed hst htr => rcases hst with rfl | rfl <;> cases ev <;> simp [advance] at h
  | left hst hs hc => rcases hst with rfl | rfl <;> cases ev <;> simp [advance] at h

theorem Shape.of_drop {t t' : StreamTask} (ht : Shape a t) (h : t.drop = some t') :
    Shape a t' ∧ t'.state = .dropped := by
  cases ht with
  | start | connecting =>
    obtain rfl := Option.some.inj h
    exact ⟨.failed (.inr rfl) .nil, rfl⟩
  | accepting =>
    obtain rfl := Option.some.inj h
    exact ⟨.failed (.inr rfl) (linear_release linear_listener), rfl⟩
  | connected htr => simp [drop] at h
  | upgrading hr htr => simp [drop] at h
  | @negotiating c s tr hr hs hc =>
    obtain ⟨s', hstep, rfl⟩ := Option.map_eq_some_iff.mp h
    have hgone : s'.caller.holds = false := by
      have hdrop : s.callerStep .drop = some s' := hstep
      unfold Session.callerStep at hdrop
      split at hdrop <;> simp_all
      all_goals simp [← hdrop, Session.Caller.holds]
    refine ⟨?_, rfl⟩
    simpa [withSession, enter] using Shape.left (.inr rfl) (hs.of_step hstep) hgone
  | tcp hr htr =>
    obtain rfl := Option.some.inj h
    exact ⟨.failed (.inr rfl) (by simpa [enter] using linear_release htr), rfl⟩
  | duplex hr hs hc =>
    obtain rfl := Option.some.inj h
    refine ⟨?_, rfl⟩
    simpa [enter] using Shape.left (.inr rfl) hs (by simp [hc, Session.Caller.holds])
  | failed hst htr =>
    rcases hst with rfl | rfl
    · obtain rfl := Option.some.inj h
      exact ⟨.failed (.inr rfl) (by simpa [enter] using htr), rfl⟩
    · simp [drop] at h
  | left hst hs hc =>
    rcases hst with rfl | rfl
    · obtain rfl := Option.some.inj h
      refine ⟨?_, rfl⟩
      simpa [enter] using Shape.left (.inr rfl) hs hc
    · simp [drop] at h

/-- The tasks of a session do not touch its future. -/
theorem caller_of_background {s s' : Session} {ev : SessionAct} (hev : ∀ c, ev ≠ .caller c)
    (h : s.step ev = some s') : s'.caller = s.caller := by
  cases ev with
  | caller c => exact absurd rfl (hev c)
  | negotiator n => exact (Session.negotiatorStep_frame h).1
  | writer w => exact (Session.writerStep_frame h).1
  | reader r => exact (Session.readerStep_frame h).1
  | cleanupRet =>
    simp only [Session.step] at h
    split_ifs at h
    rw [← Option.some.inj h]
  | closeSocket =>
    simp only [Session.step] at h
    split_ifs at h
    rw [← Option.some.inj h]

theorem background_eq_some {t t' : StreamTask} {ev : SessionAct} (h : t.background ev = some t') :
    ∃ s s', t.session = some s ∧ s.step ev = some s' ∧ s'.caller = s.caller ∧
      t' = t.withSession s s' := by
  unfold background at h
  split at h
  · simp at h
  · simp at h
  · rename_i s hne hsession
    obtain ⟨s', hstep, rfl⟩ := Option.map_eq_some_iff.mp h
    exact ⟨s, s', hsession, hstep, caller_of_background hne hstep, rfl⟩

theorem Shape.of_background {t t' : StreamTask} {ev : SessionAct} (ht : Shape a t)
    (h : t.background ev = some t') : Shape a t' := by
  obtain ⟨s, s', hsession, hstep, hcaller, rfl⟩ := background_eq_some h
  cases ht with
  | negotiating hr hs hc =>
    obtain rfl := Option.some.inj hsession
    exact .negotiating hr (hs.of_step hstep) (hcaller ▸ hc)
  | duplex hr hs hc =>
    obtain rfl := Option.some.inj hsession
    exact .duplex hr (hs.of_step hstep) (hcaller.trans hc)
  | left hst hs hc =>
    obtain rfl := Option.some.inj hsession
    exact .left hst (hs.of_step hstep) (hcaller ▸ hc)
  | _ => simp at hsession

/-! ## Progress -/

/-- A task that no poll is at work on: not polled yet, past its end, or waiting. -/
def parked (t : StreamTask) : Bool := t.state = .start || t.state = .finished || t.waits

theorem background_frame {t t' : StreamTask} {ev : SessionAct} (h : t.background ev = some t') :
    t'.state = t.state ∧ t'.stream = t.stream ∧ t'.waits = t.waits ∧ t'.parked = t.parked := by
  obtain ⟨s, s', hsession, hstep, hcaller, rfl⟩ := background_eq_some h
  have hwaits : (t.withSession s s').waits = t.waits := by
    simp [waits, withSession, hsession, hcaller]
  refine ⟨rfl, rfl, hwaits, ?_⟩
  rw [parked, parked, hwaits]
  rfl

/-- Wherever a poll stops, the task waits for something. -/
theorem Shape.advances {t : StreamTask} (ht : Shape a t) (hfin : t.state ≠ .finished)
    (hdrop : t.state ≠ .dropped) : t.waits = true ∨
    ∃ ev, (t.advance a ev).isSome = true := by
  cases ht with
  | start =>
    right
    cases htarget : a.target with
    | listenOnPort port => exact ⟨.bind true, by simp [advance, htarget]⟩
    | connectTo addr => exact ⟨.connect, by simp [advance, htarget]⟩
  | accepting => exact .inl rfl
  | connecting => exact .inl rfl
  | connected htr => exact .inr ⟨.peerAddr false, rfl⟩
  | upgrading hr htr =>
    obtain ⟨c, r, hnew, hc⟩ := upgradeToRatsTls_eq a.isServer 0 0
    right
    refine ⟨.ratsTls 0 0, ?_⟩
    cases r <;> simp [advance, hnew]
  | @negotiating c s tr hr hs hc =>
    have hstep : ∀ ev, ev ≠ .drop → (s.step (.caller ev)).isSome = true →
        ∃ ev, (advance a ⟨.negotiating, none, some c, some s, tr⟩ ev).isSome = true :=
      fun ev hev hsome => ⟨.negotiate ev, by simpa [advance, negotiate, hev] using hsome⟩
    cases hcaller : s.caller with
    | unpolled =>
      exact .inr (hstep (.intoStd true) (by simp)
        (by simp [Session.step, Session.callerStep, hcaller]))
    | std =>
      exact .inr (hstep (.setNonblocking true) (by simp)
        (by simp [Session.step, Session.callerStep, hcaller]))
    | shared =>
      exact .inr (hstep .spawn (by simp) (by simp [Session.step, Session.callerStep, hcaller]))
    | awaiting => exact .inl (by simp [waits, hcaller])
    | negotiated =>
      exact .inr (hstep .spawn (by simp) (by simp [Session.step, Session.callerStep, hcaller]))
    | writerSpawned =>
      exact .inr (hstep .spawn (by simp) (by simp [Session.step, Session.callerStep, hcaller]))
    | returned ok => simp [hcaller, Session.Caller.holds] at hc
    | dropped => simp [hcaller, Session.Caller.holds] at hc
  | tcp hr htr => exact absurd rfl hfin
  | duplex hr hs hc => exact absurd rfl hfin
  | failed hst htr =>
    rcases hst with rfl | rfl
    · exact absurd rfl hfin
    · exact absurd rfl hdrop
  | left hst hs hc =>
    rcases hst with rfl | rfl
    · exact absurd rfl hfin
    · exact absurd rfl hdrop

/-- A task that no poll is at work on can be dropped. -/
theorem Shape.drops {t : StreamTask} (ht : Shape a t) (hp : t.parked = true) :
    t.drop.isSome = true := by
  cases ht with
  | @negotiating c s tr hr hs hc =>
    have hcaller : s.caller = .awaiting := by simpa [parked, waits] using hp
    simp [drop, Session.step, Session.callerStep, hcaller]
  | connected htr => simp [parked, waits] at hp
  | upgrading hr htr => simp [parked, waits] at hp
  | failed hst htr =>
    rcases hst with rfl | rfl
    · rfl
    · simp [parked, waits] at hp
  | left hst hs hc =>
    rcases hst with rfl | rfl
    · rfl
    · simp [parked, waits] at hp
  | start | accepting | connecting | tcp | duplex => rfl

/-- How many steps of its own a task has left at most. -/
def rank (t : StreamTask) : ℕ :=
  match t.state with
  | .start => 12
  | .accepting | .connecting => 11
  | .connected => 10
  | .upgrading => 9
  | .negotiating => 8 - (t.session.map (·.caller.progress)).getD 0
  | .finished => 1
  | .dropped => 0

theorem progress_of_step {s s' : Session} {ev : Session.CallerEvent}
    (h : s.step (.caller ev) = some s') :
    s.caller.progress ≤ 5 ∧ s.caller.progress < s'.caller.progress := by
  have hc : s.callerStep ev = some s' := h
  unfold Session.callerStep at hc
  split at hc
  case h_6 hcaller =>
    split at hc
    · simp [← Option.some.inj hc, hcaller, Session.Caller.progress]
    · simp [← Option.some.inj hc, hcaller, Session.Caller.progress]
    · simp at hc
  case h_11 => simp at hc
  all_goals
    rename_i hcaller
    simp [← Option.some.inj hc, hcaller, Session.Caller.progress]

theorem one_lt_rank_iff {t : StreamTask} :
    1 < t.rank ↔ t.state ≠ .finished ∧ t.state ≠ .dropped := by
  unfold rank
  cases hstate : t.state with
  | negotiating =>
    cases t.session with
    | none => simp
    | some s =>
      have hle : s.caller.progress ≤ 6 := by cases s.caller <;> simp [Session.Caller.progress]
      simp
      omega
  | _ => simp

/-- A part of a poll brings the task closer to its end. -/
theorem Shape.rank_lt {t t' : StreamTask} {ev : PollEvent} {p : Progress} (ht : Shape a t)
    (h : t.advance a ev = some (t', p)) :
    t'.rank < t.rank ∧
      (p = .going ∧ 1 < t'.rank ∨ p ≠ .going ∧ t'.state = .finished) := by
  cases ht with
  | negotiating hr hs hc =>
    cases ev with
    | negotiate ev =>
      simp only [advance, negotiate] at h
      split_ifs at h with hev
      obtain ⟨s', hstep, hres⟩ := Option.map_eq_some_iff.mp h
      have hprogress := progress_of_step hstep
      split at hres
      · obtain ⟨rfl, rfl⟩ := Prod.mk.inj hres
        simp [rank, enter]
        omega
      · obtain ⟨rfl, rfl⟩ := Prod.mk.inj hres
        simp [rank, enter]
        omega
      · obtain ⟨rfl, rfl⟩ := Prod.mk.inj hres
        refine ⟨?_, .inl ⟨rfl, one_lt_rank_iff.mpr (by simp [withSession])⟩⟩
        simp [rank, withSession]
        omega
    | _ => simp [advance] at h
  | upgrading hr htr =>
    cases ev with
    | ratsTls initErr callbackErr =>
      obtain ⟨c, r, hnew, hc⟩ := upgradeToRatsTls_eq a.isServer initErr callbackErr
      simp only [advance, hnew] at h
      cases r with
      | ok u =>
        obtain ⟨rfl, rfl⟩ := Prod.mk.inj (Option.some.inj h)
        simp [rank, Session.new, Session.Caller.progress]
      | error err =>
        obtain ⟨rfl, rfl⟩ := Prod.mk.inj (Option.some.inj h)
        simp [rank, enter]
    | _ => simp [advance] at h
  | tcp hr htr => cases ev <;> simp [advance] at h
  | duplex hr hs hc => cases ev <;> simp [advance] at h
  | failed hst htr => rcases hst with rfl | rfl <;> cases ev <;> simp [advance] at h
  | left hst hs hc => rcases hst with rfl | rfl <;> cases ev <;> simp [advance] at h
  | _ =>
    cases ev <;> simp only [advance, reduceCtorEq] at h <;> split at h
    all_goals try split_ifs at h
    all_goals first
      | contradiction
      | (obtain ⟨rfl, rfl⟩ := Prod.mk.inj (Option.some.inj h)
         simp [rank, enter])

theorem rank_drop {t t' : StreamTask} (h : t.drop = some t') : t'.rank < t.rank := by
  unfold drop at h
  split at h
  case h_4 hstate =>
    have hlt : 1 < t.rank := one_lt_rank_iff.mpr (by simp [hstate])
    split at h
    · simp at h
    · obtain ⟨s', _, rfl⟩ := Option.map_eq_some_iff.mp h
      simp only [rank, enter] at hlt ⊢
      omega
  case h_6 | h_7 | h_8 => simp at h
  all_goals
    rename_i hstate
    obtain rfl := Option.some.inj h
    simp [rank, enter, hstate]

theorem rank_background {t t' : StreamTask} {ev : SessionAct} (h : t.background ev = some t') :
    t'.rank = t.rank := by
  obtain ⟨s, s', hsession, hstep, hcaller, rfl⟩ := background_eq_some h
  simp [rank, withSession, hsession, hcaller]

end StreamTask

end EnclaveNetworkGateway
