import EnclaveNetworkGateway.EntgMainRun

/-!
# The way of ENTG to its exit

Around the forwarding `main` takes few steps of its own besides polls. Whatever has happened
so far, the process can still come to its end.
-/
namespace EnclaveNetworkGateway

namespace StreamTask

variable {a : GetStream}

/-- How far the threads of the session are from their ends. -/
def threadRank (t : StreamTask) : ℕ := (t.session.map Session.rank).getD 0

theorem threadRank_le (t : StreamTask) : t.threadRank ≤ 15 := by
  unfold threadRank
  cases t.session with
  | none => simp
  | some s => simpa using s.rank_le

theorem Shape.background_shrinks {t : StreamTask} (ht : Shape a t)
    (hsettled : t.session.all Session.settled = false) :
    ∃ b t', b.isDiscard = false ∧ t.background b = some t' ∧ t'.threadRank < t.threadRank := by
  cases hsession : t.session with
  | none => simp [hsession] at hsettled
  | some s =>
    obtain ⟨as, hrun⟩ := ht.reachable hsession
    obtain ⟨b, hb, hdiscard, s', hstep, hlt⟩ :=
      (Session.accounted_of_run hrun).shrinks (by simpa [hsession] using hsettled)
    have hbackground : t.background b = some (t.withSession s s') := by
      cases b with
      | caller c => exact absurd rfl (hb c)
      | _ => simp [StreamTask.background, hsession, hstep]
    exact ⟨b, _, hdiscard, hbackground, by simpa [threadRank, withSession, hsession] using hlt⟩

/-- The outside can always bring a future further, if need be after the closure that
negotiates has gone on. -/
theorem Shape.pushes {t : StreamTask} (ht : Shape a t) (hlt : 1 < t.rank) :
    (∃ ev, (t.advance a ev).isSome = true) ∨
      ∃ b t', b.isDiscard = false ∧ t.background b = some t' ∧ t'.threadRank < t.threadRank := by
  obtain ⟨hfin, hdrop⟩ := one_lt_rank_iff.mp hlt
  rcases ht.advances hfin hdrop with hwaits | hadv
  · cases ht with
    | accepting => exact .inl ⟨.accept false, rfl⟩
    | connecting htarget => exact .inl ⟨.connected false, by simp [advance, htarget]⟩
    | @negotiating c s tr hr hs hc =>
      have hawait : s.caller = .awaiting := by simpa [waits] using hwaits
      obtain ⟨as, hrun⟩ := hs.reachable
      have hspawned := (Session.spawned_of_run hrun).1 hawait
      cases hn : s.negotiator with
      | unspawned => exact absurd hn hspawned
      | finished result =>
        left
        refine ⟨.negotiate .join, ?_⟩
        cases result with
        | none => simp [advance, negotiate, Session.step, Session.callerStep, hawait, hn]
        | some ok =>
          cases ok <;> simp [advance, negotiate, Session.step, Session.callerStep, hawait, hn]
      | queued | calling | done =>
        right
        exact (Shape.negotiating hr hs hc).background_shrinks
          (by simp [Session.settled, hn, Session.Negotiator.holds])
    | failed hst htr => rcases hst with rfl | rfl <;> simp [waits] at hwaits
    | left hst hs hc => rcases hst with rfl | rfl <;> simp [waits] at hwaits
    | _ => simp [waits] at hwaits
  · exact .inl hadv

end StreamTask

/-- A step of `main` that brings it further: not a poll or its end, not one of the copy loops, and
not one of the threads and tasks of a session. -/
def EntgAct.advances : EntgAct → Bool
  | .poll _ | .pend | .copy _ _ | .background _ _ => false
  | _ => true

/-- How far `main` is from its end. -/
def EntgStage.rank : EntgStage → ℕ
  | .loop => 5
  | .select _ | .poll _ _ | .unwrap => 4
  | .forward _ => 3
  | .leave _ => 2
  | .shutdown _ => 1
  | .exited _ | .panicked => 0

namespace EntgMain

open StreamTask

/-- A task counts twice, since the end of a future takes `main` back to its loop. -/
def rank (m : EntgMain) : ℕ :=
  2 * ((m.tasks.get .left).rank + (m.tasks.get .right).rank) + m.stage.rank

theorem sum_set (tasks : Pair StreamTask) (d : Side) (t : StreamTask) :
    ((tasks.set d t).get .left).rank + ((tasks.set d t).get .right).rank + (tasks.get d).rank =
      (tasks.get .left).rank + (tasks.get .right).rank + t.rank := by
  cases d <;> simp only [Pair.get, Pair.set] <;> omega

theorem rank_step {args : EntgArgs} {m m' : EntgMain} {a : EntgAct} (hs : m.Sound args)
    (h : step args m a = some m') : m'.rank + a.advances.toNat ≤ m.rank := by
  have hpanic : m'.stage ≠ .panicked := by
    intro hstage
    have hfits := (sound_step hs h).fits
    rw [hstage] at hfits
    exact hfits
  cases a with
  | loop =>
    simp only [step, loop] at h
    split at h
    · rename_i hstage
      split_ifs at h with hopen hnone
      · obtain rfl := Option.some.inj h
        exact absurd rfl hpanic
      · obtain rfl := Option.some.inj h
        simp [rank, hstage, EntgStage.rank, EntgAct.advances]
      · obtain rfl := Option.some.inj h
        simp [rank, hstage, EntgStage.rank, EntgAct.advances]
    · simp at h
  | poll d =>
    simp only [step, poll] at h
    split at h
    · rename_i enabled hstage
      split_ifs at h with henabled hfin
      · obtain rfl := Option.some.inj h
        exact absurd rfl hpanic
      · obtain rfl := Option.some.inj h
        simp [rank, hstage, EntgStage.rank, EntgAct.advances]
    · simp at h
  | advance ev =>
    simp only [step, advance] at h
    split at h
    · rename_i d enabled hstage
      obtain ⟨⟨t, p⟩, hadv, rfl⟩ := Option.map_eq_some_iff.mp h
      have hlt := ((hs.shape d).rank_lt hadv).1
      have hsum := sum_set m.tasks d t
      cases p with
      | going =>
        simp only [rank, onProgress, hstage, EntgStage.rank, EntgAct.advances, Bool.toNat_true]
        omega
      | ready r =>
        cases r with
        | ok st =>
          have hstore : (t.store st).rank = t.rank := rfl
          have hsum' := sum_set m.tasks d (t.store st)
          simp only [rank, onProgress, hstage, EntgStage.rank, EntgAct.advances, Bool.toNat_true]
          omega
        | error e =>
          simp only [rank, onProgress, hstage, EntgStage.rank, EntgAct.advances, Bool.toNat_true]
          omega
      | panicked => exact absurd rfl hpanic
    · simp at h
  | pend =>
    simp only [step, pend] at h
    split at h
    · rename_i d enabled hstage
      split_ifs at h
      obtain rfl := Option.some.inj h
      simp [rank, hstage, EntgStage.rank, EntgAct.advances]
    · simp at h
  | unwrap =>
    simp only [step, unwrap] at h
    split at h
    · rename_i hstage
      obtain rfl := Option.some.inj h
      dsimp only at hpanic
      split at hpanic
      · simp [rank, EntgStage.rank, EntgAct.advances, *]
      · exact absurd rfl hpanic
    · simp at h
  | copy d op =>
    simp only [step, copy] at h
    split at h
    · rename_i g hstage
      obtain ⟨g', _, rfl⟩ := Option.map_eq_some_iff.mp h
      simp only [rank, hstage, EntgAct.advances, Bool.toNat_false]
      split <;> simp [EntgStage.rank]
    · simp at h
  | drop d =>
    simp only [step, drop] at h
    split at h
    · rename_i r hstage
      obtain ⟨t, hdrop, rfl⟩ := Option.map_eq_some_iff.mp h
      have hlt := rank_drop hdrop
      have hsum := sum_set m.tasks d t
      simp only [rank, EntgAct.advances, Bool.toNat_true]
      omega
    · simp at h
  | shutdown =>
    simp only [step, shutdown] at h
    split at h
    · rename_i r hstage
      split_ifs at h
      obtain rfl := Option.some.inj h
      simp [rank, hstage, EntgStage.rank, EntgAct.advances]
    · simp at h
  | background d b =>
    simp only [step, background] at h
    split_ifs at h
    obtain ⟨t, ht, rfl⟩ := Option.map_eq_some_iff.mp h
    have heq := rank_background ht
    have hsum := sum_set m.tasks d t
    simp only [rank, EntgAct.advances, Bool.toNat_false]
    omega
  | exit =>
    simp only [step, exit] at h
    split at h
    · rename_i r hstage
      split_ifs at h
      obtain rfl := Option.some.inj h
      simp [rank, hstage, EntgStage.rank, EntgAct.advances]
    · simp at h

/-- Apart from polls and from the copy loops, `main` itself takes at most 53 steps, in every run.
The threads and tasks of the sessions are not counted. -/
theorem bounded_steps {args : EntgArgs} {as : List EntgAct} {m : EntgMain}
    (hrun : run (step args) new as = some m) : as.countP EntgAct.advances ≤ 53 := by
  have hle := Run.countP_le_of_measure (I := Sound args) (p := EntgAct.advances) (μ := rank)
    (fun s a t hs hstep => ⟨sound_step hs hstep, rank_step hs hstep⟩) (new_sound args) hrun
  have hnew : new.rank = 53 := rfl
  omega

theorem leaving_bounded_steps :
    ∃ m, run (step attestedArgs) new (establishing ++ leaving) = some m ∧
    (establishing ++ leaving).countP EntgAct.advances ≤ 53 := by
  obtain ⟨m, hm, _⟩ := Run.exists_of_any (step attestedArgs) new (establishing ++ leaving)
    (fun m => m.ended = true) (by decide)
  exact ⟨m, hm, bounded_steps hm⟩

/-! ## The end can always be reached -/

/-- Steps of `main` count for more than all those of the threads. -/
def distance (m : EntgMain) : ℕ :=
  31 * m.rank + (m.tasks.get .left).threadRank + (m.tasks.get .right).threadRank

theorem distance_lt {m m' : EntgMain} (h : m'.rank < m.rank) : m'.distance < m.distance := by
  have hl := threadRank_le (m'.tasks.get .left)
  have hr := threadRank_le (m'.tasks.get .right)
  simp only [distance]
  omega

/-- A copy loop can always fail or end. -/
theorem copy_returns {g : Entg} (h : g.returned = none) (d : Side) :
    ∃ op g' r, g.step (d, op) = some g' ∧ g'.returned = some r := by
  by_cases hbuf : (g.loops.get d).buf = []
  · cases hdone : (g.loops.get d).readDone with
    | false =>
      exact ⟨.source .readErr, _, (d, false), Entg.step_eq_some.mpr
        ⟨h, g.loops.get d, some false, by simp [CopyLoop.step, hbuf, hdone], rfl⟩, rfl⟩
    | true =>
      exact ⟨.finish, _, (d, true), Entg.step_eq_some.mpr
        ⟨h, g.loops.get d, some true, by simp [CopyLoop.step, hbuf, hdone], rfl⟩, rfl⟩
  · exact ⟨.sink .writeErr, _, (d, false), Entg.step_eq_some.mpr
      ⟨h, g.loops.get d, some false, by simp [CopyLoop.step, hbuf], rfl⟩, rfl⟩

section Exit

variable {args : EntgArgs} {m : EntgMain}

theorem nearer_of_advances (hs : m.Sound args) {a : EntgAct} (ha : a.advances = true)
    (hsome : (step args m a).isSome = true) :
    ∃ as m', run (step args) m as = some m' ∧ m'.Sound args ∧ m'.distance < m.distance := by
  obtain ⟨m', hm'⟩ := Option.isSome_iff_exists.mp hsome
  have hrank := rank_step hs hm'
  rw [ha, Bool.toNat_true] at hrank
  exact ⟨[a], m', by rw [Run.run_singleton, hm'], sound_step hs hm', distance_lt (by omega)⟩

theorem nearer_of_background (hs : m.Sound args) {d : Side} {b : SessionAct} {t : StreamTask}
    (hend : m.ended = false) (hdiscard : b.isDiscard = false)
    (ht : (m.tasks.get d).background b = some t)
    (hlt : t.threadRank < (m.tasks.get d).threadRank) :
    ∃ as m', run (step args) m as = some m' ∧ m'.Sound args ∧ m'.distance < m.distance := by
  have hstep : step args m (.background d b) = some { m with tasks := m.tasks.set d t } := by
    simp [step, background, hend, hdiscard, ht]
  refine ⟨[.background d b], _, by rw [Run.run_singleton, hstep], sound_step hs hstep, ?_⟩
  have hrank := rank_background ht
  cases d <;> simp only [distance, rank, Pair.get, Pair.set] at hrank hlt ⊢ <;> omega

/-- Unless the process has ended, some steps bring it nearer to its end. -/
theorem nearer (hs : m.Sound args) (hend : m.ended = false) :
    ∃ as m', run (step args) m as = some m' ∧ m'.Sound args ∧ m'.distance < m.distance := by
  have hfits := hs.fits
  cases hstage : m.stage with
  | loop =>
    refine nearer_of_advances hs (a := .loop) rfl ?_
    simp only [step, loop, hstage]
    split <;> rfl
  | select enabled =>
    rw [hstage] at hfits
    obtain ⟨⟨d, hd⟩, hidle⟩ := hfits
    have hnone : (m.tasks.get d).stream = none := by simpa [(hidle d).2] using hd
    have hfin : (m.tasks.get d).state ≠ .finished := by simp [(hidle d).1.2, hnone]
    have hpoll : step args m (.poll d) = some { m with stage := .poll d enabled } := by
      simp [step, poll, hstage, hd, hfin]
    have hs' := sound_step hs hpoll
    have hlt : 1 < (m.tasks.get d).rank := hs'.fits.1
    rcases (hs.shape d).pushes hlt with ⟨ev, hev⟩ | ⟨b, t, hdiscard, ht, hlt⟩
    · obtain ⟨as, m', hrun, hsound, hnear⟩ := nearer_of_advances hs' (a := .advance ev) rfl
        (by simpa [step, advance] using hev)
      refine ⟨.poll d :: as, m', Run.run_cons.mpr ⟨_, hpoll, hrun⟩, hsound, ?_⟩
      simpa [distance, rank, hstage, EntgStage.rank] using hnear
    · exact nearer_of_background hs hend hdiscard ht hlt
  | poll d enabled =>
    rw [hstage] at hfits
    rcases (hs.shape d).pushes hfits.1 with ⟨ev, hev⟩ | ⟨b, t, hdiscard, ht, hlt⟩
    · exact nearer_of_advances hs (a := .advance ev) rfl
        (by simpa [step, advance, hstage] using hev)
    · exact nearer_of_background hs hend hdiscard ht hlt
  | unwrap => exact nearer_of_advances hs (a := .unwrap) rfl (by simp [step, unwrap, hstage])
  | forward g =>
    rw [hstage] at hfits
    obtain ⟨op, g', ⟨e, ok⟩, hg, hret⟩ := copy_returns hfits.1 .left
    have hcopy : ∃ r, step args m (.copy .left op) = some { m with stage := .leave r } := by
      cases ok with
      | true => exact ⟨.ok (), by simp [step, copy, hstage, hg, hret]⟩
      | false => exact ⟨.error (.copy e), by simp [step, copy, hstage, hg, hret]⟩
    obtain ⟨r, hcopy⟩ := hcopy
    refine ⟨[.copy .left op], _, by rw [Run.run_singleton, hcopy], sound_step hs hcopy, ?_⟩
    simp [distance, rank, hstage, EntgStage.rank]
  | leave r =>
    rw [hstage] at hfits
    by_cases hl : m.tasks.left.state = .dropped
    · by_cases hr : m.tasks.right.state = .dropped
      · exact nearer_of_advances hs (a := .shutdown) rfl
          (by simp [step, shutdown, hstage, hl, hr])
      · have hdrops := (hs.shape .right).drops ((hfits .right).resolve_right hr)
        exact nearer_of_advances hs (a := .drop .right) rfl
          (by simpa [step, drop, hstage] using hdrops)
    · have hdrops := (hs.shape .left).drops ((hfits .left).resolve_right hl)
      exact nearer_of_advances hs (a := .drop .left) rfl
        (by simpa [step, drop, hstage] using hdrops)
  | shutdown r =>
    by_cases hsettled : ∀ d, (m.tasks.get d).session.all Session.settled = true
    · refine nearer_of_advances hs (a := .exit) rfl ?_
      have hl : m.tasks.left.session.all Session.settled = true := hsettled .left
      have hr : m.tasks.right.session.all Session.settled = true := hsettled .right
      simp only [step, exit, hstage, if_pos (And.intro hl hr), Option.isSome_some]
    · push Not at hsettled
      obtain ⟨d, hd⟩ := hsettled
      obtain ⟨b, t, hdiscard, ht, hlt⟩ := (hs.shape d).background_shrinks (by simpa using hd)
      exact nearer_of_background hs hend hdiscard ht hlt
  | exited r => simp [ended, hstage] at hend
  | panicked => simp [ended, hstage] at hend

end Exit

/-- From every state of a run some continuation takes the process to its exit. -/
theorem can_exit {args : EntgArgs} {as : List EntgAct} {m : EntgMain}
    (hrun : run (step args) new as = some m) :
    ∃ bs m' r, run (step args) m bs = some m' ∧ m'.stage = .exited r := by
  have hstep : ∀ u : EntgMain, u.Sound args → u.ended = true ∨
      ∃ as v, run (step args) u as = some v ∧ v.Sound args ∧ v.distance < u.distance := by
    intro u hu
    cases hend : u.ended with
    | true => exact .inl rfl
    | false => exact .inr (nearer hu hend)
  obtain ⟨bs, m', hbs, hend⟩ := Run.exists_run_of_measure distance hstep (sound_of_run hrun)
  have hfits := (sound_of_run (Run.run_append.mpr ⟨m, hrun, hbs⟩)).fits
  cases hstage : m'.stage with
  | exited r => exact ⟨bs, m', r, hbs, hstage⟩
  | panicked =>
    rw [hstage] at hfits
    exact absurd hfits id
  | _ => simp [ended, hstage] at hend

theorem establishing_can_exit : ∃ m, run (step attestedArgs) new establishing = some m ∧
    ∃ bs m' r, run (step attestedArgs) m bs = some m' ∧ m'.stage = .exited r := by
  obtain ⟨m, hm, _⟩ := Run.exists_of_any (step attestedArgs) new establishing
    (fun m => m.stage = .forward .new) (by decide)
  exact ⟨m, hm, can_exit hm⟩

end EntgMain

end EnclaveNetworkGateway
