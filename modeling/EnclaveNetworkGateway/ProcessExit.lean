import EnclaveNetworkGateway.ProcessLog

/-!
# The way to the return of `main`

Outside of the forwarding `main` of ENTA takes few steps, and behind the connection it always
has one to take. While it forwards, a reported SIGINT is enough to get it to its return.
-/
namespace EnclaveNetworkGateway

open Netfilter (NetCommand RunFate Tables)
open Shell (Running)

/-- A step of `main`, or of a shell that it waits for, outside of the forwarding, or the one by
which a signal ends the forwarding. -/
def ProcessAct.advances : ProcessAct → Bool
  | connect | createTun | start | command | output | enta .ctrlC | exit => true
  | pollCtrlC | enta _ | sigint => false

/-- The most steps that lead from a script to the return, with no more than four commands in the
capture half and one in the replay half. -/
def Script.rank : Script → ℕ
  | setupCapture => 19
  | setupReplay => 13
  | cleanUpCapture => 9
  | cleanUpReplay => 3

/-- The same from a stage on. -/
def Stage.rank : Stage → ℕ
  | connect => 21
  | createTun => 20
  | script k => k.rank
  | shell k r => r.rest.length + 1 +
      match k with
      | .setupCapture => 13
      | .setupReplay => 10
      | .cleanUpCapture => 3
      | .cleanUpReplay => 0
  | forward _ => 10
  | done => 0

namespace Process

variable {codec : TunCodec} {capture replay : Option UInt16} {f : RunFate} {p q : Process}
  {a : ProcessAct}

def rank (p : Process) : ℕ := p.stage.rank + p.ending.isNone.toNat

theorem Script.length_le {k : Script} {cs : List NetCommand}
    (h : k.commands capture replay = some cs) :
    (Stage.shell k ⟨cs, true⟩).rank < k.rank := by
  cases k with
  | setupCapture | setupReplay | cleanUpCapture | cleanUpReplay =>
    obtain ⟨port, _, rfl⟩ := Option.map_eq_some_iff.mp h
    simp [Stage.rank, Script.rank, Netfilter.setupCapture, Netfilter.setupReplay,
      Netfilter.cleanUpCapture, Netfilter.cleanUpReplay]

theorem Script.next_rank (k : Script) (ok : Bool) : (k.next ok).rank < k.rank := by
  cases k <;> cases ok <;> decide

/-- The end of a shell brings `main` further, too. -/
theorem Script.next_rank_shell (k : Script) (ok : Bool) :
    (k.next ok).rank < (Stage.shell k ⟨[], ok⟩).rank := by
  cases k <;> cases ok <;> decide

theorem rank_shell {k : Script} {r r' : Running NetCommand} {works : NetCommand → Bool}
    {t t' : Tables} (h : r.next NetCommand.exec k.errexit works t = some (r', t')) :
    (Stage.shell k r').rank < (Stage.shell k r).rank := by
  obtain ⟨rest, ok⟩ := r
  cases rest with
  | nil => simp [Running.next] at h
  | cons c cs =>
    obtain ⟨rfl, rfl⟩ := Prod.mk.inj (Option.some.inj h)
    simp only [Stage.rank, List.length_cons]
    split <;> simp

theorem Enta.main_of_ctrlC {e e' : Enta} (h : e.step codec .ctrlC = some e') :
    e'.main = .cleanUp := by
  simp only [Enta.step] at h
  split_ifs at h
  exact (congrArg Enta.main (Option.some.inj h)).symm

/-- A step that is not the one by which a signal ends the forwarding does not count. -/
theorem advances_enta {e e' : Enta} {a : EntaAct} (h : e.step codec a = some e')
    (hmain : e'.main ≠ .cleanUp) : (ProcessAct.enta a).advances = false := by
  cases a with
  | ctrlC => exact absurd (Enta.main_of_ctrlC h) hmain
  | _ => rfl

theorem rank_step (h : p.step codec capture replay f a = some q) :
    q.rank + a.advances.toNat ≤ p.rank := by
  obtain ⟨hend, hmove⟩ := move_of_step h
  cases hmove with
  | connect hstage =>
    simp only [rank, hstage, ProcessAct.advances]
    split <;> simp only [Stage.rank, Script.rank, Bool.toNat_true] <;> omega
  | createTun hstage =>
    simp only [rank, hstage, ProcessAct.advances]
    split <;> simp only [Stage.rank, Script.rank, Bool.toNat_true] <;> omega
  | @skip k hstage =>
    have hlt : (k.next true).rank < (Stage.script k).rank := Script.next_rank k true
    simp only [rank, hstage, ProcessAct.advances, Bool.toNat_true]
    omega
  | @start k cs hstage hcs =>
    have hlt : (Stage.shell k ⟨cs, true⟩).rank < (Stage.script k).rank := Script.length_le hcs
    simp only [rank, hstage, ProcessAct.advances, Bool.toNat_true]
    omega
  | @noStart k cs hstage =>
    have hlt : (k.next false).rank < (Stage.script k).rank := Script.next_rank k false
    simp only [rank, hstage, ProcessAct.advances, Bool.toNat_true]
    omega
  | command hstage hnext =>
    have hlt := rank_shell hnext
    simp only [rank, hstage, ProcessAct.advances, Bool.toNat_true]
    omega
  | @output k ok hstage =>
    have hlt := Script.next_rank_shell k ok
    simp only [rank, hstage, ProcessAct.advances, Bool.toNat_true]
    omega
  | forward hstage _ hstep hmain =>
    have ha := advances_enta hstep (by simp [hmain])
    simp [rank, hstage, Stage.rank, ha]
  | @leave e e' b hstage =>
    have ha := (ProcessAct.enta b).advances.toNat_le
    simp only [rank, hstage, Stage.rank, Script.rank]
    omega
  | panic hstage _ hstep hmain =>
    have ha := advances_enta hstep (by simp [hmain])
    simp [rank, ha]
  | exit hstage =>
    have hnone : p.ending = none := hend.resolve_right (by simp)
    simp [rank, hstage, hnone, Stage.rank, ProcessAct.advances]
  | pollCtrlC | report | kill => simp [rank, ProcessAct.advances]

/-- Outside of the forwarding `main` and its shells take at most 22 steps in every run, the one
by which a signal ends the forwarding included. -/
theorem advances_le {t : Tables} {as : List ProcessAct}
    (hrun : run (step codec capture replay f) (new t) as = some p) :
    as.countP ProcessAct.advances ≤ 22 := by
  have hle := Run.countP_le_of_measure (I := fun _ => True) (p := ProcessAct.advances) (μ := rank)
    (fun _ _ _ _ hstep => ⟨trivial, rank_step hstep⟩) trivial hrun
  have hnew : (new t).rank = 22 := rfl
  omega

/-- SIGINT comes while ENTA forwards, and `clean_up` gets through. -/
def returnRun : List ProcessAct :=
  forwardRun ++ [.sigint, .enta .ctrlC, .start, .command, .command, .command, .command, .output,
    .start, .command, .output, .exit]

theorem returnRun_advances_le : ∃ p,
    run (step ipCodec (some 80) (some 8080) (fateOf fun _ => true)) (new noTables) returnRun =
      some p ∧ p.ending = some .exited ∧ returnRun.countP ProcessAct.advances ≤ 22 := by
  obtain ⟨p, hp, hending⟩ := Run.exists_of_any
    (step ipCodec (some 80) (some 8080) (fateOf fun _ => true)) (new noTables) returnRun
    (fun p => p.ending = some .exited) (by decide)
  exact ⟨p, hp, hending, advances_le hp⟩

/-- The bound is reached. -/
example : returnRun.countP ProcessAct.advances = 22 := by decide

/-! ## A signal is enough -/

/-- `main` has not ended, it has got behind the connection, and `run` is not over while it
forwards. -/
structure Alive (b : Bool) (p : Process) : Prop where
  ending : p.ending = none
  connected : p.stage ≠ .connect
  main : ∀ e, p.stage = .forward e → e.main = .run
  signalled : p.signalled = b

theorem main_next {k : Script} {ok : Bool} {e : Enta} (h : k.next ok = .forward e) :
    e.main = .run := by
  cases k <;> cases ok <;> simp only [Script.next, reduceCtorEq, Stage.forward.injEq] at h
  subst h
  rfl

theorem main_step (hp : ∀ e, p.stage = .forward e → e.main = .run)
    (h : p.step codec capture replay f a = some q) : ∀ e, q.stage = .forward e → e.main = .run := by
  cases (move_of_step h).2 with
  | connect | createTun =>
    dsimp only
    split <;> simp
  | skip | noStart | output => exact fun e => main_next
  | forward _ _ _ hmain =>
    rintro e ⟨⟩
    exact hmain
  | start | command | leave => simp
  | pollCtrlC | panic | exit | report | kill => exact hp

/-- Such a step leaves the signal as it is, and ends `main` only behind `clean_up`. -/
theorem advances_frame (ha : a.advances = true) (hend : p.ending = none)
    (h : p.step codec capture replay f a = some q) : q.signalled = p.signalled ∧
      (q.ending = none ∨ q.ending = some .exited ∧ q.stage = .done) := by
  cases (move_of_step h).2 with
  | panic _ _ hstep hmain =>
    have hnot := advances_enta hstep (by simp [hmain])
    simp [ha] at hnot
  | exit hstage => exact ⟨rfl, .inr ⟨rfl, hstage⟩⟩
  | pollCtrlC | report | kill => simp [ProcessAct.advances] at ha
  | _ => exact ⟨rfl, .inl hend⟩

variable (codec capture replay f) in
/-- Behind the connection, `main` has a step of its own that brings it closer to its return,
unless it waits in the forwarding for a signal. -/
theorem Alive.advances {b : Bool} (hp : p.Alive b) : (b = false ∧ ∃ e, p.stage = .forward e) ∨
    ∃ a q, p.step codec capture replay f a = some q ∧ a.advances = true := by
  have hstep : ∀ a : ProcessAct, a.advances = true →
      (p.step codec capture replay f a).isSome = true →
      ∃ a q, p.step codec capture replay f a = some q ∧ a.advances = true := by
    intro a ha hsome
    obtain ⟨q, hq⟩ := Option.isSome_iff_exists.mp hsome
    exact ⟨a, q, hq, ha⟩
  cases hstage : p.stage with
  | connect => exact absurd hstage hp.connected
  | createTun => exact .inr (hstep .createTun rfl (by simp [step, act, hp.ending, hstage]))
  | script k => exact .inr (hstep .start rfl (by simp [step, act, start, hp.ending, hstage]))
  | shell k r =>
    obtain ⟨rest, ok⟩ := r
    cases rest with
    | nil => exact .inr (hstep .output rfl (by simp [step, act, hp.ending, hstage]))
    | cons c cs =>
      exact .inr (hstep .command rfl (by simp [step, command, Running.next, hstage]))
  | forward e =>
    cases b with
    | false => exact .inl ⟨rfl, e, rfl⟩
    | true =>
      have hmain := hp.main e hstage
      exact .inr (hstep (.enta .ctrlC) rfl
        (by simp [step, act, enta, hp.ending, hp.signalled, hstage, Enta.step, hmain]))
  | done => exact .inr (hstep .exit rfl (by simp [step, act, hp.ending, hstage]))

theorem next_ne_connect (k : Script) (ok : Bool) : k.next ok ≠ .connect := by
  cases k <;> cases ok <;> simp [Script.next]

/-- Nothing leads back in front of the connection, and only its step leads behind it. -/
theorem connect_step (h : p.step codec capture replay f a = some q) :
    (q.stage = .connect → p.stage = .connect) ∧
      (p.stage = .connect → q.stage = .connect ∨ a.advances = true) := by
  cases (move_of_step h).2 with
  | connect hstage => exact ⟨fun _ => hstage, fun _ => .inr rfl⟩
  | createTun =>
    refine ⟨fun hq => ?_, fun _ => .inr rfl⟩
    dsimp only at hq
    split at hq <;> simp at hq
  | skip | noStart | output =>
    exact ⟨fun hq => absurd hq (next_ne_connect _ _), fun _ => .inr rfl⟩
  | start | command => exact ⟨by simp, fun _ => .inr rfl⟩
  | forward hstage | leave hstage => simp [hstage]
  | pollCtrlC | panic | exit | report | kill => exact ⟨id, .inl⟩

/-- Behind the connection there is one step less to take. -/
theorem rank_le_of_run {t : Tables} {as : List ProcessAct}
    (hrun : run (step codec capture replay f) (new t) as = some p)
    (hconnected : p.stage ≠ .connect) : p.rank ≤ 21 := by
  have hinv : p.rank ≤ 22 ∧ (p.stage ≠ .connect → p.rank ≤ 21) := by
    refine Run.invariant (I := fun p => p.rank ≤ 22 ∧ (p.stage ≠ .connect → p.rank ≤ 21)) ?_
      ⟨le_rfl, fun h => absurd rfl h⟩ hrun
    rintro p a q ⟨hle, hbehind⟩ hstep
    have hrank := rank_step hstep
    refine ⟨by omega, fun hq => ?_⟩
    by_cases hp : p.stage = .connect
    · have ha := ((connect_step hstep).2 hp).resolve_left hq
      rw [ha, Bool.toNat_true] at hrank
      omega
    · have hlt := hbehind hp
      omega
  exact hinv.2 hconnected

/-- From every state of a run behind the connection in which `main` has not ended, 21 steps of
its own are enough to get it to its return, behind all of `clean_up`, or into the forwarding to
wait for a signal which has not come yet. -/
theorem returns_within {t : Tables} {as : List ProcessAct}
    (hrun : run (step codec capture replay f) (new t) as = some p) (hend : p.ending = none)
    (hconnected : p.stage ≠ .connect) :
    ∃ bs q, bs.length ≤ 21 ∧ bs.all ProcessAct.advances = true ∧
      run (step codec capture replay f) p bs = some q ∧
      (q.ending = some .exited ∧ q.tables = (Netfilter.main capture replay f t).cleaned.state ∨
        p.signalled = false ∧ ∃ e, q.stage = .forward e) := by
  have hmain : ∀ e, p.stage = .forward e → e.main = .run :=
    Run.invariant (I := fun p => ∀ e, p.stage = .forward e → e.main = .run)
      (fun _ _ _ hp hstep => main_step hp hstep) (by simp [new]) hrun
  have hstep : ∀ s : Process, s.Alive p.signalled ∨ s.ending = some .exited ∧ s.stage = .done →
      (s.ending = some .exited ∧ s.stage = .done ∨
        p.signalled = false ∧ ∃ e, s.stage = .forward e) ∨
      ∃ a u, ProcessAct.advances a = true ∧ s.step codec capture replay f a = some u ∧
        (u.Alive p.signalled ∨ u.ending = some .exited ∧ u.stage = .done) ∧ u.rank < s.rank := by
    rintro s (hs | hs)
    · rcases hs.advances codec capture replay f with hwait | ⟨a, u, hu, ha⟩
      · exact .inl (.inr hwait)
      · obtain ⟨hsignalled, hending⟩ := advances_frame ha hs.ending hu
        have hrank := rank_step hu
        rw [ha, Bool.toNat_true] at hrank
        exact .inr ⟨a, u, ha, hu, hending.imp_left fun hnone =>
          ⟨hnone, fun hu' => hs.connected ((connect_step hu).1 hu'), main_step hs.main hu,
            hsignalled.trans hs.signalled⟩, by omega⟩
    · exact .inl (.inl hs)
  obtain ⟨bs, q, hlen, hall, hbs, hq⟩ :=
    Run.exists_run_length_le rank hstep (.inl ⟨hend, hconnected, hmain, rfl⟩)
  refine ⟨bs, q, hlen.trans (rank_le_of_run hrun hconnected), hall, hbs, hq.imp_left ?_⟩
  rintro ⟨hexited, hdone⟩
  exact ⟨hexited, tables_of_run (Run.run_append.mpr ⟨p, hrun, hbs⟩) hdone⟩

theorem forwardRun_returns_within : ∃ p,
    run (step ipCodec (some 80) (some 8080) (fateOf fun _ => true)) (new noTables)
      (forwardRun ++ [.sigint]) = some p ∧ p.signalled = true ∧
    ∃ bs q, bs.length ≤ 21 ∧ bs.all ProcessAct.advances = true ∧
      run (step ipCodec (some 80) (some 8080) (fateOf fun _ => true)) p bs = some q ∧
      (q.ending = some .exited ∧ q.tables = (Netfilter.main (some 80) (some 8080)
        (fateOf fun _ => true) noTables).cleaned.state ∨
          p.signalled = false ∧ ∃ e, q.stage = .forward e) := by
  obtain ⟨p, hp, hsignalled, hend, hstage⟩ := Run.exists_of_any
    (step ipCodec (some 80) (some 8080) (fateOf fun _ => true)) (new noTables)
    (forwardRun ++ [.sigint])
    (fun p => p.signalled = true ∧ p.ending = none ∧ p.stage ≠ .connect) (by decide)
  exact ⟨p, hp, hsignalled, returns_within hp hend hstage⟩

end Process

end EnclaveNetworkGateway
