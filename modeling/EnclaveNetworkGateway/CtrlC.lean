import EnclaveNetworkGateway.Process
import EnclaveNetworkGateway.TunPacket

/-!
# Ctrl-C and the clean-up

A process that gets through `clean_up` leaves the tables as `Netfilter.main` does, whenever
signals have come in. It gets through exactly if no SIGINT comes while nobody listens.
-/
namespace EnclaveNetworkGateway

open Netfilter (NetCommand NetOutcome RunFate Tables cleanUp setupNetfilter)
open Shell (Outcome Running sh)

/-! ## What is left to do -/

section Finish

variable (capture replay : Option UInt16) (f : RunFate)

namespace Script

/-- The whole script. -/
def outcome (k : Script) (t : Tables) : NetOutcome :=
  match k.commands capture replay with
  | none => .skip t
  | some cs => sh NetCommand.exec k.errexit (k.fate f) cs t

/-- The tables that `main` leaves behind when the script is next. -/
def finish : Script → Tables → Tables
  | setupCapture, t => (cleanUp capture replay f.cleanUp
      (setupNetfilter capture replay f.setup t).state).state
  | setupReplay, t => (cleanUp capture replay f.cleanUp
      (setupReplay.outcome capture replay f t).state).state
  | cleanUpCapture, t => (cleanUp capture replay f.cleanUp t).state
  | cleanUpReplay, t => (cleanUpReplay.outcome capture replay f t).state

/-- The tables that `main` leaves behind after the script. -/
def finishAfter : Script → Bool → Tables → Tables
  | setupCapture, true, t => finish capture replay f setupReplay t
  | setupCapture, false, t | setupReplay, _, t => finish capture replay f cleanUpCapture t
  | cleanUpCapture, true, t => finish capture replay f cleanUpReplay t
  | cleanUpCapture, false, t | cleanUpReplay, _, t => t

end Script

/-- The tables that `main` leaves behind from a stage on. -/
def Stage.finish : Stage → Tables → Tables
  | connect, t => (Netfilter.main capture replay f t).cleaned.state
  | createTun, t =>
    if f.tunCreated then Script.setupCapture.finish capture replay f t
    else Script.cleanUpCapture.finish capture replay f t
  | script k, t => k.finish capture replay f t
  | shell k r, t =>
    let o := r.finish NetCommand.exec k.errexit (k.fate f).works t
    k.finishAfter capture replay f o.2 o.1
  | forward _, t => Script.cleanUpCapture.finish capture replay f t
  | done, t => t

variable {capture replay f}

theorem Script.next_finish (k : Script) (ok : Bool) (t : Tables) :
    (k.next ok).finish capture replay f t = k.finishAfter capture replay f ok t := by
  cases k <;> cases ok <;> rfl

theorem setupNetfilter_eq (t : Tables) : setupNetfilter capture replay f.setup t =
    (Script.setupCapture.outcome capture replay f t).andThen
      (Script.setupReplay.outcome capture replay f) := by
  cases capture <;> cases replay <;> rfl

theorem cleanUp_eq (t : Tables) : cleanUp capture replay f.cleanUp t =
    (Script.cleanUpCapture.outcome capture replay f t).andThen
      (Script.cleanUpReplay.outcome capture replay f) := by
  cases capture <;> cases replay <;> rfl

theorem Script.finish_eq (k : Script) (t : Tables) :
    k.finish capture replay f t = k.finishAfter capture replay f
      (decide ((k.outcome capture replay f t).result = .ok ()))
      (k.outcome capture replay f t).state := by
  by_cases hok : (k.outcome capture replay f t).result = .ok ()
  · rw [decide_eq_true hok]
    cases k with
    | setupCapture => rw [finish, setupNetfilter_eq, Outcome.andThen_of_ok hok, finishAfter, finish]
    | setupReplay => rw [finish, finishAfter, finish]
    | cleanUpCapture => rw [finish, cleanUp_eq, Outcome.andThen_of_ok hok, finishAfter, finish]
    | cleanUpReplay => rw [finish, finishAfter]
  · rw [decide_eq_false hok]
    cases k with
    | setupCapture => rw [finish, setupNetfilter_eq, Outcome.andThen_of_ne hok, finishAfter, finish]
    | setupReplay => rw [finish, finishAfter, finish]
    | cleanUpCapture => rw [finish, cleanUp_eq, Outcome.andThen_of_ne hok, finishAfter]
    | cleanUpReplay => rw [finish, finishAfter]

theorem Stage.finish_connect (t : Tables) : Stage.connect.finish capture replay f t =
    (if f.connects then Stage.createTun else .script .cleanUpCapture).finish
      capture replay f t := by
  cases hconnects : f.connects with
  | false =>
    simp [Stage.finish, Script.finish, Netfilter.main, Netfilter.run, hconnects, Outcome.skip]
  | true =>
    cases htun : f.tunCreated with
    | false =>
      simp [Stage.finish, Script.finish, Netfilter.main, Netfilter.run, Netfilter.setupTun,
        hconnects, htun, Outcome.skip]
    | true =>
      cases hres : (setupNetfilter capture replay f.setup t).result <;>
        simp [Stage.finish, Script.finish, Netfilter.main, Netfilter.run, Netfilter.setupTun,
          hconnects, htun, hres, Except.mapError]

end Finish

namespace Process

variable (capture replay : Option UInt16) (f : RunFate)

/-- The tables that the process leaves behind, unless it is stopped. -/
def finish (p : Process) : Tables := p.stage.finish capture replay f p.tables

variable {codec : TunCodec} {capture replay f} {p q : Process} {a : ProcessAct}

theorem finish_script {k : Script} (hstage : p.stage = .script k) :
    p.finish capture replay f = k.finishAfter capture replay f
      (decide ((k.outcome capture replay f p.tables).result = .ok ()))
      (k.outcome capture replay f p.tables).state := by
  rw [finish, hstage, Stage.finish, Script.finish_eq]

/-- No step changes what is left behind, and neither does a signal. -/
theorem finish_step (h : p.step codec capture replay f a = some q) :
    q.finish capture replay f = p.finish capture replay f := by
  cases (move_of_step h).2 with
  | connect hstage => simp [finish, hstage, Stage.finish_connect]
  | createTun hstage => cases htun : f.tunCreated <;> simp [finish, hstage, Stage.finish, htun]
  | skip hstage hcs =>
    rw [finish_script hstage]
    simp [finish, Script.next_finish, Script.outcome, hcs, Outcome.skip]
  | start hstage hcs hstarts =>
    rw [finish_script hstage]
    simp [finish, Stage.finish, Script.outcome, hcs, Running.finish_start hstarts]
  | noStart hstage hcs hstarts =>
    rw [finish_script hstage]
    simp [finish, Script.next_finish, Script.outcome, hcs, hstarts, sh]
  | command hstage hnext => simp [finish, Stage.finish, hstage, Running.finish_next hnext]
  | output hstage =>
    rw [finish, finish, hstage, Script.next_finish]
    rfl
  | forward hstage | leave hstage => simp [finish, Stage.finish, hstage]
  | pollCtrlC | panic | exit | report | kill => rfl

/-- The process leaves behind what `Netfilter.main` does, unless it is stopped. -/
def OnCourse (capture replay : Option UInt16) (f : RunFate) (t : Tables) (p : Process) : Prop :=
  p.finish capture replay f = (Netfilter.main capture replay f t).cleaned.state

variable {t : Tables}

theorem new_onCourse (capture replay : Option UInt16) (f : RunFate) (t : Tables) :
    (new t).OnCourse capture replay f t := by
  rw [OnCourse]
  rfl

theorem onCourse_step (hp : p.OnCourse capture replay f t)
    (h : p.step codec capture replay f a = some q) : q.OnCourse capture replay f t :=
  (finish_step h).trans hp

theorem OnCourse.tables_of_done (hp : p.OnCourse capture replay f t) (hdone : p.stage = .done) :
    p.tables = (Netfilter.main capture replay f t).cleaned.state := by
  rwa [OnCourse, finish, hdone] at hp

/-- A process that gets through `clean_up` has done what `Netfilter.main` does. -/
theorem tables_of_run {as : List ProcessAct}
    (h : run (step codec capture replay f) (new t) as = some p) (hdone : p.stage = .done) :
    p.tables = (Netfilter.main capture replay f t).cleaned.state := by
  have hp : p.OnCourse capture replay f t :=
    Run.invariant (fun _ _ _ hp hstep => onCourse_step hp hstep) (new_onCourse _ _ _ _) h
  exact hp.tables_of_done hdone

/-! ## Where the process ends -/

/-- Once the set-up has begun the process does not end before `clean_up` has run, and then
the tables are what `Netfilter.main` leaves behind. -/
def CleanedUp (capture replay : Option UInt16) (f : RunFate) (t : Tables) (p : Process) : Prop :=
  p.setupStarted = true → p.ending.isSome = true →
    p.stage = .done ∧ p.tables = (Netfilter.main capture replay f t).cleaned.state

/-- A step that does not end the process too early: a SIGINT comes while the set-up has not
begun, while somebody listens, or after `clean_up`, and `TunPacket::new` gets no empty packet. -/
def Harmless (p : Process) : ProcessAct → Prop
  | .sigint => p.ending = none → p.setupStarted = true → p.listening = true ∨ p.stage = .done
  | .enta a => ∀ e, p.ending = none → p.setupStarted = true → p.stage = .forward e →
    e.newTunPacket a ≠ some []
  | _ => True

/-- How a step can end the process. -/
inductive Ends (p : Process) : ProcessAct → Ending → Prop where
  | killed (hl : p.listening = false) : Ends p .sigint .killed
  | panicked {a : EntaAct} {e : Enta} (hstage : p.stage = .forward e)
      (hnew : e.newTunPacket a = some []) : Ends p (.enta a) .panicked
  | exited (hstage : p.stage = .done) : Ends p .exit .exited

theorem Move.ends {x : Ending} (h : Move codec capture replay f p a q) (hp : p.ending = none)
    (hq : q.ending = some x) : q = { p with ending := some x } ∧ Ends p a x := by
  cases h with
  | panic hstage _ hstep hmain =>
    obtain rfl := Option.some.inj hq
    exact ⟨rfl, .panicked hstage (Enta.newTunPacket_of_panicked hstep hmain)⟩
  | exit hstage =>
    obtain rfl := Option.some.inj hq
    exact ⟨rfl, .exited hstage⟩
  | kill hl =>
    obtain rfl := Option.some.inj hq
    exact ⟨rfl, .killed hl⟩
  | _ => simp [hp] at hq

theorem cleanedUp_step (hcourse : p.OnCourse capture replay f t)
    (hp : p.CleanedUp capture replay f t) (ha : p.Harmless a)
    (h : p.step codec capture replay f a = some q) : q.CleanedUp capture replay f t := by
  have hcourse' := onCourse_step hcourse h
  obtain ⟨hnone, hmove⟩ := move_of_step h
  intro hstarted hended
  rcases hnone with hnone | rfl
  · obtain ⟨x, hx⟩ := Option.isSome_iff_exists.mp hended
    obtain ⟨rfl, hends⟩ := hmove.ends hnone hx
    have hdone : p.stage = .done := by
      cases hends with
      | killed hl =>
        rcases ha hnone hstarted with hlistening | hdone
        · simp [hl] at hlistening
        · exact hdone
      | panicked hstage hnew => exact absurd hnew (ha _ hnone hstarted hstage)
      | exited hstage => exact hstage
    exact ⟨hdone, hcourse'.tables_of_done hdone⟩
  · -- a shell that goes on alone has not ended the process
    cases hmove with
    | command hstage hnext =>
      have hdone := (hp hstarted hended).1
      rw [hstage] at hdone
      cases hdone

/-- A step that is not harmless ends the process too early. -/
theorem not_cleanedUp_step (ha : ¬ p.Harmless a) :
    ∃ q, p.step codec capture replay f a = some q ∧ ¬ q.CleanedUp capture replay f t := by
  cases a with
  | sigint =>
    simp only [Harmless, not_forall, not_or] at ha
    obtain ⟨hnone, hstarted, hl, hstage⟩ := ha
    refine ⟨{ p with ending := some .killed }, by simp [step, act, hnone, hl], fun hq => ?_⟩
    exact hstage (hq hstarted rfl).1
  | enta a =>
    simp only [Harmless, not_forall, not_not] at ha
    obtain ⟨e, hnone, hstarted, hstage, hnew⟩ := ha
    have hpanic : e.step codec a = some (e.stop .panicked) := Enta.panics_of_newTunPacket hnew
    obtain ⟨rfl, _⟩ := Enta.newTunPacket_eq_some hnew
    refine ⟨{ p with ending := some .panicked }, ?_, fun hq => ?_⟩
    · simp [step, act, enta, hnone, hstage, hpanic, Enta.stop]
    · have hdone := (hq hstarted rfl).1
      rw [hstage] at hdone
      cases hdone
  | _ => exact absurd trivial ha

/-- The process always gets through `clean_up` exactly if all its steps are harmless. -/
theorem cleanedUp_iff (codec : TunCodec) (capture replay : Option UInt16) (f : RunFate)
    (t : Tables) (as : List ProcessAct) :
    Run.Always (step codec capture replay f) (new t) as (CleanedUp capture replay f t) ↔
      Run.EachStep (step codec capture replay f) (new t) as Harmless :=
  Run.always_iff_eachStep (J := OnCourse capture replay f t) (fun _ _ _ => onCourse_step)
    (fun _ _ _ => cleanedUp_step) (fun _ _ _ _ => not_cleanedUp_step) (new_onCourse _ _ _ _)
    (fun h => by simp [new] at h) as

theorem not_cleanedUp
    (h : p.setupStarted = true ∧ p.ending.isSome = true ∧ p.stage ≠ .done) :
    ¬ p.CleanedUp capture replay f t :=
  fun hp => h.2.2 (hp h.1 h.2.1).1

def noTables : Tables := ⟨[], [], [], []⟩

/-- All goes well, but for the commands that `works` rules out. -/
def fateOf (works : NetCommand → Bool) : RunFate where
  connects := true
  tunCreated := true
  setup := ⟨⟨true, works⟩, ⟨true, works⟩⟩
  forwards := true
  cleanUp := ⟨⟨true, works⟩, ⟨true, works⟩⟩

/-- SIGINT comes behind the first command of the set-up. -/
def setupRun : List ProcessAct := [.connect, .createTun, .start, .command, .sigint]

/-- The second command of the set-up fails, and SIGINT comes when `clean_up` has begun. -/
def cleanUpRun : List ProcessAct :=
  [.connect, .createTun, .start, .command, .command, .output, .start, .sigint]

def noRoute : NetCommand → Bool := (· ≠ .ipRouteAdd Netfilter.captureRoute)

/-- In the first run nobody removes the rule for port 80 any more. In the second one the process
is killed inside `clean_up`, whose shell goes on without it. -/
theorem killed_not_cleanedUp :
    (∃ p, run (step ipCodec (some 80) none (fateOf fun _ => true)) (new noTables) setupRun =
        some p ∧
      Netfilter.captureRule 80 ∈ p.tables.output ∧
      ¬ p.CleanedUp (some 80) none (fateOf fun _ => true) noTables) ∧
    (∃ p, run (step ipCodec (some 80) none (fateOf noRoute)) (new noTables) cleanUpRun = some p ∧
      p.ending = some .killed ∧
      p.stage = .shell .cleanUpCapture ⟨Netfilter.cleanUpCapture 80, true⟩ ∧
      ¬ p.CleanedUp (some 80) none (fateOf noRoute) noTables) := by
  constructor
  · obtain ⟨p, hrun, hrule, hp⟩ := Run.exists_of_any
      (step ipCodec (some 80) none (fateOf fun _ => true)) (new noTables) setupRun
      (fun p => Netfilter.captureRule 80 ∈ p.tables.output ∧
        p.setupStarted = true ∧ p.ending.isSome = true ∧ p.stage ≠ .done) (by decide)
    exact ⟨p, hrun, hrule, not_cleanedUp hp⟩
  · obtain ⟨p, hrun, hending, hstage, hp⟩ := Run.exists_of_any
      (step ipCodec (some 80) none (fateOf noRoute)) (new noTables) cleanUpRun
      (fun p => p.ending = some .killed ∧
        p.stage = .shell .cleanUpCapture ⟨Netfilter.cleanUpCapture 80, true⟩ ∧
        p.setupStarted = true ∧ p.ending.isSome = true ∧ p.stage ≠ .done) (by decide)
    exact ⟨p, hrun, hending, hstage, not_cleanedUp hp⟩

end Process

end EnclaveNetworkGateway
