import EnclaveNetworkGateway.CtrlC

/-!
# What the process has done so far

The commands that a run of ENTA has executed are always the first ones of those that it would
execute without an interruption. Forwarding starts only with all rules in place.
-/
namespace EnclaveNetworkGateway

open Netfilter (NetCommand NetOutcome Route RunFate Tables cleanUp setupNetfilter)
open Shell (Outcome Running sh replay replay_append)

/-- Commands with their success. -/
abbrev NetLog := List (NetCommand × Bool)

section Log

variable (capture replay : Option UInt16) (f : RunFate)

namespace Script

/-- What is logged from the script on. -/
def log : Script → Tables → NetLog
  | setupCapture, t =>
    let o := setupNetfilter capture replay f.setup t
    o.log ++ (cleanUp capture replay f.cleanUp o.state).log
  | setupReplay, t =>
    let o := setupReplay.outcome capture replay f t
    o.log ++ (cleanUp capture replay f.cleanUp o.state).log
  | cleanUpCapture, t => (cleanUp capture replay f.cleanUp t).log
  | cleanUpReplay, t => (cleanUpReplay.outcome capture replay f t).log

/-- What is logged after the script. -/
def logAfter : Script → Bool → Tables → NetLog
  | setupCapture, true, t => log capture replay f setupReplay t
  | setupCapture, false, t | setupReplay, _, t => log capture replay f cleanUpCapture t
  | cleanUpCapture, true, t => log capture replay f cleanUpReplay t
  | cleanUpCapture, false, _ | cleanUpReplay, _, _ => []

end Script

/-- What is logged from a stage on. -/
def Stage.log : Stage → Tables → NetLog
  | connect, t =>
    let o := Netfilter.main capture replay f t
    o.setup.log ++ o.cleaned.log
  | createTun, t =>
    if f.tunCreated then Script.setupCapture.log capture replay f t
    else Script.cleanUpCapture.log capture replay f t
  | script k, t => k.log capture replay f t
  | shell k r, t =>
    let o := r.finish NetCommand.exec k.errexit (k.fate f).works t
    r.log NetCommand.exec k.errexit (k.fate f).works t ++ k.logAfter capture replay f o.2 o.1
  | forward _, t => Script.cleanUpCapture.log capture replay f t
  | done, _ => []

variable {capture replay f}

theorem Script.next_log (k : Script) (ok : Bool) (t : Tables) :
    (k.next ok).log capture replay f t = k.logAfter capture replay f ok t := by
  cases k <;> cases ok <;> rfl

theorem Script.log_eq (k : Script) (t : Tables) :
    k.log capture replay f t = (k.outcome capture replay f t).log ++ k.logAfter capture replay f
      (decide ((k.outcome capture replay f t).result = .ok ()))
      (k.outcome capture replay f t).state := by
  by_cases hok : (k.outcome capture replay f t).result = .ok ()
  · rw [decide_eq_true hok]
    cases k with
    | setupCapture =>
      rw [log, setupNetfilter_eq, Outcome.andThen_of_ok hok, logAfter, log, List.append_assoc]
    | setupReplay => rw [log, logAfter, log]
    | cleanUpCapture => rw [log, cleanUp_eq, Outcome.andThen_of_ok hok, logAfter, log]
    | cleanUpReplay => rw [log, logAfter, List.append_nil]
  · rw [decide_eq_false hok]
    cases k with
    | setupCapture => rw [log, setupNetfilter_eq, Outcome.andThen_of_ne hok, logAfter, log]
    | setupReplay => rw [log, logAfter, log]
    | cleanUpCapture =>
      rw [log, cleanUp_eq, Outcome.andThen_of_ne hok, logAfter, List.append_nil]
    | cleanUpReplay => rw [log, logAfter, List.append_nil]

theorem Stage.log_connect (t : Tables) : Stage.connect.log capture replay f t =
    (if f.connects then Stage.createTun else .script .cleanUpCapture).log capture replay f t := by
  cases hconnects : f.connects with
  | false =>
    simp [Stage.log, Script.log, Netfilter.main, Netfilter.run, hconnects, Outcome.skip]
  | true =>
    cases htun : f.tunCreated with
    | false =>
      simp [Stage.log, Script.log, Netfilter.main, Netfilter.run, Netfilter.setupTun,
        hconnects, htun, Outcome.skip]
    | true =>
      cases hres : (setupNetfilter capture replay f.setup t).result <;>
        simp [Stage.log, Script.log, Netfilter.main, Netfilter.run, Netfilter.setupTun,
          hconnects, htun, hres, Except.mapError]

end Log

namespace Process

variable {codec : TunCodec} {capture replay : Option UInt16} {f : RunFate} {p q : Process}
  {a : ProcessAct}

/-- A step executes the next commands of the log, if any. -/
def Executes (capture replay : Option UInt16) (f : RunFate) (p q : Process) : Prop :=
  ∃ l, p.stage.log capture replay f p.tables = l ++ q.stage.log capture replay f q.tables ∧
    Shell.replay NetCommand.exec l p.tables = some q.tables

theorem Executes.of_eq (hlog : q.stage.log capture replay f q.tables =
    p.stage.log capture replay f p.tables) (ht : q.tables = p.tables) :
    Executes capture replay f p q :=
  ⟨[], by simp [hlog], by simp [Shell.replay, ht]⟩

theorem log_script {k : Script} (hstage : p.stage = .script k) :
    p.stage.log capture replay f p.tables =
      (k.outcome capture replay f p.tables).log ++ k.logAfter capture replay f
        (decide ((k.outcome capture replay f p.tables).result = .ok ()))
        (k.outcome capture replay f p.tables).state := by
  rw [hstage, Stage.log, Script.log_eq]

theorem executes_step (h : p.step codec capture replay f a = some q) :
    Executes capture replay f p q := by
  cases (move_of_step h).2 with
  | connect hstage => exact .of_eq (by simp [hstage, Stage.log_connect]) rfl
  | createTun hstage =>
    apply Executes.of_eq
    · cases htun : f.tunCreated <;> simp [hstage, Stage.log, htun]
    · rfl
  | skip hstage hcs =>
    rw [Executes, log_script hstage]
    exact ⟨[], by simp [Script.next_log, Script.outcome, hcs, Outcome.skip], rfl⟩
  | start hstage hcs hstarts =>
    rw [Executes, log_script hstage]
    refine ⟨[], ?_, rfl⟩
    simp [Stage.log, Script.outcome, hcs, Running.finish_start hstarts, Running.log_start hstarts]
  | @noStart k cs hstage hcs hstarts =>
    rw [Executes, log_script hstage]
    refine ⟨cs.map (·, false), ?_, Shell.replay_failed _ _⟩
    simp [Script.next_log, Script.outcome, hcs, hstarts, sh]
  | command hstage hnext =>
    obtain ⟨e, hlog, hreplay⟩ := Running.log_next hnext
    refine ⟨[e], ?_, hreplay⟩
    simp [Stage.log, hstage, hlog, Running.finish_next hnext]
  | @output k ok hstage =>
    refine .of_eq ?_ rfl
    show (k.next ok).log capture replay f p.tables = _
    rw [Script.next_log, hstage]
    rfl
  | forward hstage | leave hstage => exact .of_eq (by simp [Stage.log, hstage]) rfl
  | pollCtrlC | panic | exit | report | kill => exact .of_eq rfl rfl

/-- All the commands of an undisturbed run, with their success. -/
def mainLog (capture replay : Option UInt16) (f : RunFate) (t : Tables) : NetLog :=
  (Netfilter.main capture replay f t).setup.log ++ (Netfilter.main capture replay f t).cleaned.log

/-- What a run has done and what it would still do make up the log. -/
theorem log_of_run {t : Tables} {as : List ProcessAct}
    (hrun : run (step codec capture replay f) (new t) as = some p) :
    ∃ l, mainLog capture replay f t = l ++ p.stage.log capture replay f p.tables ∧
      Shell.replay NetCommand.exec l t = some p.tables := by
  refine Run.invariant (I := fun p => ∃ l, mainLog capture replay f t =
    l ++ p.stage.log capture replay f p.tables ∧
      Shell.replay NetCommand.exec l t = some p.tables) ?_ ⟨[], rfl, rfl⟩ hrun
  rintro p a q ⟨l, hl, hreplay⟩ hstep
  obtain ⟨l', hl', hreplay'⟩ := executes_step hstep
  refine ⟨l ++ l', by rw [hl, hl', List.append_assoc], ?_⟩
  rw [replay_append, hreplay]
  exact hreplay'

/-- The chains and the routing rules of the host are those behind some first part of the log, and
behind all of it if the process has got through `clean_up`. -/
theorem tables_replay {t : Tables} {as : List ProcessAct} (device : List Route)
    (hrun : run (step codec capture replay f) (new t) as = some p) :
    ∃ l u, l <+: mainLog capture replay f t ∧ Shell.replay NetCommand.exec l t = some u ∧
      (p.hostTables device t).output = u.output ∧
      (p.hostTables device t).prerouting = u.prerouting ∧
      (p.hostTables device t).rules = u.rules ∧
      (p.stage = .done → l = mainLog capture replay f t) := by
  obtain ⟨l, hl, hreplay⟩ := log_of_run hrun
  refine ⟨l, p.tables, ⟨_, hl.symm⟩, hreplay, rfl, rfl, rfl, fun hdone => ?_⟩
  rw [hl, hdone, Stage.log, List.append_nil]

theorem setupRun_replay : ∃ p,
    run (step ipCodec (some 80) none (fateOf fun _ => true)) (new noTables) setupRun = some p ∧
    ∃ l u, l <+: mainLog (some 80) none (fateOf fun _ => true) noTables ∧
      Shell.replay NetCommand.exec l noTables = some u ∧
      (p.hostTables [] noTables).output = u.output ∧
      (p.hostTables [] noTables).prerouting = u.prerouting ∧
      (p.hostTables [] noTables).rules = u.rules ∧
      (p.stage = .done → l = mainLog (some 80) none (fateOf fun _ => true) noTables) := by
  obtain ⟨p, hp, _⟩ := Run.exists_of_any (step ipCodec (some 80) none (fateOf fun _ => true))
    (new noTables) setupRun (fun p => p.ending = some .killed) (by decide)
  exact ⟨p, hp, tables_replay [] hp⟩

end Process

/-! ## The tables while ENTA forwards -/

section Setup

variable (capture replay : Option UInt16) (f : RunFate)

/-- The tables with which `setup_netfilter` succeeds, seen from a script on. -/
def Script.setup : Script → Tables → Option Tables
  | setupCapture, t =>
    let o := setupNetfilter capture replay f.setup t
    if o.result = .ok () then some o.state else none
  | setupReplay, t =>
    let o := setupReplay.outcome capture replay f t
    if o.result = .ok () then some o.state else none
  | cleanUpCapture, _ | cleanUpReplay, _ => none

def Script.setupAfter : Script → Bool → Tables → Option Tables
  | setupCapture, true, t => setup capture replay f setupReplay t
  | setupReplay, true, t => some t
  | setupCapture, false, _ | setupReplay, false, _ | cleanUpCapture, _, _
  | cleanUpReplay, _, _ => none

def Stage.setup : Stage → Tables → Option Tables
  | connect, t | createTun, t => Script.setupCapture.setup capture replay f t
  | script k, t => k.setup capture replay f t
  | shell k r, t =>
    let o := r.finish NetCommand.exec k.errexit (k.fate f).works t
    k.setupAfter capture replay f o.2 o.1
  | forward _, t => some t
  | done, _ => none

variable {capture replay f}

end Setup

namespace Process

variable {codec : TunCodec} {capture replay : Option UInt16} {f : RunFate} {p q : Process}
  {a : ProcessAct}

/-- The tables `t` with the rules of a run and more routes in place. -/
structure InPlace (capture replay : Option UInt16) (routes : List Route) (t u : Tables) : Prop where
  output : u.output = t.output ++ (capture.map Netfilter.captureRule).toList
  prerouting : u.prerouting = t.prerouting ++ (replay.map Netfilter.replayRule).toList
  routes : u.routes = t.routes ++ routes
  rules : u.rules = capture.elim t.rules fun c =>
    Netfilter.insertRule (Netfilter.captureIpRule c) t.rules

theorem InPlace.refl (t : Tables) : InPlace none none [] t t := ⟨by simp, by simp, by simp, rfl⟩

theorem InPlace.trans {routes : List Route} {t u v : Tables} (h : InPlace capture none routes t u)
    (h' : InPlace none replay [] u v) : InPlace capture replay routes t v := by
  constructor
  · simpa [h.output] using h'.output
  · simpa [h.prerouting] using h'.prerouting
  · simpa [h.routes] using h'.routes
  · rw [← h.rules]
    exact h'.rules

/-- Both options are given, and all goes well. -/
def forwardRun : List ProcessAct :=
  [.connect, .createTun, .start, .command, .command, .command, .command, .output, .start,
    .command, .output, .pollCtrlC]

/-- The local and the connected route of a device with the default address. -/
def tunRoutes : List Route := [⟨"192.168.0.1", 0, "", 255⟩, ⟨"192.168.0.0/24", 0, "", 254⟩]

end Process

end EnclaveNetworkGateway
