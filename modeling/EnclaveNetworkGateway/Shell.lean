import Mathlib.Data.List.Basic
import Mathlib.Tactic.SplitIfs

/-!
# Shell scripts

A script is a list of commands on a state. `sh -c` runs them all, `sh -e -c` stops at the
first one that fails, and both exit with the status of the last command they ran. Whether a
shell starts and which commands can do their work is decided outside.
-/
namespace EnclaveNetworkGateway

namespace Shell

/-- What the outside decides about one start of a shell. -/
structure Fate (γ : Type*) where
  starts : Bool
  works : γ → Bool

inductive Failure where
  | notStarted
  | status
  deriving DecidableEq, Repr

/-- Where a program has got to: the state, the commands with their success, and its result. -/
structure Outcome (γ σ : Type*) where
  state : σ
  log : List (γ × Bool)
  result : Except Failure Unit

variable {γ σ β : Type*}

namespace Outcome

/-- Nothing was run. -/
def skip (s : σ) : Outcome γ σ := ⟨s, [], .ok ()⟩

/-- The next part of the program, which an error skips. -/
def andThen (o : Outcome γ σ) (next : σ → Outcome γ σ) : Outcome γ σ :=
  match o.result with
  | .ok () => ⟨(next o.state).state, o.log ++ (next o.state).log, (next o.state).result⟩
  | .error _ => o

theorem andThen_of_ok {o : Outcome γ σ} {next : σ → Outcome γ σ} (h : o.result = .ok ()) :
    o.andThen next =
      ⟨(next o.state).state, o.log ++ (next o.state).log, (next o.state).result⟩ := by
  rw [andThen, h]

theorem andThen_of_ne {o : Outcome γ σ} {next : σ → Outcome γ σ} (h : o.result ≠ .ok ()) :
    o.andThen next = o := by
  rw [andThen]
  split
  · rename_i hok
    exact absurd hok h
  · rfl

end Outcome

section Run

variable (exec : γ → σ → Option σ)

/-- A command changes the state or fails without effect. -/
def attempt (works : γ → Bool) (c : γ) (s : σ) : σ × Bool :=
  match if works c then exec c s else none with
  | some s' => (s', true)
  | none => (s, false)

/-- The commands of a script, one after the other. -/
def script (errexit : Bool) (works : γ → Bool) : List γ → σ → σ × List (γ × Bool)
  | [], s => (s, [])
  | c :: cs, s =>
    let r := attempt exec works c s
    if errexit && !r.2 then (r.1, [(c, false)])
    else
      let rest := script errexit works cs r.1
      (rest.1, (c, r.2) :: rest.2)

/-- `sh [-e] -c script`. Where the shell does not start, no command succeeds. -/
def sh (errexit : Bool) (f : Fate γ) (cs : List γ) (s : σ) : Outcome γ σ :=
  if f.starts then
    let r := script exec errexit f.works cs s
    ⟨r.1, r.2, if r.2.getLast?.all Prod.snd then .ok () else .error .status⟩
  else ⟨s, cs.map (·, false), .error .notStarted⟩

end Run

section Log

variable {exec : γ → σ → Option σ} {works : γ → Bool} {errexit : Bool} {cs : List γ} {s : σ}

theorem attempt_true {c : γ} {s' : σ} :
    attempt exec works c s = (s', true) ↔ works c = true ∧ exec c s = some s' := by
  rw [attempt]
  cases hw : works c <;> cases he : exec c s <;> simp

theorem attempt_false {c : γ} {s' : σ} (h : attempt exec works c s = (s', false)) : s' = s := by
  rw [attempt] at h
  split at h
  · simp at h
  · exact (Prod.mk.inj h).1.symm

theorem mem_of_mem_script {e : γ × Bool} (h : e ∈ (script exec errexit works cs s).2) :
    e.1 ∈ cs := by
  induction cs generalizing s with
  | nil => simp [script] at h
  | cons c cs ih =>
    simp only [script] at h
    split_ifs at h
    · simp [List.mem_singleton.mp h]
    · rcases List.mem_cons.mp h with rfl | h
      · exact List.mem_cons_self
      · exact List.mem_cons_of_mem c (ih h)

/-- Without `-e` every command gets its turn. -/
theorem script_log_map : (script exec false works cs s).2.map Prod.fst = cs := by
  induction cs generalizing s with
  | nil => rfl
  | cons c cs ih => simp [script, ih]

theorem sh_log_map {f : Fate γ} : (sh exec false f cs s).log.map Prod.fst = cs := by
  rw [sh]
  split_ifs
  · exact script_log_map
  · simp [Function.comp_def]

theorem mem_of_mem_sh {f : Fate γ} {e : γ × Bool} (h : e ∈ (sh exec errexit f cs s).log) :
    e.1 ∈ cs := by
  rw [sh] at h
  split_ifs at h
  · exact mem_of_mem_script h
  · obtain ⟨c, hc, rfl⟩ := List.mem_map.mp h
    exact hc

/-- A script without `-e` whose last command cannot fail by itself. -/
theorem script_last {c : γ} (hc : ∀ s, (exec c s).isSome = true) :
    (script exec false works (cs ++ [c]) s).2.getLast? = some (c, works c) := by
  induction cs generalizing s with
  | nil =>
    obtain ⟨s', hs'⟩ := Option.isSome_iff_exists.mp (hc s)
    cases hw : works c <;> simp [script, attempt, hw, hs']
  | cons d cs ih =>
    simp only [List.cons_append, script, Bool.false_and, Bool.false_eq_true, if_false]
    rw [List.getLast?_cons, ih, Option.getD_some]

theorem sh_ok_iff {f : Fate γ} {c : γ} (hc : ∀ s, (exec c s).isSome = true) :
    (sh exec false f (cs ++ [c]) s).result = .ok () ↔ f.starts = true ∧ f.works c = true := by
  rw [sh]
  split_ifs with hs
  · simp [script_last hc, hs]
  · simp [hs]

end Log

/-! ## Parts of the state -/

section Part

variable (exec : γ → σ → Option σ) (π : σ → β)

/-- The command leaves a part of the state as it is. -/
def Keeps (c : γ) : Prop := ∀ s s', exec c s = some s' → π s' = π s

/-- Of all commands that a program ran from `s`, only `c` changed a part of the state, once
if it succeeded. -/
structure Only (c : γ) (s : σ) (o : Outcome γ σ) : Prop where
  done : (c, true) ∈ o.log → ∃ u u', π u = π s ∧ exec c u = some u' ∧ π o.state = π u'
  undone : (c, true) ∉ o.log → π o.state = π s

variable {exec π} {works : γ → Bool} {errexit : Bool} {cs : List γ} {s : σ} {c : γ}

theorem attempt_keeps (works : γ → Bool) (h : Keeps exec π c) (s : σ) :
    π (attempt exec works c s).1 = π s := by
  cases ha : attempt exec works c s with
  | mk s' ok =>
    cases ok with
    | true => exact h s s' (attempt_true.mp ha).2
    | false => rw [attempt_false ha]

theorem script_keeps (h : ∀ d ∈ cs, Keeps exec π d) :
    π (script exec errexit works cs s).1 = π s := by
  induction cs generalizing s with
  | nil => rfl
  | cons d cs ih =>
    have hd := attempt_keeps works (h d List.mem_cons_self) s
    simp only [script]
    split_ifs
    · exact hd
    · exact (ih fun e he => h e (List.mem_cons_of_mem d he)).trans hd

theorem sh_keeps {f : Fate γ} (h : ∀ d ∈ cs, Keeps exec π d) :
    π (sh exec errexit f cs s).state = π s := by
  rw [sh]
  split_ifs
  · exact script_keeps h
  · rfl

/-- A script in which one command touches the part. -/
theorem script_only [DecidableEq γ] (errexit : Bool) (works : γ → Bool) (hc : c ∈ cs)
    (hnodup : cs.Nodup) (h : ∀ d ∈ cs, d ≠ c → Keeps exec π d) :
    ((c, true) ∈ (script exec errexit works cs s).2 → ∃ u u', π u = π s ∧ exec c u = some u' ∧
      π (script exec errexit works cs s).1 = π u') ∧
    ((c, true) ∉ (script exec errexit works cs s).2 →
      π (script exec errexit works cs s).1 = π s) := by
  induction cs generalizing s with
  | nil => simp at hc
  | cons d cs ih =>
    obtain ⟨hd, hcs⟩ := List.nodup_cons.mp hnodup
    by_cases hdc : d = c
    · subst hdc
      -- the rest of the script neither runs nor undoes it
      have hrest : ∀ u, π (script exec errexit works cs u).1 = π u := fun u =>
        script_keeps fun e he => h e (List.mem_cons_of_mem d he) fun hed => hd (hed ▸ he)
      have hlog : ∀ u b, (d, b) ∉ (script exec errexit works cs u).2 :=
        fun u b hmem => hd (mem_of_mem_script hmem)
      cases ha : attempt exec works d s with
      | mk s' ok =>
        cases ok with
        | true =>
          simp only [script, ha, Bool.not_true, Bool.and_false, Bool.false_eq_true, if_false,
            List.mem_cons, true_or, forall_const, not_true_eq_false, false_implies, and_true]
          exact ⟨s, s', rfl, (attempt_true.mp ha).2, hrest s'⟩
        | false =>
          have hs := attempt_false ha
          subst hs
          cases errexit <;> simp [script, ha, hlog, hrest]
    · have hkeep := attempt_keeps works (h d List.mem_cons_self hdc) s
      have hc' : c ∈ cs := (List.mem_cons.mp hc).resolve_left (Ne.symm hdc)
      obtain ⟨hdone, hundone⟩ := ih (s := (attempt exec works d s).1) hc' hcs
        fun e he => h e (List.mem_cons_of_mem d he)
      simp only [script]
      split_ifs with hstop
      · refine ⟨fun hmem => ?_, fun _ => hkeep⟩
        simp [Ne.symm hdc] at hmem
      · have hne : ∀ b, (c, true) ≠ (d, b) := fun b heq => hdc (Prod.mk.inj heq).1.symm
        simp only [List.mem_cons, hne, false_or]
        rw [hkeep] at hdone hundone
        exact ⟨hdone, hundone⟩

theorem only_sh [DecidableEq γ] {f : Fate γ} (hc : c ∈ cs) (hnodup : cs.Nodup)
    (h : ∀ d ∈ cs, d ≠ c → Keeps exec π d) : Only exec π c s (sh exec errexit f cs s) := by
  rw [sh]
  split_ifs
  · obtain ⟨hdone, hundone⟩ := script_only (s := s) errexit f.works hc hnodup h
    exact ⟨hdone, hundone⟩
  · exact ⟨fun hmem => by simp at hmem, fun _ => rfl⟩

theorem only_skip : Only exec π c s (.skip s) := ⟨fun h => by simp [Outcome.skip] at h, fun _ => rfl⟩

/-- The command belongs to the first part of the program. -/
theorem Only.andThen_left {o : Outcome γ σ} {next : σ → Outcome γ σ} (h : Only exec π c s o)
    (hkeep : ∀ u, π (next u).state = π u) (hlog : ∀ u, (c, true) ∉ (next u).log) :
    Only exec π c s (o.andThen next) := by
  by_cases hok : o.result = .ok ()
  · rw [Outcome.andThen_of_ok hok]
    constructor
    · simpa [hlog, hkeep] using h.done
    · simpa [hlog, hkeep] using h.undone
  · rw [Outcome.andThen_of_ne hok]
    exact h

/-- The command belongs to the second part of the program. -/
theorem Only.andThen_right {o : Outcome γ σ} {next : σ → Outcome γ σ}
    (h : ∀ u, Only exec π c u (next u)) (hkeep : π o.state = π s) (hlog : (c, true) ∉ o.log) :
    Only exec π c s (o.andThen next) := by
  by_cases hok : o.result = .ok ()
  · rw [Outcome.andThen_of_ok hok]
    obtain ⟨hdone, hundone⟩ := h o.state
    rw [hkeep] at hdone hundone
    constructor
    · simpa [hlog] using hdone
    · simpa [hlog] using hundone
  · rw [Outcome.andThen_of_ne hok]
    exact ⟨fun hmem => absurd hmem hlog, fun _ => hkeep⟩

end Part

/-! ## Command by command -/

/-- A shell at work: the commands it has still to run, and whether the last one succeeded. -/
structure Running (γ : Type*) where
  rest : List γ
  ok : Bool
  deriving DecidableEq, Repr

namespace Running

variable (exec : γ → σ → Option σ) (errexit : Bool) (works : γ → Bool)

/-- The next command. -/
def next (r : Running γ) (s : σ) : Option (Running γ × σ) :=
  match r.rest with
  | [] => none
  | c :: cs =>
    let o := attempt exec works c s
    some (⟨if errexit && !o.2 then [] else cs, o.2⟩, o.1)

/-- The state and the success that the shell ends with. -/
def finish (r : Running γ) (s : σ) : σ × Bool :=
  let o := script exec errexit works r.rest s
  (o.1, (o.2.getLast?.map Prod.snd).getD r.ok)

variable {exec errexit works} {r r' : Running γ} {s s' : σ}

theorem finish_next (h : r.next exec errexit works s = some (r', s')) :
    r'.finish exec errexit works s' = r.finish exec errexit works s := by
  obtain ⟨rest, ok⟩ := r
  cases rest with
  | nil => simp [next] at h
  | cons c cs =>
    obtain ⟨rfl, rfl⟩ := Prod.mk.inj (Option.some.inj h)
    cases hstop : errexit && !(attempt exec works c s).2 with
    | true =>
      obtain ⟨hexit, hfailed⟩ : errexit = true ∧ (attempt exec works c s).2 = false := by
        simpa using hstop
      simp [finish, script, hexit, hfailed]
    | false =>
      simp only [finish, script, hstop, Bool.false_eq_true, if_false, List.getLast?_cons,
        Option.map_some, Option.getD_some]
      exact Prod.ext rfl (Option.getD_map Prod.snd (c, (attempt exec works c s).2) _)

/-- A shell that has started does what the whole script does. -/
theorem finish_start {f : Fate γ} (hstarts : f.starts = true) (cs : List γ) (s : σ) :
    (⟨cs, true⟩ : Running γ).finish exec errexit f.works s =
      ((sh exec errexit f cs s).state, decide ((sh exec errexit f cs s).result = .ok ())) := by
  rw [sh, if_pos hstarts]
  refine Prod.ext rfl ?_
  cases hlast : (script exec errexit f.works cs s).2.getLast? with
  | none => simp [finish, hlast]
  | some e => cases hok : e.2 <;> simp [finish, hlast, hok]

end Running

/-! ## Logs -/

section Replay

variable (exec : γ → σ → Option σ)

/-- The state after the commands that succeeded, according to a log. -/
def replay : List (γ × Bool) → σ → Option σ
  | [], s => some s
  | (c, true) :: l, s => (exec c s).bind (replay l)
  | (_, false) :: l, s => replay l s

variable {exec} {works : γ → Bool} {errexit : Bool}

theorem replay_append {l l' : List (γ × Bool)} {s : σ} :
    replay exec (l ++ l') s = (replay exec l s).bind (replay exec l') := by
  induction l generalizing s with
  | nil => rfl
  | cons e l ih =>
    obtain ⟨c, ok⟩ := e
    cases ok with
    | true =>
      have hl : replay exec (l ++ l') = fun s => (replay exec l s).bind (replay exec l') :=
        funext fun s => ih
      simp [replay, hl, Option.bind_assoc]
    | false => exact ih

/-- Commands that failed leave no trace. -/
theorem replay_failed (cs : List γ) (s : σ) : replay exec (cs.map (·, false)) s = some s := by
  induction cs with
  | nil => rfl
  | cons c cs ih => exact ih

theorem replay_attempt (c : γ) (s : σ) :
    replay exec [(c, (attempt exec works c s).2)] s = some (attempt exec works c s).1 := by
  cases ha : attempt exec works c s with
  | mk s' ok =>
    cases ok with
    | true => simp [replay, (attempt_true.mp ha).2]
    | false => simp [replay, attempt_false ha]

/-- What every command that succeeded keeps, the log keeps. -/
theorem replay_keeps {I : σ → Prop} {l : List (γ × Bool)} {s s' : σ}
    (hkeep : ∀ c, (c, true) ∈ l → ∀ u u', I u → exec c u = some u' → I u')
    (h : replay exec l s = some s') (hs : I s) : I s' := by
  induction l generalizing s with
  | nil => exact Option.some.inj h ▸ hs
  | cons e l ih =>
    have hl : ∀ c, (c, true) ∈ l → ∀ u u', I u → exec c u = some u' → I u' :=
      fun c hc => hkeep c (List.mem_cons_of_mem e hc)
    obtain ⟨c, ok⟩ := e
    cases ok with
    | true =>
      obtain ⟨u, hu, hrest⟩ := Option.bind_eq_some_iff.mp h
      exact ih hl hrest (hkeep c List.mem_cons_self s u hs hu)
    | false => exact ih hl h hs

/-- What a shell at work will still log. -/
def Running.log (exec : γ → σ → Option σ) (errexit : Bool) (works : γ → Bool) (r : Running γ)
    (s : σ) : List (γ × Bool) :=
  (script exec errexit works r.rest s).2

theorem Running.log_next {r r' : Running γ} {s s' : σ}
    (h : r.next exec errexit works s = some (r', s')) : ∃ e,
      r.log exec errexit works s = e :: r'.log exec errexit works s' ∧
        replay exec [e] s = some s' := by
  obtain ⟨rest, ok⟩ := r
  cases rest with
  | nil => simp [next] at h
  | cons c cs =>
    obtain ⟨rfl, rfl⟩ := Prod.mk.inj (Option.some.inj h)
    refine ⟨(c, (attempt exec works c s).2), ?_, replay_attempt c s⟩
    cases hstop : errexit && !(attempt exec works c s).2 with
    | true =>
      obtain ⟨hexit, hfailed⟩ : errexit = true ∧ (attempt exec works c s).2 = false := by
        simpa using hstop
      simp [log, script, hexit, hfailed]
    | false => simp [log, script, hstop]

/-- A shell that has started will log what the whole script does. -/
theorem Running.log_start {f : Fate γ} (hstarts : f.starts = true) (cs : List γ) (s : σ) :
    (⟨cs, true⟩ : Running γ).log exec errexit f.works s = (sh exec errexit f cs s).log := by
  rw [sh, if_pos hstarts, log]

end Replay

end Shell

end EnclaveNetworkGateway
