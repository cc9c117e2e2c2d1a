import EnclaveNetworkGateway.Netfilter
import Mathlib.Data.List.Nodup

/-!
# What `clean_up` takes away and what it leaves

`clean_up` deletes by content and by table. It spares what was there before the start
exactly under the conditions `Spared`, and it tries every deletion exactly when a failure
of the capture half cannot keep it from the replay half.
-/
namespace EnclaveNetworkGateway

namespace Netfilter

open Shell

/-! ## Deleting the first of several equal rules -/

section Erase

variable {α : Type*} {a : α} {l : List α}

theorem cons_eq_concat_iff : a :: l = l ++ [a] ↔ ∀ x ∈ l, x = a := by
  induction l with
  | nil => simp
  | cons x l ih =>
    rw [List.cons_append, List.cons.injEq, List.forall_mem_cons]
    constructor
    · rintro ⟨rfl, h⟩
      exact ⟨rfl, ih.mp h⟩
    · rintro ⟨rfl, h⟩
      exact ⟨rfl, ih.mpr h⟩

variable [DecidableEq α]

/-- Appending an element and deleting the first one like it keeps the list exactly when
nothing else follows the first one. -/
theorem sublist_erase_concat_iff :
    l.Sublist ((l ++ [a]).erase a) ↔ ∀ x ∈ l.dropWhile (· ≠ a), x = a := by
  induction l with
  | nil => simp
  | cons x l ih =>
    by_cases hx : x = a
    · subst hx
      have hdrop : (x :: l).dropWhile (· ≠ x) = x :: l := by simp
      rw [hdrop, List.cons_append, List.erase_cons_head, List.forall_mem_cons,
        and_iff_right rfl, ← cons_eq_concat_iff]
      constructor
      · exact fun h => h.eq_of_length (by simp)
      · exact fun h => h ▸ List.Sublist.refl _
    · have hdrop : (x :: l).dropWhile (· ≠ a) = l.dropWhile (· ≠ a) := by simp [hx]
      rw [hdrop, List.cons_append, List.erase_cons_tail (by simpa using hx),
        List.cons_sublist_cons, ih]

/-- In any case only the first one is missing. -/
theorem erase_sublist_erase_concat : (l.erase a).Sublist ((l ++ [a]).erase a) :=
  (List.sublist_append_left l [a]).erase a

theorem not_sublist_erase (h : a ∈ l) : ¬ l.Sublist (l.erase a) := by
  intro hs
  have hlen := hs.length_le
  have hpos := List.length_pos_of_mem h
  rw [List.length_erase_of_mem h] at hlen
  omega

end Erase

/-! ## Which command changes what -/

inductive Part where
  | chain (ch : Chain)
  | routes
  | rules
  deriving DecidableEq, Repr

/-- The part of the tables that a command is about. -/
def NetCommand.part : NetCommand → Option Part
  | iptablesAppend ch _ | iptablesDelete ch _ => some (.chain ch)
  | ipRouteAdd _ | ipRouteFlush _ => some .routes
  | ipRuleAdd _ | ipRuleFlush _ => some .rules
  | ipRouteFlushCache => none

section Keeps

variable {c : NetCommand}

/-- A command leaves the other parts as they are. -/
theorem exec_frame {t t' : Tables} (h : c.exec t = some t') :
    (∀ ch, c.part ≠ some (.chain ch) → t'.chain ch = t.chain ch) ∧
      (c.part ≠ some .routes → t'.routes = t.routes) ∧
      (c.part ≠ some .rules → t'.rules = t.rules) := by
  cases c with
  | iptablesAppend d r =>
    obtain rfl := Option.some.inj h
    refine ⟨fun ch hch => ?_, fun _ => by simp, fun _ => by simp⟩
    have hne : ch ≠ d := fun heq => hch (heq ▸ rfl)
    simp [hne]
  | iptablesDelete d r =>
    simp only [NetCommand.exec] at h
    split_ifs at h
    obtain rfl := Option.some.inj h
    refine ⟨fun ch hch => ?_, fun _ => by simp, fun _ => by simp⟩
    have hne : ch ≠ d := fun heq => hch (heq ▸ rfl)
    simp [hne]
  | ipRouteAdd r =>
    simp only [NetCommand.exec] at h
    split_ifs at h
    obtain rfl := Option.some.inj h
    exact ⟨fun ch _ => by cases ch <;> rfl, fun hr => absurd rfl hr, fun _ => rfl⟩
  | ipRouteFlush n =>
    obtain rfl := Option.some.inj h
    exact ⟨fun ch _ => by cases ch <;> rfl, fun hr => absurd rfl hr, fun _ => rfl⟩
  | ipRuleAdd r =>
    obtain rfl := Option.some.inj h
    exact ⟨fun ch _ => by cases ch <;> rfl, fun _ => rfl, fun hr => absurd rfl hr⟩
  | ipRuleFlush n =>
    obtain rfl := Option.some.inj h
    exact ⟨fun ch _ => by cases ch <;> rfl, fun _ => rfl, fun hr => absurd rfl hr⟩
  | ipRouteFlushCache =>
    obtain rfl := Option.some.inj h
    exact ⟨fun ch _ => rfl, fun _ => rfl, fun _ => rfl⟩

theorem keeps_chain {ch : Chain} (h : c.part ≠ some (.chain ch)) :
    Keeps NetCommand.exec (·.chain ch) c := fun _ _ ht => (exec_frame ht).1 ch h

theorem keeps_routes (h : c.part ≠ some .routes) : Keeps NetCommand.exec Tables.routes c :=
  fun _ _ ht => (exec_frame ht).2.1 h

theorem keeps_rules (h : c.part ≠ some .rules) : Keeps NetCommand.exec Tables.rules c :=
  fun _ _ ht => (exec_frame ht).2.2 h

end Keeps

section Halves

variable {β : Type*} {π : Tables → β} {c : NetCommand} {t : Tables} {errexit : Bool}
  {fate : Fate NetCommand} {option capture replay : Option UInt16}

theorem only_half {cs : UInt16 → List NetCommand} (hkeep : ∀ d, d.part ≠ c.part →
    Keeps NetCommand.exec π d) (hc : ∀ p, option = some p → c ∈ cs p)
    (hparts : ∀ p, ((cs p).map NetCommand.part).Nodup) :
    Only NetCommand.exec π c t
      (whenSome option (fun p => sh NetCommand.exec errexit fate (cs p)) t) := by
  cases option with
  | none => exact only_skip
  | some p =>
    refine only_sh (hc p rfl) ((hparts p).of_map _) fun d hd hne => hkeep d fun heq => hne ?_
    exact List.inj_on_of_nodup_map (hparts p) hd (hc p rfl) heq

/-- A half of the program that is not about the part. -/
theorem half_keeps {cs : UInt16 → List NetCommand} (hkeep : ∀ d, d.part ≠ c.part →
    Keeps NetCommand.exec π d) (hout : ∀ p, c.part ∉ (cs p).map NetCommand.part) (u : Tables) :
    π (whenSome option (fun p => sh NetCommand.exec errexit fate (cs p)) u).state = π u ∧
      (c, true) ∉ (whenSome option (fun p => sh NetCommand.exec errexit fate (cs p)) u).log := by
  cases option with
  | none => exact ⟨rfl, by simp [whenSome, Outcome.skip]⟩
  | some p =>
    constructor
    · exact sh_keeps fun d hd => hkeep d fun heq => hout p (heq ▸ List.mem_map_of_mem hd)
    · exact fun hmem => hout p (List.mem_map_of_mem (mem_of_mem_sh hmem))

theorem mem_half {cs : UInt16 → List NetCommand} {e : NetCommand × Bool}
    (h : e ∈ (whenSome option (fun p => sh NetCommand.exec errexit fate (cs p)) t).log) :
    ∃ p, option = some p ∧ e.1 ∈ cs p := by
  cases option with
  | none => simp [whenSome, Outcome.skip] at h
  | some p => exact ⟨p, rfl, mem_of_mem_sh h⟩

variable {cs ds : UInt16 → List NetCommand} {fate' : Fate NetCommand}

/-- A command that was run is one of the scripts that the options call for. -/
theorem mem_program {e : NetCommand × Bool}
    (h : e ∈ ((whenSome capture (fun p => sh NetCommand.exec errexit fate (cs p)) t).andThen
      (whenSome replay fun p => sh NetCommand.exec errexit fate' (ds p))).log) :
    (∃ p, capture = some p ∧ e.1 ∈ cs p) ∨ ∃ p, replay = some p ∧ e.1 ∈ ds p := by
  by_cases hok : (whenSome capture (fun p => sh NetCommand.exec errexit fate (cs p)) t).result =
      .ok ()
  · rw [Outcome.andThen_of_ok hok, List.mem_append] at h
    exact h.imp mem_half mem_half
  · rw [Outcome.andThen_of_ne hok] at h
    exact .inl (mem_half h)

theorem only_first (hkeep : ∀ d, d.part ≠ c.part → Keeps NetCommand.exec π d)
    (hc : ∀ p, capture = some p → c ∈ cs p) (hparts : ∀ p, ((cs p).map NetCommand.part).Nodup)
    (hout : ∀ p, c.part ∉ (ds p).map NetCommand.part) :
    Only NetCommand.exec π c t
      ((whenSome capture (fun p => sh NetCommand.exec errexit fate (cs p)) t).andThen
        (whenSome replay fun p => sh NetCommand.exec errexit fate' (ds p))) :=
  (only_half hkeep hc hparts).andThen_left (fun u => (half_keeps hkeep hout u).1)
    (fun u => (half_keeps hkeep hout u).2)

theorem only_second (hkeep : ∀ d, d.part ≠ c.part → Keeps NetCommand.exec π d)
    (hc : ∀ p, replay = some p → c ∈ ds p) (hparts : ∀ p, ((ds p).map NetCommand.part).Nodup)
    (hout : ∀ p, c.part ∉ (cs p).map NetCommand.part) :
    Only NetCommand.exec π c t
      ((whenSome capture (fun p => sh NetCommand.exec errexit fate (cs p)) t).andThen
        (whenSome replay fun p => sh NetCommand.exec errexit fate' (ds p))) :=
  Only.andThen_right (fun _ => only_half hkeep hc hparts) (half_keeps hkeep hout t).1
    (half_keeps hkeep hout t).2

end Halves

/-- The rule that the options add to a chain. -/
def ownRule (capture replay : Option UInt16) : Chain → Option NatRule
  | .output => capture.map captureRule
  | .prerouting => replay.map replayRule

section Effects

variable {capture replay : Option UInt16} {f : Fates} {t : Tables} {ch : Chain}

theorem setupCapture_parts (p : UInt16) : (setupCapture p).map NetCommand.part =
    [some (.chain .output), some .routes, some .rules, none] := rfl

theorem cleanUpCapture_parts (p : UInt16) : (cleanUpCapture p).map NetCommand.part =
    [some (.chain .output), some .routes, some .rules, none] := rfl

theorem setup_chain {r : NatRule} (hr : ∀ r', ownRule capture replay ch = some r' → r' = r) :
    Only NetCommand.exec (·.chain ch) (.iptablesAppend ch r) t
      (setupNetfilter capture replay f t) := by
  cases ch with
  | output =>
    refine only_first (fun d => keeps_chain) (fun p hp => ?_) (by simp [setupCapture_parts])
      (by simp [setupReplay, NetCommand.part])
    rw [← hr (captureRule p) (by simp [ownRule, hp])]
    simp [setupCapture]
  | prerouting =>
    refine only_second (fun d => keeps_chain) (fun p hp => ?_)
      (by simp [setupReplay]) (by simp [setupCapture_parts, NetCommand.part])
    rw [← hr (replayRule p) (by simp [ownRule, hp])]
    simp [setupReplay]

theorem cleanUp_chain {r : NatRule} (hr : ∀ r', ownRule capture replay ch = some r' → r' = r) :
    Only NetCommand.exec (·.chain ch) (.iptablesDelete ch r) t (cleanUp capture replay f t) := by
  cases ch with
  | output =>
    refine only_first (fun d => keeps_chain) (fun p hp => ?_) (by simp [cleanUpCapture_parts])
      (by simp [cleanUpReplay, NetCommand.part])
    rw [← hr (captureRule p) (by simp [ownRule, hp])]
    simp [cleanUpCapture]
  | prerouting =>
    refine only_second (fun d => keeps_chain) (fun p hp => ?_)
      (by simp [cleanUpReplay]) (by simp [cleanUpCapture_parts, NetCommand.part])
    rw [← hr (replayRule p) (by simp [ownRule, hp])]
    simp [cleanUpReplay]

theorem setup_routes : Only NetCommand.exec Tables.routes (.ipRouteAdd captureRoute) t
    (setupNetfilter capture replay f t) :=
  only_first (fun d => keeps_routes) (by simp [setupCapture]) (by simp [setupCapture_parts])
    (by simp [setupReplay, NetCommand.part])

theorem cleanUp_routes : Only NetCommand.exec Tables.routes (.ipRouteFlush entaTable) t
    (cleanUp capture replay f t) :=
  only_first (fun d => keeps_routes) (by simp [cleanUpCapture]) (by simp [cleanUpCapture_parts])
    (by simp [cleanUpReplay, NetCommand.part])

theorem setup_rules {p : UInt16} (hp : ∀ q, capture = some q → q = p) :
    Only NetCommand.exec Tables.rules (.ipRuleAdd (captureIpRule p)) t
      (setupNetfilter capture replay f t) :=
  only_first (fun d => keeps_rules) (fun q hq => by simp [setupCapture, hp q hq])
    (by simp [setupCapture_parts]) (by simp [setupReplay, NetCommand.part])

theorem cleanUp_rules : Only NetCommand.exec Tables.rules (.ipRuleFlush entaTable) t
    (cleanUp capture replay f t) :=
  only_first (fun d => keeps_rules) (by simp [cleanUpCapture]) (by simp [cleanUpCapture_parts])
    (by simp [cleanUpReplay, NetCommand.part])

end Effects

/-! ## What is spared -/

/-- Everything that was there is still there, in the same order. -/
structure Preserved (t t' : Tables) : Prop where
  chain : ∀ ch, (t.chain ch).Sublist (t'.chain ch)
  routes : t.routes.Sublist t'.routes
  rules : t.rules.Sublist t'.rules

/-- Where a rule was deleted, this run had added one, and behind the first older rule like
it there was nothing else; a flushed table was empty. -/
structure Spared (capture replay : Option UInt16) (t : Tables) (m : Ended) : Prop where
  chain : ∀ ch r, ownRule capture replay ch = some r →
    (.iptablesDelete ch r, true) ∈ m.cleaned.log →
      (.iptablesAppend ch r, true) ∈ m.setup.log ∧ ∀ x ∈ (t.chain ch).dropWhile (· ≠ r), x = r
  routes : (.ipRouteFlush entaTable, true) ∈ m.cleaned.log → ∀ x ∈ t.routes, x.table ≠ entaTable
  rules : (.ipRuleFlush entaTable, true) ∈ m.cleaned.log → ∀ x ∈ t.rules, x.table ≠ entaTable

/-- All rules but one like the own rule of the chain, and everything outside of table 8,
are still there, in the same order. -/
structure ForeignKept (capture replay : Option UInt16) (t t' : Tables) : Prop where
  chain : ∀ ch, ((ownRule capture replay ch).elim (t.chain ch) (t.chain ch).erase).Sublist
    (t'.chain ch)
  routes : (t.routes.filter (·.table ≠ entaTable)).Sublist t'.routes
  rules : (t.rules.filter (·.table ≠ entaTable)).Sublist t'.rules

section Spared

variable {capture replay : Option UInt16} {f : RunFate} {fs : Fates} {t u : Tables} {o : NetOutcome}
  {ch : Chain} {r : NatRule}

/-- `run` has set up the rules, or it has not come so far. -/
theorem run_outcome (capture replay : Option UInt16) (f : RunFate) (t : Tables) :
    (run capture replay f t).1 = setupNetfilter capture replay f.setup t ∨
      (run capture replay f t).1 = .skip t := by
  cases hconnects : f.connects with
  | false => exact .inr (by simp [run, hconnects])
  | true =>
    cases htun : f.tunCreated with
    | false => exact .inr (by simp [run, setupTun, hconnects, htun])
    | true =>
      left
      cases hres : (setupNetfilter capture replay f.setup t).result <;>
        simp [run, setupTun, hconnects, htun, hres, Except.mapError]

theorem run_only {β : Type*} {π : Tables → β} {c : NetCommand}
    (h : Only NetCommand.exec π c t (setupNetfilter capture replay f.setup t)) :
    Only NetCommand.exec π c t (run capture replay f t).1 := by
  rcases run_outcome capture replay f t with heq | heq
  · rw [heq]
    exact h
  · rw [heq]
    exact only_skip

/-- A chain after the own rule may have been appended. -/
theorem appended (h : Only NetCommand.exec (·.chain ch) (.iptablesAppend ch r) t o) :
    ((.iptablesAppend ch r, true) ∈ o.log → o.state.chain ch = t.chain ch ++ [r]) ∧
      ((.iptablesAppend ch r, true) ∉ o.log → o.state.chain ch = t.chain ch) := by
  refine ⟨fun hmem => ?_, h.undone⟩
  obtain ⟨u, u', hu, hexec, hstate⟩ := h.done hmem
  obtain rfl := Option.some.inj hexec
  rw [hstate, Tables.chain_setChain, if_pos rfl, hu]

/-- A chain after a rule may have been deleted. -/
theorem deleted (h : Only NetCommand.exec (·.chain ch) (.iptablesDelete ch r) t o)
    (hmem : (.iptablesDelete ch r, true) ∈ o.log) :
    r ∈ t.chain ch ∧ o.state.chain ch = (t.chain ch).erase r := by
  obtain ⟨u, u', hu, hexec, hstate⟩ := h.done hmem
  simp only [NetCommand.exec] at hexec
  split_ifs at hexec with hr
  obtain rfl := Option.some.inj hexec
  rw [hu] at hr
  refine ⟨hr, ?_⟩
  rw [hstate, Tables.chain_setChain, if_pos rfl, hu]

theorem chain_spared_iff (hs : Only NetCommand.exec (·.chain ch) (.iptablesAppend ch r) t o)
    {o' : NetOutcome} (hc : Only NetCommand.exec (·.chain ch) (.iptablesDelete ch r) o.state o') :
    ((t.chain ch).Sublist (o'.state.chain ch) ↔ ((.iptablesDelete ch r, true) ∈ o'.log →
      (.iptablesAppend ch r, true) ∈ o.log ∧ ∀ x ∈ (t.chain ch).dropWhile (· ≠ r), x = r)) ∧
    ((t.chain ch).erase r).Sublist (o'.state.chain ch) := by
  obtain ⟨hadded, hnot⟩ := appended hs
  by_cases hdel : (.iptablesDelete ch r, true) ∈ o'.log
  · obtain ⟨hr, hfinal⟩ := deleted hc hdel
    by_cases hadd : (.iptablesAppend ch r, true) ∈ o.log
    · rw [hfinal, hadded hadd]
      exact ⟨by simp [hdel, hadd, sublist_erase_concat_iff], erase_sublist_erase_concat⟩
    · rw [hnot hadd] at hr hfinal
      rw [hfinal]
      exact ⟨by simp [hdel, hadd, not_sublist_erase hr], List.Sublist.refl _⟩
  · have hfinal : o'.state.chain ch = o.state.chain ch := hc.undone hdel
    have hsub : (t.chain ch).Sublist (o.state.chain ch) := by
      by_cases hadd : (.iptablesAppend ch r, true) ∈ o.log
      · rw [hadded hadd]
        exact List.sublist_append_left _ _
      · rw [hnot hadd]
    rw [hfinal]
    exact ⟨by simp [hdel, hsub], (List.erase_sublist).trans hsub⟩

/-- The own entry of a flushed table goes with the others. -/
theorem sublist_filter_iff {α : Type*} {l : List α} {p : α → Bool} :
    l.Sublist (l.filter p) ↔ ∀ x ∈ l, p x = true := by
  constructor
  · intro h
    rw [← List.filter_eq_self]
    exact (List.filter_sublist.antisymm h)
  · intro h
    rw [List.filter_eq_self.mpr h]

/-- A list to which an own entry may have been added is flushed or not. -/
theorem flushed_iff {α : Type*} {l l₁ l' : List α} {p : α → Bool} {flushed : Prop}
    (hsub : l.Sublist l₁) (hown : l₁.filter p = l.filter p)
    (hdone : flushed → l' = l₁.filter p) (hundone : ¬ flushed → l' = l₁) :
    (l.Sublist l' ↔ (flushed → ∀ x ∈ l, p x = true)) ∧ (l.filter p).Sublist l' := by
  by_cases hf : flushed
  · rw [hdone hf, hown, sublist_filter_iff]
    exact ⟨by simp [hf], List.Sublist.refl _⟩
  · rw [hundone hf]
    exact ⟨by simp [hf, hsub], List.filter_sublist.trans hsub⟩

theorem routes_spared_iff (hs : Only NetCommand.exec Tables.routes (.ipRouteAdd captureRoute) t o)
    {o' : NetOutcome}
    (hc : Only NetCommand.exec Tables.routes (.ipRouteFlush entaTable) o.state o') :
    (t.routes.Sublist o'.state.routes ↔ ((.ipRouteFlush entaTable, true) ∈ o'.log →
      ∀ x ∈ t.routes, x.table ≠ entaTable)) ∧
    (t.routes.filter (·.table ≠ entaTable)).Sublist o'.state.routes := by
  have hmid : o.state.routes = t.routes ∨ o.state.routes = t.routes ++ [captureRoute] := by
    by_cases hadd : (.ipRouteAdd captureRoute, true) ∈ o.log
    · obtain ⟨u, u', hu, hexec, hstate⟩ := hs.done hadd
      simp only [NetCommand.exec] at hexec
      split_ifs at hexec
      obtain rfl := Option.some.inj hexec
      exact .inr (hstate.trans (by rw [hu]))
    · exact .inl (hs.undone hadd)
  have hdone : (.ipRouteFlush entaTable, true) ∈ o'.log →
      o'.state.routes = o.state.routes.filter (·.table ≠ entaTable) := by
    intro hflush
    obtain ⟨u, u', hu, hexec, hstate⟩ := hc.done hflush
    obtain rfl := Option.some.inj hexec
    rw [hstate, hu]
  have hsub : t.routes.Sublist o.state.routes := by
    rcases hmid with hmid | hmid <;> simp [hmid]
  have hown : o.state.routes.filter (·.table ≠ entaTable) =
      t.routes.filter (·.table ≠ entaTable) := by
    rcases hmid with hmid | hmid <;> simp [hmid, captureRoute]
  simpa using flushed_iff hsub hown hdone hc.undone

theorem rules_spared_iff {p : UInt16}
    (hs : Only NetCommand.exec Tables.rules (.ipRuleAdd (captureIpRule p)) t o) {o' : NetOutcome}
    (hc : Only NetCommand.exec Tables.rules (.ipRuleFlush entaTable) o.state o') :
    (t.rules.Sublist o'.state.rules ↔ ((.ipRuleFlush entaTable, true) ∈ o'.log →
      ∀ x ∈ t.rules, x.table ≠ entaTable)) ∧
    (t.rules.filter (·.table ≠ entaTable)).Sublist o'.state.rules := by
  have hmid : o.state.rules = t.rules ∨ o.state.rules = insertRule (captureIpRule p) t.rules := by
    by_cases hadd : (.ipRuleAdd (captureIpRule p), true) ∈ o.log
    · obtain ⟨u, u', hu, hexec, hstate⟩ := hs.done hadd
      obtain rfl := Option.some.inj hexec
      exact .inr (hstate.trans (by rw [hu]))
    · exact .inl (hs.undone hadd)
  have hdone : (.ipRuleFlush entaTable, true) ∈ o'.log →
      o'.state.rules = o.state.rules.filter (·.table ≠ entaTable) := by
    intro hflush
    obtain ⟨u, u', hu, hexec, hstate⟩ := hc.done hflush
    obtain rfl := Option.some.inj hexec
    rw [hstate, hu]
  have hsub : t.rules.Sublist o.state.rules := by
    rcases hmid with hmid | hmid
    · simp [hmid]
    · cases hl : t.rules <;> simp [hmid, hl, insertRule]
  have hown : o.state.rules.filter (·.table ≠ entaTable) =
      t.rules.filter (·.table ≠ entaTable) := by
    rcases hmid with hmid | hmid
    · simp [hmid]
    · cases hl : t.rules <;> simp [hmid, hl, insertRule, captureIpRule, List.filter_cons]
  simpa using flushed_iff hsub hown hdone hc.undone

/-- Without an own rule a chain stays as it is. -/
theorem chain_of_none (hr : ownRule capture replay ch = none) :
    (setupNetfilter capture replay fs t).state.chain ch = t.chain ch ∧
      (cleanUp capture replay fs t).state.chain ch = t.chain ch := by
  have hself : ∀ r', ownRule capture replay ch = some r' → r' = .other "" := by simp [hr]
  constructor
  · refine (setup_chain hself).undone fun hmem => ?_
    rcases mem_program hmem with ⟨p, hp, hc⟩ | ⟨p, hp, hc⟩
    · obtain ⟨rfl, _⟩ : ch = .output ∧ _ := by simpa [setupCapture] using hc
      simp [ownRule, hp] at hr
    · obtain ⟨rfl, _⟩ : ch = .prerouting ∧ _ := by simpa [setupReplay] using hc
      simp [ownRule, hp] at hr
  · refine (cleanUp_chain hself).undone fun hmem => ?_
    rcases mem_program hmem with ⟨p, hp, hc⟩ | ⟨p, hp, hc⟩
    · obtain ⟨rfl, _⟩ : ch = .output ∧ _ := by simpa [cleanUpCapture] using hc
      simp [ownRule, hp] at hr
    · obtain ⟨rfl, _⟩ : ch = .prerouting ∧ _ := by simpa [cleanUpReplay] using hc
      simp [ownRule, hp] at hr

/-- `main` spares all that was there before exactly if what its clean-up deleted was its
own, and in any case all that is not like an entry of its own. -/
theorem main_preserves_iff (capture replay : Option UInt16) (f : RunFate) (t : Tables) :
    (Preserved t (main capture replay f t).cleaned.state ↔
      Spared capture replay t (main capture replay f t)) ∧
    ForeignKept capture replay t (main capture replay f t).cleaned.state := by
  set m := main capture replay f t with hm
  have hcleaned : m.cleaned = cleanUp capture replay f.cleanUp m.setup.state := rfl
  have hroutes := routes_spared_iff (o := m.setup) (run_only setup_routes)
    (hcleaned ▸ cleanUp_routes)
  have hrules := rules_spared_iff (o := m.setup) (p := capture.getD 0)
    (run_only (setup_rules (by rintro q rfl; rfl))) (hcleaned ▸ cleanUp_rules)
  have hchain := fun ch r (hr : ownRule capture replay ch = some r) =>
    have hself : ∀ r', ownRule capture replay ch = some r' → r' = r :=
      fun _ hr' => Option.some.inj (hr'.symm.trans hr)
    chain_spared_iff (o := m.setup) (run_only (setup_chain hself))
      (hcleaned ▸ cleanUp_chain hself)
  have hnone : ∀ ch, ownRule capture replay ch = none →
      m.cleaned.state.chain ch = t.chain ch := by
    intro ch hr
    rw [hcleaned, (chain_of_none hr).2]
    rcases run_outcome capture replay f t with heq | heq
    · rw [show m.setup = _ from heq, (chain_of_none hr).1]
    · rw [show m.setup = _ from heq, Outcome.skip]
  refine ⟨⟨fun h => ?_, fun h => ?_⟩, ?_, hroutes.2, hrules.2⟩
  · exact ⟨fun ch r hr => (hchain ch r hr).1.mp (h.chain ch), hroutes.1.mp h.routes,
      hrules.1.mp h.rules⟩
  · refine ⟨fun ch => ?_, hroutes.1.mpr h.routes, hrules.1.mpr h.rules⟩
    cases hr : ownRule capture replay ch with
    | none => rw [hnone ch hr]
    | some r => exact (hchain ch r hr).1.mpr (h.chain ch r hr)
  · intro ch
    cases hr : ownRule capture replay ch with
    | none => simp [hnone ch hr]
    | some r => exact (hchain ch r hr).2

end Spared

/-- All commands work, but there is no connection to the ENTG. -/
def refusedFate : RunFate where
  connects := false
  tunCreated := true
  setup := ⟨⟨true, fun _ => true⟩, ⟨true, fun _ => true⟩⟩
  forwards := true
  cleanUp := ⟨⟨true, fun _ => true⟩, ⟨true, fun _ => true⟩⟩

/-- The entries of another ENTA that captures the same port. -/
def otherEnta : Tables := ⟨[captureRule 80], [], [captureRoute], [captureIpRule 80]⟩

theorem refused_not_preserved : ¬ ∀ (capture replay : Option UInt16) (f : RunFate) (t : Tables),
    Preserved t (main capture replay f t).cleaned.state := by
  intro h
  have hsub := (h (some 80) none refusedFate otherEnta).chain .output
  revert hsub
  decide

/-! ## What is left behind -/

/-- The deletions that the options call for. -/
def deletions (capture replay : Option UInt16) : List NetCommand :=
  capture.toList.flatMap (fun p => [.iptablesDelete .output (captureRule p),
    .ipRouteFlush entaTable, .ipRuleFlush entaTable]) ++
  replay.toList.map fun p => .iptablesDelete .prerouting (replayRule p)

/-- The command that takes back what a command of the setup adds. -/
def NetCommand.undo : NetCommand → Option NetCommand
  | iptablesAppend ch r => some (.iptablesDelete ch r)
  | ipRouteAdd r => some (.ipRouteFlush r.table)
  | ipRuleAdd r => some (.ipRuleFlush r.table)
  | _ => none

/-- What the command has added is still there. -/
def NetCommand.StillThere : NetCommand → Tables → Tables → Prop
  | iptablesAppend ch r, t, t' => (t.chain ch).count r < (t'.chain ch).count r
  | ipRouteAdd r, t, t' => t.routes.count r < t'.routes.count r
  | ipRuleAdd r, t, t' => t.rules.count r < t'.rules.count r
  | _, _, _ => False

/-- Every deletion is attempted, and an entry of this run is left behind only if the command
that deletes it failed. -/
structure Thorough (capture replay : Option UInt16) (t : Tables) (setup cleaned : NetOutcome) :
    Prop where
  attempted : ∀ d ∈ deletions capture replay, ∃ ok, (d, ok) ∈ cleaned.log
  residue : ∀ c d, (c, true) ∈ setup.log → c.undo = some d → c.StillThere t cleaned.state →
    (d, false) ∈ cleaned.log

section Thorough

variable {capture replay : Option UInt16} {fs fc : Fates} {t : Tables}

/-- What is deleted is not still there. -/
theorem not_stillThere {c d : NetCommand}
    (hc : (c, true) ∈ (setupNetfilter capture replay fs t).log) (hd : c.undo = some d)
    (hdone : (d, true) ∈
      (cleanUp capture replay fc (setupNetfilter capture replay fs t).state).log) :
    ¬ c.StillThere t (cleanUp capture replay fc (setupNetfilter capture replay fs t).state).state := by
  cases c with
  | iptablesAppend ch r =>
    obtain rfl := Option.some.inj hd
    have hr : ∀ r', ownRule capture replay ch = some r' → r' = r := by
      intro r' hr'
      rcases mem_program hc with ⟨p, hp, hmem⟩ | ⟨p, hp, hmem⟩
      · obtain ⟨rfl, rfl⟩ : ch = .output ∧ r = captureRule p := by simpa [setupCapture] using hmem
        simpa [ownRule, hp] using hr'.symm
      · obtain ⟨rfl, rfl⟩ : ch = .prerouting ∧ r = replayRule p := by
          simpa [setupReplay] using hmem
        simpa [ownRule, hp] using hr'.symm
    have hmid := (appended (setup_chain (f := fs) (t := t) hr)).1 hc
    obtain ⟨_, hfinal⟩ := deleted (cleanUp_chain hr) hdone
    rw [NetCommand.StillThere, hfinal, hmid, List.count_erase_self, List.count_append,
      List.count_singleton_self]
    omega
  | ipRouteAdd r =>
    obtain rfl := Option.some.inj hd
    rcases mem_program hc with ⟨p, hp, hmem⟩ | ⟨p, hp, hmem⟩
    · obtain rfl : r = captureRoute := by simpa [setupCapture] using hmem
      obtain ⟨u, u', hu, hexec, hfinal⟩ := cleanUp_routes.done hdone
      obtain rfl := Option.some.inj hexec
      have hnot : captureRoute ∉ (cleanUp capture replay fc
          (setupNetfilter capture replay fs t).state).state.routes := by
        rw [hfinal]
        simp [captureRoute]
      rw [NetCommand.StillThere, List.count_eq_zero.mpr hnot]
      omega
    · simp [setupReplay] at hmem
  | ipRuleAdd r =>
    obtain rfl := Option.some.inj hd
    rcases mem_program hc with ⟨p, hp, hmem⟩ | ⟨p, hp, hmem⟩
    · obtain rfl : r = captureIpRule p := by simpa [setupCapture] using hmem
      obtain ⟨u, u', hu, hexec, hfinal⟩ := cleanUp_rules.done hdone
      obtain rfl := Option.some.inj hexec
      have hnot : captureIpRule p ∉ (cleanUp capture replay fc
          (setupNetfilter capture replay fs t).state).state.rules := by
        rw [hfinal]
        simp [captureIpRule]
      rw [NetCommand.StillThere, List.count_eq_zero.mpr hnot]
      omega
    · simp [setupReplay] at hmem
  | _ => simp [NetCommand.undo] at hd

/-- The capture half of `clean_up` succeeds exactly if its last command does. -/
theorem cleanUpCapture_ok_iff {p : UInt16} {f : Fate NetCommand} :
    (sh NetCommand.exec false f (cleanUpCapture p) t).result = .ok () ↔
      f.starts = true ∧ f.works .ipRouteFlushCache = true := by
  have hlast : cleanUpCapture p = [.iptablesDelete .output (captureRule p),
    .ipRouteFlush entaTable, .ipRuleFlush entaTable] ++ [.ipRouteFlushCache] := rfl
  rw [hlast]
  exact sh_ok_iff fun _ => rfl

/-- A script of `clean_up` attempts all of its commands. -/
theorem mem_sh_log (f : Fate NetCommand) (t : Tables) {cs : List NetCommand} {d : NetCommand}
    (hd : d ∈ cs) : ∃ ok, (d, ok) ∈ (sh NetCommand.exec false f cs t).log := by
  have hmap : d ∈ (sh NetCommand.exec false f cs t).log.map Prod.fst := by
    rw [sh_log_map]
    exact hd
  obtain ⟨⟨c, ok⟩, hmem, rfl⟩ := List.mem_map.mp hmap
  exact ⟨ok, hmem⟩

theorem attempted_iff : (∀ d ∈ deletions capture replay, ∃ ok,
    (d, ok) ∈ (cleanUp capture replay fc t).log) ↔
      capture = none ∨ replay = none ∨
        fc.capture.starts = true ∧ fc.capture.works .ipRouteFlushCache = true := by
  cases capture with
  | none =>
    cases replay with
    | none => simp [deletions]
    | some q =>
      have hmem : .iptablesDelete .prerouting (replayRule q) ∈ cleanUpReplay q := by
        simp [cleanUpReplay]
      have hq := mem_sh_log fc.replay t hmem
      simpa [deletions, cleanUp, whenSome, Outcome.andThen, Outcome.skip] using hq
  | some p =>
    have hp := fun d (hd : d ∈ cleanUpCapture p) => mem_sh_log fc.capture t hd
    rw [← cleanUpCapture_ok_iff (t := t) (p := p)]
    by_cases hok : (sh NetCommand.exec false fc.capture (cleanUpCapture p) t).result = .ok ()
    · simp only [hok, or_true, iff_true]
      intro d hd
      rw [cleanUp, whenSome, Outcome.andThen_of_ok hok]
      rcases List.mem_append.mp hd with hd | hd
      · obtain ⟨ok, hmem⟩ := hp d (by simp [cleanUpCapture] at hd ⊢; tauto)
        exact ⟨ok, List.mem_append_left _ hmem⟩
      · obtain ⟨q, hq, rfl⟩ := List.mem_map.mp hd
        obtain rfl := Option.mem_toList.mp hq
        have hmem : .iptablesDelete .prerouting (replayRule q) ∈ cleanUpReplay q := by
          simp [cleanUpReplay]
        obtain ⟨ok, hlog⟩ := mem_sh_log fc.replay
          (sh NetCommand.exec false fc.capture (cleanUpCapture p) t).state hmem
        exact ⟨ok, List.mem_append_right _ hlog⟩
    · simp only [hok, or_false, reduceCtorEq, false_or]
      rw [cleanUp, whenSome, Outcome.andThen_of_ne hok]
      cases replay with
      | none =>
        simp only [iff_true]
        intro d hd
        exact hp d (by simp [deletions, cleanUpCapture] at hd ⊢; tauto)
      | some q =>
        simp only [reduceCtorEq, iff_false, not_forall]
        refine ⟨.iptablesDelete .prerouting (replayRule q), by simp [deletions], ?_⟩
        rintro ⟨ok, hmem⟩
        have hmem' := mem_of_mem_sh hmem
        simp [cleanUpCapture] at hmem'

/-- `clean_up` is thorough exactly if one of the halves is not asked for, or if the shell of
the capture half starts and its last command, `ip route flush cache`, succeeds. -/
theorem cleanUp_thorough_iff (capture replay : Option UInt16) (fs fc : Fates) (t : Tables) :
    Thorough capture replay t (setupNetfilter capture replay fs t)
        (cleanUp capture replay fc (setupNetfilter capture replay fs t).state) ↔
      capture = none ∨ replay = none ∨
        fc.capture.starts = true ∧ fc.capture.works .ipRouteFlushCache = true := by
  rw [← attempted_iff (t := (setupNetfilter capture replay fs t).state)]
  refine ⟨Thorough.attempted, fun h => ⟨h, fun c d hc hd hthere => ?_⟩⟩
  have hdel : d ∈ deletions capture replay := by
    rcases mem_program hc with ⟨p, rfl, hmem⟩ | ⟨p, rfl, hmem⟩
    · simp only [setupCapture, List.mem_cons, List.not_mem_nil, or_false] at hmem
      rcases hmem with rfl | rfl | rfl | rfl <;>
        simp_all [NetCommand.undo, deletions, captureRoute, captureIpRule]
    · obtain rfl : c = .iptablesAppend .prerouting (replayRule p) := by
        simpa [setupReplay] using hmem
      obtain rfl := Option.some.inj hd
      simp [deletions]
  obtain ⟨ok, hmem⟩ := h d hdel
  cases ok with
  | false => exact hmem
  | true => exact absurd hthere (not_stillThere hc hd hmem)

/-- Everything works but the last command of the capture half of `clean_up`. -/
def cacheFate : Fates :=
  ⟨⟨true, fun c => c ≠ .ipRouteFlushCache⟩, ⟨true, fun _ => true⟩⟩

theorem cache_not_thorough : ¬ ∀ (capture replay : Option UInt16) (fs fc : Fates) (t : Tables),
    Thorough capture replay t (setupNetfilter capture replay fs t)
      (cleanUp capture replay fc (setupNetfilter capture replay fs t).state) := by
  intro h
  obtain ⟨ok, hmem⟩ := (h (some 80) (some 6979) refusedFate.setup cacheFate ⟨[], [], [], []⟩).attempted
    (.iptablesDelete .prerouting (replayRule 6979)) (by decide)
  revert hmem
  cases ok <;> decide

end Thorough

end Netfilter

end EnclaveNetworkGateway
