import EnclaveNetworkGateway.NetfilterCleanUp
import EnclaveNetworkGateway.ProcessLog

/-!
# Connections and the tables

The first packet of a connection meets the rules of a chain and the routing rules one after the
other, and the first one with an opinion decides. What ENTA adds and takes away concerns the
captured port and port 6978 only, but for the routes of its TUN device.
-/
namespace EnclaveNetworkGateway

namespace Netfilter

/-! ## The first match decides -/

section FirstMatch

variable {α β : Type*} {f g : α → Option β} {keep : α → Bool} {l l' : List α}

/-- Rules without an opinion can be left out. -/
theorem findSome_filter (h : ∀ x ∈ l, keep x = false → f x = none) :
    (l.filter keep).findSome? f = l.findSome? f := by
  induction l with
  | nil => rfl
  | cons x l ih =>
    rw [List.forall_mem_cons] at h
    cases hx : keep x with
    | true => rw [List.filter_cons_of_pos hx, List.findSome?_cons, List.findSome?_cons, ih h.2]
    | false =>
      rw [List.filter_cons_of_neg (by simp [hx]), List.findSome?_cons, h.1 hx]
      exact ih h.2

theorem findSome_eq (h : ∀ x ∈ l, f x = g x) : l.findSome? f = l.findSome? g := by
  induction l with
  | nil => rfl
  | cons x l ih =>
    rw [List.forall_mem_cons] at h
    rw [List.findSome?_cons, List.findSome?_cons, h.1, ih h.2]

theorem findSome_congr (hfilter : l.filter keep = l'.filter keep)
    (hf : ∀ x ∈ l, keep x = false → f x = none) (hg : ∀ x ∈ l', keep x = false → g x = none)
    (hfg : ∀ x, keep x = true → f x = g x) : l.findSome? f = l'.findSome? g := by
  rw [← findSome_filter hf, ← findSome_filter hg, hfilter]
  exact findSome_eq fun x hx => hfg x (List.mem_filter.mp hx).2

end FirstMatch

/-- The first packet of a TCP connection. -/
structure Packet (ρ : Type*) where
  destination : String
  dport : UInt16
  rest : ρ
  deriving DecidableEq, Repr

/-- What the scripts do not say: the verdict of any other rule, the effect of any other target,
the packets that another selector selects, those that go to a destination, the choice among the
routes to the destination of a packet, and the address of the interface that a packet came in
by. -/
structure Kernel (ρ : Type*) where
  verdict : String → Packet ρ → Option NatTarget
  effect : String → Packet ρ → Packet ρ
  selects : String → Packet ρ → Bool
  covers : String → Packet ρ → Bool
  choose : List Route → Packet ρ → Option Route
  primary : String

/-- `--to-destination ipaddr[:port]`. -/
def address (destination : String) : String × Option UInt16 :=
  let (ip, port) := destination.toList.span (· ≠ ':')
  (String.ofList ip, match port with
    | [] => none
    | _ :: digits => some (UInt16.ofNat (digits.foldl (fun n d => 10 * n + (d.toNat - 48)) 0)))

variable {ρ : Type*}

/-- A target rewrites the packet. -/
def NatTarget.rewrite (k : Kernel ρ) (x : Packet ρ) : NatTarget → Packet ρ
  | dnat destination =>
    { x with destination := (address destination).1,
             dport := (address destination).2.getD x.dport }
  | redirect toPort => { x with destination := k.primary, dport := toPort }
  | other spec => k.effect spec x

/-- The target for a packet, if the rule has one for it. -/
def NatRule.verdict (k : Kernel ρ) (x : Packet ρ) : NatRule → Option NatTarget
  | tcp dport (.other spec) => if x.dport = dport then k.verdict spec x else none
  | tcp dport target => if x.dport = dport then some target else none
  | other spec => k.verdict spec x

def verdict (k : Kernel ρ) (rules : List NatRule) (x : Packet ρ) : Option NatTarget :=
  rules.findSome? (NatRule.verdict k x)

/-- The packet behind a chain. -/
def translated (k : Kernel ρ) (rules : List NatRule) (x : Packet ρ) : Packet ρ :=
  (verdict k rules x).elim x (NatTarget.rewrite k x)

def Selector.selects (k : Kernel ρ) (x : Packet ρ) : Selector → Bool
  | dport port => x.dport = port
  | other spec => k.selects spec x

/-- The routes of a table to the destination of a packet. -/
def routesTo (k : Kernel ρ) (n : ℕ) (routes : List Route) (x : Packet ρ) : List Route :=
  routes.filter fun y => y.table = n ∧ k.covers y.destination x = true

/-- The route that the table of a routing rule has for a packet. -/
def IpRule.route (k : Kernel ρ) (routes : List Route) (x : Packet ρ) (r : IpRule) :
    Option Route :=
  if r.selector.selects k x then k.choose (routesTo k r.table routes x) x else none

def Tables.route (k : Kernel ρ) (t : Tables) (x : Packet ρ) : Option Route :=
  t.rules.findSome? (IpRule.route k t.routes x)

/-! ## What the scripts leave alone -/

/-- `u` differs from `t` in the rules of the options and in what concerns table 8 only. -/
structure ForeignSame (capture replay : Option UInt16) (t u : Tables) : Prop where
  chain : ∀ ch, (u.chain ch).filter (fun r => some r ≠ ownRule capture replay ch) =
    (t.chain ch).filter fun r => some r ≠ ownRule capture replay ch
  routes : u.routes.filter (·.table ≠ entaTable) = t.routes.filter (·.table ≠ entaTable)
  rules : u.rules.filter (·.table ≠ entaTable) = t.rules.filter (·.table ≠ entaTable)
  own : ∀ r ∈ u.rules, r.table = entaTable → r ∈ t.rules ∨ capture.map captureIpRule = some r

/-- The commands of the scripts that the options call for. -/
inductive OwnCommand (capture replay : Option UInt16) : NetCommand → Prop
  | append {ch : Chain} {r : NatRule} (h : ownRule capture replay ch = some r) :
    OwnCommand capture replay (.iptablesAppend ch r)
  | delete {ch : Chain} {r : NatRule} (h : ownRule capture replay ch = some r) :
    OwnCommand capture replay (.iptablesDelete ch r)
  | routeAdd : OwnCommand capture replay (.ipRouteAdd captureRoute)
  | ruleAdd {p : UInt16} (h : capture = some p) :
    OwnCommand capture replay (.ipRuleAdd (captureIpRule p))
  | routeFlush : OwnCommand capture replay (.ipRouteFlush entaTable)
  | ruleFlush : OwnCommand capture replay (.ipRuleFlush entaTable)
  | cacheFlush : OwnCommand capture replay .ipRouteFlushCache

section Foreign

variable {capture replay : Option UInt16} {t u v : Tables} {c : NetCommand}

theorem ForeignSame.refl (t : Tables) : ForeignSame capture replay t t :=
  ⟨fun _ => rfl, rfl, rfl, fun _ hr _ => .inl hr⟩

theorem mem_insertRule {r x : IpRule} {l : List IpRule} : x ∈ insertRule r l ↔ x = r ∨ x ∈ l := by
  cases l with
  | nil => simp [insertRule]
  | cons y l =>
    simp only [insertRule, List.mem_cons]
    tauto

theorem filter_insertRule {r : IpRule} {l : List IpRule} (hr : r.table = entaTable) :
    (insertRule r l).filter (·.table ≠ entaTable) = l.filter (·.table ≠ entaTable) := by
  cases l <;> simp [insertRule, List.filter_cons, hr]

theorem filter_erase {α : Type*} [DecidableEq α] {a : α} {keep : α → Bool} (ha : keep a = false)
    (l : List α) : (l.erase a).filter keep = l.filter keep := by
  rw [← List.erase_filter, List.erase_of_not_mem (by simp [ha])]

theorem foreignSame_exec (hc : OwnCommand capture replay c) (h : ForeignSame capture replay t u)
    (hexec : c.exec u = some v) : ForeignSame capture replay t v := by
  cases hc with
  | @append ch r hr =>
    obtain rfl := Option.some.inj hexec
    refine ⟨fun d => ?_, by simpa using h.routes, by simpa using h.rules, by simpa using h.own⟩
    rw [Tables.chain_setChain]
    split_ifs with hd
    · subst hd
      rw [List.filter_append, List.filter_cons_of_neg (by simp [hr]), List.filter_nil,
        List.append_nil]
      exact h.chain d
    · exact h.chain d
  | @delete ch r hr =>
    simp only [NetCommand.exec] at hexec
    split_ifs at hexec
    obtain rfl := Option.some.inj hexec
    refine ⟨fun d => ?_, by simpa using h.routes, by simpa using h.rules, by simpa using h.own⟩
    rw [Tables.chain_setChain]
    split_ifs with hd
    · subst hd
      rw [filter_erase (by simp [hr])]
      exact h.chain d
    · exact h.chain d
  | routeAdd =>
    simp only [NetCommand.exec] at hexec
    split_ifs at hexec
    obtain rfl := Option.some.inj hexec
    refine ⟨h.chain, ?_, h.rules, h.own⟩
    rw [List.filter_append, h.routes]
    simp [captureRoute]
  | @ruleAdd p hp =>
    obtain rfl := Option.some.inj hexec
    refine ⟨h.chain, h.routes, ?_, fun r hr htable => ?_⟩
    · rw [← h.rules]
      exact filter_insertRule rfl
    · cases mem_insertRule.mp hr with
      | inl heq => exact .inr (by rw [hp, heq]; rfl)
      | inr hmem => exact h.own r hmem htable
  | routeFlush =>
    obtain rfl := Option.some.inj hexec
    refine ⟨h.chain, ?_, h.rules, h.own⟩
    rw [← h.routes, List.filter_filter]
    simp
  | ruleFlush =>
    obtain rfl := Option.some.inj hexec
    refine ⟨h.chain, h.routes, ?_, fun r hr htable => ?_⟩
    · rw [← h.rules, List.filter_filter]
      simp
    · exact absurd htable (by simpa using (List.mem_filter.mp hr).2)
  | cacheFlush => exact Option.some.inj hexec ▸ h

theorem ownCommand_of_program {f : Fates} {e : NetCommand × Bool}
    (h : e ∈ (setupNetfilter capture replay f t).log ∨ e ∈ (cleanUp capture replay f t).log) :
    OwnCommand capture replay e.1 := by
  rcases h with h | h
  · rcases mem_program h with ⟨p, rfl, hmem⟩ | ⟨p, rfl, hmem⟩
    · simp only [setupCapture, List.mem_cons, List.not_mem_nil, or_false] at hmem
      rcases hmem with heq | heq | heq | heq <;> rw [heq]
      · exact .append rfl
      · exact .routeAdd
      · exact .ruleAdd rfl
      · exact .cacheFlush
    · rw [List.mem_singleton.mp hmem]
      exact .append rfl
  · rcases mem_program h with ⟨p, rfl, hmem⟩ | ⟨p, rfl, hmem⟩
    · simp only [cleanUpCapture, List.mem_cons, List.not_mem_nil, or_false] at hmem
      rcases hmem with heq | heq | heq | heq <;> rw [heq]
      · exact .delete rfl
      · exact .routeFlush
      · exact .ruleFlush
      · exact .cacheFlush
    · rw [List.mem_singleton.mp hmem]
      exact .delete rfl

theorem verdict_same {k : Kernel ρ} {x : Packet ρ} (ch : Chain)
    (h : ForeignSame capture replay t u)
    (hx : ∀ r, ownRule capture replay ch = some r → r.verdict k x = none) :
    verdict k (u.chain ch) x = verdict k (t.chain ch) x := by
  have hnone : ∀ r, decide (some r ≠ ownRule capture replay ch) = false → r.verdict k x = none := by
    intro r hr
    have hown : some r = ownRule capture replay ch := by simpa using hr
    exact hx r hown.symm
  exact findSome_congr (h.chain ch) (fun r _ => hnone r) (fun r _ => hnone r) fun _ _ => rfl

theorem routesTo_append {k : Kernel ρ} {n : ℕ} {x : Packet ρ} (l l' : List Route) :
    routesTo k n (l ++ l') x = routesTo k n l x ++ routesTo k n l' x :=
  List.filter_append ..

/-- The routes of table 8 do not matter to another table. -/
theorem routesTo_filter {k : Kernel ρ} {n : ℕ} {x : Packet ρ} (hn : n ≠ entaTable)
    (l : List Route) : routesTo k n (l.filter (·.table ≠ entaTable)) x = routesTo k n l x := by
  rw [routesTo, routesTo, List.filter_filter]
  apply List.filter_congr
  intro y _
  by_cases hy : y.table = n <;> simp [hy, hn]

theorem routesTo_same {k : Kernel ρ} {n : ℕ} {x : Packet ρ} {l l' : List Route}
    (h : l.filter (·.table ≠ entaTable) = l'.filter (·.table ≠ entaTable)) (hn : n ≠ entaTable) :
    routesTo k n l x = routesTo k n l' x := by
  rw [← routesTo_filter hn, h, routesTo_filter hn]

/-- A packet that no rule for table 8 selects is routed by the rules of the host alone. -/
theorem route_same {k : Kernel ρ} {x : Packet ρ} {l l' : List Route}
    (h : ForeignSame capture replay t u) (hx : capture ≠ some x.dport)
    (hfree : ∀ r ∈ t.rules, r.table = entaTable → r.selector.selects k x = false)
    (hroutes : ∀ n, n ≠ entaTable → routesTo k n l x = routesTo k n l' x) :
    u.rules.findSome? (IpRule.route k l x) = t.rules.findSome? (IpRule.route k l' x) := by
  have hown : ∀ r ∈ u.rules, r.table = entaTable → r.selector.selects k x = false := by
    intro r hr htable
    cases h.own r hr htable with
    | inl hmem => exact hfree r hmem htable
    | inr heq =>
      obtain ⟨p, hp, rfl⟩ := Option.map_eq_some_iff.mp heq
      simp only [captureIpRule, Selector.selects, decide_eq_false_iff_not]
      exact fun hport => hx (by rw [hp, hport])
  apply findSome_congr h.rules
  · intro r hr htable
    simp [IpRule.route, hown r hr (by simpa using htable)]
  · intro r hr htable
    simp [IpRule.route, hfree r hr (by simpa using htable)]
  · intro r htable
    rw [IpRule.route, IpRule.route, hroutes r.table (by simpa using htable)]

end Foreign

end Netfilter

namespace Process

open Netfilter

variable {ρ : Type*} {codec : TunCodec} {capture replay : Option UInt16} {f : RunFate}
  {p : Process} {t : Tables} {as : List ProcessAct}

theorem ownCommand_of_log {e : NetCommand × Bool} (h : e ∈ mainLog capture replay f t) :
    OwnCommand capture replay e.1 := by
  rcases List.mem_append.mp h with hsetup | hcleaned
  · have hrun : e ∈ (Netfilter.run capture replay f t).1.log := hsetup
    cases run_outcome capture replay f t with
    | inl heq => exact ownCommand_of_program (.inl (heq ▸ hrun))
    | inr heq => simp [heq, Shell.Outcome.skip] at hrun
  · exact ownCommand_of_program (.inr hcleaned)

theorem foreignSame_of_run (hrun : run (step codec capture replay f) (new t) as = some p) :
    ForeignSame capture replay t p.tables := by
  obtain ⟨l, hlog, hreplay⟩ := log_of_run hrun
  apply Shell.replay_keeps ?_ hreplay (ForeignSame.refl t)
  intro c hc u v hu hexec
  have hmem : (c, true) ∈ mainLog capture replay f t := by
    rw [hlog]
    exact List.mem_append_left _ hc
  exact foreignSame_exec (ownCommand_of_log hmem) hu hexec

/-- The routes that the kernel has added for the TUN device. -/
def deviceRoutes (device : List Route) (p : Process) : List Route :=
  if p.deviceUp then device else []

/-- Outside of table 8 the host has its own routes and those of the TUN device. -/
theorem routesTo_host {k : Kernel ρ} {x : Packet ρ} {n : ℕ} (device : List Route)
    (h : ForeignSame capture replay t p.tables) (hn : n ≠ entaTable) :
    routesTo k n (p.hostTables device t).routes x =
      routesTo k n (t.routes ++ p.deviceRoutes device) x := by
  rw [hostTables, deviceRoutes]
  cases p.deviceUp with
  | true =>
    simp only [if_true, routesTo_append]
    rw [routesTo_same h.routes hn]
  | false =>
    simp only [Bool.false_eq_true, if_false, List.append_nil]
    apply routesTo_same ?_ hn
    have hkept : (t.routes.filter (·.table ≠ entaTable)).filter (· ∈ t.routes) =
        t.routes.filter (·.table ≠ entaTable) :=
      List.filter_eq_self.mpr fun r hr => by simpa using (List.mem_filter.mp hr).1
    rw [List.filter_comm, h.routes, hkept]

/-- A packet to another port than the captured one is routed by the rules of the host over its
own routes and those of the TUN device, unless the host itself has selected it into table 8. -/
theorem route_host {k : Kernel ρ} {x : Packet ρ} (device : List Route)
    (h : ForeignSame capture replay t p.tables) (hx : capture ≠ some x.dport)
    (hfree : ∀ r ∈ t.rules, r.table = entaTable → r.selector.selects k x = false) :
    (p.hostTables device t).route k x =
      { t with routes := t.routes ++ p.deviceRoutes device }.route k x := by
  have hroute := route_same h hx hfree fun _ hn => routesTo_host device h hn
  exact hroute

/-- Where no route of the TUN device leads to the destination of a packet, it is routed as
before. -/
theorem route_uncovered {k : Kernel ρ} {x : Packet ρ} {device : List Route}
    (hdevice : ∀ y ∈ p.deviceRoutes device, k.covers y.destination x = false) :
    { t with routes := t.routes ++ p.deviceRoutes device }.route k x = t.route k x := by
  have hnone : ∀ n, routesTo k n (p.deviceRoutes device) x = [] := by
    intro n
    rw [routesTo, List.filter_eq_nil_iff]
    intro y hy
    simp [hdevice y hy]
  apply findSome_eq
  intro r _
  rw [IpRule.route, IpRule.route, routesTo_append, hnone, List.append_nil]

/-- In every state of a run, however it was started and whatever has failed, a connection to
another port than the captured one leaves the host as it did before, as far as the TUN device
does not come in its way, and one to another port than 6978 enters it as before. Only a routing
rule of the host for table 8 may get lost. -/
theorem bystander_untouched {k : Kernel ρ} {x : Packet ρ} (device : List Route)
    (hrun : run (step codec capture replay f) (new t) as = some p) :
    (capture ≠ some x.dport →
      translated k (p.hostTables device t).output x = translated k t.output x ∧
      ((∀ r ∈ t.rules, r.table = entaTable → r.selector.selects k x = false) →
        (p.hostTables device t).route k x =
          { t with routes := t.routes ++ p.deviceRoutes device }.route k x ∧
        ((∀ y ∈ p.deviceRoutes device, k.covers y.destination x = false) →
          (p.hostTables device t).route k x = t.route k x))) ∧
    (replay = none ∨ x.dport ≠ 6978 →
      translated k (p.hostTables device t).prerouting x = translated k t.prerouting x) := by
  have hsame := foreignSame_of_run hrun
  refine ⟨fun hx => ⟨?_, fun hfree => ?_⟩, fun hx => ?_⟩
  · have hverdict : verdict k p.tables.output x = verdict k t.output x := by
      apply verdict_same .output hsame
      intro r hr
      obtain ⟨c, hc, rfl⟩ := Option.map_eq_some_iff.mp hr
      have hport : x.dport ≠ c := fun heq => hx (by rw [hc, heq])
      simp [captureRule, NatRule.verdict, hport]
    rw [hostTables, translated, translated, hverdict]
  · have hroute := route_host device hsame hx hfree
    exact ⟨hroute, fun hdevice => hroute.trans (route_uncovered hdevice)⟩
  · have hverdict : verdict k p.tables.prerouting x = verdict k t.prerouting x := by
      apply verdict_same .prerouting hsame
      intro r hr
      obtain ⟨toPort, htoPort, rfl⟩ := Option.map_eq_some_iff.mp hr
      cases hx with
      | inl hnone => simp [hnone] at htoPort
      | inr hport => simp [replayRule, NatRule.verdict, hport]
    rw [hostTables, translated, translated, hverdict]

/-- No rules but those of the scripts, the destinations of a TUN device with the default address,
and of several routes the last one is taken. -/
def plainKernel : Kernel Unit where
  verdict := fun _ _ => none
  effect := fun _ x => x
  selects := fun _ _ => true
  covers := fun destination x => destination = "default" ∨ destination = x.destination ∨
    destination = "192.168.0.0/24" ∧ x.destination.toList.take 10 = "192.168.0.".toList
  choose := fun routes _ => routes.getLast?
  primary := "192.168.0.1"

/-- A host with the routing rules for its tables local and main, and with a default route. -/
def plainTables : Tables :=
  ⟨[], [], [⟨"default", 0, "10.0.0.1", 254⟩], [⟨.other "all", 255⟩, ⟨.other "all", 254⟩]⟩

/-- The packet of a connection to port 443, while ENTA forwards. -/
theorem forwardRun_untouched : ∃ p,
    run (step ipCodec (some 80) (some 8080) (fateOf fun _ => true)) (new plainTables) forwardRun =
      some p ∧ p.deviceUp = true ∧
      translated plainKernel (p.hostTables tunRoutes plainTables).output ⟨"10.0.0.2", 443, ()⟩ =
        ⟨"10.0.0.2", 443, ()⟩ ∧
      (p.hostTables tunRoutes plainTables).route plainKernel ⟨"10.0.0.2", 443, ()⟩ =
        some ⟨"default", 0, "10.0.0.1", 254⟩ := by
  obtain ⟨p, hp, hup, hdevice⟩ := Run.exists_of_any
    (step ipCodec (some 80) (some 8080) (fateOf fun _ => true)) (new plainTables) forwardRun
    (fun p => p.deviceUp = true ∧ ∀ y ∈ p.deviceRoutes tunRoutes,
      plainKernel.covers y.destination ⟨"10.0.0.2", 443, ()⟩ = false) (by decide)
  obtain ⟨hleaves, _⟩ := bystander_untouched (k := plainKernel) (x := ⟨"10.0.0.2", 443, ()⟩)
    tunRoutes hp
  obtain ⟨houtput, hroute⟩ := hleaves (by decide)
  exact ⟨p, hp, hup, houtput, (hroute (by decide)).2 hdevice⟩

/-! ## What the scripts lead elsewhere -/

end Process

end EnclaveNetworkGateway
