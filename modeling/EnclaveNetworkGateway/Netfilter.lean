import EnclaveNetworkGateway.Shell

/-!
# Netfilter rules of ENTA

`setup_netfilter` and `clean_up` change the nat table, the routes and the routing rules
through shell scripts. `main` cleans up however `run` ends.
-/
namespace EnclaveNetworkGateway

namespace Netfilter

open Shell

inductive NatTarget where
  | dnat (destination : String)
  | redirect (toPort : UInt16)
  | other (spec : String)
  deriving DecidableEq, Repr

/-- A rule of a nat chain: `-p tcp --dport port -j target`, or any other one. -/
inductive NatRule where
  | tcp (dport : UInt16) (target : NatTarget)
  | other (spec : String)
  deriving DecidableEq, Repr

inductive Chain where
  | output
  | prerouting
  deriving DecidableEq, Repr

structure Route where
  destination : String
  metric : ℕ
  nexthop : String
  table : ℕ
  deriving DecidableEq, Repr

/-- A table has at most one route of each metric to a destination. -/
def Route.Clashes (r x : Route) : Prop :=
  x.table = r.table ∧ x.destination = r.destination ∧ x.metric = r.metric

instance (r x : Route) : Decidable (r.Clashes x) := inferInstanceAs (Decidable (_ ∧ _))

inductive Selector where
  | dport (port : UInt16)
  | other (spec : String)
  deriving DecidableEq, Repr

/-- A routing rule: packets that match `selector` are routed by `table`. -/
structure IpRule where
  selector : Selector
  table : ℕ
  deriving DecidableEq, Repr

/-- The two chains of the nat table, the routes and the routing rules of the host. -/
structure Tables where
  output : List NatRule
  prerouting : List NatRule
  routes : List Route
  rules : List IpRule
  deriving DecidableEq, Repr

namespace Tables

def chain (t : Tables) : Chain → List NatRule
  | .output => t.output
  | .prerouting => t.prerouting

def setChain (t : Tables) (ch : Chain) (l : List NatRule) : Tables :=
  match ch with
  | .output => { t with output := l }
  | .prerouting => { t with prerouting := l }

@[simp] theorem chain_setChain (t : Tables) (ch d : Chain) (l : List NatRule) :
    (t.setChain ch l).chain d = if d = ch then l else t.chain d := by
  cases ch <;> cases d <;> rfl

@[simp] theorem routes_setChain (t : Tables) (ch : Chain) (l : List NatRule) :
    (t.setChain ch l).routes = t.routes := by cases ch <;> rfl

@[simp] theorem rules_setChain (t : Tables) (ch : Chain) (l : List NatRule) :
    (t.setChain ch l).rules = t.rules := by cases ch <;> rfl

end Tables

/-- The commands of the scripts: `iptables -t nat -A` and `-D`, `ip route add`, `ip rule add`,
`ip route flush table`, `ip rule flush table` and `ip route flush cache`. -/
inductive NetCommand where
  | iptablesAppend (ch : Chain) (r : NatRule)
  | iptablesDelete (ch : Chain) (r : NatRule)
  | ipRouteAdd (r : Route)
  | ipRuleAdd (r : IpRule)
  | ipRouteFlush (table : ℕ)
  | ipRuleFlush (table : ℕ)
  | ipRouteFlushCache
  deriving DecidableEq, Repr

/-- A new routing rule goes behind the first one, that of the local table. -/
def insertRule (r : IpRule) : List IpRule → List IpRule
  | [] => [r]
  | x :: xs => x :: r :: xs

namespace NetCommand

/-- What a command does; a rule that is not there cannot be deleted, and a route cannot be added
beside one that it clashes with. -/
def exec : NetCommand → Tables → Option Tables
  | iptablesAppend ch r, t => some (t.setChain ch (t.chain ch ++ [r]))
  | iptablesDelete ch r, t =>
    if r ∈ t.chain ch then some (t.setChain ch ((t.chain ch).erase r)) else none
  | ipRouteAdd r, t =>
    if ∃ x ∈ t.routes, r.Clashes x then none else some { t with routes := t.routes ++ [r] }
  | ipRuleAdd r, t => some { t with rules := insertRule r t.rules }
  | ipRouteFlush n, t => some { t with routes := t.routes.filter (·.table ≠ n) }
  | ipRuleFlush n, t => some { t with rules := t.rules.filter (·.table ≠ n) }
  | ipRouteFlushCache, t => some t

end NetCommand

/-- The routing table of ENTA. -/
def entaTable : ℕ := 8

def captureRule (capture : UInt16) : NatRule := .tcp capture (.dnat "192.168.0.254:6978")

def replayRule (replay : UInt16) : NatRule := .tcp 6978 (.redirect replay)

def captureRoute : Route := ⟨"default", 0, "192.168.0.1", entaTable⟩

def captureIpRule (capture : UInt16) : IpRule := ⟨.dport capture, entaTable⟩

abbrev NetOutcome := Outcome NetCommand Tables

/-- The shells of the capture half and of the replay half. -/
structure Fates where
  capture : Fate NetCommand
  replay : Fate NetCommand

/-- `if let Some(port) = option { … }`. -/
def whenSome (option : Option UInt16) (f : UInt16 → Tables → NetOutcome) (t : Tables) : NetOutcome :=
  match option with
  | some port => f port t
  | none => .skip t

def setupCapture (capture : UInt16) : List NetCommand :=
  [.iptablesAppend .output (captureRule capture), .ipRouteAdd captureRoute,
    .ipRuleAdd (captureIpRule capture), .ipRouteFlushCache]

def setupReplay (replay : UInt16) : List NetCommand :=
  [.iptablesAppend .prerouting (replayRule replay)]

def setupNetfilter (capture replay : Option UInt16) (f : Fates) (t : Tables) : NetOutcome :=
  (whenSome capture (fun p => sh NetCommand.exec true f.capture (setupCapture p)) t).andThen
    (whenSome replay fun p => sh NetCommand.exec true f.replay (setupReplay p))

def cleanUpCapture (capture : UInt16) : List NetCommand :=
  [.iptablesDelete .output (captureRule capture), .ipRouteFlush entaTable,
    .ipRuleFlush entaTable, .ipRouteFlushCache]

def cleanUpReplay (replay : UInt16) : List NetCommand :=
  [.iptablesDelete .prerouting (replayRule replay)]

def cleanUp (capture replay : Option UInt16) (f : Fates) (t : Tables) : NetOutcome :=
  (whenSome capture (fun p => sh NetCommand.exec false f.capture (cleanUpCapture p)) t).andThen
    (whenSome replay fun p => sh NetCommand.exec false f.replay (cleanUpReplay p))

/-- How `run` fails: no connection to the ENTG, no TUN device, a failed setup of the rules,
or an error of the forwarding. -/
inductive RunError where
  | connect
  | tun
  | netfilter (e : Failure)
  | forward
  deriving DecidableEq, Repr

/-- What the outside decides about one run of ENTA. -/
structure RunFate where
  connects : Bool
  tunCreated : Bool
  setup : Fates
  forwards : Bool
  cleanUp : Fates

/-- `setup_tun`, as far as it concerns the tables. -/
def setupTun (capture replay : Option UInt16) (f : RunFate) (t : Tables) :
    NetOutcome × Except RunError Unit :=
  if f.tunCreated then
    let o := setupNetfilter capture replay f.setup t
    (o, o.result.mapError .netfilter)
  else (.skip t, .error .tun)

def run (capture replay : Option UInt16) (f : RunFate) (t : Tables) :
    NetOutcome × Except RunError Unit :=
  if f.connects then
    match setupTun capture replay f t with
    | (o, .ok ()) => (o, if f.forwards then .ok () else .error .forward)
    | (o, .error e) => (o, .error e)
  else (.skip t, .error .connect)

/-- What `main` leaves behind. -/
structure Ended where
  setup : NetOutcome
  cleaned : NetOutcome
  result : Except RunError Unit

/-- An error of `clean_up` is only logged. -/
def main (capture replay : Option UInt16) (f : RunFate) (t : Tables) : Ended :=
  let (o, result) := run capture replay f t
  ⟨o, cleanUp capture replay f.cleanUp o.state, result⟩

end Netfilter

end EnclaveNetworkGateway
