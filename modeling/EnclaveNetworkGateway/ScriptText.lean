import EnclaveNetworkGateway.Process
import EnclaveNetworkGateway.ShellText

/-!
# The scripts as they are passed to the shell

`setup_netfilter` and `clean_up` format a text and leave the rest to `/bin/sh`, `iptables` and
`ip`. Whatever the ports are, these read the commands that the model executes.
-/
namespace EnclaveNetworkGateway

namespace Netfilter

open Shell (isWord words_of_isWord readScript readScript_join readArgs)

/-! ## The texts -/

def setupCaptureText (capture : UInt16) : String :=
  String.join
    ["iptables -t nat -A OUTPUT -p tcp --dport ", toString capture,
      " -j DNAT --to-destination 192.168.0.254:6978 ; ",
      "ip route add default via 192.168.0.1 table 8 ; ",
      "ip rule add dport ", toString capture, " table 8 ; ",
      "ip route flush cache"]

def setupReplayText (replay : UInt16) : String :=
  String.join
    ["iptables -t nat -A PREROUTING -p tcp --dport 6978 -j REDIRECT --to-port ", toString replay]

def cleanUpCaptureText (capture : UInt16) : String :=
  String.join
    ["iptables -t nat -D OUTPUT -p tcp --dport ", toString capture,
      " -j DNAT --to-destination 192.168.0.254:6978 ; ",
      "ip route flush table 8 ; ",
      "ip rule flush table 8 ; ",
      "ip route flush cache"]

def cleanUpReplayText (replay : UInt16) : String :=
  String.join
    ["iptables -t nat -D PREROUTING -p tcp --dport 6978 -j REDIRECT --to-port ", toString replay]

/-! ## The options of `iptables` and `ip` -/

/-- A decimal number. -/
def numberOfWord (w : String) : Option ℕ :=
  let n := Nat.ofDigitChars 10 w.toList 0
  if w = toString n then some n else none

def portOfWord (w : String) : Option UInt16 :=
  (numberOfWord w).bind fun n => if n < UInt16.size then some (.ofNat n) else none

def Chain.ofWord : String → Option Chain
  | "OUTPUT" => some .output
  | "PREROUTING" => some .prerouting
  | _ => none

def NatTarget.ofWords : List String → Option NatTarget
  | ["-j", "DNAT", "--to-destination", destination] => some (.dnat destination)
  | ["-j", "REDIRECT", "--to-port", port] => (portOfWord port).map .redirect
  | _ => none

/-- The commands of the scripts among all commands. -/
def NetCommand.ofWords : List String → Option NetCommand
  | "iptables" :: "-t" :: "nat" :: op :: chain :: "-p" :: "tcp" :: "--dport" :: dport ::
      target => do
    let chain ← Chain.ofWord chain
    let rule := NatRule.tcp (← portOfWord dport) (← NatTarget.ofWords target)
    match op with
    | "-A" => some (.iptablesAppend chain rule)
    | "-D" => some (.iptablesDelete chain rule)
    | _ => none
  | ["ip", "route", "add", "default", "via", gateway, "table", table] =>
    (numberOfWord table).map fun n => .ipRouteAdd ⟨"default", 0, gateway, n⟩
  | ["ip", "rule", "add", "dport", dport, "table", table] => do
    some (.ipRuleAdd ⟨.dport (← portOfWord dport), ← numberOfWord table⟩)
  | ["ip", "route", "flush", "table", table] => (numberOfWord table).map .ipRouteFlush
  | ["ip", "rule", "flush", "table", table] => (numberOfWord table).map .ipRuleFlush
  | ["ip", "route", "flush", "cache"] => some .ipRouteFlushCache
  | _ => none

/-! ## Ports in decimal -/

section Port

variable (p : UInt16)

theorem toList_port : (toString p).toList = Nat.toDigits 10 p.toNat := Nat.toList_repr

theorem port_ne_empty : toString p ≠ "" := by
  intro h
  have hlist := congrArg String.toList h
  rw [toList_port] at hlist
  exact Nat.toDigits_ne_nil hlist

/-- A port adds one word to a text. -/
theorem port_isWord : isWord (toString p) = true := by
  have hplain : (toString p).toList.all Shell.isPlain = true := by
    rw [toList_port, List.all_eq_true]
    intro c hc
    have hdigit := Nat.isDigit_of_mem_toDigits (by decide) (by decide) hc
    simp [Shell.isPlain, Char.isAlphanum, hdigit]
  rw [isWord, hplain, Bool.and_true, bne_iff_ne]
  exact port_ne_empty p

theorem numberOfWord_toString (n : ℕ) : numberOfWord (toString n) = some n := by
  have hlist : (toString n).toList = Nat.toDigits 10 n := Nat.toList_repr
  rw [numberOfWord, hlist, Nat.ofDigitChars_ten_toDigits]
  exact if_pos rfl

theorem portOfWord_toString : portOfWord (toString p) = some p := by
  have hnumber : numberOfWord (toString p) = some p.toNat := numberOfWord_toString p.toNat
  rw [portOfWord, hnumber, Option.bind_some, if_pos p.toNat_lt, UInt16.ofNat_toNat]

end Port

/-! ## What is read -/

section Read

variable (p : UInt16)

theorem setupCaptureText_read : readScript (setupCaptureText p) = some
    [["iptables", "-t", "nat", "-A", "OUTPUT", "-p", "tcp", "--dport", toString p, "-j", "DNAT",
        "--to-destination", "192.168.0.254:6978"],
      ["ip", "route", "add", "default", "via", "192.168.0.1", "table", "8"],
      ["ip", "rule", "add", "dport", toString p, "table", "8"],
      ["ip", "route", "flush", "cache"]] := by
  apply readScript_join
  · exact List.cons_ne_nil _ _
  · simp only [List.all_cons, List.all_nil, port_isWord]
    rfl
  · exact .cons_cons (.inl rfl) (.cons_cons (.inr rfl) (.cons_cons (.inl rfl)
      (.cons_cons (.inl rfl) (.cons_cons (.inl rfl) (.cons_cons (.inr rfl)
        (.cons_cons (.inl rfl) (.singleton _)))))))
  · simp only [List.flatMap_cons, List.flatMap_nil, words_of_isWord (port_isWord p)]
    rfl

theorem cleanUpCaptureText_read : readScript (cleanUpCaptureText p) = some
    [["iptables", "-t", "nat", "-D", "OUTPUT", "-p", "tcp", "--dport", toString p, "-j", "DNAT",
        "--to-destination", "192.168.0.254:6978"],
      ["ip", "route", "flush", "table", "8"], ["ip", "rule", "flush", "table", "8"],
      ["ip", "route", "flush", "cache"]] := by
  apply readScript_join
  · exact List.cons_ne_nil _ _
  · simp only [List.all_cons, List.all_nil, port_isWord]
    rfl
  · exact .cons_cons (.inl rfl) (.cons_cons (.inr rfl) (.cons_cons (.inl rfl)
      (.cons_cons (.inl rfl) (.cons_cons (.inl rfl) (.singleton _)))))
  · simp only [List.flatMap_cons, List.flatMap_nil, words_of_isWord (port_isWord p)]
    rfl

theorem setupReplayText_read : readScript (setupReplayText p) = some
    [["iptables", "-t", "nat", "-A", "PREROUTING", "-p", "tcp", "--dport", "6978", "-j",
      "REDIRECT", "--to-port", toString p]] := by
  apply readScript_join
  · exact List.cons_ne_nil _ _
  · simp only [List.all_cons, List.all_nil, port_isWord]
    rfl
  · exact .cons_cons (.inl rfl) (.singleton _)
  · simp only [List.flatMap_cons, List.flatMap_nil, words_of_isWord (port_isWord p)]
    rfl

theorem cleanUpReplayText_read : readScript (cleanUpReplayText p) = some
    [["iptables", "-t", "nat", "-D", "PREROUTING", "-p", "tcp", "--dport", "6978", "-j",
      "REDIRECT", "--to-port", toString p]] := by
  apply readScript_join
  · exact List.cons_ne_nil _ _
  · simp only [List.all_cons, List.all_nil, port_isWord]
    rfl
  · exact .cons_cons (.inl rfl) (.singleton _)
  · simp only [List.flatMap_cons, List.flatMap_nil, words_of_isWord (port_isWord p)]
    rfl

end Read

/-- What `/bin/sh` executes with these arguments, and whether it stops at the first failure. -/
def readCommands (args : List String) : Option (Bool × List NetCommand) := do
  let (errexit, cs) ← readArgs args
  some (errexit, ← cs.mapM NetCommand.ofWords)

end Netfilter

namespace Script

open Netfilter

/-- The arguments of `/bin/sh`, if the option is given. -/
def args (capture replay : Option UInt16) : Script → Option (List String)
  | setupCapture => capture.map fun p => ["-e", "-c", setupCaptureText p]
  | setupReplay => replay.map fun p => ["-e", "-c", setupReplayText p]
  | cleanUpCapture => capture.map fun p => ["-c", cleanUpCaptureText p]
  | cleanUpReplay => replay.map fun p => ["-c", cleanUpReplayText p]

/-- Whatever the ports are, the shell reads the commands of the model, under `-e` for the setup
only. -/
theorem args_read (k : Script) (capture replay : Option UInt16) :
    (k.args capture replay).map readCommands =
      (k.commands capture replay).map fun cs => some (k.errexit, cs) := by
  have h8 : numberOfWord "8" = some 8 := by decide
  have h6978 : portOfWord "6978" = some 6978 := by decide
  cases k with
  | setupCapture =>
    cases capture with
    | none => rfl
    | some p =>
      simp [args, commands, readCommands, Shell.readArgs, setupCaptureText_read, NetCommand.ofWords,
        portOfWord_toString, Chain.ofWord, NatTarget.ofWords, h8, Netfilter.setupCapture,
        captureRule, captureRoute, captureIpRule, entaTable, errexit, isSetup]
  | setupReplay =>
    cases replay with
    | none => rfl
    | some p =>
      simp [args, commands, readCommands, Shell.readArgs, setupReplayText_read, NetCommand.ofWords,
        portOfWord_toString, Chain.ofWord, NatTarget.ofWords, h6978, Netfilter.setupReplay,
        replayRule, errexit, isSetup]
  | cleanUpCapture =>
    cases capture with
    | none => rfl
    | some p =>
      simp [args, commands, readCommands, Shell.readArgs, cleanUpCaptureText_read,
        NetCommand.ofWords, portOfWord_toString, Chain.ofWord, NatTarget.ofWords, h8,
        Netfilter.cleanUpCapture, captureRule, entaTable, errexit, isSetup]
  | cleanUpReplay =>
    cases replay with
    | none => rfl
    | some p =>
      simp [args, commands, readCommands, Shell.readArgs, cleanUpReplayText_read,
        NetCommand.ofWords, portOfWord_toString, Chain.ofWord, NatTarget.ofWords, h6978,
        Netfilter.cleanUpReplay, replayRule, errexit, isSetup]

end Script

end EnclaveNetworkGateway
