import Iprp.Icd.Path
import Iprp.Icd.Ports
import Iprp.Library.CommandLine
import Mathlib.Tactic.Linarith

/-!
# Commands and arguments

The ICD acts on its host through texts: `iptables_rule`, `proc_shutdown` and `isd_startup` print a
command into a buffer and give it to the shell, and the daemons get their queue numbers as the
arguments of `execl`. The shell and the programs that it calls are not part of the repository:
they are a parameter `Shell`, of which `Shell.Documented` says what the manuals of `iptables` and
`kill` say.

No buffer is too small for its command, as long as a pid has at most seven digits
(`iptablesRuleText_eq`, `procShutdownText_eq`, `flowRuleText_eq`).
-/

namespace Iprp.Icd

open CommandLine Ledger

/-! ## Texts -/

/-- What is in a buffer after `snprintf` with its size. -/
def printed (size : ℕ) (words : List String) : List Char := (line words).take (size - 1)

def flagWord (create : Bool) : String := if create then "-A" else "-D"

/-- The command that `iptables_rule` prints. -/
def iptablesRuleText (port queueNum : UInt16) (create : Bool) : List Char :=
  printed 100 ["sudo", "iptables", "-t", "mangle", flagWord create, "PREROUTING", "-p", "udp",
    "--dport", decimal port.toNat, "-j", "NFQUEUE", "--queue-num", decimal queueNum.toNat]

/-- The command that `proc_shutdown` prints. -/
def procShutdownText (pid : ℕ) : List Char := printed 16 ["kill", "-9", decimal pid]

/-- The command that `isd_startup` prints. -/
def flowRuleText (base : IcdBase) : List Char :=
  printed 120 ["iptables", "-t", "mangle", "-A", "POSTROUTING", "-p", "udp",
    "-d", dotted base.link.destAddr, "--dport", decimal base.link.destPort.toNat,
    "--sport", decimal base.link.srcPort.toNat, "-j", "NFQUEUE",
    "--queue-num", decimal base.queueId.toNat]

/-! ## The shell -/

/-- What `system` does with a text, on the host of a receiver and on that of a sender. -/
structure Shell where
  receiver : List Char → System → System
  sender : List Char → State → State

/-- The words of `iptables` for the queue of the packets to a port. -/
def portRuleWords (op : Op PortRule) : List String :=
  ["sudo", "iptables", "-t", "mangle", if op.adds then "-A" else "-D", "PREROUTING", "-p", "udp",
    "--dport", decimal op.item.port.toNat, "-j", "NFQUEUE",
    "--queue-num", decimal op.item.queueNum.toNat]

/-- The words of `iptables` for the queue of the packets of a flow. -/
def flowRuleWords (rule : Rule) : List String :=
  ["iptables", "-t", "mangle", "-A", "POSTROUTING", "-p", "udp", "-d", dotted rule.key.destAddr,
    "--dport", decimal rule.key.destPort.toNat, "--sport", decimal rule.key.srcPort.toNat,
    "-j", "NFQUEUE", "--queue-num", decimal rule.queueId.toNat]

/-- The documented behaviour: `-A` and `-D` add and delete the rule with the given matches and
target, and `kill -9` ends the process with the given pid. -/
structure Shell.Documented (sh : Shell) : Prop where
  portRule : ∀ op system, sh.receiver (line (portRuleWords op)) system =
    { system with commands := system.commands ++ [op] }
  kill : ∀ pid system, sh.receiver (line ["kill", "-9", decimal pid]) system =
    { system with processes := system.processes.filter fun p => p.pid ≠ pid }
  flowRule : ∀ rule s, sh.sender (line (flowRuleWords rule)) s =
    { s with rules := s.rules ++ [rule] }

/-! ## The commands fit into their buffers -/

theorem length_decimal_word (n : UInt16) : (decimal n.toNat).toList.length ≤ 5 :=
  length_decimal_le (by decide) (lt_trans n.toNat_lt (by decide))

theorem printed_eq {size : ℕ} {words : List String} (hne : words ≠ [])
    (hfits : (words.map fun w => w.toList.length + 1).sum ≤ size) :
    printed size words = line words := by
  have hlength := length_line hne
  rw [printed, List.take_of_length_le (by omega)]

theorem iptablesRuleText_eq (port queueNum : UInt16) (create : Bool) :
    iptablesRuleText port queueNum create =
      line (portRuleWords (iptablesRule port queueNum create)) := by
  have hport := length_decimal_word port
  have hqueue := length_decimal_word queueNum
  have hflag : (flagWord create).toList.length = 2 := by
    cases create with
    | true => rfl
    | false => rfl
  refine printed_eq (by simp) ?_
  simp [hflag]
  linarith

theorem procShutdownText_eq {pid : ℕ} (h : pid < 10 ^ 7) :
    procShutdownText pid = line ["kill", "-9", decimal pid] := by
  have hpid := length_decimal_le (by decide) h
  refine printed_eq (by simp) ?_
  simp
  omega

theorem flowRuleText_eq (base : IcdBase) :
    flowRuleText base = line (flowRuleWords (isdRule base)) := by
  have hdestPort := length_decimal_word base.link.destPort
  have hsrcPort := length_decimal_word base.link.srcPort
  have hqueue := length_decimal_word base.queueId
  have hlength := (dotted_word base.link.destAddr).2
  refine printed_eq (by simp) ?_
  simp
  linarith

/-! ## A shell that takes commands apart

It reads the commands of the three forms word by word and does nothing for other texts. -/

inductive ShellCommand where
  | portRule (op : Op PortRule)
  | flowRule (rule : Rule)
  | kill (pid : ℕ)
  deriving DecidableEq

def number16 (w : String) : Option UInt16 :=
  (number w).bind fun n => if n < 65536 then some (UInt16.ofNat n) else none

def ruleFlag (w : String) : Option Bool :=
  if w = "-A" then some true else if w = "-D" then some false else none

def preroutingTemplate : List (Option String) :=
  [some "sudo", some "iptables", some "-t", some "mangle", none, some "PREROUTING", some "-p",
    some "udp", some "--dport", none, some "-j", some "NFQUEUE", some "--queue-num", none]

def postroutingTemplate : List (Option String) :=
  [some "iptables", some "-t", some "mangle", some "-A", some "POSTROUTING", some "-p", some "udp",
    some "-d", none, some "--dport", none, some "--sport", none, some "-j", some "NFQUEUE",
    some "--queue-num", none]

def killTemplate : List (Option String) := [some "kill", some "-9", none]

def parsePortRule (words : List String) : Option (Op PortRule) :=
  (holes preroutingTemplate words).bind fun args =>
    match args with
    | [flag, port, queueNum] => do
        return ⟨⟨← number16 port, ← number16 queueNum⟩, ← ruleFlag flag⟩
    | _ => none

def parseFlowRule (words : List String) : Option Rule :=
  (holes postroutingTemplate words).bind fun args =>
    match args with
    | [destAddr, destPort, srcPort, queueNum] => do
        return ⟨⟨← parseDotted destAddr, ← number16 srcPort, ← number16 destPort⟩,
          ← number16 queueNum⟩
    | _ => none

def parseKill (words : List String) : Option ℕ :=
  (holes killTemplate words).bind fun args =>
    match args with
    | [pid] => number pid
    | _ => none

def commandOf (text : List Char) : Option ShellCommand :=
  ((parsePortRule (wordsOf text)).map ShellCommand.portRule).or
    (((parseFlowRule (wordsOf text)).map ShellCommand.flowRule).or
      ((parseKill (wordsOf text)).map ShellCommand.kill))

def ShellCommand.onReceiver (system : System) : ShellCommand → System
  | .portRule op => { system with commands := system.commands ++ [op] }
  | .flowRule _ => system
  | .kill pid => { system with processes := system.processes.filter fun p => p.pid ≠ pid }

def ShellCommand.onSender (s : State) : ShellCommand → State
  | .portRule _ => s
  | .flowRule rule => { s with rules := s.rules ++ [rule] }
  | .kill _ => s

def wordShell : Shell where
  receiver text system := (commandOf text).elim system (ShellCommand.onReceiver system)
  sender text s := (commandOf text).elim s (ShellCommand.onSender s)

theorem number16_decimal (n : UInt16) : number16 (decimal n.toNat) = some n := by
  rw [number16, number_decimal, Option.bind_some, if_pos n.toNat_lt, UInt16.ofNat_toNat]

theorem not_mem_decimal_word (n : ℕ) : ' ' ∉ (decimal n).toList := not_mem_decimal rfl

theorem commandOf_portRuleWords (op : Op PortRule) :
    commandOf (line (portRuleWords op)) = some (.portRule op) := by
  obtain ⟨⟨port, queueNum⟩, adds⟩ := op
  have hwords : wordsOf (line (portRuleWords ⟨⟨port, queueNum⟩, adds⟩)) =
      portRuleWords ⟨⟨port, queueNum⟩, adds⟩ := by
    refine wordsOf_line (by simp [portRuleWords]) ?_
    cases adds with
    | true => simp [portRuleWords, not_mem_decimal_word]
    | false => simp [portRuleWords, not_mem_decimal_word]
  rw [commandOf, hwords]
  cases adds with
  | true =>
      simp [parsePortRule, portRuleWords, holes, preroutingTemplate, number16_decimal, ruleFlag]
  | false =>
      simp [parsePortRule, portRuleWords, holes, preroutingTemplate, number16_decimal, ruleFlag]

theorem commandOf_killWords (pid : ℕ) :
    commandOf (line ["kill", "-9", decimal pid]) = some (.kill pid) := by
  have hwords : wordsOf (line ["kill", "-9", decimal pid]) = ["kill", "-9", decimal pid] :=
    wordsOf_line (by simp) (by simp [not_mem_decimal_word])
  rw [commandOf, hwords]
  simp [parsePortRule, parseFlowRule, parseKill, holes, preroutingTemplate, postroutingTemplate,
    killTemplate, number_decimal]

theorem commandOf_flowRuleWords (rule : Rule) :
    commandOf (line (flowRuleWords rule)) = some (.flowRule rule) := by
  have haddr := (dotted_word rule.key.destAddr).1
  have hwords : wordsOf (line (flowRuleWords rule)) = flowRuleWords rule :=
    wordsOf_line (by simp [flowRuleWords]) (by simp [flowRuleWords, not_mem_decimal_word, haddr])
  have hparse : parseDotted (dotted rule.key.destAddr) = some rule.key.destAddr :=
    parseDotted_eq_some_iff.2 rfl
  rw [commandOf, hwords]
  simp [parsePortRule, parseFlowRule, flowRuleWords, holes, preroutingTemplate,
    postroutingTemplate, number16_decimal, hparse]

theorem wordShell_documented : wordShell.Documented where
  portRule op system := by
    simp [wordShell, commandOf_portRuleWords, ShellCommand.onReceiver]
  kill pid system := by
    simp [wordShell, commandOf_killWords, ShellCommand.onReceiver]
  flowRule rule s := by
    simp [wordShell, commandOf_flowRuleWords, ShellCommand.onSender]

end Iprp.Icd
