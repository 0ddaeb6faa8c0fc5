import Iprp.Icd.Queues
import Iprp.Library.Ledger

/-!
# Monitored ports

`ports_routine` of `src/icd/ports.c`: every pass reads a table of ports and brings the list
`monitored_ports` and the rules that lead to the IMD's queue from the last table to this one.
With the first port it launches the IRD and the IMD, with the last one gone it shuts them down.

The list and its rules agree with the last table after every pass (`ports_agree`). The daemons
run while there are ports, but the rule for the data port, which every IRD creates when it is
launched, is never deleted: it is there exactly while they run only along the runs in which no
empty table follows one with ports (`together_iff`).
-/

namespace Iprp.Icd

open Ledger

/-- A rule of the chain `PREROUTING` that leads the packets to a port into a queue. -/
structure PortRule where
  port : UInt16
  queueNum : UInt16
  deriving DecidableEq

/-- The command that creates or deletes a rule. Its text is shorter than the buffer. -/
def iptablesRule (port queueNum : UInt16) (create : Bool) : Op PortRule :=
  ⟨⟨port, queueNum⟩, create⟩

def findPort (port : UInt16) (ports : List UInt16) : Bool := ports.any fun p => port == p

/-- Whether the given port is contained in the given array. -/
def findPortInArray (port : UInt16) (array : List UInt16) : Bool := findPort port array

/-- Whether the given list contains the given port. -/
def findPortInList (port : UInt16) (list : List UInt16) : Bool := findPort port list

inductive Daemon where
  | ird
  | imd
  deriving DecidableEq

/-- A running daemon with the queue numbers of its arguments. -/
structure Process where
  pid : ℕ
  daemon : Daemon
  queueNum : UInt16
  otherQueueNum : UInt16
  deriving DecidableEq

/-- The pids that `fork` returns, which does not fail. None is that of a running process. -/
structure Kernel where
  newPid : List Process → ℕ
  fresh : ∀ processes, ∀ p ∈ processes, p.pid ≠ newPid processes

/-- The `iptables` commands so far, and the daemons that run. -/
structure System where
  commands : List (Op PortRule)
  processes : List Process

/-- Launches the IRD. The child creates the rule for the data port before it becomes the IRD. -/
def irdLaunch (kernel : Kernel) (queueNum imdQueueNum : UInt16) (system : System) : ℕ × System :=
  let pid := kernel.newPid system.processes
  (pid, ⟨system.commands ++ [iptablesRule iprpDataPort queueNum true],
    system.processes ++ [⟨pid, .ird, queueNum, imdQueueNum⟩]⟩)

/-- Launches the IMD. -/
def imdLaunch (kernel : Kernel) (queueNum irdQueueNum : UInt16) (system : System) : ℕ × System :=
  let pid := kernel.newPid system.processes
  (pid, ⟨system.commands, system.processes ++ [⟨pid, .imd, queueNum, irdQueueNum⟩]⟩)

/-- Kills a process. The buffer of the command has room for seven digits, as pids have. -/
def procShutdown (pid : ℕ) (system : System) : System :=
  { system with processes := system.processes.filter fun p => p.pid ≠ pid }

/-- The variables of `ports_routine`. The pids are set before they are first used. -/
structure PortsState where
  monitoredPorts : List UInt16
  receiverActive : Bool
  irdPid : ℕ
  imdPid : ℕ
  system : System

def PortsState.init : PortsState := ⟨[], false, 0, 0, ⟨[], []⟩⟩

/-- Close expired ports: the loop over `monitored_ports`, with the ports that it has kept. -/
def closePorts (queues : RecvQueues) (newPorts kept : List UInt16) :
    List UInt16 → List (Op PortRule) → List UInt16 × List (Op PortRule)
  | [], commands => (kept, commands)
  | port :: ports, commands =>
      if !findPortInArray port newPorts then
        closePorts queues newPorts kept ports (commands ++ [iptablesRule port queues.imd false])
      else closePorts queues newPorts (kept ++ [port]) ports commands

/-- Open new ports: the loop over the table. -/
def openPorts (queues : RecvQueues) :
    List UInt16 → List UInt16 → List (Op PortRule) → List UInt16 × List (Op PortRule)
  | [], monitoredPorts, commands => (monitoredPorts, commands)
  | port :: newPorts, monitoredPorts, commands =>
      if !findPortInList port monitoredPorts then
        openPorts queues newPorts (monitoredPorts ++ [port])
          (commands ++ [iptablesRule port queues.imd true])
      else openPorts queues newPorts monitoredPorts commands

/-- Create or delete IRD/IMD. -/
def updateReceiver (kernel : Kernel) (queues : RecvQueues) (s : PortsState) : PortsState :=
  if s.receiverActive && s.monitoredPorts.length == 0 then
    { s with
      receiverActive := false
      system := procShutdown s.imdPid (procShutdown s.irdPid s.system) }
  else if !s.receiverActive && 0 < s.monitoredPorts.length then
    let (irdPid, system) := irdLaunch kernel queues.ird queues.irdImd s.system
    let (imdPid, system) := imdLaunch kernel queues.imd queues.irdImd system
    ⟨s.monitoredPorts, true, irdPid, imdPid, system⟩
  else s

/-- Close expired ports and open new ones. -/
def updatePorts (queues : RecvQueues) (s : PortsState) (newPorts : List UInt16) : PortsState :=
  let (monitoredPorts, commands) :=
    closePorts queues newPorts [] s.monitoredPorts s.system.commands
  let (monitoredPorts, commands) := openPorts queues newPorts monitoredPorts commands
  { s with monitoredPorts := monitoredPorts, system := { s.system with commands := commands } }

/-- One pass of the loop of `ports_routine` with the table it has read, at the end of which the
children have executed their start-up code. -/
def portsPass (kernel : Kernel) (queues : RecvQueues) (s : PortsState) (newPorts : List UInt16) :
    PortsState :=
  updateReceiver kernel queues (updatePorts queues s newPorts)

def portsRun (kernel : Kernel) (queues : RecvQueues) (tables : List (List UInt16)) : PortsState :=
  tables.foldl (portsPass kernel queues) PortsState.init

/-! ## The list and its rules -/

/-- Each port of the list has one rule, and no other port has one. -/
structure Agrees (imd : UInt16) (monitoredPorts : List UInt16) (commands : List (Op PortRule)) :
    Prop where
  nodup : monitoredPorts.Nodup
  count : ∀ port, (content commands).count ⟨port, imd⟩ = if port ∈ monitoredPorts then 1 else 0
  proper : Proper (fun rule => rule.queueNum = imd) commands

theorem findPort_iff {port : UInt16} {ports : List UInt16} :
    findPort port ports = true ↔ port ∈ ports := by
  rw [findPort, List.any_eq_true]
  simp

section

variable {imd : UInt16} {monitoredPorts : List UInt16} {commands : List (Op PortRule)}

theorem Agrees.mem_iff (h : Agrees imd monitoredPorts commands) (port : UInt16) :
    (⟨port, imd⟩ : PortRule) ∈ content commands ↔ port ∈ monitoredPorts := by
  rw [← List.count_pos_iff, h.count]
  by_cases hp : port ∈ monitoredPorts
  · simp [hp]
  · simp [hp]

theorem Agrees.create (h : Agrees imd monitoredPorts commands) {port : UInt16}
    (hp : port ∉ monitoredPorts) :
    Agrees imd (monitoredPorts ++ [port]) (commands ++ [iptablesRule port imd true]) := by
  refine ⟨?_, ?_, proper_concat.2 ⟨h.proper, fun _ => ?_⟩⟩
  · exact List.nodup_append.2 ⟨h.nodup, List.nodup_singleton port, by
      intro p hpm p' hp' heq
      obtain rfl := List.mem_singleton.1 hp'
      exact hp (heq ▸ hpm)⟩
  · intro port'
    rw [iptablesRule, count_content_add, h.count]
    by_cases hsame : port = port'
    · subst hsame
      simp [hp]
    · simp [hsame, Ne.symm hsame]
  · exact iff_of_true rfl fun hmem => hp ((h.mem_iff port).1 hmem)

theorem Agrees.delete {kept ports : List UInt16} {port : UInt16}
    (h : Agrees imd (kept ++ port :: ports) commands) :
    Agrees imd (kept ++ ports) (commands ++ [iptablesRule port imd false]) := by
  have hmem : port ∈ kept ++ port :: ports := List.mem_append_right _ List.mem_cons_self
  obtain ⟨hnot, hnodup⟩ := List.nodup_cons.1 (List.perm_middle.nodup_iff.1 h.nodup)
  refine ⟨hnodup, ?_, proper_concat.2 ⟨h.proper, fun _ => ?_⟩⟩
  · intro port'
    rw [iptablesRule, count_content_remove, h.count]
    by_cases hsame : port = port'
    · subst hsame
      simp [hmem, hnot]
    · have hiff : port' ∈ kept ++ port :: ports ↔ port' ∈ kept ++ ports := by
        simp [Ne.symm hsame]
      simp [hsame, hiff]
  · exact iff_of_false Bool.false_ne_true fun hnot' => hnot' ((h.mem_iff port).2 hmem)

theorem Agrees.other (h : Agrees imd monitoredPorts commands) {port queueNum : UInt16}
    (hqueue : queueNum ≠ imd) :
    Agrees imd monitoredPorts (commands ++ [iptablesRule port queueNum true]) := by
  refine ⟨h.nodup, ?_, proper_concat.2 ⟨h.proper, fun hq => absurd hq hqueue⟩⟩
  intro port'
  have hne : ¬ (⟨port, queueNum⟩ : PortRule) = ⟨port', imd⟩ :=
    fun hsame => hqueue (congrArg PortRule.queueNum hsame)
  rw [iptablesRule, count_content_add, if_neg hne, Nat.add_zero, h.count]

end

theorem closePorts_spec (queues : RecvQueues) (newPorts kept ports : List UInt16)
    {commands : List (Op PortRule)} (h : Agrees queues.imd (kept ++ ports) commands) :
    Agrees queues.imd (closePorts queues newPorts kept ports commands).1
        (closePorts queues newPorts kept ports commands).2 ∧
      ∀ port, port ∈ (closePorts queues newPorts kept ports commands).1 ↔
        port ∈ kept ∨ (port ∈ ports ∧ port ∈ newPorts) := by
  induction ports generalizing kept commands with
  | nil =>
      rw [List.append_nil] at h
      exact ⟨h, by simp [closePorts]⟩
  | cons port ports ih =>
      by_cases hin : port ∈ newPorts
      · have hstep : closePorts queues newPorts kept (port :: ports) commands =
            closePorts queues newPorts (kept ++ [port]) ports commands := by
          rw [closePorts, findPortInArray, findPort_iff.2 hin]
          rfl
        rw [List.append_cons] at h
        obtain ⟨hagrees, hmem⟩ := ih (kept ++ [port]) h
        rw [hstep]
        refine ⟨hagrees, fun port' => (hmem port').trans ?_⟩
        by_cases hsame : port' = port
        · simp [hsame, hin]
        · simp [hsame]
      · have hstep : closePorts queues newPorts kept (port :: ports) commands =
            closePorts queues newPorts kept ports
              (commands ++ [iptablesRule port queues.imd false]) := by
          rw [closePorts, findPortInArray,
            Bool.eq_false_iff.2 fun hfind => hin (findPort_iff.1 hfind)]
          rfl
        obtain ⟨hagrees, hmem⟩ := ih kept h.delete
        rw [hstep]
        refine ⟨hagrees, fun port' => (hmem port').trans ?_⟩
        by_cases hsame : port' = port
        · simp [hsame, hin]
        · simp [hsame]

theorem openPorts_spec (queues : RecvQueues) (newPorts : List UInt16)
    {monitoredPorts : List UInt16} {commands : List (Op PortRule)}
    (h : Agrees queues.imd monitoredPorts commands) :
    Agrees queues.imd (openPorts queues newPorts monitoredPorts commands).1
        (openPorts queues newPorts monitoredPorts commands).2 ∧
      ∀ port, port ∈ (openPorts queues newPorts monitoredPorts commands).1 ↔
        port ∈ monitoredPorts ∨ port ∈ newPorts := by
  induction newPorts generalizing monitoredPorts commands with
  | nil => exact ⟨h, by simp [openPorts]⟩
  | cons port newPorts ih =>
      by_cases hin : port ∈ monitoredPorts
      · have hstep : openPorts queues (port :: newPorts) monitoredPorts commands =
            openPorts queues newPorts monitoredPorts commands := by
          rw [openPorts, findPortInList, findPort_iff.2 hin]
          rfl
        obtain ⟨hagrees, hmem⟩ := ih h
        rw [hstep]
        refine ⟨hagrees, fun port' => (hmem port').trans ?_⟩
        by_cases hsame : port' = port
        · simp [hsame, hin]
        · simp [hsame]
      · have hstep : openPorts queues (port :: newPorts) monitoredPorts commands =
            openPorts queues newPorts (monitoredPorts ++ [port])
              (commands ++ [iptablesRule port queues.imd true]) := by
          rw [openPorts, findPortInList,
            Bool.eq_false_iff.2 fun hfind => hin (findPort_iff.1 hfind)]
          rfl
        obtain ⟨hagrees, hmem⟩ := ih (h.create hin)
        rw [hstep]
        refine ⟨hagrees, fun port' => (hmem port').trans ?_⟩
        rw [List.mem_append, List.mem_singleton, List.mem_cons, or_assoc]

/-! ## Passes -/

/-- How often the rule for the data port is there. -/
def dataRules (queues : RecvQueues) (commands : List (Op PortRule)) : ℕ :=
  (content commands).count ⟨iprpDataPort, queues.ird⟩

theorem dataRules_concat_imd (queues : RecvQueues) (commands : List (Op PortRule))
    (port : UInt16) (create : Bool) :
    dataRules queues (commands ++ [iptablesRule port queues.imd create]) =
      dataRules queues commands := by
  have hne : ¬ (⟨port, queues.imd⟩ : PortRule) = ⟨iprpDataPort, queues.ird⟩ :=
    fun hsame => queues.distinct.1 (congrArg PortRule.queueNum hsame).symm
  unfold dataRules iptablesRule
  cases create with
  | true => rw [count_content_add, if_neg hne, Nat.add_zero]
  | false => rw [count_content_remove, if_neg hne, Nat.sub_zero]

theorem dataRules_closePorts (queues : RecvQueues) (newPorts kept ports : List UInt16)
    (commands : List (Op PortRule)) :
    dataRules queues (closePorts queues newPorts kept ports commands).2 =
      dataRules queues commands := by
  induction ports generalizing kept commands with
  | nil => rfl
  | cons port ports ih =>
      rw [closePorts]
      split
      · rw [ih, dataRules_concat_imd]
      · rw [ih]

theorem dataRules_openPorts (queues : RecvQueues) (newPorts monitoredPorts : List UInt16)
    (commands : List (Op PortRule)) :
    dataRules queues (openPorts queues newPorts monitoredPorts commands).2 =
      dataRules queues commands := by
  induction newPorts generalizing monitoredPorts commands with
  | nil => rfl
  | cons port newPorts ih =>
      rw [openPorts]
      split
      · rw [ih, dataRules_concat_imd]
      · rw [ih]

/-- The daemons that `ports_routine` believes to be running do run, and no other ones. -/
def RunsReceiver (queues : RecvQueues) (s : PortsState) : Prop :=
  s.system.processes =
    if s.receiverActive then
      [⟨s.irdPid, .ird, queues.ird, queues.irdImd⟩, ⟨s.imdPid, .imd, queues.imd, queues.irdImd⟩]
    else []

/-- What holds after every pass. -/
structure Settled (queues : RecvQueues) (s : PortsState) : Prop where
  agrees : Agrees queues.imd s.monitoredPorts s.system.commands
  runs : RunsReceiver queues s
  active : s.receiverActive = true ↔ s.monitoredPorts ≠ []

/-- What the end of a pass does: the daemons run if and only if there are ports, and the rule
for the data port is added when they are launched. -/
theorem updateReceiver_spec (kernel : Kernel) {queues : RecvQueues} {s : PortsState}
    (hagrees : Agrees queues.imd s.monitoredPorts s.system.commands)
    (hruns : RunsReceiver queues s) :
    Settled queues (updateReceiver kernel queues s) ∧
      (updateReceiver kernel queues s).monitoredPorts = s.monitoredPorts ∧
      dataRules queues (updateReceiver kernel queues s).system.commands =
        dataRules queues s.system.commands +
          if s.receiverActive = false ∧ s.monitoredPorts ≠ [] then 1 else 0 := by
  obtain ⟨monitoredPorts, receiverActive, irdPid, imdPid, commands, processes⟩ := s
  cases receiverActive with
  | true =>
      obtain rfl : processes = [⟨irdPid, .ird, queues.ird, queues.irdImd⟩,
        ⟨imdPid, .imd, queues.imd, queues.irdImd⟩] := hruns
      cases monitoredPorts with
      | nil =>
          -- the last port is gone
          refine ⟨⟨hagrees, ?_, by simp [updateReceiver]⟩, rfl,
            by simp [updateReceiver, procShutdown]⟩
          simp [RunsReceiver, updateReceiver, procShutdown]
      | cons port ports =>
          exact ⟨⟨hagrees, rfl, by simp [updateReceiver]⟩, rfl, by simp [updateReceiver]⟩
  | false =>
      obtain rfl : processes = [] := hruns
      cases monitoredPorts with
      | nil => exact ⟨⟨hagrees, rfl, by simp [updateReceiver]⟩, rfl, by simp [updateReceiver]⟩
      | cons port ports =>
          -- the first port
          refine ⟨⟨hagrees.other queues.distinct.1, rfl, ?_⟩, rfl, ?_⟩
          · simp [updateReceiver]
          · simp [updateReceiver, irdLaunch, imdLaunch, dataRules, iptablesRule, count_content_add]

theorem updatePorts_spec {queues : RecvQueues} {s : PortsState}
    (h : Agrees queues.imd s.monitoredPorts s.system.commands) (newPorts : List UInt16) :
    Agrees queues.imd (updatePorts queues s newPorts).monitoredPorts
        (updatePorts queues s newPorts).system.commands ∧
      (∀ port, port ∈ (updatePorts queues s newPorts).monitoredPorts ↔ port ∈ newPorts) ∧
      dataRules queues (updatePorts queues s newPorts).system.commands =
        dataRules queues s.system.commands := by
  obtain ⟨hclosed, hkept⟩ := closePorts_spec queues newPorts [] s.monitoredPorts h
  obtain ⟨hopened, hadded⟩ := openPorts_spec queues newPorts hclosed
  refine ⟨hopened, ?_, ?_⟩
  · intro port
    refine (hadded port).trans ?_
    rw [hkept]
    simp
  · exact (dataRules_openPorts ..).trans (dataRules_closePorts ..)

theorem eq_nil_iff_of_mem_iff {α : Type*} {l l' : List α} (h : ∀ a, a ∈ l ↔ a ∈ l') :
    l = [] ↔ l' = [] := by
  rw [List.eq_nil_iff_forall_not_mem, List.eq_nil_iff_forall_not_mem]
  exact forall_congr' fun a => not_congr (h a)

/-- What a pass does. -/
theorem portsPass_spec (kernel : Kernel) {queues : RecvQueues} {s : PortsState}
    (h : Settled queues s) (newPorts : List UInt16) :
    Settled queues (portsPass kernel queues s newPorts) ∧
      (∀ port, port ∈ (portsPass kernel queues s newPorts).monitoredPorts ↔ port ∈ newPorts) ∧
      dataRules queues (portsPass kernel queues s newPorts).system.commands =
        dataRules queues s.system.commands +
          if s.monitoredPorts = [] ∧ newPorts ≠ [] then 1 else 0 := by
  obtain ⟨hagrees, hports, hcommands⟩ := updatePorts_spec h.agrees newPorts
  obtain ⟨hsettled, hsame, hrules⟩ := updateReceiver_spec kernel hagrees h.runs
  have hidle : (updatePorts queues s newPorts).receiverActive = false ↔ s.monitoredPorts = [] := by
    rw [← not_iff_not, ← ne_eq s.monitoredPorts, ← h.active, Bool.not_eq_false]
    rfl
  refine ⟨hsettled, ?_, ?_⟩
  · intro port
    rw [portsPass, hsame]
    exact hports port
  · rw [portsPass, hrules, hcommands]
    congr 1
    refine if_congr ?_ rfl rfl
    exact and_congr hidle (not_congr (eq_nil_iff_of_mem_iff hports))

theorem portsRun_concat (kernel : Kernel) (queues : RecvQueues) (tables : List (List UInt16))
    (newPorts : List UInt16) :
    portsRun kernel queues (tables ++ [newPorts]) =
      portsPass kernel queues (portsRun kernel queues tables) newPorts := by
  rw [portsRun, List.foldl_append]
  rfl

theorem settled_run (kernel : Kernel) (queues : RecvQueues) (tables : List (List UInt16)) :
    Settled queues (portsRun kernel queues tables) := by
  induction tables using List.reverseRecOn with
  | nil =>
      exact ⟨⟨List.nodup_nil, fun _ => rfl, proper_nil _⟩, rfl,
        by simp [portsRun, PortsState.init]⟩
  | append_singleton tables newPorts ih =>
      rw [portsRun_concat]
      exact (portsPass_spec kernel ih newPorts).1

theorem mem_monitoredPorts (kernel : Kernel) (queues : RecvQueues)
    (tables : List (List UInt16)) (port : UInt16) :
    port ∈ (portsRun kernel queues tables).monitoredPorts ↔
      port ∈ tables.getLast?.getD [] := by
  induction tables using List.reverseRecOn with
  | nil => rfl
  | append_singleton tables newPorts _ =>
      rw [portsRun_concat, List.getLast?_concat, Option.getD_some]
      exact (portsPass_spec kernel (settled_run kernel queues tables) newPorts).2.1 port

/-- What the list of ports and the rules to the IMD's queue are after the given tables. -/
structure PortsAgree (queues : RecvQueues) (tables : List (List UInt16)) (s : PortsState) :
    Prop where
  nodup : s.monitoredPorts.Nodup
  listed : ∀ port, port ∈ s.monitoredPorts ↔ port ∈ tables.getLast?.getD []
  /-- The rules created, less those deleted. -/
  balance : ∀ port, Ledger.balance ⟨port, queues.imd⟩ s.system.commands =
    if port ∈ s.monitoredPorts then 1 else 0
  /-- A rule is created where there is none, and deleted where there is one. -/
  proper : Proper (fun rule => rule.queueNum = queues.imd) s.system.commands

/-- After every pass of `ports_routine`, whatever the tables were. -/
theorem ports_agree (kernel : Kernel) (queues : RecvQueues) (tables : List (List UInt16)) :
    PortsAgree queues tables (portsRun kernel queues tables) := by
  obtain ⟨hnodup, hcount, hproper⟩ := (settled_run kernel queues tables).agrees
  refine ⟨hnodup, mem_monitoredPorts kernel queues tables, ?_, hproper⟩
  intro port
  rw [balance_eq_count hproper rfl, hcount]
  push_cast
  rfl

/-! ## The daemons and the rule for the data port -/

/-- How many daemons of a kind run. -/
def running (daemon : Daemon) (s : PortsState) : ℕ :=
  s.system.processes.countP fun p => p.daemon = daemon

/-- One daemon of each kind runs, and the rule for the data port is there once, if there are
ports, and else neither. -/
structure Together (queues : RecvQueues) (s : PortsState) : Prop where
  daemons : ∀ daemon, running daemon s = if s.monitoredPorts = [] then 0 else 1
  dataRule : (content s.system.commands).count ⟨iprpDataPort, queues.ird⟩ =
    if s.monitoredPorts = [] then 0 else 1

theorem Settled.running {queues : RecvQueues} {s : PortsState} (h : Settled queues s)
    (daemon : Daemon) : running daemon s = if s.monitoredPorts = [] then 0 else 1 := by
  have hactive := h.active
  have hruns : s.system.processes = _ := h.runs
  unfold Iprp.Icd.running
  rw [hruns]
  by_cases hempty : s.monitoredPorts = []
  · have hidle : ¬ s.receiverActive = true := fun hon => hactive.1 hon hempty
    rw [if_neg hidle, if_pos hempty]
    rfl
  · rw [if_pos (hactive.2 hempty), if_neg hempty]
    cases daemon with
    | ird => rfl
    | imd => rfl

theorem monitoredPorts_eq_nil_iff (kernel : Kernel) (queues : RecvQueues)
    (tables : List (List UInt16)) :
    (portsRun kernel queues tables).monitoredPorts = [] ↔ tables.getLast?.getD [] = [] :=
  eq_nil_iff_of_mem_iff (mem_monitoredPorts kernel queues tables)

theorem dataRules_concat (kernel : Kernel) (queues : RecvQueues) (tables : List (List UInt16))
    (newPorts : List UInt16) :
    dataRules queues (portsRun kernel queues (tables ++ [newPorts])).system.commands =
      dataRules queues (portsRun kernel queues tables).system.commands +
        if tables.getLast?.getD [] = [] ∧ newPorts ≠ [] then 1 else 0 := by
  rw [portsRun_concat, (portsPass_spec kernel (settled_run kernel queues tables) newPorts).2.2]
  congr 1
  refine if_congr ?_ rfl rfl
  exact and_congr_left' (monitoredPorts_eq_nil_iff kernel queues tables)

theorem exists_of_last_ne_nil {tables : List (List UInt16)} (h : tables.getLast?.getD [] ≠ []) :
    ∃ t ∈ tables, t ≠ [] := by
  cases hlast : tables.getLast? with
  | none =>
      rw [hlast] at h
      exact absurd rfl h
  | some t =>
      rw [hlast] at h
      exact ⟨t, List.mem_of_getLast? hlast, h⟩

theorem dataRules_pos (kernel : Kernel) (queues : RecvQueues) {tables : List (List UInt16)}
    (h : ∃ t ∈ tables, t ≠ []) :
    0 < dataRules queues (portsRun kernel queues tables).system.commands := by
  induction tables using List.reverseRecOn with
  | nil =>
      obtain ⟨t, ht, -⟩ := h
      cases ht
  | append_singleton tables newPorts ih =>
      rw [dataRules_concat]
      obtain ⟨t, ht, hne⟩ := h
      by_cases hearlier : ∃ t ∈ tables, t ≠ []
      · exact Nat.add_pos_left (ih hearlier) _
      · -- the first table with ports
        have hlast : tables.getLast?.getD [] = [] := by
          by_contra hlast
          exact hearlier (exists_of_last_ne_nil hlast)
        rcases List.mem_append.1 ht with hold | hnew
        · exact absurd ⟨t, hold, hne⟩ hearlier
        · rw [List.mem_singleton.1 hnew] at hne
          rw [if_pos ⟨hlast, hne⟩]
          exact Nat.succ_pos _

theorem dataRules_of_pairwise (kernel : Kernel) (queues : RecvQueues)
    {tables : List (List UInt16)} (h : tables.Pairwise fun t t' => t ≠ [] → t' ≠ []) :
    dataRules queues (portsRun kernel queues tables).system.commands =
      if tables.getLast?.getD [] = [] then 0 else 1 := by
  induction tables using List.reverseRecOn with
  | nil => rfl
  | append_singleton tables newPorts ih =>
      obtain ⟨htables, -, hlater⟩ := List.pairwise_append.1 h
      rw [dataRules_concat, ih htables, List.getLast?_concat, Option.getD_some]
      by_cases hlast : tables.getLast?.getD [] = []
      · by_cases hnew : newPorts = []
        · simp [hlast, hnew]
        · simp [hlast, hnew]
      · obtain ⟨t, ht, hne⟩ := exists_of_last_ne_nil hlast
        have hnew : newPorts ≠ [] := hlater t ht newPorts (List.mem_singleton.2 rfl) hne
        simp [hlast, hnew]

/-- After every pass the daemons and the rule for the data port are there together, if and only
if no empty table comes after a table with ports. -/
theorem together_iff (kernel : Kernel) (queues : RecvQueues) (tables : List (List UInt16)) :
    (∀ k, Together queues (portsRun kernel queues (tables.take k))) ↔
      tables.Pairwise fun t t' => t ≠ [] → t' ≠ [] := by
  constructor
  · intro h
    rw [List.pairwise_iff_getElem]
    intro i j hi hj hij hne hempty
    have hlaunched : ∃ t ∈ tables.take (j + 1), t ≠ [] :=
      ⟨tables[i], List.mem_take_iff_getElem.2 ⟨i, by omega, rfl⟩, hne⟩
    have hlast : ((tables.take (j + 1)).getLast?).getD [] = [] := by
      rw [List.take_add_one, List.getElem?_eq_getElem hj, Option.toList_some,
        List.getLast?_concat, Option.getD_some]
      exact hempty
    have hrule := (h (j + 1)).dataRule
    rw [if_pos ((monitoredPorts_eq_nil_iff ..).2 hlast)] at hrule
    exact absurd hrule (Nat.ne_of_gt (dataRules_pos kernel queues hlaunched))
  · intro h k
    have htake : (tables.take k).Pairwise fun t t' => t ≠ [] → t' ≠ [] :=
      h.sublist (List.take_sublist k tables)
    refine ⟨(settled_run kernel queues (tables.take k)).running, ?_⟩
    refine (dataRules_of_pairwise kernel queues htake).trans ?_
    exact if_congr (monitoredPorts_eq_nil_iff kernel queues (tables.take k)).symm rfl rfl

/-- Pids in the order of their numbers. -/
def nextPid (processes : List Process) : ℕ := (processes.map Process.pid).foldr max 0 + 1

theorem pid_lt_nextPid {processes : List Process} {p : Process} (hp : p ∈ processes) :
    p.pid < nextPid processes := by
  induction processes with
  | nil => cases hp
  | cons q processes ih =>
      have hnext : nextPid (q :: processes) =
          max q.pid ((processes.map Process.pid).foldr max 0) + 1 :=
        rfl
      rcases List.mem_cons.1 hp with rfl | hmem
      · omega
      · have hle : p.pid < (processes.map Process.pid).foldr max 0 + 1 := ih hmem
        omega

def smallKernel : Kernel := ⟨nextPid, fun _ _ hp => Nat.ne_of_lt (pid_lt_nextPid hp)⟩

/-- A table with one port, and then an empty one: the rule is still there. -/
theorem data_rule_left_behind :
    ¬ ∀ (kernel : Kernel) (queues : RecvQueues) (tables : List (List UInt16)) (k : ℕ),
      Together queues (portsRun kernel queues (tables.take k)) := by
  intro h
  have hrule := (h smallKernel ⟨1, 2, 3, by decide⟩ [[5000], []] 2).dataRule
  exact absurd hrule (by decide)

end Iprp.Icd
