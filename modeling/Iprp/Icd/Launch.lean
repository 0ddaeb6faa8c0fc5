import Iprp.Icd.Commands

/-!
# Launching the daemons

`ports_routine` and `isd_startup` with the texts that they give to the shell and to `execl`. Each
function is the one of the model with the texts in the place of the operations, and the daemons
read their arguments with `atoi`.

With a shell that does what is documented, the runs are the same (`portsRunText_eq`,
`runText_eq`). So the queue numbers that `main` of the ICD draws are those of the rules and those
that the daemons are started with (`daemons_wired`).
-/

namespace Iprp.Icd

open CommandLine Ledger

/-! ## The arguments of the ICD -/

/-- The interfaces for the arguments of `main`. An argument that is no address leaves the one in
`this` as it is. -/
def ifacesOf (addrs : List String) : Vector Iface 16 :=
  Vector.ofFn fun i =>
    match addrs[i.val]? with
    | some addr => ⟨UInt8.ofNat i, (parseDotted addr).getD (inAddr 0 0 0 0)⟩
    | none => ⟨0, inAddr 0 0 0 0⟩

theorem ifacesOf_ind {addrs : List String} {n : ℕ} (hn : n = addrs.length) (i : ℕ) (hi : i < 16)
    (hlt : i < n) : (ifacesOf addrs)[i].ind.toNat = i := by
  rw [hn] at hlt
  simp only [ifacesOf, Vector.getElem_ofFn, List.getElem?_eq_getElem hlt]
  rw [UInt8.toNat_ofNat']
  omega

/-- `main` of the ICD up to the setup of `this`, which is not reached with other numbers of
arguments. The number of interfaces is a `size_t`. -/
def icdMain : List String → Option LocalHost
  | _ :: nbIfaces :: addrs =>
      let n := (atoi nbIfaces % 2 ^ 64).toNat
      if h : 1 ≤ n ∧ n ≤ 16 ∧ n = addrs.length then
        some ⟨⟨n, ifacesOf addrs⟩, h.1, h.2.1, ifacesOf_ind h.2.2⟩
      else none
  | _ => none

/-- With one to sixteen addresses as `inet_ntop` prints them, the host has interfaces with these
addresses, numbered in their order. -/
theorem icdMain_dotted (name : String) {addrs : List InAddr} (hpos : addrs ≠ [])
    (hle : addrs.length ≤ 16) :
    ∃ this, icdMain (name :: decimal addrs.length :: addrs.map dotted) = some this ∧
      this.used = addrs.mapIdx fun i addr => ⟨UInt8.ofNat i, addr⟩ := by
  have hn : (atoi (decimal addrs.length) % 2 ^ 64).toNat = addrs.length := by
    rw [atoi_decimal (by omega)]
    omega
  have hone : 1 ≤ addrs.length := List.length_pos_iff.2 hpos
  unfold icdMain
  simp only [hn, List.length_map]
  rw [dif_pos ⟨hone, hle, trivial⟩]
  refine ⟨_, rfl, ?_⟩
  apply List.ext_getElem
  · simp [Host.used, hle]
  · intro i hi hi'
    have hlt : i < addrs.length := by simpa using hi'
    have hparse : parseDotted (dotted addrs[i]) = some addrs[i] := parseDotted_eq_some_iff.2 rfl
    simp [Host.used, ifacesOf, hlt, hparse]

/-! ## The arguments of the other daemons -/

/-- What `main` of the IRD and of the IMD make of their arguments. -/
def queueArgs : List String → Option (UInt16 × UInt16)
  | _ :: queueId :: otherQueueId :: _ =>
      some (UInt16.ofInt (atoi queueId), UInt16.ofInt (atoi otherQueueId))
  | _ => none

/-- The daemon at a location, started with arguments. -/
def execl (location : String) (argv : List String) (pid : ℕ) : Option Process := do
  let (queueNum, otherQueueNum) ← queueArgs argv
  if location = "bin/ird" then return ⟨pid, .ird, queueNum, otherQueueNum⟩
  else if location = "bin/imd" then return ⟨pid, .imd, queueNum, otherQueueNum⟩
  else none

/-- `main` of the ISD. -/
def isdMain (pid : ℕ) : List String → Option Isd
  | _ :: queueId :: basePath :: _ =>
      some ⟨pid, UInt16.ofInt (atoi queueId), basePath.toList⟩
  | _ => none

theorem ofInt_atoi_decimal (n : UInt16) : UInt16.ofInt (atoi (decimal n.toNat)) = n := by
  rw [atoi_decimal (lt_trans n.toNat_lt (by decide)), UInt16.ofInt]
  have hmod : ((n.toNat : ℤ) % 2 ^ 16).toNat = n.toNat := by
    have hlt := n.toNat_lt
    omega
  rw [hmod, UInt16.ofNat_toNat]

theorem queueArgs_decimal (name : String) (queueNum otherQueueNum : UInt16) :
    queueArgs [name, decimal queueNum.toNat, decimal otherQueueNum.toNat] =
      some (queueNum, otherQueueNum) := by
  rw [queueArgs, ofInt_atoi_decimal, ofInt_atoi_decimal]

/-! ## The receiver side -/

/-- `ird_launch`. -/
def irdLaunchText (sh : Shell) (kernel : Kernel) (queueNum imdQueueNum : UInt16) (system : System) :
    Option (ℕ × System) :=
  let pid := kernel.newPid system.processes
  let system := sh.receiver (iptablesRuleText iprpDataPort queueNum true) system
  (execl "bin/ird" ["ird", decimal queueNum.toNat, decimal imdQueueNum.toNat] pid).map
    fun p => (pid, { system with processes := system.processes ++ [p] })

/-- `imd_launch`. -/
def imdLaunchText (kernel : Kernel) (queueNum irdQueueNum : UInt16) (system : System) :
    Option (ℕ × System) :=
  let pid := kernel.newPid system.processes
  (execl "bin/imd" ["imd", decimal queueNum.toNat, decimal irdQueueNum.toNat] pid).map
    fun p => (pid, { system with processes := system.processes ++ [p] })

/-- Close expired ports. -/
def closePortsText (sh : Shell) (queues : RecvQueues) (newPorts kept : List UInt16) :
    List UInt16 → System → List UInt16 × System
  | [], system => (kept, system)
  | port :: ports, system =>
      if !findPortInArray port newPorts then
        closePortsText sh queues newPorts kept ports
          (sh.receiver (iptablesRuleText port queues.imd false) system)
      else closePortsText sh queues newPorts (kept ++ [port]) ports system

/-- Open new ports. -/
def openPortsText (sh : Shell) (queues : RecvQueues) :
    List UInt16 → List UInt16 → System → List UInt16 × System
  | [], monitoredPorts, system => (monitoredPorts, system)
  | port :: newPorts, monitoredPorts, system =>
      if !findPortInList port monitoredPorts then
        openPortsText sh queues newPorts (monitoredPorts ++ [port])
          (sh.receiver (iptablesRuleText port queues.imd true) system)
      else openPortsText sh queues newPorts monitoredPorts system

/-- Create or delete IRD/IMD. -/
def updateReceiverText (sh : Shell) (kernel : Kernel) (queues : RecvQueues) (s : PortsState) :
    Option PortsState :=
  if s.receiverActive && s.monitoredPorts.length == 0 then
    some { s with
      receiverActive := false
      system := sh.receiver (procShutdownText s.imdPid)
        (sh.receiver (procShutdownText s.irdPid) s.system) }
  else if !s.receiverActive && 0 < s.monitoredPorts.length then do
    let (irdPid, system) ← irdLaunchText sh kernel queues.ird queues.irdImd s.system
    let (imdPid, system) ← imdLaunchText kernel queues.imd queues.irdImd system
    return ⟨s.monitoredPorts, true, irdPid, imdPid, system⟩
  else some s

/-- One pass of the loop of `ports_routine`. -/
def portsPassText (sh : Shell) (kernel : Kernel) (queues : RecvQueues) (s : PortsState)
    (newPorts : List UInt16) : Option PortsState :=
  let (monitoredPorts, system) := closePortsText sh queues newPorts [] s.monitoredPorts s.system
  let (monitoredPorts, system) := openPortsText sh queues newPorts monitoredPorts system
  updateReceiverText sh kernel queues { s with monitoredPorts := monitoredPorts, system := system }

def portsRunText (sh : Shell) (kernel : Kernel) (queues : RecvQueues)
    (tables : List (List UInt16)) : Option PortsState :=
  Run.runFrom (portsPassText sh kernel queues) PortsState.init tables

theorem imdLaunchText_eq (kernel : Kernel) (queueNum irdQueueNum : UInt16) (system : System) :
    imdLaunchText kernel queueNum irdQueueNum system =
      some (imdLaunch kernel queueNum irdQueueNum system) := by
  unfold imdLaunchText execl
  rw [queueArgs_decimal]
  rfl

/-- The pids that `ports_routine` keeps have at most seven digits. -/
def SmallPids (s : PortsState) : Prop := s.irdPid < 10 ^ 7 ∧ s.imdPid < 10 ^ 7

theorem updateReceiver_smallPids {kernel : Kernel}
    (hpid : ∀ ps, ps.length ≤ 1 → kernel.newPid ps < 10 ^ 7) {queues : RecvQueues}
    {s : PortsState} (hruns : RunsReceiver queues s) (hs : SmallPids s) :
    SmallPids (updateReceiver kernel queues s) := by
  unfold updateReceiver
  split
  · exact hs
  · split
    · next hlaunch =>
        have hactive : s.receiverActive = false := by
          simpa using (Bool.and_eq_true_iff.1 hlaunch).1
        have hnone : s.system.processes = [] := by
          simpa [RunsReceiver, hactive] using hruns
        refine ⟨hpid _ ?_, hpid _ ?_⟩
        · simp [hnone]
        · simp [irdLaunch, hnone]
    · exact hs

section Receiver

variable {sh : Shell} (hsh : sh.Documented)

include hsh

theorem receiver_iptablesRuleText (port queueNum : UInt16) (create : Bool) (system : System) :
    sh.receiver (iptablesRuleText port queueNum create) system =
      { system with commands := system.commands ++ [iptablesRule port queueNum create] } := by
  rw [iptablesRuleText_eq, hsh.portRule]

theorem receiver_procShutdownText {pid : ℕ} (h : pid < 10 ^ 7) (system : System) :
    sh.receiver (procShutdownText pid) system = procShutdown pid system := by
  rw [procShutdownText_eq h, hsh.kill, procShutdown]

theorem irdLaunchText_eq (kernel : Kernel) (queueNum imdQueueNum : UInt16) (system : System) :
    irdLaunchText sh kernel queueNum imdQueueNum system =
      some (irdLaunch kernel queueNum imdQueueNum system) := by
  unfold irdLaunchText execl
  rw [queueArgs_decimal, receiver_iptablesRuleText hsh]
  rfl

theorem closePortsText_eq (queues : RecvQueues) (newPorts kept ports : List UInt16)
    (system : System) :
    closePortsText sh queues newPorts kept ports system =
      ((closePorts queues newPorts kept ports system.commands).1,
        { system with commands := (closePorts queues newPorts kept ports system.commands).2 }) := by
  induction ports generalizing kept system with
  | nil => rfl
  | cons port ports ih =>
      rw [closePortsText, closePorts]
      split
      · rw [ih, receiver_iptablesRuleText hsh]
      · rw [ih]

theorem openPortsText_eq (queues : RecvQueues) (newPorts monitoredPorts : List UInt16)
    (system : System) :
    openPortsText sh queues newPorts monitoredPorts system =
      ((openPorts queues newPorts monitoredPorts system.commands).1,
        { system with
          commands := (openPorts queues newPorts monitoredPorts system.commands).2 }) := by
  induction newPorts generalizing monitoredPorts system with
  | nil => rfl
  | cons port newPorts ih =>
      rw [openPortsText, openPorts]
      split
      · rw [ih, receiver_iptablesRuleText hsh]
      · rw [ih]

theorem updateReceiverText_eq (kernel : Kernel) (queues : RecvQueues) {s : PortsState}
    (hs : SmallPids s) :
    updateReceiverText sh kernel queues s = some (updateReceiver kernel queues s) := by
  unfold updateReceiverText updateReceiver
  split
  · rw [receiver_procShutdownText hsh hs.1, receiver_procShutdownText hsh hs.2]
  · split
    · rw [irdLaunchText_eq hsh, Option.bind_eq_bind, Option.bind_some]
      dsimp only
      rw [imdLaunchText_eq]
      rfl
    · rfl

theorem portsPassText_eq (kernel : Kernel) (queues : RecvQueues) {s : PortsState}
    (hs : SmallPids s) (newPorts : List UInt16) :
    portsPassText sh kernel queues s newPorts = some (portsPass kernel queues s newPorts) := by
  unfold portsPassText
  simp only [closePortsText_eq hsh, openPortsText_eq hsh]
  exact updateReceiverText_eq hsh kernel queues hs

/-- For every sequence of tables: the texts that `ports_routine` prints do what it means to do. -/
theorem portsRunText_eq {kernel : Kernel}
    (hpid : ∀ ps, ps.length ≤ 1 → kernel.newPid ps < 10 ^ 7) (queues : RecvQueues)
    (tables : List (List UInt16)) :
    portsRunText sh kernel queues tables = some (portsRun kernel queues tables) := by
  have hstep : ∀ tables,
      portsRunText sh kernel queues tables = some (portsRun kernel queues tables) ∧
      SmallPids (portsRun kernel queues tables) := by
    intro tables
    induction tables using List.reverseRecOn with
    | nil =>
        have hzero : 0 < 10 ^ 7 := by decide
        exact ⟨rfl, hzero, hzero⟩
    | append_singleton tables newPorts ih =>
        obtain ⟨hrun, hsmall⟩ := ih
        rw [portsRun_concat]
        constructor
        · unfold portsRunText at hrun ⊢
          rw [Run.runFrom_append, hrun, Option.bind_some, Run.runFrom_singleton]
          exact portsPassText_eq hsh kernel queues hsmall newPorts
        · have hruns : RunsReceiver queues
              (updatePorts queues (portsRun kernel queues tables) newPorts) :=
            (settled_run kernel queues tables).runs
          exact updateReceiver_smallPids hpid hruns hsmall
  exact (hstep tables).1

end Receiver

/-! ## The queues of the daemons -/

/-- Each rule names the queue that a daemon was started with, and the IRD and the IMD have the
same queue between them. -/
structure Wired (s : PortsState) : Prop where
  ports : ∀ port ∈ s.monitoredPorts, ∃ imd ∈ s.system.processes, imd.daemon = .imd ∧
    ⟨port, imd.queueNum⟩ ∈ content s.system.commands
  data : s.monitoredPorts ≠ [] → ∃ ird ∈ s.system.processes, ird.daemon = .ird ∧
    ⟨iprpDataPort, ird.queueNum⟩ ∈ content s.system.commands
  handOver : ∀ ird ∈ s.system.processes, ird.daemon = .ird →
    ∃ imd ∈ s.system.processes, imd.daemon = .imd ∧ ird.otherQueueNum = imd.otherQueueNum
  apart : ∀ p ∈ s.system.processes, ∀ q ∈ s.system.processes, p.queueNum ≠ q.otherQueueNum ∧
    (p.queueNum = q.queueNum → p = q)

theorem wired_portsRun (kernel : Kernel) (queues : RecvQueues) (tables : List (List UInt16)) :
    Wired (portsRun kernel queues tables) := by
  have hsettled := settled_run kernel queues tables
  have hdata : (portsRun kernel queues tables).monitoredPorts ≠ [] →
      ⟨iprpDataPort, queues.ird⟩ ∈ content (portsRun kernel queues tables).system.commands := by
    intro hne
    rw [← List.count_pos_iff]
    refine dataRules_pos kernel queues (exists_of_last_ne_nil ?_)
    rwa [ne_eq, ← monitoredPorts_eq_nil_iff kernel queues tables]
  generalize portsRun kernel queues tables = s at hsettled hdata
  obtain ⟨hagrees, hruns, hactive⟩ := hsettled
  obtain ⟨hne, hne', hne''⟩ := queues.distinct
  unfold RunsReceiver at hruns
  cases hreceiver : s.receiverActive with
  | false =>
      rw [hreceiver, if_neg (by simp)] at hruns
      have hports : s.monitoredPorts = [] := by
        by_contra h
        rw [hactive.2 h] at hreceiver
        cases hreceiver
      constructor
      · simp [hports]
      · exact fun h => absurd hports h
      · simp [hruns]
      · simp [hruns]
  | true =>
      rw [hreceiver, if_pos rfl] at hruns
      constructor
      · intro port hport
        refine ⟨_, by rw [hruns]; exact List.mem_cons_of_mem _ List.mem_cons_self, rfl, ?_⟩
        rw [← List.count_pos_iff, hagrees.count, if_pos hport]
        exact Nat.one_pos
      · intro hports
        exact ⟨_, by rw [hruns]; exact List.mem_cons_self, rfl, hdata hports⟩
      · simp [hruns]
      · simp [hruns, hne, hne', hne'', Ne.symm hne]

/-- For every shell as documented and every sequence of tables: with the texts `ports_routine`
goes through the states that it means to, and after every pass the rule for a monitored port names
the queue of the running IMD, a rule for the data port names that of the running IRD, and these
two have the same queue between them. -/
theorem daemons_wired {sh : Shell} (hsh : sh.Documented) {kernel : Kernel}
    (hpid : ∀ ps, ps.length ≤ 1 → kernel.newPid ps < 10 ^ 7) (queues : RecvQueues)
    (tables : List (List UInt16)) :
    portsRunText sh kernel queues tables = some (portsRun kernel queues tables) ∧
      Wired (portsRun kernel queues tables) :=
  ⟨portsRunText_eq hsh hpid queues tables, wired_portsRun kernel queues tables⟩

/-- The lowest pid that is free, for at most one process, and else one above all of them. -/
def lowKernel : Kernel where
  newPid
    | [] => 1
    | [p] => if p.pid = 1 then 2 else 1
    | ps => nextPid ps
  fresh ps p hp := by
    match ps with
    | [] => cases hp
    | [q] =>
        obtain rfl := List.mem_singleton.1 hp
        dsimp only
        split <;> omega
    | q :: r :: ps => exact Nat.ne_of_lt (pid_lt_nextPid hp)

theorem lowKernel_lt {ps : List Process} (hps : ps.length ≤ 1) : lowKernel.newPid ps < 10 ^ 7 := by
  match ps with
  | [] => decide
  | [p] =>
      dsimp only [lowKernel]
      split <;> decide

/-- Two ports come, then one of them goes. -/
theorem daemons_wired_low :
    ∃ s, portsRunText wordShell lowKernel ⟨1, 2, 3, by decide⟩ [[5000, 5001], [5001]] = some s ∧
      s.monitoredPorts = [5001] ∧ Wired s := by
  obtain ⟨hrun, hwired⟩ := @daemons_wired wordShell wordShell_documented lowKernel
    (fun _ => lowKernel_lt) ⟨1, 2, 3, by decide⟩ [[5000, 5001], [5001]]
  exact ⟨_, hrun, rfl, hwired⟩

/-! ## The sender side -/

/-- `isd_startup`: the child gives its command to the shell and becomes the ISD. -/
def isdStartupText (sh : Shell) (base : IcdBase) (pid : ℕ) (s : State) : Option State :=
  let s := sh.sender (flowRuleText base) s
  (isdMain pid ["isd", decimal base.queueId.toNat,
    String.ofList (peerbasePath base.link.snsid)]).map
      fun isd => { s with isds := s.isds ++ [isd] }

/-- The rest of an iteration of `pb_routine` for a fresh base. -/
def pbPushText (sh : Shell) (c : Config) (pid : ℕ) (i : ℕ) (s : State) : Option State :=
  match s.peerbases[i]? with
  | none => some s
  | some base =>
      let s := { s with
        files := peerbaseStore (peerbasePath base.link.snsid)
          (createPeerbase c.this.toHost base) s.files }
      if base.isdPid = -1 then
        (isdStartupText sh base pid s).map fun s' =>
          { s' with peerbases := s.peerbases.set i (base.setIsdPid pid) }
      else some s

def pbIterationText (sh : Shell) (c : Config) (currTime : ℤ) (pid : ℕ) (s : State) : Option State :=
  match s.iterator with
  | none => some s
  | some i =>
      let (s', push) := pbExamine currTime i s
      if push then pbPushText sh c pid i s' else some s'

def stepText (sh : Shell) (c : Config) (s : State) (e : Event) : Option State :=
  match e.action with
  | .cap heap msg => capStep c e.currTime heap msg s
  | .pbStart => some (pbStart s)
  | .pbIteration pid => pbIterationText sh c e.currTime pid s

def runText (sh : Shell) (c : Config) (es : List Event) : Option State :=
  Run.runFrom (stepText sh c) State.init es

section Sender

variable {sh : Shell} (hsh : sh.Documented)

include hsh

theorem isdStartupText_eq (base : IcdBase) (pid : ℕ) (s : State) :
    isdStartupText sh base pid s = some (isdStartup base pid s) := by
  have hmain : isdMain pid ["isd", decimal base.queueId.toNat,
      String.ofList (peerbasePath base.link.snsid)] = some (isdOf base pid) := by
    rw [isdMain, ofInt_atoi_decimal, String.toList_ofList]
    rfl
  unfold isdStartupText
  rw [flowRuleText_eq, hsh.flowRule, hmain]
  rfl

theorem pbPushText_eq (c : Config) (pid i : ℕ) (s : State) :
    pbPushText sh c pid i s = some (pbPush c pid i s) := by
  unfold pbPushText pbPush
  cases s.peerbases[i]? with
  | none => rfl
  | some base =>
      dsimp only
      rw [isdStartupText_eq hsh, Option.map_some, ← apply_ite]

theorem stepText_eq (c : Config) (s : State) (e : Event) : stepText sh c s e = step c s e := by
  obtain ⟨currTime, action⟩ := e
  cases action with
  | cap heap msg => rfl
  | pbStart => rfl
  | pbIteration pid =>
      dsimp only [stepText, step]
      unfold pbIterationText pbIteration
      cases s.iterator with
      | none => rfl
      | some i =>
          dsimp only
          rw [pbPushText_eq hsh, ← apply_ite]

end Sender

/-- For every shell as documented and every run of the ICD's sender side: each text of
`isd_startup` makes the rule for the flow of its base, and the ISD is started with the queue of
that rule and the path of that base. -/
theorem runText_eq {sh : Shell} (hsh : sh.Documented) (c : Config) (es : List Event) :
    runText sh c es = run c es := by
  have hstep : stepText sh c = step c := funext₂ (stepText_eq hsh c)
  rw [runText, run, hstep]

def startedEvents : List Event :=
  [⟨0, .cap smallHeap smallCap⟩, ⟨1, .pbStart⟩, ⟨1, .pbIteration 77⟩]

/-- A CAP comes, and the next pass starts an ISD. -/
theorem runText_eq_small :
    runText wordShell (smallConfig .unicast) startedEvents =
        run (smallConfig .unicast) startedEvents ∧
      (run (smallConfig .unicast) startedEvents).map
        (fun s => (s.rules.length, s.isds.map Isd.pid)) = some (1, [77]) :=
  ⟨runText_eq wordShell_documented (smallConfig .unicast) startedEvents, by decide +kernel⟩

end Iprp.Icd
