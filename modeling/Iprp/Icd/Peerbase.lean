import Iprp.Icd.Control
import Iprp.Library.CString

/-!
# The ICD's peerbase routine

`src/icd/peerbase.c`: every pass walks the list of bases with a cursor, deletes the aged
ones, writes each of the others to its file and starts the ISD of a base that has none.
Starting an ISD adds a rule to the POSTROUTING chain and a process that reads the queue of
that rule. The file operations, `fork` and the shell command are taken to succeed, since
the daemon exits otherwise.

The element that the cursor points to is given by its position. New bases are appended
and only this routine deletes, so the position of an element changes with a deletion
before it and not otherwise.
-/

namespace Iprp.Icd

open KeyedList CString

def iprpPbTexp : ℤ := 60

/-! ## Files -/

/-- Fills a peerbase structure with a base of the ICD. -/
def createPeerbase (this : Host) (base : IcdBase) : Peerbase where
  link := base.link
  host := this
  inds := base.inds
  destAddr := base.destAddr

/-- A plain `char` as the `unsigned int` that `%02x` prints: its sign is extended. -/
def promoteChar (c : UInt8) : ℕ :=
  if c.toNat < 128 then c.toNat else 2 ^ 32 - 256 + c.toNat

/-- The loop that prints an SNSID into the buffer `snsid_str`. -/
def printSnsid (snsid : Snsid) (buf : List Char) : List Char :=
  (List.range 20).foldl
    (fun buf i => snprintf buf (2 * i) 3 (hex02 (promoteChar (snsid[i]?.getD 0)))) buf

/-- The path of a peerbase file, from the buffer `snsid_str`. -/
def basePath (snsidStr : List Char) : List Char :=
  ("files/base_".toList ++ cString snsidStr ++ ".iprp".toList).take 56

/-- The path for an SNSID. What the buffer held before has no influence on it
(`peerbasePath_eq`). -/
def peerbasePath (snsid : Snsid) : List Char :=
  basePath (printSnsid snsid (List.replicate 41 nul))

/-- Stores a peerbase to the file at a path. -/
def peerbaseStore (path : List Char) (peerbase : Peerbase)
    (files : List Char → Option Peerbase) : List Char → Option Peerbase :=
  Function.update files path (some peerbase)

/-! ## The routine -/

/-- `base->isd_pid = pid`. -/
def IcdBase.setIsdPid (base : IcdBase) (pid : ℤ) : IcdBase := { base with isdPid := pid }

/-- A rule of the POSTROUTING chain: the datagrams of a flow go to a queue. -/
structure Rule where
  key : FlowKey
  queueId : UInt16
  deriving DecidableEq

/-- A running ISD: its process, the queue it reads and the file it loads. -/
structure Isd where
  pid : ℤ
  queueId : UInt16
  path : List Char
  deriving DecidableEq

/-- The state of the ICD's sender side. -/
structure State extends Control where
  /-- `iterator` of `pb_routine`; `none` is the null pointer. -/
  iterator : Option ℕ
  files : List Char → Option Peerbase
  rules : List Rule
  isds : List Isd

def State.init : State := ⟨Control.init, none, fun _ => none, [], []⟩

def aged (currTime : ℤ) (base : IcdBase) : Bool := iprpPbTexp < currTime - base.lastCap

/-- The rule that diverts the datagrams of a base to its queue. -/
def isdRule (base : IcdBase) : Rule := ⟨base.key, base.queueId⟩

/-- The ISD of a base. -/
def isdOf (base : IcdBase) (pid : ℤ) : Isd :=
  ⟨pid, base.queueId, peerbasePath base.link.snsid⟩

/-- Start an ISD for the given base. -/
def isdStartup (base : IcdBase) (pid : ℕ) (s : State) : State :=
  { s with
    rules := s.rules ++ [isdRule base]
    isds := s.isds ++ [isdOf base pid] }

/-- The start of a pass. -/
def pbStart (s : State) : State :=
  match s.iterator with
  | some _ => s
  | none => { s with iterator := node s.peerbases 0 }

/-- The part of an iteration under the list lock, at the position `i`: an aged base is
deleted, and otherwise the base is to be pushed. -/
def pbExamine (currTime : ℤ) (i : ℕ) (s : State) : State × Bool :=
  let (peerbases, iterator) := sweepStep (aged currTime) s.peerbases i
  ({ s with peerbases := peerbases, iterator := iterator },
    (s.peerbases[i]?).any fun base => !aged currTime base)

/-- The rest of the iteration for the base at the position `i`: it is stored, and its ISD
is started if there is none. -/
def pbPush (c : Config) (pid : ℕ) (i : ℕ) (s : State) : State :=
  match s.peerbases[i]? with
  | none => s
  | some base =>
      let s := { s with
        files := peerbaseStore (peerbasePath base.link.snsid)
          (createPeerbase c.this.toHost base) s.files }
      if base.isdPid = -1 then
        { isdStartup base pid s with
          peerbases := s.peerbases.set i (base.setIsdPid pid) }
      else s

/-- One iteration of the inner loop of `pb_routine`. -/
def pbIteration (c : Config) (currTime : ℤ) (pid : ℕ) (s : State) : State :=
  match s.iterator with
  | none => s
  | some i =>
      let (s', push) := pbExamine currTime i s
      if push then pbPush c pid i s' else s'

/-! ## Runs -/

/-- The steps of the control routine and of `pb_routine`: the handling of a CAP, the start
of a pass and one iteration of it. -/
inductive Action where
  | cap (heap : Heap) (msg : CapMsg)
  | pbStart
  | pbIteration (pid : ℕ)

structure Event where
  currTime : ℤ
  action : Action

/-- Handling a CAP, as a step of the whole state. -/
def capStep (c : Config) (currTime : ℤ) (heap : Heap) (msg : CapMsg) (s : State) :
    Option State :=
  (handleCap c currTime heap msg s.toControl).map fun control =>
    { s with toControl := control }

def step (c : Config) (s : State) (e : Event) : Option State :=
  match e.action with
  | .cap heap msg => capStep c e.currTime heap msg s
  | .pbStart => some (pbStart s)
  | .pbIteration pid => some (pbIteration c e.currTime pid s)

/-- The state of the ICD after the given events. -/
def run (c : Config) (es : List Event) : Option State := Run.runFrom (step c) State.init es

end Iprp.Icd
