import Iprp.Files
import Iprp.Icd.Peerbase
import Iprp.Icd.PortsFile
import Iprp.Library.Streams

/-!
# The files that the ICD opens

The functions of `src/lib/files.c` that the ICD calls and `get_monitored_ports` as programs of
calls, and the passes of the four routines of the ICD that use them. Each of the functions closes
the stream that it has opened on every path that returns, but for `get_monitored_ports`, which
never does. So every pass of `ports_routine` leaves one more stream open than it found, and the
other routines none, whatever the files hold and however the routines are interleaved
(`streams_kept_iff`).
-/

namespace Iprp.OpenFiles

open Streams Files

def iprpErrNullptr : ℤ := 6

def iprpAsFile : List Char := "files/activesenders.iprp".toList

def iprpSiFile : List Char := "files/senderifaces.iprp".toList

def iprpMonitoredPortsFile : List Char := "ports.txt".toList

/-! ## The functions

Calls of `fread` or of `fwrite` in a row are one call here. A pointer that may be null is an
option. -/

def peerbaseStore {n : ℕ} (path : Option (List Char)) (base : Option (Vector UInt8 n)) :
    Prog ℤ :=
  match path, base with
  | some path, some base =>
      .fopen path .write fun writer =>
        if writer then .fwrite (Files.peerbaseStore base) (.fclose (.done 0)) else .exit
  | _, _ => .done iprpErrNullptr

/-- Stores a count and entries of `n` bytes. -/
def entriesStore (o : Bytes.ByteOrder) {n : ℕ} (path : List Char) (senders : Entries n) :
    Prog Unit :=
  .fopen path .write fun writer =>
    if writer then .fwrite (Files.entriesStore o senders) (.fclose (.done ())) else .exit

/-- Loads a count and entries of `n` bytes. The daemon crashes when it reads through the null
pointer that `calloc` returns for a negative count. -/
def entriesLoad (o : Bytes.ByteOrder) (n : ℕ) (path : List Char) (count : Option Memory)
    (senders : Option Unit) : Prog (ℤ × Option Loaded) :=
  match count, senders with
  | some count, some _ =>
      .fopen path .read fun reader =>
        if reader then
          .fread fun file =>
            match Files.entriesLoad o n count file with
            | none => .exit
            | some loaded => .fclose (.done (0, some loaded.1))
        else .exit
  | _, _ => .done (iprpErrNullptr, none)

def activesendersStore (t : Target) : List Char → Entries (activeSenderSize t.build) → Prog Unit :=
  entriesStore t.order

def activesendersLoad (t : Target) :
    List Char → Option Memory → Option Unit → Prog (ℤ × Option Loaded) :=
  entriesLoad t.order (activeSenderSize t.build)

def senderifacesStore (o : Bytes.ByteOrder) : List Char → Entries senderIfacesSize → Prog Unit :=
  entriesStore o

/-- Reads the monitored ports from the file, whose stream stays open. -/
def getMonitoredPorts (stale : ℕ → UInt16) : Prog (List UInt16) :=
  .fopen iprpMonitoredPortsFile .read fun portsFile =>
    if portsFile then .fread fun file => .done (Icd.getMonitoredPorts stale file) else .exit

theorem ends_peerbaseStore {n : ℕ} (path : Option (List Char)) (base : Option (Vector UInt8 n)) :
    Ends 0 (peerbaseStore path base) 0 := by
  cases path with
  | none => rfl
  | some path =>
      cases base with
      | none => rfl
      | some base => exact ⟨rfl, trivial, rfl, rfl⟩

theorem ends_entriesStore (o : Bytes.ByteOrder) {n : ℕ} (path : List Char) (senders : Entries n) :
    Ends 0 (entriesStore o path senders) 0 := ⟨rfl, trivial, rfl, rfl⟩

theorem ends_entriesLoad (o : Bytes.ByteOrder) (n : ℕ) (path : List Char)
    (count : Option Memory) (senders : Option Unit) :
    Ends 0 (entriesLoad o n path count senders) 0 := by
  cases count with
  | none => rfl
  | some count =>
      cases senders with
      | none => rfl
      | some senders =>
          simp only [entriesLoad, Ends, if_true, Bool.false_eq_true, if_false, true_and]
          intro file
          cases Files.entriesLoad o n count file with
          | none => simp [Ends]
          | some loaded => simp [Ends]

theorem ends_getMonitoredPorts (stale : ℕ → UInt16) : Ends 0 (getMonitoredPorts stale) 1 := by
  simp [getMonitoredPorts, Ends]

/-! ## The routines -/

/-- The routines of the ICD that use files. The unicast build has no `si_routine`. -/
inductive Routine where
  | portsRoutine
  | asRoutine
  | pbRoutine
  | siRoutine
  deriving DecidableEq

def routines : Finset Routine := {.portsRoutine, .asRoutine, .pbRoutine, .siRoutine}

theorem mem_routines (r : Routine) : r ∈ routines := by
  cases r <;> decide

instance : Fintype Routine := ⟨routines, mem_routines⟩

/-- The sender interfaces that a pass of `si_routine` stores. -/
def SiInput : Build → Type
  | .unicast => Empty
  | .multicast => Entries senderIfacesSize

/-- What a pass depends on beside its files: the contents of the stack, the peerbases that are
stored with the SNSIDs in their paths, and the entries that are stored. -/
def Input (build : Build) : Routine → Type
  | .portsRoutine => ℕ → UInt16
  | .asRoutine => Memory
  | .pbRoutine => List (Snsid × Vector UInt8 (peerbaseSize build))
  | .siRoutine => SiInput build

theorem noEntries_length_lt : ([] : List ℕ).length < 2 ^ 31 := by norm_num

def noEntries (n : ℕ) : Entries n := ⟨[], noEntries_length_lt⟩

def startup (t : Target) : Routine → Prog Unit
  | .asRoutine => activesendersStore t iprpAsFile (noEntries _)
  | .siRoutine =>
      match t.build with
      | .unicast => .done ()
      | .multicast => senderifacesStore t.order iprpSiFile (noEntries _)
  | _ => .done ()

def portsPass (stale : ℕ → UInt16) : Prog Unit :=
  (getMonitoredPorts stale).bind fun _ => .done ()

def asPass (t : Target) (count : Memory) : Prog Unit :=
  (activesendersLoad t iprpAsFile (some count) (some ())).bind fun loaded =>
    if loaded.1 ≠ 0 then .exit else .done ()

def pbPass {n : ℕ} : List (Snsid × Vector UInt8 n) → Prog Unit
  | [] => .done ()
  | (snsid, base) :: bases =>
      (peerbaseStore (some (Icd.peerbasePath snsid)) (some base)).bind fun err =>
        if err ≠ 0 then .exit else pbPass bases

def siPass (o : Bytes.ByteOrder) : (build : Build) → SiInput build → Prog Unit
  | .unicast, entries => nomatch entries
  | .multicast, entries => senderifacesStore o iprpSiFile entries

def pass (t : Target) : (r : Routine) → Input t.build r → Prog Unit
  | .portsRoutine, stale => portsPass stale
  | .asRoutine, count => asPass t count
  | .pbRoutine, bases => pbPass bases
  | .siRoutine, entries => siPass t.order t.build entries

def daemon (t : Target) : Daemon Routine := ⟨Input t.build, startup t, pass t⟩

/-- What a pass leaves open. -/
def leaves : Routine → ℕ
  | .portsRoutine => 1
  | _ => 0

theorem ends_pbPass {n : ℕ} (bases : List (Snsid × Vector UInt8 n)) :
    Ends 0 (pbPass bases) 0 := by
  induction bases with
  | nil => rfl
  | cons p bases ih =>
      refine (ends_peerbaseStore _ _).bind fun err => ?_
      split
      · trivial
      · exact ih

theorem leaving (t : Target) : Leaving (daemon t) leaves := by
  refine ⟨?_, ?_⟩
  · intro r
    cases r with
    | portsRoutine => rfl
    | asRoutine => exact ends_entriesStore ..
    | pbRoutine => rfl
    | siRoutine =>
        obtain ⟨build, o⟩ := t
        cases build with
        | unicast => rfl
        | multicast => exact ends_entriesStore ..
  · intro r input
    cases r with
    | portsRoutine => exact (ends_getMonitoredPorts input).bind fun _ => rfl
    | asRoutine =>
        refine (ends_entriesLoad ..).bind fun loaded => ?_
        split
        · trivial
        · rfl
    | pbRoutine => exact ends_pbPass input
    | siRoutine =>
        obtain ⟨build, o⟩ := t
        cases build with
        | unicast => cases input
        | multicast => exact ends_entriesStore ..

/-! ## Every interleaving -/

theorem kept_iff_completed {t : Target} {limit base : ℕ} {es : List (Event (daemon t))}
    {s : State Routine} (h : run (daemon t) limit base es = some s) :
    Kept base s ↔ completed .portsRoutine es s = 0 := by
  rw [(invariant_run (leaving t) h).kept_iff]
  constructor
  · intro hall
    simpa [leaves] using hall .portsRoutine
  · intro hports r
    cases r with
    | portsRoutine => rw [hports, Nat.mul_zero]
    | _ => exact Nat.zero_mul _

/-- For all files and in every interleaving of the calls of the four routines: only passes under
way have streams open, and no call of `fopen` finds the descriptors used up by passes that are
over, in every state that is reached, if and only if no pass of `ports_routine` is ever over.
Between passes there is one stream more for each pass that `ports_routine` has made. -/
theorem streams_kept_iff (t : Target) (limit base : ℕ) (es : List (Event (daemon t))) :
    ((∀ k s, run (daemon t) limit base (es.take k) = some s → Kept base s) ↔
        ∀ k s, run (daemon t) limit base (es.take k) = some s →
          completed .portsRoutine (es.take k) s = 0) ∧
      ∀ s, run (daemon t) limit base es = some s → (∀ r, s.between r = true) →
        s.openStreams = base + begun .portsRoutine es := by
  refine ⟨?_, ?_⟩
  · refine forall_congr' fun k => forall_congr' fun s => forall_congr' fun h => ?_
    exact kept_iff_completed h
  · intro s h hbetween
    have hleft : ∑ r, leaves r * completed r es s = begun .portsRoutine es := by
      rw [Finset.sum_eq_single .portsRoutine]
      · rw [leaves, Nat.one_mul, completed, if_pos (hbetween .portsRoutine), Nat.sub_zero]
      · intro r _ hne
        cases r with
        | portsRoutine => exact absurd rfl hne
        | _ => exact Nat.zero_mul _
      · exact fun hnone => absurd (Finset.mem_univ _) hnone
    rw [(invariant_run (leaving t) h).openStreams_eq, hleft]
    simp [hbetween]

/-- One pass over an empty file: the stream stays open. -/
theorem open_stream_left :
    ¬ ∀ (t : Target) (limit base : ℕ) (es : List (Event (daemon t))) (k : ℕ) (s : State Routine),
      run (daemon t) limit base (es.take k) = some s → Kept base s := by
  intro h
  let t : Target := ⟨.unicast, .little⟩
  let es : List (Event (daemon t)) :=
    [.begin .portsRoutine fun _ => 0, .call .portsRoutine ⟨true, []⟩,
      .call .portsRoutine ⟨true, []⟩]
  have hran : ∃ s, run (daemon t) 1024 3 (es.take 3) = some s ∧ s.between .portsRoutine = true :=
    ⟨_, rfl, rfl⟩
  obtain ⟨s, hrun, hbetween⟩ := hran
  have hcompleted := (kept_iff_completed hrun).1 (h t 1024 3 es 3 s hrun)
  rw [completed, if_pos hbetween] at hcompleted
  cases hcompleted

end Iprp.OpenFiles
