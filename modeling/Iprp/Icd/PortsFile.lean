import Iprp.Icd.Ports
import Iprp.Library.Scanf

/-!
# The ports file

`get_monitored_ports` of `src/icd/ports.c` scans up to sixteen numbers from the ports file. It
asks `fscanf` for the end of the file only: where the file has something else than a number,
nothing is stored and the loop goes on to the next place of its array. So the ports are those of
the file if and only if no such place is met (`parsesFile_iff`); otherwise the array ends up with
places that hold what the stack held before, and any port can be monitored
(`stale_port_monitored`).
-/

namespace Iprp.Icd

open Scanf

def iprpMaxMonitoredPorts : ℕ := 16

/-- Read file into ports table: the places that become part of the table, when `n` are left. A
place in which nothing was stored is absent. -/
def scanPorts : ℕ → List UInt8 → List (Option UInt16)
  | 0, _ => []
  | n + 1, file =>
      match scanHu file with
      | .eof => []
      | .mismatch rest => none :: scanPorts n rest
      | .stored port rest => some port :: scanPorts n rest

/-- Reads the monitored ports from the file. What the array held before is `stale`. -/
def getMonitoredPorts (stale : ℕ → UInt16) (file : List UInt8) : List UInt16 :=
  (scanPorts iprpMaxMonitoredPorts file).mapIdx fun i port => port.getD (stale i)

/-- The table that is returned is what the file says, and each place of it was stored. -/
structure ParsesFile (file : List UInt8) : Prop where
  ports : ∀ stale, getMonitoredPorts stale file =
    (leadingRun file).1.take iprpMaxMonitoredPorts
  stored : ∀ port ∈ scanPorts iprpMaxMonitoredPorts file, port.isSome = true

theorem scanPorts_of_run {n : ℕ} {file : List UInt8}
    (h : n ≤ (leadingRun file).1.length ∨ ∀ c ∈ (leadingRun file).2, isSpace c = true) :
    scanPorts n file = ((leadingRun file).1.take n).map some := by
  induction n generalizing file with
  | zero => rfl
  | succ n ih =>
      rw [scanPorts]
      cases hscan : scanHu file with
      | stored port rest =>
          rw [leadingRun_of_stored hscan] at h ⊢
          have hrest : scanPorts n rest = ((leadingRun rest).1.take n).map some :=
            ih (h.imp_left Nat.le_of_succ_le_succ)
          dsimp only
          rw [hrest]
          rfl
      | mismatch rest =>
          rw [leadingRun_of_mismatch hscan] at h
          rcases h with hle | hspace
          · exact absurd hle (Nat.not_succ_le_zero n)
          · rw [scanHu_eq_eof_iff.2 hspace] at hscan
            cases hscan
      | eof =>
          rw [leadingRun_of_eof hscan]
          rfl

theorem none_mem_scanPorts {n : ℕ} {file : List UInt8} (hlt : (leadingRun file).1.length < n)
    (hmore : ¬ ∀ c ∈ (leadingRun file).2, isSpace c = true) : none ∈ scanPorts n file := by
  induction n generalizing file with
  | zero => exact absurd hlt (Nat.not_lt_zero _)
  | succ n ih =>
      rw [scanPorts]
      cases hscan : scanHu file with
      | stored port rest =>
          rw [leadingRun_of_stored hscan] at hlt hmore
          exact List.mem_cons_of_mem _ (ih (Nat.lt_of_succ_lt_succ hlt) hmore)
      | mismatch rest => exact List.mem_cons_self
      | eof =>
          rw [leadingRun_of_eof hscan] at hmore
          exact absurd (scanHu_eq_eof_iff.1 hscan) hmore

/-- For every file: the ports returned are exactly the first sixteen numbers of its leading run,
if and only if there are so many or only white space comes after them. -/
theorem parsesFile_iff (file : List UInt8) :
    ParsesFile file ↔ iprpMaxMonitoredPorts ≤ (leadingRun file).1.length ∨
      ∀ c ∈ (leadingRun file).2, isSpace c = true := by
  constructor
  · intro h
    by_contra hnot
    rw [not_or, Nat.not_le] at hnot
    exact absurd (h.stored none (none_mem_scanPorts hnot.1 hnot.2)) Bool.false_ne_true
  · intro h
    have hscanned := scanPorts_of_run h
    refine ⟨?_, ?_⟩
    · intro stale
      rw [getMonitoredPorts, hscanned]
      apply List.ext_getElem
      · simp
      · intro i hi hi'
        simp
    · intro port hport
      rw [hscanned] at hport
      obtain ⟨value, -, rfl⟩ := List.mem_map.1 hport
      rfl

/-- A file with a comma: `5000,5001`. -/
theorem comma_fills_table :
    ¬ ∀ file, ParsesFile file := by
  intro h
  have hstored := (h [53, 48, 48, 48, 44, 53, 48, 48, 49]).stored none (by decide)
  exact absurd hstored Bool.false_ne_true

/-! ## The ports that are monitored -/

/-- After a pass on a file that is parsed the ports of the file are monitored. -/
theorem mem_monitoredPorts_of_file (kernel : Kernel) (queues : RecvQueues)
    (tables : List (List UInt16)) (stale : ℕ → UInt16) {file : List UInt8}
    (h : ParsesFile file) (port : UInt16) :
    port ∈ (portsRun kernel queues (tables ++ [getMonitoredPorts stale file])).monitoredPorts ↔
      port ∈ (leadingRun file).1.take iprpMaxMonitoredPorts := by
  rw [mem_monitoredPorts, List.getLast?_concat, Option.getD_some, h.ports]

/-- After a pass on another file every port is monitored with some contents of the stack. -/
theorem stale_port_monitored (kernel : Kernel) (queues : RecvQueues)
    (tables : List (List UInt16)) {file : List UInt8} (h : ¬ ParsesFile file) (port : UInt16) :
    ∃ stale, port ∈
      (portsRun kernel queues (tables ++ [getMonitoredPorts stale file])).monitoredPorts := by
  rw [parsesFile_iff, not_or, Nat.not_le] at h
  obtain ⟨i, hi, hnone⟩ := List.mem_iff_getElem.1 (none_mem_scanPorts h.1 h.2)
  refine ⟨fun _ => port, ?_⟩
  rw [mem_monitoredPorts, List.getLast?_concat, Option.getD_some, getMonitoredPorts]
  refine List.mem_iff_getElem.2 ⟨i, by rwa [List.length_mapIdx], ?_⟩
  rw [List.getElem_mapIdx, hnone]
  rfl

end Iprp.Icd
