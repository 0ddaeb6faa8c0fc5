import Iprp.Icd.Announce
import Iprp.Ird.Handle
import Mathlib.Data.List.Pairwise

/-!
# Incarnations of a flow

A flow has one base after the other: bases expire and are created again, and the ICD can be
restarted at any point. What tells the incarnations apart at a receiver is the last part of
their SNSIDs, the reboot counter. It lies in the memory of the ICD, starts at zero in every
process and has sixteen bits, so it is the number of bases that the process has created
before, modulo `2 ^ 16` (`serials_run`). Two bases of one source get different SNSIDs exactly
if these numbers differ (`snsids_unique_iff`).
-/

namespace Iprp.Session

open Bytes KeyedList Icd

/-- An event of an ICD process, or the end of the process and the start of another. -/
inductive LifeEvent where
  | icd (e : Event)
  | restart

/-- The ICD over several processes, with the links of all bases ever created, in the order
of their creation. Each comes with the number of bases that its process had created
before. -/
structure Life extends State where
  created : List (Link × ℕ)
  /-- The number of bases created by the running process. -/
  serial : ℕ

def Life.init : Life := ⟨State.init, [], 0⟩

/-- The base that an event creates. -/
def newBase (c : Config) (s : Control) (e : Event) : Option IcdBase :=
  match e.action with
  | .cap heap msg =>
      match peerbaseQuery msg s.peerbases with
      | some _ => none
      | none =>
          if indMatch c.this.toHost msg.inds ≠ 0 then
            createBase c e.currTime heap msg (indMatch c.this.toHost msg.inds) s
          else none
  | .pbStart => none
  | .pbIteration _ => none

/-- A new process starts from the initial state of the memory; files, rules and the ISDs
stay. -/
def restart (s : State) : State := { s with toControl := Control.init, iterator := none }

def lifeStep (c : Config) (s : Life) (e : LifeEvent) : Option Life :=
  match e with
  | .icd e =>
      (step c s.toState e).map fun s' =>
        match newBase c s.toControl e with
        | some base =>
            { s' with created := s.created ++ [(base.link, s.serial)], serial := s.serial + 1 }
        | none => { s' with created := s.created, serial := s.serial }
  | .restart => some { restart s.toState with created := s.created, serial := 0 }

def lifeRun (c : Config) (es : List LifeEvent) : Option Life :=
  Run.runFrom (lifeStep c) Life.init es

/-! ## Reboot counter and serial number -/

/-- The reboot counter is the serial number, and so is the one in the SNSID of every base
ever created. -/
structure Serials (c : Config) (s : Life) : Prop where
  counter : s.rebootCounter = UInt16.ofNat s.serial
  snsid : ∀ p ∈ s.created, p.1.snsid =
    Icd.snsid c.target.order p.1.srcAddr p.1.srcPort (UInt16.ofNat p.2)
  listed : ∀ base ∈ s.peerbases, base.link ∈ s.created.map Prod.fst

theorem newBase_cases {c : Config} {s s' : State} {e : Event} (h : step c s e = some s') :
    (∃ base heap msg, newBase c s.toControl e = some base ∧
      createBase c e.currTime heap msg (indMatch c.this.toHost msg.inds) s.toControl =
        some base ∧
      s'.peerbases = s.peerbases ++ [base] ∧ s'.rebootCounter = s.rebootCounter + 1) ∨
    newBase c s.toControl e = none ∧ s'.rebootCounter = s.rebootCounter ∧
      List.Sublist (s'.peerbases.map IcdBase.link) (s.peerbases.map IcdBase.link) := by
  rcases step_map_cases (g := IcdBase.link) (fun _ _ _ => rfl) (fun _ _ => rfl) h with
    ⟨heap, msg, base, he, hnone, hmatch, hbase, hbases, hcounter⟩ | ⟨hnot, hcounter, hsub⟩
  · left
    refine ⟨base, heap, msg, ?_, hbase, hbases, hcounter⟩
    simp only [newBase, he, peerbaseQuery, hnone]
    rw [if_pos hmatch, hbase]
  · refine Or.inr ⟨?_, hcounter, hsub⟩
    unfold newBase peerbaseQuery
    split
    · next heap msg he =>
        split
        · rfl
        · next hnone => rw [if_neg (not_not.2 (hnot heap msg he hnone))]
    · rfl
    · rfl

theorem serials_step {c : Config} {s s' : Life} {e : LifeEvent} (hs : Serials c s)
    (h : lifeStep c s e = some s') : Serials c s' := by
  cases e with
  | restart =>
      obtain rfl := Option.some.inj h
      exact ⟨rfl, hs.snsid, fun base hbase => by cases hbase⟩
  | icd e =>
      obtain ⟨t, ht, heq⟩ := Option.map_eq_some_iff.1 h
      rcases newBase_cases ht with
        ⟨base, heap, msg, hnew, hbase, hbases, hcounter⟩ | ⟨hnew, hcounter, hlinks⟩
      · simp only [hnew] at heq
        obtain rfl := heq
        obtain ⟨hlink, _⟩ := createBase_fields hbase
        refine ⟨?_, ?_, ?_⟩
        · rw [hcounter, hs.counter, UInt16.ofNat_add]
          rfl
        · intro p hp
          rcases List.mem_append.1 hp with hp | hp
          · exact hs.snsid p hp
          · obtain rfl := List.mem_singleton.1 hp
            rw [hlink, hs.counter]
        · intro base' hbase'
          rw [List.map_append, List.mem_append]
          rw [hbases, List.mem_append, List.mem_singleton] at hbase'
          rcases hbase' with hold | rfl
          · exact Or.inl (hs.listed base' hold)
          · exact Or.inr (List.mem_singleton.2 rfl)
      · simp only [hnew] at heq
        obtain rfl := heq
        refine ⟨by rw [hcounter, hs.counter], hs.snsid, ?_⟩
        intro base hbase
        have hmem := hlinks.subset (List.mem_map_of_mem hbase)
        obtain ⟨base', hbase', hlink⟩ := List.mem_map.1 hmem
        rw [← hlink]
        exact hs.listed base' hbase'

theorem serials_run {c : Config} {es : List LifeEvent} {s : Life}
    (h : lifeRun c es = some s) : Serials c s := by
  refine Run.runFrom_preserved (Serials c) (fun s e s' hs hstep => serials_step hs hstep) ?_ h
  exact ⟨rfl, fun p hp => (by cases hp), fun base hbase => (by cases hbase)⟩

/-! ## Different incarnations -/

def SameSource (old new : Link) : Prop :=
  old.srcAddr = new.srcAddr ∧ old.srcPort = new.srcPort

/-- Whatever links an IRD holds, it never judges a packet of the new base by the link of the
old one. -/
def KeptApart (old new : Link) : Prop :=
  ∀ receiverLinks (header : IprpHeader) link, header.snsid = new.snsid →
    Ird.receiverLinkGet receiverLinks header = some link → link.snsid ≠ old.snsid

theorem keptApart_of_ne {old new : Link} (h : old.snsid ≠ new.snsid) : KeptApart old new := by
  intro receiverLinks header link hheader hlink hold
  have hkey : link.snsid = header.snsid := key_of_lookup hlink
  exact h (hold.symm.trans (hkey.trans hheader))

theorem snsid_eq_iff (o : ByteOrder) (srcAddr : InAddr) (srcPort m n : UInt16) :
    Icd.snsid o srcAddr srcPort m = Icd.snsid o srcAddr srcPort n ↔ m = n := by
  constructor
  · intro h
    have hlist := congrArg Vector.toList h
    rw [toList_snsid, toList_snsid] at hlist
    have hdecode := congrArg (decode o) (List.append_cancel_left hlist)
    rw [decode_encode o m.toNat_lt, decode_encode o n.toNat_lt] at hdecode
    exact UInt16.toNat_inj.1 hdecode
  · rintro rfl
    rfl

/-- For every run with any creations, expirations and restarts: no two bases ever created for
the same source address and port get the same SNSID, and no receiver judges packets of one by
the link of an earlier one, if and only if the numbers of bases that their processes had
created before differ modulo `2 ^ 16`. -/
theorem snsids_unique_iff (c : Config) (es : List LifeEvent) :
    (∀ s, lifeRun c es = some s → s.created.Pairwise fun old new =>
      SameSource old.1 new.1 → old.1.snsid ≠ new.1.snsid ∧ KeptApart old.1 new.1) ↔
    ∀ s, lifeRun c es = some s → s.created.Pairwise fun old new =>
      SameSource old.1 new.1 → old.2 % 65536 ≠ new.2 % 65536 := by
  have hpair : ∀ s, lifeRun c es = some s → ∀ {old new : Link × ℕ}, old ∈ s.created →
      new ∈ s.created → SameSource old.1 new.1 →
      (old.1.snsid ≠ new.1.snsid ↔ old.2 % 65536 ≠ new.2 % 65536) := by
    intro s hs old new hold hnew hsame
    have hserials := serials_run hs
    rw [not_iff_not, hserials.snsid old hold, hserials.snsid new hnew, hsame.1, hsame.2,
      snsid_eq_iff, ← UInt16.toNat_inj]
    simp only [UInt16.toNat_ofNat']
  constructor
  · intro h s hs
    refine (h s hs).imp_of_mem ?_
    intro old new hold hnew hapart hsame
    exact (hpair s hs hold hnew hsame).1 (hapart hsame).1
  · intro h s hs
    refine (h s hs).imp_of_mem ?_
    intro old new hold hnew hserial hsame
    have hne := (hpair s hs hold hnew hsame).2 (hserial hsame)
    exact ⟨hne, keptApart_of_ne hne⟩

/-- A base created before a restart and one created after it. -/
theorem snsid_reused :
    ¬ ∀ (c : Config) (es : List LifeEvent) (s : Life), lifeRun c es = some s →
      s.created.Pairwise fun old new => SameSource old.1 new.1 →
        old.1.snsid ≠ new.1.snsid ∧ KeptApart old.1 new.1 := by
  intro h
  have hcreated : (lifeRun (smallConfig .unicast) [.icd ⟨0, .cap smallHeap smallCap⟩,
      .restart, .icd ⟨9, .cap smallHeap smallCap⟩]).map (fun s => s.created.map Prod.fst) =
      some (List.replicate 2 ⟨inAddr 10 0 0 1, inAddr 10 0 0 2, 4000, 5000,
        Icd.snsid .little (inAddr 10 0 0 1) 4000 0⟩) := by
    decide +kernel
  obtain ⟨s, hs, hlinks⟩ := Option.map_eq_some_iff.1 hcreated
  have hpairwise := (h _ _ s hs).imp (S := fun old new : Link × ℕ => old.1 ≠ new.1) (by
    rintro old new hapart heq
    exact (hapart ⟨by rw [heq], by rw [heq]⟩).1 (by rw [heq]))
  rw [← List.pairwise_map, hlinks] at hpairwise
  simp at hpairwise

end Iprp.Session
