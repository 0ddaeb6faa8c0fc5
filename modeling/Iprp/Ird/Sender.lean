import Iprp.Ird.Links
import Mathlib.Data.List.Induction

/-!
# The IRD as a family of one-sender receivers

Seen from one SNSID, the IRD is a small machine of its own: it holds at most one link,
judges the packets of that SNSID and loses an expired link when the cleanup pass examines
it. `senderOf x s` is this view of the state `s`, and every action of the IRD is, for `x`,
either one action of the machine or nothing (`step_senderOf`). A whole run is then a run
of the machine on the packets of `x` (`run_senderOf`), so what is proved of one sender
holds of each sender among any number of others.
-/

namespace Iprp.Ird

open KeyedList

/-- What the IRD keeps about one SNSID. -/
structure Sender where
  link : Option ReceiverLink
  verdicts : List (UInt32 × Bool)

inductive SenderAction where
  | packet (header : IprpHeader)
  /-- The cleanup pass examines the link. -/
  | examine

structure SenderEvent where
  currTime : ℤ
  action : SenderAction

def senderStep (o : Bytes.ByteOrder) (σ : Sender) (e : SenderEvent) : Option Sender :=
  match e.action with
  | .packet header =>
      match σ.link with
      | none =>
          some ⟨some (receiverLinkCreate o e.currTime header),
            σ.verdicts ++ [(header.seqNb, true)]⟩
      | some link =>
          (isFreshPacket header.seqNb { link with lastSeen := e.currTime }).map
            fun (fresh, link') => ⟨some link', σ.verdicts ++ [(header.seqNb, fresh)]⟩
  | .examine => some { σ with link := σ.link.filter fun link => !expired e.currTime link }

def senderRun (o : Bytes.ByteOrder) (es : List SenderEvent) : Option Sender :=
  Run.runFrom (senderStep o) ⟨none, []⟩ es

/-- The verdicts given to the packets of `x`. -/
def verdictsOf (x : Snsid) (verdicts : List Verdict) : List (UInt32 × Bool) :=
  verdicts.filterMap fun v => if v.snsid = x then some (v.seqNb, v.fresh) else none

/-- The view that `x` has of the IRD. -/
def senderOf (x : Snsid) (s : State) : Sender :=
  ⟨lookup ReceiverLink.snsid x s.receiverLinks, verdictsOf x s.verdicts⟩

/-- What an action in the state `s` is for `x`. -/
def viewOf (x : Snsid) (s : State) (e : Event) : Option SenderEvent :=
  match e.action with
  | .packet header =>
      if header.snsid = x then some ⟨e.currTime, .packet header⟩ else none
  | .cleanupStart => none
  | .cleanupIteration =>
      if (s.examined.map ReceiverLink.snsid) = some x then some ⟨e.currTime, .examine⟩
      else none

/-- The packets of `x` in a run, with the times at which they are handled. -/
def packetsOf (x : Snsid) (es : List Event) : List (ℤ × IprpHeader) :=
  es.filterMap fun e =>
    match e.action with
    | .packet header => if header.snsid = x then some (e.currTime, header) else none
    | .cleanupStart => none
    | .cleanupIteration => none

def senderPackets (es : List SenderEvent) : List (ℤ × IprpHeader) :=
  es.filterMap fun e =>
    match e.action with
    | .packet header => some (e.currTime, header)
    | .examine => none

@[simp] theorem verdictsOf_append_same (x : Snsid) (verdicts : List Verdict) (n : UInt32)
    (fresh : Bool) :
    verdictsOf x (verdicts ++ [⟨x, n, fresh⟩]) = verdictsOf x verdicts ++ [(n, fresh)] := by
  simp [verdictsOf]

theorem verdictsOf_append_of_ne {x y : Snsid} (hxy : y ≠ x) (verdicts : List Verdict)
    (n : UInt32) (fresh : Bool) :
    verdictsOf x (verdicts ++ [⟨y, n, fresh⟩]) = verdictsOf x verdicts := by
  simp [verdictsOf, hxy]

theorem mem_verdictsOf {x : Snsid} {n : UInt32} {fresh : Bool} {verdicts : List Verdict} :
    (n, fresh) ∈ verdictsOf x verdicts ↔ ⟨x, n, fresh⟩ ∈ verdicts := by
  simp only [verdictsOf, List.mem_filterMap]
  constructor
  · rintro ⟨v, hv, hx⟩
    split at hx
    · next heq =>
        cases hx
        rwa [← heq]
    · cases hx
  · intro hv
    exact ⟨⟨x, n, fresh⟩, hv, if_pos rfl⟩

theorem count_verdictsOf (x : Snsid) (n : UInt32) (fresh : Bool) (verdicts : List Verdict) :
    (verdictsOf x verdicts).count (n, fresh) = verdicts.count ⟨x, n, fresh⟩ := by
  induction verdicts with
  | nil => rfl
  | cons v verdicts ih =>
      obtain ⟨y, m, fresh'⟩ := v
      rw [List.count_cons, ← ih, verdictsOf, List.filterMap_cons]
      by_cases hx : y = x
      · rw [if_pos hx, List.count_cons]
        congr 1
        simp [hx]
      · rw [if_neg hx]
        simp [verdictsOf, hx]

/-! ## Simulation -/

theorem packetStep_senderOf {o : Bytes.ByteOrder} {currTime : ℤ} {header : IprpHeader}
    {s s' : State} (h : packetStep o currTime header s = some s') :
    senderStep o (senderOf header.snsid s) ⟨currTime, .packet header⟩ =
      some (senderOf header.snsid s') := by
  rcases packetStep_cases h with ⟨hnone, rfl⟩ | ⟨link, fresh, link', hlink, hfresh, rfl⟩
  · have hnew : lookup ReceiverLink.snsid header.snsid
        (s.receiverLinks ++ [receiverLinkCreate o currTime header]) =
        some (receiverLinkCreate o currTime header) := by
      rw [lookup_append_singleton, hnone, Option.none_or]
      exact if_pos rfl
    simp [senderStep, senderOf, hnone, hnew]
  · have hkey : ∀ a, lookup ReceiverLink.snsid header.snsid s.receiverLinks = some a →
        link'.snsid = a.snsid := by
      intro a ha
      rw [hlink] at ha
      rw [isFreshPacket_snsid hfresh, Option.some.inj ha]
    have hnew : lookup ReceiverLink.snsid header.snsid
        (update ReceiverLink.snsid header.snsid (fun _ => link') s.receiverLinks) =
        some link' := by
      rw [lookup_update_same hkey, hlink, Option.map_some]
    simp [senderStep, senderOf, hlink, hfresh, hnew]

theorem packetStep_senderOf_of_ne {o : Bytes.ByteOrder} {currTime : ℤ}
    {header : IprpHeader} {s s' : State} {x : Snsid} (hx : header.snsid ≠ x)
    (h : packetStep o currTime header s = some s') : senderOf x s' = senderOf x s := by
  rcases packetStep_cases h with ⟨_, rfl⟩ | ⟨link, fresh, link', hlink, hfresh, rfl⟩
  · have hlookup : lookup ReceiverLink.snsid x
        (s.receiverLinks ++ [receiverLinkCreate o currTime header]) =
        lookup ReceiverLink.snsid x s.receiverLinks := by
      rw [lookup_append_singleton, if_neg (by exact hx), Option.or_none]
    simp only [senderOf, hlookup, verdictsOf_append_of_ne hx]
  · have hlookup : lookup ReceiverLink.snsid x
        (update ReceiverLink.snsid header.snsid (fun _ => link') s.receiverLinks) =
        lookup ReceiverLink.snsid x s.receiverLinks := by
      refine lookup_update_of_ne ?_ hx.symm
      intro a ha
      rw [hlink] at ha
      rw [isFreshPacket_snsid hfresh, Option.some.inj ha]
    simp only [senderOf, hlookup, verdictsOf_append_of_ne hx]

theorem cleanupIteration_senderOf {s : State} (currTime : ℤ)
    (hs : UniqueKeys ReceiverLink.snsid s.receiverLinks) {link : ReceiverLink}
    (hlink : s.examined = some link) (o : Bytes.ByteOrder) :
    senderStep o (senderOf link.snsid s) ⟨currTime, .examine⟩ =
      some (senderOf link.snsid (cleanupIteration currTime s)) := by
  have hlookup := lookup_of_mem hs (mem_of_examined hlink)
  rcases cleanupIteration_cases currTime s with
    ⟨iterator, heq, hgood⟩ | ⟨i, link', iterator, hi, hexam, hexp, heq⟩
  · have hlive : expired currTime link = false := by simpa using hgood link hlink
    rw [heq]
    simp [senderStep, senderOf, hlookup, hlive]
  · obtain rfl : link' = link := Option.some.inj (hexam.symm.trans hlink)
    rw [heq]
    simp [senderStep, senderOf, hlookup, hexp, lookup_eraseIdx_same hs hi]

theorem cleanupIteration_senderOf_of_ne {s : State} (currTime : ℤ) {x : Snsid}
    (hx : s.examined.map ReceiverLink.snsid ≠ some x) :
    senderOf x (cleanupIteration currTime s) = senderOf x s := by
  rcases cleanupIteration_cases currTime s with
    ⟨iterator, heq, _⟩ | ⟨i, link, iterator, hi, hexam, _, heq⟩
  · rw [heq]
    rfl
  · have hne : link.snsid ≠ x := by
      intro h
      rw [hexam, Option.map_some, h] at hx
      exact hx rfl
    rw [heq]
    simp only [senderOf, lookup_eraseIdx_of_ne hi hne]

/-- Every action of the IRD is for `x` one action of its own machine or nothing. -/
theorem step_senderOf {o : Bytes.ByteOrder} {s s' : State} {e : Event}
    (hs : UniqueKeys ReceiverLink.snsid s.receiverLinks) (h : step o s e = some s')
    (x : Snsid) :
    Run.runFrom (senderStep o) (senderOf x s) (viewOf x s e).toList =
      some (senderOf x s') := by
  obtain ⟨currTime, action⟩ := e
  cases action with
  | packet header =>
      by_cases hx : header.snsid = x
      · subst hx
        simpa [viewOf] using packetStep_senderOf h
      · simpa [viewOf, hx] using (packetStep_senderOf_of_ne hx h).symm
  | cleanupStart =>
      obtain ⟨iterator, heq⟩ := cleanupStart_eq s
      obtain rfl := Option.some.inj h
      rw [heq]
      rfl
  | cleanupIteration =>
      obtain rfl := Option.some.inj h
      by_cases hx : s.examined.map ReceiverLink.snsid = some x
      · obtain ⟨link, hlink, rfl⟩ := Option.map_eq_some_iff.1 hx
        simpa [viewOf, hx] using cleanupIteration_senderOf currTime hs hlink o
      · simpa [viewOf, hx] using (cleanupIteration_senderOf_of_ne currTime hx).symm

/-- A packet has a defined result when the machine of its sender has one. -/
theorem packetStep_defined {o : Bytes.ByteOrder} {currTime : ℤ} {header : IprpHeader}
    {s : State} {σ : Sender}
    (h : senderStep o (senderOf header.snsid s) ⟨currTime, .packet header⟩ = some σ) :
    ∃ s', packetStep o currTime header s = some s' := by
  unfold packetStep judgePacket receiverLinkGet
  cases hlink : lookup ReceiverLink.snsid header.snsid s.receiverLinks with
  | none => exact ⟨_, rfl⟩
  | some link =>
      simp only [senderStep, senderOf, hlink] at h
      obtain ⟨r, hr, _⟩ := Option.map_eq_some_iff.1 h
      simp only [hr, Option.map_some]
      exact ⟨_, rfl⟩

/-! ## Runs -/

/-- The events `xs` are what the run `es` is for `x`: the same packets at the same
times, and examinations at times of the run. -/
structure Projects (x : Snsid) (es : List Event) (xs : List SenderEvent) : Prop where
  packets : senderPackets xs = packetsOf x es
  times : (xs.map SenderEvent.currTime).Sublist (es.map Event.currTime)

theorem Projects.step {x : Snsid} {es : List Event} {xs : List SenderEvent} {s : State}
    {e : Event} (h : Projects x es xs) :
    Projects x (es ++ [e]) (xs ++ (viewOf x s e).toList) := by
  obtain ⟨currTime, action⟩ := e
  refine ⟨?_, ?_⟩
  · simp only [senderPackets, packetsOf, List.filterMap_append]
    refine congrArg₂ _ h.packets ?_
    cases action with
    | packet header =>
        by_cases hx : header.snsid = x
        · simp [viewOf, hx]
        · simp [viewOf, hx]
    | cleanupStart => rfl
    | cleanupIteration =>
        unfold viewOf
        dsimp only
        split
        · rfl
        · rfl
  · rw [List.map_append, List.map_append]
    refine h.times.append ?_
    have hview : ∀ e' ∈ viewOf x s ⟨currTime, action⟩, e'.currTime = currTime := by
      intro e' he'
      unfold viewOf at he'
      dsimp only at he'
      split at he'
      · split at he'
        · cases he'
          rfl
        · cases he'
      · cases he'
      · split at he'
        · cases he'
          rfl
        · cases he'
    cases hv : viewOf x s ⟨currTime, action⟩ with
    | none => exact List.nil_sublist _
    | some e' =>
        rw [Option.toList_some, List.map_singleton, hview e' hv]
        exact List.Sublist.refl _

/-- A run of the IRD is defined as soon as every sender but `x` stays in the range where
its steps are, and the machine of `x` is defined on every projection. It then is, for
`x`, a run of that machine. -/
theorem run_senderOf (o : Bytes.ByteOrder) (x : Snsid) (es : List Event)
    (hothers : ∀ s, ∀ e ∈ es, ∀ header, e.action = .packet header → header.snsid ≠ x →
      ∃ s', packetStep o e.currTime header s = some s')
    (hx : ∀ k xs, Projects x (es.take k) xs → ∃ σ, senderRun o xs = some σ) :
    ∃ s xs, run o es = some s ∧ UniqueKeys ReceiverLink.snsid s.receiverLinks ∧
      Projects x es xs ∧ senderRun o xs = some (senderOf x s) := by
  induction es using List.reverseRecOn with
  | nil => exact ⟨init, [], rfl, uniqueKeys_nil _, ⟨rfl, List.Sublist.refl _⟩, rfl⟩
  | append_singleton es e ih =>
      have hpre : ∀ k xs, Projects x (es.take k) xs → ∃ σ, senderRun o xs = some σ := by
        intro k xs hxs
        apply hx (min k es.length) xs
        rwa [List.take_append_of_le_length (Nat.min_le_right _ _), ← List.take_eq_take_min]
      obtain ⟨s, xs, hrun, hunique, hproj, hsender⟩ :=
        ih (fun s e' he' => hothers s e' (List.mem_append_left _ he')) hpre
      have hdef : ∃ s', step o s e = some s' := by
        obtain ⟨currTime, action⟩ := e
        cases action with
        | packet header =>
            by_cases hsn : header.snsid = x
            · subst hsn
              obtain ⟨σ, hσ⟩ := hx (es.length + 1)
                (xs ++ (viewOf header.snsid s ⟨currTime, .packet header⟩).toList)
                (by
                  rw [List.take_of_length_le (by simp)]
                  exact hproj.step)
              rw [senderRun, Run.runFrom_append] at hσ
              unfold senderRun at hsender
              rw [hsender, Option.bind_some] at hσ
              simp only [viewOf, if_true, Option.toList_some, Run.runFrom_singleton] at hσ
              exact packetStep_defined hσ
            · exact hothers s _ (List.mem_append_right _ (List.mem_singleton_self _))
                header rfl hsn
        | cleanupStart => exact ⟨_, rfl⟩
        | cleanupIteration => exact ⟨_, rfl⟩
      obtain ⟨s', hs'⟩ := hdef
      refine ⟨s', xs ++ (viewOf x s e).toList, ?_, uniqueKeys_step hunique hs',
        hproj.step, ?_⟩
      · exact Run.runFrom_append_singleton_eq_some.2 ⟨s, hrun, hs'⟩
      · unfold senderRun at hsender ⊢
        rw [Run.runFrom_append, hsender, Option.bind_some]
        exact step_senderOf hunique hs' x

end Iprp.Ird
