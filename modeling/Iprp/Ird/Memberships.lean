import Iprp.Ird.SenderIfaces

/-!
# Memberships and the sender interfaces file

A pass of `si_routine` brings the memberships of the socket from the entries of the list to
those of the file, if the list still has the interfaces that its entries had in the file read
before, if no membership belongs to two entries, if an address that stays keeps its host address
and if no entry takes over the membership of one further down the list (`Ready`). A pass in
which an entry changes its interfaces leaves the old ones in the list, so it is the next pass
that goes wrong.
-/

namespace Iprp.Ird

open KeyedList

namespace Si

/-- The socket holds what the entries of a list say. -/
def Holds (held : Finset Membership) (entries : List SenderIfaces) : Prop :=
  ∀ m, m ∈ held ↔ ∃ e ∈ entries, m ∈ e.memberships

/-- The two entries have no membership in common. -/
def Apart (e e' : SenderIfaces) : Prop := ∀ m ∈ e.memberships, m ∉ e'.memberships

/-- What a pass needs of the state and of the file that it reads. -/
structure Ready (s : State) (file : SiFile) : Prop where
  /-- The entries of the list are as in the file read before. -/
  upToDate : ∀ c ∈ s.senderIfaces, ∀ n, findSiInArray c s.newSenderIfaces = some n →
    ∀ m, m ∈ n.memberships ↔ m ∈ c.memberships
  /-- No two entries of the file have a membership in common. -/
  apart : ∀ e ∈ file.entries, ∀ e' ∈ file.entries, e.key ≠ e'.key → Apart e e'
  /-- An address that stays in an entry keeps its host address. -/
  hostKept : ∀ c ∈ s.senderIfaces, ∀ n, findSiInArray c file.entries = some n →
    ∀ m ∈ c.memberships, ∀ m' ∈ n.memberships, m.srcAddr = m'.srcAddr → m = m'
  /-- No entry takes over a membership of one further down the list. -/
  order : s.senderIfaces.Pairwise fun c c' =>
    ∀ n, findSiInArray c file.entries = some n → Apart n c'

/-- What holds between the passes: the list has the entries of the file read last, the socket
their memberships, and these belong to one entry each. -/
structure Tracking (s : State) : Prop where
  unique : UniqueKeys SenderIfaces.key s.newSenderIfaces
  uniqueList : UniqueKeys SenderIfaces.key s.senderIfaces
  keys : ∀ k, k ∈ s.senderIfaces.map SenderIfaces.key ↔
    k ∈ s.newSenderIfaces.map SenderIfaces.key
  held : Holds s.held s.newSenderIfaces
  apart : ∀ e ∈ s.newSenderIfaces, ∀ e' ∈ s.newSenderIfaces, e.key ≠ e'.key → Apart e e'

/-! ## Entries -/

theorem map_srcAddr_memberships (si : SenderIfaces) :
    si.memberships.map Membership.srcAddr = si.addrs := by
  have hifaces : ((si.ifaces.toList.zip si.hostAddr.toList).take si.nbIfaces).map Prod.fst =
      si.ifaces.toList.take si.nbIfaces := by
    rw [List.map_take, List.map_fst_zip (by simp)]
  rw [SenderIfaces.memberships, SenderIfaces.addrs, List.map_map, ← hifaces, List.map_map]
  rfl

theorem memberships_nodup (si : SenderIfaces) : si.memberships.Nodup :=
  List.Nodup.of_map Membership.srcAddr (map_srcAddr_memberships si ▸ si.addrs_nodup)

theorem findAddrInSender_iff {addr : InAddr} {si : SenderIfaces} :
    findAddrInSender addr si = true ↔ ∃ m ∈ si.memberships, m.srcAddr = addr := by
  rw [findAddrInSender, List.contains_iff_mem, ← map_srcAddr_memberships, List.mem_map]

theorem not_findAddr_iff {m : Membership} {si : SenderIfaces}
    (hkept : ∀ m' ∈ si.memberships, m.srcAddr = m'.srcAddr → m = m') :
    (!findAddrInSender m.srcAddr si) = true ↔ m ∉ si.memberships := by
  rw [Bool.not_eq_true', ← Bool.not_eq_true, findAddrInSender_iff, not_iff_not]
  constructor
  · rintro ⟨m', hm', hsrc⟩
    exact hkept m' hm' hsrc.symm ▸ hm'
  · intro hm
    exact ⟨m, hm, rfl⟩

theorem addMemberships_spec {e : SenderIfaces} {held : Finset Membership}
    (hfree : ∀ m ∈ e.memberships, m ∉ held) :
    ∃ held', addMemberships e held = some held' ∧
      ∀ m, m ∈ held' ↔ m ∈ held ∨ m ∈ e.memberships :=
  HeldSet.acquireAll_spec (memberships_nodup e) hfree

theorem dropMemberships_spec {c : SenderIfaces} {held : Finset Membership}
    {other : Membership → Prop} (hheld : ∀ m, m ∈ held ↔ other m ∨ m ∈ c.memberships)
    (hold : ∀ m ∈ c.memberships, ¬ other m) :
    ∃ held', dropMemberships c held = some held' ∧ ∀ m, m ∈ held' ↔ other m := by
  obtain ⟨held', hdropped, hiff⟩ := HeldSet.releaseAll_spec (memberships_nodup c)
    fun m hm => (hheld m).2 (Or.inr hm)
  refine ⟨held', hdropped, ?_⟩
  intro m
  have hout := hold m
  rw [hiff, hheld]
  tauto

theorem updateMemberships_spec {c n : SenderIfaces} {held : Finset Membership}
    {other : Membership → Prop} (hheld : ∀ m, m ∈ held ↔ other m ∨ m ∈ c.memberships)
    (hold : ∀ m ∈ c.memberships, ¬ other m) (hnew : ∀ m ∈ n.memberships, ¬ other m)
    (hkept : ∀ m ∈ c.memberships, ∀ m' ∈ n.memberships, m.srcAddr = m'.srcAddr → m = m') :
    ∃ held', updateMemberships c n held = some held' ∧
      ∀ m, m ∈ held' ↔ other m ∨ m ∈ n.memberships := by
  refine HeldSet.replace_spec (memberships_nodup c) (memberships_nodup n) ?_ ?_ hheld ?_
  · intro m hm
    exact not_findAddr_iff (hkept m hm)
  · intro m hm
    exact not_findAddr_iff fun m' hm' hsrc => (hkept m' hm' m hm hsrc.symm).symm
  · rintro m (hm | hm)
    · exact hold m hm
    · exact hnew m hm

/-! ## The phases of a pass -/

/-- What the drop phase needs over the rest of the list, when `other` is what is held besides
the memberships of the rest. -/
structure DropReady (file : SiFile) (other : Membership → Prop) (l : List SenderIfaces) :
    Prop where
  unique : UniqueKeys SenderIfaces.key l
  list : l.Pairwise Apart
  order : l.Pairwise fun c c' => ∀ n, findSiInArray c file.entries = some n → Apart n c'
  kept : ∀ c ∈ l, ∀ n, findSiInArray c file.entries = some n →
    ∀ m ∈ c.memberships, ∀ m' ∈ n.memberships, m.srcAddr = m'.srcAddr → m = m'
  old : ∀ c ∈ l, ∀ m ∈ c.memberships, ¬ other m
  new : ∀ c ∈ l, ∀ n, findSiInArray c file.entries = some n → ∀ m ∈ n.memberships, ¬ other m

theorem DropReady.tail {file : SiFile} {other : Membership → Prop} {c : SenderIfaces}
    {l : List SenderIfaces} (h : DropReady file other (c :: l)) : DropReady file other l where
  unique := (List.nodup_cons.1 h.unique).2
  list := (List.pairwise_cons.1 h.list).2
  order := (List.pairwise_cons.1 h.order).2
  kept c' hc' := h.kept c' (List.mem_cons_of_mem c hc')
  old c' hc' := h.old c' (List.mem_cons_of_mem c hc')
  new c' hc' := h.new c' (List.mem_cons_of_mem c hc')

theorem DropReady.tail_updated {file : SiFile} {other : Membership → Prop} {c n : SenderIfaces}
    {l : List SenderIfaces} (h : DropReady file other (c :: l))
    (hfile : ∀ e ∈ file.entries, ∀ e' ∈ file.entries, e.key ≠ e'.key → Apart e e')
    (hfound : findSiInArray c file.entries = some n) :
    DropReady file (fun m => other m ∨ m ∈ n.memberships) l where
  unique := h.tail.unique
  list := h.tail.list
  order := h.tail.order
  kept := h.tail.kept
  old := by
    rintro c' hc' m hm (hother | hn)
    · exact h.tail.old c' hc' m hm hother
    · exact (List.pairwise_cons.1 h.order).1 c' hc' n hfound m hn hm
  new := by
    rintro c' hc' n' hfound' m hm (hother | hn)
    · exact h.tail.new c' hc' n' hfound' m hm hother
    · have hne : n'.key ≠ n.key := by
        rw [key_of_lookup hfound', key_of_lookup hfound]
        intro hkey
        exact (List.nodup_cons.1 h.unique).1 (hkey ▸ List.mem_map_of_mem hc')
      exact hfile n' (mem_of_lookup hfound') n (mem_of_lookup hfound) hne m hm hn

/-- The drop phase takes what is held from the entries of the list to the file's entries of the
same keys. -/
theorem dropPhase_spec {file : SiFile} {other : Membership → Prop} {l : List SenderIfaces}
    {held : Finset Membership} (h : DropReady file other l)
    (hfile : ∀ e ∈ file.entries, ∀ e' ∈ file.entries, e.key ≠ e'.key → Apart e e')
    (hheld : ∀ m, m ∈ held ↔ other m ∨ ∃ c ∈ l, m ∈ c.memberships) :
    ∃ held', dropPhase file.entries l held =
        some (l.filter fun c => (findSiInArray c file.entries).isSome, held') ∧
      ∀ m, m ∈ held' ↔
        other m ∨ ∃ c ∈ l, ∃ n, findSiInArray c file.entries = some n ∧ m ∈ n.memberships := by
  induction l generalizing held other with
  | nil =>
      refine ⟨held, rfl, ?_⟩
      simpa using hheld
  | cons c l ih =>
      -- what is held besides the memberships of `c`
      have hheldc : ∀ m, m ∈ held ↔
          (other m ∨ ∃ c' ∈ l, m ∈ c'.memberships) ∨ m ∈ c.memberships := by
        intro m
        rw [hheld, List.exists_mem_cons_iff, ← or_assoc, or_right_comm]
      have hold : ∀ m ∈ c.memberships, ¬ (other m ∨ ∃ c' ∈ l, m ∈ c'.memberships) := by
        rintro m hm (hother | ⟨c', hc', hm'⟩)
        · exact h.old c List.mem_cons_self m hm hother
        · exact (List.pairwise_cons.1 h.list).1 c' hc' m hm hm'
      rw [dropPhase]
      cases hfound : findSiInArray c file.entries with
      | none =>
          obtain ⟨held₁, hdropped, hheld₁⟩ := dropMemberships_spec hheldc hold
          obtain ⟨held', hphase, hheld'⟩ := ih h.tail hheld₁
          refine ⟨held', ?_, ?_⟩
          · rw [List.filter_cons_of_neg (by simp [hfound])]
            simp only [hdropped, Option.bind_eq_bind, Option.bind_some, hphase]
          · intro m
            rw [hheld', List.exists_mem_cons_iff, hfound]
            simp
      | some n =>
          have hnew : ∀ m ∈ n.memberships, ¬ (other m ∨ ∃ c' ∈ l, m ∈ c'.memberships) := by
            rintro m hm (hother | ⟨c', hc', hm'⟩)
            · exact h.new c List.mem_cons_self n hfound m hm hother
            · exact (List.pairwise_cons.1 h.order).1 c' hc' n hfound m hm hm'
          obtain ⟨held₁, hupdated, hheld₁⟩ := updateMemberships_spec hheldc hold hnew
            (h.kept c List.mem_cons_self n hfound)
          have hheld₂ : ∀ m, m ∈ held₁ ↔
              (other m ∨ m ∈ n.memberships) ∨ ∃ c' ∈ l, m ∈ c'.memberships := by
            intro m
            rw [hheld₁, or_right_comm]
          obtain ⟨held', hphase, hheld'⟩ := ih (h.tail_updated hfile hfound) hheld₂
          refine ⟨held', ?_, ?_⟩
          · rw [List.filter_cons_of_pos (by simp [hfound])]
            simp only [hupdated, Option.bind_eq_bind, Option.bind_some, hphase]
            rfl
          · intro m
            rw [hheld', List.exists_mem_cons_iff, hfound, or_assoc]
            simp only [Option.some.injEq, exists_eq_left']

theorem addEntry_spec {file : SiFile} {senderIfaces : List SenderIfaces}
    {held : Finset Membership} {e : SenderIfaces} (he : e ∈ file.entries)
    (hfile : ∀ e ∈ file.entries, ∀ e' ∈ file.entries, e.key ≠ e'.key → Apart e e')
    (hnot : e.key ∉ senderIfaces.map SenderIfaces.key)
    (hheld : ∀ m, m ∈ held ↔
      ∃ e ∈ file.entries, e.key ∈ senderIfaces.map SenderIfaces.key ∧ m ∈ e.memberships) :
    ∃ held', addMemberships e held = some held' ∧ ∀ m, m ∈ held' ↔
      ∃ e' ∈ file.entries, e'.key ∈ (senderIfaces ++ [e]).map SenderIfaces.key ∧
        m ∈ e'.memberships := by
  have hfree : ∀ m ∈ e.memberships, m ∉ held := by
    intro m hm hmem
    obtain ⟨e', he', hkey', hm'⟩ := (hheld m).1 hmem
    have hne : e.key ≠ e'.key := fun h => hnot (h ▸ hkey')
    exact hfile e he e' he' hne m hm hm'
  obtain ⟨held', hadded, hheld'⟩ := addMemberships_spec hfree
  refine ⟨held', hadded, ?_⟩
  intro m
  rw [hheld', hheld, List.map_append, List.map_singleton]
  simp only [List.mem_append, List.mem_singleton]
  constructor
  · rintro (⟨e', he', hkey, hm⟩ | hm)
    · exact ⟨e', he', Or.inl hkey, hm⟩
    · exact ⟨e, he, Or.inr rfl, hm⟩
  · rintro ⟨e', he', hkey | hkey, hm⟩
    · exact Or.inl ⟨e', he', hkey, hm⟩
    · have heq : e' = e := List.inj_on_of_nodup_map file.uniqueKeys he' he hkey
      exact Or.inr (heq ▸ hm)

/-- The add phase over some entries of the file: the entries that are not in the list are
appended to it, and their memberships are held. -/
theorem addPhase_spec {file : SiFile} {l senderIfaces : List SenderIfaces}
    {held : Finset Membership} (hl : ∀ e ∈ l, e ∈ file.entries)
    (hfile : ∀ e ∈ file.entries, ∀ e' ∈ file.entries, e.key ≠ e'.key → Apart e e')
    (hunique : UniqueKeys SenderIfaces.key senderIfaces)
    (hheld : ∀ m, m ∈ held ↔
      ∃ e ∈ file.entries, e.key ∈ senderIfaces.map SenderIfaces.key ∧ m ∈ e.memberships) :
    ∃ senderIfaces' held', addPhase l senderIfaces held = some (senderIfaces', held') ∧
      UniqueKeys SenderIfaces.key senderIfaces' ∧
      (∀ k, k ∈ senderIfaces'.map SenderIfaces.key ↔
        k ∈ senderIfaces.map SenderIfaces.key ∨ k ∈ l.map SenderIfaces.key) ∧
      ∀ m, m ∈ held' ↔
        ∃ e ∈ file.entries, e.key ∈ senderIfaces'.map SenderIfaces.key ∧ m ∈ e.memberships := by
  induction l generalizing senderIfaces held with
  | nil => exact ⟨senderIfaces, held, rfl, hunique, by simp, hheld⟩
  | cons e l ih =>
      have he : e ∈ file.entries := hl e List.mem_cons_self
      have hl' : ∀ e' ∈ l, e' ∈ file.entries := fun e' h => hl e' (List.mem_cons_of_mem e h)
      rw [addPhase]
      cases hfound : lookup SenderIfaces.key e.key senderIfaces with
      | some c =>
          have hkey : e.key ∈ senderIfaces.map SenderIfaces.key :=
            key_of_lookup hfound ▸ List.mem_map_of_mem (mem_of_lookup hfound)
          rw [if_pos (by rw [findSiInList, hfound, Option.isSome_some])]
          obtain ⟨senderIfaces', held', hphase, hunique', hkeys, hheld'⟩ := ih hl' hunique hheld
          refine ⟨senderIfaces', held', hphase, hunique', ?_, hheld'⟩
          intro k
          rw [hkeys, List.map_cons, List.mem_cons]
          constructor
          · rintro (hk | hk)
            · exact Or.inl hk
            · exact Or.inr (Or.inr hk)
          · rintro (hk | rfl | hk)
            · exact Or.inl hk
            · exact Or.inl hkey
            · exact Or.inr hk
      | none =>
          have hnot : e.key ∉ senderIfaces.map SenderIfaces.key := by
            intro hkey
            obtain ⟨c, hc, hckey⟩ := List.mem_map.1 hkey
            exact lookup_eq_none_iff.1 hfound c hc hckey
          obtain ⟨held₁, hadded, hheld₁⟩ := addEntry_spec he hfile hnot hheld
          obtain ⟨senderIfaces', held', hphase, hunique', hkeys, hheld'⟩ :=
            ih hl' (uniqueKeys_append_singleton hunique hfound) hheld₁
          rw [if_neg (by rw [findSiInList, hfound]; simp)]
          refine ⟨senderIfaces', held', ?_, hunique', ?_, hheld'⟩
          · simp only [hadded, Option.bind_eq_bind, Option.bind_some, hphase]
          · intro k
            rw [hkeys, List.map_append, List.map_singleton, List.mem_append,
              List.mem_singleton, List.map_cons, List.mem_cons, or_assoc]

/-! ## Passes -/

theorem Tracking.find {s : State} (h : Tracking s) {c : SenderIfaces}
    (hc : c ∈ s.senderIfaces) : ∃ n, findSiInArray c s.newSenderIfaces = some n := by
  obtain ⟨n, hn, hkey⟩ := List.mem_map.1 ((h.keys c.key).1 (List.mem_map_of_mem hc))
  exact ⟨n, by rw [findSiInArray, ← hkey, lookup_of_mem h.unique hn]⟩

theorem Tracking.holds_list {s : State} (h : Tracking s)
    (hupToDate : ∀ c ∈ s.senderIfaces, ∀ n, findSiInArray c s.newSenderIfaces = some n →
      ∀ m, m ∈ n.memberships ↔ m ∈ c.memberships) : Holds s.held s.senderIfaces := by
  intro m
  rw [h.held m]
  constructor
  · rintro ⟨n, hn, hm⟩
    obtain ⟨c, hc, hkey⟩ := List.mem_map.1 ((h.keys n.key).2 (List.mem_map_of_mem hn))
    have hfound : findSiInArray c s.newSenderIfaces = some n := by
      rw [findSiInArray, hkey, lookup_of_mem h.unique hn]
    exact ⟨c, hc, (hupToDate c hc n hfound m).1 hm⟩
  · rintro ⟨c, hc, hm⟩
    obtain ⟨n, hfound⟩ := h.find hc
    exact ⟨n, mem_of_lookup hfound, (hupToDate c hc n hfound m).2 hm⟩

theorem Tracking.list_apart {s : State} (h : Tracking s)
    (hupToDate : ∀ c ∈ s.senderIfaces, ∀ n, findSiInArray c s.newSenderIfaces = some n →
      ∀ m, m ∈ n.memberships ↔ m ∈ c.memberships) : s.senderIfaces.Pairwise Apart := by
  refine (List.pairwise_map.1 h.uniqueList).imp_of_mem ?_
  intro c c' hc hc' hne m hm hm'
  obtain ⟨n, hn⟩ := h.find hc
  obtain ⟨n', hn'⟩ := h.find hc'
  have hkeys : n.key ≠ n'.key := by
    rw [key_of_lookup hn, key_of_lookup hn']
    exact hne
  exact h.apart n (mem_of_lookup hn) n' (mem_of_lookup hn') hkeys m
    ((hupToDate c hc n hn m).2 hm) ((hupToDate c' hc' n' hn' m).2 hm')

theorem dropReady {s : State} {file : SiFile} (h : Tracking s) (hready : Ready s file) :
    DropReady file (fun _ => False) s.senderIfaces where
  unique := h.uniqueList
  list := h.list_apart hready.upToDate
  order := hready.order
  kept := hready.hostKept
  old _ _ _ _ := id
  new _ _ _ _ _ _ := id

/-- A pass from a state that is ready makes no error and tracks the file that it reads. -/
theorem pass_spec {s : State} {file : SiFile} (h : Tracking s) (hready : Ready s file) :
    ∃ s', pass s file = some s' ∧ s'.newSenderIfaces = file.entries ∧ Tracking s' := by
  have hlist : ∀ m, m ∈ s.held ↔ False ∨ ∃ c ∈ s.senderIfaces, m ∈ c.memberships := by
    intro m
    rw [false_or]
    exact h.holds_list hready.upToDate m
  obtain ⟨held₁, hdrop, hheld₁⟩ := dropPhase_spec (dropReady h hready) hready.apart hlist
  have hstay : ∀ m, m ∈ held₁ ↔ ∃ e ∈ file.entries, e.key ∈ (s.senderIfaces.filter fun c =>
      (findSiInArray c file.entries).isSome).map SenderIfaces.key ∧ m ∈ e.memberships := by
    intro m
    rw [hheld₁, false_or]
    constructor
    · rintro ⟨c, hc, n, hfound, hm⟩
      refine ⟨n, mem_of_lookup hfound, ?_, hm⟩
      rw [key_of_lookup hfound]
      exact List.mem_map_of_mem (List.mem_filter.2 ⟨hc, by rw [hfound, Option.isSome_some]⟩)
    · rintro ⟨e, he, hkey, hm⟩
      obtain ⟨c, hc, hckey⟩ := List.mem_map.1 hkey
      refine ⟨c, (List.mem_filter.1 hc).1, e, ?_, hm⟩
      rw [findSiInArray, hckey, lookup_of_mem file.uniqueKeys he]
  have hunique₁ : UniqueKeys SenderIfaces.key (s.senderIfaces.filter fun c =>
      (findSiInArray c file.entries).isSome) :=
    h.uniqueList.sublist (List.filter_sublist.map SenderIfaces.key)
  obtain ⟨senderIfaces, held, hadd, hunique, hkeys, hheld⟩ :=
    addPhase_spec (fun e he => he) hready.apart hunique₁ hstay
  refine ⟨⟨senderIfaces, held, file.entries⟩, ?_, rfl, ?_⟩
  · simp only [pass, hdrop, hadd, Option.bind_eq_bind, Option.bind_some]
    rfl
  · refine ⟨file.uniqueKeys, hunique, ?_, ?_, hready.apart⟩
    · intro k
      rw [hkeys, or_iff_right_iff_imp]
      intro hk
      obtain ⟨c, hc, rfl⟩ := List.mem_map.1 hk
      obtain ⟨n, hfound⟩ := Option.isSome_iff_exists.1 (List.mem_filter.1 hc).2
      exact key_of_lookup hfound ▸ List.mem_map_of_mem (mem_of_lookup hfound)
    · intro m
      rw [hheld]
      constructor
      · rintro ⟨e, he, -, hm⟩
        exact ⟨e, he, hm⟩
      · rintro ⟨e, he, hm⟩
        exact ⟨e, he, (hkeys e.key).2 (Or.inr (List.mem_map_of_mem he)), hm⟩

theorem tracking_init : Tracking init where
  unique := uniqueKeys_nil SenderIfaces.key
  uniqueList := uniqueKeys_nil SenderIfaces.key
  keys _ := Iff.rfl
  held := by simp [Holds, init]
  apart := by simp [init]

/-- The passes over the first files make no error while each of them is ready. -/
theorem tracking_run {files : List SiFile}
    (hready : ∀ k s file, run (files.take k) = some s → files[k]? = some file → Ready s file)
    (k : ℕ) : ∃ s, run (files.take k) = some s ∧ Tracking s := by
  refine Run.runFrom_take_total (fun _ s => Tracking s) tracking_init ?_ k
  intro k file s hfile hs htrack
  obtain ⟨s', hs', -, htrack'⟩ := pass_spec htrack (hready k s file hs hfile)
  exact ⟨s', hs', htrack'⟩

/-- In every run of passes each of which is ready: no membership call is an error, and after
every pass the socket holds exactly the memberships of the file just read. -/
theorem holds_after_pass (files : List SiFile)
    (hready : ∀ k s file, run (files.take k) = some s → files[k]? = some file → Ready s file) :
    ∀ k file, files[k]? = some file →
      ∃ s, run (files.take (k + 1)) = some s ∧ Holds s.held file.entries := by
  intro k file hfile
  obtain ⟨s, hs, htrack⟩ := tracking_run hready k
  obtain ⟨s', hs', hnew, htrack'⟩ := pass_spec htrack (hready k s file hs hfile)
  exact ⟨s', (Run.runFrom_take_succ_eq_some hfile).2 ⟨s, hs, hs'⟩, hnew ▸ htrack'.held⟩

/-- An entry with one interface. -/
def oneIface (addr hostAddr : InAddr) : SenderIfaces where
  senderAddr := inAddr 10 0 0 1
  groupAddr := inAddr 232 0 0 1
  nbIfaces := 1
  ifaces := Vector.replicate 16 ⟨UInt8.ofNat 0, addr⟩
  hostAddr := Vector.replicate 16 hostAddr
  lastSeen := 1
  nbIfaces_le := Nat.le_add_left 1 15
  addrs_nodup := List.nodup_singleton addr

/-- A file with one entry. -/
def oneEntry (si : SenderIfaces) : SiFile := ⟨[si], List.nodup_singleton si.key⟩

/-- The interface of an entry before and after a change. -/
def before : SiFile := oneEntry (oneIface (inAddr 10 0 0 1) (inAddr 10 0 0 2))

def after : SiFile := oneEntry (oneIface (inAddr 10 1 0 1) (inAddr 10 1 0 2))

theorem apart_oneEntry (si : SenderIfaces) : ∀ e ∈ (oneEntry si).entries,
    ∀ e' ∈ (oneEntry si).entries, e.key ≠ e'.key → Apart e e' := by
  intro e he e' he' hne
  obtain rfl := List.mem_singleton.1 he
  obtain rfl := List.mem_singleton.1 he'
  exact absurd rfl hne

theorem holds_after_pass_change :
    ∃ s, run [before, after] = some s ∧ Holds s.held after.entries := by
  refine holds_after_pass [before, after] ?_ 1 after rfl
  intro k s file hs hfile
  rcases k with _ | _ | k
  · obtain rfl := Option.some.inj hs
    obtain rfl := Option.some.inj hfile
    exact ⟨by simp [init], apart_oneEntry _, by simp [init], List.Pairwise.nil⟩
  · obtain rfl := Option.some.inj hfile
    have hstate : (run [before]).map (fun s => (s.senderIfaces, s.newSenderIfaces)) =
        some (before.entries, before.entries) := by
      decide +kernel
    have hrun : run [before] = some s := hs
    rw [hrun, Option.map_some] at hstate
    obtain ⟨hlist, hread⟩ := Prod.mk.inj (Option.some.inj hstate)
    refine ⟨?_, apart_oneEntry _, ?_, ?_⟩
    · intro c hc n hn m
      rw [hread] at hn
      rw [hlist] at hc
      obtain rfl := List.mem_singleton.1 hc
      obtain rfl := List.mem_singleton.1 (mem_of_lookup hn)
      exact Iff.rfl
    · intro c hc n hn
      rw [hlist] at hc
      obtain rfl := List.mem_singleton.1 hc
      obtain rfl := List.mem_singleton.1 (mem_of_lookup hn)
      decide
    · rw [hlist]
      exact List.pairwise_singleton _ _
  · cases hfile

/-- The pass after the change drops the old membership again. -/
theorem change_dropped_twice :
    ¬ ∀ (files : List SiFile) (k : ℕ) (file : SiFile), files[k]? = some file →
      ∃ s, run (files.take (k + 1)) = some s ∧ Holds s.held file.entries := by
  intro h
  obtain ⟨s, hs, -⟩ := h [before, after, after] 2 after rfl
  have hnone : (run ([before, after, after].take 3)).isNone = true := by decide +kernel
  rw [hs] at hnone
  cases hnone

end Si

end Iprp.Ird
