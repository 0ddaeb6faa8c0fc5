import Mathlib.Data.List.Induction
import Mathlib.Data.List.Nodup
import Mathlib.Data.Nat.ModEq

/-!
# Verdicts on arrivals

A receiver judges each arrival by the arrivals before it. `judge f ns` is the list of its
verdicts when `f` tells what it makes of the next arrival.

Numbers that arrive in any order, any number of times, have records: those above all before
them. `Accepts w` is what a receiver does that keeps a ring of `w` slots for the numbers that
the records have jumped over: it accepts a record, and a number that was jumped over, has not
arrived since and was not pushed out of its slot by a later one (`Remembered`). As long as no
number arrives for the first time more than `w` below one that is already there (`Skew`), these
are the first arrivals (`accepts_iff_of_skew`).
-/

namespace Arrivals

/-- The verdicts on arrivals that follow those in `seen`. -/
def judgeFrom {α β : Type*} (f : List α → α → β) : List α → List α → List (α × β)
  | _, [] => []
  | seen, n :: ns => (n, f seen n) :: judgeFrom f (seen ++ [n]) ns

/-- The verdict on each arrival, given the arrivals before it. -/
def judge {α β : Type*} (f : List α → α → β) (ns : List α) : List (α × β) := judgeFrom f [] ns

theorem judgeFrom_concat {α β : Type*} (f : List α → α → β) (seen ns : List α) (n : α) :
    judgeFrom f seen (ns ++ [n]) = judgeFrom f seen ns ++ [(n, f (seen ++ ns) n)] := by
  induction ns generalizing seen with
  | nil => rw [List.append_nil]; rfl
  | cons m ns ih =>
      rw [List.cons_append, judgeFrom, ih, List.append_assoc]
      rfl

theorem judge_concat {α β : Type*} (f : List α → α → β) (ns : List α) (n : α) :
    judge f (ns ++ [n]) = judge f ns ++ [(n, f ns n)] :=
  judgeFrom_concat f [] ns n

@[simp] theorem length_judge {α β : Type*} (f : List α → α → β) (ns : List α) :
    (judge f ns).length = ns.length := by
  induction ns using List.reverseRecOn with
  | nil => rfl
  | append_singleton ns n ih =>
      rw [judge_concat, List.length_append, List.length_append, ih]
      rfl

theorem getElem?_judge {α β : Type*} (f : List α → α → β) (ns : List α) (k : ℕ) :
    (judge f ns)[k]? = ns[k]?.map fun n => (n, f (ns.take k) n) := by
  induction ns using List.reverseRecOn with
  | nil => rfl
  | append_singleton ns m ih =>
      rw [judge_concat]
      rcases lt_trichotomy k ns.length with hlt | rfl | hgt
      · rw [List.getElem?_append_left (by rwa [length_judge]), List.getElem?_append_left hlt, ih,
          List.take_append_of_le_length (le_of_lt hlt)]
      · rw [← length_judge f ns, List.getElem?_concat_length, length_judge,
          List.getElem?_concat_length, List.take_left' rfl]
        rfl
      · rw [List.getElem?_eq_none (by simp; omega), List.getElem?_eq_none (by simp; omega)]
        rfl

theorem judge_congr {α β : Type*} {f g : List α → α → β} {ns : List α}
    (h : ∀ seen n, seen ++ [n] <+: ns → f seen n = g seen n) : judge f ns = judge g ns := by
  induction ns using List.reverseRecOn with
  | nil => rfl
  | append_singleton ns n ih =>
      rw [judge_concat, judge_concat, h ns n (List.prefix_refl _),
        ih fun seen m hm => h seen m (hm.trans (List.prefix_append ns [n]))]

theorem judge_map {α β γ : Type*} (f : List β → β → γ) (g : α → β) (ns : List α) :
    judge f (ns.map g) = (judge (fun seen n => f (seen.map g) (g n)) ns).map (Prod.map g id) := by
  induction ns using List.reverseRecOn with
  | nil => rfl
  | append_singleton ns n ih =>
      rw [List.map_append, List.map_singleton, judge_concat, judge_concat, List.map_append, ih]
      rfl

theorem map_fst_judge {α β : Type*} (f : List α → α → β) (ns : List α) :
    (judge f ns).map Prod.fst = ns := by
  induction ns using List.reverseRecOn with
  | nil => rfl
  | append_singleton ns n ih =>
      rw [judge_concat, List.map_append, ih]
      rfl

/-! ## What is accepted -/

/-- The arrivals with a positive verdict. -/
def accepted {α : Type*} (vs : List (α × Bool)) : List α :=
  (vs.filter Prod.snd).map Prod.fst

theorem accepted_concat {α : Type*} (vs : List (α × Bool)) (n : α) (b : Bool) :
    accepted (vs ++ [(n, b)]) = accepted vs ++ (if b then [n] else []) := by
  cases b with
  | false => simp [accepted]
  | true => simp [accepted]

/-- When the accepted arrivals are those with an output, the outputs are in order. -/
theorem forall₂_accepted {α γ δ : Type*} {P : α → γ → Prop} {out : δ → Option γ}
    {vs : List (α × Bool)} {hs : List δ}
    (h : List.Forall₂ (fun n x => ∀ p, out x = some p → P n p) (vs.map Prod.fst) hs)
    (hout : vs.map Prod.snd = hs.map fun x => (out x).isSome) :
    List.Forall₂ P (accepted vs) (hs.filterMap out) := by
  induction vs generalizing hs with
  | nil =>
      obtain rfl := List.forall₂_nil_left_iff.1 h
      exact List.Forall₂.nil
  | cons v vs ih =>
      obtain ⟨x, hs', hx, hrest, rfl⟩ := List.forall₂_cons_left_iff.1 h
      obtain ⟨hv, hvs⟩ := List.cons.inj hout
      change v.2 = (out x).isSome at hv
      cases hp : out x with
      | none =>
          rw [hp] at hv
          rw [accepted, List.filter_cons_of_neg (by simp [hv]),
            List.filterMap_cons_none hp]
          exact ih hrest hvs
      | some p =>
          rw [hp] at hv
          rw [accepted, List.filter_cons_of_pos hv, List.filterMap_cons_some hp]
          exact List.Forall₂.cons (hx p hp) (ih hrest hvs)

/-- The first arrival of a number that is not below the very first one. -/
def FirstArrival {α : Type*} [LE α] (seen : List α) (n : α) : Prop :=
  n ∉ seen ∧ ∀ first ∈ seen.head?, first ≤ n

instance {α : Type*} [LE α] [DecidableEq α] [DecidableLE α] (seen : List α) (n : α) :
    Decidable (FirstArrival seen n) :=
  inferInstanceAs (Decidable (n ∉ seen ∧ ∀ first ∈ seen.head?, first ≤ n))

theorem firstArrival_map {α β : Type*} [LinearOrder α] [Preorder β] {g : α → β}
    (hg : StrictMono g) (seen : List α) (n : α) :
    FirstArrival (seen.map g) (g n) ↔ FirstArrival seen n := by
  rw [FirstArrival, FirstArrival, List.mem_map_of_injective hg.injective, List.head?_map]
  refine and_congr_right fun _ => ?_
  constructor
  · intro h first hfirst
    exact hg.le_iff_le.1 (h (g first) (Option.mem_map_of_mem g hfirst))
  · intro h first hfirst
    obtain ⟨m, hm, rfl⟩ := Option.mem_map.1 hfirst
    exact hg.monotone (h m hm)

section FirstArrivals

variable {α : Type*} [Preorder α] [DecidableEq α] [DecidableLE α]

/-- The numbers are in the order in which they came for the first time. -/
def InArrivalOrder (ns ks : List α) : Prop := ks.Pairwise fun n m => ns.idxOf n < ns.idxOf m

/-- The numbers in the order of their first arrivals. -/
def firstArrivals (ns : List α) : List α :=
  accepted (judge (fun seen n => decide (FirstArrival seen n)) ns)

theorem firstArrivals_concat (ns : List α) (n : α) :
    firstArrivals (ns ++ [n]) =
      firstArrivals ns ++ (if FirstArrival ns n then [n] else []) := by
  rw [firstArrivals, judge_concat, accepted_concat]
  simp only [decide_eq_true_eq]
  rfl

theorem firstArrivals_sublist (ns : List α) : (firstArrivals ns).Sublist ns := by
  induction ns using List.reverseRecOn with
  | nil => exact List.Sublist.refl _
  | append_singleton ns n ih =>
      rw [firstArrivals_concat]
      refine ih.append ?_
      split
      · exact List.Sublist.refl _
      · exact List.nil_sublist _

theorem head?_concat {β : Type*} {ns : List β} (hns : ns ≠ []) (n : β) :
    (ns ++ [n]).head? = ns.head? := by
  rw [List.head?_append_of_ne_nil _ hns]

theorem mem_firstArrivals {ns : List α} {n : α} :
    n ∈ firstArrivals ns ↔ n ∈ ns ∧ ∀ first ∈ ns.head?, first ≤ n := by
  induction ns using List.reverseRecOn with
  | nil => simp [firstArrivals, judge, judgeFrom, accepted]
  | append_singleton ns m ih =>
      rw [firstArrivals_concat, List.mem_append, ih, List.mem_append, List.mem_singleton]
      rcases eq_or_ne ns [] with rfl | hns
      · have hle : n = m → m ≤ n := fun heq => heq ▸ le_rfl
        simpa [FirstArrival] using hle
      · rw [head?_concat hns]
        by_cases hfirst : FirstArrival ns m
        · rw [if_pos hfirst, List.mem_singleton]
          constructor
          · rintro (⟨hmem, hle⟩ | rfl)
            · exact ⟨Or.inl hmem, hle⟩
            · exact ⟨Or.inr rfl, hfirst.2⟩
          · rintro ⟨hmem | rfl, hle⟩
            · exact Or.inl ⟨hmem, hle⟩
            · exact Or.inr rfl
        · rw [if_neg hfirst]
          constructor
          · rintro (⟨hmem, hle⟩ | hmem)
            · exact ⟨Or.inl hmem, hle⟩
            · cases hmem
          · rintro ⟨hmem | rfl, hle⟩
            · exact Or.inl ⟨hmem, hle⟩
            · by_contra hnew
              exact hfirst ⟨fun hmem => hnew (Or.inl ⟨hmem, hle⟩), hle⟩

theorem firstArrivals_nodup (ns : List α) : (firstArrivals ns).Nodup := by
  induction ns using List.reverseRecOn with
  | nil => exact List.nodup_nil
  | append_singleton ns n ih =>
      rw [firstArrivals_concat]
      split
      · next hfirst =>
          refine ih.append (List.nodup_singleton n) ?_
          intro m hm hn
          obtain rfl := List.mem_singleton.1 hn
          exact hfirst.1 ((firstArrivals_sublist ns).subset hm)
      · rwa [List.append_nil]

theorem firstArrivals_inArrivalOrder (ns : List α) : InArrivalOrder ns (firstArrivals ns) := by
  induction ns using List.reverseRecOn with
  | nil => exact List.Pairwise.nil
  | append_singleton ns n ih =>
      have hold : ∀ m ∈ firstArrivals ns, (ns ++ [n]).idxOf m = ns.idxOf m := fun m hm =>
        List.idxOf_append_of_mem ((firstArrivals_sublist ns).subset hm)
      have hearlier : (firstArrivals ns).Pairwise fun m m' =>
          (ns ++ [n]).idxOf m < (ns ++ [n]).idxOf m' := by
        refine ih.imp_of_mem fun {m m'} hm hm' hlt => ?_
        rwa [hold m hm, hold m' hm']
      rw [firstArrivals_concat]
      split
      · next hfirst =>
          refine List.pairwise_append.2 ⟨hearlier, List.pairwise_singleton _ _, ?_⟩
          intro m hm m' hm'
          obtain rfl := List.mem_singleton.1 hm'
          rw [hold m hm, List.idxOf_append_of_notMem hfirst.1]
          exact Nat.lt_add_right _
            (List.idxOf_lt_length_of_mem ((firstArrivals_sublist ns).subset hm))
      · rwa [List.append_nil]

end FirstArrivals

/-! ## Records -/

/-- The highest number so far. -/
def highest (seen : List ℕ) : ℕ := seen.foldl max 0

/-- The numbers that were above all before them. -/
def records (seen : List ℕ) : List ℕ :=
  accepted (judge (fun seen n => decide (∀ m ∈ seen, m < n)) seen)

theorem highest_concat (seen : List ℕ) (n : ℕ) :
    highest (seen ++ [n]) = max (highest seen) n := by
  rw [highest, List.foldl_append]
  rfl

theorem records_concat (seen : List ℕ) (n : ℕ) :
    records (seen ++ [n]) = records seen ++ (if ∀ m ∈ seen, m < n then [n] else []) := by
  rw [records, judge_concat, accepted_concat]
  simp only [decide_eq_true_eq]
  rfl

theorem le_highest {seen : List ℕ} {m : ℕ} (hm : m ∈ seen) : m ≤ highest seen := by
  induction seen using List.reverseRecOn with
  | nil => cases hm
  | append_singleton seen n ih =>
      rw [highest_concat]
      rcases List.mem_append.1 hm with hold | hnew
      · exact le_trans (ih hold) (le_max_left _ _)
      · rw [List.mem_singleton.1 hnew]
        exact le_max_right _ _

theorem highest_mem {seen : List ℕ} (hseen : seen ≠ []) : highest seen ∈ seen := by
  induction seen using List.reverseRecOn with
  | nil => exact absurd rfl hseen
  | append_singleton seen n ih =>
      rw [highest_concat]
      rcases eq_or_ne seen [] with rfl | hne
      · simp [highest]
      · rcases max_choice (highest seen) n with hmax | hmax
        · rw [hmax]
          exact List.mem_append_left [n] (ih hne)
        · rw [hmax]
          exact List.mem_concat_self

theorem forall_mem_lt_iff {seen : List ℕ} (hseen : seen ≠ []) {n : ℕ} :
    (∀ m ∈ seen, m < n) ↔ highest seen < n :=
  ⟨fun h => h _ (highest_mem hseen), fun h _ hm => lt_of_le_of_lt (le_highest hm) h⟩

theorem records_subset (seen : List ℕ) : records seen ⊆ seen := by
  intro m hm
  induction seen using List.reverseRecOn with
  | nil => cases hm
  | append_singleton seen n ih =>
      rw [records_concat, List.mem_append] at hm
      rcases hm with hold | hnew
      · exact List.mem_append_left [n] (ih hold)
      · split at hnew
        · rw [List.mem_singleton.1 hnew]
          exact List.mem_concat_self
        · cases hnew

theorem highest_mem_records {seen : List ℕ} (hseen : seen ≠ []) :
    highest seen ∈ records seen := by
  induction seen using List.reverseRecOn with
  | nil => exact absurd rfl hseen
  | append_singleton seen n ih =>
      rw [highest_concat, records_concat, List.mem_append]
      rcases eq_or_ne seen [] with rfl | hne
      · simp [highest]
      · by_cases hrecord : ∀ m ∈ seen, m < n
        · rw [if_pos hrecord, max_eq_right (le_of_lt ((forall_mem_lt_iff hne).1 hrecord))]
          exact Or.inr (List.mem_singleton_self n)
        · rw [max_eq_left (not_lt.1 (mt (forall_mem_lt_iff hne).2 hrecord))]
          exact Or.inl (ih hne)

/-! ## A ring for what was jumped over -/

/-- The number was jumped over, has not arrived since, and each later number of its slot below
the highest was itself a record. -/
def Remembered (w : ℕ) (seen : List ℕ) (n : ℕ) : Prop :=
  n ∉ seen ∧ (∀ first ∈ seen.head?, first < n) ∧ n < highest seen ∧
    ∀ m < highest seen, n < m → m % w = n % w → m ∈ records seen

instance (w : ℕ) (seen : List ℕ) (n : ℕ) : Decidable (Remembered w seen n) :=
  inferInstanceAs (Decidable (n ∉ seen ∧ (∀ first ∈ seen.head?, first < n) ∧
    n < highest seen ∧ ∀ m < highest seen, n < m → m % w = n % w → m ∈ records seen))

/-- A record, or a number that is still remembered. -/
def Accepts (w : ℕ) (seen : List ℕ) (n : ℕ) : Prop :=
  (∀ m ∈ seen, m < n) ∨ Remembered w seen n

instance (w : ℕ) (seen : List ℕ) (n : ℕ) : Decidable (Accepts w seen n) :=
  inferInstanceAs (Decidable ((∀ m ∈ seen, m < n) ∨ Remembered w seen n))

/-- Behind a record the numbers jumped over are remembered, and of the numbers in one slot only
the last. -/
theorem remembered_record {w : ℕ} {seen : List ℕ} (hseen : seen ≠ []) {s : ℕ}
    (hs : highest seen < s) (n : ℕ) :
    Remembered w (seen ++ [s]) n ↔
      (Remembered w seen n ∨ highest seen < n ∧ n < s) ∧
        ∀ m, highest seen < m → n < m → m < s → m % w ≠ n % w := by
  have hhigh : highest (seen ++ [s]) = s := by
    rw [highest_concat, max_eq_right (le_of_lt hs)]
  have hrecords : ∀ m, m ∈ records (seen ++ [s]) ↔ m ∈ records seen ∨ m = s := by
    intro m
    rw [records_concat, if_pos ((forall_mem_lt_iff hseen).2 hs), List.mem_append,
      List.mem_singleton]
  have hbelow : ∀ m ∈ records seen, m ≤ highest seen :=
    fun m hm => le_highest (records_subset seen hm)
  rw [Remembered, hhigh, head?_concat hseen]
  constructor
  · rintro ⟨hnew, hfirst, hlt, hslot⟩
    have hlater : ∀ m, highest seen < m → n < m → m < s → m % w ≠ n % w := by
      intro m hm hnm hms hmod
      rcases (hrecords m).1 (hslot m hms hnm hmod) with hold | rfl
      · exact absurd (hbelow m hold) (not_le.2 hm)
      · exact lt_irrefl _ hms
    refine ⟨?_, hlater⟩
    rcases lt_trichotomy n (highest seen) with hn | rfl | hn
    · refine Or.inl ⟨fun hmem => hnew (List.mem_append_left [s] hmem), hfirst, hn, ?_⟩
      intro m hm hnm hmod
      rcases (hrecords m).1 (hslot m (lt_trans hm hs) hnm hmod) with hold | rfl
      · exact hold
      · exact absurd hs (not_lt_of_gt hm)
    · exact absurd (List.mem_append_left [s] (highest_mem hseen)) hnew
    · exact Or.inr ⟨hn, hlt⟩
  · rintro ⟨⟨hnew, hfirst, hn, hslot⟩ | ⟨hn, hlt⟩, hlater⟩
    · have hns : n < s := lt_trans hn hs
      refine ⟨?_, hfirst, hns, ?_⟩
      · intro hmem
        rcases List.mem_append.1 hmem with hold | heq
        · exact hnew hold
        · exact absurd (List.mem_singleton.1 heq) (ne_of_lt hns)
      · intro m hms hnm hmod
        rw [hrecords]
        rcases lt_trichotomy m (highest seen) with hm | rfl | hm
        · exact Or.inl (hslot m hm hnm hmod)
        · exact Or.inl (highest_mem_records hseen)
        · exact absurd hmod (hlater m hm hnm hms)
    · refine ⟨?_, ?_, hlt, ?_⟩
      · intro hmem
        rcases List.mem_append.1 hmem with hold | heq
        · exact absurd (le_highest hold) (not_le.2 hn)
        · exact absurd (List.mem_singleton.1 heq) (ne_of_lt hlt)
      · intro first hhead
        exact lt_of_le_of_lt (le_highest (List.mem_of_mem_head? hhead)) hn
      · intro m hms hnm hmod
        exact absurd hmod (hlater m (lt_trans hn hnm) hnm hms)

/-- Any other arrival only takes its own number from what is remembered. -/
theorem remembered_not_record {w : ℕ} {seen : List ℕ} (hseen : seen ≠ []) {s : ℕ}
    (hs : s ≤ highest seen) (n : ℕ) :
    Remembered w (seen ++ [s]) n ↔ n ≠ s ∧ Remembered w seen n := by
  have hrecords : records (seen ++ [s]) = records seen := by
    rw [records_concat, if_neg (mt (forall_mem_lt_iff hseen).1 (not_lt.2 hs)), List.append_nil]
  rw [Remembered, Remembered, highest_concat, max_eq_left hs, hrecords, head?_concat hseen,
    List.mem_append, List.mem_singleton, not_or, and_comm (a := n ∉ seen), and_assoc]

/-! ## Bounded skew -/

/-- No number arrives for the first time more than `lag` below one that is already there. -/
def Skew (lag : ℕ) (ns : List ℕ) : Prop :=
  ∀ seen n, seen ++ [n] <+: ns → n ∉ seen → ∀ m ∈ seen, m ≤ n + lag

/-- A number at most `w` below the highest is accepted when it arrives for the first time. -/
theorem accepts_iff_of_skew {w : ℕ} {seen : List ℕ} {n : ℕ}
    (h : n ∉ seen → ∀ m ∈ seen, m ≤ n + w) : Accepts w seen n ↔ FirstArrival seen n := by
  constructor
  · rintro (hrecord | ⟨hnew, hfirst, -, -⟩)
    · exact ⟨fun hmem => lt_irrefl n (hrecord n hmem),
        fun first hhead => le_of_lt (hrecord first (List.mem_of_mem_head? hhead))⟩
    · exact ⟨hnew, fun first hhead => le_of_lt (hfirst first hhead)⟩
  · rintro ⟨hnew, hfirst⟩
    by_cases hrecord : ∀ m ∈ seen, m < n
    · exact Or.inl hrecord
    · have hseen : seen ≠ [] := by
        rintro rfl
        exact hrecord fun m hm => by cases hm
      have hhigh := highest_mem hseen
      have hlt : n < highest seen := by
        refine lt_of_le_of_ne (not_lt.1 (mt (forall_mem_lt_iff hseen).2 hrecord)) ?_
        rintro rfl
        exact hnew hhigh
      refine Or.inr ⟨hnew, ?_, hlt, ?_⟩
      · intro first hhead
        refine lt_of_le_of_ne (hfirst first hhead) ?_
        rintro rfl
        exact hnew (List.mem_of_mem_head? hhead)
      · intro m hm hnm hmod
        -- the next number of the slot is `n + w`, which the highest has not passed
        have hfar : highest seen ≤ n + w := h hnew _ hhigh
        have hdvd : w ∣ m - n := (Nat.modEq_iff_dvd' (le_of_lt hnm)).1 hmod.symm
        have hle : w ≤ m - n := Nat.le_of_dvd (Nat.sub_pos_of_lt hnm) hdvd
        omega

end Arrivals
