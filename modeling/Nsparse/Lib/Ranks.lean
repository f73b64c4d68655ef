/-
Nsparse/Lib/Ranks.lean

The values of a collection by rank, and when replacing a collection lowers none.

`rank pad s i` is the `i`-th largest of `s`, and `pad` where there are fewer.  One set of
candidates is never worse than another, whatever part of either is selected, exactly when
what it drops was worth nothing and what it adds is worth no less than the padding
(`rank_le_iff`).  Nothing more can be said with `pad` above a value: a new low value takes
the place of the padding.
-/
import Mathlib.Data.List.GetD
import Mathlib.Data.List.NodupEquivFin
import Nsparse.Lib.TopK

namespace Ranks

/-! ### Selected candidates -/

section Selected

variable {α F : Type*} {value : α → F}

/-- The values of the selected candidates. -/
def valuesOf (value : α → F) (selected : α → Bool) (s : Finset α) : Multiset F :=
  (s.filter fun a => selected a = true).val.map value

theorem mem_valuesOf {selected : α → Bool} {s : Finset α} {x : F} :
    x ∈ valuesOf value selected s ↔ ∃ a ∈ s, selected a = true ∧ value a = x := by
  simp only [valuesOf, Multiset.mem_map, Finset.mem_val, Finset.mem_filter, and_assoc]

theorem valuesOf_congr {selected selected' : α → Bool} {s : Finset α}
    (h : ∀ a ∈ s, selected a = selected' a) :
    valuesOf value selected s = valuesOf value selected' s := by
  rw [valuesOf, valuesOf, Finset.filter_congr fun a ha => by rw [h a ha]]

theorem valuesOf_eq_zero {selected : α → Bool} {s : Finset α}
    (h : ∀ a ∈ s, selected a = false) : valuesOf value selected s = 0 := by
  refine Multiset.eq_zero_of_forall_notMem fun x hx => ?_
  obtain ⟨a, ha, hsel, -⟩ := mem_valuesOf.mp hx
  rw [h a ha] at hsel
  exact Bool.noConfusion hsel

variable [DecidableEq α]

/-- A set is what it shares with another and the rest. -/
theorem valuesOf_eq_add (value : α → F) (selected : α → Bool) (s t : Finset α) :
    valuesOf value selected s
      = valuesOf value selected (s ∩ t) + valuesOf value selected (s \ t) := by
  have hdisjoint : Disjoint ((s ∩ t).filter fun a => selected a = true)
      ((s \ t).filter fun a => selected a = true) :=
    Finset.disjoint_filter_filter (Finset.disjoint_sdiff_inter s t).symm
  have hunion : (s.filter fun a => selected a = true)
      = ((s ∩ t).filter fun a => selected a = true).disjUnion
          ((s \ t).filter fun a => selected a = true) hdisjoint := by
    rw [Finset.disjUnion_eq_union, ← Finset.filter_union, Finset.union_comm,
      Finset.sdiff_union_inter]
  rw [valuesOf, hunion, Finset.disjUnion_val, Multiset.map_add]
  rfl

/-- The selection of one candidate. -/
theorem valuesOf_singleton {a : α} {s : Finset α} (h : a ∈ s) :
    valuesOf value (fun x => decide (x = a)) s = {value a} := by
  have hfilter : (s.filter fun x => decide (x = a) = true) = {a} := by
    ext x
    simp only [Finset.mem_filter, decide_eq_true_eq, Finset.mem_singleton]
    exact ⟨fun hx => hx.2, fun hx => ⟨hx ▸ h, hx⟩⟩
  rw [valuesOf, hfilter]
  rfl

/-- The selection of two. -/
theorem card_valuesOf_pair {a b : α} {s : Finset α} (ha : a ∈ s) (hb : b ∈ s) (hne : a ≠ b) :
    (valuesOf value (fun x => decide (x = a ∨ x = b)) s).card = 2 := by
  have hfilter : (s.filter fun x => decide (x = a ∨ x = b) = true) = {a, b} := by
    ext x
    simp only [Finset.mem_filter, decide_eq_true_eq, Finset.mem_insert, Finset.mem_singleton]
    exact ⟨fun hx => hx.2, fun hx => ⟨by rcases hx with rfl | rfl <;> assumption, hx⟩⟩
  rw [valuesOf, Multiset.card_map, hfilter]
  exact Finset.card_pair hne

end Selected

/-! ### Ranks -/

variable {α F : Type*} [LinearOrder F] {pad : F}

/-- The `i`-th largest, or the padding. -/
def rank (pad : F) (s : Multiset F) (i : ℕ) : F := (s.sort (· ≥ ·)).getD i pad

theorem rank_of_card_le {s : Multiset F} {i : ℕ} (h : s.card ≤ i) : rank pad s i = pad := by
  rw [rank, List.getD_eq_default]
  rwa [Multiset.length_sort]

theorem rank_zero_one (x : F) : rank pad {x} 0 = x := by
  rw [rank, Multiset.sort_singleton]
  rfl

theorem rank_mem {s : Multiset F} {i : ℕ} (h : i < s.card) : rank pad s i ∈ s := by
  have hlen : i < (s.sort (· ≥ ·)).length := by rwa [Multiset.length_sort]
  rw [rank, List.getD_eq_getElem _ _ hlen, ← Multiset.mem_sort (· ≥ ·)]
  exact List.getElem_mem hlen

/-- Ranks descend. -/
theorem rank_le_rank {s : Multiset F} {i j : ℕ} (hij : i ≤ j) (hj : j < s.card) :
    rank pad s j ≤ rank pad s i := by
  have hlen : j < (s.sort (· ≥ ·)).length := by rwa [Multiset.length_sort]
  rw [rank, rank, List.getD_eq_getElem _ _ hlen, List.getD_eq_getElem _ _ (hij.trans_lt hlen)]
  rcases hij.lt_or_eq with hlt | rfl
  · exact List.pairwise_iff_getElem.mp (Multiset.pairwise_sort s (· ≥ ·)) i j _ hlen hlt
  · exact le_rfl

/-- Every element has a rank. -/
theorem exists_rank_eq {s : Multiset F} {x : F} (h : x ∈ s) :
    ∃ i < s.card, rank pad s i = x := by
  rw [← Multiset.mem_sort (· ≥ ·)] at h
  obtain ⟨i, hi, rfl⟩ := List.mem_iff_getElem.mp h
  have hcard := hi
  rw [Multiset.length_sort] at hcard
  exact ⟨i, hcard, List.getD_eq_getElem _ _ hi⟩

theorem le_rank_zero {s : Multiset F} {x : F} (h : x ∈ s) : x ≤ rank pad s 0 := by
  obtain ⟨i, hi, rfl⟩ := @exists_rank_eq F _ pad s x h
  exact rank_le_rank (Nat.zero_le i) hi

/-- The last rank is least. -/
theorem rank_last_le {s : Multiset F} {x : F} {i : ℕ} (h : x ∈ s) (hcard : s.card = i + 1) :
    rank pad s i ≤ x := by
  obtain ⟨j, hj, rfl⟩ := @exists_rank_eq F _ pad s x h
  exact rank_le_rank (by omega) (by omega)

/-- More elements raise every rank that is taken. -/
theorem rank_mono {s t : Multiset F} (h : s ≤ t) {i : ℕ} (hi : i < s.card) :
    rank pad s i ≤ rank pad t i := by
  have hsub : (s.sort (· ≥ ·)).Sublist (t.sort (· ≥ ·)) := by
    refine List.sublist_of_subperm_of_pairwise ?_
      (Multiset.pairwise_sort s _) (Multiset.pairwise_sort t _)
    rwa [← Multiset.coe_le, Multiset.sort_eq, Multiset.sort_eq]
  obtain ⟨f, hf⟩ := List.sublist_iff_exists_orderEmbedding_getElem?_eq.mp hsub
  -- the element of rank `i` has a later place in the larger list
  have hplace : rank pad s i = rank pad t (f i) := by
    rw [rank, rank, List.getD_eq_getElem?_getD, List.getD_eq_getElem?_getD, hf]
  have hlt : f i < t.card := by
    have hsome := hf i
    rw [List.getElem?_eq_getElem (by rwa [Multiset.length_sort])] at hsome
    obtain ⟨hlen, -⟩ := List.getElem?_eq_some_iff.mp hsome.symm
    rwa [Multiset.length_sort] at hlen
  rw [hplace]
  exact rank_le_rank (f.strictMono.le_apply) hlt

/-- Smaller elements take the ranks behind. -/
theorem rank_add_of_lt {s t : Multiset F} (h : ∀ x ∈ s, ∀ y ∈ t, y ≤ x) {i : ℕ}
    (hi : i < s.card) : rank pad (s + t) i = rank pad s i := by
  rw [rank, TopK.sort_add_eq_append h, List.getD_append _ _ _ _ (by rwa [Multiset.length_sort]),
    rank]

/-- A monotone map keeps the order. -/
theorem map_sort {G : Type*} [LinearOrder G] {f : F → G} (hf : Monotone f) (s : Multiset F) :
    (s.sort (· ≥ ·)).map f = (s.map f).sort (· ≥ ·) := by
  refine List.Perm.eq_of_pairwise' ?_ (Multiset.pairwise_sort _ _) ?_
  · exact List.pairwise_map.mpr ((Multiset.pairwise_sort s (· ≥ ·)).imp fun h => hf h)
  · rw [← Multiset.coe_eq_coe, Multiset.sort_eq, ← Multiset.map_coe, Multiset.sort_eq]

/-! ### Two sets of candidates -/

variable [DecidableEq α] {value : α → F} {before after : Finset α}

/-- What `after` drops is worth no more than the padding, and than what is kept; what it adds,
or keeps beside it, is worth no less than the padding. -/
structure NeverWorse (pad : F) (value : α → F) (before after : Finset α) : Prop where
  dropped : ∀ a ∈ before \ after, value a ≤ pad ∧ ∀ b ∈ before ∩ after, value a ≤ value b
  added : (after \ before).Nonempty → ∀ d ∈ after, pad ≤ value d

theorem NeverWorse.refl (pad : F) (value : α → F) (s : Finset α) : NeverWorse pad value s s where
  dropped a ha := by simp at ha
  added h := by simp at h

/-- **No rank is lowered.** -/
theorem NeverWorse.rank_le (h : NeverWorse pad value before after) (selected : α → Bool) (i : ℕ) :
    rank pad (valuesOf value selected before) i ≤ rank pad (valuesOf value selected after) i := by
  have hbefore := valuesOf_eq_add value selected before after
  have hafter := valuesOf_eq_add value selected after before
  rw [Finset.inter_comm after before] at hafter
  have hbehind : ∀ x ∈ valuesOf value selected (before ∩ after),
      ∀ y ∈ valuesOf value selected (before \ after), y ≤ x := by
    intro x hx y hy
    obtain ⟨b, hb, -, rfl⟩ := mem_valuesOf.mp hx
    obtain ⟨a, ha, -, rfl⟩ := mem_valuesOf.mp hy
    exact (h.dropped a ha).2 b hb
  rcases lt_or_ge i (valuesOf value selected (before ∩ after)).card with hi | hi
  · -- a rank of what both have
    rw [hbefore, rank_add_of_lt hbehind hi, hafter]
    exact rank_mono (Multiset.le_add_right _ _) hi
  · -- before, only dropped values and padding are behind
    have hlow : rank pad (valuesOf value selected before) i ≤ pad := by
      rcases lt_or_ge i (valuesOf value selected before).card with hlt | hge
      · have hle : rank pad (valuesOf value selected before) i
            ≤ rank pad (valuesOf value selected before)
                (valuesOf value selected (before ∩ after)).card := rank_le_rank hi hlt
        refine hle.trans ?_
        rw [rank, hbefore, TopK.sort_add_eq_append hbehind, List.getD_append_right _ _ _ _
          (by rw [Multiset.length_sort]), Multiset.length_sort, Nat.sub_self]
        have hrest : 0 < (valuesOf value selected (before \ after)).card := by
          rw [hbefore, Multiset.card_add] at hlt
          omega
        obtain ⟨a, ha, -, heq⟩ := mem_valuesOf.mp (@rank_mem F _ pad _ _ hrest)
        show rank pad _ 0 ≤ pad
        rw [← heq]
        exact (h.dropped a ha).1
      · exact (rank_of_card_le hge).le
    refine hlow.trans ?_
    rcases lt_or_ge i (valuesOf value selected after).card with hlt | hge
    · obtain ⟨d, hd, -, heq⟩ := mem_valuesOf.mp (@rank_mem F _ pad _ _ hlt)
      have hnew : 0 < (valuesOf value selected (after \ before)).card := by
        rw [hafter, Multiset.card_add] at hlt
        omega
      obtain ⟨c, hc, -⟩ := mem_valuesOf.mp (@rank_mem F _ pad _ _ hnew)
      rw [← heq]
      exact h.added ⟨c, hc⟩ d hd
    · exact (rank_of_card_le hge).ge

/-- **No rank is ever lowered** exactly when the sets are never worse. -/
theorem rank_le_iff :
    (∀ (selected : α → Bool) (i : ℕ), rank pad (valuesOf value selected before) i
        ≤ rank pad (valuesOf value selected after) i) ↔ NeverWorse pad value before after := by
  refine ⟨fun h => ⟨fun a ha => ?_, ?_⟩, fun h selected i => h.rank_le selected i⟩
  · obtain ⟨hbefore, hafter⟩ := Finset.mem_sdiff.mp ha
    constructor
    · -- select it alone
      have hle := h (fun x => decide (x = a)) 0
      rw [valuesOf_singleton hbefore, valuesOf_eq_zero, rank_zero_one,
        rank_of_card_le (Nat.zero_le _)] at hle
      · exact hle
      · intro d hd
        exact decide_eq_false fun heq => hafter (heq ▸ hd)
    · -- select it with one that is kept
      intro b hb
      obtain ⟨hbb, hba⟩ := Finset.mem_inter.mp hb
      have hle := h (fun x => decide (x = a ∨ x = b)) 0
      have hfirst : value a ≤ rank pad (valuesOf value (fun x => decide (x = a ∨ x = b)) before) 0 :=
        le_rank_zero (mem_valuesOf.mpr ⟨a, hbefore, by simp, rfl⟩)
      have honly : 0 < (valuesOf value (fun x => decide (x = a ∨ x = b)) after).card :=
        Multiset.card_pos_iff_exists_mem.mpr ⟨_, mem_valuesOf.mpr ⟨b, hba, by simp, rfl⟩⟩
      obtain ⟨d, hd, hsel, heq⟩ := mem_valuesOf.mp (@rank_mem F _ pad _ _ honly)
      rw [decide_eq_true_eq] at hsel
      obtain rfl := hsel.resolve_left fun hda => hafter (hda ▸ hd)
      exact hfirst.trans (hle.trans heq.ge)
  · rintro ⟨c, hc⟩ d hd
    obtain ⟨hca, hcb⟩ := Finset.mem_sdiff.mp hc
    by_cases hdb : d ∈ before
    · -- select both: the new one takes the place of padding
      have hle := h (fun x => decide (x = c ∨ x = d)) 1
      have hone : valuesOf value (fun x => decide (x = c ∨ x = d)) before = {value d} := by
        rw [← valuesOf_singleton hdb]
        refine valuesOf_congr fun e he => ?_
        have hec : e ≠ c := fun heq => hcb (heq ▸ he)
        simp [hec]
      rw [hone, rank_of_card_le (Multiset.card_singleton _).le] at hle
      have hne : c ≠ d := fun heq => hcb (heq ▸ hdb)
      exact hle.trans (rank_last_le (mem_valuesOf.mpr ⟨d, hd, by simp, rfl⟩)
        (card_valuesOf_pair hca hd hne))
    · have hle := h (fun x => decide (x = d)) 0
      rw [valuesOf_singleton hd, valuesOf_eq_zero, rank_zero_one,
        rank_of_card_le (Nat.zero_le _)] at hle
      · exact hle
      · intro e he
        exact decide_eq_false fun heq => hdb (heq ▸ he)

end Ranks
