/-
Nsparse/Lib/TopK.lean

What it means for a collection to hold the `k` best of what has been seen.

`IsTopK k score all kept` says that `kept` is `k` elements of `all` (or all of
them, when there are fewer) that no left-out element beats.  Ties at the border
are left open: any choice among equal scores is a top `k`.  A bounded heap keeps
this relation under insertion (`push`, `skip`, `swap`), and whatever it holds
in the end has the `k` largest scores (`sort_scores_eq_take`): the scores are
determined, only the labels at a tie are not.
-/
import Mathlib.Algebra.Order.Group.Multiset
import Mathlib.Data.Multiset.Sort
import Mathlib.Tactic

namespace TopK

variable {α F : Type*} [LinearOrder F] {k : ℕ} {score : α → F}

theorem isTrans_ge : IsTrans F (· ≥ ·) := inferInstance

theorem antisymm_ge : Std.Antisymm (α := F) (· ≥ ·) := inferInstance

/-- `kept` holds `k` best elements of `all`, or all of them when there are fewer. -/
def IsTopK (k : ℕ) (score : α → F) (all kept : Multiset α) : Prop :=
  kept.card = min k all.card ∧
    ∃ rest, all = kept + rest ∧ ∀ x ∈ kept, ∀ y ∈ rest, score y ≤ score x

theorem isTopK_zero : IsTopK k score (0 : Multiset α) 0 :=
  ⟨by simp, 0, by simp, by simp⟩

theorem IsTopK.card_eq {all kept : Multiset α} (h : IsTopK k score all kept) :
    kept.card = min k all.card := h.1

theorem IsTopK.le {all kept : Multiset α} (h : IsTopK k score all kept) : kept ≤ all := by
  obtain ⟨-, rest, rfl, -⟩ := h
  exact Multiset.le_add_right _ _

theorem IsTopK.card_le {all kept : Multiset α} (h : IsTopK k score all kept) :
    kept.card ≤ k := by
  rw [h.card_eq]
  exact min_le_left _ _

/-- Below capacity nothing has been left out. -/
theorem IsTopK.eq_of_card_lt {all kept : Multiset α} (h : IsTopK k score all kept)
    (hlt : kept.card < k) : kept = all := by
  obtain ⟨hcard, rest, rfl, -⟩ := h
  have hrest : rest.card = 0 := by
    rw [Multiset.card_add] at hcard
    omega
  rw [Multiset.card_eq_zero.mp hrest, add_zero]

/-! ### Insertion -/

/-- Below capacity the new element is kept. -/
theorem IsTopK.push {all kept : Multiset α} (h : IsTopK k score all kept) (x : α)
    (hlt : kept.card < k) : IsTopK k score (x ::ₘ all) (x ::ₘ kept) := by
  obtain rfl := h.eq_of_card_lt hlt
  refine ⟨?_, 0, by simp, by simp⟩
  rw [Multiset.card_cons]
  omega

/-- At capacity, elements that beat nothing kept may be left out. -/
theorem IsTopK.skip {all kept : Multiset α} (h : IsTopK k score all kept) (low : Multiset α)
    (hfull : kept.card = k) (hlow : ∀ x ∈ low, ∀ y ∈ kept, score x ≤ score y) :
    IsTopK k score (low + all) kept := by
  obtain ⟨hcard, rest, rfl, hrest⟩ := h
  refine ⟨?_, low + rest, by rw [add_left_comm], ?_⟩
  · rw [Multiset.card_add, Multiset.card_add]
    omega
  · intro x hx y hy
    rcases Multiset.mem_add.mp hy with hy | hy
    · exact hlow y hy x hx
    · exact hrest x hx y hy

/-- At capacity, an element that ties or beats a least kept one may take its place. -/
theorem IsTopK.swap {all kept : Multiset α} {m : α} (h : IsTopK k score all (m ::ₘ kept))
    (x : α) (hfull : (m ::ₘ kept).card = k) (hmin : ∀ y ∈ kept, score m ≤ score y)
    (hx : score m ≤ score x) : IsTopK k score (x ::ₘ all) (x ::ₘ kept) := by
  obtain ⟨-, rest, rfl, hrest⟩ := h
  have hsize : kept.card + 1 = k := by rw [← hfull, Multiset.card_cons]
  refine ⟨?_, m ::ₘ rest, by simp [Multiset.cons_swap], ?_⟩
  · simp only [Multiset.card_cons, Multiset.card_add]
    omega
  · intro y hy z hz
    have hmy : score m ≤ score y := by
      rcases Multiset.mem_cons.mp hy with rfl | hy
      · exact hx
      · exact hmin y hy
    rcases Multiset.mem_cons.mp hz with rfl | hz
    · exact hmy
    · exact (hrest m (Multiset.mem_cons_self _ _) z hz).trans hmy

/-! ### What is held in the end -/

/-- A descending list that beats everything after it is a prefix of the sorted whole. -/
theorem sort_add_eq_append {s t : Multiset F} (h : ∀ x ∈ s, ∀ y ∈ t, y ≤ x) :
    (s + t).sort (· ≥ ·) = s.sort (· ≥ ·) ++ t.sort (· ≥ ·) := by
  refine @List.Perm.eq_of_pairwise _ (· ≥ ·) _ _ (fun a b _ _ hab hba => le_antisymm hba hab)
    (Multiset.pairwise_sort _ _) ?_ ?_
  · refine List.pairwise_append.mpr
      ⟨Multiset.pairwise_sort _ _, Multiset.pairwise_sort _ _, ?_⟩
    intro x hx y hy
    exact h x ((Multiset.mem_sort _).mp hx) y ((Multiset.mem_sort _).mp hy)
  · rw [← Multiset.coe_eq_coe, ← Multiset.coe_add]
    simp

/-- The kept scores are the `k` largest of all scores. -/
theorem IsTopK.sort_scores_eq_take {all kept : Multiset α} (h : IsTopK k score all kept) :
    (kept.map score).sort (· ≥ ·) = ((all.map score).sort (· ≥ ·)).take k := by
  obtain ⟨hcard, rest, rfl, hrest⟩ := h
  rw [Multiset.map_add, sort_add_eq_append]
  · rcases le_or_gt k kept.card with hk | hk
    · have hlen : ((kept.map score).sort (· ≥ ·)).length = k := by
        rw [Multiset.length_sort, Multiset.card_map]
        omega
      rw [List.take_left' hlen]
    · have hrest0 : rest = 0 := by
        rw [Multiset.card_add] at hcard
        exact Multiset.card_eq_zero.mp (by omega)
      subst hrest0
      rw [Multiset.map_zero, Multiset.sort_zero, List.append_nil, List.take_of_length_le]
      rw [Multiset.length_sort, Multiset.card_map]
      exact hk.le
  · intro x hx y hy
    obtain ⟨a, ha, rfl⟩ := Multiset.mem_map.mp hx
    obtain ⟨b, hb, rfl⟩ := Multiset.mem_map.mp hy
    exact hrest a ha b hb

/-- A value does not exceed the least of `k` kept elements when `k` of all elements reach it. -/
theorem IsTopK.le_iff_countP {all kept : Multiset α} {m : α} (h : IsTopK k score all kept)
    (hfull : kept.card = k) (hm : m ∈ kept) (hmin : ∀ y ∈ kept, score m ≤ score y) (s : F) :
    s ≤ score m ↔ k ≤ all.countP fun x => s ≤ score x := by
  constructor
  · intro hle
    have hkept : kept.countP (fun x => s ≤ score x) = kept.card :=
      Multiset.countP_eq_card.mpr fun y hy => hle.trans (hmin y hy)
    have hmono := Multiset.countP_le_of_le (fun x => s ≤ score x) h.le
    omega
  · intro hcount
    by_contra hlt
    -- neither the least kept element nor one left out reaches the value
    obtain ⟨-, rest, rfl, hrest⟩ := h
    obtain ⟨t, rfl⟩ := Multiset.exists_cons_of_mem hm
    have hnone : rest.countP (fun x => s ≤ score x) = 0 :=
      Multiset.countP_eq_zero.mpr fun y hy hs => hlt (hs.trans (hrest m hm y hy))
    have hcard := Multiset.countP_le_card (fun x => s ≤ score x) t
    have hleast : (m ::ₘ t).countP (fun x => s ≤ score x) = t.countP fun x => s ≤ score x :=
      Multiset.countP_cons_of_neg t hlt
    rw [Multiset.countP_add, hnone, hleast] at hcount
    rw [Multiset.card_cons] at hfull
    omega

/-- A least kept element, of a full collection, has the `k`-th largest score of all. -/
theorem IsTopK.kth_score {all kept : Multiset α} {m : α} (h : IsTopK k score all kept)
    (hfull : kept.card = k) (hm : m ∈ kept) (hmin : ∀ y ∈ kept, score m ≤ score y) :
    ((all.map score).sort (· ≥ ·))[k - 1]? = some (score m) := by
  have hpos : 0 < k := hfull ▸ Multiset.card_pos_iff_exists_mem.mpr ⟨m, hm⟩
  have htake := h.sort_scores_eq_take
  set sorted := (kept.map score).sort (· ≥ ·) with hsorted
  have hlen : sorted.length = k := by rw [hsorted, Multiset.length_sort, Multiset.card_map, hfull]
  have hlast : sorted[k - 1]? = ((all.map score).sort (· ≥ ·))[k - 1]? := by
    rw [htake, List.getElem?_take_of_lt (by omega)]
  have hmem : score m ∈ sorted :=
    (Multiset.mem_sort (· ≥ ·)).mpr (Multiset.mem_map_of_mem score hm)
  obtain ⟨i, hi, hget⟩ : ∃ i, ∃ hi : i < sorted.length, sorted[i] = score m :=
    List.getElem_of_mem hmem
  have hk : k - 1 < sorted.length := by omega
  rw [← hlast, List.getElem?_eq_getElem hk]
  refine congrArg some (le_antisymm ?_ ?_)
  · -- the last of a descending list is at most any of its elements
    rw [← hget]
    rcases (show i ≤ k - 1 by omega).eq_or_lt with rfl | hlt
    · exact le_rfl
    · exact List.pairwise_iff_getElem.mp (Multiset.pairwise_sort _ (· ≥ ·)) i (k - 1) hi hk hlt
  · obtain ⟨y, hy, hlasty⟩ := Multiset.mem_map.mp
      ((Multiset.mem_sort (· ≥ ·)).mp (List.getElem_mem hk))
    rw [← hlasty]
    exact hmin y hy

end TopK
