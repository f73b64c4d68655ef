/-
Nsparse/BestRows.lean

The rows that hold the best of some documents.

`BestRow` says that a row is the `k` best of a set of documents: their largest scores in
descending order, every label a different document with its own score, and padding
behind.  A drained heap is such a row of whatever it was offered (`bestRow_of_holds`).
A row determines its scores (`BestRow.scores_eq`), and the best of fewer documents are no
better, rank by rank (`BestRow.le_of_subset`).
-/
import Nsparse.BlockScores
import Nsparse.Lib.Ranks

namespace Nsparse

variable {F : Type} [LinearOrder F]

attribute [local instance] TopK.isTrans_ge TopK.antisymm_ge

/-! ### The best of some documents -/

section Best

variable [One F] [Neg F]

/-- **The `k` best of some documents**: different documents among them with the `k` largest scores,
in descending order, and behind them padding. -/
def BestRow (k : ℕ) (score : ℤ → F) (decode : F → F) (docs : Finset ℤ)
    (row : List F × List ℤ) : Prop :=
  ∃ found : List ℤ, found.Nodup ∧ (∀ doc ∈ found, doc ∈ docs) ∧
    found.map score = ((docs.val.map score).sort (· ≥ ·)).take k ∧
    row.1 = found.map (fun doc => decode (score doc)) ++ List.replicate (k - found.length) (-1) ∧
    row.2 = found ++ List.replicate (k - found.length) INVALID_IDX

/-- A row for every query. -/
def BestRows {A : Type} (k : ℕ) (score : A → ℤ → F) (decode : F → F) (docs : A → Finset ℤ)
    (queries : List A) (rows : SearchRows F) : Prop :=
  ∃ results : List (List F × List ℤ), rows = (results.map Prod.fst, results.map Prod.snd) ∧
    List.Forall₂ (fun query result => BestRow k (score query) decode (docs query) result)
      queries results

variable {k : ℕ} {score : ℤ → F} {decode : F → F} {docs : Finset ℤ} {row : List F × List ℤ}

omit [One F] [Neg F] in
/-- As many documents are found as there are, up to `k`. -/
theorem BestRow.length_found {found : List ℤ}
    (h : found.map score = ((docs.val.map score).sort (· ≥ ·)).take k) :
    found.length = min k docs.card := by
  have hlen := congrArg List.length h
  rwa [List.length_map, List.length_take, Multiset.length_sort, Multiset.card_map] at hlen

/-- **A row has `k` slots.** -/
theorem BestRow.length (h : BestRow k score decode docs row) :
    row.1.length = k ∧ row.2.length = k := by
  obtain ⟨found, -, -, hscores, hfst, hsnd⟩ := h
  have hlen := BestRow.length_found hscores
  rw [hfst, hsnd, List.length_append, List.length_append, List.length_map, List.length_replicate,
    List.length_replicate, hlen]
  omega

/-- **The scores are determined** by the documents, ties or not. -/
theorem BestRow.scores_eq (h : BestRow k score decode docs row) :
    row.1 = (((docs.val.map score).sort (· ≥ ·)).take k).map decode
      ++ List.replicate (k - docs.card) (-1) := by
  obtain ⟨found, -, -, hscores, hfst, -⟩ := h
  have hlen := BestRow.length_found hscores
  rw [hfst, ← hscores, List.map_map, hlen]
  congr 2
  omega

/-- Only the scores of the documents matter. -/
theorem BestRow.congr {other : ℤ → F} (h : BestRow k score decode docs row)
    (hscore : ∀ doc ∈ docs, score doc = other doc) : BestRow k other decode docs row := by
  obtain ⟨found, hnodup, hin, hscores, hfst, hsnd⟩ := h
  have hfound : ∀ doc ∈ found, score doc = other doc := fun doc hdoc => hscore doc (hin doc hdoc)
  refine ⟨found, hnodup, hin, ?_, ?_, hsnd⟩
  · rw [← List.map_congr_left hfound, hscores, Multiset.map_congr rfl hscore]
  · rw [hfst, List.map_congr_left fun doc hdoc => congrArg decode (hfound doc hdoc)]

/-- The `i`-th score of a row that has so many documents. -/
theorem BestRow.getD_scores (h : BestRow k score decode docs row) {i : ℕ} (hk : i < k)
    (hdocs : i < docs.card) (pad x : F) :
    row.1.getD i x = decode (Ranks.rank pad (docs.val.map score) i) := by
  have hsorted : i < ((docs.val.map score).sort (· ≥ ·)).length := by
    rwa [Multiset.length_sort, Multiset.card_map]
  have htake : i < ((((docs.val.map score).sort (· ≥ ·)).take k).map decode).length := by
    rw [List.length_map, List.length_take]
    exact lt_min hk hsorted
  rw [h.scores_eq, List.getD_append _ _ _ _ htake, List.getD_eq_getElem _ _ htake,
    List.getElem_map, List.getElem_take, Ranks.rank, List.getD_eq_getElem _ _ hsorted]

/-- **Fewer documents are no better**: where both rows have a document, the one with more documents
to choose from has a score that is no lower. -/
theorem BestRow.le_of_subset {fewer : Finset ℤ} {row' : List F × List ℤ} (hdecode : Monotone decode)
    (hsub : fewer ⊆ docs) (h : BestRow k score decode docs row)
    (h' : BestRow k score decode fewer row') {i : ℕ} (hk : i < k) (hi : i < fewer.card) (x : F) :
    row'.1.getD i x ≤ row.1.getD i x := by
  have hcard : i < docs.card := hi.trans_le (Finset.card_le_card hsub)
  rw [h.getD_scores hk hcard x, h'.getD_scores hk hi x]
  apply hdecode
  apply Ranks.rank_mono
  · exact Multiset.map_le_map (Finset.val_le_iff.mpr hsub)
  · rwa [Multiset.card_map]

/-- **The best of the offered documents**, drained in descending order, are such a row. -/
theorem bestRow_of_items {k : ℕ} {items : List (TopKItem F ℤ)}
    (hbest : TopK.IsTopK k TopKItem.score (docs.val.map fun doc => ⟨score doc, doc⟩)
      (items : Multiset (TopKItem F ℤ)))
    (hsorted : items.Pairwise fun a b => b.score ≤ a.score) :
    BestRow k score decode docs
      (resize ((items.map TopKItem.score).map decode) k (-1),
        resize (items.map TopKItem.id) k INVALID_IDX) := by
  have hitem : ∀ x ∈ items, x.id ∈ docs ∧ score x.id = x.score := by
    intro x hx
    obtain ⟨doc, hdoc, rfl⟩ :=
      Multiset.mem_map.mp (Multiset.mem_of_le hbest.le (Multiset.mem_coe.mpr hx))
    exact ⟨hdoc, rfl⟩
  have hids : ((items.map TopKItem.id : List ℤ) : Multiset ℤ) ≤ docs.val := by
    have hmap := Multiset.map_le_map (f := TopKItem.id) hbest.le
    rw [Multiset.map_map, Multiset.map_coe] at hmap
    exact hmap.trans_eq (Multiset.map_id _)
  have hscores : (items.map TopKItem.id).map score = items.map TopKItem.score := by
    rw [List.map_map]
    exact List.map_congr_left fun x hx => (hitem x hx).2
  have htake : items.map TopKItem.score = ((docs.val.map score).sort (· ≥ ·)).take k := by
    have hoffered : (docs.val.map fun doc => (⟨score doc, doc⟩ : TopKItem F ℤ)).map TopKItem.score
        = docs.val.map score := Multiset.map_map _ _ _
    rw [← hoffered, ← hbest.sort_scores_eq_take, Multiset.map_coe]
    refine @List.Perm.eq_of_pairwise _ (· ≥ ·) _ _ (fun a b _ _ hab hba => le_antisymm hba hab)
      (List.pairwise_map.mpr hsorted) (Multiset.pairwise_sort _ _) ?_
    rw [← Multiset.coe_eq_coe, Multiset.sort_eq]
  have hlen : items.length ≤ k := by
    rw [← Multiset.coe_card]
    exact hbest.card_le
  refine ⟨items.map TopKItem.id, ?_, ?_, hscores.trans htake, ?_, ?_⟩
  · exact Multiset.coe_nodup.mp (Multiset.nodup_of_le hids docs.nodup)
  · exact List.forall_mem_map.mpr fun x hx => (hitem x hx).1
  · rw [List.length_map]
    show resize ((items.map TopKItem.score).map decode) k (-1) = _
    rw [← hscores, List.map_map, List.map_map, resize, List.length_map,
      List.take_of_length_le (by rwa [List.length_map]), List.map_map]
    rfl
  · rw [List.length_map]
    show resize (items.map TopKItem.id) k INVALID_IDX = _
    rw [resize, List.length_map, List.take_of_length_le (by rwa [List.length_map])]

/-- **A drained heap** that was offered the documents, each once, is the row of the best. -/
theorem bestRow_of_holds {Q : ItemQueue F ℤ} {heap : TopKHolder Q} {k : ℤ}
    (h : heap.Holds k.toNat (docs.val.map fun doc => ⟨score doc, doc⟩)) :
    BestRow k.toNat score decode docs (paddedResult decode k heap.topKItemsDescending) := by
  obtain ⟨items, hitems, hsorted, heq⟩ := heap.topKItemsDescending_spec
  have hbest := h.best
  rw [← hitems] at hbest
  rw [heq]
  exact bestRow_of_items hbest hsorted

end Best

/-! ### The documents of a selector -/

/-- The documents of a list that pass the selector. -/
def selectedDocs (sel : Option IDSelector) (docs : List ℤ) : Finset ℤ :=
  docs.toFinset.filter fun doc => IDSelector.passes sel doc = true

theorem mem_selectedDocs {sel : Option IDSelector} {docs : List ℤ} {doc : ℤ} :
    doc ∈ selectedDocs sel docs ↔ doc ∈ docs ∧ IDSelector.passes sel doc = true := by
  rw [selectedDocs, Finset.mem_filter, List.mem_toFinset]

theorem selectedDocs_append (sel : Option IDSelector) (docs others : List ℤ) :
    selectedDocs sel (docs ++ others) = selectedDocs sel docs ∪ selectedDocs sel others := by
  rw [selectedDocs, List.toFinset_append, Finset.filter_union]
  rfl

theorem selectedDocs_nil (sel : Option IDSelector) : selectedDocs sel [] = ∅ := rfl

/-- With nothing seen before, the documents that are scored are those selected. -/
theorem newDocs_nil (sel : Option IDSelector) (docs : List ℤ) :
    newDocs sel [] docs = selectedDocs sel docs := by
  ext doc
  rw [mem_newDocs, mem_selectedDocs]
  exact ⟨fun h => ⟨h.1, h.2.2⟩, fun h => ⟨h.1, List.not_mem_nil, h.2⟩⟩

end Nsparse
