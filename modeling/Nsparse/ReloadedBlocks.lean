/-
Nsparse/ReloadedBlocks.lean

The blocks of a disk index that was written and mapped again.

A block holds the documents of its cluster with their rows (`Mirrors.blockDocs_eq`), so it is
scored as its cluster was, and a search by blocks answers as the search of the vectors did
(`Mirrors.blockQueries_eq`).
-/
import Nsparse.BlockScores
import Nsparse.DiskReload

namespace Nsparse

open Wire

variable {F : Type} {y : DiskSeismicIndex F} {lists : List InvertedListClusters}
  {vectors : SparseVectors Code}

/-- **A block holds the documents of its cluster**, with their rows. -/
theorem DiskSeismicIndex.Mirrors.blockDocs_eq (h : y.Mirrors lists vectors)
    (lists' : List InvertedListClusters) {pl cid : ℕ}
    (hcluster : ∃ l, lists[pl]? = some l ∧ cid < l.nClusters) :
    blockDocs (.blocks y.fwd) lists' vectors.elementSize pl cid
      = blockDocs (.rows vectors) lists vectors.elementSize pl cid := by
  obtain ⟨x, hx, rfl, rfl, hrestored⟩ := h.forward
  obtain ⟨l, hl, hcid⟩ := hcluster
  have hcluster : clusterOf x.lists pl cid = some (l.getDocs cid) := by
    rw [clusterOf, hl]
    exact if_pos hcid
  have hsmall : cid < 2 ^ 32 := by
    have := h.clusters l (List.mem_of_getElem? hl)
    omega
  obtain ⟨view, hview, hholds⟩ := hrestored.found _ _ _ hsmall hcluster
  have hdocs : (x.lists.getD pl .empty).getDocs cid = l.getDocs cid := by
    rw [List.getD_eq_getElem?_getD, hl]
    rfl
  show (y.fwd.block pl cid).map _ = .ok _
  rw [hview, hdocs]
  -- the ids of the block, with their places, are the documents of the cluster
  have hids : l.getDocs cid
      = (view.docIdList y.fwd.mapping).zipIdx.map fun doc => (doc.1 : ℤ) := by
    rw [← hholds.docIds]
    conv_lhs => rw [← List.zipIdx_map_fst 0 (view.docIdList y.fwd.mapping), List.map_map]
    rfl
  rw [hids, List.map_map]
  refine congrArg Except.ok (List.map_congr_left fun doc hdoc => ?_)
  have hget : (view.docIdList y.fwd.mapping)[doc.2]? = some doc.1 :=
    List.mem_zipIdx_iff_getElem?.mp hdoc
  have hid : (l.getDocs cid)[doc.2]? = some (doc.1 : ℤ) := by
    rw [← hholds.docIds, List.getElem?_map, hget]
    rfl
  obtain ⟨hlt, heq⟩ := List.getElem?_eq_some_iff.mp hid
  have hsmall : (doc.1 : ℤ) < 2 ^ 31 := by
    have hmem : (⟨pl, cid, l.getDocs cid⟩ : InlineBlock) ∈ blocksOf x.lists :=
      List.mem_flatMap.mpr ⟨(l, pl), List.mem_zipIdx_iff_getElem?.mpr hl,
        List.mem_map.mpr ⟨cid, List.mem_range.mpr hcid, rfl⟩⟩
    exact hx.ids _ hmem _ (List.mem_of_getElem? hid)
  show (toIdx doc.1, _) = ((doc.1 : ℤ), _)
  rw [rowAt_eq hholds hlt, heq, toIdx_of_lt (Int.natCast_nonneg _) hsmall]

/-- The blocks of a reloaded index can be read. -/
theorem DiskSeismicIndex.Mirrors.blocksHold (h : y.Mirrors lists vectors)
    (lists' : List InvertedListClusters) {blocks : List (BlockCandidate F)}
    (hblocks : ∀ candidate ∈ blocks,
      ∃ l, lists[candidate.pl]? = some l ∧ candidate.cid < l.nClusters) :
    BlocksHold (.blocks y.fwd) lists' vectors.elementSize
      (fun pl cid => (lists.getD pl .empty).getDocs cid) (docRow vectors) blocks :=
  fun candidate hcandidate => h.blockDocs_eq lists' (hblocks candidate hcandidate)

/-! ### Search -/

variable [Zero F] [One F] [Neg F] [Add F] [Sub F] [Mul F] [LinearOrder F] [FloatFormat F]

omit [One F] [Neg F] in
/-- The summaries alone make the candidates. -/
theorem blockCandidates_summariesOnly (lists : List InvertedListClusters) (query : SparseRow Code)
    (cuts : List ℕ) :
    blockCandidates (F := F) (lists.map InvertedListClusters.summariesOnly) query cuts
      = blockCandidates lists query cuts := by
  unfold blockCandidates
  congr 1
  funext term
  rw [List.getElem?_map]
  rcases lists[term]? with - | l
  · rfl
  · rfl

variable {Q : ItemQueue F ℤ}

omit [One F] [Neg F] in
/-- A block is scored as its cluster was. -/
theorem DiskSeismicIndex.Mirrors.scoreBlock_eq (h : y.Mirrors lists vectors) (dense : List Code)
    (sel : Option IDSelector) {candidate : BlockCandidate F}
    (hcandidate : ∃ l, lists[candidate.pl]? = some l ∧ candidate.cid < l.nClusters) (s : Visit Q) :
    scoreBlock (.blocks y.fwd) (lists.map InvertedListClusters.summariesOnly) vectors.elementSize
        dense sel candidate s
      = scoreBlock (.rows vectors) lists vectors.elementSize dense sel candidate s := by
  rw [scoreBlock_eq_scoreRows, scoreBlock_eq_scoreRows, h.blockDocs_eq _ hcandidate]

/-- **The blocks answer as the rows did**, whatever the queries and the settings. -/
theorem DiskSeismicIndex.Mirrors.blockQueries_eq (h : y.Mirrors lists vectors)
    (T : ItemQueue F ℕ) (nth : StdNthElement) {c : BlockSetting F}
    (hc : c.format.elementSize = vectors.elementSize) (queries : List (SparseRow Code))
    (dense : List Code) :
    blockQueries Q T nth (.blocks y.fwd) (lists.map InvertedListClusters.summariesOnly) c queries
        dense
      = blockQueries Q T nth (.rows vectors) lists c queries dense := by
  have hquery : ∀ cuts query dense,
      blockBudgetQuery Q nth (.blocks y.fwd) (lists.map InvertedListClusters.summariesOnly) c cuts
          query dense
        = blockBudgetQuery Q nth (.rows vectors) lists c cuts query dense := by
    intro cuts query dense
    unfold blockBudgetQuery
    rw [blockCandidates_summariesOnly, hc]
    congr 1
    funext dense
    dsimp only
    congr 1
    funext heap
    congr 1
    apply foldlM_congr
    intro candidate hcandidate s
    exact h.scoreBlock_eq dense c.sel (mem_blockCandidates (mem_selectBlocks hcandidate)) s
  induction queries generalizing dense with
  | nil => rfl
  | cons query queries ih =>
      rw [blockQueries, blockQueries]
      congr 1
      funext cuts
      rw [hquery]
      congr 1
      funext ⟨items, dense⟩
      dsimp only
      rw [ih]

end Nsparse
