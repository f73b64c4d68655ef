/-
Nsparse/BlockBudget.lean

What a larger block budget does to a result.

The blocks a search scores are `k_prime` of best summary score, whichever `nth_element` takes
among equal ones (`selectBlocks_selectable`, `exists_selectBlocks`).  The result lists the best
of their documents by rank (`blockBudgetQuery_eq_ok`), so a larger budget lowers no rank exactly
when the documents of any of its selections are never worse than those of the smaller one
(`budgetMonotone_iff`): a document dropped at a tie was worth no more than the padding, and no
document added, or kept beside it, is worth less than the padding.
-/
import Nsparse.BlockOrder
import Nsparse.Lib.Ranks

namespace Nsparse

open Ranks

variable {F : Type} [LinearOrder F]

/-! ### The blocks selected -/

/-- The blocks a budget may select: of best summary score, any of those at a tie. -/
def Selectable (candidates : List (BlockCandidate F)) (kPrime : ℤ)
    (blocks : List (BlockCandidate F)) : Prop :=
  TopK.IsTopK kPrime.toNat BlockCandidate.score (candidates : Multiset (BlockCandidate F))
    (blocks : Multiset (BlockCandidate F))

/-- Whatever `nth_element` does, its selection is one of them. -/
theorem selectBlocks_selectable (nth : StdNthElement) (candidates : List (BlockCandidate F))
    (kPrime : ℤ) : Selectable candidates kPrime (selectBlocks nth candidates kPrime) := by
  unfold selectBlocks
  dsimp only
  split
  · rename_i hlt
    set budget := min kPrime.toNat candidates.length
    set l := nth.select (fun a b : BlockCandidate F => decide (b.score < a.score)) budget candidates
      with hl
    have hperm : l.Perm candidates := nth.perm _ _ candidates
    refine ⟨?_, ((l.drop budget : List (BlockCandidate F)) : Multiset (BlockCandidate F)), ?_, ?_⟩
    · rw [Multiset.coe_card, Multiset.coe_card, List.length_take, hperm.length_eq]
      exact min_eq_left (min_le_right _ _)
    · rw [Multiset.coe_add, List.take_append_drop]
      exact Multiset.coe_eq_coe.mpr hperm.symm
    · intro a ha b hb
      have hparted := nth.parted (fun a b : BlockCandidate F => decide (b.score < a.score))
        (fun a b hab => decide_eq_false (of_decide_eq_true hab).not_gt)
        (fun a b c hab hbc => decide_eq_false
          ((not_lt.mp (of_decide_eq_false hab)).trans (not_lt.mp (of_decide_eq_false hbc))).not_gt)
        budget candidates a ha b hb
      exact not_lt.mp (of_decide_eq_false hparted)
  · rename_i hlt
    have hall : candidates.length ≤ kPrime.toNat := by omega
    refine ⟨?_, 0, (add_zero _).symm, fun a _ b hb => absurd hb (Multiset.notMem_zero b)⟩
    rw [Multiset.coe_card, min_eq_right hall]

section Choosing

variable {β : Type} (chosen : ℕ → List β)

/-- `nth_element` makes its choice of a list where it may, and sorts elsewhere. -/
noncomputable def StdNthElement.choosing : StdNthElement :=
  open Classical in
  { select := fun {α} lt n l =>
      if h : ∃ l' : List α, (l'.Perm l ∧ ∀ a ∈ l'.take n, ∀ b ∈ l'.drop n, lt b a = false) ∧
          HEq l' (chosen n) then h.choose
      else insertionSort.sort lt l
    perm := fun lt n l => by
      split
      · rename_i h
        exact h.choose_spec.1.1
      · exact insertionSort.perm lt l
    parted := fun lt hasymm htrans n l => by
      split
      · rename_i h
        exact h.choose_spec.1.2
      · exact insertionSort.nthElement.parted lt hasymm htrans n l }

theorem StdNthElement.choosing_select {lt : β → β → Bool} {n : ℕ} {l : List β}
    (hperm : (chosen n).Perm l)
    (hparted : ∀ a ∈ (chosen n).take n, ∀ b ∈ (chosen n).drop n, lt b a = false) :
    (StdNthElement.choosing chosen).select lt n l = chosen n := by
  have hchoice : ∃ l' : List β,
      (l'.Perm l ∧ ∀ a ∈ l'.take n, ∀ b ∈ l'.drop n, lt b a = false) ∧ HEq l' (chosen n) :=
    ⟨_, ⟨hperm, hparted⟩, HEq.rfl⟩
  exact (dif_pos hchoice).trans (eq_of_heq hchoice.choose_spec.2)

end Choosing

/-- **Any selection is made** by some `nth_element`, and by the same one for every budget. -/
theorem exists_selectBlocks (candidates : List (BlockCandidate F))
    (blocks : ℕ → List (BlockCandidate F)) :
    ∃ nth : StdNthElement, ∀ kPrime : ℤ, Selectable candidates kPrime (blocks kPrime.toNat) →
      (selectBlocks nth candidates kPrime).Perm (blocks kPrime.toNat) := by
  refine ⟨.choosing fun n => blocks n ++ candidates.diff (blocks n), fun kPrime hsel => ?_⟩
  obtain ⟨hcard, rest, hall, hbest⟩ := hsel
  rw [Multiset.coe_card, Multiset.coe_card] at hcard
  have hsub : (blocks kPrime.toNat).Subperm candidates :=
    Multiset.coe_le.mp (hall ▸ Multiset.le_add_right _ _)
  have hperm : (blocks kPrime.toNat ++ candidates.diff (blocks kPrime.toNat)).Perm candidates :=
    List.subperm_append_diff_self_of_count_le (List.subperm_ext_iff.mp hsub)
  unfold selectBlocks
  dsimp only
  split
  · rename_i hlt
    have hbudget : min kPrime.toNat candidates.length = kPrime.toNat := by omega
    rw [hbudget] at hcard ⊢
    rw [StdNthElement.choosing_select _ hperm]
    · rw [List.take_left' hcard]
    · intro a ha b hb
      rw [List.take_left' hcard] at ha
      rw [List.drop_left' hcard] at hb
      have hrest : rest = (candidates.diff (blocks kPrime.toNat) : List (BlockCandidate F)) := by
        have := Multiset.coe_eq_coe.mpr hperm
        rw [← Multiset.coe_add, hall] at this
        exact (add_left_cancel this).symm
      apply decide_eq_false
      apply not_lt.mpr
      apply hbest a ha b
      rw [hrest]
      exact hb
  · rename_i hlt
    refine (hsub.perm_of_length_le ?_).symm
    omega

/-! ### One query -/

section Documents

variable {F : Type} {docsOf : ℕ → ℕ → List ℤ}

/-- The documents of blocks. -/
def blockDocSet (docsOf : ℕ → ℕ → List ℤ) (blocks : List (BlockCandidate F)) : Finset ℤ :=
  (docsOfBlocks docsOf blocks).toFinset

theorem scoredDocs_eq_filter (sel : Option IDSelector) (blocks : List (BlockCandidate F)) :
    scoredDocs sel docsOf blocks
      = (blockDocSet docsOf blocks).filter fun doc => IDSelector.passes sel doc = true := by
  ext doc
  rw [scoredDocs, mem_newDocs, Finset.mem_filter, blockDocSet, List.mem_toFinset]
  simp

end Documents

/-- The first `k` of a list, padded, by index. -/
theorem resize_take {α : Type} (l : List α) (k : ℕ) (x : α) :
    resize (l.take k) k x = (List.range k).map fun i => l.getD i x := by
  apply List.ext_getElem
  · simp [resize]
  · intro i hi hi'
    have hik : i < k := by simpa using hi'
    rw [List.getElem_map, List.getElem_range]
    simp only [resize, List.take_take, min_self]
    by_cases hlt : i < l.length
    · rw [List.getElem_append_left (by rw [List.length_take]; omega), List.getElem_take,
        List.getD_eq_getElem _ _ hlt]
    · rw [List.getElem_append_right (by rw [List.length_take]; omega), List.getElem_replicate,
        List.getD_eq_default _ _ (not_lt.mp hlt)]

variable [Zero F] [One F] [Neg F] [Add F] [Sub F] [Mul F] [FloatFormat F]

section Query

variable {source : ForwardSource} {lists : List InvertedListClusters} {format : QueryFormat F}
  {docsOf : ℕ → ℕ → List ℤ} {rowOf : ℤ → SparseRow Code} {cuts : List ℕ}
  {query : SparseRow Code} {dense : List Code}

/-- What a document is worth to a query: its score as it is returned. -/
def docValue (format : QueryFormat F) (dense : List Code) (query : SparseRow Code)
    (rowOf : ℤ → SparseRow Code) (doc : ℤ) : F :=
  format.decodeScore (similarityOf format.elementSize (written dense query) (rowOf doc))

omit [Zero F] [Add F] [Sub F] [Mul F] [FloatFormat F] in
/-- The ranks of a result that holds the best of what was offered. -/
theorem paddedResult_eq_ranks {Q : ItemQueue F ℤ} {heap : TopKHolder Q} {k : ℤ}
    (hdecode : Monotone format.decodeScore) {offered : Multiset (TopKItem F ℤ)}
    (h : heap.Holds k.toNat offered) :
    (paddedResult format.decodeScore k heap.topKItemsDescending).1
      = (List.range k.toNat).map
          (rank (-1) ((offered.map TopKItem.score).map format.decodeScore)) := by
  rw [paddedResult, h.scores_eq_take, List.map_take, map_sort hdecode, resize_take]
  rfl

omit [One F] [Neg F] in
/-- Scattering and clearing leave the scoring loop. -/
theorem blockBudgetQuery_eq (Q : ItemQueue F ℤ) (nth : StdNthElement) (source : ForwardSource)
    (lists : List InvertedListClusters) (c : BlockSetting F) (cuts : List ℕ)
    (hquery : TermsWithin dense.length query) :
    ∃ dense' : List Code, blockBudgetQuery Q nth source lists c cuts query dense
      = (blockResult Q source lists c.format.elementSize (written dense query) c.sel c.k
          (selectBlocks nth (blockCandidates lists query cuts) c.kPrime)).map
            fun items => (items, dense') := by
  have hclear : TermsWithin (written dense query).length
      (query.map fun entry => (entry.1, zeroCode c.format.elementSize)) := by
    intro cleared hcleared
    obtain ⟨entry, hentry, rfl⟩ := List.mem_map.mp hcleared
    rw [length_written]
    exact hquery entry hentry
  refine ⟨written (written dense query)
    (query.map fun entry => (entry.1, zeroCode c.format.elementSize)), ?_⟩
  rw [blockBudgetQuery, scatter_eq hquery, blockResult]
  rcases TopKHolder.new Q c.k with e | heap
  · rfl
  · show (scoreBlocks source lists c.format.elementSize (written dense query) c.sel _ _).bind _
      = ((scoreBlocks source lists c.format.elementSize (written dense query) c.sel _ _).bind _).map _
    rcases scoreBlocks source lists c.format.elementSize (written dense query) c.sel
      (selectBlocks nth (blockCandidates lists query cuts) c.kPrime) ⟨heap, []⟩ with e | s
    · rfl
    · show (clearBuffer _ _ _).bind _ = _
      rw [clearBuffer, scatter_eq hclear]
      rfl

/-- **The result of a query**: by rank, the values of the selected documents that pass. -/
theorem blockBudgetQuery_eq_ok (Q : ItemQueue F ℤ) (nth : StdNthElement) {k : ℤ} (cut kPrime : ℤ)
    (sel : Option IDSelector) {blocks : List (BlockCandidate F)} (hk : 0 < k)
    (hdecode : Monotone format.decodeScore) (hquery : TermsWithin dense.length query)
    (hblocks : BlocksHold source lists format.elementSize docsOf rowOf
      (blockCandidates (F := F) lists query cuts))
    (hperm : (selectBlocks nth (blockCandidates lists query cuts) kPrime).Perm blocks)
    (hwithin : ∀ doc ∈ blockDocSet docsOf blocks, TermsWithin dense.length (rowOf doc)) :
    ∃ r dense', blockBudgetQuery Q nth source lists ⟨format, k, cut, kPrime, sel⟩ cuts query dense
        = .ok (r, dense') ∧
      (paddedResult format.decodeScore k r).1 = (List.range k.toNat).map
        (rank (-1) (valuesOf (docValue format dense query rowOf) (IDSelector.passes sel)
          (blockDocSet docsOf blocks))) := by
  obtain ⟨dense', heq⟩ := blockBudgetQuery_eq Q nth source lists ⟨format, k, cut, kPrime, sel⟩ cuts hquery
  have hselected : BlocksHold source lists format.elementSize docsOf rowOf
      (selectBlocks nth (blockCandidates lists query cuts) kPrime) :=
    fun candidate hcandidate => hblocks candidate (mem_selectBlocks hcandidate)
  have hscored : ∀ doc ∈ scoredDocs sel docsOf
      (selectBlocks nth (blockCandidates (F := F) lists query cuts) kPrime),
      TermsWithin (written dense query).length (rowOf doc) := by
    intro doc hdoc
    rw [scoredDocs_perm hperm, scoredDocs_eq_filter] at hdoc
    rw [length_written]
    exact hwithin doc (Finset.mem_filter.mp hdoc).1
  have hok := blockResult_eq_ok Q hk hselected hscored
  refine ⟨_, dense', by rw [heq, hok]; rfl, ?_⟩
  rw [paddedResult_eq_ranks hdecode (blockHeap_holds Q hk), map_score_docItem, scoredDocs_perm hperm,
    scoredDocs_eq_filter, Multiset.map_map]
  rfl

omit [One F] [Neg F] in
/-- A query that returned had no term outside the buffer, nor any of the documents. -/
theorem within_of_blockBudgetQuery_eq_ok {Q : ItemQueue F ℤ} {nth : StdNthElement} {k cut kPrime : ℤ}
    {blocks : List (BlockCandidate F)} (hk : 0 < k)
    (hblocks : BlocksHold source lists format.elementSize docsOf rowOf
      (blockCandidates (F := F) lists query cuts))
    (hperm : (selectBlocks nth (blockCandidates lists query cuts) kPrime).Perm blocks)
    {r : (List F × List ℤ) × List Code}
    (h : blockBudgetQuery Q nth source lists ⟨format, k, cut, kPrime, none⟩ cuts query dense = .ok r) :
    TermsWithin dense.length query ∧
      ∀ doc ∈ blockDocSet docsOf blocks, TermsWithin dense.length (rowOf doc) := by
  have hquery : TermsWithin dense.length query := by
    by_contra hout
    rw [blockBudgetQuery, scatter_eq_error hout] at h
    cases h
  refine ⟨hquery, fun doc hdoc => ?_⟩
  by_contra hout
  obtain ⟨dense', heq⟩ := blockBudgetQuery_eq Q nth source lists ⟨format, k, cut, kPrime, none⟩ cuts hquery
  have hselected : BlocksHold source lists format.elementSize docsOf rowOf
      (selectBlocks nth (blockCandidates lists query cuts) kPrime) :=
    fun candidate hcandidate => hblocks candidate (mem_selectBlocks hcandidate)
  rw [heq, blockResult_eq_error Q hk hselected ⟨doc, ?_, by rwa [length_written]⟩] at h
  · cases h
  · rw [scoredDocs_perm hperm, scoredDocs_eq_filter]
    exact Finset.mem_filter.mpr ⟨hdoc, rfl⟩

/-! ### Two budgets -/

/-- **A larger budget never hurts**: whatever the queue, `nth_element`, `k` and the selector off the
exact path, both budgets give a result, and no rank of the second is below that of the first. -/
def BudgetMonotone (source : ForwardSource) (lists : List InvertedListClusters)
    (format : QueryFormat F) (cuts : List ℕ) (query : SparseRow Code) (dense : List Code)
    (kPrime kPrime' : ℤ) : Prop :=
  ∀ (Q : ItemQueue F ℤ) (nth : StdNthElement) (k cut : ℤ) (sel : Option IDSelector),
    0 < k → exactMatchIds sel k = none →
      ∃ r r' d d',
        blockBudgetQuery Q nth source lists ⟨format, k, cut, kPrime, sel⟩ cuts query dense
          = .ok (r, d) ∧
        blockBudgetQuery Q nth source lists ⟨format, k, cut, kPrime', sel⟩ cuts query dense
          = .ok (r', d') ∧
        List.Forall₂ (· ≤ ·) (paddedResult format.decodeScore k r).1
          (paddedResult format.decodeScore k r').1

/-- **Exactly when a larger budget never hurts.** -/
theorem budgetMonotone_iff {kPrime kPrime' : ℤ} (hpos : 0 < kPrime) (hle : kPrime ≤ kPrime')
    (hdecode : Monotone format.decodeScore)
    (hblocks : BlocksHold source lists format.elementSize docsOf rowOf
      (blockCandidates (F := F) lists query cuts)) :
    BudgetMonotone source lists format cuts query dense kPrime kPrime' ↔
      TermsWithin dense.length query ∧
        ∀ blocks blocks' : List (BlockCandidate F),
          Selectable (blockCandidates lists query cuts) kPrime blocks →
          Selectable (blockCandidates lists query cuts) kPrime' blocks' →
            (∀ doc ∈ blockDocSet docsOf blocks ∪ blockDocSet docsOf blocks',
              TermsWithin dense.length (rowOf doc)) ∧
            (kPrime = kPrime' ∨ NeverWorse (-1) (docValue format dense query rowOf)
              (blockDocSet docsOf blocks) (blockDocSet docsOf blocks')) := by
  set candidates : List (BlockCandidate F) := blockCandidates lists query cuts with hcandidates
  constructor
  · intro h
    obtain ⟨r, r', d, d', hok, -, -⟩ := h (sortedQueue TopKItem.score) insertionSort.nthElement 1 0
      none one_pos rfl
    refine ⟨(within_of_blockBudgetQuery_eq_ok one_pos hblocks (.refl _) hok).1,
      fun blocks blocks' hsel hsel' => ?_⟩
    have hquery := (within_of_blockBudgetQuery_eq_ok one_pos hblocks (.refl _) hok).1
    -- an `nth_element` that selects the first blocks, and one that selects the others
    have hwithin : ∀ doc ∈ blockDocSet docsOf blocks, TermsWithin dense.length (rowOf doc) := by
      obtain ⟨nth, hnth⟩ := exists_selectBlocks candidates fun _ => blocks
      obtain ⟨r, r', d, d', hok, -, -⟩ := h (sortedQueue TopKItem.score) nth 1 0 none one_pos rfl
      exact (within_of_blockBudgetQuery_eq_ok one_pos hblocks (hnth kPrime hsel) hok).2
    have hwithin' : ∀ doc ∈ blockDocSet docsOf blocks', TermsWithin dense.length (rowOf doc) := by
      obtain ⟨nth, hnth⟩ := exists_selectBlocks candidates fun _ => blocks'
      obtain ⟨r, r', d, d', -, hok', -⟩ := h (sortedQueue TopKItem.score) nth 1 0 none one_pos rfl
      exact (within_of_blockBudgetQuery_eq_ok one_pos hblocks (hnth kPrime' hsel') hok').2
    refine ⟨fun doc hdoc => ?_, ?_⟩
    · rcases Finset.mem_union.mp hdoc with hdoc | hdoc
      · exact hwithin doc hdoc
      · exact hwithin' doc hdoc
    · rcases eq_or_ne kPrime kPrime' with heq | hne
      · exact .inl heq
      · right
        -- one that selects both, each for its budget
        obtain ⟨nth, hnth⟩ := exists_selectBlocks candidates
          fun n => if n = kPrime.toNat then blocks else blocks'
        have hperm := hnth kPrime (by rwa [if_pos rfl])
        have hother : kPrime'.toNat ≠ kPrime.toNat := by omega
        have hperm' := hnth kPrime' (by rwa [if_neg hother])
        rw [if_pos rfl] at hperm
        rw [if_neg hother] at hperm'
        refine rank_le_iff.mp fun selected i => ?_
        have hk : (0 : ℤ) < i + 1 := by omega
        obtain ⟨r, r', d, d', hok, hok', hranks⟩ := h (sortedQueue TopKItem.score) nth (i + 1) 0
          (some (.plain selected)) hk rfl
        obtain ⟨r₁, d₁, hrun, hrun_ranks⟩ := blockBudgetQuery_eq_ok (sortedQueue TopKItem.score) nth 0
          kPrime (some (.plain selected)) hk hdecode hquery hblocks hperm hwithin
        obtain ⟨r₂, d₂, hrun', hrun_ranks'⟩ := blockBudgetQuery_eq_ok (sortedQueue TopKItem.score) nth
          0 kPrime' (some (.plain selected)) hk hdecode hquery hblocks hperm' hwithin'
        obtain ⟨rfl, -⟩ := Prod.mk.inj (Except.ok.inj (hok.symm.trans hrun))
        obtain ⟨rfl, -⟩ := Prod.mk.inj (Except.ok.inj (hok'.symm.trans hrun'))
        rw [hrun_ranks, hrun_ranks', List.forall₂_map_left_iff, List.forall₂_map_right_iff,
          List.forall₂_same] at hranks
        exact hranks i (List.mem_range.mpr (by omega))
  · rintro ⟨hquery, hcond⟩ Q nth k cut sel hk -
    obtain ⟨hwithin, hworse⟩ := hcond _ _ (selectBlocks_selectable nth candidates kPrime)
      (selectBlocks_selectable nth candidates kPrime')
    obtain ⟨r, d, hok, hranks⟩ := blockBudgetQuery_eq_ok Q nth cut kPrime sel hk hdecode hquery
      hblocks (.refl _) fun doc hdoc => hwithin doc (Finset.mem_union_left _ hdoc)
    obtain ⟨r', d', hok', hranks'⟩ := blockBudgetQuery_eq_ok Q nth cut kPrime' sel hk hdecode hquery
      hblocks (.refl _) fun doc hdoc => hwithin doc (Finset.mem_union_right _ hdoc)
    refine ⟨r, r', d, d', hok, hok', ?_⟩
    rw [hranks, hranks', List.forall₂_map_left_iff, List.forall₂_map_right_iff, List.forall₂_same]
    intro i _
    rcases hworse with rfl | hworse
    · exact le_rfl
    · exact hworse.rank_le _ i

end Query

/-! ### A document worth less than the padding -/

/-- Two documents, the second of a negative value. -/
def lowCorpus : SparseVectors Code :=
  ⟨4, 1, [0, 1, 2], [0, 0], [FloatFormat.toBits (5 : ℤ), FloatFormat.toBits (-3 : ℤ)]⟩

/-- A cluster for either. -/
def lowList : InvertedListClusters :=
  (InvertedListClusters.ofDocs [[0], [1]]).buildTranspose insertionSort lowCorpus

theorem budgetMonotone_iff_low :
    BudgetMonotone (.rows lowCorpus) [lowList] (floatQueries ℤ) [0] [(0, FloatFormat.toBits (1 : ℤ))]
        (zeroBuffer 1 U32) 1 2 ↔
      TermsWithin (zeroBuffer 1 U32).length [(0, FloatFormat.toBits (1 : ℤ))] ∧
        ∀ blocks blocks' : List (BlockCandidate ℤ),
          Selectable (blockCandidates [lowList] [(0, FloatFormat.toBits (1 : ℤ))] [0]) 1 blocks →
          Selectable (blockCandidates [lowList] [(0, FloatFormat.toBits (1 : ℤ))] [0]) 2 blocks' →
            (∀ doc ∈ blockDocSet (fun pl cid => (([lowList] : List _).getD pl .empty).getDocs cid) blocks
                ∪ blockDocSet (fun pl cid => (([lowList] : List _).getD pl .empty).getDocs cid) blocks',
              TermsWithin (zeroBuffer 1 U32).length (docRow lowCorpus doc)) ∧
            ((1 : ℤ) = 2 ∨ NeverWorse (-1) (docValue (floatQueries ℤ) (zeroBuffer 1 U32)
                [(0, FloatFormat.toBits (1 : ℤ))] (docRow lowCorpus))
              (blockDocSet (fun pl cid => (([lowList] : List _).getD pl .empty).getDocs cid) blocks)
              (blockDocSet (fun pl cid => (([lowList] : List _).getD pl .empty).getDocs cid)
                blocks')) :=
  budgetMonotone_iff one_pos (by decide) monotone_id (blocksHold_rows lowCorpus [lowList] U32 _)

/-- **A document below the padding takes its place** when the budget reaches its block. -/
theorem budget_hurts :
    ¬ BudgetMonotone (.rows lowCorpus) [lowList] (floatQueries ℤ) [0]
      [(0, FloatFormat.toBits (1 : ℤ))] (zeroBuffer 1 U32) 1 2 := by
  intro h
  obtain ⟨r, r', d, d', hok, hok', hranks⟩ := h (sortedQueue TopKItem.score)
    insertionSort.nthElement 2 0 none (by decide) rfl
  have hone : blockBudgetQuery (sortedQueue TopKItem.score) insertionSort.nthElement (.rows lowCorpus)
      [lowList] ⟨floatQueries ℤ, 2, 0, 1, none⟩ [0] [(0, FloatFormat.toBits (1 : ℤ))]
      (zeroBuffer 1 U32) = .ok (([5], [0]), zeroBuffer 1 U32) := by decide +kernel
  have htwo : blockBudgetQuery (sortedQueue TopKItem.score) insertionSort.nthElement (.rows lowCorpus)
      [lowList] ⟨floatQueries ℤ, 2, 0, 2, none⟩ [0] [(0, FloatFormat.toBits (1 : ℤ))]
      (zeroBuffer 1 U32) = .ok (([5, -3], [0, 1]), zeroBuffer 1 U32) := by decide +kernel
  obtain ⟨rfl, -⟩ := Prod.mk.inj (Except.ok.inj (hok.symm.trans hone))
  obtain ⟨rfl, -⟩ := Prod.mk.inj (Except.ok.inj (hok'.symm.trans htwo))
  exact absurd hranks (by decide)

end Nsparse
