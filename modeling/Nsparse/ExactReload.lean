/-
Nsparse/ExactReload.lean

Exact match before and after a disk index is written and mapped again.

Both paths offer the listed documents to a heap, in one order and with the same scores;
they differ only in when they decode what it returns (`decodeFilled_padded`).  So they
have one answer (`Reloads.searchDirectory_eq`).  A mapped index without blocks does not
get as far as its directory: its search answers with padding, which is right as long as
no document of the index is listed (`exact_match_survives_reload_iff`).
-/
import Nsparse.ReloadedSearch
import Nsparse.ResultRows

namespace Nsparse

open DiskSeismicIndex

variable {F : Type}

/-! ### What a heap of listed documents holds -/

section Offered

variable [LinearOrder F] {Q : ItemQueue F ℤ}

/-- Whatever their scores, it is the listed documents that are offered. -/
theorem offerDocs_ids {score : ℤ → Except SearchFault F} {ids : List ℤ} {heap heap' : TopKHolder Q}
    {k : ℕ} {offered : Multiset (TopKItem F ℤ)} (hheap : heap.Holds k offered)
    (h : offerDocs score ids heap = .ok heap') :
    ∃ scored : Multiset (TopKItem F ℤ), scored.map TopKItem.id = (ids : Multiset ℤ) ∧
      heap'.Holds k (scored + offered) := by
  induction ids generalizing heap offered with
  | nil =>
      obtain rfl := Except.ok.inj h
      exact ⟨0, rfl, (zero_add offered).symm ▸ hheap⟩
  | cons d ids ih =>
      rw [offerDocs] at h
      obtain ⟨s, -, h⟩ := bind_eq_ok h
      obtain ⟨scored, hids, hholds⟩ := ih (hheap.add s d) h
      refine ⟨⟨s, d⟩ ::ₘ scored, ?_, ?_⟩
      · rw [Multiset.map_cons, hids]
        rfl
      · rwa [Multiset.cons_add, ← Multiset.add_cons]

/-- The labels a heap returns were listed, and there are labels when any document was. -/
theorem labels_of_offerDocs {score : ℤ → Except SearchFault F} {ids : List ℤ}
    {heap heap' : TopKHolder Q} {k : ℤ} (hnew : TopKHolder.new Q k = .ok heap)
    (h : offerDocs score ids heap = .ok heap') :
    ∃ (ds : List F) (ls : List ℤ), heap'.topKItemsDescending = (ds, ls) ∧ ds.length = ls.length ∧
      (∀ l ∈ ls, l ∈ ids) ∧ (ls = [] → ids = []) := by
  have hholds := TopKHolder.new_holds hnew
  obtain ⟨scored, hids, hkept⟩ := offerDocs_ids hholds h
  rw [add_zero] at hkept
  obtain ⟨l, hitems, -, heq⟩ := heap'.topKItemsDescending_spec
  refine ⟨_, _, heq, by rw [List.length_map, List.length_map], fun label hlabel => ?_,
    fun hnone => ?_⟩
  · obtain ⟨item, hitem, rfl⟩ := List.mem_map.mp hlabel
    have hscored : item ∈ scored := by
      apply Multiset.mem_of_le hkept.best.le
      rw [← hitems]
      exact hitem
    have hmem := Multiset.mem_map_of_mem TopKItem.id hscored
    rwa [hids] at hmem
  · -- a heap with room keeps something
    have hcard := hkept.best.card_eq
    rw [← hitems, List.map_eq_nil_iff.mp hnone, Multiset.coe_nil, Multiset.card_zero] at hcard
    have hpos := hkept.pos
    have hempty : scored.card = 0 := by omega
    have hlen := congrArg Multiset.card hids
    rw [Multiset.card_map, hempty, Multiset.coe_card] at hlen
    exact List.length_eq_zero_iff.mp hlen.symm

end Offered

/-! ### Batches -/

/-- Queries that differ in what is made of their scores. -/
theorem eachAlone_map {single single' : SparseRow Code → Except SearchFault (List F × List ℤ)}
    {f : List F → List ℤ → List F} {queries : List (SparseRow Code)}
    (h : ∀ query ∈ queries, single' query = (single query).map fun r => (f r.1 r.2, r.2)) :
    eachAlone single' queries
      = (eachAlone single queries).map fun rows => (rows.1.zipWith f rows.2, rows.2) := by
  induction queries with
  | nil => rfl
  | cons query queries ih =>
      obtain ⟨hquery, hqueries⟩ := List.forall_mem_cons.mp h
      rw [eachAlone, eachAlone, hquery, ih hqueries]
      rcases single query with e | r
      · rfl
      · rcases eachAlone single queries with e | rows
        · rfl
        · rfl

/-- Queries of one answer. -/
theorem eachAlone_const {single : SparseRow Code → Except SearchFault (List F × List ℤ)}
    {result : List F × List ℤ} {queries : List (SparseRow Code)}
    (h : ∀ query ∈ queries, single query = .ok result) :
    eachAlone single queries = .ok (List.replicate queries.length result.1,
      List.replicate queries.length result.2) := by
  induction queries with
  | nil => rfl
  | cons query queries ih =>
      obtain ⟨hquery, hqueries⟩ := List.forall_mem_cons.mp h
      rw [eachAlone, hquery, ih hqueries]
      rfl

/-- The first answer of a batch. -/
theorem eachAlone_head {single : SparseRow Code → Except SearchFault (List F × List ℤ)}
    {query : SparseRow Code} {queries : List (SparseRow Code)} {rows : SearchRows F}
    (h : eachAlone single (query :: queries) = .ok rows) :
    ∃ result ds ls, single query = .ok result ∧ rows = (result.1 :: ds, result.2 :: ls) := by
  rw [eachAlone] at h
  obtain ⟨result, hresult, h⟩ := bind_eq_ok h
  obtain ⟨⟨ds, ls⟩, -, h⟩ := bind_eq_ok h
  exact ⟨result, ds, ls, hresult, (Except.ok.inj h).symm⟩

/-! ### The two paths -/

variable [Zero F] [One F] [Neg F] [Add F] [Sub F] [Mul F] [LinearOrder F] [FloatFormat F]
  {Q : ItemQueue F ℤ} {kind : DiskKind F} {x y : DiskSeismicIndex F}
  {vectors : SparseVectors Code}

/-- **One query**: the documents are offered alike, and decoded sooner or later. -/
theorem DiskSeismicIndex.HoldsDocs.directoryQuery_eq_map {format : QueryFormat F}
    (hy : y.HoldsDocs format.elementSize vectors) (sort : StdSort) {dimension : ℕ} (k : ℤ)
    (ids : List ℤ) {query : SparseRow Code} (hquery : TermsWithin dimension query) :
    y.directoryQuery Q format dimension k (IDSelector.orderedIds sort ids) query
      = (exactMatchQuery Q sort vectors format.elementSize dimension k ids query).map fun r =>
          (decodeFilled format.decodeScore r.1 r.2, r.2) := by
  rw [y.directoryQuery_eq format k _ hquery, exactMatchQuery_eq sort vectors k ids hquery]
  rcases hnew : TopKHolder.new Q k with e | heap
  · rfl
  show (y.directoryDocs format.elementSize _ _ heap).map _
    = ((exactMatchDocs vectors format.elementSize _ _ heap).map _).map _
  rw [y.directoryDocs_corpus hy, exactMatchDocs_eq]
  rcases hoffer : offerDocs (fun d => scoreRow format.elementSize
      (written (zeroBuffer dimension format.elementSize) query) (docRow vectors d))
      ((IDSelector.orderedIds sort ids).filter
        fun id : ℤ => decide (0 ≤ id ∧ id < vectors.numVectors)) heap with e | heap'
  · rfl
  obtain ⟨ds, ls, heq, hlen, hmem, -⟩ := labels_of_offerDocs hnew hoffer
  have hids : ∀ l ∈ ls, 0 ≤ l := fun l hl =>
    (of_decide_eq_true (List.mem_filter.mp (hmem l hl)).2).1
  show Except.ok (paddedResult format.decodeScore k heap'.topKItemsDescending)
    = Except.ok (decodeFilled format.decodeScore (paddedResult id k heap'.topKItemsDescending).1
        (paddedResult id k heap'.topKItemsDescending).2,
        (paddedResult id k heap'.topKItemsDescending).2)
  rw [heq]
  unfold paddedResult
  dsimp only
  rw [List.map_id, decodeFilled_padded format.decodeScore k.toNat hlen hids]

omit [Zero F] [One F] [Neg F] [Add F] [Sub F] [Mul F] [LinearOrder F] [FloatFormat F] in
/-- Their terms are those of the batch. -/
theorem codedQueries_within {format : QueryFormat F} {n : ℤ} {indptr indices : List ℕ}
    {values : List F} {dimension : ℕ} (h : ∀ term ∈ indices, term < dimension) :
    ∀ query ∈ codedQueries format n indptr indices values, TermsWithin dimension query := by
  intro query hquery entry hentry
  obtain ⟨i, -, rfl⟩ := List.mem_map.mp hquery
  have hzip := List.mem_of_mem_drop (List.mem_of_mem_take hentry)
  exact h _ (List.of_mem_zip hzip).1

/-- **The directory answers as the vectors do.** -/
theorem DiskSeismicIndex.Reloads.searchDirectory_eq (h : y.Reloads kind.format.elementSize x)
    (hvectors : x.vectors = some vectors) (hfed : vectors.Fed kind.format.elementSize x.dimension)
    (sort : StdSort) {queries : CsrArgs F} {indptr indices : List ℕ} {values : List F}
    (hqueries : queries.checked = .ok (indptr, indices, values))
    (hwithin : ∀ term ∈ indices, term < x.dimension) (k : ℤ) (params : Option (SearchFields F))
    (ids : List ℤ) :
    y.searchDirectory Q sort kind.queryFormat queries.n indptr indices values k params ids
      = x.searchExact Q sort kind.queryFormat queries.n indptr indices values k params ids
          vectors := by
  have hholds := h.mirrors.holdsDocs
  rw [writtenVectors_eq hvectors, hfed.width] at hholds
  obtain ⟨hn, hlen, hoff, hpair, -, -⟩ := CsrArgs.checked_eq_ok hqueries
  obtain ⟨hnnz, -, -⟩ := getD_of_checked hqueries
  unfold searchDirectory searchExact
  dsimp only
  rcases hformat : kind.queryFormat params with e | format
  · rfl
  have hes : format.elementSize = kind.format.elementSize :=
    DiskKind.elementSize_of_queryFormat hformat
  set codes := (values.take (indptr.getD queries.n.toNat 0)).map format.encodeQuery with hcodes
  have hcodeslen : indices.length = codes.length := by
    rw [hcodes, List.length_map, hnnz, hpair, List.take_length]
  -- the queries of the vectors path, stored as vectors
  obtain ⟨empty, hempty⟩ : ∃ empty : SparseVectors Code,
      SparseVectors.new format.elementSize x.dimension = .ok empty := by
    unfold SparseVectors.new
    rw [if_neg hfed.positive.ne']
    exact ⟨_, rfl⟩
  obtain ⟨stored, hstored⟩ : ∃ stored, empty.addVectors indptr
      (indices.take (indptr.getD queries.n.toNat 0)) codes = .ok stored := by
    unfold SparseVectors.addVectors
    rw [hnnz, List.take_length, if_neg (not_not.mpr hcodeslen)]
    split
    · exact ⟨_, rfl⟩
    · exact ⟨_, rfl⟩
  have hstoredRows := rows_storedQueries hqueries hempty hstored
  show y.exactMatchDirectory Q format k _ (codedQueries format queries.n indptr indices values) _
    = (SearchFault.lift (SparseVectors.new format.elementSize x.dimension)).bind _
  rw [hempty]
  show _ = (SearchFault.lift (empty.addVectors indptr
    (indices.take (indptr.getD queries.n.toNat 0)) codes)).bind _
  rw [hstored]
  show _ = (exactMatch Q sort vectors format.elementSize x.dimension k ids stored.rows).bind _
  have hcoded := @codedQueries_within F format queries.n indptr indices values x.dimension hwithin
  rw [hstoredRows, exactMatch_eq_eachAlone, h.dimension,
    y.exactMatchDirectory_eq_eachAlone format k _ hcoded,
    eachAlone_map fun query hquery =>
      (hes.symm ▸ hholds : y.HoldsDocs format.elementSize vectors).directoryQuery_eq_map sort k ids
        (hcoded query hquery)]
  rcases eachAlone (exactMatchQuery Q sort vectors format.elementSize x.dimension k ids)
    (codedQueries format queries.n indptr indices values) with e | rows
  · rfl
  · rfl

/-! ### Padding -/

/-- A query returns padding only when it lists no document. -/
theorem DiskSeismicIndex.HoldsDocs.directoryQuery_padded_iff {format : QueryFormat F}
    (hy : y.HoldsDocs format.elementSize vectors) (sort : StdSort) {dimension : ℕ} {k : ℤ}
    (hk : 1 ≤ k) {ids : List ℤ} {query : SparseRow Code} (hquery : TermsWithin dimension query) :
    y.directoryQuery Q format dimension k (IDSelector.orderedIds sort ids) query
        = .ok (List.replicate k.toNat (-1), List.replicate k.toNat INVALID_IDX) ↔
      ∀ id ∈ ids, ¬ (0 ≤ id ∧ id < vectors.numVectors) := by
  have hnew : TopKHolder.new Q k = .ok ⟨k, Q.empty, ⊤⟩ := by
    rw [TopKHolder.new, if_neg (by omega)]
  have hperm : (IDSelector.orderedIds sort ids).Perm ids := sort.perm _ ids
  rw [y.directoryQuery_eq format k _ hquery, hnew]
  show (y.directoryDocs format.elementSize _ _ ⟨k, Q.empty, ⊤⟩).map _ = Except.ok _ ↔ _
  rw [y.directoryDocs_corpus hy]
  set listed := (IDSelector.orderedIds sort ids).filter
    fun id : ℤ => decide (0 ≤ id ∧ id < vectors.numVectors) with hlisted
  have hnone : listed = [] ↔ ∀ id ∈ ids, ¬ (0 ≤ id ∧ id < vectors.numVectors) := by
    rw [hlisted, List.filter_eq_nil_iff]
    exact forall_congr' fun id => by rw [hperm.mem_iff, decide_eq_true_iff]
  rw [← hnone]
  constructor
  · intro h
    rcases hoffer : offerDocs (fun d => scoreRow format.elementSize
        (written (zeroBuffer dimension format.elementSize) query) (docRow vectors d)) listed
        (⟨k, Q.empty, ⊤⟩ : TopKHolder Q) with e | heap'
    · rw [hoffer] at h
      cases h
    rw [hoffer] at h
    obtain ⟨scores, ls, heq, -, hmem, hempty⟩ := labels_of_offerDocs hnew hoffer
    apply hempty
    obtain ⟨-, hlabels⟩ := Prod.mk.inj (Except.ok.inj h)
    rw [heq] at hlabels
    -- the first label would be an id
    rcases ls with - | ⟨l, ls⟩
    · rfl
    · have hpos : 0 ≤ l := (of_decide_eq_true (List.mem_filter.mp (hmem l List.mem_cons_self)).2).1
      obtain ⟨m, hm⟩ : ∃ m, k.toNat = m + 1 := ⟨k.toNat - 1, by omega⟩
      dsimp only at hlabels
      rw [resize, hm, List.take_succ_cons, List.cons_append, List.replicate_succ] at hlabels
      rw [(List.cons.inj hlabels).1] at hpos
      exact absurd hpos (by decide)
  · intro hempty
    rw [hempty]
    show Except.ok (paddedResult format.decodeScore k (TopKHolder.topKItemsDescending _)) = _
    rw [topKItemsDescending_new (k := k) (by rw [hnew]; rfl)]
    unfold paddedResult
    dsimp only
    rw [List.map_nil, resize, resize, List.take_nil, List.take_nil, List.nil_append,
      List.nil_append, List.length_nil, List.length_nil, Nat.sub_zero]

/-- A batch does when its format is admitted and it lists no document. -/
theorem DiskSeismicIndex.HoldsDocs.searchDirectory_padded_iff
    (hy : y.HoldsDocs kind.format.elementSize vectors) (sort : StdSort) {queries : CsrArgs F}
    {indptr indices : List ℕ} {values : List F}
    (hqueries : queries.checked = .ok (indptr, indices, values))
    (hwithin : ∀ term ∈ indices, term < y.dimension) {k : ℤ} (hk : 1 ≤ k)
    (params : Option (SearchFields F)) (ids : List ℤ) :
    y.searchDirectory Q sort kind.queryFormat queries.n indptr indices values k params ids
        = .ok (paddedResults queries.n k) ↔
      (∃ format, kind.queryFormat params = .ok format) ∧
        ∀ id ∈ ids, ¬ (0 ≤ id ∧ id < vectors.numVectors) := by
  unfold searchDirectory
  rcases hformat : kind.queryFormat params with e | format
  · exact iff_of_false nofun fun h => nomatch h.1
  rw [and_iff_right ⟨format, rfl⟩]
  obtain ⟨hn, -, -, -, -, -⟩ := CsrArgs.checked_eq_ok hqueries
  rw [← DiskKind.elementSize_of_queryFormat hformat] at hy
  have hcoded := @codedQueries_within F format queries.n indptr indices values y.dimension hwithin
  show y.exactMatchDirectory Q format k _ (codedQueries format queries.n indptr indices values) _ = _
    ↔ _
  have hlen : (codedQueries format queries.n indptr indices values).length = queries.n.toNat := by
    rw [codedQueries, List.length_map, List.length_range]
  rw [y.exactMatchDirectory_eq_eachAlone format k _ hcoded]
  unfold paddedResults
  rw [← hlen]
  constructor
  · intro h
    -- there is a first query
    rcases hfirst : codedQueries format queries.n indptr indices values with - | ⟨query, rest⟩
    · rw [hfirst, List.length_nil] at hlen
      omega
    rw [hfirst] at h hcoded
    obtain ⟨result, ds, ls, hresult, hrows⟩ := eachAlone_head h
    obtain ⟨hds, hls⟩ := Prod.mk.inj hrows
    have hpadded : result = (List.replicate k.toNat (-1), List.replicate k.toNat INVALID_IDX) :=
      Prod.ext (List.cons.inj hds).1.symm (List.cons.inj hls).1.symm
    rw [hpadded] at hresult
    exact (hy.directoryQuery_padded_iff sort hk (hcoded query List.mem_cons_self)).mp hresult
  · intro hnone
    exact eachAlone_const fun query hquery =>
      (hy.directoryQuery_padded_iff sort hk (hcoded query hquery)).mpr hnone

/-! ### Search -/

/-- **Search by a selector that lists its ids**, before and after. -/
theorem DiskSeismicIndex.Reloads.search_eq_iff (h : y.Reloads kind.format.elementSize x)
    (hx : x.Fresh kind.format.elementSize) (T : ItemQueue F ℕ) (sort : StdSort) (nth : StdNthElement)
    {queries : CsrArgs F} {indptr indices : List ℕ} {values : List F}
    (hqueries : queries.checked = .ok (indptr, indices, values))
    (hwithin : ∀ term ∈ indices, term < x.dimension) {k : ℤ} (hk : 1 ≤ k)
    (params : Option (SearchFields F)) {sel : Option IDSelector} {ids : List ℤ}
    (hsel : exactMatchIds sel k = some ids) :
    y.search Q T sort nth kind.queryFormat queries.n indptr indices values k params sel
        = x.search Q T sort nth kind.queryFormat queries.n indptr indices values k params sel ↔
      0 < y.fwd.numBlocks ∨ x.numVectors = 0 ∨
        (∃ format, kind.queryFormat params = .ok format) ∧
          ∀ id ∈ ids, ¬ (0 ≤ id ∧ id < x.numVectors) := by
  obtain ⟨hn, -, -, -, -, -⟩ := CsrArgs.checked_eq_ok hqueries
  have hempty : ¬ 0 < x.fwd.numBlocks := by
    rw [hx.fwd]
    decide
  have hsource : x.forwardSource = x.vectors.map .rows := if_neg hempty
  unfold search
  rw [h.count, hsource, hsel]
  by_cases hcount : x.numVectors = 0
  · rw [if_pos (.inl hcount), if_pos (.inl hcount)]
    exact iff_of_true rfl (.inr (.inl hcount))
  have hquery : ¬ (x.numVectors = 0 ∨ queries.n = 0) := by
    rintro (hzero | hzero)
    · exact hcount hzero
    · omega
  rw [if_neg hquery, if_neg hquery]
  obtain ⟨vectors, hvectors⟩ : ∃ vectors, x.vectors = some vectors := by
    refine Option.ne_none_iff_exists'.mp fun hnone => hcount ?_
    rw [hx.count, hnone]
    rfl
  have hfed := hx.vectors vectors hvectors
  have hsize : x.numVectors = vectors.numVectors := by
    rw [hx.count, hvectors]
    rfl
  have hholds := h.mirrors.holdsDocs
  rw [writtenVectors_eq hvectors, hfed.width] at hholds
  rw [hvectors]
  show _ = x.searchExact Q sort kind.queryFormat queries.n indptr indices values k params ids vectors
    ↔ _
  rw [← h.searchDirectory_eq hvectors hfed sort hqueries hwithin k params ids]
  by_cases hnum : 0 < y.fwd.numBlocks
  · -- the directory is asked
    have hforward : y.forwardSource = some (.blocks y.fwd) := if_pos hnum
    have hlocators : y.docLocators ≠ [] := by
      intro hnil
      have hlen := hholds.1
      rw [hnil, List.length_nil, ← hsize] at hlen
      exact hcount hlen.symm
    rw [hforward, h.vectors]
    exact iff_of_true (if_neg hlocators) (.inl hnum)
  · -- it is not
    have hforward : y.forwardSource = none := by
      rw [forwardSource, if_neg hnum, h.vectors]
      rfl
    rw [hforward, or_iff_right hnum, or_iff_right hcount, hsize,
      ← hholds.searchDirectory_padded_iff sort hqueries
        (show ∀ term ∈ indices, term < y.dimension from h.dimension.symm ▸ hwithin) hk params ids]
    exact eq_comm

/-- **Exact match survives a reload** exactly when there is a block, or no document is listed.  A disk
index of either kind is built with a dimension that terms can name and written without an exception.
Then a search of the mapped index by a selector of at most `k` ids ends as the search of the built
one does if and only if some posting list has a cluster, or there is no document at all, or the
parameters are admitted and no document is listed. -/
theorem exact_match_survives_reload_iff {rng : Rng} {sort sort' : StdSort}
    (hx : kind.Built rng sort x) (hdim : x.dimension ≤ 2 ^ 16) {bytes : Wire.Bytes}
    (hw : (kind.stored x).write [] = .ok bytes) (hsize : bytes.length < 2 ^ 63) (page : ℕ)
    (Q : ItemQueue F ℤ) (T : ItemQueue F ℕ) (nth : StdNthElement) (queries : CsrArgs F)
    {indptr indices : List ℕ} {values : List F}
    (hqueries : queries.checked = .ok (indptr, indices, values))
    (hwithin : ∀ term ∈ indices, term < x.dimension) {k : ℤ} (hk : 1 ≤ k)
    (params : Option (SearchFields F)) {sel : Option IDSelector} {ids : List ℤ}
    (hsel : exactMatchIds sel k = some ids) :
    ∃ y, mapIndex (4096 * page) ⟨bytes, 0⟩ = .ok (kind.stored y, ⟨bytes, bytes.length⟩) ∧
      (y.search Q T sort' nth kind.queryFormat queries.n indptr indices values k params sel
          = x.search Q T sort' nth kind.queryFormat queries.n indptr indices values k params sel ↔
        (∃ l ∈ x.clusteredInvertedLists, 0 < l.nClusters) ∨ x.numVectors = 0 ∨
          (∃ format, kind.queryFormat params = .ok format) ∧
            ∀ id ∈ ids, ¬ (0 ≤ id ∧ id < x.numVectors)) := by
  obtain ⟨y, hread, hreloads⟩ := DiskKind.mapped (hx.storable hdim) hx.fresh.count_written hw hsize
    page
  refine ⟨y, hread, ?_⟩
  have hblocks : 0 < y.fwd.numBlocks ↔ ∃ l ∈ x.clusteredInvertedLists, 0 < l.nClusters := by
    rw [Nat.pos_iff_ne_zero, ne_eq, hreloads.mirrors.numBlocks_eq_zero_iff]
    push Not
    exact exists_congr fun l => and_congr_right fun _ => Nat.pos_iff_ne_zero.symm
  rw [hreloads.search_eq_iff hx.fresh T sort' nth hqueries hwithin hk params hsel, hblocks]

/-- A query of one term. -/
def oneTermQuery : CsrArgs ℤ where
  n := 1
  indptr := some [0, 1]
  indices := some [0]
  values := some [1]
  promise := by
    rintro _ _ _ ⟨⟩ ⟨⟩ ⟨⟩ -
    exact ⟨rfl, ⟨rfl, by decide, rfl⟩, rfl⟩

/-- One document in one block. -/
theorem exact_match_survives_reload_iff_one_document :
    ∃ bytes, (DiskKind.stored .float DiskKind.oneDocumentBuilt).write [] = .ok bytes ∧
      ∃ y, mapIndex (4096 * 1) ⟨bytes, 0⟩
          = .ok (DiskKind.stored (.float : DiskKind ℤ) y, ⟨bytes, bytes.length⟩) ∧
        (y.search (sortedQueue TopKItem.score) (sortedQueue TopKItem.score) insertionSort
            insertionSort.nthElement (DiskKind.queryFormat .float) 1 [0, 1] [0] [1] 1 none
            (some (.array [0]))
          = DiskKind.oneDocumentBuilt.search (sortedQueue TopKItem.score)
            (sortedQueue TopKItem.score) insertionSort insertionSort.nthElement
            (DiskKind.queryFormat .float) 1 [0, 1] [0] [1] 1 none (some (.array [0])) ↔
          (∃ l ∈ DiskKind.oneDocumentBuilt.clusteredInvertedLists, 0 < l.nClusters) ∨
            DiskKind.oneDocumentBuilt.numVectors = 0 ∨
            (∃ format, DiskKind.queryFormat (F := ℤ) .float none = .ok format) ∧
              ∀ id ∈ [(0 : ℤ)], ¬ (0 ≤ id ∧ id < DiskKind.oneDocumentBuilt.numVectors)) := by
  obtain ⟨bytes, hw, hsize⟩ := DiskKind.oneDocumentBuilt_write
  have hwithin : ∀ term ∈ [0], term < DiskKind.oneDocumentBuilt.dimension := by
    obtain ⟨-, -, hdim, -⟩ := DiskKind.oneDocumentBuilt_holds
    rw [hdim]
    decide
  exact ⟨bytes, hw, exact_match_survives_reload_iff DiskKind.oneDocumentBuilt_built
    DiskKind.oneDocumentBuilt_dimension hw hsize 1 (sortedQueue TopKItem.score)
    (sortedQueue TopKItem.score) insertionSort.nthElement oneTermQuery rfl hwithin le_rfl none rfl⟩

/-- One document without terms. -/
def DiskKind.emptyDocument : CsrArgs ℤ where
  n := 1
  indptr := some [0, 0]
  indices := some []
  values := some []
  promise := by
    rintro _ _ _ ⟨⟩ ⟨⟩ ⟨⟩ -
    exact ⟨rfl, ⟨rfl, by decide, rfl⟩, rfl⟩

/-- An index with that document, before it is built. -/
def DiskKind.emptyDocumentFed : DiskSeismicIndex ℤ :=
  [Call.add emptyDocument].foldl
    (step countingRng insertionSort (DiskKind.format (F := ℤ) .float))
    (new 1 ⟨0, 1, 1, ⟨1, ""⟩, 42⟩)

/-- That index, built. -/
def DiskKind.emptyDocumentBuilt : DiskSeismicIndex ℤ :=
  (emptyDocumentFed.build SeismicIndex.calmEnv countingRng insertionSort 0).1

/-- What the two hold, and that the built one has a file. -/
theorem DiskKind.emptyDocumentBuilt_holds :
    emptyDocumentFed.vectors = some ⟨U32, 1, [0, 0], [], []⟩ ∧
      (emptyDocumentFed.build SeismicIndex.calmEnv countingRng insertionSort 0).2 = .ok () ∧
      emptyDocumentBuilt.dimension = 1 ∧ emptyDocumentBuilt.numVectors = 1 ∧
      (∀ l ∈ emptyDocumentBuilt.clusteredInvertedLists, l.nClusters = 0) ∧
      ((stored .float emptyDocumentBuilt).write []).map
        (fun bytes => decide (bytes.length < 2 ^ 63)) = .ok true ∧
      emptyDocumentBuilt.search (sortedQueue TopKItem.score) (sortedQueue TopKItem.score)
          insertionSort insertionSort.nthElement (DiskKind.queryFormat .float) 1 [0, 1] [0] [1] 1
          none (some (.array [0])) = .ok ([[0]], [[0]]) := by
  decide +kernel

theorem DiskKind.emptyDocumentBuilt_built :
    (DiskKind.float : DiskKind ℤ).Built countingRng insertionSort emptyDocumentBuilt := by
  obtain ⟨hvectors, hok, -⟩ := emptyDocumentBuilt_holds
  refine ⟨1, _, [Call.add emptyDocument], SeismicIndex.calmEnv, 0, by decide, ?_, Prod.ext rfl hok⟩
  intro v hv _ _
  obtain rfl := Option.some_inj.mp (hvectors.symm.trans hv)
  show Stored ⟨U32, 1, [0, 0], [], []⟩ 1
  exact
    { wellFormed := ⟨rfl, by decide, fun _ => ⟨rfl, by decide, rfl⟩⟩
      nonempty := by decide
      size := by decide
      terms := by decide
      terms16 := by decide
      width := by decide
      postings := by decide }

/-- What its file is mapped as. -/
theorem DiskKind.emptyDocumentBuilt_mapped :
    ∃ bytes y, (DiskKind.stored .float emptyDocumentBuilt).write [] = .ok bytes ∧
      mapIndex (4096 * 1) ⟨bytes, 0⟩
        = .ok (DiskKind.stored (.float : DiskKind ℤ) y, ⟨bytes, bytes.length⟩) ∧
      y.Reloads (DiskKind.format (F := ℤ) .float).elementSize emptyDocumentBuilt ∧
      y.fwd.numBlocks = 0 := by
  obtain ⟨-, -, hdim, -, hempty, hlen, -⟩ := emptyDocumentBuilt_holds
  have hbuilt := emptyDocumentBuilt_built
  rcases hw : (DiskKind.stored .float emptyDocumentBuilt).write [] with e | bytes
  · rw [hw] at hlen
    cases hlen
  rw [hw] at hlen
  obtain ⟨y, hread, hreloads⟩ := DiskKind.mapped (hbuilt.storable (by rw [hdim]; decide))
    hbuilt.fresh.count_written hw (of_decide_eq_true (Except.ok.inj hlen)) 1
  exact ⟨bytes, y, rfl, hread, hreloads, hreloads.mirrors.numBlocks_eq_zero_iff.mpr hempty⟩

/-- **A document in no posting list** is found before the reload and not after it. -/
theorem reloaded_index_misses_document :
    (DiskKind.float : DiskKind ℤ).Built countingRng insertionSort DiskKind.emptyDocumentBuilt ∧
      ∃ bytes y, (DiskKind.stored .float DiskKind.emptyDocumentBuilt).write [] = .ok bytes ∧
        mapIndex (4096 * 1) ⟨bytes, 0⟩
          = .ok (DiskKind.stored (.float : DiskKind ℤ) y, ⟨bytes, bytes.length⟩) ∧
        DiskKind.emptyDocumentBuilt.search (sortedQueue TopKItem.score)
            (sortedQueue TopKItem.score) insertionSort insertionSort.nthElement
            (DiskKind.queryFormat .float) 1 [0, 1] [0] [1] 1 none (some (.array [0]))
          = .ok ([[0]], [[0]]) ∧
        y.search (sortedQueue TopKItem.score) (sortedQueue TopKItem.score) insertionSort
            insertionSort.nthElement (DiskKind.queryFormat .float) 1 [0, 1] [0] [1] 1 none
            (some (.array [0]))
          = .ok ([[-1]], [[-1]]) := by
  obtain ⟨-, -, -, hone, -, -, hsearch⟩ := DiskKind.emptyDocumentBuilt_holds
  obtain ⟨bytes, y, hw, hread, hreloads, hnone⟩ := DiskKind.emptyDocumentBuilt_mapped
  refine ⟨DiskKind.emptyDocumentBuilt_built, bytes, y, hw, hread, hsearch, ?_⟩
  have hforward : y.forwardSource = none := by
    rw [forwardSource, if_neg (by rw [hnone]; decide), hreloads.vectors]
    rfl
  unfold search
  rw [hforward, hreloads.count, hone, if_neg (by decide)]
  rfl

end Nsparse
