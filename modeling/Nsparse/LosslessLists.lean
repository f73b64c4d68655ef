/-
Nsparse/LosslessLists.lean

The lists of a build that loses nothing.

With pruning off a list has every document that has its term, once (`mem_allDocs_clusteredList`),
however they are clustered.  With `alpha` at least 1 the summaries bound the scores of
the documents in their clusters (`bounds_clusteredList`): they are what `summarizeWithCpu`
emits, and scoring them through the transpose is exact, since a corpus with fewer than
`2 ^ 31` entries has summaries with no more, and the number of clusters fits 16 bits.
-/
import Nsparse.BatchedEqual
import Nsparse.SummaryBounds

namespace Nsparse

variable {F : Type} [CommRing F] [LinearOrder F] [IsStrictOrderedRing F] [FloatFormat F]

/-! ### What makes a build lossless -/

/-- **A corpus whose summaries can bound its scores**: stored, no document with a term twice, values
that are written back as they are, and fewer than `2 ^ 31` entries. -/
structure BoundedCorpus (F : Type) [Ring F] [FloatFormat F] (vectors : SparseVectors Code)
    (dim : ℕ) : Prop extends Stored vectors dim where
  dimension : vectors.dimension = dim
  distinct : ∀ row ∈ vectors.rows, (row.map Prod.fst).Nodup
  rewritable : Rewritable F vectors.elementSize vectors.values
  entries : vectors.indices.length < 2 ^ 31

/-- **Parameters that lose nothing**: no list is pruned, a summary keeps all the mass, and the
clusters of a list can be counted in 16 bits. -/
structure ResolvedParameters.Lossless (params : ResolvedParameters F) (vectors : SparseVectors Code)
    (dim : ℕ) : Prop where
  lambda : ∀ term < dim, toSize params.lambda = 0 ∨
    (postingsOf vectors.rows term).length ≤ toSize params.lambda
  alpha : 1 ≤ params.alpha
  clusters : ∀ term < dim, FewClusters (toSize params.lambda) (toSize params.beta)
    (postingsOf vectors.rows term).length

/-- No list is pruned: there is no limit, or none is longer. -/
def ResolvedParameters.Unpruned (params : ResolvedParameters F) (vectors : SparseVectors Code)
    (dim : ℕ) : Prop :=
  ∀ term < dim, toSize params.lambda = 0 ∨
    (postingsOf vectors.rows term).length ≤ toSize params.lambda

section Lists

variable (rng : Rng) (sort : StdSort) {vectors : SparseVectors Code} {dim term : ℕ}
  {params : ResolvedParameters F}

/-! ### The documents of a list -/

theorem InvertedListClusters.getDocs_buildTranspose (sort : StdSort) (l : InvertedListClusters)
    (summaries : SparseVectors Code) (cluster : ℕ) :
    (l.buildTranspose sort summaries).getDocs cluster = l.getDocs cluster := by
  unfold buildTranspose
  dsimp only
  split
  · rfl
  · rfl

theorem docIds_postingList (rows : List (SparseRow Code)) (term : ℕ) :
    (postingList rows term).docIds = (postingsOf rows term).map fun p => toIdx p.1 := by
  rw [postingList, InvertedList.ofPostings, List.map_map]
  rfl

/-- The documents that have a term. -/
theorem mem_docIds_postingList (hsize : vectors.numVectors < 2 ^ 31) {doc : ℤ} :
    doc ∈ (postingList vectors.rows term).docIds ↔
      ∃ i : ℕ, doc = i ∧ i < vectors.numVectors ∧ term ∈ (vectors.row i).map Prod.fst := by
  have hrows : ∀ i row, vectors.rows[i]? = some row ↔
      i < vectors.numVectors ∧ vectors.row i = row := by
    intro i row
    rw [vectors.rows_eq_map_row, List.getElem?_map]
    by_cases hi : i < vectors.numVectors
    · rw [List.getElem?_range hi, Option.map_some, Option.some_inj]
      exact (and_iff_right hi).symm
    · rw [List.getElem?_eq_none (by simpa using hi)]
      exact ⟨nofun, fun h => absurd h.1 hi⟩
  rw [docIds_postingList, List.mem_map]
  constructor
  · rintro ⟨p, hp, rfl⟩
    obtain ⟨row, hrow, hterm⟩ := mem_postingsOf_iff.mp hp
    obtain ⟨hi, rfl⟩ := (hrows _ _).mp hrow
    exact ⟨p.1, toIdx_eq_self_iff.mpr (hi.trans hsize), hi, List.mem_map_of_mem hterm⟩
  · rintro ⟨i, rfl, hi, hterm⟩
    obtain ⟨entry, hentry, rfl⟩ := List.mem_map.mp hterm
    exact ⟨(i, entry.2), mem_postingsOf_iff.mpr ⟨_, (hrows _ _).mpr ⟨hi, rfl⟩, hentry⟩,
      toIdx_eq_self_iff.mpr (hi.trans hsize)⟩

/-- No document is twice in the list of a term. -/
theorem nodup_docIds_postingList (hsize : vectors.numVectors < 2 ^ 31)
    (hdistinct : ∀ row ∈ vectors.rows, (row.map Prod.fst).Nodup) :
    (postingList vectors.rows term).docIds.Nodup := by
  have hasc := postingsOf_ascending hdistinct term
  have hpostings : (postingList vectors.rows term).docIds
      = ((postingsOf vectors.rows term).map Prod.fst).map fun i : ℕ => toIdx i := by
    rw [docIds_postingList, List.map_map]
    rfl
  rw [hpostings]
  refine List.Nodup.map_on ?_ (hasc.imp fun h => h.ne)
  have hlt : ∀ i ∈ (postingsOf vectors.rows term).map Prod.fst, toIdx i = i := by
    intro i hi
    obtain ⟨p, hp, rfl⟩ := List.mem_map.mp hi
    have hrow := mem_postingsOf hp
    rw [vectors.length_rows] at hrow
    exact toIdx_eq_self_iff.mpr (hrow.trans hsize)
  intro i hi j hj heq
  rw [hlt i hi, hlt j hj] at heq
  exact Int.ofNat.inj heq

omit [IsStrictOrderedRing F] in
/-- **Without pruning** the clusters of a list partition the documents that have its term. -/
theorem flatten_clustersOf_perm (h : Stored vectors dim)
    (hdistinct : ∀ row ∈ vectors.rows, (row.map Prod.fst).Nodup) (hterm : term < dim)
    (hall : params.Unpruned vectors dim) :
    (clustersOf rng sort vectors params term).flatten.Perm
      (postingList vectors.rows term).docIds := by
  have hkept : pruneAndKeepDocIds F sort vectors.elementSize (postingList vectors.rows term)
      (toSize params.lambda) = (postingList vectors.rows term).docIds := by
    rw [pruneAndKeepDocIds, if_pos]
    rw [docIds_postingList, List.length_map]
    exact (hall term hterm).imp_right .inr
  rw [clustersOf, hkept]
  by_cases hne : (postingList vectors.rows term).docIds = []
  · rw [hne]
    exact List.Perm.refl _
  · exact (train_clustering F rng sort vectors hne
      (nodup_docIds_postingList h.size hdistinct) _ _).union

/-! ### The summaries of a list -/

/-- The rows of the summaries, cluster by cluster. -/
theorem rows_summarizeWithCpu (hF : ExactFloat F) (vectors : SparseVectors Code)
    (clusters : List (List ℤ)) (alpha : F)
    (hterms : ∀ docIds ∈ clusters, ∀ entry ∈ clusterEntries vectors docIds,
      entry.1 < vectors.dimension) (hcount : clusters.length < 2 ^ 32) :
    (summarizeWithCpu (ValueType.ofWidth F vectors.elementSize) sort vectors clusters alpha).rows
      = clusters.map fun docIds => summaryRow (ValueType.ofWidth F vectors.elementSize) sort alpha
          (clusterEntries vectors docIds) := by
  have hover : ∀ term, (List.replicate vectors.dimension 0).getD term 0 ≤ 0 := by
    intro term
    rw [List.getD_eq_getElem?_getD, List.getElem?_replicate]
    split
    · exact le_rfl
    · exact le_rfl
  exact (summarizeClusters_rows (exactValues_ofWidth hF vectors.elementSize) sort alpha hterms
    (by omega) List.length_replicate List.length_replicate hover
    ⟨rfl, fun _ => rfl, fun h => absurd rfl h⟩).2

/-- A summary has no more entries than its cluster. -/
theorem length_summaryRow_le (hF : ExactFloat F) (elementSize : ℕ) (alpha : F)
    (entries : SparseRow Code) :
    (summaryRow (ValueType.ofWidth F elementSize) sort alpha entries).length ≤ entries.length := by
  have hsummary := isSummary_summaryRow hF (exactValues_ofWidth hF elementSize) sort alpha entries
  obtain ⟨order, kept, hnodup, hmem, -, hstart, hperm⟩ := hsummary.kept
  have hkept : kept.Subperm (entries.map Prod.fst) :=
    List.subperm_of_subset (hnodup.sublist hstart.part.sublist) fun term hterm =>
      (hmem term).mp (hstart.part.subset hterm)
  have hlen := hperm.length_eq.trans_le hkept.length_le
  rwa [List.length_map, List.length_map] at hlen

omit [CommRing F] [LinearOrder F] [IsStrictOrderedRing F] [FloatFormat F] in
/-- Different documents have no more entries than the corpus. -/
theorem length_flatMap_docRow_le (hv : vectors.WellFormed) {docs : List ℤ} (hnodup : docs.Nodup)
    (hdocs : ∀ doc ∈ docs, Posted vectors doc) :
    (docs.flatMap (docRow vectors)).length ≤ vectors.indices.length := by
  have hsub : docs.Subperm ((List.range vectors.numVectors).map fun i : ℕ => (i : ℤ)) := by
    refine List.subperm_of_subset hnodup fun doc hdoc => ?_
    obtain ⟨i, rfl, hi, -⟩ := hdocs doc hdoc
    exact List.mem_map.mpr ⟨i, List.mem_range.mpr hi, rfl⟩
  obtain ⟨some, hperm, hsome⟩ := hsub
  have hall : ((List.range vectors.numVectors).map fun i : ℕ => (i : ℤ)).flatMap (docRow vectors)
      = vectors.entries := by
    rw [List.flatMap_map, ← hv.flatten_rows, vectors.rows_eq_map_row]
    rfl
  rw [← (hperm.flatMap_right (docRow vectors)).length_eq, ← hv.length_entries, ← hall]
  exact (hsome.flatMap (docRow vectors)).length_le

/-! ### The bounds of a list -/

omit [IsStrictOrderedRing F] in
/-- Few enough clusters. -/
theorem length_clustersOf_le (hlossless : params.Lossless vectors dim) (hterm : term < dim) :
    (clustersOf rng sort vectors params term).length ≤ 2 ^ 16 := by
  have hpaired : (postingList vectors.rows term).codes.length
      = (postingList vectors.rows term).docIds.length := by
    rw [docIds_postingList, List.length_map, postingList, InvertedList.ofPostings, List.length_map,
      List.length_map]
  have hcount := nClusters_clusterTerm rng sort vectors params term hpaired
  have hclusters : (clusterTerm rng sort vectors params term (postingList vectors.rows term)).nClusters
      = (clustersOf rng sort vectors params term).length :=
    InvertedListClusters.nClusters_summarize sort vectors params.alpha _
  rw [← hclusters, hcount, docIds_postingList, List.length_map]
  exact clusterCount_le_iff.mpr (hlossless.clusters term hterm)

omit [CommRing F] [LinearOrder F] [IsStrictOrderedRing F] [FloatFormat F] in
/-- The entries of a cluster are terms of the corpus with codes of it. -/
theorem entries_of_posted (hv : vectors.WellFormed) {docIds : List ℤ}
    (hdocs : ∀ doc ∈ docIds, Posted vectors doc) :
    ∀ entry ∈ clusterEntries vectors docIds, entry ∈ vectors.entries := by
  intro entry hentry
  obtain ⟨doc, hdoc, hentry⟩ := List.mem_flatMap.mp hentry
  obtain ⟨i, rfl, hi, -⟩ := hdocs doc hdoc
  rw [← hv.flatten_rows, vectors.rows_eq_map_row]
  exact List.mem_flatten.mpr ⟨_, List.mem_map_of_mem (List.mem_range.mpr hi), hentry⟩

/-- **The summary scores of a list** are the inner products with the summaries. -/
theorem scores_clusteredList (hF : ExactFloat F) (h : BoundedCorpus F vectors dim)
    (hlossless : params.Lossless vectors dim) (hterm : term < dim) (query : SparseRow Code) :
    (clusteredList rng sort vectors params term).scoreSummariesTransposed query
      = (clustersOf rng sort vectors params term).map fun docIds =>
          codeProduct (ValueType.ofWidth F vectors.elementSize)
            (summaryRow (ValueType.ofWidth F vectors.elementSize) sort params.alpha
              (clusterEntries vectors docIds)) query := by
  obtain ⟨hclusters, hlen⟩ := clustersOf_spec rng sort h.size params term
  have hflat := hlen.trans_lt (h.postings term hterm)
  have hcount := length_clustersOf_le rng sort hlossless hterm
  have hnodup : (clustersOf rng sort vectors params term).flatten.Nodup :=
    (flatten_clustersOf_perm rng sort h.toStored h.distinct hterm hlossless.lambda).nodup_iff.mpr
      (nodup_docIds_postingList h.size h.distinct)
  rw [clusteredList_eq]
  generalize clustersOf rng sort vectors params term = clusters at hclusters hflat hcount hnodup ⊢
  by_cases hnil : clusters = []
  · rw [hnil]
    rfl
  have hlength := InvertedListClusters.length_offsets_ofDocs hnil
  have hpos : 0 < clusters.length := List.length_pos_iff.mpr hnil
  rw [InvertedListClusters.summarize, if_neg (by omega), hlength, Nat.add_sub_cancel,
    InvertedListClusters.map_getDocs_ofDocs hflat]
  have hentries : ∀ docIds ∈ clusters, ∀ entry ∈ clusterEntries vectors docIds,
      entry ∈ vectors.entries := fun docIds hdocIds =>
    entries_of_posted h.wellFormed (hclusters docIds hdocIds).2
  have hterms : ∀ docIds ∈ clusters, ∀ entry ∈ clusterEntries vectors docIds,
      entry.1 < vectors.dimension := by
    intro docIds hdocIds entry hentry
    have hin := hentries docIds hdocIds entry hentry
    rw [← h.wellFormed.flatten_rows] at hin
    obtain ⟨row, hrow, hentry⟩ := List.mem_flatten.mp hin
    rw [h.dimension]
    exact h.terms row hrow entry hentry
  obtain ⟨hout, hes, hnum, -⟩ := @summarizeWithCpu_spec F _ _ _ _ _ _ _ sort vectors
    (fun _ => True) params.alpha h.width clusters hnil
    (fun cluster hcluster => ⟨(hclusters cluster hcluster).1, fun d hd =>
      ((hclusters cluster hcluster).2 d hd).docRow_ne_nil⟩) (fun _ _ _ _ _ _ => trivial)
  have hrows := rows_summarizeWithCpu sort hF vectors clusters params.alpha hterms (by omega)
  set summaries := summarizeWithCpu (ValueType.ofWidth F vectors.elementSize) sort vectors clusters
    params.alpha with hsummaries
  -- the summaries have no more entries than the corpus
  have hfit : InvertedListClusters.TransposeCountersFit sort summaries := by
    refine (InvertedListClusters.transposeCountersFit_iff hout.wellFormed).mpr ?_
    refine lt_of_le_of_lt ?_ h.entries
    have htotal : (clusters.flatten.flatMap (docRow vectors)).length ≤ vectors.indices.length := by
      apply length_flatMap_docRow_le h.wellFormed hnodup
      intro doc hdoc
      obtain ⟨cluster, hcluster, hdoc⟩ := List.mem_flatten.mp hdoc
      exact (hclusters cluster hcluster).2 doc hdoc
    have hsplit : clusters.flatten.flatMap (docRow vectors)
        = (clusters.map (clusterEntries vectors)).flatten := by
      rw [← List.flatMap_id, ← List.flatMap_id, List.flatMap_assoc, List.flatMap_map]
      rfl
    refine le_trans ?_ htotal
    rw [← hout.wellFormed.length_entries, ← hout.wellFormed.flatten_rows, hrows, hsplit,
      List.length_flatten, List.length_flatten, List.map_map, List.map_map]
    exact List.sum_le_sum fun docIds _ => length_summaryRow_le sort hF _ _ _
  have hscores := InvertedListClusters.scoresSummaries_of_fit (F := F) hout.wellFormed
    (hnum.trans_le hcount) hout.codes (by rw [hes]; exact h.width) hfit (.ofDocs clusters) query
  rw [hscores, hrows, hes, List.map_map]
  rfl

omit [IsStrictOrderedRing F] in
/-- The clusters of a built list. -/
theorem getDocs_clusteredList (h : Stored vectors dim) (hterm : term < dim) {cluster : ℕ}
    (hcluster : cluster < (clustersOf rng sort vectors params term).length) :
    (clusteredList rng sort vectors params term).getDocs cluster
      = (clustersOf rng sort vectors params term)[cluster] := by
  obtain ⟨-, hlen⟩ := clustersOf_spec rng sort h.size params term
  rw [clusteredList_eq, InvertedListClusters.summarize]
  split
  · rw [InvertedListClusters.getDocs_buildTranspose]
    exact InvertedListClusters.getDocs_ofDocs (hlen.trans_lt (h.postings term hterm)) hcluster
  · rw [InvertedListClusters.getDocs_buildTranspose]
    exact InvertedListClusters.getDocs_ofDocs (hlen.trans_lt (h.postings term hterm)) hcluster

/-- **The scores of a list's clusters bound those of their documents**, whatever the clusters. -/
theorem bounds_clusteredList (hF : ExactFloat F) (h : BoundedCorpus F vectors dim)
    (hlossless : params.Lossless vectors dim) (hterm : term < dim) {query : SparseRow Code}
    (hquery : ∀ entry ∈ query,
      0 ≤ codeValue (ValueType.ofWidth F vectors.elementSize) entry.2) :
    (clusteredList rng sort vectors params term).Bounds query fun doc =>
      codeProduct (ValueType.ofWidth F vectors.elementSize) query (docRow vectors doc) := by
  have hvt := exactValues_ofWidth hF vectors.elementSize
  have hscores := scores_clusteredList rng sort hF h hlossless hterm query
  have hcount : (clusteredList rng sort vectors params term).nClusters
      = (clustersOf rng sort vectors params term).length :=
    InvertedListClusters.nClusters_summarize sort vectors params.alpha _
  obtain ⟨hclusters, -⟩ := clustersOf_spec rng sort h.size params term
  -- each cluster by its summary
  have hsummary : ∀ docIds, (∀ doc ∈ docIds, Posted vectors doc) →
      0 ≤ codeProduct (ValueType.ofWidth F vectors.elementSize)
          (summaryRow (ValueType.ofWidth F vectors.elementSize) sort params.alpha
            (clusterEntries vectors docIds)) query ∧
        ∀ row : SparseRow Code, row ⊆ clusterEntries vectors docIds → (row.map Prod.fst).Nodup →
          codeProduct (ValueType.ofWidth F vectors.elementSize) query row
            ≤ codeProduct (ValueType.ofWidth F vectors.elementSize)
              (summaryRow (ValueType.ofWidth F vectors.elementSize) sort params.alpha
                (clusterEntries vectors docIds)) query := by
    intro docIds hdocs
    refine codeProduct_le_summary hlossless.alpha (isSummary_summaryRow hF hvt sort params.alpha _)
      (fun entry hentry => ?_) hquery
    rw [snd_of_mem_summaryRow hentry, h.rewritable.codeValue_encode_best, toFloat_best hvt]
    exact fun e he => (List.of_mem_zip (entries_of_posted h.wellFormed hdocs e he)).2
  have hget : ∀ cluster, ∀ hlt : cluster < (clustersOf rng sort vectors params term).length,
      ((clusteredList rng sort vectors params term).scoreSummariesTransposed query).getD cluster 0
        = codeProduct (ValueType.ofWidth F vectors.elementSize)
            (summaryRow (ValueType.ofWidth F vectors.elementSize) sort params.alpha
              (clusterEntries vectors (clustersOf rng sort vectors params term)[cluster])) query := by
    intro cluster hlt
    rw [hscores, List.getD_eq_getElem _ _ (by rwa [List.length_map]), List.getElem_map]
  have hmembers : ∀ cluster, ∀ hlt : cluster < (clustersOf rng sort vectors params term).length,
      ∀ doc ∈ (clustersOf rng sort vectors params term)[cluster], Posted vectors doc :=
    fun cluster hlt => (hclusters _ (List.getElem_mem hlt)).2
  constructor
  · intro cluster hcluster
    rw [hcount] at hcluster
    rw [hget cluster hcluster]
    exact (hsummary _ (hmembers cluster hcluster)).1
  · intro cluster hcluster doc hdoc
    rw [hcount] at hcluster
    rw [getDocs_clusteredList rng sort h.toStored hterm hcluster] at hdoc
    rw [hget cluster hcluster]
    apply (hsummary _ (hmembers cluster hcluster)).2
    · exact fun entry hentry => List.mem_flatMap.mpr ⟨doc, hdoc, hentry⟩
    · obtain ⟨i, rfl, hi, -⟩ := hmembers cluster hcluster doc hdoc
      apply h.distinct
      rw [vectors.rows_eq_map_row]
      exact List.mem_map_of_mem (List.mem_range.mpr hi)

omit [IsStrictOrderedRing F] in
/-- **The documents of a list** are those with its term. -/
theorem mem_allDocs_clusteredList (h : Stored vectors dim)
    (hdistinct : ∀ row ∈ vectors.rows, (row.map Prod.fst).Nodup)
    (hunpruned : params.Unpruned vectors dim) (hterm : term < dim) {doc : ℤ} :
    doc ∈ (clusteredList rng sort vectors params term).allDocs ↔
      ∃ i : ℕ, doc = i ∧ i < vectors.numVectors ∧ term ∈ (vectors.row i).map Prod.fst := by
  have hcount : (clusteredList rng sort vectors params term).nClusters
      = (clustersOf rng sort vectors params term).length :=
    InvertedListClusters.nClusters_summarize sort vectors params.alpha _
  have hall : (clusteredList rng sort vectors params term).allDocs
      = (clustersOf rng sort vectors params term).flatten := by
    have hmap : (List.range (clustersOf rng sort vectors params term).length).map
        (clusteredList rng sort vectors params term).getDocs
          = clustersOf rng sort vectors params term := by
      refine List.ext_getElem (by simp) fun i hi hi' => ?_
      rw [List.getElem_map, List.getElem_range, getDocs_clusteredList rng sort h hterm hi']
    rw [InvertedListClusters.allDocs, hcount, List.flatMap_def, hmap]
  rw [hall, (flatten_clustersOf_perm rng sort h hdistinct hterm hunpruned).mem_iff,
    mem_docIds_postingList h.size]

end Lists

end Nsparse
