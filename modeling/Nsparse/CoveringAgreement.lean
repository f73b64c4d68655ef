/-
Nsparse/CoveringAgreement.lean

A disk index with a covering budget agrees with the brute-force index.

The disk index is given the same batches of documents of positive weights, and stores
their codes as the seismic index does (`DiskSeismicIndex.rows_of_adds`).  A budget that
covers the blocks of a query's lists scores every document that shares a term, by its
exact score whatever the summaries say; so the rows are again the brute-force rows with
every score that is not positive taken for padding (`DiskSeismicIndex.covering_agrees`).
-/
import Nsparse.CoveringBudget
import Nsparse.LosslessAgreement

namespace Nsparse

variable {F : Type}

namespace DiskSeismicIndex

/-! ### The documents of a run -/

section Adds

variable [CommRing F] [LinearOrder F] [FloatFormat F] (rng : Rng) (sort : StdSort)
  {format : CodeFormat F} {x : DiskSeismicIndex F} {docs : List (SparseRow F)}

/-- The vectors are these rows in codes, and they are owned. -/
structure Collects (x : DiskSeismicIndex F) (format : CodeFormat F) (dim : ℕ)
    (docs : List (SparseRow F)) : Prop extends x.Fresh format.elementSize where
  dimension_eq : x.dimension = dim
  owned : x.vectorsMapped = false
  encodes : x.toSeismicIndex.Encodes format.encode docs

/-- **One `add`** appends its rows in codes, or none when it throws. -/
theorem Collects.add {dim : ℕ} (hpos : 0 < dim) (hx : x.Collects format dim docs) (a : CsrArgs F) :
    (step rng sort format x (.add a)).Collects format dim (docs ++ a.rows) := by
  have hfresh := step_fresh rng sort hx.toFresh (.add a)
  show Collects (x.add format a).1 format dim _
  rcases hchecked : a.checked with e | ⟨indptr, indices, values⟩
  · -- arguments that do not check: the index is as it was, and the call has no rows
    have hadd : x.add format a = (x, .error e) := by
      unfold DiskSeismicIndex.add
      rw [hchecked]
    rw [hadd, CsrArgs.rows_of_checked_error hchecked, List.append_nil]
    exact hx
  · obtain ⟨v, hto, hwf, hrows⟩ := hx.encodes.start hx.toFed (hx.dimension_eq ▸ hpos)
    have hencoded := rows_appendRows hchecked hwf hrows
    have hstart : (adder format).start x = .ok v := by
      rw [SeismicIndex.vectorsToAdd_eq] at hto
      simp only [adder, hto, hx.owned, Bool.false_eq_true, if_false]
    have hkept : x.recounted.dimension = x.dimension ∧
        x.recounted.vectorsMapped = x.vectorsMapped := by
      unfold recounted
      split
      · exact ⟨rfl, rfl⟩
      · exact ⟨rfl, rfl⟩
    have hadd : (x.add format a).1 = (adder format).put x
        (v.appendRows (encodeRows format.encode a.rows)) a.rows.length := by
      rw [add_eq format x ⟨_, hchecked⟩, RowAdder.addRows_of_ok hstart]
      rfl
    have hstep : (x.add format a).1.Fresh format.elementSize := hfresh
    rw [hadd] at hstep ⊢
    exact
      { toFresh := hstep
        dimension_eq := hkept.1.trans hx.dimension_eq
        owned := hkept.2.trans hx.owned
        encodes := .inr ⟨_, rfl, hencoded⟩ }

/-- **Every run of `add` calls** does. -/
theorem adds_collect {dim : ℕ} (hpos : 0 < dim) (batches : List (CsrArgs F))
    (hx : x.Collects format dim docs) :
    ((batches.map .add).foldl (step rng sort format) x).Collects format dim
      (docs ++ batches.flatMap CsrArgs.rows) := by
  induction batches generalizing x docs with
  | nil =>
      rw [List.flatMap_nil, List.append_nil]
      exact hx
  | cons a batches ih =>
      rw [List.flatMap_cons, ← List.append_assoc]
      exact ih (hx.add rng sort hpos a)

/-- So a new index that only added holds its documents in codes. -/
theorem rows_of_adds {dim : ℕ} (hpos : 0 < dim) (hdim : dim < 2 ^ 31)
    (clusterParameter : SeismicClusterParameters F) (batches : List (CsrArgs F))
    {vectors : SparseVectors Code}
    (h : ((batches.map .add).foldl (step rng sort format) (new dim clusterParameter)).vectors
      = some vectors) :
    vectors.rows = encodeRows format.encode (batches.flatMap CsrArgs.rows) := by
  have hnew : (new dim clusterParameter).Collects format dim [] :=
    ⟨new_fresh hdim clusterParameter, rfl, rfl, .inl ⟨rfl, rfl⟩⟩
  rcases (adds_collect rng sort hpos batches hnew).encodes with ⟨hnone, -⟩ | ⟨v, hsome, hencoded⟩
  · rw [h] at hnone
    cases hnone
  · obtain rfl := Option.some_inj.mp (h.symm.trans hsome)
    rw [hencoded, List.nil_append]

end Adds

/-! ### Searches -/

variable [CommRing F] [LinearOrder F] [IsStrictOrderedRing F] [FloatFormat F]

/-- **A disk index with a covering budget agrees with the brute-force index.**  Given the same `add`
calls of positive weights and a build that returns and prunes no list, a search without a selector
whose budget covers the blocks of its queries' lists shows for every query of positive weights
that are all kept the scores that a brute-force search shows, with every score that is not
positive taken for padding. -/
theorem covering_agrees (hbits : FloatFormat.ofBits (zeroCode U32) = (0 : F)) (Q : ItemQueue F ℤ)
    (T : ItemQueue F ℕ) (rng : Rng) (sort : StdSort) (nth : StdNthElement) (name : String) {dim : ℕ}
    (hpos : 0 < dim) (hdim : dim < 2 ^ 31) (clusterParameter : SeismicClusterParameters F)
    (batches : List (CsrArgs F)) {docs : List (SparseRow F)}
    (hdocs : batches.flatMap CsrArgs.rows = docs) (hne : docs ≠ []) (hfew : docs.length < 2 ^ 31)
    (hdistinct : ∀ row ∈ docs, (row.map Prod.fst).Nodup)
    (hpositive : ∀ row ∈ docs, PositiveRow row) {env : SpillEnv} {entropy : ℕ}
    {x : DiskSeismicIndex F}
    (hrange : ((batches.map .add).foldl (step rng sort (floatFormat F name))
      (new dim clusterParameter)).toSeismicIndex.InRange)
    (hbuild : ((batches.map .add).foldl (step rng sort (floatFormat F name))
      (new dim clusterParameter)).build env rng sort entropy = (x, .ok ()))
    {vectors : SparseVectors Code} (hvectors : x.vectors = some vectors)
    (hunpruned : (clusterParameter.resolve vectors.numVectors entropy).Unpruned vectors dim)
    {fields : Option (SearchFields F)} (hbudget : 0 < (SearchFields.cutAndBudget fields).2)
    {queries : CsrArgs F} {indptr indices : List ℕ} {values : List F}
    (hqueries : queries.checked = .ok (indptr, indices, values)) {k : ℤ} (hk : 0 < k)
    (hterms : ∀ query ∈ queries.rows, (query.map Prod.fst).Nodup)
    (hwithin : TermsBelow dim queries.rows)
    (hweights : ∀ query ∈ queries.rows, PositiveRow query)
    (hcovered : ∀ query ∈ queries.rows, CoveredQuery x.clusteredInvertedLists dim
      (SearchFields.cutAndBudget fields).1 (SearchFields.cutAndBudget fields).2 (encodeRow query)) :
    ∃ best rows : SearchRows F,
      (batches.foldl (fun x a => (x.add a).1) (BrutalIndex.new dim)).search Q queries.n indptr
        indices values k = .ok best ∧
      x.search Q T sort nth (floatSearch F) queries.n indptr indices values k fields none
        = .ok rows ∧
      rows.1 = best.1.map (List.map shown) ∧
      BestRows k.toNat (fun query doc => innerProduct docs query doc.toNat) id
        (fun query => (documents docs.length).filter
          fun doc => 0 < innerProduct docs query doc.toNat) queries.rows rows := by
  obtain ⟨hheld, hstored, hbuilt⟩ := built_lists rng sort (floatFormat F name) hdim
    clusterParameter (batches.map .add) hrange hbuild hvectors
  have hrows : vectors.rows = docs.map encodeRow := by
    rw [← hdocs]
    exact rows_of_adds rng sort hpos hdim clusterParameter batches hheld
  -- both searches, each as the best rows of its documents
  obtain ⟨_, hbrutal, best, rfl, hbest⟩ := BrutalIndex.search_best Q hpos hdocs hne hfew
    (termsBelow_of_encoded hrows hstored.terms) hqueries hterms hwithin hk
  have hcoded : ∀ query ∈ codedQueries (floatQueries F) queries.n indptr indices values,
      CoveredQuery x.clusteredInvertedLists dim (SearchFields.cutAndBudget fields).1
        (SearchFields.cutAndBudget fields).2 query := by
    rw [SeismicIndex.codedQueries_float hqueries]
    exact List.forall_mem_map.mpr hcovered
  obtain ⟨_, hrun, rows, rfl, hanswers⟩ := covering_rows hbits Q T rng sort nth hbuilt hvectors
    hstored (distinct_of_encoded hrows hdistinct) hunpruned (show floatSearch F fields
      = .ok (floatQueries F) from rfl) hbudget (CsrArgs.checked_eq_ok hqueries).1 hk
    (show exactMatchIds none k = none from rfl) hcoded
    (sumsFit_float _ _)
  rw [SeismicIndex.codedQueries_float hqueries] at hanswers
  have hmatch := bestRows_of_codes hrows hpositive hweights hanswers
  exact ⟨_, _, hbrutal, hrun, map_fst_eq_shown hbest hmatch fun _ _ _ =>
    scores_eq_shown_of_positive, rows, rfl, hmatch⟩

/-- **Three documents in three blocks**, of which two are kept. -/
theorem covering_agrees_three_documents :
    ∃ best rows : SearchRows ℤ,
      ([threeDocuments].foldl (fun x a => (x.add a).1) (BrutalIndex.new 2)).search
        (sortedQueue TopKItem.score) 1 [0, 2] [0, 1] [1, 1] 2 = .ok best ∧
      threeDocumentBuild.1.search (sortedQueue TopKItem.score) (sortedQueue TopKItem.score)
        insertionSort insertionSort.nthElement (floatSearch ℤ) 1 [0, 2] [0, 1] [1, 1] 2 none none
          = .ok rows ∧
      rows.1 = best.1.map (List.map shown) ∧
      BestRows 2 (fun query doc => innerProduct threeDocuments.rows query doc.toNat) id
        (fun query => (documents 3).filter
          fun doc => 0 < innerProduct threeDocuments.rows query doc.toNat)
        twoTermQuery.rows rows := by
  obtain ⟨-, hok, -, hbuilt, -⟩ := threeDocumentBuild_holds
  refine covering_agrees (by decide) (sortedQueue TopKItem.score) (sortedQueue TopKItem.score)
    countingRng insertionSort insertionSort.nthElement "DSEI" Nat.two_pos (by decide)
    SeismicIndex.twoClusterParameters [threeDocuments] (List.flatMap_singleton ..) (by decide)
    (by decide) (by decide) (by unfold PositiveRow; decide)
    inRange_threeDocumentsAdded (Prod.ext rfl hok) hbuilt
    (by unfold ResolvedParameters.Unpruned; decide) (by decide)
    (show twoTermQuery.checked = .ok ([0, 2], [0, 1], [1, 1]) from rfl)
    (show (0 : ℤ) < 2 by decide) (by decide) (by decide) (by unfold PositiveRow; decide) ?_
  intro query hquery
  obtain rfl := List.mem_singleton.mp hquery
  exact covered_twoTermRow

end DiskSeismicIndex

end Nsparse
