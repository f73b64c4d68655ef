/-
Nsparse/BruteForce.lean

The brute-force index is exhaustive.

Its documents are the rows of all arguments that `add` took, in the order of the calls
(`BrutalIndex.run_gathered`).  A query of distinct terms leaves its weights in the dense
buffer, so the loop over the documents offers each of them once with its inner product,
and what is drained is the best row of all of them (`singleQuery_best`).

So a search answers every query with the best of all documents, those that share no term
with it included, or it leaves a buffer; which of the two is read off the terms
(`BrutalIndex.search_exhaustive`).
-/
import Nsparse.AddBatches
import Nsparse.PlainRows
import Nsparse.SummaryBounds

namespace Nsparse

variable {F : Type}

/-! ### The buffer of a query -/

section Buffer

variable [CommRing F] {dimension : ℕ} {query row : SparseRow F} {dense : List F}

/-- **Distinct terms** leave their weights, and nothing else is written. -/
theorem writes_eq (hdistinct : (query.map Prod.fst).Nodup)
    (hquery : TermsWithin dense.length query) :
    ∃ dense' : List F, query.foldlM (fun (dense : List F) entry =>
        if entry.1 < dense.length then Except.ok (dense.set entry.1 entry.2)
        else Except.error SearchFault.outOfBuffer) dense = .ok dense' ∧
      ∀ term, dense'[term]? = dense[term]?.map fun before =>
        if term ∈ query.map Prod.fst then weight query term else before := by
  induction query generalizing dense with
  | nil =>
      refine ⟨dense, rfl, fun term => ?_⟩
      simp
  | cons entry query ih =>
      obtain ⟨hentry, hquery⟩ := List.forall_mem_cons.mp hquery
      obtain ⟨hfirst, hdistinct⟩ := List.nodup_cons.mp hdistinct
      have hrest : TermsWithin (dense.set entry.1 entry.2).length query := by
        rwa [List.length_set]
      obtain ⟨dense', hrun, hread⟩ := ih hdistinct hrest
      refine ⟨dense', ?_, fun term => ?_⟩
      · rw [List.foldlM_cons, if_pos hentry]
        exact hrun
      · rw [hread, List.getElem?_set, weight_cons]
        by_cases hterm : entry.1 = term
        · subst hterm
          rw [if_pos rfl, if_pos hentry, if_pos rfl, List.getElem?_eq_getElem hentry,
            Option.map_some, Option.map_some, if_neg hfirst, List.map_cons,
            if_pos List.mem_cons_self, weight_of_notMem hfirst, add_zero]
        · have hmem : term ∈ (entry :: query).map Prod.fst ↔ term ∈ query.map Prod.fst := by
            rw [List.map_cons, List.mem_cons]
            exact or_iff_right fun heq => hterm heq.symm
          simp only [if_neg hterm, zero_add, hmem]

/-- The buffer of a query inside the dimension. -/
theorem getDenseVectorFloat_eq (hdistinct : (query.map Prod.fst).Nodup)
    (hquery : TermsWithin dimension query) :
    ∃ dense, getDenseVectorFloat dimension query = .ok dense ∧ dense.length = dimension ∧
      ∀ term < dimension, dense[term]? = some (weight query term) := by
  have hzeros : TermsWithin (List.replicate dimension (0 : F)).length query := by
    rwa [List.length_replicate]
  obtain ⟨dense, hrun, hread⟩ := writes_eq hdistinct hzeros
  refine ⟨dense, hrun, BrutalIndex.length_getDenseVectorFloat hrun, fun term hterm => ?_⟩
  rw [hread, List.getElem?_replicate_of_lt hterm, Option.map_some]
  by_cases hmem : term ∈ query.map Prod.fst
  · rw [if_pos hmem]
  · rw [if_neg hmem, weight_of_notMem hmem]

/-- A query outside the dimension is written past the buffer. -/
theorem getDenseVectorFloat_outside (hquery : ¬ TermsWithin dimension query) :
    getDenseVectorFloat dimension query = .error .outOfBuffer := by
  suffices hany : ∀ dense : List F, ¬ TermsWithin dense.length query →
      query.foldlM (fun (dense : List F) entry =>
        if entry.1 < dense.length then Except.ok (dense.set entry.1 entry.2)
        else Except.error SearchFault.outOfBuffer) dense = .error .outOfBuffer from
    hany (List.replicate dimension 0) (by rwa [List.length_replicate])
  clear hquery
  -- over the terms written before the one outside, for any buffer of that length
  induction query with
  | nil => exact fun _ hquery => absurd (fun _ => nofun) hquery
  | cons entry query ih =>
      intro dense hquery
      rw [List.foldlM_cons]
      by_cases hentry : entry.1 < dense.length
      · rw [if_pos hentry]
        apply ih
        rw [List.length_set]
        exact fun hrest => hquery (List.forall_mem_cons.mpr ⟨hentry, hrest⟩)
      · rw [if_neg hentry]
        rfl

/-- A document inside the buffer scores its inner product with the query. -/
theorem dotProductFloatDense_eq
    (hdense : ∀ term < dense.length, dense[term]? = some (weight query term))
    (hrow : TermsWithin dense.length row) :
    dotProductFloatDense dense row = some (rowProduct query row) := by
  suffices hany : ∀ result : F, row.foldlM (fun result entry =>
      dense[entry.1]?.map fun weight => result + entry.2 * weight) result
        = some (result + rowProduct query row) by
    exact (hany 0).trans (congrArg some (zero_add _))
  induction row with
  | nil => exact fun result => congrArg some (add_zero result).symm
  | cons entry row ih =>
      intro result
      obtain ⟨hentry, hrow⟩ := List.forall_mem_cons.mp hrow
      rw [List.foldlM_cons, hdense _ hentry]
      show row.foldlM _ (result + entry.2 * weight query entry.1) = _
      rw [ih hrow, add_assoc]
      rfl

end Buffer

/-- The queries that are stored are those passed. -/
theorem stored_queries {dim : ℕ} (hdim : 0 < dim) {queries : CsrArgs F} {indptr indices : List ℕ}
    {values : List F} (hqueries : queries.checked = .ok (indptr, indices, values)) :
    ∃ empty stored : SparseVectors F, SparseVectors.new kElementSize dim = .ok empty ∧
      empty.addVectors indptr (indices.take (indptr.getD queries.n.toNat 0))
        (values.take (indptr.getD queries.n.toNat 0)) = .ok stored ∧
      stored.rows = queries.rows := by
  have hnew : SparseVectors.new kElementSize dim
      = .ok (⟨kElementSize, dim, [], [], []⟩ : SparseVectors F) := if_neg hdim.ne'
  obtain ⟨happend, hindices, hvalues, -, -⟩ := SparseVectors.addVectors_args id
    (⟨kElementSize, dim, [], [], []⟩ : SparseVectors F) hqueries
  rw [List.map_id, ← hindices, ← hvalues] at happend
  exact ⟨_, _, hnew, happend, rows_storedFloats hqueries hnew happend⟩

/-! ### All documents -/

/-- The ids of so many documents. -/
def documents (n : ℕ) : Finset ℤ := (Finset.range n).map Nat.castEmbedding

/-- Each of them is offered once. -/
theorem offeredBy_scoredDocs (score : ℕ → F) {n : ℕ} (hfew : n < 2 ^ 31) :
    offeredBy (BrutalIndex.scoredDocs score 0 n)
      = (documents n).val.map fun doc => ⟨score doc.toNat, doc⟩ := by
  have hids : ∀ j ∈ List.range n, (⟨score j, toIdx j⟩ : TopKItem F ℤ) = ⟨score j, j⟩ := by
    intro j hj
    rw [toIdx_eq_self_iff.mpr ((List.mem_range.mp hj).trans hfew)]
  rw [offeredBy, BrutalIndex.scoredDocs, ← List.range_eq_range', List.map_map, documents,
    Finset.map_val, Multiset.map_map]
  exact congrArg _ (List.map_congr_left hids)

namespace BrutalIndex

variable [CommRing F] [LinearOrder F] {Q : ItemQueue F ℤ} {vectors : SparseVectors F} {dim : ℕ}
  {query : SparseRow F} {dense : List F} {k : ℤ}

/-- **The row of a query** is the best of all documents. -/
theorem singleQuery_best (hk : 0 < k) (hne : vectors.numVectors ≠ 0)
    (hfew : vectors.numVectors < 2 ^ 31)
    (hdense : ∀ term < dense.length, dense[term]? = some (weight query term))
    (hrows : TermsBelow dense.length vectors.rows) :
    ∃ row, singleQuery Q vectors dense k = .ok row ∧
      BestRow k.toNat (fun doc => innerProduct vectors.rows query doc.toNat) id
        (documents vectors.numVectors) row := by
  have hscore : ∀ (j : ℕ) row, vectors.rows[j]? = some row →
      dotProductFloatDense dense row = some (innerProduct vectors.rows query (0 + j)) := by
    intro j row hrow
    rw [dotProductFloatDense_eq hdense (hrows row (List.mem_of_getElem? hrow)), rowProduct_comm,
      Nat.zero_add, innerProduct, List.getD_eq_getElem?_getD, hrow]
    rfl
  obtain ⟨n, rfl⟩ := Int.eq_ofNat_of_zero_le hk.le
  have hheld := DedupeTopKHolder.new_addAll Q (Int.natCast_pos.mp hk)
    (scoredDocs_nodup (innerProduct vectors.rows query) hfew)
  refine ⟨_, by rw [singleQuery, if_neg hne, scoreAll_eq hscore]; rfl, ?_⟩
  rw [SparseVectors.length_rows]
  generalize (DedupeTopKHolder.new Q (n : ℤ)).addAll id
    (scoredDocs (innerProduct vectors.rows query) 0 vectors.numVectors) = holder at hheld
  obtain ⟨items, hitems, hsorted, hdrained⟩ := holder.drained INVALID_IDX (-1)
  have hbest := hheld.best
  rw [← hitems, offeredBy_scoredDocs _ hfew] at hbest
  have hrow : BestRow n (fun doc => innerProduct vectors.rows query doc.toNat) id
      (documents vectors.numVectors) _ := bestRow_of_items hbest hsorted
  rw [List.map_id] at hrow
  simp only [hdrained, hheld.cap]
  exact hrow

omit [CommRing F] in
/-- The loop over the documents throws nothing. -/
theorem scoreAll_eq_error [Ring F] {rows : List (SparseRow F)} {i : ℕ}
    {holder : DedupeTopKHolder Q ℤ} {e : SearchFault}
    (h : scoreAll dense i rows holder = .error e) : e = .outOfBuffer := by
  induction rows generalizing i holder with
  | nil => cases h
  | cons row rows ih =>
      unfold scoreAll at h
      split at h
      · exact (Except.error.inj h).symm
      · exact ih h

/-- A document outside the buffer is read past it. -/
theorem singleQuery_outside (hne : vectors.numVectors ≠ 0)
    (hrows : ¬ TermsBelow dense.length vectors.rows) :
    singleQuery Q vectors dense k = .error .outOfBuffer := by
  rw [singleQuery, if_neg hne]
  rcases hscored : scoreAll dense 0 vectors.rows (DedupeTopKHolder.new Q k) with e | holder
  · obtain rfl := scoreAll_eq_error hscored
    rfl
  · exact absurd (termsBelow_of_scoreAll hscored) hrows

/-- **The rows of a batch** whose terms are all inside the buffer. -/
theorem searchQueries_best (hk : 0 < k) (hne : vectors.numVectors ≠ 0)
    (hfew : vectors.numVectors < 2 ^ 31) (hrows : TermsBelow dim vectors.rows)
    {queries : List (SparseRow F)} (hdistinct : ∀ query ∈ queries, (query.map Prod.fst).Nodup)
    (hqueries : TermsBelow dim queries) :
    ∃ rows, searchQueriesOver Q [] dim vectors k queries = .ok rows ∧
      BestRows k.toNat (fun query doc => innerProduct vectors.rows query doc.toNat) id
        (fun _ => documents vectors.numVectors) queries rows := by
  induction queries with
  | nil => exact ⟨([], []), rfl, [], rfl, .nil⟩
  | cons query queries ih =>
      obtain ⟨hfirst, hdistinct⟩ := List.forall_mem_cons.mp hdistinct
      obtain ⟨hquery, hqueries⟩ := List.forall_mem_cons.mp hqueries
      obtain ⟨dense, hwrites, hlen, hdense⟩ := getDenseVectorFloat_eq hfirst hquery
      subst hlen
      obtain ⟨row, hrun, hrow⟩ :
          ∃ row, singleQuery Q vectors dense k = .ok row ∧ BestRow k.toNat _ id _ row :=
        singleQuery_best hk hne hfew hdense hrows
      obtain ⟨rest, hrest, results, rfl, hresults⟩ := ih hdistinct hqueries
      refine ⟨(row.1 :: results.map Prod.fst, row.2 :: results.map Prod.snd), ?_, row :: results,
        rfl, .cons hrow hresults⟩
      rw [searchQueriesOver, hwrites]
      show (singleQuery Q vectors (dense ++ []) k).bind _ = _
      rw [List.append_nil, hrun]
      show (searchQueriesOver Q [] _ vectors k queries).bind _ = _
      rw [hrest]
      rfl

/-- Any other batch leaves a buffer. -/
theorem searchQueries_outside (hk : 0 < k) (hne : vectors.numVectors ≠ 0)
    (hfew : vectors.numVectors < 2 ^ 31) {queries : List (SparseRow F)}
    (hdistinct : ∀ query ∈ queries, (query.map Prod.fst).Nodup) (hsome : queries ≠ [])
    (hout : ¬ (TermsBelow dim vectors.rows ∧ TermsBelow dim queries)) :
    searchQueriesOver Q [] dim vectors k queries = .error .outOfBuffer := by
  induction queries with
  | nil => exact absurd rfl hsome
  | cons query queries ih =>
      obtain ⟨hfirst, hdistinct⟩ := List.forall_mem_cons.mp hdistinct
      by_cases hquery : TermsWithin dim query
      · obtain ⟨dense, hwrites, hlen, hdense⟩ := getDenseVectorFloat_eq hfirst hquery
        subst hlen
        rw [searchQueriesOver, hwrites]
        show (singleQuery Q vectors (dense ++ []) k).bind _ = _
        rw [List.append_nil]
        by_cases hrows : TermsBelow dense.length vectors.rows
        · -- so a later query is outside
          have hlater : ¬ TermsBelow dense.length queries := fun hqueries =>
            hout ⟨hrows, List.forall_mem_cons.mpr ⟨hquery, hqueries⟩⟩
          have hsome : queries ≠ [] := by
            rintro rfl
            exact hlater fun _ hrow => absurd hrow List.not_mem_nil
          obtain ⟨row, hrun, -⟩ :
              ∃ row, singleQuery Q vectors dense k = .ok row ∧ BestRow k.toNat _ id _ row :=
            singleQuery_best hk hne hfew hdense hrows
          rw [hrun]
          show (searchQueriesOver Q [] _ vectors k queries).bind _ = _
          rw [ih hdistinct hsome fun hall => hlater hall.2]
          rfl
        · rw [singleQuery_outside hne hrows]
          rfl
      · rw [searchQueriesOver, getDenseVectorFloat_outside hquery]
        rfl

/-! ### The documents of a run -/

/-- The index holds these rows. -/
structure Gathered (x : BrutalIndex F) (dim : ℕ) (docs : List (SparseRow F)) : Prop where
  dimension : x.dimension = dim
  vectors : (x.vectors = none ∧ docs = []) ∨
    ∃ v, x.vectors = some v ∧ v.WellFormed ∧ v.rows = docs

omit [CommRing F] [LinearOrder F] in
/-- **One `add`** appends its rows, or none when it throws. -/
theorem Gathered.add {x : BrutalIndex F} {docs : List (SparseRow F)} (hx : x.Gathered dim docs)
    (hdim : 0 < dim) (a : CsrArgs F) : (x.add a).1.Gathered dim (docs ++ a.rows) := by
  rcases hchecked : a.checked with e | ⟨indptr, indices, values⟩
  · have hadd : x.add a = (x, .error e) := by
      unfold BrutalIndex.add
      rw [hchecked]
    rw [hadd, CsrArgs.rows_of_checked_error hchecked, List.append_nil]
    exact hx
  · obtain ⟨v, hstart, hwf, hrows⟩ : ∃ v, vectorsOrNew kElementSize x.dimension x.vectors = .ok v ∧
        v.WellFormed ∧ v.rows = docs := by
      rcases hx.vectors with ⟨hnone, rfl⟩ | ⟨v, hsome, hwf, hrows⟩
      · have hnew : SparseVectors.new kElementSize x.dimension
            = .ok (⟨kElementSize, x.dimension, [], [], []⟩ : SparseVectors F) :=
          if_neg (hx.dimension.symm ▸ hdim.ne')
        obtain ⟨hwf, hrows, -, -⟩ := SparseVectors.new_wellFormed hnew
        exact ⟨_, by rw [vectorsOrNew, hnone]; exact hnew, hwf, hrows⟩
      · exact ⟨v, by rw [vectorsOrNew, hsome]; rfl, hwf, hrows⟩
    obtain ⟨-, -, hoff, -, hargs, -⟩ := CsrArgs.checked_eq_ok hchecked
    have happend := (SparseVectors.addVectors_args id v hchecked).1
    obtain ⟨hwf', hrows', -, -⟩ := SparseVectors.addVectors_eq_ok hwf hoff happend
    rw [List.map_id, hrows, ← hargs] at hrows'
    rw [add_eq x ⟨_, hchecked⟩, RowAdder.addRows_of_ok (startOr_eq_ok.mpr hstart)]
    exact ⟨hx.dimension, .inr ⟨_, rfl, hwf', hrows'⟩⟩

omit [CommRing F] [LinearOrder F] in
/-- **Every run of `add` calls** gathers their rows in order. -/
theorem run_gathered (hdim : 0 < dim) (batches : List (CsrArgs F)) :
    (batches.foldl (fun x a => (x.add a).1) (new dim)).Gathered dim
      (batches.flatMap CsrArgs.rows) := by
  have hany : ∀ (x : BrutalIndex F) docs, x.Gathered dim docs →
      (batches.foldl (fun x a => (x.add a).1) x).Gathered dim
        (docs ++ batches.flatMap CsrArgs.rows) := by
    induction batches with
    | nil =>
        intro x docs hx
        rwa [List.flatMap_nil, List.append_nil]
    | cons a batches ih =>
        intro x docs hx
        rw [List.flatMap_cons, ← List.append_assoc]
        exact ih _ _ (hx.add hdim a)
  exact hany _ [] ⟨rfl, .inl ⟨rfl, rfl⟩⟩

/-- A search is one of these documents with the queries as they are passed. -/
theorem search_of_adds (Q : ItemQueue F ℤ) (hdim : 0 < dim) {batches : List (CsrArgs F)}
    {docs : List (SparseRow F)} (hdocs : batches.flatMap CsrArgs.rows = docs) (hne : docs ≠ [])
    {queries : CsrArgs F} {indptr indices : List ℕ} {values : List F}
    (hqueries : queries.checked = .ok (indptr, indices, values)) (k : ℤ) :
    ∃ v : SparseVectors F,
      (batches.foldl (fun x a => (x.add a).1) (new dim)).search Q queries.n indptr indices values k
        = searchQueriesOver Q [] dim v k queries.rows ∧ v.rows = docs ∧ v.numVectors ≠ 0 := by
  obtain ⟨hdimension, hvectors⟩ := run_gathered hdim batches
  rw [hdocs] at hvectors
  generalize batches.foldl (fun x a => (x.add a).1) (new dim) = x at *
  obtain ⟨-, hnil⟩ | ⟨v, hsome, -, hrows⟩ := hvectors
  · exact absurd hnil hne
  have hnone : v.numVectors ≠ 0 := by
    rw [← v.length_rows, hrows]
    exact fun hzero => hne (List.length_eq_zero_iff.mp hzero)
  refine ⟨v, ?_, hrows, hnone⟩
  have hn := (CsrArgs.checked_eq_ok hqueries).1
  obtain ⟨empty, stored, hnew, happend, hstored⟩ := stored_queries hdim hqueries
  unfold search searchOver
  rw [hsome, hdimension]
  dsimp only
  rw [if_neg hn.ne', hnew]
  show (SearchFault.lift (SparseVectors.addVectors _ _ _ _)).bind _ = _
  rw [happend]
  show searchQueriesOver Q [] dim v k stored.rows = _
  rw [hstored]

/-- Inside the dimension it returns the best of them. -/
theorem search_best (Q : ItemQueue F ℤ) (hdim : 0 < dim) {batches : List (CsrArgs F)}
    {docs : List (SparseRow F)} (hdocs : batches.flatMap CsrArgs.rows = docs) (hne : docs ≠ [])
    (hfew : docs.length < 2 ^ 31) (hbelow : TermsBelow dim docs) {queries : CsrArgs F}
    {indptr indices : List ℕ} {values : List F}
    (hqueries : queries.checked = .ok (indptr, indices, values))
    (hdistinct : ∀ query ∈ queries.rows, (query.map Prod.fst).Nodup)
    (hwithin : TermsBelow dim queries.rows) (hk : 0 < k) :
    ∃ rows,
      (batches.foldl (fun x a => (x.add a).1) (new dim)).search Q queries.n indptr indices values k
        = .ok rows ∧
      BestRows k.toNat (fun query doc => innerProduct docs query doc.toNat) id
        (fun _ => documents docs.length) queries.rows rows := by
  obtain ⟨v, hsearch, rfl, hnone⟩ := search_of_adds Q hdim hdocs hne hqueries k
  rw [v.length_rows] at hfew ⊢
  rw [hsearch]
  exact searchQueries_best hk hnone hfew hbelow hdistinct hwithin

/-- **A brute-force search is exhaustive.**  After any `add` calls, those that throw included, a
search with queries of distinct terms returns for every query the best of all documents that were
added, by their inner products, when the terms of the documents and of the queries are all below
the dimension; and it leaves a buffer when one is not. -/
theorem search_exhaustive (Q : ItemQueue F ℤ) (hdim : 0 < dim) (batches : List (CsrArgs F))
    {docs : List (SparseRow F)} (hdocs : batches.flatMap CsrArgs.rows = docs) (hne : docs ≠ [])
    (hfew : docs.length < 2 ^ 31) {queries : CsrArgs F} {indptr indices : List ℕ} {values : List F}
    (hqueries : queries.checked = .ok (indptr, indices, values))
    (hdistinct : ∀ query ∈ queries.rows, (query.map Prod.fst).Nodup) (hk : 0 < k) :
    (TermsBelow dim docs ∧ TermsBelow dim queries.rows → ∃ rows,
      (batches.foldl (fun x a => (x.add a).1) (new dim)).search Q queries.n indptr indices values k
        = .ok rows ∧
      BestRows k.toNat (fun query doc => innerProduct docs query doc.toNat) id
        (fun _ => documents docs.length) queries.rows rows) ∧
    (¬ (TermsBelow dim docs ∧ TermsBelow dim queries.rows) →
      (batches.foldl (fun x a => (x.add a).1) (new dim)).search Q queries.n indptr indices values k
        = .error .outOfBuffer) := by
  refine ⟨fun hin => search_best Q hdim hdocs hne hfew hin.1 hqueries hdistinct hin.2 hk,
    fun hout => ?_⟩
  obtain ⟨v, hsearch, rfl, hnone⟩ := search_of_adds Q hdim hdocs hne hqueries k
  obtain ⟨hn, -, -, -, -, hcount⟩ := CsrArgs.checked_eq_ok hqueries
  have hsome : queries.rows ≠ [] := by
    intro hnil
    rw [hnil] at hcount
    exact hn.ne hcount
  rw [v.length_rows] at hfew
  rw [hsearch]
  exact searchQueries_outside hk hnone hfew hdistinct hsome hout

/-- **Three documents**, of which two are asked for. -/
theorem search_exhaustive_three_documents :
    (TermsBelow 2 threeDocuments.rows ∧ TermsBelow 2 twoTermQuery.rows → ∃ rows,
      ([threeDocuments].foldl (fun x a => (x.add a).1) (new 2)).search
          (sortedQueue TopKItem.score) 1 [0, 2] [0, 1] [1, 1] 2 = .ok rows ∧
      BestRows 2 (fun query doc => innerProduct threeDocuments.rows query doc.toNat) id
        (fun _ => documents 3) twoTermQuery.rows rows) ∧
    (¬ (TermsBelow 2 threeDocuments.rows ∧ TermsBelow 2 twoTermQuery.rows) →
      ([threeDocuments].foldl (fun x a => (x.add a).1) (new 2)).search
          (sortedQueue TopKItem.score) 1 [0, 2] [0, 1] [1, 1] 2 = .error .outOfBuffer) :=
  search_exhaustive (sortedQueue TopKItem.score) Nat.two_pos [threeDocuments]
    (List.flatMap_singleton ..) (by decide) (by decide)
    (show twoTermQuery.checked = .ok ([0, 2], [0, 1], [1, 1]) from rfl) (by decide) (by decide)

end BrutalIndex

end Nsparse
