/-
Nsparse/SoundSearch.lean

Approximate search never lies.

The lists of an index name documents of its corpus, each of which has the term of its
list, and they go on doing so: a later batch only appends rows, and a build that throws
leaves the lists as they were (`SeismicIndex.NamesTerms`, kept by every run).

So a search returns, whatever is pruned, cut or passed over and however old the lists
are, documents that pass the selector and share a term with the query, no document
twice and each with its exact score, the best first; and no rank beats the one an
exhaustive search would have there (`SeismicIndex.search_sound`).
-/
import Nsparse.LosslessSearch
import Nsparse.SoundVisit

namespace Nsparse

variable {F : Type}

/-! ### Documents that have a term -/

/-- The document is a row of the corpus that has the term, and none beyond the dimension. -/
def HasTerm (dim : ℕ) (vectors : SparseVectors Code) (term : ℕ) (doc : ℤ) : Prop :=
  ∃ (i : ℕ) (row : SparseRow Code), doc = i ∧ vectors.rows[i]? = some row ∧
    term ∈ row.map Prod.fst ∧ TermsWithin dim row

/-- Rows that are appended move no document. -/
theorem HasTerm.append {dim : ℕ} {vectors vectors' : SparseVectors Code} {term : ℕ} {doc : ℤ}
    {more : List (SparseRow Code)} (h : HasTerm dim vectors term doc)
    (hrows : vectors'.rows = vectors.rows ++ more) : HasTerm dim vectors' term doc := by
  obtain ⟨i, row, rfl, hrow, hterm, hwithin⟩ := h
  refine ⟨i, row, rfl, ?_, hterm, hwithin⟩
  rw [hrows, List.getElem?_append_left (List.getElem?_eq_some_iff.mp hrow).1]
  exact hrow

/-- It is the row that a search reads. -/
theorem HasTerm.docRow {dim : ℕ} {vectors : SparseVectors Code} {term : ℕ} {doc : ℤ}
    (h : HasTerm dim vectors term doc) :
    ∃ i : ℕ, doc = i ∧ i < vectors.numVectors ∧ term ∈ (vectors.row i).map Prod.fst ∧
      TermsWithin dim (docRow vectors doc) := by
  obtain ⟨i, row, rfl, hrow, hhas, hwithin⟩ := h
  have hi : i < vectors.numVectors := by
    rw [← vectors.length_rows]
    exact (List.getElem?_eq_some_iff.mp hrow).1
  rw [vectors.rows_eq_map_row, List.getElem?_map, List.getElem?_range hi] at hrow
  obtain rfl := Option.some_inj.mp hrow
  exact ⟨i, rfl, hi, hhas, hwithin⟩

/-- A document that has a term of the query shares one with it. -/
theorem HasTerm.mem_sharingDocs {dim : ℕ} {vectors : SparseVectors Code} {query : SparseRow Code}
    {term : ℕ} {doc : ℤ} {sel : Option IDSelector} (h : HasTerm dim vectors term doc)
    (hterm : term ∈ query.map Prod.fst) (hpass : IDSelector.passes sel doc = true) :
    doc ∈ sharingDocs sel vectors query := by
  obtain ⟨i, rfl, hi, hhas, -⟩ := h.docRow
  obtain ⟨entry, hentry, rfl⟩ := List.mem_map.mp hterm
  exact Nsparse.mem_sharingDocs.mpr ⟨⟨i, rfl, hi, entry, hentry, hhas⟩, hpass⟩

section Lists

variable [Mul F] [FloatFormat F] [Zero F] [Add F] [Sub F] [LT F] [DecidableLT F]

/-- Summaries leave the documents of a list alone. -/
theorem InvertedListClusters.docs_summarize (sort : StdSort) (vectors : SparseVectors Code)
    (alpha : F) (l : InvertedListClusters) : (l.summarize sort vectors alpha).docs = l.docs := by
  have htranspose : ∀ summaries, (l.buildTranspose sort summaries).docs = l.docs := by
    intro summaries
    unfold buildTranspose
    dsimp only
    split
    · rfl
    · rfl
  unfold summarize
  split
  · exact htranspose _
  · exact htranspose _

/-- **A built list names documents that have its term**, pruned and clustered as they may be. -/
theorem hasTerm_of_mem_clusteredList (rng : Rng) (sort : StdSort) {vectors : SparseVectors Code}
    {dim : ℕ} (hstored : Stored vectors dim) (params : ResolvedParameters F) {term : ℕ} {doc : ℤ}
    (h : doc ∈ (clusteredList rng sort vectors params term).docs) :
    HasTerm dim vectors term doc := by
  have hclusters : doc ∈ (clustersOf rng sort vectors params term).flatten := by
    rw [clusteredList_eq, InvertedListClusters.docs_summarize, InvertedListClusters.ofDocs] at h
    split at h
    · exact absurd h List.not_mem_nil
    · exact h
  have hpaired : (postingList vectors.rows term).docIds.length
      ≤ (postingList vectors.rows term).codes.length := by
    rw [docIds_postingList, List.length_map, postingList, InvertedList.ofPostings, List.length_map,
      List.length_map]
  -- clusters hold documents that pruning kept, and pruning keeps documents that were posted
  have hkept := (train_subperm F rng sort vectors _ _ _).1.subset hclusters
  have hposted := (pruneAndKeepDocIds_subperm F sort vectors.elementSize hpaired _).subset hkept
  obtain ⟨i, rfl, hi, hterm⟩ := (mem_docIds_postingList hstored.size).mp hposted
  refine ⟨i, vectors.row i, rfl, ?_, hterm, hstored.terms _ ?_⟩
  · rw [vectors.rows_eq_map_row, List.getElem?_map, List.getElem?_range hi, Option.map_some]
  · rw [vectors.rows_eq_map_row]
    exact List.mem_map_of_mem (List.mem_range.mpr hi)

end Lists

/-! ### Rows that are true -/

section Rows

variable [CommRing F] [LinearOrder F] [FloatFormat F]

/-- A query that is scored exactly: its terms are distinct, and the accumulator holds its sums with
all these documents. -/
structure ScoredExactly (vectors : SparseVectors Code) (elementSize : ℕ) (docs : Finset ℤ)
    (query : SparseRow Code) : Prop where
  distinct : (query.map Prod.fst).Nodup
  fits : ∀ doc ∈ docs, SumFits elementSize query (docRow vectors doc)

/-- **What the row of a query owes**: the best of some of the selected documents that share a term,
each with the score that the kernel gives it; where these are exact, at no rank above the exact
answer. -/
structure TruthfulRow (F : Type) [CommRing F] [LinearOrder F] [FloatFormat F] (dim : ℕ)
    (vectors : SparseVectors Code) (qf : QueryFormat F) (k : ℤ) (sel : Option IDSelector)
    (query : SparseRow Code) (row : List F × List ℤ) : Prop where
  sound : SoundRow k.toNat (fun doc => denseScore F dim qf.elementSize query (docRow vectors doc))
    qf.decodeScore (sharingDocs sel vectors query) row
  scored : ScoredExactly vectors qf.elementSize (sharingDocs sel vectors query) query →
    SoundRow k.toNat (fun doc => exactScore F qf.elementSize query (docRow vectors doc))
      qf.decodeScore (sharingDocs sel vectors query) row
  neverBetter : ScoredExactly vectors qf.elementSize (sharingDocs sel vectors query) query →
    Monotone qf.decodeScore →
    ∀ full : List F × List ℤ,
      BestRow k.toNat (fun doc => exactScore F qf.elementSize query (docRow vectors doc))
        qf.decodeScore (sharingDocs sel vectors query) full →
      ∀ i x, row.2.getD i INVALID_IDX ≠ INVALID_IDX → row.1.getD i x ≤ full.1.getD i x

/-- The best of some documents that share a term, and have their terms within the dimension, is such
a row. -/
theorem TruthfulRow.of_within (hbits : FloatFormat.ofBits (zeroCode U32) = (0 : F)) {dim : ℕ}
    {vectors : SparseVectors Code} {qf : QueryFormat F} {k : ℤ} {sel : Option IDSelector}
    {query : SparseRow Code} {row : List F × List ℤ}
    (h : SoundRow k.toNat (fun doc => denseScore F dim qf.elementSize query (docRow vectors doc))
      qf.decodeScore
      ((sharingDocs sel vectors query).filter fun doc => TermsWithin dim (docRow vectors doc)) row) :
    TruthfulRow F dim vectors qf k sel query row := by
  have hexact : ScoredExactly vectors qf.elementSize (sharingDocs sel vectors query) query →
      SoundRow k.toNat (fun doc => exactScore F qf.elementSize query (docRow vectors doc))
        qf.decodeScore (sharingDocs sel vectors query) row := by
    intro hscored
    refine (h.congr fun doc hdoc => ?_).mono (Finset.filter_subset _ _)
    obtain ⟨hshares, hwithin⟩ := Finset.mem_filter.mp hdoc
    exact similarityOf_eq_exactScore hbits hscored.distinct hwithin (hscored.fits doc hshares)
  exact ⟨h.mono (Finset.filter_subset _ _), hexact, fun hscored hdecode full hfull i x hlabel =>
    (hexact hscored).never_better hdecode hfull hlabel x⟩

end Rows

/-! ### Lists over whole runs -/

namespace SeismicIndex

/-- **Every list names documents of the corpus that have its term.** -/
def NamesTerms (x : SeismicIndex F) : Prop :=
  ∀ term l, x.clusteredInvertedLists[term]? = some l → ∀ doc ∈ l.docs,
    ∃ vectors, x.vectors = some vectors ∧ HasTerm x.dimension vectors term doc

/-- A selected document of the lists of a query's terms shares one. -/
theorem NamesTerms.mem_sharingDocs {x : SeismicIndex F} (hx : x.NamesTerms)
    {vectors : SparseVectors Code} (hvectors : x.vectors = some vectors) {query : SparseRow Code}
    {doc : ℤ} {sel : Option IDSelector}
    (h : NamedBy x.clusteredInvertedLists (query.map Prod.fst) doc)
    (hpass : IDSelector.passes sel doc = true) : doc ∈ sharingDocs sel vectors query := by
  obtain ⟨term, hterm, l, hl, hdoc⟩ := h
  obtain ⟨v, hv, hhas⟩ := hx term l hl doc hdoc
  obtain rfl := Option.some_inj.mp (hvectors.symm.trans hv)
  exact hhas.mem_sharingDocs hterm hpass

/-- The documents of the lists of some terms are inside the dimension. -/
theorem NamesTerms.within {x : SeismicIndex F} (hx : x.NamesTerms) {vectors : SparseVectors Code}
    (hvectors : x.vectors = some vectors) {cuts : List ℕ} {doc : ℤ}
    (h : NamedBy x.clusteredInvertedLists cuts doc) :
    TermsWithin x.dimension (docRow vectors doc) := by
  obtain ⟨term, -, l, hl, hdoc⟩ := h
  obtain ⟨v, hv, hhas⟩ := hx term l hl doc hdoc
  obtain rfl := Option.some_inj.mp (hvectors.symm.trans hv)
  obtain ⟨-, -, -, -, hwithin⟩ := hhas.docRow
  exact hwithin

/-- A new index has no lists. -/
theorem new_namesTerms (dim : ℕ) (params : SeismicClusterParameters F) :
    (new dim params).NamesTerms := fun _ _ hl => by cases hl

/-- Vectors that only gain rows go on being named. -/
theorem NamesTerms.extend {x : SeismicIndex F} (hx : x.NamesTerms) {vectors : SparseVectors Code}
    (h : ∀ before, x.vectors = some before → ∃ more, vectors.rows = before.rows ++ more) :
    NamesTerms { x with vectors := some vectors } := by
  intro term l hl doc hdoc
  obtain ⟨before, hbefore, hhas⟩ := hx term l hl doc hdoc
  obtain ⟨more, hrows⟩ := h before hbefore
  exact ⟨vectors, rfl, hhas.append hrows⟩

/-- Adding appends rows. -/
theorem add_namesTerms {format : CodeFormat F} {args : CsrArgs F} {x x' : SeismicIndex F}
    (hfed : x.Fed format.elementSize) (hx : x.NamesTerms) (h : x.add format args = .ok x') :
    x'.NamesTerms := by
  obtain ⟨indptr, indices, values, vectors, vectors', hchecked, hto, hadd, rfl⟩ := add_eq_ok h
  obtain ⟨-, -, hoff, -, -, -⟩ := CsrArgs.checked_eq_ok hchecked
  refine hx.extend fun before hbefore => ?_
  rw [vectorsToAdd, hbefore] at hto
  obtain rfl := Except.ok.inj hto
  have hwf := (hfed.vectors before hbefore).wellFormed
  exact ⟨_, (SparseVectors.addVectors_eq_ok hwf hoff hadd).2.1⟩

section Runs

variable [Mul F] [FloatFormat F] [Zero F] [Add F] [Sub F] [LT F] [DecidableLT F]
  (rng : Rng) (sort : StdSort) {format : CodeFormat F} {x : SeismicIndex F}

/-- A build that throws leaves the lists, and one that returns has named the rows it read. -/
theorem build_namesTerms (hfed : x.Fed format.elementSize) (hrange : x.InRange)
    (hx : x.NamesTerms) (env : SpillEnv) (entropy : ℕ) :
    (x.build env rng sort entropy).1.NamesTerms := by
  rcases hbuild : x.build env rng sort entropy with ⟨x', result⟩
  rcases result with e | ⟨⟩
  · -- what is left of a build that threw
    have hleft : x'.clusteredInvertedLists = x.clusteredInvertedLists ∧ x'.vectors = x.vectors ∧
        x'.dimension = x.dimension := by
      unfold build at hbuild
      split at hbuild
      · obtain ⟨rfl, -⟩ := Prod.mk.inj hbuild
        exact ⟨rfl, rfl, rfl⟩
      · cases hbuild
    obtain ⟨hlists, hvectors, hdim⟩ := hleft
    intro term l hl doc hdoc
    rw [hvectors, hdim]
    exact hx term l (hlists ▸ hl) doc hdoc
  · obtain ⟨hvectors, hdim, hlists⟩ := build_lists hfed hrange hbuild
    intro term l hl doc hdoc
    rw [hvectors, hdim]
    cases hlists with
    | none hnone hempty =>
        rw [hempty] at hl
        obtain rfl := List.eq_of_mem_replicate (List.mem_of_getElem? hl)
        exact absurd hdoc List.not_mem_nil
    | some vectors hsome hstored hclustered =>
        rw [hclustered] at hl
        have hterm : term < x.dimension := by
          have hlt := (List.getElem?_eq_some_iff.mp hl).1
          rwa [length_clusteredLists] at hlt
        rw [clusteredLists, List.getElem?_map, List.getElem?_range hterm, Option.map_some,
          Nat.zero_add, Option.some_inj] at hl
        subst hl
        exact ⟨vectors, hsome, hasTerm_of_mem_clusteredList rng sort hstored _ hdoc⟩

/-- **Every run** keeps the lists to documents that have their terms. -/
theorem run_namesTerms (calls : List (Call F)) (hfed : x.Fed format.elementSize)
    (hrange : ∀ n, (run rng sort format x (calls.take n)).InRange) (hx : x.NamesTerms) :
    (run rng sort format x calls).NamesTerms := by
  induction calls generalizing x with
  | nil => exact hx
  | cons call calls ih =>
      refine ih (step_fed rng sort hfed call) (fun n => hrange (n + 1)) ?_
      cases call with
      | add args =>
          unfold step
          dsimp only
          rcases hadd : x.add format args with e | x'
          · exact hx
          · exact add_namesTerms hfed hx hadd
      | build env entropy => exact build_namesTerms rng sort hfed (hrange 0) hx env entropy

end Runs

/-! ### Searches -/

variable [CommRing F] [LinearOrder F] [FloatFormat F]

/-- **Approximate search never lies.**  After any calls, whatever the parameters of the build and of
the search, a search that returns and does not walk its selector lists for every query the best
of some of the selected documents that share a term with it.  For a query of distinct terms whose
sums the accumulator holds the scores are exact, and no rank beats that of the best of all these
documents. -/
theorem search_sound (hbits : FloatFormat.ofBits (zeroCode U32) = (0 : F)) (Q : ItemQueue F ℤ)
    (T : ItemQueue F ℕ) (rng : Rng) (sort : StdSort) (format : CodeFormat F) {dim : ℕ}
    (hdim : dim < 2 ^ 31) (clusterParameter : SeismicClusterParameters F) (calls : List (Call F))
    (hrange : ∀ n, (run rng sort format (new dim clusterParameter) (calls.take n)).InRange)
    {vectors : SparseVectors Code}
    (hvectors : (run rng sort format (new dim clusterParameter) calls).vectors = some vectors)
    {queryFormat : Option (SearchFields F) → Except Exception (QueryFormat F)}
    {fields : Option (SearchFields F)} {queries : CsrArgs F} {indptr indices : List ℕ}
    {values : List F} (hqueries : queries.checked = .ok (indptr, indices, values)) {k : ℤ}
    {sel : Option IDSelector} (hsel : exactMatchIds sel k = none) {rows : SearchRows F}
    (hrun : (run rng sort format (new dim clusterParameter) calls).search Q T sort queryFormat
      queries.n indptr indices values k fields sel = .ok rows) :
    ∃ qf, queryFormat fields = .ok qf ∧ ∃ results : List (List F × List ℤ),
      rows = (results.map Prod.fst, results.map Prod.snd) ∧
      List.Forall₂ (TruthfulRow F dim vectors qf k sel)
        (codedQueries qf queries.n indptr indices values) results := by
  have hnew : (new dim clusterParameter).Fed format.elementSize := new_fed hdim clusterParameter
  have hnamed := run_namesTerms rng sort calls hnew hrange (new_namesTerms dim clusterParameter)
  have hfed := run_fed rng sort hnew calls
  have hdimension := (run_parameters rng sort format (new dim clusterParameter) calls).1
  generalize run rng sort format (new dim clusterParameter) calls = x at *
  have hn := (CsrArgs.checked_eq_ok hqueries).1
  rw [search_eq_lists hvectors Q T sort queryFormat hn indptr indices values fields hsel] at hrun
  obtain ⟨qf, hformat, hrun⟩ := bind_eq_ok hrun
  refine ⟨qf, lift_eq_ok hformat, ?_⟩
  have hsound := soundRows_searchQueries (fun query =>
      (sharingDocs sel vectors query).filter fun doc => TermsWithin x.dimension (docRow vectors doc))
    (hfed.vectors vectors hvectors).nonempty (fun query doc hlist hwithin hpass => ?_) hrun
  · obtain ⟨results, hrows, hall⟩ := hsound
    refine ⟨results, hrows, hall.imp fun query row hrow => ?_⟩
    rw [hdimension] at hrow
    exact .of_within hbits hrow
  · exact Finset.mem_filter.mpr ⟨hnamed.mem_sharingDocs hvectors hlist hpass, hwithin⟩

/-- Adding the three documents and building leaves their codes. -/
theorem threeDocumentBuild_vectors :
    (run countingRng insertionSort (floatFormat ℤ "SEIS") (new 2 twoClusterParameters)
      [.add threeDocuments, .build calmEnv 0]).vectors = some threeDocumentCodes := by
  obtain ⟨-, -, -, -, hbuilt⟩ := threeDocumentRun_holds
  exact hbuilt

theorem inRange_threeDocumentBuild (n : ℕ) :
    (run countingRng insertionSort (floatFormat ℤ "SEIS") (new 2 twoClusterParameters)
      (([.add threeDocuments, .build calmEnv 0] : List (Call ℤ)).take n)).InRange := by
  obtain ⟨hdim, hvectors, -, hbuiltdim, hbuilt⟩ := threeDocumentRun_holds
  rcases n with - | - | n
  · exact inRange_threeDocuments rfl (.inl rfl)
  · exact inRange_threeDocuments hdim (.inr hvectors)
  · rw [List.take_of_length_le (by simp)]
    exact inRange_threeDocuments hbuiltdim (.inr hbuilt)

/-- **Three documents in two clusters**: the search passes the cluster of the first and the third
over. -/
theorem search_sound_three_documents :
    ∃ qf, floatSearch ℤ none = .ok qf ∧ ∃ results : List (List ℤ × List ℤ),
      (([[7]], [[1]]) : SearchRows ℤ) = (results.map Prod.fst, results.map Prod.snd) ∧
      List.Forall₂ (TruthfulRow ℤ 2 threeDocumentCodes qf 1 none)
        (codedQueries qf 1 [0, 2] [0, 1] [1, 1]) results := by
  exact search_sound (by decide) (sortedQueue TopKItem.score) (sortedQueue TopKItem.score)
    countingRng insertionSort (floatFormat ℤ "SEIS") (by decide) twoClusterParameters
    [.add threeDocuments, .build calmEnv 0] inRange_threeDocumentBuild threeDocumentBuild_vectors
    (show twoTermQuery.checked = .ok ([0, 2], [0, 1], [1, 1]) from rfl)
    (show exactMatchIds none 1 = none from rfl) (by decide +kernel)

end SeismicIndex

end Nsparse
