/-
Nsparse/CoveringBudget.lean

What a search of a disk index owes, and when it is exact.

A fresh disk index scores the blocks of best summary score, out of the vectors.  Its
lists name documents that have their terms, over any history of adds, mapped CSR files
and builds (`DiskSeismicIndex.run_namesTerms`), so whatever the budget every row is
true (`DiskSeismicIndex.search_truthful`).

With a budget that covers the blocks of a query's lists nothing is passed over, and the
summaries do not matter: where no list was pruned the row is the best of all the selected
documents that share a term (`DiskSeismicIndex.search_covering`).
-/
import Nsparse.DiskBuilt
import Nsparse.MappedHistory
import Nsparse.SoundSearch

namespace Nsparse

open Wire

variable {F : Type}

/-! ### All the blocks of the lists -/

section Candidates

variable [Zero F] [Add F] [Sub F] [Mul F] [LinearOrder F] [FloatFormat F]
  {lists : List InvertedListClusters} {query : SparseRow Code} {cuts : List ℕ}

/-- As many candidates as the lists have clusters. -/
theorem length_blockCandidates :
    (blockCandidates (F := F) lists query cuts).length
      = (cuts.map fun term => (lists.getD term .empty).nClusters).sum := by
  rw [blockCandidates, List.length_flatMap]
  congr 1
  refine List.map_congr_left fun term _ => ?_
  rw [List.getD_eq_getElem?_getD]
  rcases lists[term]? with - | l
  · rfl
  · rw [List.length_map, List.length_range]
    rfl

/-- **The documents of all candidates** are those of the lists. -/
theorem docsOfBlocks_blockCandidates :
    docsOfBlocks (fun pl cid => (lists.getD pl .empty).getDocs cid)
        (blockCandidates (F := F) lists query cuts)
      = docsOfLists lists cuts := by
  rw [docsOfBlocks, blockCandidates, List.flatMap_assoc, docsOfLists]
  congr 1
  funext term
  rcases hl : lists[term]? with - | l
  · rfl
  · have hlist : lists.getD term .empty = l := by
      rw [List.getD_eq_getElem?_getD, hl, Option.getD_some]
    show (List.map _ (List.range l.nClusters)).flatMap _ = l.allDocs
    rw [List.flatMap_map, InvertedListClusters.allDocs]
    congr 1
    funext cid
    rw [hlist]

omit [Zero F] [Add F] [Sub F] [Mul F] [FloatFormat F] in
/-- **A budget that covers the candidates** selects them all. -/
theorem selectBlocks_of_covering (nth : StdNthElement) {candidates : List (BlockCandidate F)}
    {kPrime : ℤ} (h : (candidates.length : ℤ) ≤ kPrime) :
    selectBlocks nth candidates kPrime = candidates := by
  rw [selectBlocks]
  apply if_neg
  omega

end Candidates

/-! ### Queries -/

section Queries

variable [Zero F] [One F] [Neg F] [Add F] [Sub F] [Mul F] [LinearOrder F] [FloatFormat F]
  {Q : ItemQueue F ℤ} {nth : StdNthElement} {vectors : SparseVectors Code}
  {lists : List InvertedListClusters} {c : BlockSetting F} {cuts : List ℕ}
  {query : SparseRow Code} {dimension : ℕ}

omit [One F] [Neg F] in
/-- The selected blocks of a query, scored from an empty heap, give its items and leave the buffer
clean. -/
theorem blockBudgetQuery_of_blocks {source : ForwardSource} {s : Visit Q} (hk : 0 < c.k)
    (hquery : TermsWithin dimension query)
    (hrun : (selectBlocks nth (blockCandidates lists query cuts) c.kPrime).foldlM
      (fun s candidate => scoreBlock source lists c.format.elementSize
        (written (zeroBuffer dimension c.format.elementSize) query) c.sel candidate s)
      (⟨⟨c.k, Q.empty, ⊤⟩, []⟩ : Visit Q) = .ok s) :
    blockBudgetQuery Q nth source lists c cuts query (zeroBuffer dimension c.format.elementSize)
      = .ok (s.heap.topKItemsDescending, zeroBuffer dimension c.format.elementSize) := by
  obtain ⟨hscatter, hclear⟩ := @clearBuffer_scatter dimension c.format.elementSize query hquery
  have hheap : TopKHolder.new Q c.k = .ok ⟨c.k, Q.empty, ⊤⟩ := if_neg (not_le.mpr hk)
  rw [blockBudgetQuery, hscatter]
  show (SearchFault.lift (TopKHolder.new Q c.k)).bind _ = _
  rw [hheap]
  show Except.bind (List.foldlM _ _ _) _ = _
  rw [hrun]
  show (clearBuffer _ _ _).bind _ = _
  rw [hclear]
  rfl

/-- **A query whose blocks are covered** returns the best of all the documents of its lists, and
leaves the buffer clean. -/
theorem bestRow_blockBudgetQuery (Q : ItemQueue F ℤ) (nth : StdNthElement) (hk : 0 < c.k)
    (hquery : TermsWithin dimension query)
    (hcovered : ((cuts.map fun term => (lists.getD term .empty).nClusters).sum : ℤ) ≤ c.kPrime)
    (hwithin : ∀ doc ∈ selectedDocs c.sel (docsOfLists lists cuts),
      TermsWithin dimension (docRow vectors doc)) :
    ∃ items, blockBudgetQuery Q nth (.rows vectors) lists c cuts query
        (zeroBuffer dimension c.format.elementSize)
          = .ok (items, zeroBuffer dimension c.format.elementSize) ∧
      BestRow c.k.toNat
        (fun doc => denseScore F dimension c.format.elementSize query (docRow vectors doc))
        c.format.decodeScore (selectedDocs c.sel (docsOfLists lists cuts))
        (paddedResult c.format.decodeScore c.k items) := by
  have hheap : TopKHolder.new Q c.k = .ok ⟨c.k, Q.empty, ⊤⟩ := if_neg (not_le.mpr hk)
  -- the budget leaves no block out
  have hselected : selectBlocks nth (blockCandidates lists query cuts) c.kPrime
      = (blockCandidates lists query cuts : List (BlockCandidate F)) := by
    apply selectBlocks_of_covering
    rw [length_blockCandidates]
    exact_mod_cast hcovered
  have hlength : (written (zeroBuffer dimension c.format.elementSize) query).length = dimension := by
    rw [length_written, length_zeroBuffer]
  obtain ⟨s, hrun, hholds⟩ : ∃ s : Visit Q,
      scoreRows c.format.elementSize (written (zeroBuffer dimension c.format.elementSize) query) c.sel
          ((docsOfLists lists cuts).map fun doc => (doc, docRow vectors doc))
          ⟨⟨c.k, Q.empty, ⊤⟩, []⟩ = .ok s ∧
        s.heap.Holds c.k.toNat ((newDocs c.sel [] (docsOfLists lists cuts)).val.map
          (docItem c.format.elementSize (written (zeroBuffer dimension c.format.elementSize) query)
            (docRow vectors)) + 0) := by
    apply scoreRows_run _ _ (TopKHolder.new_holds hheap)
    intro doc hdoc
    rw [newDocs_nil] at hdoc
    rw [hlength]
    exact hwithin doc hdoc
  rw [newDocs_nil, add_zero] at hholds
  refine ⟨_, blockBudgetQuery_of_blocks hk hquery ?_, bestRow_of_holds hholds⟩
  rw [hselected]
  -- block by block is document by document
  show scoreBlocks (.rows vectors) lists c.format.elementSize
    (written (zeroBuffer dimension c.format.elementSize) query) c.sel
    (blockCandidates lists query cuts) (⟨⟨c.k, Q.empty, ⊤⟩, []⟩ : Visit Q) = .ok s
  rw [scoreBlocks_eq (blocksHold_rows vectors lists c.format.elementSize _),
    docsOfBlocks_blockCandidates]
  exact hrun

/-- **A query that is answered exactly**: distinct terms within the dimension, all of them kept, and
a budget for all their blocks. -/
structure CoveredQuery (lists : List InvertedListClusters) (dim : ℕ) (cut kPrime : ℤ)
    (query : SparseRow Code) : Prop where
  within : TermsWithin dim query
  distinct : (query.map Prod.fst).Nodup
  kept : (query.length : ℤ) ≤ cut
  covered : ((query.map fun entry => (lists.getD entry.1 .empty).nClusters).sum : ℤ) ≤ kPrime

end Queries

section Built

variable [CommRing F] [LinearOrder F] [FloatFormat F]

/-- **The queries of a batch** over the lists of a build that pruned nothing. -/
theorem bestRows_blockQueries (hbits : FloatFormat.ofBits (zeroCode U32) = (0 : F))
    (Q : ItemQueue F ℤ) (T : ItemQueue F ℕ) (nth : StdNthElement) (rng : Rng) (sort : StdSort)
    {vectors : SparseVectors Code} {dim : ℕ} (h : Stored vectors dim)
    (hdistinct : ∀ row ∈ vectors.rows, (row.map Prod.fst).Nodup) {params : ResolvedParameters F}
    (hunpruned : params.Unpruned vectors dim) {c : BlockSetting F} (hk : 0 < c.k)
    {queries : List (SparseRow Code)}
    (hqueries : ∀ query ∈ queries,
      CoveredQuery (clusteredLists rng sort vectors params 0 dim) dim c.cut c.kPrime query)
    (hfits : SumsFit c.format.elementSize queries vectors.rows) :
    ∃ rows, blockQueries Q T nth (.rows vectors) (clusteredLists rng sort vectors params 0 dim) c
        queries (zeroBuffer dim c.format.elementSize) = .ok rows ∧
      BestRows c.k.toNat
        (fun query doc => exactScore F c.format.elementSize query (docRow vectors doc))
        c.format.decodeScore (sharingDocs c.sel vectors) queries rows := by
  induction queries with
  | nil => exact ⟨_, rfl, [], rfl, .nil⟩
  | cons query queries ih =>
      obtain ⟨hquery, hqueries⟩ := List.forall_mem_cons.mp hqueries
      obtain ⟨hfit, hfits⟩ := List.forall_mem_cons.mp hfits
      have hdocs := @docsOfLists_eq F _ _ _ rng sort _ _ _ _ c.sel h hdistinct hunpruned
        hquery.within
      have hstoredRow : ∀ doc ∈ sharingDocs c.sel vectors query,
          docRow vectors doc ∈ vectors.rows := by
        intro doc hdoc
        obtain ⟨⟨i, rfl, hi, -⟩, -⟩ := mem_sharingDocs.mp hdoc
        rw [vectors.rows_eq_map_row]
        exact List.mem_map_of_mem (List.mem_range.mpr hi)
      have hwithin : ∀ doc ∈ sharingDocs c.sel vectors query,
          TermsWithin dim (docRow vectors doc) := fun doc hdoc => h.terms _ (hstoredRow doc hdoc)
      have hcovered : (((query.map Prod.fst).map fun term =>
          ((clusteredLists rng sort vectors params 0 dim).getD term .empty).nClusters).sum : ℤ)
            ≤ c.kPrime := by
        rw [List.map_map]
        exact hquery.covered
      obtain ⟨items, hrun, hrow⟩ := bestRow_blockBudgetQuery Q nth hk hquery.within hcovered
        fun doc hdoc => hwithin doc (hdocs ▸ hdoc)
      rw [hdocs] at hrow
      obtain ⟨rows, hrest, results, hrows, hbest⟩ := ih hqueries hfits
      have hcuts : topKTokens T c.format.elementSize query c.cut = .ok (query.map Prod.fst) :=
        if_pos hquery.kept
      -- the scores of the buffer are the exact ones, the query's terms being distinct
      have hexact := hrow.congr fun doc hdoc => similarityOf_eq_exactScore hbits hquery.distinct
        (hwithin doc hdoc) (hfit _ (hstoredRow doc hdoc))
      have hrows' := congrArg (fun rows : SearchRows F =>
        ((paddedResult c.format.decodeScore c.k items).1 :: rows.1,
          (paddedResult c.format.decodeScore c.k items).2 :: rows.2)) hrows
      refine ⟨_, ?_, _ :: results, hrows', .cons hexact hbest⟩
      · rw [blockQueries, hcuts]
        show (blockBudgetQuery _ _ _ _ _ _ _ _).bind _ = _
        rw [hrun]
        show (blockQueries _ _ _ _ _ _ _ _).bind _ = _
        rw [hrest]
        rfl

end Built

namespace DiskSeismicIndex

/-! ### Runs of a fresh index -/

section Runs

variable {x : DiskSeismicIndex F} {format : CodeFormat F}

/-- However `add` ends. -/
theorem add_namesTerms (args : CsrArgs F) (hx : x.Fresh format.elementSize)
    (hnames : x.toSeismicIndex.NamesTerms) :
    (x.add format args).1.toSeismicIndex.NamesTerms := by
  have hstart : (if x.vectors = none then { x with numVectors := 0 } else x).toSeismicIndex
      = x.toSeismicIndex := by
    split
    · rfl
    · rfl
  unfold add
  rcases hchecked : args.checked with e | ⟨indptr, indices, values⟩
  · exact hnames
  obtain ⟨-, -, hoff, -, -, -⟩ := CsrArgs.checked_eq_ok hchecked
  dsimp only
  generalize (if x.vectors = none then { x with numVectors := 0 } else x) = y at hstart ⊢
  rw [← hstart] at hnames
  rcases hto : y.vectorsToAdd format with e | vectors
  · exact hnames
  have hbefore : ∀ before, y.vectors = some before → vectors = before := by
    intro before hbefore
    rw [SeismicIndex.vectorsToAdd, hbefore] at hto
    exact (Except.ok.inj hto).symm
  have hsame : ∀ before, y.vectors = some before → ∃ more, vectors.rows = before.rows ++ more :=
    fun before h => ⟨[], by rw [hbefore before h, List.append_nil]⟩
  dsimp only
  split
  · -- a mapped file cannot grow
    exact hnames.extend hsame
  · rcases hadd : vectors.addVectors indptr indices (values.map format.encode) with e | vectors'
    · exact hnames.extend hsame
    · refine hnames.extend fun before h => ?_
      obtain rfl := hbefore before h
      have hwf := (hx.vectors vectors (by rw [← hstart]; exact h)).wellFormed
      exact ⟨_, (SparseVectors.addVectors_eq_ok hwf hoff hadd).2.1⟩

/-- However `read_csr` ends: it takes no vectors from an index. -/
theorem readMcsr_namesTerms (path : String) (file : Bytes) (hnames : x.toSeismicIndex.NamesTerms) :
    (x.readMcsr format path file).1.toSeismicIndex.NamesTerms := by
  unfold readMcsr
  split
  · exact hnames
  · rename_i hnone
    split
    · exact hnames
    · exact hnames.extend fun before h => by rw [hnone] at h; cases h

variable [Mul F] [FloatFormat F] [Zero F] [Add F] [Sub F] [LT F] [DecidableLT F] (rng : Rng)
  (sort : StdSort)

theorem step_namesTerms (call : Call F) (hx : x.Fresh format.elementSize)
    (hrange : x.toSeismicIndex.InRange) (hnames : x.toSeismicIndex.NamesTerms) :
    (step rng sort format x call).toSeismicIndex.NamesTerms := by
  cases call with
  | add args => exact add_namesTerms args hx hnames
  | readMcsr path file => exact readMcsr_namesTerms path file hnames
  | build env entropy =>
      exact SeismicIndex.build_namesTerms rng sort hx.toFed hrange hnames env entropy

/-- **Every run** keeps the lists to documents that have their terms. -/
theorem run_namesTerms (calls : List (Call F)) (hx : x.Fresh format.elementSize)
    (hrange : ∀ n, ((calls.take n).foldl (step rng sort format) x).toSeismicIndex.InRange)
    (hnames : x.toSeismicIndex.NamesTerms) :
    (calls.foldl (step rng sort format) x).toSeismicIndex.NamesTerms := by
  induction calls generalizing x with
  | nil => exact hnames
  | cons call calls ih =>
      exact ih (step_fresh rng sort hx call) (fun n => hrange (n + 1))
        (step_namesTerms rng sort call hx (hrange 0) hnames)

theorem step_settings (format : CodeFormat F) (x : DiskSeismicIndex F) (call : Call F) :
    (step rng sort format x call).dimension = x.dimension ∧
      (step rng sort format x call).clusterParameter = x.clusterParameter := by
  have hcall : ∀ c, x.Keeps (x.call rng sort format c).1 := x.call_keeps
  have hkeeps : x.Keeps (step rng sort format x call) := by
    cases call with
    | add args => exact hcall (.add args)
    | readMcsr path file => exact hcall (.readMcsr path file)
    | build env entropy => exact hcall (.build env entropy)
  exact ⟨hkeeps.dimension, hkeeps.parameter⟩

/-- No call changes the dimension or the parameters. -/
theorem run_settings (format : CodeFormat F) (calls : List (Call F)) (x : DiskSeismicIndex F) :
    (calls.foldl (step rng sort format) x).dimension = x.dimension ∧
      (calls.foldl (step rng sort format) x).clusterParameter = x.clusterParameter :=
  Prod.mk.inj (foldl_keeps (fun x : DiskSeismicIndex F => (x.dimension, x.clusterParameter))
    (fun x call => Prod.ext_iff.mpr (step_settings rng sort format x call)) calls x)

end Runs

/-! ### Searches of a fresh index -/

variable [CommRing F] [LinearOrder F] [FloatFormat F]

/-- A fresh index with documents scores blocks out of the vectors, unless it walks the selector. -/
theorem Fresh.search_eq {x : DiskSeismicIndex F} {elementSize : ℕ} (hx : x.Fresh elementSize)
    {vectors : SparseVectors Code} (hvectors : x.vectors = some vectors) (Q : ItemQueue F ℤ)
    (T : ItemQueue F ℕ) (sort : StdSort) (nth : StdNthElement)
    (queryFormat : Option (SearchFields F) → Except Exception (QueryFormat F)) {n : ℤ} (hn : 0 < n)
    (indptr indices : List ℕ) (values : List F) {k : ℤ} (fields : Option (SearchFields F))
    {sel : Option IDSelector} (hsel : exactMatchIds sel k = none) :
    x.search Q T sort nth queryFormat n indptr indices values k fields sel
      = x.searchBlocks Q T nth queryFormat n indptr indices values k fields sel (.rows vectors) := by
  have hcount : x.numVectors = vectors.numVectors := by rw [hx.count, hvectors]; rfl
  have hne : ¬ (x.numVectors = 0 ∨ n = 0) := by
    rw [hcount, not_or]
    exact ⟨(hx.vectors vectors hvectors).nonempty, hn.ne'⟩
  have hsource : x.forwardSource = some (.rows vectors) := by
    rw [forwardSource, hx.fwd, hvectors]
    exact if_neg (by decide)
  rw [search, if_neg hne, hsource]
  dsimp only
  rw [hsel]

/-- **A block search never lies.**  After any calls on a new disk index, whatever the parameters of
the build and of the search, a search that returns and does not walk its selector lists for every
query the best of some of the selected documents that share a term with it. -/
theorem search_truthful (hbits : FloatFormat.ofBits (zeroCode U32) = (0 : F)) (Q : ItemQueue F ℤ)
    (T : ItemQueue F ℕ) (rng : Rng) (sort : StdSort) (nth : StdNthElement) (format : CodeFormat F)
    {dim : ℕ} (hdim : dim < 2 ^ 31) (clusterParameter : SeismicClusterParameters F)
    (calls : List (Call F))
    (hrange : ∀ n, ((calls.take n).foldl (step rng sort format)
      (new dim clusterParameter)).toSeismicIndex.InRange)
    {vectors : SparseVectors Code}
    (hvectors : (calls.foldl (step rng sort format) (new dim clusterParameter)).vectors
      = some vectors)
    {queryFormat : Option (SearchFields F) → Except Exception (QueryFormat F)}
    {fields : Option (SearchFields F)} {queries : CsrArgs F} {indptr indices : List ℕ}
    {values : List F} (hqueries : queries.checked = .ok (indptr, indices, values)) {k : ℤ}
    {sel : Option IDSelector} (hsel : exactMatchIds sel k = none) {rows : SearchRows F}
    (hrun : (calls.foldl (step rng sort format) (new dim clusterParameter)).search Q T sort nth
      queryFormat queries.n indptr indices values k fields sel = .ok rows) :
    ∃ qf, queryFormat fields = .ok qf ∧ ∃ results : List (List F × List ℤ),
      rows = (results.map Prod.fst, results.map Prod.snd) ∧
      List.Forall₂ (TruthfulRow F dim vectors qf k sel)
        (codedQueries qf queries.n indptr indices values) results := by
  have hnew : (new dim clusterParameter).Fresh format.elementSize := new_fresh hdim clusterParameter
  have hnamed := run_namesTerms rng sort calls hnew hrange
    (SeismicIndex.new_namesTerms dim clusterParameter)
  have hfresh := run_fresh rng sort hnew calls
  have hdimension : (calls.foldl (step rng sort format) (new dim clusterParameter)).dimension
      = dim := (run_settings rng sort format calls _).1
  generalize calls.foldl (step rng sort format) (new dim clusterParameter) = x at *
  have hn := (CsrArgs.checked_eq_ok hqueries).1
  rw [hfresh.search_eq hvectors Q T sort nth queryFormat hn indptr indices values fields hsel]
    at hrun
  unfold searchBlocks at hrun
  dsimp only at hrun
  split at hrun
  · cases hrun
  obtain ⟨qf, hformat, hrun⟩ := bind_eq_ok hrun
  refine ⟨qf, lift_eq_ok hformat, ?_⟩
  have hsound := soundRows_blockQueries (fun query =>
      (sharingDocs sel vectors query).filter fun doc => TermsWithin x.dimension (docRow vectors doc))
    (fun query doc hlist hwithin hpass => ?_) hrun
  · -- a document with a term beyond the dimension would have ended the search
    obtain ⟨results, hrows, hall⟩ := hsound
    refine ⟨results, hrows, hall.imp fun query row hrow => ?_⟩
    rw [hdimension] at hrow
    exact .of_within hbits hrow
  · exact Finset.mem_filter.mpr ⟨hnamed.mem_sharingDocs hvectors hlist hpass, hwithin⟩

/-- A build of three documents, into lists of two clusters and one. -/
def threeDocumentBuild : DiskSeismicIndex ℤ × Except Exception Unit :=
  ([Call.add threeDocuments].foldl (step countingRng insertionSort (floatFormat ℤ "DSEI"))
    (new 2 SeismicIndex.twoClusterParameters)).build SeismicIndex.calmEnv countingRng insertionSort 0

/-- What is stored of them, before the build and after it, and how many blocks there are. -/
theorem threeDocumentBuild_holds :
    (([Call.add threeDocuments].foldl (step countingRng insertionSort (floatFormat ℤ "DSEI"))
        (new 2 SeismicIndex.twoClusterParameters)).dimension = 2 ∧
      ([Call.add threeDocuments].foldl (step countingRng insertionSort (floatFormat ℤ "DSEI"))
        (new 2 SeismicIndex.twoClusterParameters)).vectors
          = some SeismicIndex.threeDocumentCodes) ∧
    threeDocumentBuild.2 = .ok () ∧ threeDocumentBuild.1.dimension = 2 ∧
      threeDocumentBuild.1.vectors = some SeismicIndex.threeDocumentCodes ∧
      threeDocumentBuild.1.clusteredInvertedLists.map InvertedListClusters.nClusters = [2, 1] := by
  decide +kernel

/-- Adding the three documents and building leaves their codes. -/
theorem threeDocumentBuild_vectors :
    ([Call.add threeDocuments, .build SeismicIndex.calmEnv 0].foldl
      (step countingRng insertionSort (floatFormat ℤ "DSEI"))
      (new 2 SeismicIndex.twoClusterParameters)).vectors
        = some SeismicIndex.threeDocumentCodes := by
  obtain ⟨-, -, -, hvectors, -⟩ := threeDocumentBuild_holds
  exact hvectors

/-- The three documents can be built. -/
theorem inRange_threeDocumentsAdded :
    ([Call.add threeDocuments].foldl (step countingRng insertionSort (floatFormat ℤ "DSEI"))
      (new 2 SeismicIndex.twoClusterParameters)).toSeismicIndex.InRange := by
  obtain ⟨⟨hdim, hvectors⟩, -⟩ := threeDocumentBuild_holds
  exact SeismicIndex.inRange_threeDocuments hdim (.inr hvectors)

theorem inRange_threeDocumentBuild (n : ℕ) :
    (([Call.add threeDocuments, .build SeismicIndex.calmEnv 0].take n).foldl
      (step countingRng insertionSort (floatFormat ℤ "DSEI"))
      (new 2 SeismicIndex.twoClusterParameters)).toSeismicIndex.InRange := by
  obtain ⟨-, -, hdim, hvectors, -⟩ := threeDocumentBuild_holds
  rcases n with - | - | n
  · exact SeismicIndex.inRange_threeDocuments rfl (.inl rfl)
  · exact inRange_threeDocumentsAdded
  · rw [List.take_of_length_le (by simp)]
    exact SeismicIndex.inRange_threeDocuments hdim (.inr hvectors)

/-- **Three documents in three blocks**, one of which is searched: the best document is in it. -/
theorem search_truthful_three_documents :
    ∃ qf, floatSearch ℤ (some (.diskSeismic 10 1)) = .ok qf ∧
      ∃ results : List (List ℤ × List ℤ),
        (([[7]], [[1]]) : SearchRows ℤ) = (results.map Prod.fst, results.map Prod.snd) ∧
        List.Forall₂ (TruthfulRow ℤ 2 SeismicIndex.threeDocumentCodes qf 1 none)
          (codedQueries qf 1 [0, 2] [0, 1] [1, 1]) results := by
  exact search_truthful (by decide) (sortedQueue TopKItem.score) (sortedQueue TopKItem.score)
    countingRng insertionSort insertionSort.nthElement (floatFormat ℤ "DSEI") (by decide)
    SeismicIndex.twoClusterParameters
    [.add threeDocuments, .build SeismicIndex.calmEnv 0] inRange_threeDocumentBuild
    threeDocumentBuild_vectors
    (show twoTermQuery.checked = .ok ([0, 2], [0, 1], [1, 1]) from rfl)
    (show exactMatchIds none 1 = none from rfl) (by decide +kernel)

/-- What a build that returned leaves: a fresh index of the dimension, and the lists of its vectors. -/
theorem built_lists (rng : Rng) (sort : StdSort) (format : CodeFormat F) {dim : ℕ}
    (hdim : dim < 2 ^ 31) (clusterParameter : SeismicClusterParameters F) (calls : List (Call F))
    {env : SpillEnv} {entropy : ℕ} {x : DiskSeismicIndex F}
    (hrange : (calls.foldl (step rng sort format)
      (new dim clusterParameter)).toSeismicIndex.InRange)
    (hbuild : (calls.foldl (step rng sort format) (new dim clusterParameter)).build env rng sort
      entropy = (x, .ok ()))
    {vectors : SparseVectors Code} (hvectors : x.vectors = some vectors) :
    (calls.foldl (step rng sort format) (new dim clusterParameter)).vectors = some vectors ∧
      Stored vectors dim ∧ x.Fresh format.elementSize ∧ x.dimension = dim ∧
      x.clusteredInvertedLists = clusteredLists rng sort vectors
        (clusterParameter.resolve vectors.numVectors entropy) 0 dim := by
  have hnew : (new dim clusterParameter).Fresh format.elementSize := new_fresh hdim clusterParameter
  have hfresh := run_fresh rng sort hnew calls
  obtain ⟨hrundim, hparameter⟩ : (calls.foldl (step rng sort format)
        (new dim clusterParameter)).dimension = dim ∧
      (calls.foldl (step rng sort format) (new dim clusterParameter)).clusterParameter
        = clusterParameter := run_settings rng sort format calls _
  generalize calls.foldl (step rng sort format) (new dim clusterParameter) = y at *
  have hx := build_fresh env rng sort entropy hfresh
  rw [hbuild] at hx
  have hseismic : y.toSeismicIndex.build env rng sort entropy = (x.toSeismicIndex, .ok ()) := by
    rw [build] at hbuild
    obtain ⟨hstate, hok⟩ := Prod.mk.inj hbuild
    exact Prod.ext (congrArg DiskSeismicIndex.toSeismicIndex hstate) hok
  obtain ⟨hsame, hxdim, hlists⟩ := SeismicIndex.build_lists hfresh.toFed hrange hseismic
  have hbefore := hsame.symm.trans hvectors
  obtain ⟨hstored, hlists⟩ := SeismicIndex.lists_of_vectors hlists hbefore
  rw [hrundim] at hstored hlists
  rw [hparameter] at hlists
  exact ⟨hbefore, hstored, hx, hxdim.trans hrundim, hlists⟩

/-- A search of such an index whose budget covers the lists. -/
theorem covering_rows (hbits : FloatFormat.ofBits (zeroCode U32) = (0 : F)) (Q : ItemQueue F ℤ)
    (T : ItemQueue F ℕ) (rng : Rng) (sort : StdSort) (nth : StdNthElement) {dim elementSize : ℕ}
    {params : ResolvedParameters F} {x : DiskSeismicIndex F} {vectors : SparseVectors Code}
    (hx : x.Fresh elementSize ∧ x.dimension = dim ∧
      x.clusteredInvertedLists = clusteredLists rng sort vectors params 0 dim)
    (hvectors : x.vectors = some vectors) (hstored : Stored vectors dim)
    (hdistinct : ∀ row ∈ vectors.rows, (row.map Prod.fst).Nodup)
    (hunpruned : params.Unpruned vectors dim)
    {queryFormat : Option (SearchFields F) → Except Exception (QueryFormat F)}
    {fields : Option (SearchFields F)} {qf : QueryFormat F} (hformat : queryFormat fields = .ok qf)
    (hbudget : 0 < (SearchFields.cutAndBudget fields).2) {n : ℤ} (hn : 0 < n)
    {indptr indices : List ℕ} {values : List F} {k : ℤ} (hk : 0 < k)
    {sel : Option IDSelector} (hsel : exactMatchIds sel k = none)
    (hquery : ∀ query ∈ codedQueries qf n indptr indices values,
      CoveredQuery x.clusteredInvertedLists dim (SearchFields.cutAndBudget fields).1
        (SearchFields.cutAndBudget fields).2 query)
    (hfits : SumsFit qf.elementSize (codedQueries qf n indptr indices values) vectors.rows) :
    ∃ rows, x.search Q T sort nth queryFormat n indptr indices values k fields sel = .ok rows ∧
      BestRows k.toNat
        (fun query doc => exactScore F qf.elementSize query (docRow vectors doc))
        qf.decodeScore (sharingDocs sel vectors) (codedQueries qf n indptr indices values) rows := by
  obtain ⟨hfresh, hdimension, hlists⟩ := hx
  rw [hlists] at hquery
  obtain ⟨rows, hrun, hbest⟩ := bestRows_blockQueries hbits Q T nth rng sort hstored hdistinct
    hunpruned (c := ⟨qf, k, (SearchFields.cutAndBudget fields).1,
      (SearchFields.cutAndBudget fields).2, sel⟩) hk hquery hfits
  refine ⟨rows, ?_, hbest⟩
  rw [hfresh.search_eq hvectors Q T sort nth queryFormat hn indptr indices values fields hsel]
  unfold searchBlocks
  dsimp only
  rw [if_neg (not_le.mpr hbudget), hformat, hlists, hdimension]
  exact hrun

/-- **A block search with a covering budget is exact.**  After any calls and a build that returned
and pruned no list, a search whose budget covers the blocks of its queries' lists returns for
every query the `k` best of the selected documents that share a term with it, whatever the
summaries are, if the sums fit the accumulator of its kernel. -/
theorem search_covering (hbits : FloatFormat.ofBits (zeroCode U32) = (0 : F)) (Q : ItemQueue F ℤ)
    (T : ItemQueue F ℕ) (rng : Rng) (sort : StdSort) (nth : StdNthElement) (format : CodeFormat F)
    {dim : ℕ} (hdim : dim < 2 ^ 31) (clusterParameter : SeismicClusterParameters F)
    (calls : List (Call F)) {env : SpillEnv} {entropy : ℕ} {x : DiskSeismicIndex F}
    (hrange : (calls.foldl (step rng sort format)
      (new dim clusterParameter)).toSeismicIndex.InRange)
    (hbuild : (calls.foldl (step rng sort format) (new dim clusterParameter)).build env rng sort
      entropy = (x, .ok ()))
    {vectors : SparseVectors Code} (hvectors : x.vectors = some vectors)
    (hdistinct : ∀ row ∈ vectors.rows, (row.map Prod.fst).Nodup)
    (hunpruned : (clusterParameter.resolve vectors.numVectors entropy).Unpruned vectors dim)
    {queryFormat : Option (SearchFields F) → Except Exception (QueryFormat F)}
    {fields : Option (SearchFields F)} {qf : QueryFormat F} (hformat : queryFormat fields = .ok qf)
    (hbudget : 0 < (SearchFields.cutAndBudget fields).2)
    {queries : CsrArgs F} {indptr indices : List ℕ} {values : List F}
    (hqueries : queries.checked = .ok (indptr, indices, values)) {k : ℤ} (hk : 0 < k)
    {sel : Option IDSelector} (hsel : exactMatchIds sel k = none)
    (hquery : ∀ query ∈ codedQueries qf queries.n indptr indices values,
      CoveredQuery x.clusteredInvertedLists dim (SearchFields.cutAndBudget fields).1
        (SearchFields.cutAndBudget fields).2 query)
    (hfits : SumsFit qf.elementSize (codedQueries qf queries.n indptr indices values) vectors.rows) :
    ∃ rows, x.search Q T sort nth queryFormat queries.n indptr indices values k fields sel
        = .ok rows ∧
      BestRows k.toNat
        (fun query doc => exactScore F qf.elementSize query (docRow vectors doc))
        qf.decodeScore (sharingDocs sel vectors)
        (codedQueries qf queries.n indptr indices values) rows := by
  obtain ⟨-, hstored, hbuilt⟩ := built_lists rng sort format hdim clusterParameter calls hrange hbuild
    hvectors
  exact covering_rows hbits Q T rng sort nth hbuilt hvectors hstored hdistinct hunpruned hformat
    hbudget (CsrArgs.checked_eq_ok hqueries).1 hk hsel hquery hfits

/-- The default budget covers their three blocks. -/
theorem covered_twoTermRow :
    CoveredQuery threeDocumentBuild.1.clusteredInvertedLists 2
      (SearchFields.cutAndBudget (none : Option (SearchFields ℤ))).1
      (SearchFields.cutAndBudget (none : Option (SearchFields ℤ))).2 SeismicIndex.twoTermRow where
  within := by decide
  distinct := by decide
  kept := by decide
  covered := by
    obtain ⟨-, -, -, -, hclusters⟩ := threeDocumentBuild_holds
    have hcount : ∀ term, (threeDocumentBuild.1.clusteredInvertedLists.getD term .empty).nClusters
        = [2, 1].getD term 0 := by
      intro term
      rw [← hclusters]
      exact (List.getD_map ..).symm
    simp only [hcount]
    decide

/-- **Three documents and three blocks**, of which two documents are kept. -/
theorem search_covering_three_documents :
    ∃ rows, threeDocumentBuild.1.search (sortedQueue TopKItem.score) (sortedQueue TopKItem.score)
          insertionSort insertionSort.nthElement (floatSearch ℤ) 1 [0, 2] [0, 1] [1, 1] 2 none none
          = .ok rows ∧
      BestRows 2
        (fun query doc => exactScore ℤ U32 query (docRow SeismicIndex.threeDocumentCodes doc))
        id (sharingDocs none SeismicIndex.threeDocumentCodes) [SeismicIndex.twoTermRow] rows := by
  obtain ⟨-, hok, -, hbuilt, -⟩ := threeDocumentBuild_holds
  refine search_covering (by decide) (sortedQueue TopKItem.score) (sortedQueue TopKItem.score)
    countingRng insertionSort insertionSort.nthElement (floatFormat ℤ "DSEI") (by decide)
    SeismicIndex.twoClusterParameters [.add threeDocuments]
    inRange_threeDocumentsAdded (Prod.ext rfl hok) hbuilt (by decide)
    (by unfold ResolvedParameters.Unpruned; decide)
    (show floatSearch ℤ none = .ok ⟨U32, FloatFormat.toBits, id⟩ from rfl) (by decide)
    (show twoTermQuery.checked = .ok ([0, 2], [0, 1], [1, 1]) from rfl)
    (show (0 : ℤ) < 2 by decide) (show exactMatchIds none 2 = none from rfl) ?_ (sumsFit_float _ _)
  intro query hquery
  obtain rfl := List.mem_singleton.mp hquery
  exact covered_twoTermRow

end DiskSeismicIndex

end Nsparse
