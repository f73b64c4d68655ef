/-
Nsparse/LosslessSearch.lean

With lossless knobs a seismic search is exact.

What the knobs of the build must be is said by `ResolvedParameters.Lossless`, what a query
must be by `LosslessQuery`: its terms are distinct and within the dimension, all of them are
kept, and no weight is negative.  Then the lists of its terms have the documents that share
a term with it (`docsOfLists_eq`), their clusters' scores are bounds, and the visit misses
nothing: after any calls and a build that returned, a search returns for every query the
best of the selected documents that share a term (`SeismicIndex.search_lossless`).
-/
import Nsparse.BuiltIndex
import Nsparse.InvertedCorpus
import Nsparse.LosslessLists
import Nsparse.ResultRows

namespace Nsparse

variable {F : Type} [CommRing F] [LinearOrder F] [IsStrictOrderedRing F] [FloatFormat F]

/-! ### Exact scores -/

omit [LinearOrder F] [IsStrictOrderedRing F] [FloatFormat F] in
/-- The inner product of whole numbers, as floats. -/
theorem cast_rowProduct (decode : Code → ℕ) (query row : SparseRow Code) :
    ((rowProduct (decodeRow decode query) (decodeRow decode row) : ℕ) : F)
      = rowProduct (decodeRow (fun code => (decode code : F)) query)
          (decodeRow (fun code => (decode code : F)) row) := by
  have hweight : ∀ term, (((((decodeRow decode query).filter fun q => q.1 = term).map
      Prod.snd).sum : ℕ) : F)
        = (((decodeRow (fun code => (decode code : F)) query).filter
            fun q => q.1 = term).map Prod.snd).sum := by
    intro term
    induction query with
    | nil => exact Nat.cast_zero
    | cons entry query ih =>
        by_cases hterm : entry.1 = term
        · simp only [decodeRow, List.map_cons, hterm, decide_true, List.filter_cons_of_pos,
            List.sum_cons, Nat.cast_add] at ih ⊢
          rw [ih]
        · simp only [decodeRow, List.map_cons, hterm, decide_false, Bool.false_eq_true,
            not_false_eq_true, List.filter_cons_of_neg] at ih ⊢
          exact ih
  induction row with
  | nil => exact Nat.cast_zero
  | cons entry row ih =>
      show ((decode entry.2 * _ + rowProduct _ (decodeRow decode row) : ℕ) : F)
        = (decode entry.2 : F) * _ + rowProduct _ _
      rw [Nat.cast_add, Nat.cast_mul, ih, hweight]
      rfl

omit [IsStrictOrderedRing F] in
/-- **The exact score** is the inner product of the stored values, whatever their width. -/
theorem exactScore_eq_codeProduct (hF : ExactFloat F) {elementSize : ℕ}
    (hwidth : elementSize = U32 ∨ elementSize = U16 ∨ elementSize = U8)
    (query row : SparseRow Code) :
    exactScore F elementSize query row
      = codeProduct (ValueType.ofWidth F elementSize) query row := by
  have huint : ∀ width, (FloatFormat.ofInt
      (rowProduct (decodeRow Wire.leNat query) (decodeRow Wire.leNat row) : ℕ) : F)
        = codeProduct (ValueType.uint F width) query row := by
    intro width
    have hvalue : codeValue (ValueType.uint F width) = fun code => ((Wire.leNat code : ℕ) : F) := by
      funext code
      exact (hF.ofInt _).trans (Int.cast_natCast _)
    rw [hF.ofInt, Int.cast_natCast, cast_rowProduct, codeProduct, hvalue]
  rcases hwidth with rfl | rfl | rfl
  · exact if_pos rfl
  · exact (if_neg (by decide)).trans (huint U16)
  · exact (if_neg (by decide)).trans (huint U8)

/-! ### The documents that share a term -/

/-- The selected documents that have a term of the query. -/
def sharingDocs (sel : Option IDSelector) (vectors : SparseVectors Code) (query : SparseRow Code) :
    Finset ℤ :=
  selectedDocs sel (((List.range vectors.numVectors).filter fun i =>
    query.any fun entry => decide (entry.1 ∈ (vectors.row i).map Prod.fst)).map fun i : ℕ => (i : ℤ))

theorem mem_sharingDocs {sel : Option IDSelector} {vectors : SparseVectors Code}
    {query : SparseRow Code} {doc : ℤ} :
    doc ∈ sharingDocs sel vectors query ↔
      (∃ i : ℕ, doc = i ∧ i < vectors.numVectors ∧
        ∃ entry ∈ query, entry.1 ∈ (vectors.row i).map Prod.fst) ∧
      IDSelector.passes sel doc = true := by
  rw [sharingDocs, mem_selectedDocs, List.mem_map]
  refine and_congr_left fun _ => exists_congr fun i => ?_
  rw [List.mem_filter, List.mem_range, List.any_eq_true]
  constructor
  · rintro ⟨⟨hi, entry, hentry, hterm⟩, rfl⟩
    exact ⟨rfl, hi, entry, hentry, of_decide_eq_true hterm⟩
  · rintro ⟨rfl, hi, entry, hentry, hterm⟩
    exact ⟨⟨hi, entry, hentry, decide_eq_true hterm⟩, rfl⟩

section Search

variable {rng : Rng} {sort : StdSort} {vectors : SparseVectors Code} {dim : ℕ}
  {params : ResolvedParameters F} {query : SparseRow Code} {sel : Option IDSelector}

omit [IsStrictOrderedRing F] in
theorem getElem?_clusteredLists {term : ℕ} (h : term < dim) :
    (clusteredLists rng sort vectors params 0 dim)[term]?
      = some (clusteredList rng sort vectors params term) := by
  rw [clusteredLists, List.getElem?_map, List.getElem?_range h, Option.map_some, Nat.zero_add]

omit [IsStrictOrderedRing F] in
/-- **The lists of a query's terms** have the documents that share one. -/
theorem docsOfLists_eq (h : Stored vectors dim)
    (hdistinct : ∀ row ∈ vectors.rows, (row.map Prod.fst).Nodup)
    (hunpruned : params.Unpruned vectors dim) (hquery : TermsWithin dim query) :
    selectedDocs sel (docsOfLists (clusteredLists rng sort vectors params 0 dim)
        (query.map Prod.fst))
      = sharingDocs sel vectors query := by
  ext doc
  rw [mem_selectedDocs, mem_sharingDocs]
  refine and_congr_left fun _ => ?_
  -- nothing was pruned: a list has every document with its term
  have hlist : ∀ entry ∈ query,
      (doc ∈ ((clusteredLists rng sort vectors params 0 dim)[entry.1]?.getD .empty).allDocs ↔
        ∃ i : ℕ, doc = i ∧ i < vectors.numVectors ∧ entry.1 ∈ (vectors.row i).map Prod.fst) := by
    intro entry hentry
    rw [getElem?_clusteredLists (hquery entry hentry)]
    exact mem_allDocs_clusteredList rng sort h hdistinct hunpruned (hquery entry hentry)
  rw [docsOfLists, List.mem_flatMap]
  constructor
  · rintro ⟨term, hterm, hdoc⟩
    obtain ⟨entry, hentry, rfl⟩ := List.mem_map.mp hterm
    obtain ⟨i, hi, hlt, hhas⟩ := (hlist entry hentry).mp hdoc
    exact ⟨i, hi, hlt, entry, hentry, hhas⟩
  · rintro ⟨i, hi, hlt, entry, hentry, hhas⟩
    exact ⟨entry.1, List.mem_map_of_mem hentry, (hlist entry hentry).mpr ⟨i, hi, hlt, hhas⟩⟩

/-! ### Queries -/

/-- **A query that is answered exactly**: distinct terms within the dimension, all of them kept, and
no negative weight. -/
structure LosslessQuery (F : Type) [Ring F] [LinearOrder F] [FloatFormat F] (elementSize dim : ℕ)
    (cut : ℤ) (query : SparseRow Code) : Prop where
  within : TermsWithin dim query
  distinct : (query.map Prod.fst).Nodup
  kept : (query.length : ℤ) ≤ cut
  nonneg : ∀ entry ∈ query, 0 ≤ codeValue (ValueType.ofWidth F elementSize) entry.2

variable {Q : ItemQueue F ℤ} {T : ItemQueue F ℕ} {sort' : StdSort} {c : SearchSetting F}

/-- **One query** over the lists of a lossless build. -/
theorem singleQuery_lossless (hF : ExactFloat F)
    (hbits : FloatFormat.ofBits (zeroCode U32) = (0 : F)) (h : BoundedCorpus F vectors dim)
    (hlossless : params.Lossless vectors dim) (hk : 0 < c.k) (hfactor : 1 ≤ c.heapFactor)
    (hsize : c.format.elementSize = vectors.elementSize)
    (hquery : LosslessQuery F vectors.elementSize dim c.cut query)
    (hfits : ∀ row ∈ vectors.rows, SumFits vectors.elementSize query row) :
    ∃ row, singleQuery Q sort' vectors (clusteredLists rng sort vectors params 0 dim) c
        (query.map Prod.fst) query (zeroBuffer dim c.format.elementSize)
          = .ok (row, zeroBuffer dim c.format.elementSize) ∧
      BestRow c.k.toNat (fun doc => exactScore F vectors.elementSize query (docRow vectors doc))
        c.format.decodeScore (sharingDocs c.sel vectors query) row := by
  have hrow : ∀ doc : ℤ, (∃ i : ℕ, doc = i ∧ i < vectors.numVectors) →
      docRow vectors doc ∈ vectors.rows := by
    rintro doc ⟨i, rfl, hi⟩
    rw [vectors.rows_eq_map_row]
    exact List.mem_map_of_mem (List.mem_range.mpr hi)
  have hwithin : ∀ doc : ℤ, (∃ i : ℕ, doc = i ∧ i < vectors.numVectors) →
      TermsWithin dim (docRow vectors doc) := fun doc hdoc => h.terms _ (hrow doc hdoc)
  -- the loop's score of a document is the exact one, the terms of the query being distinct
  have hscore : ∀ doc : ℤ, (∃ i : ℕ, doc = i ∧ i < vectors.numVectors) →
      similarityOf c.format.elementSize
        (written (zeroBuffer dim c.format.elementSize) query) (docRow vectors doc)
          = exactScore F vectors.elementSize query (docRow vectors doc) := by
    intro doc hdoc
    rw [similarityOf_eq_exactScore hbits hquery.distinct (hwithin doc hdoc)
      (hsize ▸ hfits _ (hrow doc hdoc)), hsize]
  have hdocs := @docsOfLists_eq F _ _ _ rng sort _ _ _ _ c.sel h.toStored h.distinct
    hlossless.lambda hquery.within
  have hnamed : ∀ doc ∈ sharingDocs c.sel vectors query,
      ∃ i : ℕ, doc = i ∧ i < vectors.numVectors := by
    intro doc hdoc
    obtain ⟨⟨i, hi, hlt, -⟩, -⟩ := mem_sharingDocs.mp hdoc
    exact ⟨i, hi, hlt⟩
  -- so no summary scores less than a document of its cluster
  have hbounds : ∀ term ∈ query.map Prod.fst, ∀ l,
      (clusteredLists rng sort vectors params 0 dim)[term]? = some l → l.Bounds query fun doc =>
        (similarityOf c.format.elementSize
          (written (zeroBuffer dim c.format.elementSize) query) (docRow vectors doc) : F) := by
    intro term hterm l hl
    obtain ⟨entry, hentry, rfl⟩ := List.mem_map.mp hterm
    rw [getElem?_clusteredLists (hquery.within entry hentry), Option.some_inj] at hl
    subst hl
    obtain ⟨hnonneg, hbound⟩ := bounds_clusteredList rng sort hF h hlossless
      (hquery.within entry hentry) hquery.nonneg
    refine ⟨hnonneg, fun cluster hcluster doc hdoc => ?_⟩
    have hin : doc ∈ (clusteredList rng sort vectors params entry.1).allDocs :=
      List.mem_flatMap.mpr ⟨cluster, List.mem_range.mpr hcluster, hdoc⟩
    obtain ⟨i, hi, hlt, -⟩ :=
      (mem_allDocs_clusteredList rng sort h.toStored h.distinct hlossless.lambda
        (hquery.within entry hentry)).mp hin
    rw [hscore doc ⟨i, hi, hlt⟩, exactScore_eq_codeProduct hF h.width]
    exact hbound cluster hcluster doc hdoc
  obtain ⟨row, hrun, hbest⟩ := bestRow_singleQuery Q sort' h.nonempty hk hfactor hquery.within
    (fun doc hdoc => hwithin doc (hnamed doc (hdocs ▸ hdoc))) hbounds
  refine ⟨row, hrun, ?_⟩
  rw [hdocs] at hbest
  exact hbest.congr fun doc hdoc => hscore doc (hnamed doc hdoc)

/-- **The queries of a batch**, one after the other on one thread. -/
theorem searchQueries_lossless (hF : ExactFloat F)
    (hbits : FloatFormat.ofBits (zeroCode U32) = (0 : F)) (h : BoundedCorpus F vectors dim)
    (hlossless : params.Lossless vectors dim) (hk : 0 < c.k) (hfactor : 1 ≤ c.heapFactor)
    (hsize : c.format.elementSize = vectors.elementSize) {queries : List (SparseRow Code)}
    (hqueries : ∀ query ∈ queries, LosslessQuery F vectors.elementSize dim c.cut query)
    (hfits : SumsFit vectors.elementSize queries vectors.rows) :
    ∃ rows, searchQueries Q T sort' vectors (clusteredLists rng sort vectors params 0 dim) c queries
        (zeroBuffer dim c.format.elementSize) = .ok rows ∧
      BestRows c.k.toNat
        (fun query doc => exactScore F vectors.elementSize query (docRow vectors doc))
        c.format.decodeScore (sharingDocs c.sel vectors) queries rows := by
  induction queries with
  | nil => exact ⟨_, rfl, [], rfl, .nil⟩
  | cons query queries ih =>
      obtain ⟨hquery, hqueries⟩ := List.forall_mem_cons.mp hqueries
      obtain ⟨hfit, hfits⟩ := List.forall_mem_cons.mp hfits
      obtain ⟨row, hrun, hrow⟩ := @singleQuery_lossless F _ _ _ _ rng sort vectors dim params query Q
        sort' c hF hbits h hlossless hk hfactor hsize hquery hfit
      obtain ⟨rows, hrest, results, hrows, hbest⟩ := ih hqueries hfits
      -- the cut keeps every term
      have hcuts : topKTokens T c.format.elementSize query c.cut = .ok (query.map Prod.fst) :=
        if_pos hquery.kept
      refine ⟨(row.1 :: rows.1, row.2 :: rows.2), ?_, row :: results, ?_, .cons hrow hbest⟩
      · rw [searchQueries, hcuts]
        show (singleQuery _ _ _ _ _ _ _ _).bind _ = _
        rw [hrun]
        show (searchQueries _ _ _ _ _ _ _ _).bind _ = _
        rw [hrest]
        rfl
      · rw [hrows]
        rfl

end Search

/-! ### A built index -/

namespace SeismicIndex

omit [IsStrictOrderedRing F] in
/-- Over vectors a build that returned leaves their clustered lists. -/
theorem lists_of_vectors {rng : Rng} {sort : StdSort} {entropy : ℕ} {x x' : SeismicIndex F}
    (h : Lists rng sort entropy x x') {vectors : SparseVectors Code}
    (hvectors : x.vectors = some vectors) :
    Stored vectors x.dimension ∧ x'.clusteredInvertedLists = clusteredLists rng sort vectors
      (x.clusterParameter.resolve vectors.numVectors entropy) 0 x.dimension := by
  cases h with
  | none hnone _ =>
      rw [hnone] at hvectors
      cases hvectors
  | some v hv hstored hlists =>
      obtain rfl := Option.some.inj (hv.symm.trans hvectors)
      exact ⟨hstored, hlists⟩

omit [CommRing F] [LinearOrder F] [IsStrictOrderedRing F] in
/-- A build changes neither the dimension nor the parameters. -/
theorem build_parameters [Mul F] [Zero F] [Add F] [Sub F] [LT F] [DecidableLT F]
    (x : SeismicIndex F) (env : SpillEnv) (rng : Rng) (sort : StdSort) (entropy : ℕ) :
    (x.build env rng sort entropy).1.dimension = x.dimension ∧
      (x.build env rng sort entropy).1.clusterParameter = x.clusterParameter := by
  unfold build
  split
  · exact ⟨rfl, rfl⟩
  · exact ⟨rfl, rfl⟩

omit [IsStrictOrderedRing F] in
/-- Nor does an add. -/
theorem step_parameters (rng : Rng) (sort : StdSort) (format : CodeFormat F) (x : SeismicIndex F)
    (call : Call F) :
    (step rng sort format x call).dimension = x.dimension ∧
      (step rng sort format x call).clusterParameter = x.clusterParameter := by
  cases call with
  | add args =>
      rw [step]
      rcases hadd : x.add format args with e | x'
      · exact ⟨rfl, rfl⟩
      · obtain ⟨_, _, _, _, _, _, _, _, rfl⟩ := add_eq_ok hadd
        exact ⟨rfl, rfl⟩
  | build env entropy => exact x.build_parameters env rng sort entropy

omit [IsStrictOrderedRing F] in
/-- No call changes the dimension or the parameters. -/
theorem run_parameters (rng : Rng) (sort : StdSort) (format : CodeFormat F) (x : SeismicIndex F)
    (calls : List (Call F)) :
    (run rng sort format x calls).dimension = x.dimension ∧
      (run rng sort format x calls).clusterParameter = x.clusterParameter :=
  Prod.mk.inj (foldl_keeps (fun x : SeismicIndex F => (x.dimension, x.clusterParameter))
    (fun x call => Prod.ext_iff.mpr (step_parameters rng sort format x call)) calls x)

omit [IsStrictOrderedRing F] in
/-- A search that does not walk its selector goes through the lists. -/
theorem search_eq_lists {x : SeismicIndex F} {vectors : SparseVectors Code}
    (hvectors : x.vectors = some vectors) (Q : ItemQueue F ℤ) (T : ItemQueue F ℕ) (sort : StdSort)
    (queryFormat : Option (SearchFields F) → Except Exception (QueryFormat F)) {n : ℤ} (hn : 0 < n)
    (indptr indices : List ℕ) (values : List F) {k : ℤ} (fields : Option (SearchFields F))
    {sel : Option IDSelector} (hsel : exactMatchIds sel k = none) :
    x.search Q T sort queryFormat n indptr indices values k fields sel = (do
      let qf ← SearchFault.lift (queryFormat fields)
      searchQueries Q T sort vectors x.clusteredInvertedLists
        ⟨qf, k, (SearchFields.cutAndHeapFactor fields).1,
          (SearchFields.cutAndHeapFactor fields).2, sel⟩
        (codedQueries qf n indptr indices values) (zeroBuffer x.dimension qf.elementSize)) := by
  unfold search
  rw [hvectors]
  dsimp only
  rw [if_neg hn.ne', hsel]
  rfl

omit [IsStrictOrderedRing F] in
/-- **What a build that returned leaves**: a corpus whose summaries can bound its scores, and its
clustered lists. -/
theorem built_corpus (rng : Rng) (sort : StdSort) (format : CodeFormat F) {dim : ℕ}
    (hdim : dim < 2 ^ 31) (clusterParameter : SeismicClusterParameters F) (calls : List (Call F))
    {env : SpillEnv} {entropy : ℕ} {x : SeismicIndex F}
    (hrange : (run rng sort format (new dim clusterParameter) calls).InRange)
    (hbuild : (run rng sort format (new dim clusterParameter) calls).build env rng sort entropy
      = (x, .ok ()))
    {vectors : SparseVectors Code} (hvectors : x.vectors = some vectors)
    (hdistinct : ∀ row ∈ vectors.rows, (row.map Prod.fst).Nodup)
    (hentries : vectors.indices.length < 2 ^ 31)
    (hfloats : format.elementSize = U32 → FloatFormat.ofBits (FloatFormat.toBits (0 : F)) = (0 : F) ∧
      ∀ code ∈ vectors.values, FloatFormat.ofBits (FloatFormat.toBits (FloatFormat.ofBits code : F))
        = (FloatFormat.ofBits code : F)) :
    x.dimension = dim ∧ vectors.elementSize = format.elementSize ∧ BoundedCorpus F vectors dim ∧
      x.clusteredInvertedLists = clusteredLists rng sort vectors
        (clusterParameter.resolve vectors.numVectors entropy) 0 dim := by
  obtain ⟨hrundim, hparameter⟩ := run_parameters rng sort format (new dim clusterParameter) calls
  have hnew : (new dim clusterParameter).Fed format.elementSize := new_fed hdim clusterParameter
  have hfed := run_fed rng sort hnew calls
  obtain ⟨hsame, hxdim, hlists⟩ := build_lists hfed hrange hbuild
  rw [hrundim] at hxdim
  rw [hsame] at hvectors
  have hdocs := hfed.vectors vectors hvectors
  rw [hrundim] at hdocs
  obtain ⟨hstored, hlists⟩ := lists_of_vectors hlists hvectors
  rw [hrundim] at hstored hlists
  rw [hparameter] at hlists
  have hwidth := hdocs.width
  refine ⟨hxdim, hwidth, ?_, hlists⟩
  exact
    { toStored := hstored
      dimension := hdocs.dimension
      distinct := hdistinct
      rewritable :=
        { width := hstored.width
          length := by rw [hwidth]; exact hdocs.codes
          zero := fun h => (hfloats (hwidth.symm.trans h)).1
          floats := fun h => (hfloats (hwidth.symm.trans h)).2 }
      entries := hentries }

/-- **Search with lossless knobs is exact.**  After any calls, a build that returned and parameters
that lose nothing, a search with a factor of at least 1 that does not walk its selector and whose
sums fit the accumulator of its kernel returns for every query the `k` best of the selected
documents that share a term with it. -/
theorem search_lossless (hF : ExactFloat F) (hbits : FloatFormat.ofBits (zeroCode U32) = (0 : F))
    (Q : ItemQueue F ℤ) (T : ItemQueue F ℕ) (rng : Rng) (sort : StdSort) (format : CodeFormat F)
    {dim : ℕ} (hdim : dim < 2 ^ 31) (clusterParameter : SeismicClusterParameters F)
    (calls : List (Call F)) {env : SpillEnv} {entropy : ℕ} {x : SeismicIndex F}
    (hrange : (run rng sort format (new dim clusterParameter) calls).InRange)
    (hbuild : (run rng sort format (new dim clusterParameter) calls).build env rng sort entropy
      = (x, .ok ()))
    {vectors : SparseVectors Code} (hvectors : x.vectors = some vectors)
    (hdistinct : ∀ row ∈ vectors.rows, (row.map Prod.fst).Nodup)
    (hentries : vectors.indices.length < 2 ^ 31)
    (hfloats : format.elementSize = U32 → FloatFormat.ofBits (FloatFormat.toBits (0 : F)) = (0 : F) ∧
      ∀ code ∈ vectors.values, FloatFormat.ofBits (FloatFormat.toBits (FloatFormat.ofBits code : F))
        = (FloatFormat.ofBits code : F))
    (hlossless : (clusterParameter.resolve vectors.numVectors entropy).Lossless vectors dim)
    {queryFormat : Option (SearchFields F) → Except Exception (QueryFormat F)}
    {fields : Option (SearchFields F)} {qf : QueryFormat F} (hformat : queryFormat fields = .ok qf)
    (hsize : qf.elementSize = format.elementSize)
    (hfactor : 1 ≤ (SearchFields.cutAndHeapFactor fields).2)
    {queries : CsrArgs F} {indptr indices : List ℕ} {values : List F}
    (hqueries : queries.checked = .ok (indptr, indices, values)) {k : ℤ} (hk : 0 < k)
    {sel : Option IDSelector} (hsel : exactMatchIds sel k = none)
    (hquery : ∀ query ∈ codedQueries qf queries.n indptr indices values,
      LosslessQuery F format.elementSize dim (SearchFields.cutAndHeapFactor fields).1 query)
    (hfits : SumsFit format.elementSize (codedQueries qf queries.n indptr indices values)
      vectors.rows) :
    ∃ rows, x.search Q T sort queryFormat queries.n indptr indices values k fields sel = .ok rows ∧
      BestRows k.toNat
        (fun query doc => exactScore F format.elementSize query (docRow vectors doc))
        qf.decodeScore (sharingDocs sel vectors)
        (codedQueries qf queries.n indptr indices values) rows := by
  obtain ⟨hdimension, hwidth, hcorpus, hlists⟩ := built_corpus rng sort format hdim clusterParameter
    calls hrange hbuild hvectors hdistinct hentries hfloats
  rw [← hwidth] at hsize hquery hfits ⊢
  obtain ⟨rows, hrun, hbest⟩ := @searchQueries_lossless F _ _ _ _ rng sort vectors dim
    (clusterParameter.resolve vectors.numVectors entropy) Q T sort
    ⟨qf, k, (SearchFields.cutAndHeapFactor fields).1, (SearchFields.cutAndHeapFactor fields).2, sel⟩
    hF hbits hcorpus hlossless hk hfactor hsize _ hquery hfits
  refine ⟨rows, ?_, hbest⟩
  have hn := (CsrArgs.checked_eq_ok hqueries).1
  rw [search_eq_lists hvectors Q T sort queryFormat hn indptr indices values fields hsel, hformat,
    hdimension, hlists]
  exact hrun

/-! ### Three documents in two clusters -/

/-- `threeDocuments` as an index stores them. -/
def threeDocumentCodes : SparseVectors Code :=
  ⟨U32, 2, [0, 1, 3, 4], [0, 0, 1, 0], [5, 3, 4, 1].map (FloatFormat.toBits (F := ℤ))⟩

/-- Nothing is pruned, and a list has at most two clusters. -/
def twoClusterParameters : SeismicClusterParameters ℤ := ⟨0, 2, 1, ⟨1, ""⟩, 42⟩

/-- `twoTermQuery` as a search has it. -/
def twoTermRow : SparseRow Code := [(0, FloatFormat.toBits (1 : ℤ)), (1, FloatFormat.toBits (1 : ℤ))]

/-- The documents in an index. -/
def threeDocumentRun : SeismicIndex ℤ :=
  run countingRng insertionSort (floatFormat ℤ "SEIS") (new 2 twoClusterParameters)
    [.add threeDocuments]

theorem stored_threeDocuments : Stored threeDocumentCodes 2 where
  wellFormed := ⟨rfl, by decide, fun _ => ⟨rfl, by decide, rfl⟩⟩
  nonempty := by decide
  size := by decide
  terms := by decide
  terms16 := by decide
  width := by decide
  postings := by decide

theorem inRange_threeDocuments {x : SeismicIndex ℤ} (hdim : x.dimension = 2)
    (hvectors : x.vectors = none ∨ x.vectors = some threeDocumentCodes) : x.InRange := by
  intro v hv _ _
  rcases hvectors with hnone | hsome
  · rw [hnone] at hv
    cases hv
  · obtain rfl := Option.some_inj.mp (hsome.symm.trans hv)
    rw [hdim]
    exact stored_threeDocuments

/-- What is stored of them, before a build and after it. -/
theorem threeDocumentRun_holds :
    threeDocumentRun.dimension = 2 ∧ threeDocumentRun.vectors = some threeDocumentCodes ∧
      (threeDocumentRun.build calmEnv countingRng insertionSort 0).2 = .ok () ∧
      (threeDocumentRun.build calmEnv countingRng insertionSort 0).1.dimension = 2 ∧
      (threeDocumentRun.build calmEnv countingRng insertionSort 0).1.vectors
        = some threeDocumentCodes := by
  decide +kernel

/-- **A search that passes a cluster over**: the first list has a cluster of the first and the third
document, which the score of the second one beats. -/
theorem search_lossless_skipped_cluster :
    ∃ rows, (threeDocumentRun.build calmEnv countingRng insertionSort 0).1.search
          (sortedQueue TopKItem.score) (sortedQueue TopKItem.score) insertionSort (floatSearch ℤ) 1
          [0, 2] [0, 1] [1, 1] 1 none none = .ok rows ∧
      BestRows 1 (fun query doc => exactScore ℤ U32 query (docRow threeDocumentCodes doc)) id
        (sharingDocs none threeDocumentCodes) [twoTermRow] rows := by
  obtain ⟨hdim, hvectors, hok, -, hbuilt⟩ := threeDocumentRun_holds
  refine search_lossless exactFloat_int (by decide) (sortedQueue TopKItem.score)
    (sortedQueue TopKItem.score) countingRng insertionSort (floatFormat ℤ "SEIS") (by decide)
    twoClusterParameters [.add threeDocuments]
    (inRange_threeDocuments hdim (.inr hvectors)) (Prod.ext rfl hok) hbuilt
    (by decide) (by decide) (fun _ => ⟨by decide, by decide⟩) ?_
    (show floatSearch ℤ none = .ok ⟨U32, FloatFormat.toBits, id⟩ from rfl) rfl
    (show (1 : ℤ) ≤ (SearchFields.cutAndHeapFactor none).2 by decide)
    (show twoTermQuery.checked = .ok ([0, 2], [0, 1], [1, 1]) from rfl)
    (show (0 : ℤ) < 1 by decide) (show exactMatchIds none 1 = none from rfl) ?_ (sumsFit_float _ _)
  · exact
      { lambda := by decide
        alpha := by decide
        clusters := fun _ _ => .inr (.inl ⟨by decide, by decide⟩) }
  · intro query hquery
    obtain rfl := List.mem_singleton.mp hquery
    exact ⟨by decide, by decide, by decide, by decide⟩

end SeismicIndex

end Nsparse
