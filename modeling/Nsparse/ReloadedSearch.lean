/-
Nsparse/ReloadedSearch.lean

Search before and after a disk index is written and mapped again.

Block search survives: the candidates come from the summaries, which the file keeps, and a
block is scored as its cluster was (`block_search_survives_reload`).
-/
import Nsparse.DiskBuilt
import Nsparse.ReloadedBlocks

namespace Nsparse

open DiskSeismicIndex

/-! ### The two disk indexes -/

/-- `DiskSeismicIndex` or `DiskSeismicScalarQuantizedIndex`. -/
inductive DiskKind (F : Type) [LT F] [FloatFormat F]
  | float
  | quantized (sq : ScalarQuantizer F)

namespace DiskKind

variable {F : Type}

section Format

variable [Zero F] [Sub F] [Mul F] [LinearOrder F] [FloatFormat F]

/-- How values are stored. -/
def format : DiskKind F → CodeFormat F
  | float => floatFormat F IndexKind.diskSeismic.name
  | quantized sq => quantizedFormat sq IndexKind.diskSeismicSQ.name

/-- How queries are encoded, and scores decoded. -/
def queryFormat : DiskKind F → Option (SearchFields F) → Except Exception (QueryFormat F)
  | float => floatSearch F
  | quantized sq => diskQuantizedSearch sq

/-- The index as it is stored. -/
def stored : DiskKind F → DiskSeismicIndex F → StoredIndex F
  | float, x => .diskSeismic x
  | quantized sq, x => .diskSeismicSQ sq x

/-- Queries have the width of what is stored. -/
theorem elementSize_of_queryFormat {kind : DiskKind F} {params : Option (SearchFields F)}
    {format : QueryFormat F} (h : kind.queryFormat params = .ok format) :
    format.elementSize = kind.format.elementSize := by
  cases kind with
  | float =>
      obtain rfl := Except.ok.inj h
      rfl
  | quantized sq =>
      obtain ⟨query, hquery, heq⟩ : ∃ query, sq.diskQueryQuantizer params = .ok query ∧
          quantizedQueries sq query = format := by
        show ∃ query, _ ∧ _
        replace h : (sq.diskQueryQuantizer params).map (quantizedQueries sq) = .ok format := h
        rcases hquery : sq.diskQueryQuantizer params with e | query
        · rw [hquery] at h
          cases h
        · rw [hquery] at h
          exact ⟨query, rfl, Except.ok.inj h⟩
      rw [← heq]
      rfl

variable [One F]

/-- Either is mapped from its own file. -/
theorem mapped {kind : DiskKind F} {x : DiskSeismicIndex F} (hx : x.Storable kind.format.elementSize)
    (hcount : x.numVectors = (x.writtenVectors kind.format.elementSize).numVectors) {bytes : Wire.Bytes}
    (hw : (kind.stored x).write [] = .ok bytes) (hsize : bytes.length < 2 ^ 63) (page : ℕ) :
    ∃ y, mapIndex (4096 * page) ⟨bytes, 0⟩ = .ok (kind.stored y, ⟨bytes, bytes.length⟩) ∧
      y.Reloads kind.format.elementSize x := by
  cases kind with
  | float => exact DiskSeismicIndex.mapped hx hcount hw hsize page
  | quantized sq => exact DiskSeismicIndex.mapped_quantized sq hx hcount hw hsize page

end Format

/-! ### Built indexes -/

variable [Zero F] [Add F] [Sub F] [Mul F] [LinearOrder F] [FloatFormat F]

/-- An index in memory whose last call was a build that returned, after any adds, mapped CSR files
and builds, however they ended. -/
structure Built (kind : DiskKind F) (rng : Rng) (sort : StdSort) (x : DiskSeismicIndex F) : Prop where
  history : ∃ (dim : ℕ) (params : SeismicClusterParameters F) (calls : List (Call F))
    (env : SpillEnv) (entropy : ℕ), dim < 2 ^ 31 ∧
      (calls.foldl (step rng sort kind.format) (new dim params)).toSeismicIndex.InRange ∧
      (calls.foldl (step rng sort kind.format) (new dim params)).build env rng sort entropy
        = (x, .ok ())

variable {kind : DiskKind F} {rng : Rng} {sort : StdSort} {x : DiskSeismicIndex F}

theorem Built.fresh (h : kind.Built rng sort x) : x.Fresh kind.format.elementSize := by
  obtain ⟨dim, params, calls, env, entropy, hdim, -, hbuild⟩ := h.history
  have hrun := run_fresh rng sort (@new_fresh F kind.format.elementSize dim hdim params) calls
  have hfresh := build_fresh env rng sort entropy hrun
  rwa [hbuild] at hfresh

/-- Its lists are what a build made of documents that fit their types. -/
theorem Built.seismic (h : kind.Built rng sort x) :
    ∃ (x₀ : SeismicIndex F) (env : SpillEnv) (entropy : ℕ), x₀.Fed kind.format.elementSize ∧
      x₀.InRange ∧ x₀.build env rng sort entropy = (x.toSeismicIndex, .ok ()) := by
  obtain ⟨dim, params, calls, env, entropy, hdim, hrange, hbuild⟩ := h.history
  have hrun := run_fresh rng sort (@new_fresh F kind.format.elementSize dim hdim params) calls
  refine ⟨_, env, entropy, hrun.toFed, hrange, ?_⟩
  rw [build] at hbuild
  obtain ⟨hstate, hok⟩ := Prod.mk.inj hbuild
  exact Prod.ext (congrArg DiskSeismicIndex.toSeismicIndex hstate) hok

/-- One list for each term, and without documents no cluster. -/
theorem Built.lists (h : kind.Built rng sort x) :
    x.clusteredInvertedLists.length = x.dimension ∧
      (x.vectors = none → ∀ l ∈ x.clusteredInvertedLists, l.nClusters = 0) := by
  obtain ⟨x₀, env, entropy, hfed, hrange, hbuild⟩ := h.seismic
  obtain ⟨hvectors, hdim, hlists⟩ := SeismicIndex.build_lists hfed hrange hbuild
  rw [hvectors, hdim]
  cases hlists with
  | none hnone heq =>
      rw [heq, List.length_replicate]
      refine ⟨rfl, fun _ l hl => ?_⟩
      rw [List.eq_of_mem_replicate hl]
      rfl
  | some v hsome hstored heq =>
      rw [heq, length_clusteredLists]
      exact ⟨rfl, fun hnone => absurd (hsome.symm.trans hnone) nofun⟩

/-- A file can hold what was built, of a dimension that terms can name. -/
theorem Built.storable (h : kind.Built rng sort x) (hdim : x.dimension ≤ 2 ^ 16) :
    x.Storable kind.format.elementSize := by
  obtain ⟨dim, params, calls, env, entropy, hsmall, hrange, hbuild⟩ := h.history
  have hrun := run_fresh rng sort (@new_fresh F kind.format.elementSize dim hsmall params) calls
  refine build_storable hrun hrange kind.format.width ?_ hbuild
  have hsame := (SeismicIndex.build_vectors
    (x := (calls.foldl (step rng sort kind.format) (new dim params)).toSeismicIndex) env rng sort
    entropy).2
  rw [← hsame]
  have hx := congrArg (fun r => r.1.dimension) hbuild
  exact (show _ = x.dimension from hx).trans_le hdim

end DiskKind

/-! ### Block search -/

variable {F : Type} [Zero F] [One F] [Neg F] [Add F] [Sub F] [Mul F] [LinearOrder F]
  [FloatFormat F] {Q : ItemQueue F ℤ} {kind : DiskKind F} {x y : DiskSeismicIndex F}

/-- The blocks answer as the rows did. -/
theorem DiskSeismicIndex.Reloads.searchBlocks_eq (h : y.Reloads kind.format.elementSize x)
    {vectors : SparseVectors Code} (hvectors : x.vectors = some vectors)
    (hwidth : vectors.elementSize = kind.format.elementSize) (T : ItemQueue F ℕ)
    (nth : StdNthElement) (n : ℤ) (indptr indices : List ℕ) (values : List F) (k : ℤ)
    (params : Option (SearchFields F)) (sel : Option IDSelector) :
    y.searchBlocks Q T nth kind.queryFormat n indptr indices values k params sel (.blocks y.fwd)
      = x.searchBlocks Q T nth kind.queryFormat n indptr indices values k params sel
          (.rows vectors) := by
  have hmirrors := h.mirrors
  rw [writtenVectors_eq hvectors] at hmirrors
  unfold searchBlocks
  dsimp only
  split
  · rfl
  · rcases hformat : kind.queryFormat params with e | format
    · rfl
    · show blockQueries _ _ _ _ _ _ _ _ = blockQueries _ _ _ _ _ _ _ _
      rw [hmirrors.summaries, h.dimension]
      apply hmirrors.blockQueries_eq
      rw [hwidth]
      exact DiskKind.elementSize_of_queryFormat hformat

omit [Zero F] [One F] [Neg F] [Add F] [Sub F] [Mul F] [FloatFormat F] in
theorem selectBlocks_nil (nth : StdNthElement) (kPrime : ℤ) :
    selectBlocks nth ([] : List (BlockCandidate F)) kPrime = [] := by
  rw [selectBlocks]
  exact if_neg (by simp)

omit [Zero F] [One F] [Neg F] [Add F] [Sub F] [Mul F] [FloatFormat F] in
/-- A new heap lists nothing. -/
theorem topKItemsDescending_new {k : ℤ} {heap : TopKHolder Q}
    (h : SearchFault.lift (TopKHolder.new Q k) = .ok heap) :
    heap.topKItemsDescending = ([], []) := by
  rcases hnew : TopKHolder.new Q k with e | heap'
  · rw [hnew] at h
    cases h
  · rw [hnew] at h
    obtain rfl := Except.ok.inj h
    obtain ⟨l, hl, -, heq⟩ := heap'.topKItemsDescending_spec
    have hnone := Multiset.le_zero.mp (TopKHolder.new_holds hnew).best.le
    rw [hnone, Multiset.coe_eq_zero] at hl
    rw [heq, hl]
    rfl

omit [One F] [Neg F] in
/-- Lists without a cluster have no candidates. -/
theorem blockCandidates_of_no_clusters {lists : List InvertedListClusters}
    (hlists : ∀ l ∈ lists, l.nClusters = 0) (query : SparseRow Code) (cuts : List ℕ) :
    blockCandidates (F := F) lists query cuts = [] := by
  refine List.eq_nil_iff_forall_not_mem.mpr fun candidate hcandidate => ?_
  obtain ⟨l, hl, hlt⟩ := mem_blockCandidates hcandidate
  rw [hlists l (List.mem_of_getElem? hl)] at hlt
  exact absurd hlt (Nat.not_lt_zero _)

/-- They are searched as no lists at all. -/
theorem blockQueries_of_no_clusters {T : ItemQueue F ℕ} {nth : StdNthElement} {source : ForwardSource}
    {lists : List InvertedListClusters} (hlists : ∀ l ∈ lists, l.nClusters = 0)
    (c : BlockSetting F) (queries : List (SparseRow Code)) (dense : List Code) :
    blockQueries Q T nth source lists c queries dense
      = blockQueries Q T nth source [] c queries dense := by
  have hquery : ∀ (cuts : List ℕ) (query : SparseRow Code) (dense : List Code),
      blockBudgetQuery Q nth source lists c cuts query dense
        = blockBudgetQuery Q nth source [] c cuts query dense := by
    intro cuts query dense
    unfold blockBudgetQuery
    rw [blockCandidates_of_no_clusters hlists,
      blockCandidates_of_no_clusters (List.forall_mem_nil _), selectBlocks_nil]
    rfl
  induction queries generalizing dense with
  | nil => rfl
  | cons query queries ih =>
      unfold blockQueries
      simp only [hquery, ih]

/-- Without a block there is nothing to find. -/
theorem blockQueries_without_blocks {T : ItemQueue F ℕ} {nth : StdNthElement} {source : ForwardSource}
    {lists : List InvertedListClusters} {c : BlockSetting F}
    (hlists : ∀ l ∈ lists, l.nClusters = 0) {queries : List (SparseRow Code)} {dense : List Code}
    {rows : SearchRows F} (h : blockQueries Q T nth source lists c queries dense = .ok rows) :
    rows = DiskSeismicIndex.paddedResults queries.length c.k := by
  induction queries generalizing dense rows with
  | nil =>
      obtain rfl := Except.ok.inj h
      rfl
  | cons query queries ih =>
      obtain ⟨cuts, -, h⟩ := bind_eq_ok h
      obtain ⟨⟨items, dense'⟩, hquery, h⟩ := bind_eq_ok h
      obtain ⟨⟨ds, ls⟩, hrest, h⟩ := bind_eq_ok h
      obtain rfl := Except.ok.inj h
      -- the heap is as new
      obtain ⟨_, -, hquery⟩ := bind_eq_ok hquery
      obtain ⟨heap, hnew, hquery⟩ := bind_eq_ok hquery
      obtain ⟨s, hs, hquery⟩ := bind_eq_ok hquery
      obtain ⟨_, -, hquery⟩ := bind_eq_ok hquery
      obtain ⟨rfl, -⟩ := Prod.mk.inj (Except.ok.inj hquery)
      rw [blockCandidates_of_no_clusters hlists, selectBlocks_nil] at hs
      obtain rfl := Except.ok.inj hs
      rw [topKItemsDescending_new hnew]
      obtain ⟨hds, hls⟩ := Prod.mk.inj (ih hrest)
      rw [hds, hls]
      have hpadded : ∀ {α : Type} (x : α), resize [] c.k.toNat x = List.replicate c.k.toNat x :=
        fun x => by rw [resize, List.take_nil, List.nil_append, List.length_nil, Nat.sub_zero]
      rw [paddedResult, List.map_nil, hpadded, hpadded]
      unfold paddedResults
      rw [Int.toNat_natCast, Int.toNat_natCast, List.length_cons, List.replicate_succ,
        List.replicate_succ]

/-- A search that returned for an index without blocks returned padding only. -/
theorem DiskSeismicIndex.searchBlocks_without_blocks (hlists : ∀ l ∈ x.clusteredInvertedLists,
      l.nClusters = 0) {T : ItemQueue F ℕ} {nth : StdNthElement}
    {queryFormat : Option (SearchFields F) → Except Exception (QueryFormat F)} {n : ℤ}
    {indptr indices : List ℕ} {values : List F} {k : ℤ} {params : Option (SearchFields F)}
    {sel : Option IDSelector} {source : ForwardSource} {rows : SearchRows F}
    (h : x.searchBlocks Q T nth queryFormat n indptr indices values k params sel source = .ok rows) :
    rows = paddedResults n k := by
  unfold searchBlocks at h
  dsimp only at h
  split at h
  · cases h
  · obtain ⟨format, -, h⟩ := bind_eq_ok h
    rw [blockQueries_without_blocks hlists h, List.length_map, List.length_range]
    unfold paddedResults
    rw [Int.toNat_natCast]

/-! ### The reloaded index -/

/-- `y` answers as `x` does where no selector lists its ids: a block search returns or throws the
same over the blocks of `y` as over the vectors of `x`, and so does `search` when `y` has a block.
When there is none `y` returns padding whatever the parameters, as `x` does unless it throws. -/
structure SameBlockSearch (kind : DiskKind F) (x y : DiskSeismicIndex F) : Prop where
  blocks : ∀ vectors, x.vectors = some vectors → ∀ (Q : ItemQueue F ℤ) (T : ItemQueue F ℕ)
    (nth : StdNthElement) (n : ℤ) (indptr indices : List ℕ) (values : List F) (k : ℤ)
    (params : Option (SearchFields F)) (sel : Option IDSelector),
    y.searchBlocks Q T nth kind.queryFormat n indptr indices values k params sel (.blocks y.fwd)
      = x.searchBlocks Q T nth kind.queryFormat n indptr indices values k params sel
          (.rows vectors)
  search : ∀ (Q : ItemQueue F ℤ) (T : ItemQueue F ℕ) (sort : StdSort) (nth : StdNthElement) (n : ℤ)
    (indptr indices : List ℕ) (values : List F) (k : ℤ) (params : Option (SearchFields F))
    (sel : Option IDSelector), exactMatchIds sel k = none →
    (0 < y.fwd.numBlocks →
      y.search Q T sort nth kind.queryFormat n indptr indices values k params sel
        = x.search Q T sort nth kind.queryFormat n indptr indices values k params sel) ∧
    ∀ rows, x.search Q T sort nth kind.queryFormat n indptr indices values k params sel = .ok rows →
      y.search Q T sort nth kind.queryFormat n indptr indices values k params sel = .ok rows

omit [Zero F] [One F] [Neg F] [Add F] [Sub F] [Mul F] [LinearOrder F] [FloatFormat F] in
/-- There are no blocks exactly when no list has a cluster. -/
theorem DiskSeismicIndex.Mirrors.numBlocks_eq_zero_iff {lists : List InvertedListClusters}
    {vectors : SparseVectors Code} (h : y.Mirrors lists vectors) :
    y.fwd.numBlocks = 0 ↔ ∀ l ∈ lists, l.nClusters = 0 := by
  obtain ⟨x, -, rfl, -, hrestored⟩ := h.forward
  rw [hrestored.numBlocks]
  show (x.lists.map (·.nClusters)).sum = 0 ↔ _
  rw [List.sum_eq_zero_iff, List.forall_mem_map]

/-- An index that was mapped from the file of one in memory. -/
theorem DiskSeismicIndex.Reloads.sameBlockSearch (h : y.Reloads kind.format.elementSize x)
    (hx : x.Fresh kind.format.elementSize) : SameBlockSearch kind x y := by
  refine ⟨fun vectors hvectors Q T nth n indptr indices values k params sel =>
    h.searchBlocks_eq hvectors (hx.vectors vectors hvectors).width T nth n indptr indices values k
      params sel, fun Q T sort nth n indptr indices values k params sel hsel => ?_⟩
  have hempty : ¬ 0 < x.fwd.numBlocks := by
    rw [hx.fwd]
    decide
  have hsource : x.forwardSource = x.vectors.map .rows := if_neg hempty
  unfold search
  rw [h.count, hsource, hsel]
  split
  · exact ⟨fun _ => rfl, fun _ hrows => hrows⟩
  -- there are documents
  rename_i hquery
  obtain ⟨vectors, hvectors⟩ : ∃ vectors, x.vectors = some vectors := by
    refine Option.ne_none_iff_exists'.mp fun hnone => hquery (Or.inl ?_)
    rw [hx.count, hnone]
    rfl
  rw [hvectors]
  have hblocks := h.searchBlocks_eq (Q := Q) hvectors (hx.vectors vectors hvectors).width T nth n
    indptr indices values k params sel
  by_cases hnum : 0 < y.fwd.numBlocks
  · have hforward : y.forwardSource = some (.blocks y.fwd) := if_pos hnum
    rw [hforward]
    exact ⟨fun _ => hblocks, fun rows hrows => hblocks.trans hrows⟩
  · have hforward : y.forwardSource = none := by
      rw [forwardSource, if_neg hnum, h.vectors]
      rfl
    rw [hforward]
    refine ⟨fun hpos => absurd hpos hnum, fun rows hrows => ?_⟩
    have hnone := h.mirrors.numBlocks_eq_zero_iff.mp (Nat.eq_zero_of_not_pos hnum)
    rw [searchBlocks_without_blocks hnone hrows]

/-- **Block search survives a reload.**  A disk index of either kind, built with a dimension that
terms can name and written without an exception, is mapped from its file, and the mapped index
answers every search without enumerated ids as the built one did. -/
theorem block_search_survives_reload {rng : Rng} {sort : StdSort} (hx : kind.Built rng sort x)
    (hdim : x.dimension ≤ 2 ^ 16) {bytes : Wire.Bytes} (hw : (kind.stored x).write [] = .ok bytes)
    (hsize : bytes.length < 2 ^ 63) (page : ℕ) :
    ∃ y, mapIndex (4096 * page) ⟨bytes, 0⟩ = .ok (kind.stored y, ⟨bytes, bytes.length⟩) ∧
      SameBlockSearch kind x y := by
  obtain ⟨y, hread, hreloads⟩ := DiskKind.mapped (hx.storable hdim) hx.fresh.count_written hw hsize
    page
  exact ⟨y, hread, hreloads.sameBlockSearch hx.fresh⟩

/-- An index of two terms with one document, before it is built. -/
def DiskKind.oneDocumentFed : DiskSeismicIndex ℤ :=
  [Call.add SeismicIndex.oneDocumentArgs].foldl
    (step countingRng insertionSort (DiskKind.format (F := ℤ) .float))
    (new 2 ⟨0, 1, 1, ⟨1, ""⟩, 42⟩)

/-- That index, built. -/
def DiskKind.oneDocumentBuilt : DiskSeismicIndex ℤ :=
  (oneDocumentFed.build SeismicIndex.calmEnv countingRng insertionSort 0).1

/-- The document of both. -/
def DiskKind.oneRow : SparseVectors Code := ⟨U32, 2, [0, 1], [1], [FloatFormat.toBits (1 : ℤ)]⟩

/-- What the two hold, and that the built one has a file. -/
theorem DiskKind.oneDocumentBuilt_holds :
    oneDocumentFed.vectors = some oneRow ∧
      (oneDocumentFed.build SeismicIndex.calmEnv countingRng insertionSort 0).2 = .ok () ∧
      oneDocumentBuilt.dimension = 2 ∧ oneDocumentBuilt.vectors = some oneRow ∧
      oneDocumentBuilt.numVectors = 1 ∧ oneDocumentBuilt.fwd.numBlocks = 0 ∧
      ((stored .float oneDocumentBuilt).write []).map (fun bytes => decide (bytes.length < 2 ^ 63))
        = .ok true := by
  decide +kernel

theorem DiskKind.oneDocumentBuilt_built :
    (DiskKind.float : DiskKind ℤ).Built countingRng insertionSort oneDocumentBuilt := by
  obtain ⟨hvectors, hok, -⟩ := oneDocumentBuilt_holds
  refine ⟨2, _, [Call.add SeismicIndex.oneDocumentArgs], SeismicIndex.calmEnv, 0, by decide, ?_,
    Prod.ext rfl hok⟩
  intro v hv _ _
  obtain rfl := Option.some_inj.mp (hvectors.symm.trans hv)
  exact SeismicIndex.stored_oneDocument

theorem DiskKind.oneDocumentBuilt_dimension : oneDocumentBuilt.dimension ≤ 2 ^ 16 := by
  obtain ⟨-, -, hdim, -⟩ := oneDocumentBuilt_holds
  rw [hdim]
  decide

/-- It has a file. -/
theorem DiskKind.oneDocumentBuilt_write :
    ∃ bytes, (DiskKind.stored .float oneDocumentBuilt).write [] = .ok bytes ∧
      bytes.length < 2 ^ 63 := by
  obtain ⟨-, -, -, -, -, -, hlen⟩ := oneDocumentBuilt_holds
  rcases hw : (DiskKind.stored .float oneDocumentBuilt).write [] with e | bytes
  · rw [hw] at hlen
    cases hlen
  · rw [hw] at hlen
    exact ⟨bytes, rfl, of_decide_eq_true (Except.ok.inj hlen)⟩

/-- One document in one block. -/
theorem block_search_survives_reload_one_document :
    ∃ bytes, (DiskKind.stored .float DiskKind.oneDocumentBuilt).write [] = .ok bytes ∧
      ∃ y, mapIndex (4096 * 1) ⟨bytes, 0⟩
          = .ok (DiskKind.stored (.float : DiskKind ℤ) y, ⟨bytes, bytes.length⟩) ∧
        SameBlockSearch .float DiskKind.oneDocumentBuilt y := by
  obtain ⟨bytes, hw, hsize⟩ := DiskKind.oneDocumentBuilt_write
  exact ⟨bytes, hw, block_search_survives_reload DiskKind.oneDocumentBuilt_built
    DiskKind.oneDocumentBuilt_dimension hw hsize 1⟩

end Nsparse
