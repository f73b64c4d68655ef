/-
Nsparse/BatchedEqual.lean

The batched build makes the lists of the whole-corpus build.

Both hand over the clustered list of every term, in term order: the stream writes the
section that the whole list of them serializes to (`streamClusteredLists_eq`), and the
reader gives that list back.  With a fixed seed nothing else tells the two apart.
-/
import Nsparse.SeismicIndex
import Nsparse.StorableLists

namespace Nsparse

open Wire

/-- A corpus as an index stores it: indexable, terms of 16 bits, values of a width the program
has, and lists whose positions are 32 bits wide. -/
structure Stored (vectors : SparseVectors Code) (dim : ℕ) : Prop extends Indexable vectors dim where
  terms16 : TermsBelow (2 ^ 16) vectors.rows
  width : vectors.elementSize = U32 ∨ vectors.elementSize = U16 ∨ vectors.elementSize = U8
  postings : ∀ term < dim, (postingsOf vectors.rows term).length < 2 ^ 31

section Stream

variable {F : Type} [Mul F] [FloatFormat F] [Zero F] [Add F] [Sub F] [LT F] [DecidableLT F]
  (rng : Rng) (sort : StdSort) {vectors : SparseVectors Code} {dim : ℕ}

theorem writeMany_append {α : Type} (s : α → Writer) (xs ys : List α) (w : Bytes) :
    writeMany s (xs ++ ys) w = writeMany s ys (writeMany s xs w) := List.foldl_append

theorem serializeLists_eq (lists : List InvertedListClusters) :
    serializeLists false lists
      = (writeScalar sizeCodec lists.length).andThen
          (writeMany InvertedListClusters.serialize lists) := rfl

/-- **The stream** writes what the list of all clustered lists serializes to. -/
theorem streamClusteredLists_eq (h : Indexable vectors dim) (params : SeismicClusterParameters F)
    (entropy : ℕ) (w : Bytes) :
    streamClusteredLists rng sort (some vectors) dim params entropy w
      = .ok (serializeLists false
          (clusteredLists rng sort vectors (params.resolve vectors.numVectors entropy) 0 dim)
          w) := by
  let all := clusteredLists rng sort vectors (params.resolve vectors.numVectors entropy)
  -- the bytes before term `a`: the count and the lists of the terms below it
  let before : ℕ → Bytes × ℕ := fun a =>
    (writeMany InvertedListClusters.serialize (all 0 a) (writeScalar sizeCodec dim w), a)
  have hstep : ∀ a n s, a + n ≤ dim → s = before a →
      ∃ s', streamWindow s a (all a n) = .ok s' ∧ s' = before (a + n) := by
    rintro a n s - rfl
    refine ⟨_, if_neg (not_not.mpr rfl), ?_⟩
    show (writeMany _ (all a n) (writeMany _ (all 0 a) _), a + (all a n).length) = before (a + n)
    rw [← writeMany_append, clusteredLists_append, length_clusteredLists]
  have hstart : (writeScalar sizeCodec dim w, 0) = before 0 := rfl
  obtain ⟨s, hrun, rfl⟩ := forEachClusteredWindow_spec h params entropy _ hstep hstart
  rw [streamClusteredLists, hrun, serializeLists_eq, length_clusteredLists]
  exact if_neg (not_not.mpr rfl)

/-- The lists of a build come back from the file they were written to. -/
theorem mmapDeserializeLists_clusteredLists (h : Stored vectors dim) (hdim : dim < 2 ^ 31)
    (params : ResolvedParameters F)
    (hsize : (serializeLists false (clusteredLists rng sort vectors params 0 dim) []).length
      < 2 ^ 64) :
    (mmapDeserializeLists 0
        ⟨serializeLists false (clusteredLists rng sort vectors params 0 dim) [], 0⟩).map Prod.fst
      = .ok (clusteredLists rng sort vectors params 0 dim) := by
  have hall : ∀ l ∈ clusteredLists rng sort vectors params 0 dim, l.Storable ∧ l.Sized := by
    intro l hl
    obtain ⟨term, hterm, rfl⟩ := List.mem_map.mp hl
    rw [Nat.zero_add] at *
    have hterm : term < dim := List.mem_range.mp hterm
    obtain ⟨hstorable, hclusters⟩ := clusteredList_storable rng sort h.size h.terms16 h.width
      params (h.postings term hterm)
    -- the list is part of the file
    obtain ⟨v, hv⟩ := exists_le_writeMany InvertedListClusters.serialize_appends hl
      (writeScalar sizeCodec (clusteredLists rng sort vectors params 0 dim).length [])
    exact ⟨hstorable, InvertedListClusters.sized_of_serialize (hv.trans_lt hsize)
      (hclusters.trans (by norm_num))⟩
  have hround := (roundTrips_lists (by rw [length_clusteredLists]; omega) hall
    fun _ _ => dvd_zero _).reads [] []
  rw [List.append_nil] at hround
  show (mmapDeserializeLists 0 ⟨_, ([] : Bytes).length⟩).map Prod.fst = _
  rw [hround]
  rfl

/-- What a spilled build needs of its surroundings: a directory, a token, room for the section and
memory to read it. -/
structure SpillEnv.Works (env : SpillEnv) (writeSection : Except Exception Bytes) : Prop where
  directory : env.isDirectory = true
  token : ∃ token, env.token = .ok token
  store : ∀ bytes, writeSection = .ok bytes → env.store bytes = none
  read : env.readFault = none

/-- **The spilled build** returns the clustered list of every term. -/
theorem spillClusteredLists_eq (h : Stored vectors dim) (hdim : dim < 2 ^ 31)
    (params : SeismicClusterParameters F) (entropy : ℕ) (dir : String) {env : SpillEnv}
    (henv : env.Works (streamClusteredLists rng sort (some vectors) dim params entropy []))
    (into : ClusteredListsSpill) :
    (spillClusteredLists env rng sort (some vectors) dim params entropy dir into).2
      = .ok (clusteredLists rng sort vectors (params.resolve vectors.numVectors entropy) 0 dim) := by
  obtain ⟨token, htoken⟩ := henv.token
  have hstream := streamClusteredLists_eq rng sort h.toIndexable params entropy []
  have hstore := henv.store _ hstream
  have hback := mmapDeserializeLists_clusteredLists rng sort h hdim
    (params.resolve vectors.numVectors entropy) (env.store_size _ hstore)
  have hcount : ((some vectors).map SparseVectors.numVectors).getD 0 ≠ 0 := h.nonempty
  rw [spillClusteredLists, if_neg (by rw [henv.directory]; decide), if_neg hcount,
    ClusteredListsSpill.writeAndMap, htoken]
  dsimp only
  rw [hstream]
  dsimp only
  rw [hstore, henv.read]
  cases env.removeFails
  · exact hback
  · exact hback

/-- **Any build** of a stored corpus returns the clustered list of every term. -/
theorem buildClusteredLists_eq (h : Stored vectors dim) (hdim : dim < 2 ^ 31)
    (params : SeismicClusterParameters F) (entropy : ℕ) {env : SpillEnv}
    (henv : 1 < params.batchClustering.effectiveBatchSize →
      env.Works (streamClusteredLists rng sort (some vectors) dim params entropy []))
    (spill : ClusteredListsSpill) :
    ∃ region, (buildClusteredLists env rng sort (some vectors) dim params entropy spill).2
      = .ok (clusteredLists rng sort vectors (params.resolve vectors.numVectors entropy) 0 dim,
          region) := by
  unfold buildClusteredLists
  by_cases hone : params.batchClustering.effectiveBatchSize ≤ 1
  · rw [if_pos hone, buildInvertedListsClusters_eq h.toIndexable]
    exact ⟨none, rfl⟩
  · rw [if_neg hone]
    have hspill := spillClusteredLists_eq rng sort h hdim params entropy
      params.batchClustering.batchFileOutputPath (henv (not_le.mp hone)) spill
    rcases hrun : spillClusteredLists env rng sort (some vectors) dim params entropy
      params.batchClustering.batchFileOutputPath spill with ⟨spill', result⟩
    rw [hrun] at hspill
    obtain rfl : result = _ := hspill
    exact ⟨_, rfl⟩

end Stream

/-! ### The two indexes -/

namespace SeismicIndex

variable {F : Type} [Mul F] [FloatFormat F]

/-- The index with other batch knobs. -/
def withBatches (x : SeismicIndex F) (batchSize : ℕ) (dir : String) : SeismicIndex F :=
  { x with clusterParameter := { x.clusterParameter with batchClustering := ⟨batchSize, dir⟩ } }

theorem resolve_withBatches (x : SeismicIndex F) (h : x.clusterParameter.seed ≠ kRandomSeed)
    (batchSize : ℕ) (dir : String) (nVectors entropy entropy' : ℕ) :
    (x.withBatches batchSize dir).clusterParameter.resolve nVectors entropy
      = x.clusterParameter.resolve nVectors entropy' := by
  simp [SeismicClusterParameters.resolve, withBatches, h]

variable [Zero F] [Add F] [Sub F] [LT F] [DecidableLT F]

/-- A build of a stored corpus with a fixed seed and any knobs. -/
theorem build_withBatches (rng : Rng) (sort : StdSort) (x : SeismicIndex F)
    {vectors : SparseVectors Code} (hx : x.vectors = some vectors)
    (h : Stored vectors x.dimension) (hdim : x.dimension < 2 ^ 31)
    (hseed : x.clusterParameter.seed ≠ kRandomSeed) (batchSize : ℕ) (dir : String) {env : SpillEnv}
    {entropy : ℕ}
    (henv : 1 < (BatchClusteringOption.mk batchSize dir).effectiveBatchSize →
      env.Works (streamClusteredLists rng sort x.vectors x.dimension
        (x.withBatches batchSize dir).clusterParameter entropy [])) :
    ((x.withBatches batchSize dir).build env rng sort entropy).2 = .ok () ∧
      ((x.withBatches batchSize dir).build env rng sort entropy).1.vectors = x.vectors ∧
      ((x.withBatches batchSize dir).build env rng sort entropy).1.dimension = x.dimension ∧
      ((x.withBatches batchSize dir).build env rng sort entropy).1.clusteredInvertedLists
        = clusteredLists rng sort vectors
            (x.clusterParameter.resolve vectors.numVectors 0) 0 x.dimension := by
  rw [hx] at henv
  obtain ⟨region, hlists⟩ := buildClusteredLists_eq rng sort h hdim
    (x.withBatches batchSize dir).clusterParameter entropy henv x.batchSpill
  rw [x.resolve_withBatches hseed batchSize dir _ _ 0, ← hx] at hlists
  unfold build
  have hvectors : (x.withBatches batchSize dir).vectors = x.vectors := rfl
  have hdimension : (x.withBatches batchSize dir).dimension = x.dimension := rfl
  have hspill : (x.withBatches batchSize dir).batchSpill = x.batchSpill := rfl
  rw [hvectors, hdimension, hspill]
  rcases hbuild : buildClusteredLists env rng sort x.vectors x.dimension
    (x.withBatches batchSize dir).clusterParameter entropy x.batchSpill with ⟨spill, result⟩
  rw [hbuild] at hlists
  obtain rfl : result = _ := hlists
  exact ⟨rfl, rfl, rfl, rfl⟩

/-- **The batched, spilled build equals the whole-corpus build.**  With a fixed seed, any number of
batches and a scratch directory that works, both builds succeed with one list for each term of the
dimension, the lists are the same, and so are the files the two indexes write. -/
theorem batched_build_eq_whole_build (format : CodeFormat F) (rng : Rng) (sort : StdSort)
    (x : SeismicIndex F) {vectors : SparseVectors Code} (hx : x.vectors = some vectors)
    (h : Stored vectors x.dimension) (hdim : x.dimension < 2 ^ 31)
    (hseed : x.clusterParameter.seed ≠ kRandomSeed) (batches : ℕ) (dir : String)
    {env : SpillEnv} (env' : SpillEnv) (entropy entropy' : ℕ)
    (henv : env.Works (streamClusteredLists rng sort x.vectors x.dimension
      (x.withBatches batches dir).clusterParameter entropy [])) :
    let whole := (x.withBatches 1 "").build env' rng sort entropy'
    let batched := (x.withBatches batches dir).build env rng sort entropy
    whole.2 = .ok () ∧ batched.2 = .ok () ∧
      whole.1.clusteredInvertedLists.length = x.dimension ∧
      batched.1.clusteredInvertedLists = whole.1.clusteredInvertedLists ∧
      batched.1.writeIndex format = whole.1.writeIndex format := by
  intro whole batched
  have hone : ¬ 1 < (BatchClusteringOption.mk 1 "").effectiveBatchSize := by decide
  obtain ⟨hok, hvectors, hdimension, hlists⟩ := @build_withBatches F _ _ _ _ _ _ _ rng sort x
    vectors hx h hdim hseed 1 "" env' entropy' fun hlt => absurd hlt hone
  obtain ⟨hok', hvectors', hdimension', hlists'⟩ := x.build_withBatches rng sort hx h hdim hseed
    batches dir fun _ => henv
  refine ⟨hok, hok', ?_, hlists'.trans hlists.symm, ?_⟩
  · rw [hlists, length_clusteredLists]
  · rw [writeIndex, writeIndex, hvectors, hvectors', hdimension, hdimension', hlists, hlists']

/-- A corpus of one document with one term, `1 : 1.0`, in an index of dimension 2. -/
def oneDocumentIndex : SeismicIndex ℤ where
  dimension := 2
  vectors := some ⟨U32, 2, [0, 1], [1], [FloatFormat.toBits (1 : ℤ)]⟩
  clusteredInvertedLists := []
  borrows := none
  batchSpill := .new
  clusterParameter := ⟨0, 1, 1, ⟨1, ""⟩, 42⟩

/-- Surroundings in which nothing fails while files have fewer than `2 ^ 64` bytes. -/
def calmEnv : SpillEnv where
  isDirectory := true
  token := .ok 7
  store bytes := if bytes.length < 2 ^ 64 then none else some (.runtimeError "no space left")
  store_size bytes h := by
    by_contra hlt
    rw [if_neg hlt] at h
    cases h
  removeFails := false
  readFault := none

theorem stored_oneDocument :
    Stored ⟨U32, 2, [0, 1], [1], [FloatFormat.toBits (1 : ℤ)]⟩ 2 where
  wellFormed := ⟨rfl, by decide, fun _ => ⟨rfl, by decide, rfl⟩⟩
  nonempty := by decide
  size := by decide
  terms := by decide
  terms16 := by decide
  width := by decide
  postings := by decide

set_option maxRecDepth 10000 in
/-- Two batches over one document. -/
theorem batched_build_eq_whole_build_one_document :
    let whole := (oneDocumentIndex.withBatches 1 "").build calmEnv countingRng insertionSort 0
    let batched := (oneDocumentIndex.withBatches 2 "scratch").build calmEnv countingRng
      insertionSort 0
    whole.2 = .ok () ∧ batched.2 = .ok () ∧
      whole.1.clusteredInvertedLists.length = oneDocumentIndex.dimension ∧
      batched.1.clusteredInvertedLists = whole.1.clusteredInvertedLists ∧
      batched.1.writeIndex (floatFormat ℤ "SEIS") = whole.1.writeIndex (floatFormat ℤ "SEIS") :=
  batched_build_eq_whole_build (floatFormat ℤ "SEIS") countingRng insertionSort oneDocumentIndex
    rfl stored_oneDocument (by decide) (by decide) 2 "scratch" calmEnv 0 0
    { directory := rfl
      token := ⟨7, rfl⟩
      store := fun bytes hbytes => by
        have hlen : (streamClusteredLists countingRng insertionSort oneDocumentIndex.vectors
          oneDocumentIndex.dimension (oneDocumentIndex.withBatches 2 "scratch").clusterParameter 0
          []).toOption.map List.length = some 136 := by decide
        rw [hbytes] at hlen
        have hsmall : bytes.length = 136 := Option.some_inj.mp hlen
        show (if bytes.length < 2 ^ 64 then none else _) = none
        rw [if_pos (by rw [hsmall]; decide)]
      read := rfl }

end SeismicIndex

end Nsparse
