/-
Nsparse/BuiltIndex.lean

What a successful build leaves in a seismic index.

Whatever calls were made before, the vectors of an index are documents with codes of
its width (`Fed`, kept by every run).  A build that returns found every term below
the dimension, and its lists are the clustered lists of the terms, also when they
came back from a scratch file: that the build returned means that the file was
written and read.
-/
import Nsparse.CsrIngest
import Nsparse.SpillHistory

namespace Nsparse

open Wire

variable {F : Type}

/-! ### Documents with codes -/

/-- There are documents, and every value is a code of `elementSize` bytes. -/
structure SparseVectors.Fed (elementSize dim : ℕ) (v : SparseVectors Code) : Prop where
  wellFormed : v.WellFormed
  nonempty : v.numVectors ≠ 0
  width : v.elementSize = elementSize
  dimension : v.dimension = dim
  positive : 0 < dim
  codes : ∀ code ∈ v.values, code.length = elementSize

namespace SeismicIndex

variable {x x' : SeismicIndex F} {elementSize : ℕ}

/-- The vectors of an index, if it has any, are documents with codes of its width. -/
structure Fed (elementSize : ℕ) (x : SeismicIndex F) : Prop where
  dimension : x.dimension < 2 ^ 31
  vectors : ∀ v, x.vectors = some v → v.Fed elementSize x.dimension

theorem new_fed {dim : ℕ} (hdim : dim < 2 ^ 31) (params : SeismicClusterParameters F) :
    (new dim params).Fed elementSize := ⟨hdim, fun _ h => by cases h⟩

/-- What is added to: empty vectors, or those of before. -/
theorem Fed.vectorsToAdd {format : CodeFormat F} (hx : x.Fed format.elementSize)
    {before : SparseVectors Code} (hto : x.vectorsToAdd format = .ok before) :
    before.WellFormed ∧ before.elementSize = format.elementSize ∧
      before.dimension = x.dimension ∧ 0 < x.dimension ∧
      ∀ code ∈ before.values, code.length = format.elementSize := by
  unfold SeismicIndex.vectorsToAdd at hto
  split at hto
  · obtain ⟨hwf, -, hdim, hes⟩ := SparseVectors.new_wellFormed hto
    unfold SparseVectors.new at hto
    split at hto
    · cases hto
    · cases hto
      exact ⟨hwf, hes, hdim, by omega, by simp⟩
  · rename_i v hv
    cases hto
    have hfed := hx.vectors before hv
    exact ⟨hfed.wellFormed, hfed.width, hfed.dimension, hfed.positive, hfed.codes⟩

/-- Arrays with a row, added: documents, when the offsets are in order. -/
theorem Fed.addVectors {format : CodeFormat F} (hx : x.Fed format.elementSize)
    {before v : SparseVectors Code} (hto : x.vectorsToAdd format = .ok before)
    {indptr indices : List ℕ} {values : List F} (hlen : 2 ≤ indptr.length)
    (hadd : before.addVectors indptr indices (values.map format.encode) = .ok v)
    (hwf : v.WellFormed) : v.Fed format.elementSize x.dimension := by
  obtain ⟨-, hes, hdim, hpos, hcodes⟩ := hx.vectorsToAdd hto
  unfold SparseVectors.addVectors at hadd
  split at hadd
  · cases hadd
  rw [if_neg (by omega)] at hadd
  cases hadd
  refine ⟨hwf, ?_, hes, hdim, hpos, fun code hcode => ?_⟩
  · have hsome : 0 < (if before.indptr = [] then [0] else before.indptr).length := by
      split
      · exact Nat.one_pos
      · exact List.length_pos_of_ne_nil ‹_›
    rw [SparseVectors.numVectors_eq]
    dsimp only
    rw [List.length_append, List.length_map, List.length_tail]
    omega
  · rcases List.mem_append.mp hcode with hcode | hcode
    · exact hcodes code hcode
    · obtain ⟨value, -, rfl⟩ := List.mem_map.mp hcode
      exact format.length_encode value

/-- Adding keeps it so. -/
theorem add_fed {format : CodeFormat F} {args : CsrArgs F} (hx : x.Fed format.elementSize)
    (h : x.add format args = .ok x') : x'.Fed format.elementSize := by
  obtain ⟨indptr, indices, values, before, v, hchecked, hto, hadd, rfl⟩ := add_eq_ok h
  obtain ⟨hn, hlen, hoff, hpair, -, -⟩ := CsrArgs.checked_eq_ok hchecked
  obtain ⟨hwf, -⟩ := hx.vectorsToAdd hto
  obtain ⟨hwf', -⟩ := SparseVectors.addVectors_eq_ok hwf hoff hadd
  refine ⟨hx.dimension, fun v' hv' => ?_⟩
  obtain rfl : v = v' := Option.some_inj.mp hv'
  exact hx.addVectors hto (by omega) hadd hwf'

variable [Mul F] [FloatFormat F] [Zero F] [Add F] [Sub F] [LT F] [DecidableLT F]

/-- A build reads the vectors and leaves them alone. -/
theorem build_vectors (env : SpillEnv) (rng : Rng) (sort : StdSort) (entropy : ℕ) :
    (x.build env rng sort entropy).1.vectors = x.vectors ∧
      (x.build env rng sort entropy).1.dimension = x.dimension := by
  unfold build
  split
  · exact ⟨rfl, rfl⟩
  · exact ⟨rfl, rfl⟩

theorem step_fed (rng : Rng) (sort : StdSort) {format : CodeFormat F}
    (hx : x.Fed format.elementSize) (call : Call F) :
    (step rng sort format x call).Fed format.elementSize := by
  cases call with
  | add args =>
      unfold step
      dsimp only
      rcases h : x.add format args with e | x'
      · exact hx
      · exact add_fed hx h
  | build env entropy =>
      obtain ⟨hvectors, hdim⟩ := build_vectors (x := x) env rng sort entropy
      show (x.build env rng sort entropy).1.Fed format.elementSize
      refine ⟨hdim ▸ hx.dimension, fun v hv => ?_⟩
      rw [hdim]
      exact hx.vectors v (hvectors ▸ hv)

/-- **Every run** of adds and builds leaves documents with codes. -/
theorem run_fed (rng : Rng) (sort : StdSort) {format : CodeFormat F}
    (hx : x.Fed format.elementSize) (calls : List (Call F)) :
    (run rng sort format x calls).Fed format.elementSize := by
  induction calls generalizing x with
  | nil => exact hx
  | cons call calls ih => exact ih (step_fed rng sort hx call)

end SeismicIndex

/-! ### The lists of a build that returned -/

section Lists

variable [Mul F] [FloatFormat F] [Zero F] [Add F] [Sub F] [LT F] [DecidableLT F]

variable {env : SpillEnv} {rng : Rng} {sort : StdSort} {vectors : SparseVectors Code} {dim : ℕ}
  {params : SeismicClusterParameters F} {entropy : ℕ}

/-- A term outside the dimension stops the whole-corpus build. -/
theorem buildInvertedListsClusters_eq_error (hv : vectors.WellFormed) (hne : vectors.numVectors ≠ 0)
    (hterms : ¬ TermsBelow dim vectors.rows) :
    ∃ e, buildInvertedListsClusters rng sort (some vectors) dim params entropy = .error e := by
  obtain ⟨e, he⟩ := countPostingsPerTerm_eq_error hv hterms
  refine ⟨e, ?_⟩
  simp only [buildInvertedListsClusters, forEachClusteredWindow, if_neg hne, he]
  rfl

/-- A spill that returned lists had a scratch file that worked, and bytes to put there. -/
theorem works_of_spill_eq_ok {dir : String} {into : ClusteredListsSpill}
    {lists : List InvertedListClusters}
    (h : (spillClusteredLists env rng sort (some vectors) dim params entropy dir into).2
      = .ok lists) :
    env.Works (streamClusteredLists rng sort (some vectors) dim params entropy []) ∧
      ∃ bytes, streamClusteredLists rng sort (some vectors) dim params entropy [] = .ok bytes := by
  unfold spillClusteredLists at h
  split at h
  · cases h
  rename_i hdir
  split at h
  · cases h
  rcases into.writeAndMap_cases env dir
      (streamClusteredLists rng sort (some vectors) dim params entropy)
    with ⟨e, -, heq⟩ | ⟨token, e, -, heq⟩ | ⟨token, bytes, path, htoken, hbytes, hstore, heq⟩
  · rw [heq] at h
    cases h
  · rw [heq] at h
    cases h
  · rw [heq] at h
    dsimp only at h
    split at h
    · cases h
    rename_i hread
    refine ⟨⟨Bool.eq_true_of_not_eq_false hdir, ⟨token, htoken⟩, fun bytes' hbytes' => ?_, hread⟩,
      bytes, hbytes⟩
    rw [hbytes] at hbytes'
    cases hbytes'
    exact hstore

/-- **A build over a corpus that returned** has the clustered lists of all terms, which are below
the dimension. -/
theorem buildClusteredLists_lists (hv : vectors.WellFormed) (hne : vectors.numVectors ≠ 0)
    (hrange : TermsBelow dim vectors.rows → Stored vectors dim) (hdim : dim < 2 ^ 31)
    {spill : ClusteredListsSpill} {lists : List InvertedListClusters} {region : Option ℕ}
    (h : (buildClusteredLists env rng sort (some vectors) dim params entropy spill).2
      = .ok (lists, region)) :
    Stored vectors dim ∧
      lists = clusteredLists rng sort vectors (params.resolve vectors.numVectors entropy) 0 dim := by
  have hterms : TermsBelow dim vectors.rows := by
    by_contra hterms
    unfold buildClusteredLists at h
    dsimp only at h
    split at h
    · obtain ⟨e, he⟩ := @buildInvertedListsClusters_eq_error F _ _ _ _ _ _ _ rng sort vectors dim
        params entropy hv hne hterms
      rw [he] at h
      cases h
    · obtain ⟨e, he⟩ := streamClusteredLists_eq_error rng sort hv hne hterms params entropy []
      rcases hspill : spillClusteredLists env rng sort (some vectors) dim params entropy
        params.batchClustering.batchFileOutputPath spill with ⟨into, result⟩
      rw [hspill] at h
      cases hresult : result with
      | error e' =>
          rw [hresult] at h
          cases h
      | ok written =>
          obtain ⟨-, bytes, hbytes⟩ := works_of_spill_eq_ok ((congrArg Prod.snd hspill).trans hresult)
          rw [he] at hbytes
          cases hbytes
  have hstored := hrange hterms
  refine ⟨hstored, ?_⟩
  have henv : 1 < params.batchClustering.effectiveBatchSize →
      env.Works (streamClusteredLists rng sort (some vectors) dim params entropy []) := fun hbatch => by
    unfold buildClusteredLists at h
    dsimp only at h
    rw [if_neg (not_le.mpr hbatch)] at h
    rcases hspill : spillClusteredLists env rng sort (some vectors) dim params entropy
      params.batchClustering.batchFileOutputPath spill with ⟨into, result⟩
    rw [hspill] at h
    cases hresult : result with
    | error e' =>
        rw [hresult] at h
        cases h
    | ok written => exact (works_of_spill_eq_ok ((congrArg Prod.snd hspill).trans hresult)).1
  obtain ⟨region', heq⟩ := buildClusteredLists_eq rng sort hstored hdim params entropy henv spill
  rw [heq] at h
  cases h
  rfl

/-- Without a corpus every list is empty. -/
theorem buildClusteredLists_none {spill : ClusteredListsSpill} {lists : List InvertedListClusters}
    {region : Option ℕ}
    (h : (buildClusteredLists env rng sort none dim params entropy spill).2 = .ok (lists, region)) :
    lists = List.replicate dim .empty := by
  unfold buildClusteredLists at h
  dsimp only at h
  split at h
  · cases h
    rfl
  · have hempty : ∃ e, (spillClusteredLists env rng sort none dim params entropy
        params.batchClustering.batchFileOutputPath spill).2 = .error e := by
      unfold spillClusteredLists
      split
      · exact ⟨_, rfl⟩
      · exact ⟨_, congrArg Prod.snd (if_pos rfl)⟩
    obtain ⟨e, he⟩ := hempty
    rcases hspill : spillClusteredLists env rng sort none dim params entropy
      params.batchClustering.batchFileOutputPath spill with ⟨into, result⟩
    rw [hspill] at h he
    dsimp only at he
    rw [he] at h
    cases h

end Lists

namespace SeismicIndex

variable [Mul F] [FloatFormat F] [Zero F] [Add F] [Sub F] [LT F] [DecidableLT F]

variable {env : SpillEnv} {rng : Rng} {sort : StdSort} {entropy : ℕ} {x x' : SeismicIndex F}
  {elementSize : ℕ}

/-- What the lists of an index are after a build: empty ones without a corpus, else the clustered
lists of all terms. -/
inductive Lists (rng : Rng) (sort : StdSort) (entropy : ℕ) (x x' : SeismicIndex F) : Prop
  | none (vectors : x.vectors = none)
      (lists : x'.clusteredInvertedLists = List.replicate x.dimension .empty)
  | some (v : SparseVectors Code) (vectors : x.vectors = some v) (stored : Stored v x.dimension)
      (lists : x'.clusteredInvertedLists
        = clusteredLists rng sort v (x.clusterParameter.resolve v.numVectors entropy) 0 x.dimension)

/-- **A build that returned.** -/
theorem build_lists (hx : x.Fed elementSize) (hrange : x.InRange)
    (h : x.build env rng sort entropy = (x', .ok ())) :
    x'.vectors = x.vectors ∧ x'.dimension = x.dimension ∧ Lists rng sort entropy x x' := by
  obtain ⟨hvectors, hdim⟩ := build_vectors (x := x) env rng sort entropy
  rw [h] at hvectors hdim
  refine ⟨hvectors, hdim, ?_⟩
  unfold build at h
  rcases hbuild : buildClusteredLists env rng sort x.vectors x.dimension x.clusterParameter entropy
    x.batchSpill with ⟨spill, result⟩
  rw [hbuild] at h
  rcases result with e | ⟨lists, region⟩
  · cases h
  cases h
  have hok := congrArg Prod.snd hbuild
  rcases hv : x.vectors with - | v
  · rw [hv] at hok
    exact .none hv (buildClusteredLists_none hok)
  · rw [hv] at hok
    have hfed := hx.vectors v hv
    obtain ⟨hstored, hlists⟩ := buildClusteredLists_lists hfed.wellFormed hfed.nonempty
      (hrange v hv hfed.nonempty) hx.dimension hok
    exact .some v hv hstored hlists

end SeismicIndex

end Nsparse
