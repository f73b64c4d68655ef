/-
Nsparse/SpillHistory.lean

What the lists of an index borrow from, over any sequence of add and build calls.

After a batched build the lists are views into the spill's mapping.  The next batched
build closes that mapping before it has lists to put in their place: when it then
fails, the index keeps the old lists without the bytes under them
(`build_live_iff`).  As long as no build fails past that point, every list the index
holds is readable after every call (`run_live`).
-/
import Nsparse.BatchedEqual

namespace Nsparse

open Wire

namespace InvertedListClusters

/-- Some array has elements, and so has an address. -/
def HasArrays (l : InvertedListClusters) : Prop :=
  l.docs ≠ [] ∨ l.offsets ≠ [] ∨ l.termIds ≠ [] ∨ l.termPtr ≠ [] ∨ l.cscCluster ≠ [] ∨
    l.cscValue ≠ []

instance (l : InvertedListClusters) : Decidable l.HasArrays :=
  inferInstanceAs (Decidable (_ ∨ _))

end InvertedListClusters

/-! ### What a build does to the spill -/

theorem spillPath_ne_empty (dir : String) (token : ℕ) : spillPath dir token ≠ "" := by
  intro h
  have hlen := congrArg String.length h
  simp [spillPath] at hlen

namespace ClusteredListsSpill

/-- A path that is set is released together with the mapping. -/
theorem release_of_path {s : ClusteredListsSpill} (h : s.path ≠ "") :
    s.release = ⟨"", none, s.mapped⟩ := if_neg h

theorem release_of_empty {s : ClusteredListsSpill} (h : s.path = "") : s.release = s := if_pos h

theorem mapped_release (s : ClusteredListsSpill) : s.release.mapped = s.mapped := by
  unfold release
  split
  · rfl
  · rfl

/-- **What `writeAndMap` does**: it stops before there is a path, or closes what it had mapped and
throws, or maps the new file. -/
theorem writeAndMap_cases (env : SpillEnv) (dir : String)
    (writeSection : Bytes → Except Exception Bytes) (s : ClusteredListsSpill) :
    (∃ e, env.token = .error e ∧ s.writeAndMap env dir writeSection = (s.release, .error e)) ∨
    (∃ token e, env.token = .ok token ∧
      s.writeAndMap env dir writeSection = (⟨"", none, s.mapped⟩, .error e)) ∨
    (∃ token bytes path, env.token = .ok token ∧ writeSection [] = .ok bytes ∧
      env.store bytes = none ∧
      s.writeAndMap env dir writeSection
        = (⟨path, some ⟨s.mapped, bytes⟩, s.mapped + 1⟩, .ok ())) := by
  have hmapped := s.mapped_release
  unfold writeAndMap
  rcases htoken : env.token with e | token
  · exact Or.inl ⟨e, rfl, rfl⟩
  · have hrelease : ({ s.release with path := spillPath dir token } : ClusteredListsSpill).release
        = ⟨"", none, s.mapped⟩ := by
      rw [release_of_path (spillPath_ne_empty dir token), hmapped]
    dsimp only
    rw [hrelease, hmapped]
    rcases hwrite : writeSection [] with e | bytes
    · exact Or.inr (Or.inl ⟨token, e, rfl, rfl⟩)
    · rcases hstore : env.store bytes with - | e
      · refine Or.inr (Or.inr ⟨token, bytes, if env.removeFails then spillPath dir token else "",
          rfl, rfl, hstore, ?_⟩)
        dsimp only
        rw [hstore]
        cases env.removeFails
        · rfl
        · rfl
      · refine Or.inr (Or.inl ⟨token, e, rfl, ?_⟩)
        dsimp only
        rw [hstore]

end ClusteredListsSpill

section Stream

variable {F : Type} [Mul F] [FloatFormat F] [Zero F] [Add F] [Sub F] [LT F] [DecidableLT F]

/-- A corpus with a term outside the dimension is never written. -/
theorem streamClusteredLists_eq_error (rng : Rng) (sort : StdSort) {vectors : SparseVectors Code}
    {dim : ℕ} (hv : vectors.WellFormed) (hne : vectors.numVectors ≠ 0)
    (hterms : ¬ TermsBelow dim vectors.rows) (params : SeismicClusterParameters F) (entropy : ℕ)
    (w : Bytes) :
    ∃ e, streamClusteredLists rng sort (some vectors) dim params entropy w = .error e := by
  obtain ⟨e, he⟩ := countPostingsPerTerm_eq_error hv hterms
  refine ⟨e, ?_⟩
  simp only [streamClusteredLists, forEachClusteredWindow, if_neg hne, he]
  rfl

end Stream

/-! ### Live lists -/

namespace SeismicIndex

variable {F : Type}

/-- Some list is a view into a mapping. -/
def HoldsViews (x : SeismicIndex F) : Prop :=
  x.borrows ≠ none ∧ ∃ l ∈ x.clusteredInvertedLists, l.HasArrays

/-- Every list that is a view is one into an open mapping. -/
def Live (x : SeismicIndex F) : Prop :=
  ∀ l ∈ x.clusteredInvertedLists, l.HasArrays → ∀ region, x.borrows = some region →
    ∃ file, x.batchSpill.mapping = some file ∧ file.region = region

/-- Mappings are numbered in the order they are made. -/
def Numbered (x : SeismicIndex F) : Prop :=
  ∀ region, x.borrows = some region → region < x.batchSpill.mapped

theorem live_of_not_holdsViews {x : SeismicIndex F} (h : ¬ x.HoldsViews) : x.Live :=
  fun l hl harrays region hregion =>
    absurd ⟨by rw [hregion]; exact Option.some_ne_none region, l, hl, harrays⟩ h

variable [Mul F] [FloatFormat F] [Zero F] [Add F] [Sub F] [LT F] [DecidableLT F]

/-- The corpus can be built: its terms are below the dimension, and its positions and terms fit
their types. -/
def Buildable (x : SeismicIndex F) : Prop :=
  ∀ vectors, x.vectors = some vectors → vectors.numVectors ≠ 0 → Stored vectors x.dimension

/-- The corpus has numbers that fit their types. -/
def InRange (x : SeismicIndex F) : Prop :=
  ∀ vectors, x.vectors = some vectors → vectors.numVectors ≠ 0 →
    TermsBelow x.dimension vectors.rows → Stored vectors x.dimension

/-- A build that does not reach the spill's mapping. -/
def LeavesSpill (env : SpillEnv) (x : SeismicIndex F) : Prop :=
  x.clusterParameter.batchClustering.effectiveBatchSize ≤ 1 ∨
  env.isDirectory = false ∨
  (x.vectors.map SparseVectors.numVectors).getD 0 = 0 ∨
  (x.batchSpill.path = "" ∧ ∃ e, env.token = .error e)

/-- The bytes of the scratch file, or what stopped them. -/
def scratchSection (rng : Rng) (sort : StdSort) (entropy : ℕ) (x : SeismicIndex F) :
    Except Exception Bytes :=
  streamClusteredLists rng sort x.vectors x.dimension x.clusterParameter entropy []

/-- A build that takes no mapping from under a list: there is no view to lose, or the build does
not reach the spill, or nothing in it fails. -/
def SafeBuild (env : SpillEnv) (rng : Rng) (sort : StdSort) (entropy : ℕ) (x : SeismicIndex F) :
    Prop :=
  ¬ x.HoldsViews ∨ x.LeavesSpill env ∨ (x.Buildable ∧ env.Works (x.scratchSection rng sort entropy))

variable (env : SpillEnv) (rng : Rng) (sort : StdSort) (entropy : ℕ) {x : SeismicIndex F}

/-- **What a build does**: it succeeds, and its lists are live; or it throws before it reaches the
spill, and changes nothing; or it throws later, and the spill has lost the mapping it had. -/
theorem build_cases :
    ((x.build env rng sort entropy).2 = .ok () ∧ (x.build env rng sort entropy).1.Live ∧
      (x.build env rng sort entropy).1.Numbered ∧
      (x.LeavesSpill env ∨ env.Works (x.scratchSection rng sort entropy) ∧
        ∃ bytes, x.scratchSection rng sort entropy = .ok bytes)) ∨
    ((x.build env rng sort entropy).1 = x ∧ x.LeavesSpill env) ∨
    (∃ spill e, x.build env rng sort entropy = ({ x with batchSpill := spill }, .error e) ∧
      x.batchSpill.mapped ≤ spill.mapped ∧ ¬ x.LeavesSpill env ∧
      ∀ file, spill.mapping = some file → file.region = x.batchSpill.mapped) := by
  unfold build buildClusteredLists
  by_cases hone : x.clusterParameter.batchClustering.effectiveBatchSize ≤ 1
  · -- the whole corpus in memory: the lists own their arrays
    rw [if_pos hone]
    rcases buildInvertedListsClusters rng sort x.vectors x.dimension x.clusterParameter entropy
      with e | lists
    · exact Or.inr (Or.inl ⟨rfl, Or.inl hone⟩)
    · refine Or.inl ⟨rfl, fun _ _ _ _ h => ?_, fun _ h => ?_, Or.inl (Or.inl hone)⟩
      · cases h
      · cases h
  rw [if_neg hone, spillClusteredLists]
  by_cases hdir : env.isDirectory = false
  · rw [if_pos hdir]
    exact Or.inr (Or.inl ⟨rfl, Or.inr (Or.inl hdir)⟩)
  by_cases hempty : (x.vectors.map SparseVectors.numVectors).getD 0 = 0
  · rw [if_neg hdir, if_pos hempty]
    exact Or.inr (Or.inl ⟨rfl, Or.inr (Or.inr (Or.inl hempty))⟩)
  rw [if_neg hdir, if_neg hempty]
  have hleaves : x.LeavesSpill env ↔ x.batchSpill.path = "" ∧ ∃ e, env.token = .error e := by
    simp [LeavesSpill, hone, hdir, hempty]
  have hreached : ∀ token, env.token = .ok token → ¬ x.LeavesSpill env := by
    intro token htoken h
    obtain ⟨-, e, he⟩ := hleaves.mp h
    rw [htoken] at he
    cases he
  rcases ClusteredListsSpill.writeAndMap_cases env
    x.clusterParameter.batchClustering.batchFileOutputPath
    (streamClusteredLists rng sort x.vectors x.dimension x.clusterParameter entropy) x.batchSpill
    with ⟨e, htoken, hrun⟩ | ⟨token, e, htoken, hrun⟩ | ⟨token, bytes, path, htoken, hwrite, hstore, hrun⟩
  · rw [hrun]
    by_cases hpath : x.batchSpill.path = ""
    · rw [ClusteredListsSpill.release_of_empty hpath]
      exact Or.inr (Or.inl ⟨rfl, hleaves.mpr ⟨hpath, e, htoken⟩⟩)
    · rw [ClusteredListsSpill.release_of_path hpath]
      refine Or.inr (Or.inr ⟨_, e, rfl, le_rfl, fun h => hpath (hleaves.mp h).1, ?_⟩)
      exact fun file h => by cases h
  · rw [hrun]
    exact Or.inr (Or.inr ⟨_, e, rfl, le_rfl, hreached token htoken, fun file h => by cases h⟩)
  · rw [hrun]
    dsimp only
    rcases hread : env.readFault with - | e
    · simp only [Option.map_some, Option.getD_some]
      rcases hlists : mmapDeserializeLists 0 ⟨bytes, 0⟩ with e | ⟨lists, cursor⟩
      · exact Or.inr (Or.inr ⟨⟨path, some ⟨x.batchSpill.mapped, bytes⟩, _⟩, e, rfl,
          Nat.le_succ _, hreached token htoken, fun file h => by cases h; rfl⟩)
      · -- the lists borrow from the mapping that was just made
        refine Or.inl ⟨rfl, fun l _ _ region h => ?_, fun region h => ?_, Or.inr ⟨?_, bytes, hwrite⟩⟩
        · cases h
          exact ⟨_, rfl, rfl⟩
        · cases h
          exact Nat.lt_succ_self _
        · refine ⟨by simpa using hdir, ⟨token, htoken⟩, fun bytes' h => ?_, hread⟩
          rw [scratchSection, hwrite] at h
          cases h
          exact hstore
    · exact Or.inr (Or.inr ⟨⟨path, some ⟨x.batchSpill.mapped, bytes⟩, _⟩, e, rfl,
        Nat.le_succ _, hreached token htoken, fun file h => by cases h; rfl⟩)

/-- A safe build that reaches the spill with views to lose succeeds. -/
theorem build_eq_ok (hdim : x.dimension < 2 ^ 31) (hcorpus : x.Buildable)
    (henv : env.Works (x.scratchSection rng sort entropy))
    (hne : (x.vectors.map SparseVectors.numVectors).getD 0 ≠ 0) :
    (x.build env rng sort entropy).2 = .ok () := by
  rcases hvectors : x.vectors with - | vectors
  · rw [hvectors] at hne
    exact absurd rfl hne
  · rw [hvectors] at hne
    rw [scratchSection, hvectors] at henv
    obtain ⟨region, hlists⟩ := buildClusteredLists_eq rng sort (hcorpus vectors hvectors hne) hdim
      x.clusterParameter entropy (fun _ => henv) x.batchSpill
    rcases hbuild : buildClusteredLists env rng sort (some vectors) x.dimension x.clusterParameter
      entropy x.batchSpill with ⟨spill, result⟩
    rw [hbuild] at hlists
    obtain rfl : result = _ := hlists
    rw [build, hvectors, hbuild]

/-- A safe build that throws past the spill had no view to lose. -/
theorem live_of_failed_build {spill : ClusteredListsSpill} {e : Exception}
    (hdim : x.dimension < 2 ^ 31) (hsafe : x.SafeBuild env rng sort entropy)
    (hreached : ¬ x.LeavesSpill env)
    (hbuild : x.build env rng sort entropy = ({ x with batchSpill := spill }, .error e)) :
    (x.build env rng sort entropy).1.Live := by
  rcases hsafe with hviews | hleaves | ⟨hcorpus, hworks⟩
  · rw [hbuild]
    exact live_of_not_holdsViews hviews
  · exact absurd hleaves hreached
  · have hok := x.build_eq_ok env rng sort entropy hdim hcorpus hworks fun hempty =>
      hreached (Or.inr (Or.inr (Or.inl hempty)))
    rw [hbuild] at hok
    cases hok

/-- **A build keeps the lists live exactly when it is safe.** -/
theorem build_live_iff (hdim : x.dimension < 2 ^ 31) (hwf : ∀ vectors, x.vectors = some vectors →
      vectors.WellFormed) (hrange : x.InRange) (hlive : x.Live) (hnumbered : x.Numbered) :
    (x.build env rng sort entropy).1.Live ↔ x.SafeBuild env rng sort entropy := by
  rcases x.build_cases env rng sort entropy with
    ⟨-, hlive', -, hleaves | ⟨hworks, bytes, hsection⟩⟩ | ⟨hsame, hleaves⟩ |
      ⟨spill, e, hbuild, hmapped, hreached, hfile⟩
  · exact iff_of_true hlive' (Or.inr (Or.inl hleaves))
  · refine iff_of_true hlive' (Or.inr (Or.inr ⟨fun vectors hvectors hne => ?_, hworks⟩))
    refine hrange vectors hvectors hne ?_
    by_contra hterms
    obtain ⟨e, he⟩ := streamClusteredLists_eq_error rng sort (hwf vectors hvectors) hne hterms
      x.clusterParameter entropy []
    rw [scratchSection, hvectors, he] at hsection
    cases hsection
  · rw [hsame]
    exact iff_of_true hlive (Or.inr (Or.inl hleaves))
  · constructor
    · -- a view would need the mapping it had, and any mapping now open is a later one
      intro hlive'
      refine Or.inl fun ⟨hborrows, l, hl, harrays⟩ => ?_
      obtain ⟨region, hregion⟩ := Option.ne_none_iff_exists'.mp hborrows
      rw [hbuild] at hlive'
      obtain ⟨file, hmapping, rfl⟩ := hlive' l hl harrays region hregion
      exact absurd (hfile file hmapping) (hnumbered _ hregion).ne
    · exact fun hsafe => live_of_failed_build env rng sort entropy hdim hsafe hreached hbuild

/-! ### Runs -/

/-- A call on the index, with what it meets. -/
inductive Call (F : Type)
  | add (args : CsrArgs F)
  | build (env : SpillEnv) (entropy : ℕ)

variable (format : CodeFormat F)

/-- The state after a call; a throwing `add` changes nothing. -/
def step (x : SeismicIndex F) : Call F → SeismicIndex F
  | .add args =>
      match x.add format args with
      | .error _ => x
      | .ok x' => x'
  | .build env entropy => (x.build env rng sort entropy).1

def run (x : SeismicIndex F) (calls : List (Call F)) : SeismicIndex F :=
  calls.foldl (step rng sort format) x

/-- Every build of the run is safe where it is made. -/
def SafeRun (x : SeismicIndex F) : List (Call F) → Prop
  | [] => True
  | call :: calls =>
      (∀ env entropy, call = .build env entropy → x.SafeBuild env rng sort entropy) ∧
        SafeRun (step rng sort format x call) calls

/-- **One call** keeps the lists live, when it is a safe build or no build. -/
theorem step_live {x : SeismicIndex F} (hdim : x.dimension < 2 ^ 31) (hlive : x.Live)
    (hnumbered : x.Numbered) {call : Call F}
    (hsafe : ∀ env entropy, call = .build env entropy → x.SafeBuild env rng sort entropy) :
    (step rng sort format x call).Live ∧ (step rng sort format x call).Numbered ∧
      (step rng sort format x call).dimension = x.dimension := by
  cases call with
  | add args =>
      have hstep : ∃ vectors, step rng sort format x (.add args) = { x with vectors } := by
        show ∃ vectors, (match x.add format args with
          | .error _ => x
          | .ok x' => x') = { x with vectors }
        rcases hadd : x.add format args with e | x'
        · exact ⟨x.vectors, rfl⟩
        · obtain ⟨_, _, _, _, vectors, -, -, -, rfl⟩ := add_eq_ok hadd
          exact ⟨some vectors, rfl⟩
      obtain ⟨vectors, hstep⟩ := hstep
      rw [hstep]
      exact ⟨hlive, hnumbered, rfl⟩
  | build env entropy =>
      have hsafe := hsafe env entropy rfl
      have hdimension : (x.build env rng sort entropy).1.dimension = x.dimension := by
        unfold build
        split
        · rfl
        · rfl
      show (x.build env rng sort entropy).1.Live ∧ (x.build env rng sort entropy).1.Numbered ∧
        (x.build env rng sort entropy).1.dimension = x.dimension
      refine ⟨?_, ?_, hdimension⟩
      · rcases x.build_cases env rng sort entropy with
          ⟨-, h, -⟩ | ⟨hsame, -⟩ | ⟨spill, e, hbuild, -, hreached, -⟩
        · exact h
        · rw [hsame]
          exact hlive
        · exact live_of_failed_build env rng sort entropy hdim hsafe hreached hbuild
      · rcases x.build_cases env rng sort entropy with
          ⟨-, -, h, -⟩ | ⟨hsame, -⟩ | ⟨spill, e, hbuild, hmapped, -⟩
        · exact h
        · rw [hsame]
          exact hnumbered
        · rw [hbuild]
          exact fun region hregion => (hnumbered region hregion).trans_le hmapped

/-- **Every run** whose builds are safe keeps the lists live after each of its calls. -/
theorem run_live {x : SeismicIndex F} (hdim : x.dimension < 2 ^ 31) (hlive : x.Live)
    (hnumbered : x.Numbered) {calls : List (Call F)} (hsafe : SafeRun rng sort format x calls)
    (n : ℕ) : (run rng sort format x (calls.take n)).Live := by
  induction calls generalizing x n with
  | nil =>
      rw [List.take_nil]
      exact hlive
  | cons call calls ih =>
      cases n with
      | zero => exact hlive
      | succ n =>
          obtain ⟨hcall, hrest⟩ := hsafe
          obtain ⟨hlive', hnumbered', hdimension⟩ :=
            step_live rng sort format hdim hlive hnumbered hcall
          exact ih (hdimension.trans_lt hdim) hlive' hnumbered' hrest n

/-- **A seismic index whose builds spill.**  In every run of adds and builds, from a new index, in
which no build fails once it has closed the mapping that lists still borrow from, every list the
index holds is readable after every call. -/
theorem lists_stay_readable (dim : ℕ) (hdim : dim < 2 ^ 31) (params : SeismicClusterParameters F)
    (calls : List (Call F)) (hsafe : SafeRun rng sort format (new dim params) calls) (n : ℕ) :
    (run rng sort format (new dim params) (calls.take n)).Live :=
  run_live rng sort format hdim (fun _ hl => absurd hl List.not_mem_nil)
    (fun _ h => by cases h) hsafe n

/-- Surroundings in which the scratch directory is full. -/
def fullDiskEnv : SpillEnv where
  isDirectory := true
  token := .ok 8
  store _ := some (.runtimeError "write failed")
  store_size _ h := by cases h
  removeFails := false
  readFault := none

/-- One document, `1 : 1.0`. -/
def oneDocumentArgs : CsrArgs ℤ where
  n := 1
  indptr := some [0, 1]
  indices := some [1]
  values := some [1]
  promise := by
    rintro _ _ _ ⟨⟩ ⟨⟩ ⟨⟩ -
    exact ⟨rfl, ⟨rfl, by decide, rfl⟩, rfl⟩

/-- Two batches into a scratch directory. -/
def spillingParameters : SeismicClusterParameters ℤ := ⟨0, 1, 1, ⟨2, "scratch"⟩, 42⟩

/-- Add, build, add and build again. -/
def builtTwice : List (Call ℤ) :=
  [.add oneDocumentArgs, .build calmEnv 0, .add oneDocumentArgs, .build calmEnv 0]

/-- The index that the second build finds. -/
def builtAndAdded : SeismicIndex ℤ :=
  run countingRng insertionSort (floatFormat ℤ "SEIS") (new 2 spillingParameters) (builtTwice.take 3)

theorem stored_twoDocuments :
    Stored ⟨U32, 2, [0, 1, 2], [1, 1],
      [FloatFormat.toBits (1 : ℤ), FloatFormat.toBits (1 : ℤ)]⟩ 2 where
  wellFormed := ⟨rfl, by decide, fun _ => ⟨rfl, by decide, rfl⟩⟩
  nonempty := by decide
  size := by decide
  terms := by decide
  terms16 := by decide
  width := by decide
  postings := by decide

set_option maxRecDepth 20000 in
/-- Nothing fails in its build. -/
theorem builtAndAdded_works :
    builtAndAdded.Buildable ∧
      calmEnv.Works (builtAndAdded.scratchSection countingRng insertionSort 0) := by
  refine ⟨fun vectors hvectors _ => ?_, rfl, ⟨7, rfl⟩, fun bytes hbytes => ?_, rfl⟩
  · have hstored : builtAndAdded.vectors = some ⟨U32, 2, [0, 1, 2], [1, 1],
        [FloatFormat.toBits (1 : ℤ), FloatFormat.toBits (1 : ℤ)]⟩ := by decide
    obtain rfl := Option.some.inj (hstored.symm.trans hvectors)
    exact stored_twoDocuments
  · have hlen : (builtAndAdded.scratchSection countingRng insertionSort 0).toOption.map
        List.length = some 140 := by decide
    rw [hbytes] at hlen
    have hsmall : bytes.length = 140 := Option.some_inj.mp hlen
    exact if_pos (by rw [hsmall]; decide)

set_option maxRecDepth 20000 in
/-- A second build, over views into the file of the first, in which nothing fails. -/
theorem lists_stay_readable_second_build :
    builtAndAdded.HoldsViews ∧
      (run countingRng insertionSort (floatFormat ℤ "SEIS") (new 2 spillingParameters)
        (builtTwice.take 4)).Live := by
  refine ⟨⟨by decide, by decide⟩, ?_⟩
  apply lists_stay_readable countingRng insertionSort (floatFormat ℤ "SEIS") 2 (by decide)
    spillingParameters builtTwice
  refine ⟨fun _ _ h => (by cases h), fun env entropy h => ?_, fun _ _ h => (by cases h),
    fun env entropy h => ?_, trivial⟩
  · exact Or.inl fun hviews => absurd rfl hviews.1
  · obtain ⟨rfl, rfl⟩ := Call.build.inj h
    exact Or.inr (Or.inr builtAndAdded_works)

/-- Add, build, and build again on a full disk. -/
def secondBuildFails : List (Call ℤ) :=
  [.add oneDocumentArgs, .build calmEnv 0, .build fullDiskEnv 0]

set_option maxRecDepth 20000 in
/-- The second build throws and leaves a list whose mapping it closed. -/
theorem failed_second_build_unmaps_lists :
    ¬ ∀ calls : List (Call ℤ),
      (run countingRng insertionSort (floatFormat ℤ "SEIS") (new 2 spillingParameters) calls).Live := by
  intro h
  have hviews : ∃ l ∈ (run countingRng insertionSort (floatFormat ℤ "SEIS")
      (new 2 spillingParameters) secondBuildFails).clusteredInvertedLists, l.HasArrays := by decide
  have hborrows : (run countingRng insertionSort (floatFormat ℤ "SEIS")
      (new 2 spillingParameters) secondBuildFails).borrows = some 0 := by decide
  have hunmapped : (run countingRng insertionSort (floatFormat ℤ "SEIS")
      (new 2 spillingParameters) secondBuildFails).batchSpill.mapping = none := by decide
  obtain ⟨l, hl, harrays⟩ := hviews
  obtain ⟨file, hfile, -⟩ := h secondBuildFails l hl harrays 0 hborrows
  rw [hunmapped] at hfile
  cases hfile

end SeismicIndex

end Nsparse
