/-
Nsparse/DiskBuilt.lean

Disk indexes in memory: what adds, mapped CSR files and builds leave.

As long as nothing is mapped from an index file, an index keeps its documents in its
vectors and counts them (`Fresh`), whatever is called and however it ends
(`run_fresh`).  A build that returns then leaves what a file can hold
(`build_storable`).
-/
import Nsparse.DiskFile
import Nsparse.VectorReaders

namespace Nsparse

open Wire

variable {F : Type}

/-- A mapped CSR file has documents with codes. -/
theorem CsrLayout.readMcsr_fed {path : String} {dimension : ℤ} {elementSize : ℕ} {c c' : Cursor}
    {v : SparseVectors Code} (h : readMcsr path dimension elementSize c = .ok (v, c')) :
    v.Fed elementSize dimension.toNat := by
  obtain ⟨numRows, c₁, -, h⟩ := Reader.bind_eq_ok h
  obtain ⟨numCols, c₂, -, h⟩ := Reader.bind_eq_ok h
  obtain ⟨nnz, c₃, -, h⟩ := Reader.bind_eq_ok h
  obtain ⟨_, c₄, hheader, h⟩ := Reader.bind_eq_ok h
  obtain ⟨_, c₅, -, h⟩ := Reader.bind_eq_ok h
  obtain ⟨_, c₆, -, h⟩ := Reader.bind_eq_ok h
  obtain ⟨indptr, c₇, hindptr, h⟩ := Reader.bind_eq_ok h
  obtain ⟨indices, c₈, -, h⟩ := Reader.bind_eq_ok h
  obtain ⟨_, c₉, -, h⟩ := Reader.bind_eq_ok h
  obtain ⟨values, c₁₀, -, h⟩ := Reader.bind_eq_ok h
  obtain ⟨hmap, -⟩ := Reader.lift_eq_ok_iff.mp h
  obtain ⟨hrows, -, -⟩ := checkHeader_eq_ok_iff.mp (Reader.lift_eq_ok_iff.mp hheader).1
  obtain ⟨hes, hdim, hpos, hoffsets⟩ := SparseVectors.mapVectors_shape hmap
  obtain ⟨hwf, hcodes⟩ := SparseVectors.mapVectors_invariants hmap
  refine ⟨hwf, ?_, hes, hdim, hpos, fun code hcode => (hcodes code hcode).trans hes⟩
  rw [SparseVectors.numVectors_eq, hoffsets, length_of_readArray hindptr]
  dsimp only at hrows
  omega

section Lists

variable [Mul F] [FloatFormat F] [Zero F] [Add F] [Sub F] [LT F] [DecidableLT F]

/-- The summaries of a built list have the width of the vectors. -/
theorem elementSize_clusteredList (rng : Rng) (sort : StdSort) {vectors : SparseVectors Code}
    (hwidth : vectors.elementSize = U32 ∨ vectors.elementSize = U16 ∨ vectors.elementSize = U8)
    (params : ResolvedParameters F) (term : ℕ) :
    (clusteredList rng sort vectors params term).elementSize = vectors.elementSize := by
  -- a list takes the width of its summaries
  have hlist : ∀ (l : InvertedListClusters) (summaries : SparseVectors Code),
      (l.buildTranspose sort summaries).elementSize = summaries.elementSize := by
    intro l summaries
    rw [InvertedListClusters.buildTranspose]
    dsimp only
    split
    · rfl
    · rfl
  rw [clusteredList_eq, InvertedListClusters.summarize]
  split
  · rw [hlist]
  · rw [hlist]
    obtain ⟨-, hes, -⟩ := @summarizeClusters_spec F _ _ _ (ValueType.ofWidth F vectors.elementSize)
      sort vectors (fun _ => True) _ params.alpha
      ((List.range _).map _) (fun _ _ _ _ _ _ => trivial) 0
      (List.replicate vectors.dimension _) (List.replicate vectors.dimension 0)
      (summaries_nil _ vectors.elementSize vectors.dimension) (ValueType.length_encode F hwidth)
    exact hes

end Lists

namespace DiskSeismicIndex

variable {x x' : DiskSeismicIndex F} {elementSize : ℕ}

/-- Nothing is mapped but a CSR file, and every document is counted. -/
structure Fresh (elementSize : ℕ) (x : DiskSeismicIndex F) : Prop
    extends x.toSeismicIndex.Fed elementSize where
  count : x.numVectors = (x.vectors.map SparseVectors.numVectors).getD 0
  mapped : x.vectorsMapped = true → x.vectors ≠ none
  fwd : x.fwd = .empty
  docLocators : x.docLocators = []
  remainder : x.remainder = .default

theorem new_fresh {dim : ℕ} (hdim : dim < 2 ^ 31) (params : SeismicClusterParameters F) :
    (new dim params).Fresh elementSize where
  toFed := SeismicIndex.new_fed hdim params
  count := rfl
  mapped h := by cases h
  fwd := rfl
  docLocators := rfl
  remainder := rfl

/-- However `add` ends. -/
theorem add_fresh {format : CodeFormat F} (args : CsrArgs F) (hx : x.Fresh format.elementSize) :
    (x.add format args).1.Fresh format.elementSize := by
  -- the count of an index without vectors is 0 already
  have hstart : (if x.vectors = none then { x with numVectors := 0 } else x) = x := by
    split
    · rename_i hnone
      have hcount := hx.count
      rw [hnone] at hcount
      rw [← show x.numVectors = 0 from hcount]
    · rfl
  unfold add
  rcases hchecked : args.checked with e | ⟨indptr, indices, values⟩
  · exact hx
  dsimp only
  rw [hstart]
  rcases hto : x.vectorsToAdd format with e | vectors
  · exact hx
  dsimp only
  split
  · rename_i hmapped
    have hsame : x.vectors = some vectors := by
      unfold SeismicIndex.vectorsToAdd at hto
      split at hto
      · rename_i hnone
        exact absurd hnone (hx.mapped hmapped)
      · rename_i v hv
        rw [hv, Except.ok.inj hto]
    rw [← hsame]
    exact hx
  · rename_i hmapped
    obtain ⟨hn, hlen, hoff, hpair, -, -⟩ := CsrArgs.checked_eq_ok hchecked
    rcases hadd : vectors.addVectors indptr indices (values.map format.encode) with e | vectors'
    · -- the arrays have one length
      unfold SparseVectors.addVectors at hadd
      rw [if_neg (not_not.mpr (by rw [List.length_map, hpair]))] at hadd
      split at hadd
      · cases hadd
      · cases hadd
    · have hseismic : x.toSeismicIndex.add format args
          = .ok { x.toSeismicIndex with vectors := some vectors' } := by
        unfold SeismicIndex.add
        rw [hchecked]
        show (x.vectorsToAdd format).bind _ = _
        rw [hto]
        show (vectors.addVectors _ _ _).bind _ = _
        rw [hadd]
        rfl
      have hbefore : vectors.WellFormed ∧ vectors.numVectors = x.numVectors := by
        rw [hx.count]
        unfold SeismicIndex.vectorsToAdd at hto
        split at hto
        · rename_i hnone
          obtain ⟨hwf, hrows, -, -⟩ := SparseVectors.new_wellFormed hto
          rw [hnone, ← SparseVectors.length_rows, hrows]
          exact ⟨hwf, rfl⟩
        · rename_i v hv
          obtain rfl := Except.ok.inj hto
          rw [hv]
          exact ⟨(hx.vectors v hv).wellFormed, rfl⟩
      obtain ⟨-, hrows, -, -⟩ := SparseVectors.addVectors_eq_ok hbefore.1 hoff hadd
      refine ⟨SeismicIndex.add_fed hx.toFed hseismic, ?_, fun h => absurd h hmapped, hx.fwd,
        hx.docLocators, hx.remainder⟩
      show x.numVectors + args.n.toNat = vectors'.numVectors
      rw [← SparseVectors.length_rows, hrows, List.length_append, SparseVectors.length_rows,
        Csr.length_rows, hbefore.2]
      omega

/-- However `read_csr` ends. -/
theorem readMcsr_fresh {format : CodeFormat F} (path : String) (file : Bytes)
    (hx : x.Fresh format.elementSize) : (x.readMcsr format path file).1.Fresh format.elementSize := by
  unfold readMcsr
  split
  · exact hx
  · split
    · exact hx
    · rename_i vectors c hread
      have hfed := CsrLayout.readMcsr_fed hread
      refine ⟨⟨hx.dimension, fun v hv => ?_⟩, rfl, fun _ => Option.some_ne_none vectors, hx.fwd,
        hx.docLocators, hx.remainder⟩
      obtain rfl : vectors = v := Option.some_inj.mp hv
      exact hfed

section Build

variable [Mul F] [FloatFormat F] [Zero F] [Add F] [Sub F] [LT F] [DecidableLT F]

/-- However `build` ends. -/
theorem build_fresh (env : SpillEnv) (rng : Rng) (sort : StdSort) (entropy : ℕ)
    (hx : x.Fresh elementSize) : (x.build env rng sort entropy).1.Fresh elementSize := by
  obtain ⟨hvectors, hdim⟩ := SeismicIndex.build_vectors (x := x.toSeismicIndex) env rng sort entropy
  refine ⟨⟨?_, fun v hv => ?_⟩, ?_, fun h => ?_, hx.fwd, hx.docLocators, hx.remainder⟩
  · show (x.toSeismicIndex.build env rng sort entropy).1.dimension < 2 ^ 31
    rw [hdim]
    exact hx.dimension
  · show v.Fed elementSize (x.toSeismicIndex.build env rng sort entropy).1.dimension
    rw [hdim]
    exact hx.vectors v (hvectors ▸ hv)
  · show x.numVectors = ((x.toSeismicIndex.build env rng sort entropy).1.vectors.map _).getD 0
    rw [hvectors]
    exact hx.count
  · show (x.toSeismicIndex.build env rng sort entropy).1.vectors ≠ none
    rw [hvectors]
    exact hx.mapped h

/-! ### Runs -/

/-- What can be called on an index in memory. -/
inductive Call (F : Type)
  | add (args : CsrArgs F)
  | readMcsr (path : String) (file : Bytes)
  | build (env : SpillEnv) (entropy : ℕ)

/-- The state after a call, however it ended. -/
def step (rng : Rng) (sort : StdSort) (format : CodeFormat F) (x : DiskSeismicIndex F) :
    Call F → DiskSeismicIndex F
  | .add args => (x.add format args).1
  | .readMcsr path file => (x.readMcsr format path file).1
  | .build env entropy => (x.build env rng sort entropy).1

theorem step_fresh (rng : Rng) (sort : StdSort) {format : CodeFormat F}
    (hx : x.Fresh format.elementSize) (call : Call F) :
    (step rng sort format x call).Fresh format.elementSize := by
  cases call with
  | add args => exact add_fresh args hx
  | readMcsr path file => exact readMcsr_fresh path file hx
  | build env entropy => exact build_fresh env rng sort entropy hx

/-- **Whatever is called**, the documents stay in the vectors and are counted. -/
theorem run_fresh (rng : Rng) (sort : StdSort) {format : CodeFormat F}
    (hx : x.Fresh format.elementSize) (calls : List (Call F)) :
    (calls.foldl (step rng sort format) x).Fresh format.elementSize := by
  induction calls generalizing x with
  | nil => exact hx
  | cons call calls ih => exact ih (step_fresh rng sort hx call)

/-! ### What a build leaves -/

omit [Mul F] [FloatFormat F] [Zero F] [Add F] [Sub F] [LT F] [DecidableLT F] in
/-- The vectors of a fresh index are counted, as they will be written. -/
theorem Fresh.count_written (hx : x.Fresh elementSize) :
    x.numVectors = (x.writtenVectors elementSize).numVectors := by
  rw [hx.count, writtenVectors]
  rcases x.vectors with - | v
  · rfl
  · rfl

/-- **A build that returned leaves what a file can hold.** -/
theorem build_storable {env : SpillEnv} {rng : Rng} {sort : StdSort} {entropy : ℕ}
    (hx : x.Fresh elementSize) (hrange : x.toSeismicIndex.InRange)
    (hwidth : elementSize = U32 ∨ elementSize = U16 ∨ elementSize = U8) (hdim : x.dimension ≤ 2 ^ 16)
    (h : x.build env rng sort entropy = (x', .ok ())) : x'.Storable elementSize := by
  have hseismic : x.toSeismicIndex.build env rng sort entropy = (x'.toSeismicIndex, .ok ()) := by
    rw [build] at h
    obtain ⟨hstate, hok⟩ := Prod.mk.inj h
    exact Prod.ext (congrArg DiskSeismicIndex.toSeismicIndex hstate) hok
  obtain ⟨hvectors, hdim', hlists⟩ := SeismicIndex.build_lists hx.toFed hrange hseismic
  refine ⟨SeismicIndex.build_storable hx.toFed hrange hwidth hseismic, ?_, fun l hl hn => ?_⟩
  · cases hlists with
    | none hnone heq =>
        rw [heq, List.length_replicate]
        exact hdim
    | some v hsome hstored heq =>
        rw [heq, length_clusteredLists]
        exact hdim
  · cases hlists with
    | none hnone heq =>
        rw [heq] at hl
        rw [List.eq_of_mem_replicate hl] at hn
        exact absurd hn (lt_irrefl 0)
    | some v hsome hstored heq =>
        rw [heq] at hl
        obtain ⟨i, -, rfl⟩ := List.mem_map.mp hl
        rw [elementSize_clusteredList rng sort hstored.width]
        exact (hx.vectors v hsome).width

end Build

end DiskSeismicIndex

end Nsparse
