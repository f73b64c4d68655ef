/-
Nsparse/ResidentIndex.lean

Reading a corpus into an index of any type.

In memory, `read_csr` adds what it finds in the file; mapped, the vectors are borrowed
from the file, and an index that borrows them cannot add to them.  `BrutalIndex` has no
mapped residency and reads into memory either way.  The inverted and the disk indexes keep
a count of their own, which `read_csr` sets anew.

The file is checked less than the arguments of `add`, so what is added to are arrays that
nobody vouches for (`RowAdder.addArrays`); where somebody does, it is the same
(`RowAdder.addRows_eq_addArrays`).

Every index counts the rows it takes (`countsRows`), until an inverted index is built: it
gives its vectors away then, and begins to count again with the next.  Under an id map
that is all there is to know (`run_agrees_of_built_last`).
-/
import Nsparse.IdMapHistory
import Nsparse.MappedHistory

namespace Nsparse

open Wire

variable {F : Type}

/-! ### Arrays -/

/-- `add` behind its checks. -/
def RowAdder.addArrays {σ V : Type} (R : RowAdder σ F V) (n : ℤ) (indptr indices : List ℕ)
    (values : List F) (x : σ) : σ × Except Exception Unit :=
  match R.start x with
  | .error (x, e) => (x, .error e)
  | .ok vectors =>
      match vectors.addVectors indptr indices (values.map R.encode) with
      | .error e => (R.put x vectors 0, .error e)
      | .ok vectors => (R.put x vectors n.toNat, .ok ())

/-- The arrays of arguments that were checked are their rows. -/
theorem RowAdder.addRows_eq_addArrays {σ V : Type} (R : RowAdder σ F V) (x : σ) {a : CsrArgs F}
    {indptr indices : List ℕ} {values : List F} (h : a.checked = .ok (indptr, indices, values)) :
    R.addRows x a.rows = R.addArrays a.n indptr indices values x := by
  unfold addRows addArrays
  rcases R.start x with ⟨x', e⟩ | vectors
  · rfl
  · obtain ⟨hadd, -, -, -, hcount⟩ := SparseVectors.addVectors_args R.encode vectors h
    dsimp only
    rw [hadd, hcount]

/-- Adding arrays adds vectors. -/
theorem SparseVectors.le_numVectors_addVectors {V : Type} {v v' : SparseVectors V}
    {indptr indices : List ℕ} {weights : List V}
    (h : v.addVectors indptr indices weights = .ok v') : v.numVectors ≤ v'.numVectors := by
  unfold addVectors at h
  split at h
  · cases h
  · split at h
    · exact (Except.ok.inj h) ▸ le_rfl
    · obtain rfl := Except.ok.inj h
      rw [numVectors_eq, numVectors_eq]
      split
      · rename_i hempty
        rw [hempty]
        exact Nat.zero_le _
      · rw [List.length_append]
        omega

/-! ### Indexes -/

/-- Vectors whose values are the bytes of floats. -/
def SparseVectors.floats [FloatFormat F] (vectors : SparseVectors Code) : SparseVectors F :=
  { vectors with values := vectors.values.map FloatFormat.ofBits }

namespace PlainIndex

section State

variable [LT F] [FloatFormat F]

/-- The type. -/
def kind : PlainIndex F → IndexKind
  | brutal _ => .brutal
  | inverted _ => .inverted
  | seismic _ => .seismic
  | seismicSQ _ _ => .seismicSQ
  | diskSeismic _ => .diskSeismic
  | diskSeismicSQ _ _ => .diskSeismicSQ

/-- `get_vectors() != nullptr`. -/
def hasVectors : PlainIndex F → Bool
  | brutal x => x.vectors.isSome
  | inverted x => x.vectors.isSome
  | seismic x => x.vectors.isSome
  | seismicSQ _ x => x.vectors.isSome
  | diskSeismic x => x.vectors.isSome
  | diskSeismicSQ _ x => x.vectors.isSome

/-- How many vectors it has. -/
def held : PlainIndex F → ℕ
  | brutal x => x.vectors.elim 0 SparseVectors.numVectors
  | inverted x => x.vectors.elim 0 SparseVectors.numVectors
  | seismic x => x.vectors.elim 0 SparseVectors.numVectors
  | seismicSQ _ x => x.vectors.elim 0 SparseVectors.numVectors
  | diskSeismic x => x.vectors.elim 0 SparseVectors.numVectors
  | diskSeismicSQ _ x => x.vectors.elim 0 SparseVectors.numVectors

def dimension : PlainIndex F → ℕ
  | brutal x => x.dimension
  | inverted x => x.dimension
  | seismic x => x.dimension
  | seismicSQ _ x => x.dimension
  | diskSeismic x => x.dimension
  | diskSeismicSQ _ x => x.dimension

/-- `code_element_size`. -/
def codeElementSize : PlainIndex F → ℕ
  | seismicSQ sq _ => sq.bytesPerValue
  | diskSeismicSQ sq _ => sq.bytesPerValue
  | _ => U32

/-- The vectors of a mapped CSR file. -/
def borrowVectors (vectors : SparseVectors Code) : PlainIndex F → PlainIndex F
  | brutal x => brutal x
  | inverted x => inverted { x with vectors := some vectors.floats }
  | seismic x => seismic { x with vectors := some vectors }
  | seismicSQ sq x => seismicSQ sq { x with vectors := some vectors }
  | diskSeismic x => diskSeismic { x with
      vectors := some vectors
      vectorsMapped := true }
  | diskSeismicSQ sq x => diskSeismicSQ sq { x with
      vectors := some vectors
      vectorsMapped := true }

/-- `read_csr` of the inverted and the disk indexes ends with the count of the vectors. -/
def countAgain : PlainIndex F → PlainIndex F
  | inverted x => inverted { x with
      numVectors := x.vectors.elim x.numVectors SparseVectors.numVectors }
  | diskSeismic x => diskSeismic { x with
      numVectors := x.vectors.elim x.numVectors SparseVectors.numVectors }
  | diskSeismicSQ sq x => diskSeismicSQ sq { x with
      numVectors := x.vectors.elim x.numVectors SparseVectors.numVectors }
  | x => x

end State

variable [Ring F] [LinearOrder F] [FloatFormat F]

/-- `add` behind its checks. -/
def addArrays (n : ℤ) (indptr indices : List ℕ) (values : List F) :
    PlainIndex F → PlainIndex F × Except Exception Unit
  | brutal x => (BrutalIndex.adder.addArrays n indptr indices values x).map brutal id
  | inverted x => (InvertedIndex.adder.addArrays n indptr indices values x).map inverted id
  | seismic x =>
      ((SeismicIndex.adder (floatFormat F IndexKind.seismic.name)).addArrays n indptr indices values
        x).map seismic id
  | seismicSQ sq x =>
      ((SeismicIndex.adder (quantizedFormat sq IndexKind.seismicSQ.name)).addArrays n indptr indices
        values x).map (seismicSQ sq) id
  | diskSeismic x =>
      ((DiskSeismicIndex.adder (floatFormat F IndexKind.diskSeismic.name)).addArrays n indptr indices
        values x).map diskSeismic id
  | diskSeismicSQ sq x =>
      ((DiskSeismicIndex.adder (quantizedFormat sq IndexKind.diskSeismicSQ.name)).addArrays n indptr
        indices values x).map (diskSeismicSQ sq) id

end PlainIndex

/-! ### Counting -/

namespace PlainIndex

variable [LinearOrder F] [FloatFormat F]

/-- The count is that of the vectors. -/
def CountsVectors (x : PlainIndex F) : Prop := x.numVectors = x.held

/-- How adding to one of the types shows in its count. -/
structure Counting {σ V : Type} (R : RowAdder σ F V) (c : σ → PlainIndex F) : Prop where
  start : ∀ {x v}, R.start x = .ok v → v.numVectors = (c x).held
  held : ∀ x v n, (c (R.put x v n)).held = v.numVectors
  count : ∀ {x v n}, (c x).CountsVectors → v.numVectors = (c x).held + n →
    (c (R.put x v n)).numVectors = v.numVectors
  again : ∀ x v n, (c (R.put x v n)).countAgain.CountsVectors ∧
    (c (R.put x v n)).countAgain.held = v.numVectors
  refused : ∀ {x x' e}, R.start x = .error (x', e) → (c x).CountsVectors →
    (c x').CountsVectors ∧ (c x').held = (c x).held

theorem refused_of_startOr {σ V : Type} {x x' : σ} {e : Exception} {elementSize dimension : ℕ}
    {vectors : Option (SparseVectors V)}
    (h : startOr x elementSize dimension vectors = .error (x', e)) : x' = x := by
  unfold startOr at h
  rcases hv : vectorsOrNew elementSize dimension vectors with e' | v
  · rw [hv] at h
    exact (congrArg Prod.fst (Except.error.inj h)).symm
  · rw [hv] at h
    cases h

theorem counting_brutal : Counting (BrutalIndex.adder (F := F)) brutal where
  start h := vectorsOrNew_of_start h
  held _ _ _ := rfl
  count _ _ := rfl
  again _ _ _ := ⟨rfl, rfl⟩
  refused h hx := by
    obtain rfl := refused_of_startOr h
    exact ⟨hx, rfl⟩

theorem counting_inverted : Counting (InvertedIndex.adder (F := F)) inverted where
  start h := vectorsOrNew_of_start h
  held _ _ _ := rfl
  count hx hv := (congrArg (· + _) hx).trans hv.symm
  again _ _ _ := ⟨rfl, rfl⟩
  refused h hx := by
    obtain rfl := refused_of_startOr h
    exact ⟨hx, rfl⟩

theorem counting_seismic (format : CodeFormat F) : Counting (SeismicIndex.adder format) seismic where
  start h := vectorsOrNew_of_start h
  held _ _ _ := rfl
  count _ _ := rfl
  again _ _ _ := ⟨rfl, rfl⟩
  refused h hx := by
    obtain rfl := refused_of_startOr h
    exact ⟨hx, rfl⟩

theorem counting_seismicSQ (format : CodeFormat F) (sq : ScalarQuantizer F) :
    Counting (SeismicIndex.adder format) (seismicSQ sq) where
  start h := vectorsOrNew_of_start h
  held _ _ _ := rfl
  count _ _ := rfl
  again _ _ _ := ⟨rfl, rfl⟩
  refused h hx := by
    obtain rfl := refused_of_startOr h
    exact ⟨hx, rfl⟩

end PlainIndex

/-- The count of a disk index is that of its vectors. -/
def DiskSeismicIndex.CountsVectors (x : DiskSeismicIndex F) : Prop :=
  x.numVectors = x.vectors.elim 0 SparseVectors.numVectors

namespace DiskSeismicIndex

variable {x x' : DiskSeismicIndex F} {format : CodeFormat F}

theorem numVectors_recounted_of_countsVectors (h : x.CountsVectors) :
    x.recounted.numVectors = x.numVectors :=
  numVectors_recounted fun hnone => by rw [h, hnone]; rfl

theorem vectors_recounted (x : DiskSeismicIndex F) : x.recounted.vectors = x.vectors := by
  unfold recounted
  split
  · rfl
  · rfl

/-- Where it starts from. -/
theorem numVectors_of_start {v : SparseVectors Code} (h : (adder format).start x = .ok v) :
    v.numVectors = x.vectors.elim 0 SparseVectors.numVectors := by
  simp only [adder] at h
  rcases hv : vectorsOrNew format.elementSize x.dimension x.vectors with e | w
  · rw [hv] at h
    cases h
  · rw [hv] at h
    dsimp only at h
    split at h
    · cases h
    · obtain rfl := Except.ok.inj h
      exact numVectors_vectorsOrNew hv

/-- What is left when it cannot start: perhaps vectors without rows. -/
theorem countsVectors_of_refused {e : Exception} (h : (adder format).start x = .error (x', e))
    (hx : x.CountsVectors) : x'.CountsVectors ∧
      x'.vectors.elim 0 SparseVectors.numVectors = x.vectors.elim 0 SparseVectors.numVectors := by
  have hrecounted : x.recounted.numVectors = x.vectors.elim 0 SparseVectors.numVectors :=
    (numVectors_recounted_of_countsVectors hx).trans hx
  simp only [adder] at h
  rcases hv : vectorsOrNew format.elementSize x.dimension x.vectors with e' | w
  · rw [hv] at h
    obtain ⟨rfl, -⟩ := Prod.mk.inj (Except.error.inj h)
    unfold CountsVectors
    rw [vectors_recounted]
    exact ⟨hrecounted, rfl⟩
  · rw [hv] at h
    dsimp only at h
    split at h
    · obtain ⟨rfl, -⟩ := Prod.mk.inj (Except.error.inj h)
      have hcount := numVectors_vectorsOrNew hv
      exact ⟨hrecounted.trans hcount.symm, hcount⟩
    · cases h

end DiskSeismicIndex

namespace PlainIndex

variable [LinearOrder F] [FloatFormat F]

theorem counting_diskSeismic (format : CodeFormat F) :
    Counting (DiskSeismicIndex.adder format) diskSeismic where
  start h := DiskSeismicIndex.numVectors_of_start h
  held _ _ _ := rfl
  count hx hv := (congrArg (· + _)
    ((DiskSeismicIndex.numVectors_recounted_of_countsVectors hx).trans hx)).trans hv.symm
  again _ _ _ := ⟨rfl, rfl⟩
  refused h hx := DiskSeismicIndex.countsVectors_of_refused h hx

theorem counting_diskSeismicSQ (format : CodeFormat F) (sq : ScalarQuantizer F) :
    Counting (DiskSeismicIndex.adder format) (diskSeismicSQ sq) where
  start h := DiskSeismicIndex.numVectors_of_start h
  held _ _ _ := rfl
  count hx hv := (congrArg (· + _)
    ((DiskSeismicIndex.numVectors_recounted_of_countsVectors hx).trans hx)).trans hv.symm
  again _ _ _ := ⟨rfl, rfl⟩
  refused h hx := DiskSeismicIndex.countsVectors_of_refused h hx

section Adding

variable {σ V : Type} {R : RowAdder σ F V} {c : σ → PlainIndex F} {n : ℤ} {indptr indices : List ℕ}
  {values : List F} {x x' : σ}

/-- Adding arrays changes no count when it throws. -/
theorem Counting.addArrays_error (hR : Counting R c) {e : Exception}
    (h : R.addArrays n indptr indices values x = (x', .error e)) (hx : (c x).CountsVectors) :
    (c x').CountsVectors ∧ (c x').held = (c x).held := by
  unfold RowAdder.addArrays at h
  rcases hstart : R.start x with ⟨x₀, e'⟩ | v
  · rw [hstart] at h
    obtain ⟨rfl, -⟩ := Prod.mk.inj h
    exact hR.refused hstart hx
  · rw [hstart] at h
    dsimp only at h
    split at h
    · obtain ⟨rfl, -⟩ := Prod.mk.inj h
      have hv := hR.start hstart
      have hheld : (c (R.put x v 0)).held = (c x).held := (hR.held x v 0).trans hv
      refine ⟨?_, hheld⟩
      rw [CountsVectors, hheld, hR.count hx (n := 0) hv, hv]
    · cases h

/-- Otherwise the vectors are no fewer, and counted as they should be once they are counted again. -/
theorem Counting.addArrays_ok (hR : Counting R c)
    (h : R.addArrays n indptr indices values x = (x', .ok ())) :
    (c x').countAgain.CountsVectors ∧ (c x).held ≤ (c x').countAgain.held := by
  unfold RowAdder.addArrays at h
  rcases hstart : R.start x with ⟨x₀, e'⟩ | v
  · rw [hstart] at h
    cases h
  · rw [hstart] at h
    dsimp only at h
    split at h
    · cases h
    · rename_i v' hadd
      obtain ⟨rfl, -⟩ := Prod.mk.inj h
      obtain ⟨hagain, hsame⟩ := hR.again x v' n.toNat
      refine ⟨hagain, ?_⟩
      rw [hsame, ← hR.start hstart]
      exact SparseVectors.le_numVectors_addVectors hadd

/-- Rows are counted as they are added. -/
theorem Counting.addRows_ok (hR : Counting R c) {rows : List (SparseRow F)}
    (h : R.addRows x rows = (x', .ok ())) (hx : (c x).CountsVectors) :
    (c x').CountsVectors ∧ (c x').held = (c x).held + rows.length := by
  obtain ⟨v, hstart, rfl⟩ := RowAdder.start_of_addRows h
  have hcount : (v.appendRows (encodeRows R.encode rows)).numVectors
      = (c x).held + rows.length := by
    rw [SparseVectors.numVectors_appendRows, hR.start hstart, length_encodeRows]
  have hheld := hR.held x (v.appendRows (encodeRows R.encode rows)) rows.length
  exact ⟨(hR.count hx hcount).trans hheld.symm, hheld.trans hcount⟩

theorem Counting.addRows_error (hR : Counting R c) {rows : List (SparseRow F)} {e : Exception}
    (h : R.addRows x rows = (x', .error e)) (hx : (c x).CountsVectors) :
    (c x').CountsVectors ∧ (c x').held = (c x).held := by
  unfold RowAdder.addRows at h
  rcases hstart : R.start x with ⟨x₀, e'⟩ | v
  · rw [hstart] at h
    obtain ⟨rfl, -⟩ := Prod.mk.inj h
    exact hR.refused hstart hx
  · rw [hstart] at h
    cases h

end Adding

section Types

variable [Ring F] {x x' : PlainIndex F} {n : ℤ} {indptr indices : List ℕ} {values : List F}

/-- **Every type adds in one way**, which counts. -/
theorem exists_adder (x : PlainIndex F) :
    ∃ (σ V : Type) (R : RowAdder σ F V) (c : σ → PlainIndex F) (s : σ), x = c s ∧ Counting R c ∧
      (∀ s', (c s').kind = x.kind) ∧
      (∀ n indptr indices values,
        x.addArrays n indptr indices values = (R.addArrays n indptr indices values s).map c id) ∧
      ∀ rows, x.addRows rows = (R.addRows s rows).map c id := by
  cases x with
  | brutal s =>
      exact ⟨_, _, _, _, s, rfl, counting_brutal, fun _ => rfl, fun _ _ _ _ => rfl,
        fun _ => rfl⟩
  | inverted s =>
      exact ⟨_, _, _, _, s, rfl, counting_inverted, fun _ => rfl, fun _ _ _ _ => rfl,
        fun _ => rfl⟩
  | seismic s =>
      exact ⟨_, _, _, _, s, rfl, counting_seismic _, fun _ => rfl, fun _ _ _ _ => rfl,
        fun _ => rfl⟩
  | seismicSQ sq s =>
      exact ⟨_, _, _, _, s, rfl, counting_seismicSQ _ sq, fun _ => rfl, fun _ _ _ _ => rfl,
        fun _ => rfl⟩
  | diskSeismic s =>
      exact ⟨_, _, _, _, s, rfl, counting_diskSeismic _, fun _ => rfl, fun _ _ _ _ => rfl,
        fun _ => rfl⟩
  | diskSeismicSQ sq s =>
      exact ⟨_, _, _, _, s, rfl, counting_diskSeismicSQ _ sq, fun _ => rfl, fun _ _ _ _ => rfl,
        fun _ => rfl⟩

theorem addArrays_error {e : Exception}
    (h : x.addArrays n indptr indices values = (x', .error e)) (hx : x.CountsVectors) :
    x'.CountsVectors ∧ x'.held = x.held := by
  obtain ⟨σ, V, R, c, s, rfl, hR, -, harrays, -⟩ := exists_adder x
  rw [harrays] at h
  rcases hadd : R.addArrays n indptr indices values s with ⟨s', result⟩
  rw [hadd] at h
  obtain ⟨rfl, rfl⟩ := Prod.mk.inj h
  exact hR.addArrays_error hadd hx

theorem addArrays_ok (h : x.addArrays n indptr indices values = (x', .ok ())) :
    x'.countAgain.CountsVectors ∧ x.held ≤ x'.countAgain.held := by
  obtain ⟨σ, V, R, c, s, rfl, hR, -, harrays, -⟩ := exists_adder x
  rw [harrays] at h
  rcases hadd : R.addArrays n indptr indices values s with ⟨s', result⟩
  rw [hadd] at h
  obtain ⟨rfl, rfl⟩ := Prod.mk.inj h
  exact hR.addArrays_ok hadd

theorem addRows_ok {rows : List (SparseRow F)} (h : x.addRows rows = (x', .ok ()))
    (hx : x.CountsVectors) : x'.CountsVectors ∧ x'.held = x.held + rows.length := by
  obtain ⟨σ, V, R, c, s, rfl, hR, -, -, hrows⟩ := exists_adder x
  rw [hrows] at h
  rcases hadd : R.addRows s rows with ⟨s', result⟩
  rw [hadd] at h
  obtain ⟨rfl, rfl⟩ := Prod.mk.inj h
  exact hR.addRows_ok hadd hx

theorem addRows_error {rows : List (SparseRow F)} {e : Exception}
    (h : x.addRows rows = (x', .error e)) (hx : x.CountsVectors) :
    x'.CountsVectors ∧ x'.held = x.held := by
  obtain ⟨σ, V, R, c, s, rfl, hR, -, -, hrows⟩ := exists_adder x
  rw [hrows] at h
  rcases hadd : R.addRows s rows with ⟨s', result⟩
  rw [hadd] at h
  obtain ⟨rfl, rfl⟩ := Prod.mk.inj h
  exact hR.addRows_error hadd hx

/-- Arguments that are refused change nothing. -/
theorem add_of_refused {a : CsrArgs F} {e : Exception} (h : a.checked = .error e) :
    x.add a = (x, .error e) := by
  cases x with
  | brutal s => simp only [add, BrutalIndex.add, h, Prod.map, id]
  | inverted s => simp only [add, InvertedIndex.add, h, Prod.map, id]
  | seismic s =>
      simp only [add, SeismicIndex.addOrKeep, SeismicIndex.add, h, bind, Except.bind, Prod.map, id]
  | seismicSQ sq s =>
      simp only [add, SeismicIndex.addOrKeep, SeismicIndex.add, h, bind, Except.bind, Prod.map, id]
  | diskSeismic s => simp only [add, DiskSeismicIndex.add, h, Prod.map, id]
  | diskSeismicSQ sq s => simp only [add, DiskSeismicIndex.add, h, Prod.map, id]

/-- What an `add` does to the count. -/
theorem add_counts (a : CsrArgs F) (hx : x.CountsVectors) :
    (x.add a).1.CountsVectors ∧ x.held ≤ (x.add a).1.held ∧
      ((x.add a).2 = .ok () → (x.add a).1.held = x.held + a.n.toNat) := by
  rcases hargs : a.checked with e | ⟨indptr, indices, values⟩
  · rw [add_of_refused hargs]
    exact ⟨hx, le_rfl, nofun⟩
  · have ha : a.Accepted := ⟨_, hargs⟩
    rw [(addsRows.reads trivial ha).1]
    have hlen : a.rows.length = a.n.toNat := CsrArgs.length_rows_of_checked hargs
    rcases hadd : x.addRows a.rows with ⟨x', e | ⟨⟨⟩⟩⟩
    · obtain ⟨hcounts, hheld⟩ := addRows_error hadd hx
      exact ⟨hcounts, hheld.ge, nofun⟩
    · obtain ⟨hcounts, hheld⟩ := addRows_ok hadd hx
      exact ⟨hcounts, hheld ▸ Nat.le_add_right _ _, fun _ => hlen ▸ hheld⟩

/-! What was built or added to is an index of the same type. -/

theorem kind_addArrays : (x.addArrays n indptr indices values).1.kind = x.kind := by
  obtain ⟨σ, V, R, c, s, rfl, -, hkind, harrays, -⟩ := exists_adder x
  rw [harrays]
  exact hkind _

theorem kind_add (a : CsrArgs F) : (x.add a).1.kind = x.kind := by
  rcases hargs : a.checked with e | arrays
  · rw [add_of_refused hargs]
  · rw [(addsRows.reads trivial ⟨arrays, hargs⟩).1]
    obtain ⟨σ, V, R, c, s, rfl, -, hkind, -, hrows⟩ := exists_adder x
    rw [hrows]
    exact hkind _

theorem kind_build (env : SpillEnv) (rng : Rng) (sort : StdSort) (entropy : ℕ) :
    (x.build env rng sort entropy).1.kind = x.kind := by
  cases x with
  | brutal s => rfl
  | inverted s => rfl
  | seismic s => rfl
  | seismicSQ sq s => rfl
  | diskSeismic s => rfl
  | diskSeismicSQ sq s => rfl

omit [Ring F] in
theorem kind_borrowVectors (vectors : SparseVectors Code) :
    (x.borrowVectors vectors).kind = x.kind := by
  cases x with
  | brutal s => rfl
  | inverted s => rfl
  | seismic s => rfl
  | seismicSQ sq s => rfl
  | diskSeismic s => rfl
  | diskSeismicSQ sq s => rfl

omit [Ring F] in
theorem kind_countAgain : x.countAgain.kind = x.kind := by
  cases x with
  | brutal s => rfl
  | inverted s => rfl
  | seismic s => rfl
  | seismicSQ sq s => rfl
  | diskSeismic s => rfl
  | diskSeismicSQ sq s => rfl

/-- A build counts the vectors, and an inverted index has none left then. -/
theorem build_counts (env : SpillEnv) (rng : Rng) (sort : StdSort) (entropy : ℕ)
    (hx : x.CountsVectors) :
    (x.build env rng sort entropy).1.numVectors = x.numVectors ∧
      (x.kind ≠ .inverted → (x.build env rng sort entropy).1.CountsVectors) := by
  cases x with
  | brutal s => exact ⟨rfl, fun _ => hx⟩
  | inverted s =>
      refine ⟨?_, fun hne => absurd rfl hne⟩
      show (s.build).1.numVectors = s.numVectors
      unfold InvertedIndex.build
      split
      · rfl
      · rename_i vectors hvectors
        have hcount : vectors.numVectors = s.numVectors := by
          have hheld : s.numVectors = s.vectors.elim 0 SparseVectors.numVectors := hx
          rw [hheld, hvectors]
          rfl
        dsimp only
        split
        · exact hcount
        · exact hcount
  | seismic s =>
      have hvectors := (SeismicIndex.build_vectors (x := s) env rng sort entropy).1
      exact ⟨congrArg (fun v => Option.elim v 0 SparseVectors.numVectors) hvectors, fun _ => rfl⟩
  | seismicSQ sq s =>
      have hvectors := (SeismicIndex.build_vectors (x := s) env rng sort entropy).1
      exact ⟨congrArg (fun v => Option.elim v 0 SparseVectors.numVectors) hvectors, fun _ => rfl⟩
  | diskSeismic s =>
      have hvectors := (SeismicIndex.build_vectors (x := s.toSeismicIndex) env rng sort entropy).1
      exact ⟨rfl, fun _ => hx.trans
        (congrArg (fun v => Option.elim v 0 SparseVectors.numVectors) hvectors).symm⟩
  | diskSeismicSQ sq s =>
      have hvectors := (SeismicIndex.build_vectors (x := s.toSeismicIndex) env rng sort entropy).1
      exact ⟨rfl, fun _ => hx.trans
        (congrArg (fun v => Option.elim v 0 SparseVectors.numVectors) hvectors).symm⟩

omit [Ring F] in
/-- A corpus that is borrowed is counted. -/
theorem borrowVectors_counts (vectors : SparseVectors Code) (hx : x.CountsVectors)
    (hnone : x.hasVectors = false) : (x.borrowVectors vectors).countAgain.CountsVectors ∧
      x.held ≤ (x.borrowVectors vectors).countAgain.held := by
  have hempty : ∀ {V : Type} {v : Option (SparseVectors V)}, v.isSome = false →
      v.elim 0 SparseVectors.numVectors = 0 := by
    intro V v h
    cases v with
    | none => rfl
    | some v => cases h
  cases x with
  | brutal s => exact ⟨hx, le_rfl⟩
  | inverted s => exact ⟨rfl, (hempty hnone).trans_le (Nat.zero_le _)⟩
  | seismic s => exact ⟨rfl, (hempty hnone).trans_le (Nat.zero_le _)⟩
  | seismicSQ sq s => exact ⟨rfl, (hempty hnone).trans_le (Nat.zero_le _)⟩
  | diskSeismic s => exact ⟨rfl, (hempty hnone).trans_le (Nat.zero_le _)⟩
  | diskSeismicSQ sq s => exact ⟨rfl, (hempty hnone).trans_le (Nat.zero_le _)⟩

end Types

end PlainIndex

/-! ### Files -/

/-- An index, and whether its vectors are borrowed from a mapped CSR file. -/
structure ResidentIndex (F : Type) [LT F] [FloatFormat F] where
  index : PlainIndex F
  borrows : Bool

namespace ResidentIndex

/-- What a borrowed buffer throws when it should grow. -/
def cannotGrow : Exception :=
  .logicError "Buf does not own a vector: borrowed and mapped buffers cannot grow"

variable [Ring F] [LinearOrder F] [FloatFormat F]

def add (x : ResidentIndex F) (a : CsrArgs F) : ResidentIndex F × Except Exception Unit :=
  if x.borrows then
    match a.checked with
    | .error e => (x, .error e)
    | .ok _ => (x, .error cannotGrow)
  else (x.index.add a).map (fun index => { x with index }) id

/-- Building an inverted index closes the mapping. -/
def build (env : SpillEnv) (rng : Rng) (sort : StdSort) (entropy : ℕ) (x : ResidentIndex F) :
    ResidentIndex F × Except Exception Unit :=
  let (index, result) := x.index.build env rng sort entropy
  (⟨index, x.borrows && index.hasVectors⟩, result)

/-- `Index::read_csr`.  `nullData` says whether `data()` of an empty vector is a null pointer. -/
def readInMemory (nullData : Bool) (x : ResidentIndex F) (csr : NamedFile) :
    ResidentIndex F × Except Exception Unit :=
  match csr with
  | .null => (x, .error (.invalidArgument "file_path must not be null"))
  | .missing path => (x, .error (.invalidArgument s!"CSR file does not exist: {path}"))
  | .unreadable path => (x, .error (.runtimeError s!"Cannot open CSR file: {path}"))
  | .file path bytes =>
      match parseCsr path x.index.dimension ⟨bytes, 0⟩ with
      | .error e => (x, .error e)
      | .ok ((n, indptr, indices, values), _) =>
          if n ≤ 0 then (x, .error (.invalidArgument notPositiveMsg))
          else if nullData ∧ (indptr = [] ∨ indices = [] ∨ values = []) then
            (x, .error (.invalidArgument nullMsg))
          else if x.borrows then (x, .error cannotGrow)
          else
            (x.index.addArrays n indptr indices (values.map FloatFormat.ofBits)).map
              (fun index => { x with index }) id

/-- `read_mcsr`. -/
def readMcsr (x : ResidentIndex F) (csr : NamedFile) : ResidentIndex F × Except Exception Unit :=
  match csr with
  | .null => (x, .error (.invalidArgument "file_path must not be null"))
  | csr =>
      if x.index.hasVectors then (x, .error (.runtimeError "mmap index already has vectors"))
      else
        match csr with
        | .null => (x, .error (.invalidArgument "file_path must not be null"))
        | .missing path => (x, .error (.invalidArgument s!"CSR file does not exist: {path}"))
        | .unreadable path => (x, .error (.runtimeError s!"mmap: failed to open {path}"))
        | .file path bytes =>
            match Nsparse.readMcsr path x.index.dimension x.index.codeElementSize ⟨bytes, 0⟩ with
            | .error e => (x, .error e)
            | .ok (vectors, _) => (⟨x.index.borrowVectors vectors, true⟩, .ok ())

/-- Count again, unless an exception was thrown. -/
def counted : ResidentIndex F × Except Exception Unit → ResidentIndex F × Except Exception Unit
  | (x, .error e) => (x, .error e)
  | (x, .ok ()) => ({ x with index := x.index.countAgain }, .ok ())

/-- `read_csr`, which `BrutalIndex` has from `Index` and the others from `MmapIndex`. -/
def readCsr (nullData : Bool) (x : ResidentIndex F) (csr : NamedFile) (residency : Residency) :
    ResidentIndex F × Except Exception Unit :=
  counted <|
    match x.index, residency with
    | .brutal _, _ => x.readInMemory nullData csr
    | _, .kInMemory => x.readInMemory nullData csr
    | _, .kMmap => x.readMcsr csr

/-- Any index as one that reads files, whatever answers the searches. -/
def asIndex {P : Type} (env : SpillEnv) (rng : Rng) (sort : StdSort) (entropy : ℕ) (nullData : Bool)
    (search : ResidentIndex F → ℤ → List ℕ → List ℕ → List F → ℤ → Option P → Option IDSelector →
      Option (Except Exception (List (List F) × List (List ℤ)))) :
    FileIndex (ResidentIndex F) F P where
  add := add
  build := build env rng sort entropy
  numVectors x := x.index.numVectors
  search := search
  readCsr := readCsr nullData

/-! ### Counting over files -/

variable {x : ResidentIndex F}

theorem add_counts (a : CsrArgs F) (hx : x.index.CountsVectors) :
    (x.add a).1.index.CountsVectors ∧ x.index.held ≤ (x.add a).1.index.held ∧
      ((x.add a).2 = .ok () → (x.add a).1.index.held = x.index.held + a.n.toNat) := by
  unfold add
  split
  · split
    · exact ⟨hx, le_rfl, nofun⟩
    · exact ⟨hx, le_rfl, nofun⟩
  · exact PlainIndex.add_counts a hx

/-- What a read leaves, once it is counted: at least the vectors that were there. -/
def Counts (x : ResidentIndex F) (read : ResidentIndex F × Except Exception Unit) : Prop :=
  (counted read).1.index.CountsVectors ∧ x.index.held ≤ (counted read).1.index.held

theorem readInMemory_counts (nullData : Bool) (csr : NamedFile) (hx : x.index.CountsVectors) :
    x.Counts (x.readInMemory nullData csr) := by
  have hsame : ∀ e, x.Counts (x, .error e) := fun e => ⟨hx, le_rfl⟩
  unfold readInMemory
  split
  · exact hsame _
  · exact hsame _
  · exact hsame _
  split
  · exact hsame _
  split
  · exact hsame _
  split
  · exact hsame _
  split
  · exact hsame _
  rename_i n indptr indices values _ _ _ _ _
  rcases hadd : x.index.addArrays n indptr indices (values.map FloatFormat.ofBits)
    with ⟨index, e | ⟨⟨⟩⟩⟩
  · obtain ⟨hcounts, hheld⟩ := PlainIndex.addArrays_error hadd hx
    exact ⟨hcounts, hheld.ge⟩
  · exact PlainIndex.addArrays_ok hadd

omit [Ring F] in
theorem readMcsr_counts (csr : NamedFile) (hx : x.index.CountsVectors) :
    x.Counts (x.readMcsr csr) := by
  have hsame : ∀ e, x.Counts (x, .error e) := fun e => ⟨hx, le_rfl⟩
  unfold readMcsr
  split
  · exact hsame _
  split
  · exact hsame _
  rename_i hnone
  split
  · exact hsame _
  · exact hsame _
  · exact hsame _
  split
  · exact hsame _
  · rename_i vectors _ _
    exact PlainIndex.borrowVectors_counts vectors hx (Bool.not_eq_true _ ▸ hnone)

theorem readCsr_counts (nullData : Bool) (csr : NamedFile) (residency : Residency)
    (hx : x.index.CountsVectors) : (x.readCsr nullData csr residency).1.index.CountsVectors ∧
      x.index.held ≤ (x.readCsr nullData csr residency).1.index.held := by
  show x.Counts _
  split
  · exact readInMemory_counts nullData csr hx
  · exact readInMemory_counts nullData csr hx
  · exact readMcsr_counts csr hx

theorem kind_add (a : CsrArgs F) : (x.add a).1.index.kind = x.index.kind := by
  unfold add
  split
  · split
    · rfl
    · rfl
  · exact PlainIndex.kind_add a

omit [Ring F] in
theorem kind_counted (read : ResidentIndex F × Except Exception Unit) :
    (counted read).1.index.kind = read.1.index.kind := by
  rcases read with ⟨y, e | ⟨⟨⟩⟩⟩
  · rfl
  · exact PlainIndex.kind_countAgain

theorem kind_readInMemory (nullData : Bool) (csr : NamedFile) :
    (x.readInMemory nullData csr).1.index.kind = x.index.kind := by
  unfold readInMemory
  split
  · rfl
  · rfl
  · rfl
  split
  · rfl
  split
  · rfl
  split
  · rfl
  split
  · rfl
  · exact PlainIndex.kind_addArrays

omit [Ring F] in
theorem kind_readMcsr (csr : NamedFile) : (x.readMcsr csr).1.index.kind = x.index.kind := by
  unfold readMcsr
  split
  · rfl
  split
  · rfl
  split
  · rfl
  · rfl
  · rfl
  split
  · rfl
  · exact PlainIndex.kind_borrowVectors _

theorem kind_readCsr (nullData : Bool) (csr : NamedFile) (residency : Residency) :
    (x.readCsr nullData csr residency).1.index.kind = x.index.kind := by
  unfold readCsr
  rw [kind_counted]
  split
  · exact kind_readInMemory nullData csr
  · exact kind_readInMemory nullData csr
  · exact kind_readMcsr csr

variable {P : Type} {env : SpillEnv} {rng : Rng} {sort : StdSort} {entropy : ℕ} {nullData : Bool}
  {search : ResidentIndex F → ℤ → List ℕ → List ℕ → List F → ℤ → Option P → Option IDSelector →
    Option (Except Exception (List (List F) × List (List ℤ)))}

/-- **Every index type counts**, and an inverted one until it is built. -/
theorem countsRows (env : SpillEnv) (rng : Rng) (sort : StdSort) (entropy : ℕ) (nullData : Bool)
    (search : ResidentIndex F → ℤ → List ℕ → List ℕ → List F → ℤ → Option P → Option IDSelector →
      Option (Except Exception (List (List F) × List (List ℤ)))) :
    IDMapIndex.CountsRows (asIndex env rng sort entropy nullData search)
      fun x => x.index.CountsVectors where
  added {x} args hx hok := by
    obtain ⟨hcounts, -, hadded⟩ := add_counts args hx
    show (x.add args).1.index.numVectors = x.index.numVectors + args.n.toNat
    rw [hcounts, hx]
    exact hadded hok
  add {x} args hx := by
    obtain ⟨hcounts, hle, -⟩ := add_counts args hx
    refine ⟨hcounts, ?_⟩
    show x.index.numVectors ≤ (x.add args).1.index.numVectors
    rwa [hcounts, hx]
  readCsr {x} csr residency hx := by
    obtain ⟨hcounts, hle⟩ := readCsr_counts nullData csr residency hx
    refine ⟨hcounts, ?_⟩
    show x.index.numVectors ≤ (x.readCsr nullData csr residency).1.index.numVectors
    rwa [hcounts, hx]
  build hx := (PlainIndex.build_counts env rng sort entropy hx).1.ge

/-- An index that can be built again and again. -/
def Rebuilds (x : ResidentIndex F) : Prop := x.index.CountsVectors ∧ x.index.kind ≠ .inverted

/-- **Every type but the inverted one** counts through its builds. -/
theorem rebuilds_countsRows (env : SpillEnv) (rng : Rng) (sort : StdSort) (entropy : ℕ)
    (nullData : Bool)
    (search : ResidentIndex F → ℤ → List ℕ → List ℕ → List F → ℤ → Option P → Option IDSelector →
      Option (Except Exception (List (List F) × List (List ℤ)))) :
    IDMapIndex.CountsRows (asIndex env rng sort entropy nullData search) Rebuilds where
  added args hx hok := (countsRows env rng sort entropy nullData search).added args hx.1 hok
  add {x} args hx := by
    obtain ⟨hcounts, hle⟩ := (countsRows env rng sort entropy nullData search).add args hx.1
    exact ⟨⟨hcounts, (kind_add args).trans_ne hx.2⟩, hle⟩
  readCsr {x} csr residency hx := by
    obtain ⟨hcounts, hle⟩ := (countsRows env rng sort entropy nullData search).readCsr csr
      residency hx.1
    exact ⟨⟨hcounts, (kind_readCsr nullData csr residency).trans_ne hx.2⟩, hle⟩
  build hx := (countsRows env rng sort entropy nullData search).build hx.1

theorem Rebuilds.build (hx : x.Rebuilds) (env : SpillEnv) (rng : Rng) (sort : StdSort)
    (entropy : ℕ) : (x.build env rng sort entropy).1.Rebuilds :=
  ⟨(PlainIndex.build_counts env rng sort entropy hx.1).2 hx.2,
    (PlainIndex.kind_build env rng sort entropy).trans_ne hx.2⟩

/-- Calls on an id map over an index of this type that keep its count: none of them loads another
index, and an inverted index is built once, at the end. -/
structure KeepsCount (x : ResidentIndex F) (calls : List (IDMapIndex.MapCall (ResidentIndex F) F)) :
    Prop where
  grows : ∀ c ∈ calls, IDMapIndex.Grows c
  builds : x.index.kind = .inverted → IDMapIndex.BuildsLast calls

/-- **Ids of a corpus.**  Whatever is added to an id map over an index, with ids or without, read into
it in either residency, or built, the maps agree with what the caller said of the rows exactly when
he gave every row an id of its own. -/
theorem agrees_iff_identified (env : SpillEnv) (rng : Rng) (sort : StdSort) (entropy : ℕ)
    (nullData : Bool)
    (search : ResidentIndex F → ℤ → List ℕ → List ℕ → List F → ℤ → Option P → Option IDSelector →
      Option (Except Exception (List (List F) × List (List ℤ))))
    (x : ResidentIndex F) (hx : x.index.CountsVectors)
    (calls : List (IDMapIndex.MapCall (ResidentIndex F) F)) (hcalls : x.KeepsCount calls)
    (hfew : (((IDMapIndex.new x).after (asIndex env rng sort entropy nullData search)
      calls).delegate).index.numVectors < 2 ^ 31) :
    let I := asIndex env rng sort entropy nullData search
    let rows := IDMapIndex.rowIds I (.new x) (IDMapIndex.withRows x.index.numVectors []) calls
    ((IDMapIndex.new x).after I calls).Agrees I rows ↔ Identified rows := by
  intro I rows
  have hcount : (IDMapIndex.withRows x.index.numVectors []).length = x.index.numVectors :=
    IDMapIndex.length_withRows (Nat.zero_le _)
  have hsteady : IDMapIndex.Steady I (.new x) (IDMapIndex.withRows x.index.numVectors []) calls := by
    by_cases hkind : x.index.kind = .inverted
    · exact (countsRows env rng sort entropy nullData search).steady_buildsLast
        (hcalls.builds hkind) hx hcount
    · exact (rebuilds_countsRows env rng sort entropy nullData search).steady
        (fun h => h.build env rng sort entropy) hcalls.grows ⟨hx, hkind⟩ hcount
  exact IDMapIndex.run_agrees_iff I x calls hsteady hfew

/-! ### One document added, and one read -/

/-- A CSR file of one document, which has the term 0. -/
def oneRowFile : Bytes :=
  CsrLayout.headerCodec.enc ⟨1, 1, 1⟩ ++ offsetCodec.encAll [0, 1] ++
    CsrLayout.intCodec.enc 0 ++ [0, 0, 128, 63]

/-- A brute-force index under an id map takes the first document with the id 70; with the second comes
a file that gives them the ids 70 and 80. -/
def twoIds : List (IDMapIndex.MapCall (ResidentIndex ℤ) ℤ) :=
  [.addWithIds (oneDocumentAs 70),
    .readCsrAndIds (.file "rows" oneRowFile) (.file "ids" (idFile [70, 80])) .kInMemory]

theorem agrees_iff_identified_two_ids :
    let I := asIndex (P := Unit) SeismicIndex.calmEnv countingRng insertionSort 0 true
      fun (_ : ResidentIndex ℤ) _ _ _ _ _ _ _ => none
    ((IDMapIndex.new ⟨.brutal (.new 1), false⟩).after I twoIds).Agrees I [some 70, some 80] := by
  intro I
  have hrows : IDMapIndex.rowIds I (.new ⟨.brutal (.new 1), false⟩) (IDMapIndex.withRows 0 []) twoIds
      = [some 70, some 80] := by decide +kernel
  have hagrees := (agrees_iff_identified (P := Unit) SeismicIndex.calmEnv countingRng insertionSort 0
    true (fun (_ : ResidentIndex ℤ) _ _ _ _ _ _ _ => none) ⟨.brutal (.new 1), false⟩ rfl twoIds
    ⟨by simp [twoIds, IDMapIndex.Grows], nofun⟩ (by decide +kernel)).mpr
  rw [← hrows]
  apply hagrees
  exact ⟨[70, 80], by decide, hrows⟩

end ResidentIndex

end Nsparse
