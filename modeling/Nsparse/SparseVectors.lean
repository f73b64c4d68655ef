/-
Nsparse/SparseVectors.lean

Sparse vectors in CSR form: `indptr`, `indices`, `values`.

`V` is the type of a stored value: a score for the float indexes, a byte code for
the quantizing ones.  The facts that later modules use are about `rows`, the list
of documents as term/value pairs: `addVectors` appends the rows of its argument
(`rows_addVectors`) and keeps the layout well formed (`addVectors_wellFormed`).

`CsrArgs` is what the public calls receive: three pointers and a row count, with
what every caller promises about them when none is null.
-/
import Nsparse.Lib.Csr
import Nsparse.Types

namespace Nsparse

variable {V : Type}

/-- The `SparseVectorsConfig` and the three buffers. -/
structure SparseVectors (V : Type) where
  elementSize : ℕ
  dimension : ℕ
  indptr : List ℕ
  indices : List ℕ
  values : List V
  deriving Repr, DecidableEq

/-- A document: its terms with their values, in stored order. -/
abbrev SparseRow (V : Type) := List (ℕ × V)

namespace SparseVectors

/-- The constructor rejects a dimension of zero. -/
def new (elementSize dimension : ℕ) : Except Exception (SparseVectors V) :=
  if dimension = 0 then .error (.invalidArgument notPositiveMsg)
  else .ok ⟨elementSize, dimension, [], [], []⟩

def numVectors (v : SparseVectors V) : ℕ :=
  if v.indptr = [] then 0 else v.indptr.length - 1

/-- Append `indptr.length - 1` rows, rebasing their offsets onto what is stored. -/
def addVectors (v : SparseVectors V) (indptr : List ℕ) (indices : List ℕ) (weights : List V) :
    Except Exception (SparseVectors V) :=
  if indices.length ≠ weights.length then
    .error (.invalidArgument "Indices and weights must have the same size")
  else if indptr.length < 2 then .ok v
  else
    let indptrVec := if v.indptr = [] then [0] else v.indptr
    let offset := indptrVec.getLast?.getD 0
    .ok { v with
      indptr := indptrVec ++ indptr.tail.map (· + offset)
      indices := v.indices ++ indices
      values := v.values ++ weights }

/-- Append one row. -/
def addVector (v : SparseVectors V) (indices : List ℕ) (weights : List V) : SparseVectors V :=
  let indptrVec := if v.indptr = [] then [0] else v.indptr
  let offset := indptrVec.getLast?.getD 0
  { v with
    indptr := indptrVec ++ [offset + indices.length]
    indices := v.indices ++ indices
    values := v.values ++ weights }

/-- The stored term/value pairs, row after row. -/
def entries (v : SparseVectors V) : List (ℕ × V) := v.indices.zip v.values

/-- Entries `indptr[i]` to `indptr[i + 1]`. -/
def row (v : SparseVectors V) (i : ℕ) : SparseRow V := Csr.row v.indptr v.entries i

/-- The documents. -/
def rows (v : SparseVectors V) : List (SparseRow V) := Csr.rows v.indptr v.entries

/-! ### Well-formed layouts -/

/-- Either nothing is stored, or the offsets cover the indices and every index has a value. -/
structure WellFormed (v : SparseVectors V) : Prop where
  paired : v.indices.length = v.values.length
  empty : v.indptr = [] → v.indices = []
  offsets : v.indptr ≠ [] → Csr.Offsets v.indptr v.indices.length

theorem WellFormed.length_entries {v : SparseVectors V} (h : v.WellFormed) :
    v.entries.length = v.indices.length := by
  rw [entries, List.length_zip, ← h.paired, min_self]

@[simp] theorem length_rows (v : SparseVectors V) : v.rows.length = v.numVectors := by
  unfold rows numVectors
  split <;> simp [*]

theorem numVectors_eq (v : SparseVectors V) : v.numVectors = v.indptr.length - 1 := by
  unfold numVectors
  split <;> simp [*]

theorem rows_eq_map_row (v : SparseVectors V) :
    v.rows = (List.range v.numVectors).map v.row := by
  rw [numVectors_eq]
  rfl

theorem zipIdx_rows (v : SparseVectors V) :
    v.rows.zipIdx 0 = (List.range v.numVectors).map fun i => (v.row i, i) := by
  rw [rows_eq_map_row]
  exact List.ext_getElem (by simp) fun i _ _ => by simp

/-- The last offset is the number of entries. -/
theorem WellFormed.getD_numVectors {v : SparseVectors V} (h : v.WellFormed) :
    v.indptr.getD v.numVectors 0 = v.indices.length := by
  by_cases hnil : v.indptr = []
  · rw [h.empty hnil, hnil]
    rfl
  · have hlast := (h.offsets hnil).last
    rw [List.getLast?_eq_getElem?, ← numVectors_eq] at hlast
    rw [List.getD_eq_getElem?_getD, hlast, Option.getD_some]

/-- The rows make up the entries. -/
theorem WellFormed.flatten_rows {v : SparseVectors V} (h : v.WellFormed) :
    v.rows.flatten = v.entries := by
  by_cases hnil : v.indptr = []
  · simp [rows, Csr.rows, entries, hnil, h.empty hnil]
  · exact Csr.flatten_rows (by rw [h.length_entries]; exact h.offsets hnil)

theorem WellFormed.map_fst_entries {v : SparseVectors V} (h : v.WellFormed) :
    v.entries.map Prod.fst = v.indices := List.map_fst_zip h.paired.le

theorem WellFormed.map_snd_entries {v : SparseVectors V} (h : v.WellFormed) :
    v.entries.map Prod.snd = v.values := List.map_snd_zip h.paired.ge

theorem new_wellFormed {es dim : ℕ} {v : SparseVectors V} (h : new es dim = .ok v) :
    v.WellFormed ∧ v.rows = [] ∧ v.dimension = dim ∧ v.elementSize = es := by
  unfold new at h
  split at h
  · cases h
  · cases h
    exact ⟨⟨rfl, fun _ => rfl, fun h => absurd rfl h⟩, rfl, rfl, rfl⟩

theorem addVectors_eq_ok {v v' : SparseVectors V} {indptr indices : List ℕ} {weights : List V}
    (hv : v.WellFormed) (ho : Csr.Offsets indptr indices.length)
    (h : v.addVectors indptr indices weights = .ok v') :
    v'.WellFormed ∧ v'.rows = v.rows ++ Csr.rows indptr (indices.zip weights) ∧
      v'.dimension = v.dimension ∧ v'.elementSize = v.elementSize := by
  unfold addVectors at h
  split at h
  · cases h
  · rename_i hlen
    have hlen : indices.length = weights.length := not_not.mp hlen
    split at h
    · rename_i hshort
      cases h
      have hrows : Csr.rows indptr (indices.zip weights) = [] :=
        List.eq_nil_of_length_eq_zero (by rw [Csr.length_rows]; omega)
      exact ⟨hv, by rw [hrows, List.append_nil], rfl, rfl⟩
    · cases h
      have hpre : Csr.Offsets (if v.indptr = [] then [0] else v.indptr) v.indices.length := by
        split
        · rename_i hnil
          rw [hv.empty hnil]
          exact ⟨rfl, List.pairwise_singleton _ _, rfl⟩
        · exact hv.offsets ‹_›
      have hrows : v.rows
          = Csr.rows (if v.indptr = [] then [0] else v.indptr) v.entries := by
        split
        · rename_i hnil
          simp [rows, Csr.rows, hnil]
        · rfl
      have hlast : (if v.indptr = [] then [0] else v.indptr).getLast?.getD 0
          = v.indices.length := by rw [hpre.last, Option.getD_some]
      have hentries : (v.indices ++ indices).zip (v.values ++ weights)
          = v.entries ++ indices.zip weights := List.zip_append hv.paired
      have hcat := Csr.offsets_valid_append hpre ho
      refine ⟨⟨?_, ?_, ?_⟩, ?_, rfl, rfl⟩
      · simp [hv.paired, hlen]
      · intro hnil
        have := hpre.last
        simp only [List.append_eq_nil_iff] at hnil
        rw [hnil.1] at this
        cases this
      · intro _
        dsimp only
        rw [hlast, List.length_append]
        exact hcat
      · rw [hrows]
        show Csr.rows _ ((v.indices ++ indices).zip (v.values ++ weights)) = _
        dsimp only
        rw [hentries, hlast, ← hv.length_entries]
        refine Csr.rows_append (by rwa [hv.length_entries]) ?_
        rwa [List.length_zip, ← hlen, min_self]

/-- Every offset but the first ends a row. -/
theorem numVectors_of_addVectors {v v' : SparseVectors V} {indptr indices : List ℕ}
    {weights : List V} (h : v.addVectors indptr indices weights = .ok v') :
    v'.numVectors = v.numVectors + (indptr.length - 1) := by
  rw [numVectors_eq, numVectors_eq]
  unfold addVectors at h
  split at h
  · cases h
  split at h
  · obtain rfl := Except.ok.inj h
    omega
  · obtain rfl := Except.ok.inj h
    dsimp only
    rw [List.length_append, List.length_map, List.length_tail]
    split
    · -- the first rows of all
      rename_i hnil
      rw [hnil, List.length_singleton, List.length_nil]
      omega
    · rename_i hne
      have hpos : 0 < v.indptr.length := List.length_pos_of_ne_nil hne
      omega

/-- One row is appended. -/
theorem addVector_spec {v : SparseVectors V} (hv : v.WellFormed) {indices : List ℕ}
    {weights : List V} (hlen : indices.length = weights.length) :
    (v.addVector indices weights).WellFormed ∧
      (v.addVector indices weights).rows = v.rows ++ [indices.zip weights] := by
  have hoffsets : Csr.Offsets [0, indices.length] indices.length :=
    ⟨rfl, by simp, rfl⟩
  have hadd : v.addVectors [0, indices.length] indices weights
      = .ok (v.addVector indices weights) := by
    rw [addVectors, if_neg (not_not.mpr hlen), if_neg (by simp), addVector]
    simp [add_comm]
  obtain ⟨hwf, hrows, -, -⟩ := addVectors_eq_ok hv hoffsets hadd
  refine ⟨hwf, ?_⟩
  rw [hrows, hlen]
  simp [Csr.rows, Csr.row, ← hlen, List.take_of_length_le]

end SparseVectors

/-! ### What callers pass -/

/-- The arguments of `add`: a row count and three arrays, null or not. -/
structure CsrArgs (V : Type) where
  n : ℤ
  indptr : Option (List ℕ)
  indices : Option (List ℕ)
  values : Option (List V)
  /-- The caller's promise: `n + 1` offsets that cover the other two arrays. -/
  promise : ∀ p is vs, indptr = some p → indices = some is → values = some vs → 0 < n →
    (p.length : ℤ) = n + 1 ∧ Csr.Offsets p is.length ∧ is.length = vs.length

namespace CsrArgs

/-- The rows passed, none when the call cannot read them. -/
def rows (a : CsrArgs V) : List (SparseRow V) :=
  match a.indptr, a.indices, a.values with
  | some p, some is, some vs => if 0 < a.n then Csr.rows p (is.zip vs) else []
  | _, _, _ => []

/-- `throw_if_not_positive(n); throw_if_any_null(indptr, indices, values);` and the three
arrays themselves. -/
def checked (a : CsrArgs V) : Except Exception (List ℕ × List ℕ × List V) :=
  if a.n ≤ 0 then .error (.invalidArgument notPositiveMsg)
  else
    match a.indptr, a.indices, a.values with
    | some p, some is, some vs => .ok (p, is, vs)
    | _, _, _ => .error (.invalidArgument nullMsg)

theorem checked_eq_ok {a : CsrArgs V} {p is : List ℕ} {vs : List V}
    (h : a.checked = .ok (p, is, vs)) :
    0 < a.n ∧ (p.length : ℤ) = a.n + 1 ∧ Csr.Offsets p is.length ∧ is.length = vs.length ∧
      a.rows = Csr.rows p (is.zip vs) ∧ (a.rows.length : ℤ) = a.n := by
  unfold checked at h
  split at h
  · cases h
  · rename_i hn
    have hpos : 0 < a.n := not_le.mp hn
    split at h
    · rename_i p' is' vs' hp his hvs
      cases h
      obtain ⟨hlen, hoff, hpair⟩ := a.promise p is vs hp his hvs hpos
      have hrows : a.rows = Csr.rows p (is.zip vs) := by
        simp [rows, hp, his, hvs, hpos]
      refine ⟨hpos, hlen, hoff, hpair, hrows, ?_⟩
      rw [hrows, Csr.length_rows]
      omega
    · cases h

theorem rows_of_checked_error {a : CsrArgs V} {e : Exception} (h : a.checked = .error e) :
    a.rows = [] := by
  unfold checked at h
  unfold rows
  split at h
  · rename_i hn
    split
    · rw [if_neg (not_lt.mpr hn)]
    · rfl
  · split at h
    · cases h
    · rfl

/-- A batch of one query without terms. -/
def emptyQuery (V : Type) : CsrArgs V where
  n := 1
  indptr := some [0, 0]
  indices := some []
  values := some []
  promise := by
    rintro p is vs ⟨⟩ ⟨⟩ ⟨⟩ -
    exact ⟨rfl, ⟨rfl, by decide, rfl⟩, rfl⟩

end CsrArgs

end Nsparse
