/-
Nsparse/MappedCsr.lean

What a mapped CSR file is allowed to be.

`read_mcsr` compares the size of the file with one it computes from the header, in
64-bit arithmetic that can wrap, and then borrows the arrays behind the cursor's own
checks.  Those checks divide instead of multiplying, so the counts of rows and entries
are already bounded by the file when the sizes are used (`readMcsr_ok`): what is
accepted fills the file exactly, with no sum wrapped.  A file that is refused changes
nothing (`DiskSeismicIndex.readMcsr_fails_closed`).
-/
import Nsparse.DiskBuilt

namespace Nsparse

open Wire CsrLayout

/-! ### The reads of a mapping -/

section Reads

variable {α : Type} {c : Codec α} {data : Bytes} {pos n : ℕ} {c' : Cursor}

theorem readScalar_ok {a : α} (hpos : pos ≤ data.length)
    (h : readScalar c ⟨data, pos⟩ = .ok (a, c')) :
    pos + c.width ≤ data.length ∧ a = c.readAt data pos ∧ c' = ⟨data, pos + c.width⟩ := by
  rw [readScalar] at h
  split at h
  · cases h
  · rename_i hleft
    rw [Cursor.remaining] at hleft
    dsimp only at hleft
    cases h
    exact ⟨by omega, rfl, rfl⟩

theorem readArray_ok {xs : List α} (hwidth : 0 < c.width) (hpos : pos ≤ data.length)
    (h : readArray c n ⟨data, pos⟩ = .ok (xs, c')) :
    pos + n * c.width ≤ data.length ∧ xs = c.arrayAt data pos n ∧
      c' = ⟨data, pos + n * c.width⟩ := by
  rw [readArray] at h
  split at h
  · rename_i hzero
    obtain ⟨rfl, rfl⟩ := Prod.mk.inj (Except.ok.inj h)
    rw [hzero, Nat.zero_mul, Nat.add_zero]
    exact ⟨hpos, rfl, rfl⟩
  split at h
  · cases h
  rename_i hfits
  split at h
  · cases h
  obtain ⟨rfl, rfl⟩ := Prod.mk.inj (Except.ok.inj h)
  have hle : n * c.width ≤ data.length - pos := (Nat.le_div_iff_mul_le hwidth).mp (not_lt.mp hfits)
  exact ⟨by omega, rfl, rfl⟩

theorem skip_ok {bytes : ℕ} (hpos : pos ≤ data.length)
    (h : skip bytes ⟨data, pos⟩ = .ok ((), c')) :
    pos + bytes ≤ data.length ∧ c' = ⟨data, pos + bytes⟩ := by
  rw [skip] at h
  split at h
  · cases h
  · rename_i hleft
    rw [Cursor.remaining] at hleft
    dsimp only at hleft
    cases h
    exact ⟨by omega, rfl⟩

theorem checkNative_ok {path : String} {header : Header} {elementSize : ℕ}
    (h : checkNative path header elementSize ⟨data, pos⟩ = .ok ((), c')) :
    data.length = nativeFileSize (header.numRows.toNat + 1) header.nnz.toNat elementSize ∧
      c' = ⟨data, pos⟩ := by
  rw [checkNative] at h
  split at h
  · cases h
  · rename_i hsize
    cases h
    exact ⟨not_not.mp hsize, rfl⟩

end Reads

/-- Bytes are read as they are. -/
theorem arrayAt_byte {data : Bytes} {pos n : ℕ} (h : pos + n ≤ data.length) :
    Codec.byte.arrayAt data pos n = (data.drop pos).take n := by
  have hlen : ((data.drop pos).take n).length = n := by
    rw [List.length_take, List.length_drop]
    omega
  have hsplit : data.drop pos
      = Codec.byte.encAll ((data.drop pos).take n) ++ (data.drop pos).drop n := by
    rw [Codec.encAll_byte, List.take_append_drop]
  have hfits : ∀ b ∈ (data.drop pos).take n, Codec.byte.Fits b := fun b _ => Codec.fits_byte b
  have hread := Codec.byte.decAll_encAll hfits ((data.drop pos).drop n)
  rw [← hsplit, hlen] at hread
  exact hread

/-- The values begin behind the padding where no sum wraps. -/
theorem nativeValuesOffset_eq {indptrSize nnz : ℕ}
    (h : 24 + indptrSize * 8 + nnz * 2 + 4 ≤ 2 ^ 64) :
    nativeValuesOffset indptrSize nnz
      = 24 + indptrSize * 8 + nnz * 2 + padding (24 + indptrSize * 8 + nnz * 2) 4 := by
  have hpad := @padding_lt (24 + indptrSize * 8 + nnz * 2) 4 (by decide)
  have hunaligned : u64 (kHeaderBytes + indptrSize * 8 + nnz * 2) = 24 + indptrSize * 8 + nnz * 2 :=
    u64_of_lt (show 24 + indptrSize * 8 + nnz * 2 < 2 ^ 64 by omega)
  rw [nativeValuesOffset, hunaligned]
  exact u64_of_lt (by omega)

/-- What `map_vectors` passes is what it was given, and its values begin where a code can. -/
theorem SparseVectors.mapVectors_ok {elementSize dimension valuesAt : ℕ} {indptr indices : List ℕ}
    {values : List UInt8} {v : SparseVectors Code} (hne : indptr ≠ [])
    (h : SparseVectors.mapVectors elementSize dimension indptr indices values valuesAt = .ok v) :
    v = ⟨elementSize, dimension, indptr, indices,
        SparseVectors.codesOf elementSize indices.length values⟩ ∧
      elementSize ∣ valuesAt := by
  rw [SparseVectors.mapVectors, if_neg hne] at h
  split at h
  · cases h
  split at h
  · cases h
  split at h
  · cases h
  split at h
  · cases h
  rename_i haligned
  split at h
  · cases h
  split at h
  · cases h
  split at h
  · cases h
  exact ⟨(Except.ok.inj h).symm, Nat.dvd_of_mod_eq_zero (not_not.mp haligned)⟩

/-! ### What is borrowed -/

/-- The arrays of `v` lie in the file one behind the other, the values of `elementSize` bytes from
`valuesAt` to the end, at places for their types; the offsets are valid. -/
structure Borrowed (file : Bytes) (elementSize valuesAt : ℕ) (v : SparseVectors Code) : Prop where
  width : v.elementSize = elementSize
  offsets : Csr.Offsets v.indptr v.indices.length
  indptr : v.indptr = offsetCodec.arrayAt file 24 v.indptr.length
  indices : v.indices = termCodec.arrayAt file (24 + v.indptr.length * 8) v.indices.length
  values : v.values = SparseVectors.codesOf elementSize v.indices.length
    ((file.drop valuesAt).take (v.indices.length * elementSize))
  behind : 24 + v.indptr.length * 8 + v.indices.length * 2 ≤ valuesAt
  fills : valuesAt + v.indices.length * elementSize = file.length
  aligned : elementSize ∣ valuesAt

/-- What is read of a row lies in the file: its two offsets, its terms and its values. -/
def RowInside (file : Bytes) (elementSize valuesAt : ℕ) (v : SparseVectors Code) (row : ℕ) : Prop :=
  24 + (row + 1) * 8 + 8 ≤ file.length ∧
    ∀ j, v.indptr.getD row 0 ≤ j → j < v.indptr.getD (row + 1) 0 →
      24 + v.indptr.length * 8 + j * 2 + 2 ≤ file.length ∧
        valuesAt + j * elementSize + elementSize ≤ file.length

theorem Borrowed.row_inside {file : Bytes} {elementSize valuesAt : ℕ} {v : SparseVectors Code}
    (h : Borrowed file elementSize valuesAt v) {row : ℕ} (hrow : row < v.numVectors) :
    RowInside file elementSize valuesAt v row := by
  rw [SparseVectors.numVectors_eq] at hrow
  have hbehind := h.behind
  have hfills := h.fills
  refine ⟨by omega, fun j _ hj => ?_⟩
  -- every offset is at most the number of entries
  have hnext : v.indptr.getD (row + 1) 0 ≤ v.indices.length := by
    have hlt : row + 1 < v.indptr.length := by omega
    rw [List.getD_eq_getElem _ _ hlt]
    exact h.offsets.le_of_mem (List.getElem_mem hlt)
  have hvalue : j * elementSize + elementSize ≤ v.indices.length * elementSize := by
    rw [← Nat.succ_mul]
    exact Nat.mul_le_mul_right _ (by omega)
  exact ⟨by omega, by omega⟩

/-- The header, the offsets and the terms that an accepted file is read for are there. -/
theorem readMcsr_arrays {path : String} {dimension : ℤ} {elementSize : ℕ} {file : Bytes}
    {v : SparseVectors Code} {c' : Cursor}
    (h : readMcsr path dimension elementSize ⟨file, 0⟩ = .ok (v, c')) :
    ∃ indptr indices, indptr.length = (longCodec.readAt file 0).toNat + 1 ∧
      indices.length = (longCodec.readAt file 16).toNat ∧
      indptr = offsetCodec.arrayAt file 24 indptr.length ∧
      indices = termCodec.arrayAt file (24 + indptr.length * 8) indices.length ∧
      24 + indptr.length * 8 + indices.length * 2 ≤ file.length ∧
      file.length = nativeFileSize indptr.length indices.length elementSize ∧
      ∃ values c₁ c₂,
        skip (u64 (nativeValuesOffset indptr.length indices.length
            + (2 ^ 64 - u64 (24 + indptr.length * 8 + indices.length * 2))))
          ⟨file, 24 + indptr.length * 8 + indices.length * 2⟩ = .ok ((), c₁) ∧
        readArray .byte (u64 (indices.length * elementSize)) c₁ = .ok (values, c₂) ∧
        SparseVectors.mapVectors elementSize dimension.toNat indptr indices values
          (if values = [] then 0 else c₂.pos - values.length) = .ok v := by
  obtain ⟨numRows, c₁, hrows, h⟩ := Reader.bind_eq_ok h
  obtain ⟨numCols, c₂, hcols, h⟩ := Reader.bind_eq_ok h
  obtain ⟨nnz, c₃, hnnz, h⟩ := Reader.bind_eq_ok h
  obtain ⟨_, c₄, hheader, h⟩ := Reader.bind_eq_ok h
  obtain ⟨_, c₅, hrange, h⟩ := Reader.bind_eq_ok h
  obtain ⟨_, c₆, hnative, h⟩ := Reader.bind_eq_ok h
  obtain ⟨indptr, c₇, hindptr, h⟩ := Reader.bind_eq_ok h
  obtain ⟨indices, c₈, hindices, h⟩ := Reader.bind_eq_ok h
  obtain ⟨_, c₉, hskip, h⟩ := Reader.bind_eq_ok h
  obtain ⟨values, c₁₀, hvalues, h⟩ := Reader.bind_eq_ok h
  obtain ⟨hmap, -⟩ := Reader.lift_eq_ok_iff.mp h
  -- the header
  obtain ⟨hfit, rfl, rfl⟩ := readScalar_ok (Nat.zero_le _) hrows
  obtain ⟨hfit, rfl, rfl⟩ := readScalar_ok hfit hcols
  obtain ⟨hfit, rfl, rfl⟩ := readScalar_ok hfit hnnz
  obtain ⟨-, rfl⟩ := Reader.lift_eq_ok_iff.mp hheader
  obtain ⟨-, rfl⟩ := Reader.lift_eq_ok_iff.mp hrange
  obtain ⟨hsize, rfl⟩ := checkNative_ok hnative
  -- the arrays
  obtain ⟨hoffsets, hindptrAt, rfl⟩ := readArray_ok (by decide) hfit hindptr
  obtain ⟨hterms, hindicesAt, rfl⟩ := readArray_ok (by decide) hoffsets hindices
  have hrows : indptr.length = (longCodec.readAt file 0).toNat + 1 := length_of_readArray hindptr
  have hnnz : indices.length = (longCodec.readAt file 16).toNat := length_of_readArray hindices
  refine ⟨indptr, indices, hrows, hnnz, ?_⟩
  rw [hrows, hnnz]
  exact ⟨hindptrAt, hindicesAt, hterms, hsize, values, c₉, c₁₀, hskip, hvalues, hmap⟩

/-- **A file that is accepted** holds what was borrowed and nothing more. -/
theorem readMcsr_ok {path : String} {dimension : ℤ} {elementSize : ℕ} {file : Bytes}
    {v : SparseVectors Code} {c' : Cursor} (hfile : file.length < 2 ^ 63)
    (hwidth : elementSize = U32 ∨ elementSize = U16 ∨ elementSize = U8)
    (h : readMcsr path dimension elementSize ⟨file, 0⟩ = .ok (v, c')) :
    ∃ valuesAt, Borrowed file elementSize valuesAt v := by
  obtain ⟨indptr, indices, hrows, -, hindptrAt, hindicesAt, hterms, hsize, values, c₁, c₂, hskip,
    hvalues, hmap⟩ := readMcsr_arrays h
  -- nothing has wrapped so far, and the values are at most as long as two files
  have hbytes : indices.length * elementSize ≤ indices.length * 4 := by
    apply Nat.mul_le_mul_left
    rcases hwidth with rfl | rfl | rfl <;> decide
  have hoffset := @nativeValuesOffset_eq indptr.length indices.length (by omega)
  rw [nativeFileSize] at hsize
  rw [hoffset] at hskip hsize
  generalize hunaligned : 24 + indptr.length * 8 + indices.length * 2 = unaligned at *
  have hpad := @padding_lt unaligned 4 (by decide)
  have hdistance : u64 (unaligned + padding unaligned 4 + (2 ^ 64 - u64 unaligned))
      = padding unaligned 4 := by
    rw [u64_of_lt (show unaligned < 2 ^ 64 by omega), u64]
    omega
  rw [hdistance] at hskip
  obtain ⟨hstart, rfl⟩ := skip_ok hterms hskip
  rw [u64_of_lt (show indices.length * elementSize < 2 ^ 64 by omega)] at hvalues
  obtain ⟨hend, hvaluesAt, rfl⟩ := readArray_ok (by decide) hstart hvalues
  have hwidthByte : Codec.byte.width = 1 := rfl
  rw [hwidthByte, Nat.mul_one] at hend
  have hne : indptr ≠ [] := fun hnil => by
    rw [hnil] at hrows
    cases hrows
  obtain ⟨hwf, -⟩ := SparseVectors.mapVectors_invariants hmap
  obtain ⟨rfl, -⟩ := SparseVectors.mapVectors_ok hne hmap
  refine ⟨unaligned + padding unaligned 4, ⟨rfl, hwf.offsets hne, hindptrAt, hindicesAt, ?_,
    ?_, ?_, ?_⟩⟩
  · show SparseVectors.codesOf elementSize indices.length values = _
    rw [hvaluesAt, arrayAt_byte hend]
  · exact hunaligned.trans_le (Nat.le_add_right _ _)
  · show unaligned + padding unaligned 4 + indices.length * elementSize = file.length
    exact (u64_of_lt (hend.trans_lt (hfile.trans (by decide)))).symm.trans hsize.symm
  · have hfour : 4 ∣ unaligned + padding unaligned 4 := dvd_add_padding _ (by decide)
    refine dvd_trans ?_ hfour
    rcases hwidth with rfl | rfl | rfl <;> decide

/-- **Mapping fails closed**: a file that is refused leaves the index as it was; one that is
accepted holds all that a row access reads, the values at multiples of their width when the
mapping begins on a page. -/
theorem DiskSeismicIndex.readMcsr_fails_closed {F : Type} (format : CodeFormat F) (path : String)
    (file : Bytes) (x : DiskSeismicIndex F) (page : ℕ) (hfile : file.length < 2 ^ 63) :
    (∃ e, x.readMcsr format path file = (x, .error e)) ∨
      ∃ v valuesAt, x.readMcsr format path file
          = ({ x with vectors := some v, vectorsMapped := true, numVectors := v.numVectors },
            .ok ()) ∧
        Borrowed file format.elementSize valuesAt v ∧
        format.elementSize ∣ 4096 * page + valuesAt ∧
        ∀ row < v.numVectors, RowInside file format.elementSize valuesAt v row := by
  rw [DiskSeismicIndex.readMcsr]
  split
  · exact .inl ⟨_, rfl⟩
  split
  · exact .inl ⟨_, rfl⟩
  rename_i v _ hread
  obtain ⟨valuesAt, hborrowed⟩ := readMcsr_ok hfile format.width hread
  have hpage : format.elementSize ∣ 4096 * page := by
    apply dvd_mul_of_dvd_left
    rcases format.width with h | h | h <;> rw [h] <;> decide
  exact .inr ⟨v, valuesAt, rfl, hborrowed, dvd_add hpage hborrowed.aligned,
    fun _ hrow => hborrowed.row_inside hrow⟩

/-- One row with the value of one term, in the native layout with values of 4 bytes. -/
def oneEntryFile : Bytes :=
  headerCodec.enc ⟨1, 1, 1⟩ ++ offsetCodec.encAll [0, 1] ++ termCodec.encAll [0]
    ++ [0, 0] ++ [0, 0, 128, 63]

theorem DiskSeismicIndex.readMcsr_fails_closed_one_entry :
    let x := DiskSeismicIndex.new (F := ℤ) 1 ⟨0, 1, 1, ⟨1, ""⟩, 42⟩
    let read := x.readMcsr (floatFormat ℤ "DSEI") "entry" oneEntryFile
    (read.2.toBool = true ∧ oneEntryFile.length < 2 ^ 63) ∧
      ((∃ e, read = (x, .error e)) ∨
        ∃ v valuesAt, read
            = ({ x with vectors := some v, vectorsMapped := true, numVectors := v.numVectors },
              .ok ()) ∧
          Borrowed oneEntryFile U32 valuesAt v ∧ U32 ∣ 4096 * 3 + valuesAt ∧
          ∀ row < v.numVectors, RowInside oneEntryFile U32 valuesAt v row) :=
  ⟨by decide, DiskSeismicIndex.readMcsr_fails_closed (floatFormat ℤ "DSEI") "entry" oneEntryFile _ 3
    (by decide)⟩

end Nsparse
