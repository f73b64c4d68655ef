/-
Nsparse/FailedConversion.lean

What a conversion that fails leaves at the native path.

`convert` opens its destination once the header is plausible and writes while it
checks.  `convertTo` is the same program with the bytes written so far as a result of
their own, so that they outlive an exception (`convert_eq_convertTo`).  A file that
ends early has the header of a whole one, and its reader needs the offsets and all the
terms that header promises: what is left is shorter than that, since the values, which
come last, are never refused.
-/
import Nsparse.Lib.Truncation
import Nsparse.MappedCsr

namespace Nsparse

open Wire

namespace CsrLayout

/-- `stream`, with what it has written when it throws. -/
def streamTo (path : String) (width : ℕ) (f : Bytes → Except Exception Bytes) :
    ℕ → ℕ → Bytes → Cursor → Bytes × Except Exception Cursor
  | 0, _, out, cursor => (out, .ok cursor)
  | fuel + 1, left, out, cursor =>
      if left = 0 then (out, .ok cursor)
      else
        let count := min kChunkElements left
        match (readOrThrow path (count * width)).bind (fun chunk => Reader.lift (f chunk)) cursor with
        | .error e => (out, .error e)
        | .ok (narrowed, cursor) =>
            streamTo path width f fuel (left - count) (out ++ narrowed) cursor

/-- The checks that come before the destination is opened. -/
def readChecked (path : String) : Reader Exception Header :=
  (readHeader path).bind fun header =>
  (Reader.lift (checkHeader path header)).bind fun _ =>
  (checkInterchange path header).bind fun _ => fun cursor => .ok (header, cursor)

/-- The offsets, read whole and checked. -/
def readOffsets (path : String) (header : Header) : Reader Exception (List ℕ) :=
  (readVector offsetCodec path (header.numRows.toNat + 1)).bind fun indptr =>
  (Reader.lift (checkIndptr path header.nnz indptr)).bind fun _ =>
  (Reader.lift (checkNonnegative path indptr)).bind fun _ => fun cursor => .ok (indptr, cursor)

/-- `convert`: the bytes at the native path when it returns or throws, none before it is opened. -/
def convertTo (path : String) (file : Bytes) : Option Bytes × Except Exception Unit :=
  match readChecked path ⟨file, 0⟩ with
  | .error e => (none, .error e)
  | .ok (header, cursor) =>
      let out := headerCodec.enc header
      match readOffsets path header cursor with
      | .error e => (some out, .error e)
      | .ok (indptr, cursor) =>
          let nnz := header.nnz.toNat
          let out := out ++ offsetCodec.encAll indptr
          match streamTo path 4 (narrowTerms path header.numCols) nnz nnz out cursor with
          | (out, .error e) => (some out, .error e)
          | (out, .ok cursor) =>
              let valuesPos := u64 (kHeaderBytes + (header.numRows.toNat + 1) * 8 + nnz * 2)
              let out := out ++ List.replicate (padding valuesPos 4) 0
              match streamTo path 4 .ok nnz nnz out cursor with
              | (out, .error e) => (some out, .error e)
              | (out, .ok _) => (some out, .ok ())

/-! ### The same program -/

variable {path : String} {file data : Bytes} {pos : ℕ}

theorem stream_eq_streamTo {width : ℕ} {f : Bytes → Except Exception Bytes} (fuel : ℕ)
    (left : ℕ) (out : Bytes) (cursor : Cursor) :
    stream path width f fuel left out cursor
      = (streamTo path width f fuel left out cursor).2.map
          fun c => ((streamTo path width f fuel left out cursor).1, c) := by
  induction fuel generalizing left out cursor with
  | zero => rfl
  | succ fuel ih =>
      rw [stream, streamTo]
      split
      · rfl
      dsimp only
      rcases hread : readOrThrow path (min kChunkElements left * width) cursor
        with e | ⟨chunk, cursor⟩
      · rw [Reader.bind_of_error hread, Reader.bind_of_error hread]
        rfl
      rcases hchunk : f chunk with e | narrowed
      · have hlift : Reader.lift (f chunk) cursor = .error e := by rw [hchunk]; rfl
        rw [Reader.bind_of_ok hread, Reader.bind_of_ok hread, Reader.bind_of_error hlift, hlift]
        rfl
      · have hlift : Reader.lift (f chunk) cursor = .ok (narrowed, cursor) := by rw [hchunk]; rfl
        rw [Reader.bind_of_ok hread, Reader.bind_of_ok hread, Reader.bind_of_ok hlift, hlift]
        exact ih _ _ _

/-- The reads of `convert`, grouped as `convertTo` groups them. -/
theorem convert_eq_bind (cursor : Cursor) : convert path cursor
    = (readChecked path).bind (fun header => (readOffsets path header).bind fun indptr =>
        (stream path 4 (narrowTerms path header.numCols) header.nnz.toNat header.nnz.toNat
          (headerCodec.enc header ++ offsetCodec.encAll indptr)).bind fun out =>
        stream path 4 .ok header.nnz.toNat header.nnz.toNat
          (out ++ List.replicate (padding (u64 (kHeaderBytes + (header.numRows.toNat + 1) * 8
            + header.nnz.toNat * 2)) 4) 0)) cursor := by
  rw [convert, readChecked]
  simp only [← Reader.bind_assoc, readOffsets]
  rfl

/-- **The bytes written do not change what `convert` does**: it returns and throws as before. -/
theorem convert_eq_convertTo : (convert path ⟨file, 0⟩).map Prod.fst
    = (convertTo path file).2.map fun _ => (convertTo path file).1.getD [] := by
  rw [convert_eq_bind, convertTo]
  rcases hchecked : readChecked path ⟨file, 0⟩ with e | ⟨header, cursor⟩
  · rw [Reader.bind_of_error hchecked]
    rfl
  rw [Reader.bind_of_ok hchecked]
  dsimp only
  rcases hoffsets : readOffsets path header cursor with e | ⟨indptr, cursor⟩
  · rw [Reader.bind_of_error hoffsets]
    rfl
  rw [Reader.bind_of_ok hoffsets, Reader.bind, stream_eq_streamTo]
  dsimp only
  rcases streamTo path 4 (narrowTerms path header.numCols) header.nnz.toNat header.nnz.toNat
    (headerCodec.enc header ++ offsetCodec.encAll indptr) cursor with ⟨out, e | cursor⟩
  · rfl
  show (stream path 4 .ok _ _ _ cursor).map Prod.fst = _
  rw [stream_eq_streamTo]
  dsimp only
  rcases streamTo path 4 .ok header.nnz.toNat header.nnz.toNat
    (out ++ List.replicate (padding (u64 (kHeaderBytes + (header.numRows.toNat + 1) * 8
      + header.nnz.toNat * 2)) 4) 0) cursor with ⟨out, e | cursor⟩
  · rfl
  · rfl

/-! ### What is written before a defect -/

/-- A stream that throws has written less than the array it was to write. -/
theorem streamTo_error {width width' : ℕ} {f : Bytes → Except Exception Bytes}
    (hf : ∀ n chunk narrowed, chunk.length = n * width → f chunk = .ok narrowed →
      narrowed.length = n * width')
    (hwidth : 0 < width') {fuel left : ℕ} (hfuel : left ≤ fuel) {out out' : Bytes} {e : Exception}
    {cursor : Cursor} (h : streamTo path width f fuel left out cursor = (out', .error e)) :
    ∃ written, out' = out ++ written ∧ written.length < left * width' := by
  induction fuel generalizing left out cursor with
  | zero => cases h
  | succ fuel ih =>
      rw [streamTo] at h
      split at h
      · cases h
      rename_i hne
      have hcount : 0 < min kChunkElements left := lt_min (by decide) (Nat.pos_of_ne_zero hne)
      have hle : min kChunkElements left ≤ left := min_le_right _ _
      generalize min kChunkElements left = count at hcount hle h
      dsimp only at h
      split at h
      · -- the chunk that is refused is not written
        cases h
        exact ⟨[], (List.append_nil _).symm, Nat.mul_pos (Nat.pos_of_ne_zero hne) hwidth⟩
      · rename_i narrowed cursor' hread
        obtain ⟨chunk, c₁, hchunk, hlift⟩ := Reader.bind_eq_ok hread
        obtain ⟨hnarrow, rfl⟩ := Reader.lift_eq_ok_iff.mp hlift
        have hlen : chunk.length = count * width := by
          rw [readOrThrow] at hchunk
          split at hchunk
          · cases hchunk
          · rename_i hleft
            cases hchunk
            rw [List.length_take, List.length_drop]
            rw [Cursor.remaining] at hleft
            omega
        have hwritten := hf count chunk narrowed hlen hnarrow
        obtain ⟨rest, rfl, hrest⟩ := ih (by omega) h
        refine ⟨narrowed ++ rest, List.append_assoc _ _ _, ?_⟩
        rw [List.length_append, hwritten]
        calc count * width' + rest.length < count * width' + (left - count) * width' :=
              Nat.add_lt_add_left hrest _
          _ = left * width' := by rw [← Nat.add_mul, Nat.add_sub_cancel' hle]

/-- A narrowed chunk has 2 bytes for each term. -/
theorem length_narrowTerms {numCols : ℤ} {n : ℕ} {chunk narrowed : Bytes}
    (hlen : chunk.length = n * 4) (h : narrowTerms path numCols chunk = .ok narrowed) :
    narrowed.length = n * 2 := by
  obtain ⟨-, rfl⟩ := ((streams_terms path numCols).eq_ok_iff chunk narrowed).mp h
  rw [Codec.length_encAll, List.length_map, wideTerms, Codec.length_decAll, hlen,
    Nat.mul_div_cancel _ (by decide)]
  rfl

theorem readChecked_ok {header : Header} {c : Cursor}
    (h : readChecked path ⟨file, 0⟩ = .ok (header, c)) :
    header = headerOf file ∧ c = ⟨file, 24⟩ ∧ 24 ≤ file.length ∧
      file.length = interchangeFileSize (indptrSizeOf file) (nnzOf file) := by
  obtain ⟨_, c₁, hheader, h⟩ := Reader.bind_eq_ok h
  obtain ⟨h24, rfl, rfl⟩ := readHeader_eq_ok_iff.mp hheader
  obtain ⟨_, c₂, hlift, h⟩ := Reader.bind_eq_ok h
  obtain ⟨-, rfl⟩ := Reader.lift_eq_ok_iff.mp hlift
  obtain ⟨_, c₃, hcheck, h⟩ := Reader.bind_eq_ok h
  obtain ⟨hsize, rfl⟩ := checkInterchange_eq_ok_iff.mp hcheck
  cases h
  exact ⟨rfl, rfl, h24, hsize⟩

theorem readOffsets_ok {indptr : List ℕ} {c : Cursor} (h24 : 24 ≤ file.length)
    (h : readOffsets path (headerOf file) ⟨file, 24⟩ = .ok (indptr, c)) :
    indptr = offsetsOf file ∧ c = ⟨file, termsAt file⟩ ∧ termsAt file ≤ file.length := by
  obtain ⟨_, c₁, hread, h⟩ := Reader.bind_eq_ok h
  obtain ⟨-, hfits, rfl, rfl⟩ := (readVector_eq_ok_iff h24).mp hread
  obtain ⟨_, c₂, hlift, h⟩ := Reader.bind_eq_ok h
  obtain ⟨-, rfl⟩ := Reader.lift_eq_ok_iff.mp hlift
  obtain ⟨_, c₃, hlift, h⟩ := Reader.bind_eq_ok h
  obtain ⟨-, rfl⟩ := Reader.lift_eq_ok_iff.mp hlift
  cases h
  exact ⟨rfl, rfl, hfits⟩

/-- When the terms were there, the declared size has not wrapped. -/
theorem values_fit (hfile : file.length < 2 ^ 63)
    (hsize : file.length = interchangeFileSize (indptrSizeOf file) (nnzOf file))
    (hterms : termsAt file + nnzOf file * 4 ≤ file.length) :
    termsAt file + nnzOf file * 4 + nnzOf file * 4 ≤ file.length := by
  have hdeclared : u64 (termsAt file + nnzOf file * 4 + nnzOf file * 4)
      = termsAt file + nnzOf file * 4 + nnzOf file * 4 := u64_of_lt (by omega)
  exact hdeclared.symm.trans_le hsize.ge

/-- The values are copied, whatever they are. -/
theorem streamTo_values (hterms : termsAt file + nnzOf file * 4 ≤ file.length)
    (hvalues : termsAt file + nnzOf file * 4 + nnzOf file * 4 ≤ file.length) {out out' : Bytes}
    {e : Exception} :
    streamTo path 4 .ok (nnzOf file) (nnzOf file) out ⟨file, termsAt file + nnzOf file * 4⟩
      ≠ (out', .error e) := by
  intro h
  have hstream : stream path 4 .ok (nnzOf file) (nnzOf file) out
      ⟨file, termsAt file + nnzOf file * 4⟩ = .ok (_, _) :=
    (stream_eq_ok_iff streams_values le_rfl hterms out).mpr ⟨hvalues, trivial, rfl, rfl⟩
  rw [stream_eq_streamTo, h] at hstream
  cases hstream

/-! ### What its reader wants -/

/-- A file with the header of `file` but without room for its offsets and terms is refused. -/
theorem readMcsr_refuses_short {path' : String} {dimension : ℤ} {elementSize : ℕ} {rest : Bytes}
    (hshort : rest.length < indptrSizeOf file * 8 + nnzOf file * 2) {v : SparseVectors Code}
    {c : Cursor} :
    readMcsr path' dimension elementSize ⟨headerCodec.enc (headerOf file) ++ rest, 0⟩
      ≠ .ok (v, c) := by
  intro h
  obtain ⟨indptr, indices, hrows, hnnz, -, -, hfits, -⟩ := readMcsr_arrays h
  obtain ⟨hfitRows, -, hfitNnz⟩ := fits_headerOf file
  have hheader : headerCodec.enc (headerOf file)
      = longCodec.enc (headerOf file).numRows ++ (longCodec.enc (headerOf file).numCols ++
        longCodec.enc (headerOf file).nnz) := rfl
  have hlen : ∀ i, (longCodec.enc i).length = 8 := longCodec.length_enc
  -- the numbers of the header are read back
  have hrowsAt : longCodec.readAt (headerCodec.enc (headerOf file) ++ rest) 0
      = (headerOf file).numRows := by
    have hat := Codec.readAt_append hfitRows []
      (longCodec.enc (headerOf file).numCols ++ longCodec.enc (headerOf file).nnz ++ rest)
    rw [List.nil_append, List.length_nil] at hat
    rw [hheader, List.append_assoc]
    exact hat
  have hnnzAt : longCodec.readAt (headerCodec.enc (headerOf file) ++ rest) 16
      = (headerOf file).nnz := by
    have hat := Codec.readAt_append hfitNnz
      (longCodec.enc (headerOf file).numRows ++ longCodec.enc (headerOf file).numCols) rest
    have h16 : (longCodec.enc (headerOf file).numRows
        ++ longCodec.enc (headerOf file).numCols).length = 16 := by
      rw [List.length_append, hlen, hlen]
    rw [h16] at hat
    rw [hheader, List.append_assoc, List.append_assoc, ← List.append_assoc]
    exact hat
  rw [hrowsAt] at hrows
  rw [hnnzAt] at hnnz
  have hsize : (headerCodec.enc (headerOf file) ++ rest).length = 24 + rest.length := by
    rw [List.length_append, headerCodec.length_enc]
    rfl
  have hindptr : indptr.length = indptrSizeOf file := hrows
  have hindices : indices.length = nnzOf file := hnnz
  rw [hsize, hindptr, hindices] at hfits
  omega

/-- What `convert` leaves when it throws is the header and too little behind it. -/
theorem convertTo_error (hfile : file.length < 2 ^ 63) {out : Bytes} {e : Exception}
    (h : convertTo path file = (some out, .error e)) :
    ∃ rest, out = headerCodec.enc (headerOf file) ++ rest ∧
      rest.length < indptrSizeOf file * 8 + nnzOf file * 2 := by
  have hrows : 0 < indptrSizeOf file := Nat.succ_pos _
  rw [convertTo] at h
  split at h
  · cases h
  rename_i header cursor hchecked
  obtain ⟨rfl, rfl, h24, hsize⟩ := readChecked_ok hchecked
  dsimp only at h
  split at h
  · -- only the header was written
    cases h
    exact ⟨[], (List.append_nil _).symm, by rw [List.length_nil]; omega⟩
  rename_i indptr cursor hoffsets
  obtain ⟨rfl, rfl, hat⟩ := readOffsets_ok h24 hoffsets
  have hoffsetBytes : (offsetCodec.encAll (offsetsOf file)).length = indptrSizeOf file * 8 := by
    rw [Codec.length_encAll, offsetsOf, Codec.arrayAt, Codec.length_decAll]
    rfl
  split at h
  · -- some chunks of terms, but not the last
    rename_i out' e' hstream
    cases h
    obtain ⟨written, rfl, hwritten⟩ := streamTo_error (fun _ _ _ => length_narrowTerms)
      (by decide) le_rfl hstream
    refine ⟨offsetCodec.encAll (offsetsOf file) ++ written, List.append_assoc _ _ _, ?_⟩
    rw [List.length_append, hoffsetBytes]
    exact Nat.add_lt_add_left hwritten _
  · rename_i out' cursor hstream
    have hterms : stream path 4 (narrowTerms path (headerOf file).numCols) (headerOf file).nnz.toNat
        (headerOf file).nnz.toNat
        (headerCodec.enc (headerOf file) ++ offsetCodec.encAll (offsetsOf file))
        ⟨file, termsAt file⟩ = .ok (out', cursor) := by
      rw [stream_eq_streamTo, hstream]
      rfl
    obtain ⟨hfits, -, -, rfl⟩ := (stream_eq_ok_iff (streams_terms path _) le_rfl hat _).mp hterms
    split at h
    · rename_i hvalues
      exact absurd hvalues (streamTo_values hfits (values_fit hfile hsize hfits))
    · cases h

end CsrLayout

/-- **A failed conversion leaves nothing loadable**: what is at the native path when `convert`
throws is refused by every index, of every dimension and width of values, unless the file there
was never opened. -/
theorem convert_leaves_nothing_loadable (path : String) (file : Bytes) (left : Option Bytes)
    (e : Exception) (hfile : file.length < 2 ^ 63)
    (h : CsrLayout.convertTo path file = (left, .error e)) :
    left = none ∨ ∃ out, left = some out ∧
      ∀ {F : Type} (format : CodeFormat F) (path' : String) (x : DiskSeismicIndex F),
        ∃ e', x.readMcsr format path' out = (x, .error e') := by
  rcases left with - | out
  · exact .inl rfl
  obtain ⟨rest, rfl, hshort⟩ := CsrLayout.convertTo_error hfile h
  refine .inr ⟨_, rfl, fun format path' x => ?_⟩
  rw [DiskSeismicIndex.readMcsr]
  split
  · exact ⟨_, rfl⟩
  split
  · exact ⟨_, rfl⟩
  · rename_i v c hread
    exact absurd hread (CsrLayout.readMcsr_refuses_short hshort)

/-- One entry, of a term that is no column. -/
def strayTermFile : Bytes :=
  CsrLayout.headerCodec.enc ⟨1, 1, 1⟩ ++ offsetCodec.encAll [0, 1]
    ++ CsrLayout.intCodec.encAll [5] ++ [0, 0, 128, 63]

/-- It is found when header and offsets have been written. -/
theorem convert_leaves_nothing_loadable_stray_term :
    let written := CsrLayout.headerCodec.enc ⟨1, 1, 1⟩ ++ offsetCodec.encAll [0, 1]
    let thrown := Exception.invalidArgument "CSR term out of range in: source"
    (strayTermFile.length < 2 ^ 63 ∧
      CsrLayout.convertTo "source" strayTermFile = (some written, .error thrown)) ∧
      (some written = none ∨ ∃ out, some written = some out ∧
        ∀ {F : Type} (format : CodeFormat F) (path' : String) (x : DiskSeismicIndex F),
          ∃ e', x.readMcsr format path' out = (x, .error e')) :=
  ⟨by decide, convert_leaves_nothing_loadable "source" strayTermFile _
    (.invalidArgument "CSR term out of range in: source") (by decide) (by decide)⟩

end Nsparse
