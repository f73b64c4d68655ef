/-
Nsparse/CsrIngest.lean

The two ways a corpus comes into an index from an interchange file.

`readCsr` reads the file into memory and adds its rows; the mapped residency maps the
file that `convert` made of it.  Both make the same checks but two: only the mapped
path looks at the offsets between the first and the last, and only `add` refuses null
pointers, which the data of an empty vector is.  `stored` is the matrix both mean.

The index is fresh and stores floats.
-/
import Nsparse.CsrLayout
import Nsparse.VectorReaders

namespace Nsparse

open Wire CsrLayout

/-- `std::numeric_limits<idx_t>::max()`. -/
def maxIdx : ℤ := 2 ^ 31 - 1

/-- The rows have to be documents and the columns terms of the index. -/
def checkRange (path : String) (dimension : ℤ) (h : Header) : Except Exception Unit :=
  if maxIdx < h.numRows then
    .error (.invalidArgument s!"CSR row count exceeds 32-bit doc-id range: {path}")
  else if dimension < h.numCols then
    .error (.invalidArgument s!"CSR column count exceeds index dimension: {path}")
  else .ok ()

/-! ### In memory -/

/-- Narrowing a term would wrap silently. -/
def checkTerms (path : String) (numCols : ℤ) (fileIndices : List ℤ) : Except Exception Unit :=
  if fileIndices.any fun term => decide (term < 0 ∨ numCols ≤ term ∨ 65535 < term) then
    .error (.invalidArgument s!"CSR term out of range in: {path}")
  else .ok ()

/-- `add` to an index without vectors; `nullData` says whether `data()` of an empty vector is a
null pointer, which the language leaves open. -/
def addFresh (nullData : Bool) (dimension n : ℤ) (indptr indices : List ℕ) (values : List Code) :
    Except Exception (SparseVectors Code) :=
  if n ≤ 0 then .error (.invalidArgument notPositiveMsg)
  else if nullData ∧ (indptr = [] ∨ indices = [] ∨ values = []) then
    .error (.invalidArgument nullMsg)
  else
    match SparseVectors.new U32 dimension.toNat with
    | .error e => .error e
    | .ok vectors => vectors.addVectors indptr indices values

/-- `Index::read_csr`. -/
def readCsr (nullData : Bool) (path : String) (dimension : ℤ) : Reader Exception (SparseVectors Code) :=
  (readHeader path).bind fun header =>
  (Reader.lift (checkHeader path header)).bind fun _ =>
  (Reader.lift (checkRange path dimension header)).bind fun _ =>
  (checkInterchange path header).bind fun _ =>
  (readVector offsetCodec path (header.numRows.toNat + 1)).bind fun fileIndptr =>
  (Reader.lift (checkIndptr path header.nnz fileIndptr)).bind fun _ =>
  (readVector intCodec path header.nnz.toNat).bind fun fileIndices =>
  (Reader.lift (checkTerms path header.numCols fileIndices)).bind fun _ =>
  (readOrThrow path (header.nnz.toNat * U32)).bind fun values =>
  Reader.lift (addFresh nullData dimension header.numRows fileIndptr (fileIndices.map Int.toNat)
    (SparseVectors.codesOf U32 header.nnz.toNat values))

/-! ### Mapped -/

/-- The size of the file tells that it is in the native layout with values of this width. -/
def checkNative (path : String) (h : Header) (elementSize : ℕ) : Reader Exception Unit :=
  fun cursor =>
    if cursor.data.length ≠ nativeFileSize (h.numRows.toNat + 1) h.nnz.toNat elementSize then
      .error (.invalidArgument (s!"CSR file is not in the native layout (convert it " ++
        s!"with csr_layout::convert): {path}"))
    else .ok ((), cursor)

/-- Skip to the values; the difference is one of `size_t`. -/
def skipToValues (h : Header) : Reader Exception Unit := fun cursor =>
  let valuesOffset := nativeValuesOffset (h.numRows.toNat + 1) h.nnz.toNat
  skip (u64 (valuesOffset + (2 ^ 64 - u64 cursor.pos))) cursor

/-- `read_mcsr`, with values of `elementSize` bytes. -/
def readMcsr (path : String) (dimension : ℤ) (elementSize : ℕ) :
    Reader Exception (SparseVectors Code) :=
  (readScalar longCodec).bind fun numRows =>
  (readScalar longCodec).bind fun numCols =>
  (readScalar longCodec).bind fun nnz =>
  (Reader.lift (checkHeader path ⟨numRows, numCols, nnz⟩)).bind fun _ =>
  (Reader.lift (checkRange path dimension ⟨numRows, numCols, nnz⟩)).bind fun _ =>
  (checkNative path ⟨numRows, numCols, nnz⟩ elementSize).bind fun _ =>
  (readArray offsetCodec (numRows.toNat + 1)).bind fun indptr =>
  (readArray termCodec nnz.toNat).bind fun indices =>
  (skipToValues ⟨numRows, numCols, nnz⟩).bind fun _ =>
  (readArray .byte (u64 (nnz.toNat * elementSize))).bind fun values => fun cursor =>
    -- an empty array has no address
    let valuesAt := if values = [] then 0 else cursor.pos - values.length
    Reader.lift (SparseVectors.mapVectors elementSize dimension.toNat indptr indices values valuesAt)
      cursor

/-- Convert the file and read the result in mapped residency. -/
def ingestMapped (path : String) (dimension : ℤ) (file : Bytes) :
    Except Exception (SparseVectors Code) :=
  match convert path ⟨file, 0⟩ with
  | .error e => .error e
  | .ok (native, _) => (readMcsr path dimension U32 ⟨native, 0⟩).map Prod.fst

/-- Read the file into memory. -/
def ingestInMemory (nullData : Bool) (path : String) (dimension : ℤ) (file : Bytes) :
    Except Exception (SparseVectors Code) :=
  (readCsr nullData path dimension ⟨file, 0⟩).map Prod.fst

/-! ### What both mean -/

section File

variable (dimension : ℤ) (file : Bytes)

/-- The matrix in an interchange file. -/
def stored : SparseVectors Code :=
  ⟨U32, dimension.toNat, offsetsOf file, termsOf file,
    SparseVectors.codesOf U32 (nnzOf file) (valuesOf file)⟩

/-- The checks that both paths make. -/
structure Acceptable : Prop where
  interchange : Interchange file
  rows : (headerOf file).numRows ≤ maxIdx
  cols : (headerOf file).numCols ≤ dimension

end File

variable {dimension : ℤ} {path : String} {file : Bytes}

theorem checkRange_eq_ok_iff {h : Header} :
    checkRange path dimension h = .ok () ↔ h.numRows ≤ maxIdx ∧ h.numCols ≤ dimension := by
  rw [checkRange]
  split
  · exact iff_of_false (by simp) (by omega)
  split
  · exact iff_of_false (by simp) (by omega)
  · exact iff_of_true rfl (by omega)

theorem checkTerms_eq_ok_iff {numCols : ℤ} {terms : List ℤ} :
    checkTerms path numCols terms = .ok () ↔ ∀ t ∈ terms, TermInRange numCols t := by
  rw [checkTerms]
  split
  · rename_i h
    obtain ⟨t, ht, hbad⟩ := List.any_eq_true.mp h
    refine iff_of_false (by simp) fun hall => ?_
    obtain ⟨h0, hcols, hmax⟩ := hall t ht
    rcases of_decide_eq_true hbad with hneg | hbig | hwide
    · exact absurd h0 (not_le.mpr hneg)
    · exact absurd hcols (not_lt.mpr hbig)
    · exact absurd hmax (not_le.mpr hwide)
  · rename_i h
    refine iff_of_true rfl fun t ht => ?_
    by_contra hbad
    refine h (List.any_eq_true.mpr ⟨t, ht, decide_eq_true ?_⟩)
    by_contra hnone
    obtain ⟨h0, hnone⟩ := not_or.mp hnone
    obtain ⟨hcols, hmax⟩ := not_or.mp hnone
    exact hbad ⟨not_lt.mp h0, not_le.mp hcols, not_lt.mp hmax⟩

/-- The terms of a whole file are read in one go or in chunks. -/
theorem wideTerms_termBytesOf (hfits : termsAt file + nnzOf file * 4 ≤ file.length) :
    wideTerms (termBytesOf file) = intCodec.arrayAt file (termsAt file) (nnzOf file) := by
  have hlen : (termBytesOf file).length = nnzOf file * 4 := by
    rw [termBytesOf, List.length_take, List.length_drop]
    omega
  rw [wideTerms, hlen, Nat.mul_div_cancel _ (by decide)]
  exact intCodec.decAll_take (nnzOf file) (file.drop (termsAt file))

theorem length_termsOf (hin : Interchange file) : (termsOf file).length = nnzOf file := by
  have hsize := hin.size
  rw [termsOf, List.length_map, wideTerms_termBytesOf (by omega)]
  exact Codec.length_decAll _ _ _

theorem length_offsetsOf (file : Bytes) : (offsetsOf file).length = indptrSizeOf file :=
  Codec.length_decAll _ _ _

/-- A file with a row has two offsets. -/
theorem two_le_indptrSizeOf (hin : Interchange file) : 2 ≤ indptrSizeOf file := by
  have hrows := hin.header.1
  rw [indptrSizeOf]
  omega

/-- `add` to a fresh index refuses null pointers and stores the rest. -/
theorem addFresh_stored (nullData : Bool) (h : Acceptable dimension file) :
    addFresh nullData dimension (headerOf file).numRows (offsetsOf file) (termsOf file)
        (SparseVectors.codesOf U32 (nnzOf file) (valuesOf file))
      = if nullData = true ∧ nnzOf file = 0 then .error (.invalidArgument nullMsg)
        else .ok (stored dimension file) := by
  obtain ⟨hrows, hcols, -⟩ := h.interchange.header
  have hdim := h.cols
  have hterms := length_termsOf h.interchange
  have hvalues : (SparseVectors.codesOf U32 (nnzOf file) (valuesOf file)).length = nnzOf file :=
    SparseVectors.length_codesOf _ _ _
  have hlong : 2 ≤ (offsetsOf file).length :=
    (two_le_indptrSizeOf h.interchange).trans_eq (length_offsetsOf file).symm
  obtain ⟨first, rest, hoffsets⟩ := List.exists_cons_of_length_pos (Nat.zero_lt_of_lt hlong)
  have hnull : (offsetsOf file = [] ∨ termsOf file = [] ∨
      SparseVectors.codesOf U32 (nnzOf file) (valuesOf file) = []) ↔ nnzOf file = 0 := by
    rw [← List.length_eq_zero_iff, ← List.length_eq_zero_iff, ← List.length_eq_zero_iff, hterms,
      hvalues]
    omega
  rw [addFresh, if_neg (not_le.mpr hrows)]
  simp only [hnull]
  split
  · rfl
  have hnew : SparseVectors.new (V := Code) U32 dimension.toNat
      = .ok ⟨U32, dimension.toNat, [], [], []⟩ := if_neg (by omega)
  have hfirst : first = 0 := by
    have hhead := h.interchange.head
    rwa [hoffsets] at hhead
  have hrebase : [0] ++ (offsetsOf file).tail.map (· + ([0].getLast?.getD 0)) = offsetsOf file := by
    rw [hoffsets, hfirst]
    show 0 :: rest.map (· + 0) = 0 :: rest
    rw [List.map_congr_left fun x _ => Nat.add_zero x, List.map_id']
  rw [hnew]
  dsimp only
  rw [SparseVectors.addVectors, if_neg (not_not.mpr (hterms.trans hvalues.symm)),
    if_neg (not_lt.mpr hlong)]
  dsimp only
  rw [if_pos rfl, hrebase]
  rfl

/-- **The path into memory** takes the acceptable files, but for one without entries where the
data of an empty vector is a null pointer. -/
theorem ingestInMemory_eq_ok_iff (nullData : Bool) (hfile : file.length < 2 ^ 63)
    {v : SparseVectors Code} :
    ingestInMemory nullData path dimension file = .ok v ↔
      Acceptable dimension file ∧ ¬ (nullData = true ∧ nnzOf file = 0) ∧
        v = stored dimension file := by
  have hmap : ingestInMemory nullData path dimension file = .ok v ↔
      ∃ c, readCsr nullData path dimension ⟨file, 0⟩ = .ok (v, c) := by
    rw [ingestInMemory]
    rcases readCsr nullData path dimension ⟨file, 0⟩ with e | ⟨w, c⟩
    · exact iff_of_false (by simp [Except.map]) (by simp)
    · simp [Except.map]
  rw [hmap]
  constructor
  · rintro ⟨c', h⟩
    obtain ⟨header, c₁, hheader, h⟩ := Reader.bind_eq_ok h
    obtain ⟨h24, rfl, rfl⟩ := readHeader_eq_ok_iff.mp hheader
    obtain ⟨_, c₂, hlift, h⟩ := Reader.bind_eq_ok h
    obtain ⟨hpositive, rfl⟩ := Reader.lift_eq_ok_iff.mp hlift
    obtain ⟨_, c₃, hlift, h⟩ := Reader.bind_eq_ok h
    obtain ⟨hrange, rfl⟩ := Reader.lift_eq_ok_iff.mp hlift
    obtain ⟨_, c₄, hcheck, h⟩ := Reader.bind_eq_ok h
    obtain ⟨hsize, rfl⟩ := checkInterchange_eq_ok_iff.mp hcheck
    obtain ⟨indptr, c₅, hread, h⟩ := Reader.bind_eq_ok h
    obtain ⟨-, hoffsets, rfl, rfl⟩ := (readVector_eq_ok_iff h24).mp hread
    obtain ⟨_, c₆, hlift, h⟩ := Reader.bind_eq_ok h
    obtain ⟨hindptr, rfl⟩ := Reader.lift_eq_ok_iff.mp hlift
    obtain ⟨indices, c₇, hread, h⟩ := Reader.bind_eq_ok h
    obtain ⟨-, hterms, rfl, rfl⟩ := (readVector_eq_ok_iff hoffsets).mp hread
    obtain ⟨_, c₈, hlift, h⟩ := Reader.bind_eq_ok h
    obtain ⟨hchecked, rfl⟩ := Reader.lift_eq_ok_iff.mp hlift
    obtain ⟨values, c₉, hread, h⟩ := Reader.bind_eq_ok h
    obtain ⟨hvalues, rfl, rfl⟩ := (readOrThrow_eq_ok_iff hterms).mp hread
    obtain ⟨hadd, rfl⟩ := Reader.lift_eq_ok_iff.mp h
    obtain ⟨hhead, hlast⟩ := checkIndptr_eq_ok_iff.mp hindptr
    obtain ⟨hrows, hcols⟩ := checkRange_eq_ok_iff.mp hrange
    have hwide : wideTerms (termBytesOf file) = _ := wideTerms_termBytesOf hterms
    have hacceptable : Acceptable dimension file :=
      ⟨⟨checkHeader_eq_ok_iff.mp hpositive, size_eq_of_fits hsize hvalues, hhead, hlast,
        hwide ▸ checkTerms_eq_ok_iff.mp hchecked⟩, hrows, hcols⟩
    have hadd' : addFresh nullData dimension (headerOf file).numRows (offsetsOf file) (termsOf file)
        (SparseVectors.codesOf U32 (nnzOf file) (valuesOf file)) = .ok v := by
      rw [termsOf, hwide]
      exact hadd
    rw [addFresh_stored nullData hacceptable] at hadd'
    split at hadd'
    · cases hadd'
    · rename_i hnull
      cases hadd'
      exact ⟨hacceptable, hnull, rfl⟩
  · rintro ⟨hacceptable, hnull, rfl⟩
    have hin := hacceptable.interchange
    have hsize := hin.size
    have hterms : termsAt file = 24 + indptrSizeOf file * 8 := rfl
    have hdeclared : file.length = interchangeFileSize (indptrSizeOf file) (nnzOf file) := by
      rw [hsize]
      exact (u64_of_lt (by omega)).symm
    have h24 : 24 ≤ file.length := by omega
    have hstart : termsAt file ≤ file.length := by omega
    have hmid : termsAt file + nnzOf file * 4 ≤ file.length := by omega
    have hwide := wideTerms_termBytesOf hmid
    have h₁ : readHeader path ⟨file, 0⟩ = .ok (headerOf file, ⟨file, 24⟩) :=
      readHeader_eq_ok_iff.mpr ⟨h24, rfl, rfl⟩
    have h₂ : Reader.lift (checkHeader path (headerOf file)) ⟨file, 24⟩ = .ok ((), ⟨file, 24⟩) :=
      Reader.lift_eq_ok_iff.mpr ⟨checkHeader_eq_ok_iff.mpr hin.header, rfl⟩
    have h₃ : Reader.lift (checkRange path dimension (headerOf file)) ⟨file, 24⟩
        = .ok ((), ⟨file, 24⟩) :=
      Reader.lift_eq_ok_iff.mpr
        ⟨checkRange_eq_ok_iff.mpr ⟨hacceptable.rows, hacceptable.cols⟩, rfl⟩
    have h₄ : checkInterchange path (headerOf file) ⟨file, 24⟩ = .ok ((), ⟨file, 24⟩) :=
      checkInterchange_eq_ok_iff.mpr ⟨hdeclared, rfl⟩
    have h₅ : readVector offsetCodec path (indptrSizeOf file) ⟨file, 24⟩
        = .ok (offsetsOf file, ⟨file, termsAt file⟩) :=
      (readVector_eq_ok_iff h24).mpr ⟨show indptrSizeOf file * 8 < 2 ^ 63 by omega, hstart, rfl, rfl⟩
    have h₆ : Reader.lift (checkIndptr path (headerOf file).nnz (offsetsOf file))
        ⟨file, termsAt file⟩ = .ok ((), ⟨file, termsAt file⟩) :=
      Reader.lift_eq_ok_iff.mpr ⟨checkIndptr_eq_ok_iff.mpr ⟨hin.head, hin.last⟩, rfl⟩
    have h₇ : readVector intCodec path (nnzOf file) ⟨file, termsAt file⟩
        = .ok (wideTerms (termBytesOf file), ⟨file, termsAt file + nnzOf file * 4⟩) :=
      (readVector_eq_ok_iff hstart).mpr ⟨show nnzOf file * 4 < 2 ^ 63 by omega, hmid, hwide, rfl⟩
    have h₈ : Reader.lift (checkTerms path (headerOf file).numCols (wideTerms (termBytesOf file)))
        ⟨file, termsAt file + nnzOf file * 4⟩
          = .ok ((), ⟨file, termsAt file + nnzOf file * 4⟩) :=
      Reader.lift_eq_ok_iff.mpr ⟨checkTerms_eq_ok_iff.mpr hin.terms, rfl⟩
    have h₉ : readOrThrow path (nnzOf file * U32) ⟨file, termsAt file + nnzOf file * 4⟩
        = .ok (valuesOf file, ⟨file, termsAt file + nnzOf file * 4 + nnzOf file * 4⟩) :=
      (readOrThrow_eq_ok_iff hmid).mpr ⟨hsize.ge, rfl, rfl⟩
    have hadd := addFresh_stored nullData hacceptable
    rw [if_neg hnull] at hadd
    exact ⟨_, (Reader.bind_of_ok h₁).trans <| (Reader.bind_of_ok h₂).trans <|
      (Reader.bind_of_ok h₃).trans <| (Reader.bind_of_ok h₄).trans <| (Reader.bind_of_ok h₅).trans <|
      (Reader.bind_of_ok h₆).trans <| (Reader.bind_of_ok h₇).trans <| (Reader.bind_of_ok h₈).trans <|
      (Reader.bind_of_ok h₉).trans <| Reader.lift_eq_ok_iff.mpr ⟨hadd, rfl⟩⟩

/-! ### Reading the native form -/

/-- The values begin behind the padding. -/
def nativeValuesAt (file : Bytes) : ℕ := unpadded file + padding (unpadded file) 4

/-- What was read from a file fits where it is written. -/
theorem fits_offsetsOf {off : ℕ} (h : off ∈ offsetsOf file) : offsetCodec.Fits off := by
  obtain ⟨b, hlen, rfl⟩ := Codec.mem_decAll _ h
  exact Codec.fits_nat_dec hlen

theorem fits_termsOf (hin : Interchange file) {t : ℕ} (h : t ∈ termsOf file) : termCodec.Fits t := by
  obtain ⟨term, hterm, rfl⟩ := List.mem_map.mp h
  obtain ⟨h0, -, hmax⟩ := hin.terms term hterm
  exact Codec.fits_nat (show term.toNat < 65536 by omega)

/-- The header was read, so it can be written. -/
theorem fits_headerOf (file : Bytes) : longCodec.Fits (headerOf file).numRows ∧
    longCodec.Fits (headerOf file).numCols ∧ longCodec.Fits (headerOf file).nnz := by
  refine ⟨Codec.fits_int_dec ?_, Codec.fits_int_dec ?_, Codec.fits_int_dec ?_⟩
  · exact List.length_take_le _ _
  · exact List.length_take_le _ _
  · have hlen := List.length_take_le 24 (file.drop 0)
    rw [List.length_drop, List.length_drop]
    exact Nat.sub_le_of_le_add (Nat.sub_le_of_le_add hlen)

theorem length_valuesOf (hin : Interchange file) : (valuesOf file).length = nnzOf file * 4 := by
  have hsize := hin.size
  rw [valuesOf, List.length_take, List.length_drop]
  omega

/-- The sections of a native file, in order. -/
theorem nativeOf_eq (file : Bytes) : nativeOf file
    = longCodec.enc (headerOf file).numRows ++ (longCodec.enc (headerOf file).numCols ++
      (longCodec.enc (headerOf file).nnz ++ (offsetCodec.encAll (offsetsOf file) ++
      (termCodec.encAll (termsOf file) ++ (List.replicate (padding (unpadded file) 4) 0 ++
      (Codec.byte.encAll (valuesOf file) ++ [])))))) := by
  rw [Codec.encAll_byte, List.append_nil, nativeOf]
  show (longCodec.enc _ ++ (longCodec.enc _ ++ longCodec.enc _)) ++ _ ++ _ ++ _ ++ _ = _
  simp only [List.append_assoc]

/-- The header and the arrays of a native file are read back. -/
theorem readMcsr_nativeOf (hfile : file.length < 2 ^ 63) (hin : Interchange file) :
    ∃ c, readMcsr path dimension U32 ⟨nativeOf file, 0⟩
      = ((Reader.lift (checkRange path dimension (headerOf file))).bind fun _ =>
          Reader.lift (SparseVectors.mapVectors U32 dimension.toNat (offsetsOf file) (termsOf file)
            (valuesOf file) (if valuesOf file = [] then 0 else nativeValuesAt file))) c := by
  have hsize := hin.size
  have hterms := length_termsOf hin
  have hvalues := length_valuesOf hin
  have hat : termsAt file = 24 + indptrSizeOf file * 8 := rfl
  have hunpadded : unpadded file = termsAt file + nnzOf file * 2 := rfl
  have hpad := @padding_lt (unpadded file) 4 (by decide)
  have hstart : nativeValuesOffset (indptrSizeOf file) (nnzOf file) = nativeValuesAt file := by
    have hu : u64 (kHeaderBytes + indptrSizeOf file * 8 + nnzOf file * 2) = unpadded file :=
      u64_of_lt (show 24 + indptrSizeOf file * 8 + nnzOf file * 2 < 2 ^ 64 by omega)
    rw [nativeValuesOffset, hu]
    exact u64_of_lt (show unpadded file + padding (unpadded file) 4 < 2 ^ 64 by omega)
  have hvaluesAt : nativeValuesAt file = unpadded file + padding (unpadded file) 4 := rfl
  -- what lies before each section, and how long it is
  have hshape := nativeOf_eq file
  obtain ⟨hrows, hcols, hnnz⟩ := fits_headerOf file
  have hlong : ∀ i, (longCodec.enc i).length = 8 := longCodec.length_enc
  have hoffsets : (offsetCodec.encAll (offsetsOf file)).length = indptrSizeOf file * 8 := by
    rw [Codec.length_encAll, length_offsetsOf]
    rfl
  have hnarrow : (termCodec.encAll (termsOf file)).length = nnzOf file * 2 := by
    rw [Codec.length_encAll, hterms]
    rfl
  have hlength : (nativeOf file).length = nativeValuesAt file + nnzOf file * 4 := by
    rw [hshape, Codec.encAll_byte]
    simp only [List.length_append, hlong, hoffsets, hnarrow, hvalues, List.length_replicate,
      List.length_nil]
    omega
  have h₁ : readScalar longCodec ⟨nativeOf file, 0⟩
      = .ok ((headerOf file).numRows, ⟨nativeOf file, 8⟩) :=
    readScalar_at longCodec hrows (hshape.trans (List.nil_append _).symm) rfl
  have h₂ : readScalar longCodec ⟨nativeOf file, 8⟩
      = .ok ((headerOf file).numCols, ⟨nativeOf file, 16⟩) :=
    readScalar_at longCodec hcols hshape (hlong _)
  have h₃ : readScalar longCodec ⟨nativeOf file, 16⟩
      = .ok ((headerOf file).nnz, ⟨nativeOf file, 24⟩) := by
    rw [← List.append_assoc] at hshape
    refine readScalar_at longCodec hnnz hshape ?_
    rw [List.length_append, hlong, hlong]
  have h₄ : readArray offsetCodec (indptrSizeOf file) ⟨nativeOf file, 24⟩
      = .ok (offsetsOf file, ⟨nativeOf file, termsAt file⟩) := by
    rw [← List.append_assoc, ← List.append_assoc] at hshape
    have hread := @readArray_at _ offsetCodec (offsetsOf file) (fun _ => fits_offsetsOf) (by decide)
      _ _ _ 24 hshape (by rw [List.length_append, List.length_append, hlong, hlong, hlong]) (by decide)
    rwa [length_offsetsOf] at hread
  have h₅ : readArray termCodec (nnzOf file) ⟨nativeOf file, termsAt file⟩
      = .ok (termsOf file, ⟨nativeOf file, unpadded file⟩) := by
    rw [← List.append_assoc, ← List.append_assoc, ← List.append_assoc] at hshape
    have hread := @readArray_at _ termCodec (termsOf file) (fun _ => fits_termsOf hin) (by decide)
      _ _ _ (termsAt file) hshape
      (by simp only [List.length_append, hlong, hoffsets]; omega)
      (show 2 ∣ termsAt file by omega)
    rwa [hterms] at hread
  have h₆ : skipToValues (headerOf file) ⟨nativeOf file, unpadded file⟩
      = .ok ((), ⟨nativeOf file, nativeValuesAt file⟩) := by
    have hdistance : u64 (nativeValuesOffset (indptrSizeOf file) (nnzOf file)
        + (2 ^ 64 - u64 (unpadded file))) = padding (unpadded file) 4 := by
      rw [hstart, hvaluesAt, u64_of_lt (show unpadded file < 2 ^ 64 by omega), u64]
      omega
    show skip (u64 (nativeValuesOffset (indptrSizeOf file) (nnzOf file)
      + (2 ^ 64 - u64 (unpadded file)))) _ = _
    have hleft : ¬ (⟨nativeOf file, unpadded file⟩ : Cursor).remaining
        < padding (unpadded file) 4 := by
      rw [Cursor.remaining, hlength]
      dsimp only
      omega
    rw [hdistance, skip, if_neg hleft, hvaluesAt]
  have h₇ : readArray .byte (u64 (nnzOf file * U32)) ⟨nativeOf file, nativeValuesAt file⟩
      = .ok (valuesOf file, ⟨nativeOf file, nativeValuesAt file + nnzOf file * 4⟩) := by
    rw [← List.append_assoc, ← List.append_assoc, ← List.append_assoc, ← List.append_assoc,
      ← List.append_assoc] at hshape
    have hread := @readArray_at _ .byte (valuesOf file) (fun b _ => Codec.fits_byte b) (by decide)
      _ _ _ (nativeValuesAt file) hshape
      (by
        simp only [List.length_append, hlong, hoffsets, hnarrow, List.length_replicate]
        omega)
      (one_dvd _)
    rw [hvalues, show Codec.byte.width = 1 from rfl, Nat.mul_one] at hread
    rwa [u64_of_lt (show nnzOf file * U32 < 2 ^ 64 from by
      show nnzOf file * 4 < 2 ^ 64
      omega)]
  have hheader : Reader.lift (checkHeader path (headerOf file)) ⟨nativeOf file, 24⟩
      = .ok ((), ⟨nativeOf file, 24⟩) :=
    Reader.lift_eq_ok_iff.mpr ⟨checkHeader_eq_ok_iff.mpr hin.header, rfl⟩
  have hnative : checkNative path (headerOf file) U32 ⟨nativeOf file, 24⟩
      = .ok ((), ⟨nativeOf file, 24⟩) := by
    have hsize' : (nativeOf file).length
        = nativeFileSize ((headerOf file).numRows.toNat + 1) (headerOf file).nnz.toNat U32 := by
      show _ = u64 (nativeValuesOffset (indptrSizeOf file) (nnzOf file) + nnzOf file * 4)
      rw [hstart, hlength]
      exact (u64_of_lt (by omega)).symm
    exact if_neg (not_not.mpr hsize')
  have hend : (if valuesOf file = [] then 0
      else nativeValuesAt file + nnzOf file * 4 - (valuesOf file).length)
        = if valuesOf file = [] then 0 else nativeValuesAt file := by
    rw [hvalues, Nat.add_sub_cancel]
  refine ⟨⟨nativeOf file, nativeValuesAt file + nnzOf file * 4⟩,
    (Reader.bind_of_ok h₁).trans <| (Reader.bind_of_ok h₂).trans <| (Reader.bind_of_ok h₃).trans <|
    (Reader.bind_of_ok hheader).trans ?_⟩
  rcases hrange : checkRange path dimension (headerOf file) with e | _
  · rfl
  · refine (Reader.bind_of_ok hnative).trans <| (Reader.bind_of_ok h₄).trans <|
      (Reader.bind_of_ok h₅).trans <| (Reader.bind_of_ok h₆).trans <| (Reader.bind_of_ok h₇).trans ?_
    dsimp only
    rw [hend]
    rfl

/-- The checks of a mapped layout that a converted file may still fail. -/
theorem mapVectors_stored (hin : Interchange file) (hdim : 0 < dimension) {v : SparseVectors Code} :
    SparseVectors.mapVectors U32 dimension.toNat (offsetsOf file) (termsOf file) (valuesOf file)
        (if valuesOf file = [] then 0 else nativeValuesAt file) = .ok v ↔
      (offsetsOf file).IsChain (· ≤ ·) ∧ v = stored dimension file := by
  have hterms := length_termsOf hin
  have hvalues := length_valuesOf hin
  have hne : offsetsOf file ≠ [] := fun hnil => by
    have htwo := two_le_indptrSizeOf hin
    rw [← length_offsetsOf, hnil] at htwo
    exact absurd htwo (by decide)
  have haligned : (if valuesOf file = [] then 0 else nativeValuesAt file) % U32 = 0 := by
    split
    · rfl
    · exact Nat.mod_eq_zero_of_dvd (dvd_add_padding (unpadded file) (by decide))
  rw [SparseVectors.mapVectors, if_neg (by omega), if_neg (by decide), if_neg hne,
    if_neg (not_not.mpr (by rw [hterms, hvalues]; rfl)), if_neg (not_not.mpr haligned),
    if_neg (not_not.mpr hin.head), hterms]
  by_cases hmono : (offsetsOf file).IsChain (· ≤ ·)
  · rw [if_neg (not_not.mpr hmono), if_neg (not_not.mpr hin.last)]
    constructor
    · rintro ⟨⟩
      exact ⟨hmono, rfl⟩
    · rintro ⟨-, rfl⟩
      rfl
  · rw [if_pos hmono]
    exact iff_of_false (by simp) fun h => hmono h.1

/-- What the mapped path stores is a valid layout. -/
theorem stored_invariants (hin : Interchange file) (hdim : 0 < dimension)
    (hmono : (offsetsOf file).IsChain (· ≤ ·)) : (stored dimension file).CsrInvariants :=
  SparseVectors.mapVectors_invariants ((mapVectors_stored hin hdim).mpr ⟨hmono, rfl⟩)

/-- **The mapped path** takes the acceptable files whose offsets never decrease. -/
theorem ingestMapped_eq_ok_iff (path : String) (dimension : ℤ) (hfile : file.length < 2 ^ 63)
    {v : SparseVectors Code} :
    ingestMapped path dimension file = .ok v ↔
      Acceptable dimension file ∧ (offsetsOf file).IsChain (· ≤ ·) ∧ v = stored dimension file := by
  have hread : ∀ hin : Interchange file,
      (readMcsr path dimension U32 ⟨nativeOf file, 0⟩).map Prod.fst = .ok v ↔
        ((headerOf file).numRows ≤ maxIdx ∧ (headerOf file).numCols ≤ dimension) ∧
          (offsetsOf file).IsChain (· ≤ ·) ∧ v = stored dimension file := by
    intro hin
    obtain ⟨c, hc⟩ : ∃ c, readMcsr path dimension U32 ⟨nativeOf file, 0⟩ = _ :=
      readMcsr_nativeOf hfile hin
    rw [hc, ← @checkRange_eq_ok_iff dimension path]
    rcases hrange : checkRange path dimension (headerOf file) with e | _
    · exact iff_of_false (fun h => by cases h) fun h => by cases h.1
    obtain ⟨-, hcols⟩ := checkRange_eq_ok_iff.mp hrange
    rw [← mapVectors_stored hin (hin.header.2.1.trans_le hcols)]
    show Except.map Prod.fst (Reader.lift (SparseVectors.mapVectors _ _ _ _ _ _) c) = .ok v ↔ _
    rcases SparseVectors.mapVectors U32 dimension.toNat (offsetsOf file) (termsOf file)
      (valuesOf file) (if valuesOf file = [] then 0 else nativeValuesAt file) with e | w
    · exact iff_of_false (fun h => by cases h) fun h => by cases h.2
    · simp [Reader.lift, Except.map]
  rw [ingestMapped]
  constructor
  · intro h
    split at h
    · cases h
    rename_i native c hconvert
    obtain ⟨hin, -, rfl⟩ := (convert_eq_ok_iff hfile).mp ⟨c, hconvert⟩
    obtain ⟨⟨hrows, hcols⟩, hmono, rfl⟩ := (hread hin).mp h
    exact ⟨⟨hin, hrows, hcols⟩, hmono, rfl⟩
  · rintro ⟨hacceptable, hmono, rfl⟩
    have hin := hacceptable.interchange
    -- an offset is at most the last one, so none is negative
    have hnonneg : ∀ off ∈ offsetsOf file, off < 2 ^ 63 := by
      intro off hoff
      have hdim : 0 < dimension := hin.header.2.1.trans_le hacceptable.cols
      have hoffsets := (stored_invariants hin hdim hmono).wellFormed.offsets (List.ne_nil_of_mem hoff)
      have hle : off ≤ (termsOf file).length := hoffsets.le_of_mem hoff
      have hsize := hin.size
      rw [length_termsOf hin] at hle
      omega
    obtain ⟨c, hconvert⟩ := (convert_eq_ok_iff hfile).mpr ⟨hin, hnonneg, rfl⟩
    rw [hconvert]
    exact (hread hin).mpr ⟨⟨hacceptable.rows, hacceptable.cols⟩, hmono, rfl⟩

/-! ### Where the two agree -/

/-- **The two paths accept the same files and store the same valid matrix, but for two kinds of
file that one of them takes:** the path into memory does not look at offsets between the first
and the last, and it refuses a file without entries where an empty vector has a null pointer. -/
theorem ingests_agree_iff (nullData : Bool) (path : String) (dimension : ℤ) (file : Bytes)
    (hfile : file.length < 2 ^ 63) :
    (((∃ v, ingestInMemory nullData path dimension file = .ok v) ↔
        ∃ w, ingestMapped path dimension file = .ok w) ∧
      ∀ v w, ingestInMemory nullData path dimension file = .ok v →
        ingestMapped path dimension file = .ok w → v = w ∧ w.CsrInvariants) ↔
      (Acceptable dimension file →
        ((offsetsOf file).IsChain (· ≤ ·) ↔ ¬ (nullData = true ∧ nnzOf file = 0))) := by
  have hmemory : ∀ {v}, ingestInMemory nullData path dimension file = .ok v ↔ _ :=
    ingestInMemory_eq_ok_iff nullData hfile
  have hmapped : ∀ {w}, ingestMapped path dimension file = .ok w ↔ _ :=
    ingestMapped_eq_ok_iff path dimension hfile
  constructor
  · rintro ⟨hiff, -⟩ hacceptable
    constructor
    · intro hmono
      obtain ⟨v, hv⟩ := hiff.mpr ⟨_, hmapped.mpr ⟨hacceptable, hmono, rfl⟩⟩
      exact (hmemory.mp hv).2.1
    · intro hnull
      obtain ⟨w, hw⟩ := hiff.mp ⟨_, hmemory.mpr ⟨hacceptable, hnull, rfl⟩⟩
      exact (hmapped.mp hw).2.1
  · intro h
    refine ⟨⟨?_, ?_⟩, ?_⟩
    · rintro ⟨v, hv⟩
      obtain ⟨hacceptable, hnull, rfl⟩ := hmemory.mp hv
      exact ⟨_, hmapped.mpr ⟨hacceptable, (h hacceptable).mpr hnull, rfl⟩⟩
    · rintro ⟨w, hw⟩
      obtain ⟨hacceptable, hmono, rfl⟩ := hmapped.mp hw
      exact ⟨_, hmemory.mpr ⟨hacceptable, (h hacceptable).mp hmono, rfl⟩⟩
    · intro v w hv hw
      obtain ⟨hacceptable, -, rfl⟩ := hmemory.mp hv
      obtain ⟨-, hmono, rfl⟩ := hmapped.mp hw
      have hin := hacceptable.interchange
      exact ⟨rfl, stored_invariants hin (hin.header.2.1.trans_le hacceptable.cols) hmono⟩

/-- A file of two rows and one entry, whose second offset is beyond the last. -/
def decreasingFile : Bytes :=
  headerCodec.enc ⟨2, 1, 1⟩ ++ offsetCodec.encAll [0, 2, 1] ++ intCodec.enc 0 ++ [0, 0, 128, 63]

theorem ingests_agree_iff_decreasing :
    (((∃ v, ingestInMemory true "corpus" 1 decreasingFile = .ok v) ↔
        ∃ w, ingestMapped "corpus" 1 decreasingFile = .ok w) ∧
      ∀ v w, ingestInMemory true "corpus" 1 decreasingFile = .ok v →
        ingestMapped "corpus" 1 decreasingFile = .ok w → v = w ∧ w.CsrInvariants) ↔
      (Acceptable 1 decreasingFile →
        ((offsetsOf decreasingFile).IsChain (· ≤ ·) ↔
          ¬ (true = true ∧ nnzOf decreasingFile = 0))) :=
  ingests_agree_iff true "corpus" 1 decreasingFile (by decide)

/-- The path into memory takes it and the mapped one does not. -/
theorem memory_alone_accepts_decreasing :
    ¬ ((∃ v, ingestInMemory true "corpus" 1 decreasingFile = .ok v) ↔
      ∃ w, ingestMapped "corpus" 1 decreasingFile = .ok w) := by
  have hmemory : ingestInMemory true "corpus" 1 decreasingFile
      = .ok ⟨U32, 1, [0, 2, 1], [0], [[0, 0, 128, 63]]⟩ := by decide
  have hmapped : ingestMapped "corpus" 1 decreasingFile
      = .error (.invalidArgument "Mapped indptr is not monotonic") := by decide
  rw [hmemory, hmapped]
  intro h
  obtain ⟨w, hw⟩ := h.mp ⟨_, rfl⟩
  cases hw

end Nsparse
