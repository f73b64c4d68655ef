/-
Nsparse/CsrLayout.lean

The two layouts of a CSR file, and the conversion from one to the other.

Both have a header of three 64-bit integers and the offsets.  The interchange layout
then stores terms in 4 bytes and values; the native one stores terms in 2 bytes,
pads, and stores the values, so that a mapping can be used in place.  `convert`
copies header and offsets and streams the two large arrays in chunks.  A chunk is
taken or refused for its elements alone, so a stream is for all of them
(`stream_eq_ok_iff`).
-/
import Nsparse.InlineLayout
import Nsparse.Serialize
import Nsparse.SparseVectors
import Nsparse.Values
import Nsparse.VectorStore

namespace Nsparse

open Wire

namespace CsrLayout

/-- `int64_t` and `int32_t`. -/
def longCodec : Codec ℤ := .int 8
def intCodec : Codec ℤ := .int 4

/-- Elements of a chunk; it bounds the memory of a conversion. -/
def kChunkElements : ℕ := 65536

def kHeaderBytes : ℕ := 24

def interchangeFileSize (indptrSize nnz : ℕ) : ℕ :=
  u64 (kHeaderBytes + indptrSize * 8 + nnz * 4 + nnz * 4)

def nativeValuesOffset (indptrSize nnz : ℕ) : ℕ :=
  let unaligned := u64 (kHeaderBytes + indptrSize * 8 + nnz * 2)
  u64 (unaligned + padding unaligned 4)

def nativeFileSize (indptrSize nnz elementSize : ℕ) : ℕ :=
  u64 (nativeValuesOffset indptrSize nnz + nnz * elementSize)

/-! ### Reading a file -/

/-- `read_or_throw`. -/
def readOrThrow (path : String) (bytes : ℕ) : Reader Exception Bytes := fun cursor =>
  if cursor.remaining < bytes then .error (.runtimeError s!"Truncated CSR file: {path}")
  else .ok ((cursor.data.drop cursor.pos).take bytes, { cursor with pos := cursor.pos + bytes })

/-- A vector of `n` elements, read from the file. -/
def readVector {α : Type} (c : Codec α) (path : String) (n : ℕ) : Reader Exception (List α) :=
  fun cursor =>
    if 2 ^ 63 ≤ n * c.width then
      .error (.lengthError "cannot create std::vector larger than max_size()")
    else (readOrThrow path (n * c.width)).map (c.decAll n) cursor

/-- The rows, columns and entries a file declares. -/
structure Header where
  numRows : ℤ
  numCols : ℤ
  nnz : ℤ
  deriving Repr, DecidableEq

/-- The header as three numbers in a row. -/
def headerCodec : Codec Header :=
  (longCodec.pair (longCodec.pair longCodec)).record (fun p => ⟨p.1, p.2.1, p.2.2⟩)
    fun h => (h.numRows, h.numCols, h.nnz)

/-- The header is one array of three numbers. -/
def readHeader (path : String) : Reader Exception Header :=
  (readOrThrow path headerCodec.width).map headerCodec.dec

/-- `num_rows <= 0 || num_cols <= 0 || nnz < 0`. -/
def checkHeader (path : String) (h : Header) : Except Exception Unit :=
  if h.numRows ≤ 0 ∨ h.numCols ≤ 0 ∨ h.nnz < 0 then
    .error (.invalidArgument s!"Invalid CSR header in: {path}")
  else .ok ()

/-- The size of the file tells that it is in the interchange layout. -/
def checkInterchange (path : String) (h : Header) : Reader Exception Unit := fun cursor =>
  if cursor.data.length ≠ interchangeFileSize (h.numRows.toNat + 1) h.nnz.toNat then
    .error (.invalidArgument s!"CSR file is not in the interchange layout: {path}")
  else .ok ((), cursor)

/-- The offsets begin at 0 and end at the number of entries. -/
def checkIndptr (path : String) (nnz : ℤ) (indptr : List ℕ) : Except Exception Unit :=
  if indptr.headD 0 ≠ 0 ∨ indptr.getLast?.getD 0 ≠ nnz.toNat then
    .error (.invalidArgument s!"Inconsistent CSR indptr in: {path}")
  else .ok ()

/-! ### Converting -/

/-- An offset is negative when its sign bit is set. -/
def checkNonnegative (path : String) (indptr : List ℕ) : Except Exception Unit :=
  if indptr.any fun off => decide (2 ^ 63 ≤ off) then
    .error (.invalidArgument s!"CSR indptr has a negative offset in: {path}")
  else .ok ()

/-- A chunk of terms, checked and narrowed to 16 bits. -/
def narrowTerms (path : String) (numCols : ℤ) (chunk : Bytes) : Except Exception Bytes :=
  let wide := intCodec.decAll (chunk.length / 4) chunk
  if wide.any fun term => decide (numCols ≤ term) then
    .error (.invalidArgument s!"CSR term out of range in: {path}")
  else if wide.any fun term => decide (term < 0 ∨ 65535 < term) then
    .error (.invalidArgument s!"term does not fit the native CSR width in: {path}")
  else .ok (termCodec.encAll (wide.map Int.toNat))

/-- The loop that copies an array of `left` elements of `width` bytes chunk by chunk. -/
def stream (path : String) (width : ℕ) (f : Bytes → Except Exception Bytes) :
    ℕ → ℕ → Bytes → Reader Exception Bytes
  | 0, _, out => fun cursor => .ok (out, cursor)
  | fuel + 1, left, out =>
      if left = 0 then fun cursor => .ok (out, cursor)
      else
        let count := min kChunkElements left
        (readOrThrow path (count * width)).bind fun chunk =>
        (Reader.lift (f chunk)).bind fun narrowed =>
        stream path width f fuel (left - count) (out ++ narrowed)

/-- `convert`: the bytes of the file it writes. -/
def convert (path : String) : Reader Exception Bytes :=
  (readHeader path).bind fun header =>
  (Reader.lift (checkHeader path header)).bind fun _ =>
  (checkInterchange path header).bind fun _ =>
  (readVector offsetCodec path (header.numRows.toNat + 1)).bind fun indptr =>
  (Reader.lift (checkIndptr path header.nnz indptr)).bind fun _ =>
  (Reader.lift (checkNonnegative path indptr)).bind fun _ =>
  let nnz := header.nnz.toNat
  let out := headerCodec.enc header ++ offsetCodec.encAll indptr
  (stream path 4 (narrowTerms path header.numCols) nnz nnz out).bind fun out =>
  let valuesPos := u64 (kHeaderBytes + (header.numRows.toNat + 1) * 8 + nnz * 2)
  stream path 4 .ok nnz nnz (out ++ List.replicate (padding valuesPos 4) 0)

/-! ### What the reads give -/

variable {α : Type} {path : String} {data : Bytes} {pos : ℕ} {c' : Cursor}

theorem readOrThrow_eq_ok_iff {n : ℕ} {bytes : Bytes} (hpos : pos ≤ data.length) :
    readOrThrow path n ⟨data, pos⟩ = .ok (bytes, c') ↔
      pos + n ≤ data.length ∧ bytes = (data.drop pos).take n ∧ c' = ⟨data, pos + n⟩ := by
  rw [readOrThrow]
  split
  · rename_i h
    have hlt : data.length - pos < n := h
    exact iff_of_false (by simp) fun h => by omega
  · rename_i h
    have hle : ¬ data.length - pos < n := h
    constructor
    · rintro ⟨⟩
      exact ⟨by omega, rfl, rfl⟩
    · rintro ⟨-, rfl, rfl⟩
      rfl

theorem readVector_eq_ok_iff {c : Codec α} {n : ℕ} {xs : List α} (hpos : pos ≤ data.length) :
    readVector c path n ⟨data, pos⟩ = .ok (xs, c') ↔
      n * c.width < 2 ^ 63 ∧ pos + n * c.width ≤ data.length ∧ xs = c.arrayAt data pos n ∧
        c' = ⟨data, pos + n * c.width⟩ := by
  rw [readVector]
  split
  · rename_i hbig
    exact iff_of_false (by simp) fun h => absurd hbig (not_le.mpr h.1)
  · rename_i hsmall
    have hdec : c.decAll n ((data.drop pos).take (n * c.width)) = c.arrayAt data pos n :=
      c.decAll_take n _
    rw [Reader.map]
    constructor
    · intro h
      split at h
      · cases h
      · rename_i bytes cursor hread
        obtain ⟨hfits, rfl, rfl⟩ := (readOrThrow_eq_ok_iff hpos).mp hread
        cases h
        exact ⟨not_le.mp hsmall, hfits, hdec, rfl⟩
    · rintro ⟨-, hfits, rfl, rfl⟩
      rw [(readOrThrow_eq_ok_iff hpos).mpr ⟨hfits, rfl, rfl⟩, ← hdec]

theorem readHeader_eq_ok_iff {h : Header} : readHeader path ⟨data, 0⟩ = .ok (h, c') ↔
    24 ≤ data.length ∧ h = headerCodec.readAt data 0 ∧ c' = ⟨data, 24⟩ := by
  rw [readHeader, Reader.map]
  constructor
  · intro hok
    split at hok
    · cases hok
    · rename_i bytes cursor hread
      obtain ⟨hfits, rfl, rfl⟩ := (readOrThrow_eq_ok_iff (Nat.zero_le _)).mp hread
      cases hok
      have hfits' : 0 + 24 ≤ data.length := hfits
      exact ⟨by omega, rfl, rfl⟩
  · rintro ⟨hfits, rfl, rfl⟩
    have hread : readOrThrow path headerCodec.width ⟨data, 0⟩
        = .ok ((data.drop 0).take headerCodec.width, ⟨data, 0 + headerCodec.width⟩) :=
      (readOrThrow_eq_ok_iff (Nat.zero_le _)).mpr ⟨by
        show 0 + 24 ≤ data.length
        omega, rfl, rfl⟩
    rw [hread]
    rfl

/-- What `f` does with an array is what it does with its chunks. -/
structure Streams (width : ℕ) (f : Bytes → Except Exception Bytes) (P : Bytes → Prop)
    (g : Bytes → Bytes) : Prop where
  eq_ok_iff : ∀ bytes out, f bytes = .ok out ↔ P bytes ∧ out = g bytes
  nil : P [] ∧ g [] = []
  append : ∀ a b k, a.length = k * width → (P (a ++ b) ↔ P a ∧ P b) ∧ g (a ++ b) = g a ++ g b

/-- **The loop over the chunks** takes an array exactly when it is there and all of it is taken. -/
theorem stream_eq_ok_iff {width : ℕ} {f : Bytes → Except Exception Bytes} {P : Bytes → Prop}
    {g : Bytes → Bytes} (hf : Streams width f P g) {fuel left : ℕ} (hfuel : left ≤ fuel)
    (hpos : pos ≤ data.length) (out : Bytes) {out' : Bytes} :
    stream path width f fuel left out ⟨data, pos⟩ = .ok (out', c') ↔
      pos + left * width ≤ data.length ∧ P ((data.drop pos).take (left * width)) ∧
        out' = out ++ g ((data.drop pos).take (left * width)) ∧
        c' = ⟨data, pos + left * width⟩ := by
  have hzero : ∀ pos, pos ≤ data.length → ∀ out, (Except.ok (out, ⟨data, pos⟩)
      : Except Exception (Bytes × Cursor)) = .ok (out', c') ↔
      pos + 0 * width ≤ data.length ∧ P ((data.drop pos).take (0 * width)) ∧
        out' = out ++ g ((data.drop pos).take (0 * width)) ∧ c' = ⟨data, pos + 0 * width⟩ := by
    intro pos hpos out
    rw [Nat.zero_mul, List.take_zero, hf.nil.2, List.append_nil, add_zero]
    constructor
    · rintro ⟨⟩
      exact ⟨hpos, hf.nil.1, rfl, rfl⟩
    · rintro ⟨-, -, rfl, rfl⟩
      rfl
  induction fuel generalizing left pos out with
  | zero =>
      obtain rfl := Nat.le_zero.mp hfuel
      exact hzero pos hpos out
  | succ fuel ih =>
      rw [stream]
      split
      · rename_i h0
        rw [h0]
        exact hzero pos hpos out
      rename_i hne
      have hcount : 0 < min kChunkElements left := lt_min (by decide) (Nat.pos_of_ne_zero hne)
      have hle : min kChunkElements left ≤ left := min_le_right _ _
      generalize min kChunkElements left = count at hcount hle ⊢
      obtain ⟨rest, rfl⟩ := Nat.exists_eq_add_of_le hle
      have hbytes : (count + rest) * width = count * width + rest * width := Nat.add_mul _ _ _
      have hsplit : (data.drop pos).take ((count + rest) * width)
          = (data.drop pos).take (count * width)
            ++ (data.drop (pos + count * width)).take (rest * width) := by
        rw [hbytes, List.take_add, List.drop_drop]
      have hchunk : ((data.drop pos).take (count * width)).length = count * width ↔
          pos + count * width ≤ data.length := by
        rw [List.length_take, List.length_drop]
        omega
      dsimp only
      rw [Nat.add_sub_cancel_left, hsplit]
      constructor
      · intro h
        obtain ⟨chunk, c₁, hread, h⟩ := Reader.bind_eq_ok h
        obtain ⟨hfits, rfl, rfl⟩ := (readOrThrow_eq_ok_iff hpos).mp hread
        obtain ⟨narrowed, c₂, hlift, h⟩ := Reader.bind_eq_ok h
        obtain ⟨hx, rfl⟩ := Reader.lift_eq_ok_iff.mp hlift
        obtain ⟨hP, rfl⟩ := (hf.eq_ok_iff _ _).mp hx
        obtain ⟨hrest, hPrest, rfl, rfl⟩ := (ih (by omega) hfits _).mp h
        obtain ⟨hPiff, hg⟩ := hf.append _ ((data.drop (pos + count * width)).take (rest * width))
          count (hchunk.mpr hfits)
        refine ⟨by rw [hbytes]; omega, hPiff.mpr ⟨hP, hPrest⟩, ?_, ?_⟩
        · rw [hg, List.append_assoc]
        · rw [hbytes, add_assoc]
      · rintro ⟨hfits, hP, rfl, rfl⟩
        rw [hbytes] at hfits
        have hfirst : pos + count * width ≤ data.length := by omega
        obtain ⟨hPiff, hg⟩ := hf.append _ ((data.drop (pos + count * width)).take (rest * width))
          count (hchunk.mpr hfirst)
        obtain ⟨hPchunk, hPrest⟩ := hPiff.mp hP
        rw [Reader.bind_of_ok ((readOrThrow_eq_ok_iff hpos).mpr ⟨hfirst, rfl, rfl⟩),
          Reader.bind_of_ok (Reader.lift_eq_ok_iff.mpr
            ⟨(hf.eq_ok_iff _ _).mpr ⟨hPchunk, rfl⟩, rfl⟩)]
        refine (ih (by omega) hfirst _).mpr ⟨by omega, hPrest, ?_, ?_⟩
        · rw [hg, List.append_assoc]
        · rw [hbytes, add_assoc]

/-- Values are copied as they are. -/
theorem streams_values : Streams 4 .ok (fun _ => True) id where
  eq_ok_iff bytes out := by
    constructor
    · rintro ⟨⟩
      exact ⟨trivial, rfl⟩
    · rintro ⟨-, rfl⟩
      rfl
  nil := ⟨trivial, rfl⟩
  append a b k _ := ⟨⟨fun _ => ⟨trivial, trivial⟩, fun _ => trivial⟩, rfl⟩

/-- The terms in a run of bytes. -/
def wideTerms (bytes : Bytes) : List ℤ := intCodec.decAll (bytes.length / 4) bytes

/-- A term of the columns that 16 bits hold. -/
def TermInRange (numCols term : ℤ) : Prop := 0 ≤ term ∧ term < numCols ∧ term ≤ 65535

theorem streams_terms (path : String) (numCols : ℤ) :
    Streams 4 (narrowTerms path numCols) (fun bytes => ∀ t ∈ wideTerms bytes, TermInRange numCols t)
      (fun bytes => termCodec.encAll ((wideTerms bytes).map Int.toNat)) where
  eq_ok_iff bytes out := by
    have hwide : intCodec.decAll (bytes.length / 4) bytes = wideTerms bytes := rfl
    rw [narrowTerms, hwide]
    by_cases hcols : ∃ t ∈ wideTerms bytes, numCols ≤ t
    · obtain ⟨t, ht, hle⟩ := hcols
      rw [if_pos (List.any_eq_true.mpr ⟨t, ht, decide_eq_true hle⟩)]
      exact iff_of_false (by simp) fun h => absurd (h.1 t ht).2.1 (not_lt.mpr hle)
    by_cases hfit : ∃ t ∈ wideTerms bytes, t < 0 ∨ 65535 < t
    · obtain ⟨t, ht, hout⟩ := hfit
      rw [if_neg, if_pos (List.any_eq_true.mpr ⟨t, ht, decide_eq_true hout⟩)]
      · refine iff_of_false (by simp) fun h => ?_
        have hrange := h.1 t ht
        rcases hout with hneg | hbig
        · exact absurd hrange.1 (not_le.mpr hneg)
        · exact absurd hrange.2.2 (not_le.mpr hbig)
      · rw [List.any_eq_true]
        rintro ⟨t, ht, h⟩
        exact hcols ⟨t, ht, of_decide_eq_true h⟩
    · rw [if_neg, if_neg]
      · constructor
        · rintro ⟨⟩
          refine ⟨fun t ht => ⟨?_, ?_, ?_⟩, rfl⟩
          · exact not_lt.mp fun h => hfit ⟨t, ht, .inl h⟩
          · exact not_le.mp fun h => hcols ⟨t, ht, h⟩
          · exact not_lt.mp fun h => hfit ⟨t, ht, .inr h⟩
        · rintro ⟨-, rfl⟩
          rfl
      · rw [List.any_eq_true]
        rintro ⟨t, ht, h⟩
        exact hfit ⟨t, ht, of_decide_eq_true h⟩
      · rw [List.any_eq_true]
        rintro ⟨t, ht, h⟩
        exact hcols ⟨t, ht, of_decide_eq_true h⟩
  nil := ⟨fun t ht => absurd ht List.not_mem_nil, rfl⟩
  append a b k ha := by
    have happend : wideTerms (a ++ b) = wideTerms a ++ wideTerms b := by
      have hlen : (a ++ b).length / 4 = k + b.length / 4 := by
        rw [List.length_append, ha]
        omega
      rw [wideTerms, hlen, intCodec.decAll_append k (b.length / 4) ha, wideTerms, wideTerms, ha,
        Nat.mul_div_cancel _ (by decide)]
    refine ⟨?_, ?_⟩
    · rw [happend, List.forall_mem_append]
    · rw [happend, List.map_append, Codec.encAll_append]

/-! ### Interchange files -/

section File

variable (file : Bytes)

def headerOf : Header := headerCodec.readAt file 0

/-- The number of offsets. -/
def indptrSizeOf : ℕ := (headerOf file).numRows.toNat + 1

def nnzOf : ℕ := (headerOf file).nnz.toNat

def offsetsOf : List ℕ := offsetCodec.arrayAt file 24 (indptrSizeOf file)

/-- Where the terms begin. -/
def termsAt : ℕ := 24 + indptrSizeOf file * 8

def termBytesOf : Bytes := (file.drop (termsAt file)).take (nnzOf file * 4)

def valuesOf : Bytes := (file.drop (termsAt file + nnzOf file * 4)).take (nnzOf file * 4)

/-- What both ways of reading an interchange file check. -/
structure Interchange : Prop where
  header : 0 < (headerOf file).numRows ∧ 0 < (headerOf file).numCols ∧ 0 ≤ (headerOf file).nnz
  size : file.length = termsAt file + nnzOf file * 4 + nnzOf file * 4
  head : (offsetsOf file).headD 0 = 0
  last : (offsetsOf file).getLast?.getD 0 = nnzOf file
  terms : ∀ t ∈ wideTerms (termBytesOf file), TermInRange (headerOf file).numCols t

/-- The terms in 16 bits. -/
def termsOf : List ℕ := (wideTerms (termBytesOf file)).map Int.toNat

/-- Where the values of a native file would begin without padding. -/
def unpadded : ℕ := termsAt file + nnzOf file * 2

/-- The file that `convert` writes. -/
def nativeOf : Bytes :=
  headerCodec.enc (headerOf file) ++ offsetCodec.encAll (offsetsOf file)
    ++ termCodec.encAll (termsOf file)
    ++ List.replicate (padding (unpadded file) 4) 0 ++ valuesOf file

end File

variable {file : Bytes}

/-- The size of the file and the reads that succeed leave the declared size no room to wrap. -/
theorem size_eq_of_fits {n : ℕ} (hsize : file.length = u64 n) (hfits : n ≤ file.length) :
    file.length = n :=
  le_antisymm (hsize.trans_le (Nat.mod_le _ _)) hfits

theorem checkHeader_eq_ok_iff {h : Header} :
    checkHeader path h = .ok () ↔ 0 < h.numRows ∧ 0 < h.numCols ∧ 0 ≤ h.nnz := by
  rw [checkHeader]
  split
  · exact iff_of_false (by simp) (by omega)
  · exact iff_of_true rfl (by omega)

theorem checkInterchange_eq_ok_iff {h : Header} {c : Cursor} :
    checkInterchange path h c = .ok ((), c') ↔
      c.data.length = interchangeFileSize (h.numRows.toNat + 1) h.nnz.toNat ∧ c' = c := by
  rw [checkInterchange]
  split
  · rename_i hne
    exact iff_of_false (by simp) fun h => hne h.1
  · rename_i heq
    constructor
    · rintro ⟨⟩
      exact ⟨not_not.mp heq, rfl⟩
    · rintro ⟨-, rfl⟩
      rfl

theorem checkIndptr_eq_ok_iff {nnz : ℤ} {indptr : List ℕ} :
    checkIndptr path nnz indptr = .ok () ↔
      indptr.headD 0 = 0 ∧ indptr.getLast?.getD 0 = nnz.toNat := by
  rw [checkIndptr]
  split
  · exact iff_of_false (by simp) (by tauto)
  · exact iff_of_true rfl (by tauto)

theorem checkNonnegative_eq_ok_iff {indptr : List ℕ} :
    checkNonnegative path indptr = .ok () ↔ ∀ off ∈ indptr, off < 2 ^ 63 := by
  rw [checkNonnegative]
  split
  · rename_i h
    obtain ⟨off, hoff, hneg⟩ := List.any_eq_true.mp h
    exact iff_of_false (by simp) fun hall =>
      absurd (hall off hoff) (not_lt.mpr (of_decide_eq_true hneg))
  · rename_i h
    refine iff_of_true rfl fun off hoff => not_le.mp fun hneg => h ?_
    exact List.any_eq_true.mpr ⟨off, hoff, decide_eq_true hneg⟩

/-- **`convert`** takes exactly the interchange files without a negative offset, and writes their
native form. -/
theorem convert_eq_ok_iff (hfile : file.length < 2 ^ 63) {native : Bytes} :
    (∃ c', convert path ⟨file, 0⟩ = .ok (native, c')) ↔
      Interchange file ∧ (∀ off ∈ offsetsOf file, off < 2 ^ 63) ∧ native = nativeOf file := by
  constructor
  · rintro ⟨c', h⟩
    obtain ⟨header, c₁, hheader, h⟩ := Reader.bind_eq_ok h
    obtain ⟨h24, rfl, rfl⟩ := readHeader_eq_ok_iff.mp hheader
    obtain ⟨_, c₂, hlift, h⟩ := Reader.bind_eq_ok h
    obtain ⟨hpositive, rfl⟩ := Reader.lift_eq_ok_iff.mp hlift
    obtain ⟨_, c₃, hcheck, h⟩ := Reader.bind_eq_ok h
    obtain ⟨hsize, rfl⟩ := checkInterchange_eq_ok_iff.mp hcheck
    obtain ⟨indptr, c₄, hread, h⟩ := Reader.bind_eq_ok h
    obtain ⟨-, hoffsets, rfl, rfl⟩ := (readVector_eq_ok_iff h24).mp hread
    obtain ⟨_, c₅, hlift, h⟩ := Reader.bind_eq_ok h
    obtain ⟨hindptr, rfl⟩ := Reader.lift_eq_ok_iff.mp hlift
    obtain ⟨_, c₆, hlift, h⟩ := Reader.bind_eq_ok h
    obtain ⟨hnonneg, rfl⟩ := Reader.lift_eq_ok_iff.mp hlift
    obtain ⟨out, c₇, hterms, h⟩ := Reader.bind_eq_ok h
    obtain ⟨hfits, hP, rfl, rfl⟩ := (stream_eq_ok_iff (streams_terms _ _) le_rfl hoffsets _).mp hterms
    obtain ⟨hfits', -, rfl, rfl⟩ := (stream_eq_ok_iff streams_values le_rfl hfits _).mp h
    obtain ⟨hhead, hlast⟩ := checkIndptr_eq_ok_iff.mp hindptr
    have hend : termsAt file + nnzOf file * 4 + nnzOf file * 4 ≤ file.length := hfits'
    refine ⟨⟨checkHeader_eq_ok_iff.mp hpositive, size_eq_of_fits hsize hend, hhead, hlast, hP⟩,
      checkNonnegative_eq_ok_iff.mp hnonneg, ?_⟩
    have hpad : u64 (unpadded file) = unpadded file := u64_of_lt (by rw [unpadded]; omega)
    rw [nativeOf, termsOf, ← hpad]
    rfl
  · rintro ⟨hin, hnonneg, rfl⟩
    have hsize := hin.size
    have hterms : termsAt file = 24 + indptrSizeOf file * 8 := rfl
    have hpad : u64 (unpadded file) = unpadded file := u64_of_lt (by rw [unpadded]; omega)
    have hdeclared : file.length = interchangeFileSize (indptrSizeOf file) (nnzOf file) := by
      rw [hsize]
      exact (u64_of_lt (by omega)).symm
    have h24 : 24 ≤ file.length := by omega
    have h₁ : readHeader path ⟨file, 0⟩ = .ok (headerOf file, ⟨file, 24⟩) :=
      readHeader_eq_ok_iff.mpr ⟨h24, rfl, rfl⟩
    have h₂ : Reader.lift (checkHeader path (headerOf file)) ⟨file, 24⟩ = .ok ((), ⟨file, 24⟩) :=
      Reader.lift_eq_ok_iff.mpr ⟨checkHeader_eq_ok_iff.mpr hin.header, rfl⟩
    have h₃ : checkInterchange path (headerOf file) ⟨file, 24⟩ = .ok ((), ⟨file, 24⟩) :=
      checkInterchange_eq_ok_iff.mpr ⟨hdeclared, rfl⟩
    have h₄ : readVector offsetCodec path (indptrSizeOf file) ⟨file, 24⟩
        = .ok (offsetsOf file, ⟨file, termsAt file⟩) :=
      (readVector_eq_ok_iff h24).mpr ⟨show indptrSizeOf file * 8 < 2 ^ 63 by omega,
        show termsAt file ≤ file.length by omega, rfl, rfl⟩
    have h₅ : Reader.lift (checkIndptr path (headerOf file).nnz (offsetsOf file))
        ⟨file, termsAt file⟩ = .ok ((), ⟨file, termsAt file⟩) :=
      Reader.lift_eq_ok_iff.mpr ⟨checkIndptr_eq_ok_iff.mpr ⟨hin.head, hin.last⟩, rfl⟩
    have h₆ : Reader.lift (checkNonnegative path (offsetsOf file)) ⟨file, termsAt file⟩
        = .ok ((), ⟨file, termsAt file⟩) :=
      Reader.lift_eq_ok_iff.mpr ⟨checkNonnegative_eq_ok_iff.mpr hnonneg, rfl⟩
    have hstart : termsAt file ≤ file.length := by omega
    have hmid : termsAt file + nnzOf file * 4 ≤ file.length := by omega
    have h₇ : ∀ out, stream path 4 (narrowTerms path (headerOf file).numCols) (nnzOf file)
        (nnzOf file) out ⟨file, termsAt file⟩
          = .ok (out ++ termCodec.encAll (termsOf file), ⟨file, termsAt file + nnzOf file * 4⟩) :=
      fun out => (stream_eq_ok_iff (streams_terms path _) le_rfl hstart out).mpr
        ⟨hmid, hin.terms, rfl, rfl⟩
    refine ⟨_, (Reader.bind_of_ok h₁).trans <| (Reader.bind_of_ok h₂).trans <|
      (Reader.bind_of_ok h₃).trans <| (Reader.bind_of_ok h₄).trans <| (Reader.bind_of_ok h₅).trans <|
      (Reader.bind_of_ok h₆).trans <| (Reader.bind_of_ok (h₇ _)).trans <|
      (stream_eq_ok_iff streams_values le_rfl hmid _).mpr ⟨hsize.ge, trivial, ?_, rfl⟩⟩
    rw [nativeOf, termsOf, ← hpad]
    rfl

end CsrLayout

end Nsparse
