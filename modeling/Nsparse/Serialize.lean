/-
Nsparse/Serialize.lean

Writing arrays with alignment padding, and reading them from a mapped file.

`writePadded` pads to a boundary before it writes, `borrowPadded` skips the same
padding and takes the array in place, and both do so for an empty array too.  A
mapped file begins on a page, so an offset is aligned when the address is.  The
round trips of the two primitives (`roundTrips_scalar`, `roundTrips_padded`) are
all that the formats built on them use.
-/
import Nsparse.Lib.Wire
import Nsparse.Types

namespace Nsparse

open Wire

variable {α : Type}

/-- `size_t`, `idx_t`, `term_t`, `offset_t`, and the 16-bit cluster ids on the wire. -/
def sizeCodec : Codec ℕ := .nat 8
def idxCodec : Codec ℤ := .int 4
def termCodec : Codec ℕ := .nat 2
def offsetCodec : Codec ℕ := .nat 8
def clusterIdCodec : Codec ℕ := .nat 2

/-! ### Writing -/

/-- `io_writer->write` of one scalar. -/
def writeScalar (c : Codec α) (a : α) : Writer := emit (c.enc a)

/-- `write_padded`. -/
def writePadded (c : Codec α) (xs : List α) (alignment : ℕ) : Writer :=
  (padTo alignment).andThen (emit (c.encAll xs))

theorem writeScalar_appends (c : Codec α) (a : α) : Appends (writeScalar c a) := emit_appends _

theorem writePadded_appends (c : Codec α) (xs : List α) (alignment : ℕ) :
    Appends (writePadded c xs alignment) := (padTo_appends alignment).andThen (emit_appends _)

/-- An array takes at least a byte for each element. -/
theorem leaves_writePadded (c : Codec α) (hwidth : 0 < c.width) (xs : List α) (alignment : ℕ) :
    Leaves xs.length (writePadded c xs alignment) := fun w => by
  have hlen := Nat.le_mul_of_pos_right xs.length hwidth
  rw [writePadded, Writer.andThen, length_emit, c.length_encAll]
  omega

/-! ### Reading a mapping -/

/-- A read past the end of the mapping. -/
def endOfFile : Exception := .runtimeError "mmap: unexpected end of index file"

/-- `checked_mul`. -/
def checkedMul (lhs rhs : ℕ) : Except Exception ℕ :=
  if 2 ^ 64 ≤ lhs * rhs then .error (.runtimeError "size overflow in index file")
  else .ok (lhs * rhs)

/-- `read_scalar`. -/
def readScalar (c : Codec α) : Reader Exception α := fun cursor =>
  if cursor.remaining < c.width then .error endOfFile
  else .ok (c.dec ((cursor.data.drop cursor.pos).take c.width),
    { cursor with pos := cursor.pos + c.width })

/-- `skip`. -/
def skip (bytes : ℕ) : Reader Exception Unit := fun cursor =>
  if cursor.remaining < bytes then .error endOfFile
  else .ok ((), { cursor with pos := cursor.pos + bytes })

/-- `read_array`; an element's alignment is its width. -/
def readArray (c : Codec α) (n : ℕ) : Reader Exception (List α) := fun cursor =>
  if n = 0 then .ok ([], cursor)
  else if cursor.remaining / c.width < n then .error endOfFile
  else if cursor.pos % c.width ≠ 0 then
    .error (.runtimeError "mmap: array is misaligned for its element type")
  else .ok (c.decAll n (cursor.data.drop cursor.pos),
    { cursor with pos := cursor.pos + n * c.width })

/-- `skip_padding`. -/
def skipPadding (alignment : ℕ) : Reader Exception Unit := fun cursor =>
  if alignment = 0 then .error (.runtimeError "index file declares a zero element width")
  else skip (padding cursor.pos alignment) cursor

/-- `borrow_padded`. -/
def borrowPadded (c : Codec α) (n alignment : ℕ) : Reader Exception (List α) :=
  (skipPadding alignment).bind fun _ => readArray c n

/-- `checked_mul` and `borrow_padded` for values that are bytes in the file and used as words of
`elementSize`, with the check that they start at a place for them; the mapping is at `base`. -/
def borrowWords (base : ℕ) (misaligned : String) (count elementSize : ℕ) :
    Reader Exception Bytes := fun cursor =>
  match checkedMul count elementSize with
  | .error e => .error e
  | .ok bytes =>
      match borrowPadded .byte bytes elementSize cursor with
      | .error e => .error e
      | .ok (values, cursor) =>
          if count > 0 ∧ (cursor.pos - bytes + base) % elementSize ≠ 0 then
            .error (.runtimeError misaligned)
          else .ok (values, cursor)

/-! ### Round trips -/

/-- A value that is there is read. -/
theorem readScalar_at (c : Codec α) {a : α} (h : c.Fits a) {data before after : Bytes} {pos : ℕ}
    (hdata : data = before ++ (c.enc a ++ after)) (hpos : before.length = pos) :
    readScalar c ⟨data, pos⟩ = .ok (a, ⟨data, pos + c.width⟩) := by
  subst hdata hpos
  rw [readScalar, if_neg, List.drop_left, List.take_left' (c.length_enc a), h]
  rw [Cursor.remaining, List.length_append, List.length_append, c.length_enc]
  dsimp only
  omega

theorem roundTrips_scalar (c : Codec α) {a : α} (h : c.Fits a) :
    RoundTrips (writeScalar c a) (readScalar c) a where
  appends := writeScalar_appends c a
  reads w rest := by
    have hlen : (writeScalar c a w).length = w.length + c.width := by
      rw [writeScalar, length_emit, c.length_enc]
    rw [hlen]
    exact readScalar_at c h (List.append_assoc w (c.enc a) rest) rfl

theorem roundTrips_skipPadding {alignment : ℕ} (h : 0 < alignment) :
    RoundTrips (padTo alignment) (skipPadding alignment) () where
  appends := padTo_appends alignment
  reads w rest := by
    rw [skipPadding, if_neg (Nat.ne_of_gt h), skip, if_neg, length_padTo]
    rw [Cursor.remaining, List.length_append, length_padTo]
    dsimp only
    omega

/-- An array that begins at a place for its elements is read. -/
theorem readArray_at (c : Codec α) {xs : List α} (hfits : ∀ x ∈ xs, c.Fits x) (hwidth : 0 < c.width)
    {data before after : Bytes} {pos : ℕ} (hdata : data = before ++ (c.encAll xs ++ after))
    (hpos : before.length = pos) (halign : c.width ∣ pos) :
    readArray c xs.length ⟨data, pos⟩ = .ok (xs, ⟨data, pos + xs.length * c.width⟩) := by
  subst hdata hpos
  rw [readArray]
  by_cases h0 : xs.length = 0
  · rw [if_pos h0, List.length_eq_zero_iff.mp h0, List.length_nil, Nat.zero_mul, Nat.add_zero]
  · rw [if_neg h0, if_neg, if_neg (not_not.mpr (Nat.mod_eq_zero_of_dvd halign)), List.drop_left,
      c.decAll_encAll hfits]
    rw [Cursor.remaining, List.length_append, List.length_append, c.length_encAll, not_lt,
      Nat.le_div_iff_mul_le hwidth]
    dsimp only
    omega

theorem length_of_readArray {c : Codec α} {n : ℕ} {cursor cursor' : Cursor} {xs : List α}
    (h : readArray c n cursor = .ok (xs, cursor')) : xs.length = n := by
  rw [readArray] at h
  split at h
  · rename_i hzero
    obtain ⟨rfl, -⟩ := Prod.mk.inj (Except.ok.inj h)
    exact hzero.symm
  split at h
  · cases h
  split at h
  · cases h
  obtain ⟨rfl, -⟩ := Prod.mk.inj (Except.ok.inj h)
  exact c.length_decAll n _

/-- **A padded array comes back** when its elements fit and its alignment is one for them. -/
theorem roundTrips_padded (c : Codec α) {xs : List α} {alignment : ℕ} (hfits : ∀ x ∈ xs, c.Fits x)
    (hwidth : 0 < c.width) (halign : 0 < alignment) (hdvd : c.width ∣ alignment) :
    RoundTrips (writePadded c xs alignment) (borrowPadded c xs.length alignment) xs where
  appends := writePadded_appends c xs alignment
  reads w rest := by
    have hw : writePadded c xs alignment w = padTo alignment w ++ c.encAll xs := rfl
    have hskip := (roundTrips_skipPadding halign).reads w (c.encAll xs ++ rest)
    have hpos : c.width ∣ (padTo alignment w).length := by
      rw [length_padTo]
      exact hdvd.trans (dvd_add_padding w.length halign)
    rw [hw, List.append_assoc, borrowPadded, Reader.bind_of_ok hskip,
      readArray_at c hfits hwidth rfl rfl hpos, List.length_append, c.length_encAll]

theorem checkedMul_eq_ok {lhs rhs : ℕ} (h : lhs * rhs < 2 ^ 64) :
    checkedMul lhs rhs = .ok (lhs * rhs) := if_neg (not_le.mpr h)

/-- Words come back from a mapping at an address for them. -/
theorem roundTrips_words {base count elementSize : ℕ} (misaligned : String) {values : Bytes}
    (hwidth : 0 < elementSize) (hlen : values.length = count * elementSize)
    (hbytes : values.length < 2 ^ 64) (hbase : elementSize ∣ base) :
    RoundTrips (writePadded .byte values elementSize)
      (borrowWords base misaligned count elementSize) values := by
  have hpad : RoundTrips (writePadded .byte values elementSize)
      (borrowPadded .byte values.length elementSize) values :=
    roundTrips_padded .byte (fun b _ => Codec.fits_byte b) Nat.one_pos hwidth (one_dvd _)
  refine ⟨hpad.appends, fun w rest => ?_⟩
  have hmul : checkedMul count elementSize = .ok values.length := by
    rw [checkedMul_eq_ok (by rwa [← hlen]), hlen]
  -- the values begin where the padding ends
  have hstart : (writePadded Codec.byte values elementSize w).length - values.length
      = w.length + padding w.length elementSize := by
    rw [writePadded, Writer.andThen, length_emit, length_padTo, Codec.encAll_byte,
      Nat.add_sub_cancel]
  unfold borrowWords
  rw [hmul]
  dsimp only
  rw [hpad.reads w rest]
  dsimp only
  rw [if_neg]
  rintro ⟨-, hne⟩
  rw [hstart] at hne
  exact hne (Nat.mod_eq_zero_of_dvd ((dvd_add_padding w.length hwidth).add hbase))

end Nsparse
