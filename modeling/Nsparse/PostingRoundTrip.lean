/-
Nsparse/PostingRoundTrip.lean

The posting lists of the inverted index on the wire, and back.

A list is its ids and its values; both readers give it back (`InvertedList.mapped`,
`InvertedList.copied`) when the ids fit 32 bits, every id has a value of the declared
width, and that width is one the padding's buffer serves.  All lists of an index then
come back by repetition; the mapped reader first asks whether the bytes left can
hold so many.
-/
import Nsparse.CopyRoundTrip

namespace Nsparse

open Wire

namespace InvertedList

/-- Ids of 32 bits, and a value of `elementSize` bytes for each. -/
structure Storable (elementSize : ℕ) (l : InvertedList Code) : Prop where
  paired : l.codes.length = l.docIds.length
  docIds : ∀ d ∈ l.docIds, idxCodec.Fits d
  codes : ∀ code ∈ l.codes, code.length = elementSize

/-- Both arrays fit a vector. -/
structure Held (l : InvertedList Code) : Prop where
  docIds : l.docIds.length * 4 < 2 ^ 63
  codes : l.codes.flatten.length < 2 ^ 63

variable {elementSize : ℕ} {l : InvertedList Code}

theorem serialize_appends (elementSize : ℕ) (l : InvertedList Code) :
    Appends (serialize elementSize l) :=
  (writeScalar_appends _ _).andThen ((writePadded_appends _ _ _).andThen (writePadded_appends _ _ _))

theorem held_of_serialize {w : Bytes} (hw : (serialize elementSize l w).length < 2 ^ 63) :
    l.Held := by
  constructor
  · exact lt_of_le_of_lt (Leaves.right ((leaves_bytes idxCodec _ _).left
      (writePadded_appends _ _ _)) w) hw
  · have hvalues := Leaves.right (s := (writeScalar sizeCodec l.size).andThen
      (writePadded idxCodec l.docIds 4)) (leaves_bytes .byte l.codes.flatten elementSize) w
    rw [show Codec.byte.width = 1 from rfl, Nat.mul_one] at hvalues
    exact lt_of_le_of_lt hvalues hw

theorem Storable.length_flatten (h : l.Storable elementSize) :
    l.codes.flatten.length = l.size * elementSize := by
  rw [SparseVectors.length_flatten_codes h.codes, h.paired, size]

theorem Storable.codesOf_flatten (h : l.Storable elementSize) :
    SparseVectors.codesOf elementSize l.size l.codes.flatten = l.codes := by
  rw [size, ← h.paired, SparseVectors.codesOf_flatten h.codes]

theorem fits_count (hs : l.Held) : sizeCodec.Fits l.size := by
  have hbytes := hs.docIds
  refine InvertedListClusters.fits_size ?_
  rw [size]
  omega

/-- **A list comes back from a mapping.** -/
theorem mapped (h : l.Storable elementSize) (hs : l.Held) (hwidth : 0 < elementSize) {base : ℕ}
    (hbase : elementSize ∣ base) :
    RoundTrips (serialize elementSize l) (mmapDeserialize base elementSize) l := by
  have hflat := h.length_flatten
  have hbytes := hs.codes
  refine (roundTrips_scalar sizeCodec (fits_count hs)).bind ?_
  refine (InvertedListClusters.roundTrips_idx h.docIds).bind ?_
  have hwords := fun misaligned =>
    (roundTrips_words misaligned hwidth hflat (by omega) hbase).map fun codes =>
      (⟨l.docIds, SparseVectors.codesOf elementSize l.size codes⟩ : InvertedList Code)
  rw [h.codesOf_flatten] at hwords
  exact hwords _

/-- **A list comes back by copying.** -/
theorem copied (h : l.Storable elementSize) (hs : l.Held) (hwidth : 0 < elementSize)
    (hmax : elementSize ≤ kMaxAlignment) :
    RoundTrips (serialize elementSize l) (deserialize .buffered elementSize) l := by
  refine (copied_scalar sizeCodec (fits_count hs) _).bind ?_
  refine (copied_idx h.docIds hs.docIds).bind ?_
  have hwords := (copied_words hwidth hmax h.length_flatten hs.codes).map fun codes =>
    (⟨l.docIds, SparseVectors.codesOf elementSize l.size codes⟩ : InvertedList Code)
  rwa [h.codesOf_flatten] at hwords

end InvertedList

namespace ArrayInvertedLists

variable {elementSize : ℕ} {lists : List (InvertedList Code)}

theorem serialize_appends (elementSize : ℕ) (lists : List (InvertedList Code)) :
    Appends (serialize elementSize lists) :=
  (writeScalar_appends _ _).andThen ((writeScalar_appends _ _).andThen
    (.writeMany (InvertedList.serialize_appends elementSize) lists))

/-- Each list takes at least the 8 bytes of its count. -/
theorem length_writeLists (elementSize : ℕ) (lists : List (InvertedList Code)) (w : Bytes) :
    w.length + 8 * lists.length ≤
      (writeMany (InvertedList.serialize elementSize) lists w).length := by
  induction lists generalizing w with
  | nil => exact le_rfl
  | cons l lists ih =>
      have hcount : w.length + 8 ≤ (InvertedList.serialize elementSize l w).length := by
        have hrest := ((writePadded_appends idxCodec l.docIds 4).andThen
          (writePadded_appends .byte l.codes.flatten elementSize)
          (writeScalar sizeCodec l.size w)).length_le
        rw [writeScalar, length_emit, sizeCodec.length_enc] at hrest
        exact hrest
      have hlists := ih (InvertedList.serialize elementSize l w)
      show w.length + 8 * (l :: lists).length ≤ (writeMany (InvertedList.serialize elementSize) lists
        (InvertedList.serialize elementSize l w)).length
      rw [List.length_cons]
      omega

/-- What was written in a file fits vectors. -/
theorem held_of_serialize {w : Bytes} (hw : (serialize elementSize lists w).length < 2 ^ 63) :
    ∀ l ∈ lists, l.Held := fun l hl => by
  obtain ⟨v, hv⟩ := exists_le_writeMany (InvertedList.serialize_appends elementSize) hl
    (writeScalar sizeCodec elementSize (writeScalar sizeCodec lists.length w))
  exact InvertedList.held_of_serialize (hv.trans_lt hw)

theorem fits_count {w : Bytes} (hw : (serialize elementSize lists w).length < 2 ^ 63) :
    sizeCodec.Fits lists.length := by
  have hlen := length_writeLists elementSize lists
    (writeScalar sizeCodec elementSize (writeScalar sizeCodec lists.length w))
  refine InvertedListClusters.fits_size ?_
  have hle : 8 * lists.length ≤ (serialize elementSize lists w).length :=
    (Nat.le_add_left _ _).trans hlen
  omega

theorem fits_width (hmax : elementSize ≤ kMaxAlignment) : sizeCodec.Fits elementSize :=
  InvertedListClusters.fits_size (hmax.trans_lt (by decide))

/-- **All lists come back by copying.** -/
theorem copied (h : ∀ l ∈ lists, l.Storable elementSize) (hwidth : 0 < elementSize)
    (hmax : elementSize ≤ kMaxAlignment) {w : Bytes}
    (hw : (serialize elementSize lists w).length < 2 ^ 63) :
    RoundTrips (serialize elementSize lists) (read .buffered elementSize) lists := by
  refine (copied_scalar sizeCodec (fits_count hw) _).bind ?_
  refine (copied_scalar sizeCodec (fits_width hmax) _).bind ?_
  have hcheck : IOReader.check (throwIfForeignElementSize elementSize elementSize)
      = fun cursor => .ok ((), cursor) := by
    funext cursor
    unfold IOReader.check
    rw [throwIfForeignElementSize, if_neg (not_not.mpr rfl)]
  rw [hcheck]
  exact RoundTrips.readMany fun l hl =>
    InvertedList.copied (h l hl) (held_of_serialize hw l hl) hwidth hmax

/-- **All lists come back from a mapping.** -/
theorem mapped (h : ∀ l ∈ lists, l.Storable elementSize) (hwidth : 0 < elementSize)
    (hmax : elementSize ≤ kMaxAlignment) {base : ℕ} (hbase : elementSize ∣ base) {w : Bytes}
    (hw : (serialize elementSize lists w).length < 2 ^ 63) :
    RoundTrips (serialize elementSize lists) (map base elementSize) lists := by
  refine (roundTrips_scalar sizeCodec (fits_count hw)).bind ?_
  refine (roundTrips_scalar sizeCodec (fits_width hmax)).bind ?_
  have hmany : RoundTrips (writeMany (InvertedList.serialize elementSize) lists)
      (readMany (InvertedList.mmapDeserialize base elementSize) lists.length) lists :=
    RoundTrips.readMany fun l hl =>
      InvertedList.mapped (h l hl) (held_of_serialize hw l hl) hwidth hbase
  refine ⟨hmany.appends, fun w rest => ?_⟩
  have hlen := length_writeLists elementSize lists w
  have hcheck : Reader.lift (throwIfForeignElementSize elementSize elementSize)
      ⟨writeMany (InvertedList.serialize elementSize) lists w ++ rest, w.length⟩
      = .ok ((), ⟨writeMany (InvertedList.serialize elementSize) lists w ++ rest, w.length⟩) :=
    Reader.lift_eq_ok_iff.mpr ⟨if_neg (not_not.mpr rfl), rfl⟩
  have henough : throwIfTooManyTerms lists.length
      ⟨writeMany (InvertedList.serialize elementSize) lists w ++ rest, w.length⟩
      = .ok ((), ⟨writeMany (InvertedList.serialize elementSize) lists w ++ rest, w.length⟩) := by
    refine if_neg ?_
    rw [Cursor.remaining, List.length_append, not_lt, show sizeCodec.width = 8 from rfl,
      Nat.le_div_iff_mul_le (by decide)]
    dsimp only
    omega
  rw [Reader.bind_of_ok hcheck, Reader.bind_of_ok henough]
  exact hmany.reads w rest

end ArrayInvertedLists

end Nsparse
