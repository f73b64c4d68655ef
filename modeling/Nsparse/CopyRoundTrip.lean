/-
Nsparse/CopyRoundTrip.lean

What was written comes back to the copying readers too.

The round trips of the primitives (`copied_scalar`, `copied_padded`, `copied_words`)
ask for no alignment of an address, but the padding has to fit the buffer it is read
into, and an array the `std::vector` it is read to.  The formats follow from them as
they do for the mapped readers.  What a file of less than 2^63 bytes holds fits a
vector.
-/
import Nsparse.ListReaders
import Nsparse.StorableLists
import Nsparse.VectorReaders

namespace Nsparse

open Wire

variable {α : Type}

/-! ### The primitives -/

/-- Bytes that are there are delivered. -/
theorem buffered_read_at {data before bs after : Bytes} {pos : ℕ}
    (hdata : data = before ++ (bs ++ after)) (hpos : before.length = pos) :
    IOReader.buffered.read bs.length ⟨data, pos⟩ = .ok (bs, ⟨data, pos + bs.length⟩) := by
  subst hdata hpos
  have hrem : bs.length ≤ (Cursor.mk (before ++ (bs ++ after)) before.length).remaining := by
    rw [Cursor.remaining, List.length_append, List.length_append]
    dsimp only
    omega
  show Except.ok (_, _) = _
  dsimp only
  rw [List.drop_left, List.take_left, min_eq_left hrem]

theorem copied_scalar (c : Codec α) {a : α} (h : c.Fits a) (init : α) :
    RoundTrips (writeScalar c a) (IOReader.buffered.readScalar c init) a where
  appends := writeScalar_appends c a
  reads w rest := by
    have hread := @buffered_read_at _ w (c.enc a) rest _ (List.append_assoc w (c.enc a) rest) rfl
    rw [c.length_enc] at hread
    have hdec : c.dec (c.enc a ++ (c.enc init).drop (c.enc a).length) = a := by
      rw [List.drop_of_length_le (by rw [c.length_enc, c.length_enc]), List.append_nil]
      exact h
    show (IOReader.buffered.read c.width).map _ ⟨(w ++ c.enc a) ++ rest, w.length⟩ = _
    rw [Reader.map, hread]
    dsimp only
    rw [hdec, writeScalar, length_emit, c.length_enc]
    rfl

/-- Padding of at most 8 bytes. -/
theorem copied_padding {alignment : ℕ} (h : 0 < alignment) (hmax : alignment ≤ kMaxAlignment) :
    RoundTrips (padTo alignment) (IOReader.buffered.skipPadding alignment) () where
  appends := padTo_appends alignment
  reads w rest := by
    have hfits : min (padding w.length alignment) ((padTo alignment w ++ rest).length - w.length)
        = padding w.length alignment := by
      rw [List.length_append, length_padTo]
      omega
    rw [buffered_skipPadding h, hfits, if_neg, length_padTo]
    exact not_lt.mpr ((padding_lt h).le.trans hmax)

/-- An array that a vector can hold. -/
theorem copied_array (c : Codec α) {xs : List α} (hfits : ∀ x ∈ xs, c.Fits x) (hwidth : 0 < c.width)
    (hsize : xs.length * c.width < 2 ^ 63) :
    RoundTrips (emit (c.encAll xs)) (IOReader.buffered.readOwned c xs.length) xs where
  appends := emit_appends _
  reads w rest := by
    have hread : IOReader.buffered.read (c.encAll xs).length ⟨emit (c.encAll xs) w ++ rest, w.length⟩
        = .ok (c.encAll xs, ⟨_, w.length + (c.encAll xs).length⟩) :=
      buffered_read_at (List.append_assoc w (c.encAll xs) rest) rfl
    rw [c.length_encAll] at hread
    have hdec := c.decAll_encAll hfits []
    rw [List.append_nil] at hdec
    rw [length_emit, c.length_encAll, IOReader.readOwned]
    by_cases h0 : xs.length = 0
    · rw [if_pos h0, h0, Nat.zero_mul, List.length_eq_zero_iff.mp h0]
      rfl
    · rw [if_neg h0, if_neg (not_le.mpr hsize), hread]
      dsimp only
      rw [if_neg, hdec]
      rw [not_not, c.length_encAll, Nat.mul_div_cancel _ hwidth]

/-- **A padded array comes back** when its padding fits the buffer and its bytes a vector. -/
theorem copied_padded (c : Codec α) {xs : List α} {alignment : ℕ} (hfits : ∀ x ∈ xs, c.Fits x)
    (hwidth : 0 < c.width) (halign : 0 < alignment) (hmax : alignment ≤ kMaxAlignment)
    (hsize : xs.length * c.width < 2 ^ 63) :
    RoundTrips (writePadded c xs alignment)
      (IOReader.buffered.readPadded c xs.length alignment) xs :=
  (copied_padding halign hmax).bind (copied_array c hfits hwidth hsize)

/-- Words come back. -/
theorem copied_words {count elementSize : ℕ} {values : Bytes} (hwidth : 0 < elementSize)
    (hmax : elementSize ≤ kMaxAlignment) (hlen : values.length = count * elementSize)
    (hsize : values.length < 2 ^ 63) :
    RoundTrips (writePadded .byte values elementSize)
      (IOReader.buffered.readWords count elementSize) values := by
  rw [readWords_of_lt (by rw [← hlen]; omega), ← hlen]
  exact copied_padded .byte (fun b _ => Codec.fits_byte b) Nat.one_pos hwidth hmax
    ((Nat.mul_one _).trans_lt hsize)

theorem copied_idx {xs : List ℤ} (h : ∀ i ∈ xs, idxCodec.Fits i) (hsize : xs.length * 4 < 2 ^ 63) :
    RoundTrips (writePadded idxCodec xs 4) (IOReader.buffered.readPadded idxCodec xs.length 4) xs :=
  copied_padded idxCodec h (by decide) (by decide) (by decide) hsize

theorem copied_term {xs : List ℕ} (h : ∀ t ∈ xs, termCodec.Fits t) (hsize : xs.length * 2 < 2 ^ 63) :
    RoundTrips (writePadded termCodec xs 2)
      (IOReader.buffered.readPadded termCodec xs.length 2) xs :=
  copied_padded termCodec h (by decide) (by decide) (by decide) hsize

/-- An array takes its bytes. -/
theorem leaves_bytes (c : Codec α) (xs : List α) (alignment : ℕ) :
    Leaves (xs.length * c.width) (writePadded c xs alignment) := fun w => by
  rw [writePadded, Writer.andThen, length_emit, c.length_encAll]
  exact Nat.le_add_left _ _

/-! ### Clustered lists -/

namespace InvertedListClusters

/-- Every array fits a vector. -/
structure Held (l : InvertedListClusters) : Prop where
  docs : l.docs.length * 4 < 2 ^ 63
  offsets : l.offsets.length * 4 < 2 ^ 63
  nClusters : l.nClusters < 2 ^ 64
  terms : l.termIds.length * 2 < 2 ^ 63
  termPtr : l.termPtr.length * 4 < 2 ^ 63
  clusters : l.cscCluster.length * 2 < 2 ^ 63
  values : l.cscValue.length < 2 ^ 63

theorem Held.sized {l : InvertedListClusters} (h : l.Held) : l.Sized where
  docs := by have := h.docs; omega
  offsets := by have := h.offsets; omega
  nClusters := h.nClusters
  terms := by have := h.terms; omega
  values := by have := h.values; omega

theorem copied_termColumns {l : InvertedListClusters} (h : l.Storable) (hs : l.Held) :
    RoundTrips l.writeTermColumns (readTermColumnsFrom .buffered l.termIds.length)
      (l.termIds, l.termPtr) := by
  have hcolumns := h.columns
  unfold writeTermColumns readTermColumnsFrom
  by_cases hnil : l.termIds = []
  · rw [if_pos hnil] at hcolumns
    rw [hnil, List.eq_nil_of_length_eq_zero hcolumns]
    exact ⟨Appends.id, fun _ _ => rfl⟩
  · have hpos : l.termIds.length > 0 := List.length_pos_iff.mpr hnil
    rw [if_neg hnil] at hcolumns
    rw [if_pos hpos, if_pos hpos, List.take_of_length_le hcolumns.le]
    refine (copied_term h.terms hs.terms).bind ?_
    rw [← hcolumns]
    exact (copied_idx h.termPtr hs.termPtr).map _

/-- **A stored list comes back**, whatever the reader's object held before. -/
theorem copied {l : InvertedListClusters} (h : l.Storable) (hs : l.Held)
    (held : InvertedListClusters) : RoundTrips l.serialize (deserialize .buffered held) l := by
  have hsized := hs.sized
  have hnnz : l.cscCluster.length < 2 ^ 64 := by have := hs.clusters; omega
  have hes : l.elementSize < 2 ^ 64 ∧ l.elementSize ≤ kMaxAlignment := by
    rcases h.width with hw | hw | hw <;> rw [hw] <;> decide
  refine (copied_scalar sizeCodec (fits_size hsized.docs) _).bind ?_
  refine (copied_idx h.docs hs.docs).bind ?_
  refine (copied_scalar sizeCodec (fits_size hsized.offsets) _).bind ?_
  refine (copied_idx h.offsets hs.offsets).bind ?_
  refine (copied_scalar sizeCodec (fits_size hsized.nClusters) _).bind ?_
  refine (copied_scalar sizeCodec (fits_size hes.1) _).bind ?_
  refine (copied_scalar sizeCodec (fits_size hsized.terms) _).bind ?_
  refine (copied_termColumns h hs).bind ?_
  refine (copied_scalar sizeCodec (fits_size hnnz) _).bind ?_
  refine (copied_term h.clusters hs.clusters).bind ?_
  exact (copied_words h.width_pos hes.2 h.values hs.values).map _

theorem leaves_termColumns (l : InvertedListClusters) :
    Leaves (l.termIds.length * 2) l.writeTermColumns ∧
      (l.termIds ≠ [] → Leaves ((l.termPtr.take (l.termIds.length + 1)).length * 4)
        l.writeTermColumns) := by
  unfold writeTermColumns
  split
  · exact ⟨(leaves_bytes termCodec _ _).left (writePadded_appends _ _ _),
      fun _ => Leaves.right (leaves_bytes idxCodec _ _)⟩
  · rename_i hnil
    refine ⟨fun w => ?_, fun hne => absurd (List.length_pos_iff.mpr hne) hnil⟩
    rw [Nat.eq_zero_of_not_pos hnil]
    exact Nat.zero_le _

/-- What was written in a file fits vectors. -/
theorem held_of_serialize {l : InvertedListClusters} (h : l.Storable) {w : Bytes}
    (hw : (l.serialize w).length < 2 ^ 63) (hn : l.nClusters < 2 ^ 64) : l.Held := by
  -- the summary store ends the list
  have hstore : ∀ {n : ℕ}, Leaves n l.serializeSummaryStore → n < 2 ^ 63 := fun hleaves =>
    lt_of_le_of_lt (Leaves.right (Leaves.right (Leaves.right (Leaves.right hleaves))) w) hw
  have hcolumns : ∀ {n : ℕ}, Leaves n l.writeTermColumns → n < 2 ^ 63 := fun hleaves =>
    hstore (Leaves.right (Leaves.right (Leaves.right (hleaves.left
      ((writeScalar_appends _ _).andThen
        ((writePadded_appends _ _ _).andThen (writePadded_appends _ _ _)))))))
  refine ⟨?_, ?_, hn, hcolumns l.leaves_termColumns.1, ?_, ?_, ?_⟩
  · refine lt_of_le_of_lt (Leaves.right ((leaves_bytes idxCodec _ _).left ?_) w) hw
    exact (writeScalar_appends _ _).andThen
      ((writePadded_appends _ _ _).andThen l.serializeSummaryStore_appends)
  · exact lt_of_le_of_lt (Leaves.right (Leaves.right (Leaves.right
      ((leaves_bytes idxCodec _ _).left l.serializeSummaryStore_appends))) w) hw
  · have hlen := h.columns
    by_cases hnil : l.termIds = []
    · rw [if_pos hnil] at hlen
      rw [hlen]
      decide
    · rw [if_neg hnil] at hlen
      have hptr := l.leaves_termColumns.2 hnil
      rw [List.take_of_length_le hlen.le] at hptr
      exact hcolumns hptr
  · exact hstore (Leaves.right (Leaves.right (Leaves.right (Leaves.right (Leaves.right
      ((leaves_bytes clusterIdCodec _ _).left (writePadded_appends _ _ _)))))))
  · have hvalues : Leaves (l.cscValue.length * 1) l.serializeSummaryStore :=
      Leaves.right (Leaves.right (Leaves.right (Leaves.right (Leaves.right
        (Leaves.right (leaves_bytes .byte _ _))))))
    rw [Nat.mul_one] at hvalues
    exact hstore hvalues

end InvertedListClusters

/-- **All lists come back.** -/
theorem copied_lists {lists : List InvertedListClusters} (hlen : lists.length < 2 ^ 64)
    (h : ∀ l ∈ lists, l.Storable ∧ l.Held) :
    RoundTrips (serializeLists false lists) (deserializeLists .buffered) lists :=
  (copied_scalar sizeCodec (InvertedListClusters.fits_size hlen) _).bind <|
    RoundTrips.readMany fun l hl => InvertedListClusters.copied (h l hl).1 (h l hl).2 _

/-! ### Sparse vectors -/

namespace SparseVectors

/-- Every array fits a vector. -/
structure Held (v : SparseVectors Code) : Prop where
  offsets : v.indptr.length * 8 < 2 ^ 63
  terms : v.indices.length * 2 < 2 ^ 63
  values : v.values.flatten.length < 2 ^ 63

/-- **Stored vectors come back**; of an empty store nothing does, and the reader's object stays
what it was. -/
theorem copied {v : SparseVectors Code} (h : v.Storable) (hs : v.Held)
    (held : SparseVectors Code) :
    RoundTrips v.serialize (deserialize .buffered held) (if v.numVectors = 0 then held else v) := by
  have hcount : v.numVectors < 2 ^ 64 := lt_of_le_of_lt (Nat.le_succ _) h.count
  refine (copied_scalar sizeCodec (InvertedListClusters.fits_size hcount) _).bind ?_
  by_cases h0 : v.numVectors = 0
  · rw [if_pos h0, if_pos h0, if_neg (by omega)]
    exact ⟨Appends.id, fun _ _ => rfl⟩
  · have hne : v.indptr ≠ [] := fun hnil => h0 (by rw [numVectors_eq, hnil]; rfl)
    have hlen : v.indptr.length = v.numVectors + 1 := by
      rw [numVectors_eq]
      have := List.length_pos_iff.mpr hne
      omega
    have hnnz := h.wellFormed.getD_numVectors
    have hflat := length_flatten_codes h.codes
    rw [← h.wellFormed.paired] at hflat
    have hes : v.elementSize < 2 ^ 64 ∧ v.elementSize ≤ kMaxAlignment := by
      rcases h.width with hw | hw | hw <;> rw [hw] <;> decide
    have hoffsets : ∀ i ∈ v.indptr, offsetCodec.Fits i := by
      intro i hi
      have hle : i ≤ v.indices.length := (h.wellFormed.offsets hne).le_of_mem hi
      have hbytes := hs.terms
      exact InvertedListClusters.fits_size (by omega)
    have hterms : ∀ t ∈ v.indices, termCodec.Fits t := fun t ht => fits_term (h.terms t ht)
    have hcodes := codesOf_flatten h.codes
    rw [← h.wellFormed.paired] at hcodes
    rw [if_neg h0, if_neg h0, if_pos (Nat.pos_of_ne_zero h0)]
    dsimp only
    rw [hnnz, ← hflat, List.take_length, List.take_length, ← hlen, List.take_length, hlen,
      Nat.mod_eq_of_lt h.count]
    refine (copied_scalar sizeCodec (InvertedListClusters.fits_size h.dimension.2) _).bind ?_
    refine (copied_scalar sizeCodec (InvertedListClusters.fits_size hes.1) _).bind ?_
    rw [← hlen]
    refine (copied_padded offsetCodec hoffsets (by decide) (by decide) (by decide) hs.offsets).bind ?_
    -- the last offset is there, and it is the number of terms
    have hlast : v.indptr[v.numVectors]? = some v.indices.length := by
      have hlast := (h.wellFormed.offsets hne).last
      rwa [List.getLast?_eq_getElem?, ← numVectors_eq] at hlast
    have hload : loadOffset v.indptr v.numVectors = fun cursor => .ok (v.indices.length, cursor) := by
      funext cursor
      rw [loadOffset, hlast]
    rw [hload]
    show RoundTrips _ ((IOReader.buffered.readPadded termCodec v.indices.length 2).bind _) v
    refine (copied_term hterms hs.terms).bind ?_
    have hvalues := (copied_words h.width_pos hes.2 hflat hs.values).map fun values =>
      (⟨v.elementSize, v.dimension, v.indptr, v.indices,
        codesOf v.elementSize v.indices.length values⟩ : SparseVectors Code)
    rwa [hcodes] at hvalues

/-- What was written in a file fits vectors. -/
theorem held_of_serialize {v : SparseVectors Code} (hwf : v.WellFormed)
    (hcodes : ∀ code ∈ v.values, code.length = v.elementSize) (hne : v.numVectors ≠ 0) {w : Bytes}
    (hw : (v.serialize w).length < 2 ^ 63) : v.Held := by
  have hlen : v.indptr.length = v.numVectors + 1 := by
    have hpos := v.numVectors_eq
    omega
  have hnnz := hwf.getD_numVectors
  have hflat := length_flatten_codes hcodes
  rw [← hwf.paired] at hflat
  rw [serialize, if_pos (Nat.pos_of_ne_zero hne)] at hw
  dsimp only at hw
  rw [hnnz, ← hflat, List.take_length, List.take_length, ← hlen, List.take_length] at hw
  refine ⟨?_, ?_, ?_⟩
  · exact lt_of_le_of_lt (Leaves.right (Leaves.right (Leaves.right
      ((leaves_bytes offsetCodec _ _).left
        ((writePadded_appends _ _ _).andThen (writePadded_appends _ _ _))))) w) hw
  · exact lt_of_le_of_lt (Leaves.right (Leaves.right (Leaves.right (Leaves.right
      ((leaves_bytes termCodec _ _).left (writePadded_appends _ _ _))))) w) hw
  · have hvalues := Leaves.right (s := (writeScalar sizeCodec v.numVectors).andThen
      ((writeScalar sizeCodec v.dimension).andThen ((writeScalar sizeCodec v.elementSize).andThen
        ((writePadded offsetCodec v.indptr 8).andThen (writePadded termCodec v.indices 2)))))
      (leaves_bytes .byte v.values.flatten v.elementSize) w
    rw [show Codec.byte.width = 1 from rfl, Nat.mul_one] at hvalues
    exact lt_of_le_of_lt hvalues hw

end SparseVectors

end Nsparse
