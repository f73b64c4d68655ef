/-
Nsparse/ClusterStore.lean

Clustered posting lists on the wire.

`serialize` writes a list with its members, `serializeSummariesOnly` with the
members left out, and `mmapDeserialize` reads either back by borrowing every array
from the mapping.  A list whose numbers fit the widths they are stored in
(`Storable`) and whose arrays have sizes a `size_t` holds (`Sized`) comes back
unchanged, and whatever was written into a file has such sizes.
-/
import Nsparse.Clusters
import Nsparse.Serialize

namespace Nsparse

open Wire

namespace InvertedListClusters

/-! ### Writing -/

/-- The distinct terms and their offsets, nothing when there are none. -/
def writeTermColumns (l : InvertedListClusters) : Writer :=
  if l.termIds.length > 0 then
    (writePadded termCodec l.termIds 2).andThen
      (writePadded idxCodec (l.termPtr.take (l.termIds.length + 1)) 4)
  else id

def serializeSummaryStore (l : InvertedListClusters) : Writer :=
  (writeScalar sizeCodec l.nClusters).andThen <|
  (writeScalar sizeCodec l.elementSize).andThen <|
  (writeScalar sizeCodec l.termIds.length).andThen <|
  l.writeTermColumns.andThen <|
  (writeScalar sizeCodec l.cscCluster.length).andThen <|
  (writePadded clusterIdCodec l.cscCluster 2).andThen <|
  writePadded .byte l.cscValue l.elementSize

def serialize (l : InvertedListClusters) : Writer :=
  (writeScalar sizeCodec l.docs.length).andThen <|
  (writePadded idxCodec l.docs 4).andThen <|
  (writeScalar sizeCodec l.offsets.length).andThen <|
  (writePadded idxCodec l.offsets 4).andThen
  l.serializeSummaryStore

/-- The membership is written as two empty arrays. -/
def serializeSummariesOnly (l : InvertedListClusters) : Writer :=
  (writeScalar sizeCodec 0).andThen <|
  (writePadded idxCodec [] 4).andThen <|
  (writeScalar sizeCodec 0).andThen <|
  (writePadded idxCodec [] 4).andThen
  l.serializeSummaryStore

/-! ### Reading -/

def readTermColumns (nTerms : ℕ) : Reader Exception (List ℕ × List ℤ) :=
  if nTerms > 0 then
    (borrowPadded termCodec nTerms 2).bind fun termIds =>
    (borrowPadded idxCodec (nTerms + 1) 4).map fun termPtr => (termIds, termPtr)
  else fun cursor => .ok (([], []), cursor)

/-- The summary values. -/
def borrowValues (base nnz elementSize : ℕ) : Reader Exception (List UInt8) :=
  borrowWords base "mmap: cluster summary values are misaligned for the element size" nnz
    elementSize

/-- `mmap_deserialize` from a mapping at `base`. -/
def mmapDeserialize (base : ℕ) : Reader Exception InvertedListClusters :=
  (readScalar sizeCodec).bind fun nDocs =>
  (borrowPadded idxCodec nDocs 4).bind fun docs =>
  (readScalar sizeCodec).bind fun nOffsets =>
  (borrowPadded idxCodec nOffsets 4).bind fun offsets =>
  (readScalar sizeCodec).bind fun nClusters =>
  (readScalar sizeCodec).bind fun elementSize =>
  (readScalar sizeCodec).bind fun nTerms =>
  (readTermColumns nTerms).bind fun columns =>
  (readScalar sizeCodec).bind fun nnz =>
  (borrowPadded clusterIdCodec nnz 2).bind fun cscCluster =>
  (borrowValues base nnz elementSize).map fun cscValue =>
    ⟨nClusters, elementSize, docs, offsets, columns.1, columns.2, cscCluster, cscValue⟩

/-! ### What comes back -/

/-- Every number fits the width it is stored in, and the arrays have the lengths they have to
each other. -/
structure Storable (l : InvertedListClusters) : Prop where
  docs : ∀ d ∈ l.docs, idxCodec.Fits d
  offsets : ∀ i ∈ l.offsets, idxCodec.Fits i
  terms : ∀ t ∈ l.termIds, termCodec.Fits t
  termPtr : ∀ i ∈ l.termPtr, idxCodec.Fits i
  columns : l.termPtr.length = if l.termIds = [] then 0 else l.termIds.length + 1
  clusters : ∀ c ∈ l.cscCluster, clusterIdCodec.Fits c
  width : l.elementSize = U32 ∨ l.elementSize = U16 ∨ l.elementSize = U8
  values : l.cscValue.length = l.cscCluster.length * l.elementSize

/-- The counts are a `size_t` each. -/
structure Sized (l : InvertedListClusters) : Prop where
  docs : l.docs.length < 2 ^ 64
  offsets : l.offsets.length < 2 ^ 64
  nClusters : l.nClusters < 2 ^ 64
  terms : l.termIds.length < 2 ^ 64
  values : l.cscValue.length < 2 ^ 64

/-- The list without its members, which is what `serializeSummariesOnly` stores. -/
def summariesOnly (l : InvertedListClusters) : InvertedListClusters :=
  { l with
    docs := []
    offsets := [] }

theorem Storable.summariesOnly {l : InvertedListClusters} (h : l.Storable) :
    l.summariesOnly.Storable :=
  { h with
    docs := fun _ hd => absurd hd List.not_mem_nil
    offsets := fun _ hi => absurd hi List.not_mem_nil }

theorem Storable.width_pos {l : InvertedListClusters} (h : l.Storable) : 0 < l.elementSize := by
  rcases h.width with hw | hw | hw <;> rw [hw] <;> decide

theorem fits_size {n : ℕ} (h : n < 2 ^ 64) : sizeCodec.Fits n :=
  Codec.fits_nat (h.trans_eq (by norm_num))

/-- An array of 32-bit integers comes back. -/
theorem roundTrips_idx {xs : List ℤ} (h : ∀ i ∈ xs, idxCodec.Fits i) :
    RoundTrips (writePadded idxCodec xs 4) (borrowPadded idxCodec xs.length 4) xs :=
  roundTrips_padded idxCodec h (by decide) (by decide) (dvd_refl 4)

/-- An array of 16-bit integers comes back. -/
theorem roundTrips_term {xs : List ℕ} (h : ∀ t ∈ xs, termCodec.Fits t) :
    RoundTrips (writePadded termCodec xs 2) (borrowPadded termCodec xs.length 2) xs :=
  roundTrips_padded termCodec h (by decide) (by decide) (dvd_refl 2)

theorem roundTrips_termColumns {l : InvertedListClusters} (h : l.Storable) :
    RoundTrips l.writeTermColumns (readTermColumns l.termIds.length) (l.termIds, l.termPtr) := by
  have hcolumns := h.columns
  unfold writeTermColumns readTermColumns
  by_cases hnil : l.termIds = []
  · rw [if_pos hnil] at hcolumns
    rw [hnil, List.eq_nil_of_length_eq_zero hcolumns]
    exact ⟨Appends.id, fun _ _ => rfl⟩
  · have hpos : l.termIds.length > 0 := List.length_pos_iff.mpr hnil
    rw [if_neg hnil] at hcolumns
    rw [if_pos hpos, if_pos hpos, List.take_of_length_le hcolumns.le]
    refine (roundTrips_term h.terms).bind ?_
    rw [← hcolumns]
    exact (roundTrips_idx h.termPtr).map _

theorem roundTrips_values {l : InvertedListClusters} (h : l.Storable) (hs : l.Sized) {base : ℕ}
    (hbase : l.elementSize ∣ base) :
    RoundTrips (writePadded .byte l.cscValue l.elementSize)
      (borrowValues base l.cscCluster.length l.elementSize) l.cscValue :=
  roundTrips_words _ h.width_pos h.values hs.values hbase

/-- **A stored list comes back.** -/
theorem roundTrips {l : InvertedListClusters} (h : l.Storable) (hs : l.Sized) {base : ℕ}
    (hbase : l.elementSize ∣ base) : RoundTrips l.serialize (mmapDeserialize base) l := by
  have hnnz : l.cscCluster.length < 2 ^ 64 := by
    refine lt_of_le_of_lt ?_ hs.values
    rw [h.values]
    exact Nat.le_mul_of_pos_right _ h.width_pos
  have hes : l.elementSize < 2 ^ 64 := by
    rcases h.width with hw | hw | hw <;> rw [hw] <;> decide
  refine (roundTrips_scalar sizeCodec (fits_size hs.docs)).bind ?_
  refine (roundTrips_idx h.docs).bind ?_
  refine (roundTrips_scalar sizeCodec (fits_size hs.offsets)).bind ?_
  refine (roundTrips_idx h.offsets).bind ?_
  refine (roundTrips_scalar sizeCodec (fits_size hs.nClusters)).bind ?_
  refine (roundTrips_scalar sizeCodec (fits_size hes)).bind ?_
  refine (roundTrips_scalar sizeCodec (fits_size hs.terms)).bind ?_
  refine (roundTrips_termColumns h).bind ?_
  refine (roundTrips_scalar sizeCodec (fits_size hnnz)).bind ?_
  refine (roundTrips_term h.clusters).bind ?_
  exact (roundTrips_values h hs hbase).map _

/-! ### Sizes -/

theorem writeTermColumns_appends (l : InvertedListClusters) : Appends l.writeTermColumns := by
  unfold writeTermColumns
  split
  · exact (writePadded_appends _ _ _).andThen (writePadded_appends _ _ _)
  · exact Appends.id

theorem serializeSummaryStore_appends (l : InvertedListClusters) :
    Appends l.serializeSummaryStore := by
  refine (writeScalar_appends _ _).andThen ((writeScalar_appends _ _).andThen ?_)
  refine (writeScalar_appends _ _).andThen (l.writeTermColumns_appends.andThen ?_)
  exact (writeScalar_appends _ _).andThen
    ((writePadded_appends _ _ _).andThen (writePadded_appends _ _ _))

theorem serialize_appends (l : InvertedListClusters) : Appends l.serialize := by
  refine (writeScalar_appends _ _).andThen ((writePadded_appends _ _ _).andThen ?_)
  exact (writeScalar_appends _ _).andThen
    ((writePadded_appends _ _ _).andThen l.serializeSummaryStore_appends)

theorem leaves_terms (l : InvertedListClusters) : Leaves l.termIds.length l.writeTermColumns := by
  unfold writeTermColumns
  split
  · exact (leaves_writePadded termCodec (by decide) _ _).left (writePadded_appends _ _ _)
  · rename_i hnil
    intro w
    rw [Nat.eq_zero_of_not_pos hnil]
    exact Nat.zero_le _

/-- What was written in a file has sizes that a `size_t` holds. -/
theorem sized_of_serialize {l : InvertedListClusters} {w : Bytes}
    (h : (l.serialize w).length < 2 ^ 64) (hn : l.nClusters < 2 ^ 64) : l.Sized where
  docs := by
    refine lt_of_le_of_lt
      (Leaves.right ((leaves_writePadded idxCodec (by decide) _ _).left ?_) w) h
    exact (writeScalar_appends _ _).andThen
      ((writePadded_appends _ _ _).andThen l.serializeSummaryStore_appends)
  offsets := by
    exact lt_of_le_of_lt (Leaves.right (Leaves.right (Leaves.right
      ((leaves_writePadded idxCodec (by decide) _ _).left l.serializeSummaryStore_appends))) w) h
  nClusters := hn
  terms := by
    have hstore : Leaves l.termIds.length l.serializeSummaryStore := by
      refine Leaves.right (Leaves.right (Leaves.right (l.leaves_terms.left ?_)))
      exact (writeScalar_appends _ _).andThen
        ((writePadded_appends _ _ _).andThen (writePadded_appends _ _ _))
    exact lt_of_le_of_lt (Leaves.right (Leaves.right (Leaves.right (Leaves.right hstore))) w) h
  values := by
    have hstore : Leaves l.cscValue.length l.serializeSummaryStore :=
      Leaves.right (Leaves.right (Leaves.right (Leaves.right (Leaves.right
        (Leaves.right (leaves_writePadded .byte Nat.one_pos _ _))))))
    exact lt_of_le_of_lt (Leaves.right (Leaves.right (Leaves.right (Leaves.right hstore))) w) h

end InvertedListClusters

/-! ### All lists of an index -/

/-- `SeismicInvertedListsWriter::serialize`. -/
def serializeLists (summariesOnly : Bool) (lists : List InvertedListClusters) : Writer :=
  (writeScalar sizeCodec lists.length).andThen <|
  writeMany
    (fun l => if summariesOnly then l.serializeSummariesOnly else l.serialize) lists

/-- `SeismicInvertedListsWriter::mmap_deserialize` from a mapping at `base`. -/
def mmapDeserializeLists (base : ℕ) : Reader Exception (List InvertedListClusters) :=
  (readScalar sizeCodec).bind fun size =>
  readMany (InvertedListClusters.mmapDeserialize base) size

/-- **Stored lists come back.** -/
theorem roundTrips_lists {lists : List InvertedListClusters} {base : ℕ}
    (hlen : lists.length < 2 ^ 64) (h : ∀ l ∈ lists, l.Storable ∧ l.Sized)
    (hbase : ∀ l ∈ lists, l.elementSize ∣ base) :
    RoundTrips (serializeLists false lists) (mmapDeserializeLists base) lists :=
  (roundTrips_scalar sizeCodec (InvertedListClusters.fits_size hlen)).bind <|
    RoundTrips.readMany fun l hl =>
      InvertedListClusters.roundTrips (h l hl).1 (h l hl).2 (hbase l hl)

end Nsparse
