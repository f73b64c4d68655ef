/-
Nsparse/Truncation.lean

The copying readers on sections whose last bytes are missing.

The reader notices a short array and nothing else.  A count that is cut short is the
number its first bytes stand for, so an array is missed exactly when these are all zero
(`counted`); padding and the other scalars are never missed.  Behind a cut that went
unnoticed there is nothing left, every later count is 0, and the reader takes what it has
for a shorter index.
-/
import Nsparse.InvertedFile
import Nsparse.Lib.Truncation

namespace Nsparse

open Wire

variable {α β : Type}

/-- The program throws. -/
def Fault.Thrown (f : Fault) : Prop := ∃ e, f = .thrown e

/-! ### The primitives -/

/-- A scalar that is cut short is never noticed. -/
theorem cut_scalar (c : Codec α) (init a : α) :
    Cut Fault.Thrown (writeScalar c a) (IOReader.buffered.readScalar c init) .never
      fun j a' => j < c.width ∧ a' = c.overlay init a j where
  noticed _ _ _ h := h.elim
  unnoticed w data h _ := by
    have hdata := h.eq_append
    have hbehind := h.behind
    have hshort := h.short
    rw [writeScalar, length_emit, c.length_enc] at hshort
    have hj : data.length - w.length < c.width := by omega
    -- the bytes that are there
    have hbytes : (data.drop w.length).take c.width = (c.enc a).take (data.length - w.length) := by
      rw [hdata, List.drop_left, List.take_take, ← hdata, min_eq_right hj.le]
    have hlen : ((c.enc a).take (data.length - w.length)).length = data.length - w.length := by
      rw [List.length_take, c.length_enc, min_eq_left hj.le]
    refine ⟨_, ⟨hj, rfl⟩, ?_⟩
    show Except.ok (c.dec ((data.drop w.length).take c.width
      ++ (c.enc init).drop ((data.drop w.length).take c.width).length),
      (⟨data, w.length + min c.width (data.length - w.length)⟩ : Cursor)) = _
    rw [hbytes, hlen, min_eq_right hj.le, Nat.add_sub_cancel' hbehind]
    rfl

theorem atEnd_scalar (c : Codec α) {init : α} (h : c.Fits init) :
    AtEnd (IOReader.buffered.readScalar c init) init := fun data => by
  show Except.ok (c.dec ((data.drop data.length).take c.width
      ++ (c.enc init).drop ((data.drop data.length).take c.width).length),
      (⟨data, data.length + min c.width (data.length - data.length)⟩ : Cursor)) = _
  rw [List.drop_length, List.take_nil, List.length_nil, List.drop_zero, List.nil_append,
    Nat.sub_self, Nat.min_zero, Nat.add_zero, h]

/-- A count reads as 0 from nothing. -/
theorem atEnd_count : AtEnd (IOReader.buffered.readScalar sizeCodec 0) 0 :=
  atEnd_scalar sizeCodec (InvertedListClusters.fits_size (by decide))

theorem atEnd_array (c : Codec α) {alignment : ℕ} (halign : 0 < alignment) :
    AtEnd (IOReader.buffered.readPadded c 0 alignment) [] := fun data => by
  have hskip : IOReader.buffered.skipPadding alignment ⟨data, data.length⟩
      = .ok ((), ⟨data, data.length⟩) := by
    rw [buffered_skipPadding halign, Nat.sub_self, Nat.min_zero, if_neg (by decide), Nat.add_zero]
  exact (Reader.bind_of_ok hskip).trans (if_pos rfl)

theorem failsAtEnd_array (c : Codec α) {count alignment : ℕ} (hwidth : 0 < c.width)
    (halign : 0 < alignment) (hcount : 0 < count) :
    FailsAtEnd Fault.Thrown (IOReader.buffered.readPadded c count alignment) := fun data => by
  have hbytes := Nat.mul_pos hcount hwidth
  obtain ⟨e, he⟩ := @buffered_readPadded_cut _ data data.length c count alignment hwidth hcount halign
    (by rw [Nat.sub_self, Nat.min_zero]; decide) le_rfl (by rw [alignTo]; omega)
  exact ⟨_, ⟨e, rfl⟩, he⟩

theorem atEnd_words {elementSize : ℕ} (hwidth : 0 < elementSize) :
    AtEnd (IOReader.buffered.readWords 0 elementSize) [] := by
  rw [readWords_of_lt (by rw [Nat.zero_mul]; decide), Nat.zero_mul]
  exact atEnd_array .byte hwidth

/-- An array that is cut short is noticed. -/
theorem cut_array (c : Codec α) {xs : List α} {alignment : ℕ} (hwidth : 0 < c.width)
    (halign : 0 < alignment) (hmax : alignment ≤ kMaxAlignment) (hne : xs ≠ []) :
    Cut Fault.Thrown (writePadded c xs alignment)
      (IOReader.buffered.readPadded c xs.length alignment) .always fun _ _ => False where
  noticed w data h _ := by
    have hshort := h.short
    rw [writePadded, Writer.andThen, length_emit, length_padTo, c.length_encAll] at hshort
    obtain ⟨e, he⟩ := @buffered_readPadded_cut _ data w.length c xs.length alignment hwidth
      (List.length_pos_iff.mpr hne) halign
      ((min_le_left _ _).trans ((padding_lt halign).le.trans hmax)) h.behind hshort
    exact ⟨_, ⟨e, rfl⟩, he⟩
  unnoticed _ _ _ h := absurd trivial h

/-- Of an empty one there is only padding to cut. -/
theorem cut_emptyArray (c : Codec α) {alignment : ℕ} (halign : 0 < alignment)
    (hmax : alignment ≤ kMaxAlignment) :
    Cut Fault.Thrown (writePadded c [] alignment)
      (IOReader.buffered.readPadded c 0 alignment) .never fun _ _ => True where
  noticed _ _ _ h := h.elim
  unnoticed w data h _ := by
    have hshort := h.short
    have hbehind := h.behind
    rw [writePadded, Writer.andThen, length_emit, length_padTo, c.length_encAll, List.length_nil,
      Nat.zero_mul, Nat.add_zero] at hshort
    have hpad := (@padding_lt w.length alignment halign).le.trans hmax
    have hmin : min (padding w.length alignment) (data.length - w.length)
        = data.length - w.length := min_eq_right (by omega)
    have hskip : IOReader.buffered.skipPadding alignment ⟨data, w.length⟩
        = .ok ((), ⟨data, data.length⟩) := by
      rw [buffered_skipPadding halign, hmin, if_neg (by omega), Nat.add_sub_cancel' hbehind]
    exact ⟨[], trivial, (Reader.bind_of_ok hskip).trans (if_pos rfl)⟩

/-- Words that are cut short are noticed, if there are any. -/
theorem cut_words {count elementSize : ℕ} {values : Bytes} (hwidth : 0 < elementSize)
    (hmax : elementSize ≤ kMaxAlignment) (hlen : values.length = count * elementSize)
    (hsize : values.length < 2 ^ 63) (hcount : count ≠ 0) :
    Cut Fault.Thrown (writePadded .byte values elementSize)
      (IOReader.buffered.readWords count elementSize) .always fun _ _ => False := by
  rw [readWords_of_lt (by rw [← hlen]; omega), ← hlen]
  refine cut_array .byte Nat.one_pos hwidth hmax fun hnil => hcount ?_
  rw [hnil, List.length_nil] at hlen
  exact (Nat.mul_eq_zero.mp hlen.symm).resolve_right hwidth.ne'

theorem cut_noWords {elementSize : ℕ} (hwidth : 0 < elementSize)
    (hmax : elementSize ≤ kMaxAlignment) :
    Cut Fault.Thrown (writePadded .byte [] elementSize)
      (IOReader.buffered.readWords 0 elementSize) .never fun _ _ => True := by
  rw [readWords_of_lt (by rw [Nat.zero_mul]; decide), Nat.zero_mul]
  exact cut_emptyArray .byte hwidth hmax

theorem cut_idx {xs : List ℤ} (hne : xs ≠ []) :
    Cut Fault.Thrown (writePadded idxCodec xs 4) (IOReader.buffered.readPadded idxCodec xs.length 4)
      .always fun _ _ => False := cut_array idxCodec (by decide) (by decide) (by decide) hne

theorem cut_term {xs : List ℕ} (hne : xs ≠ []) :
    Cut Fault.Thrown (writePadded termCodec xs 2)
      (IOReader.buffered.readPadded termCodec xs.length 2) .always fun _ _ => False :=
  cut_array termCodec (by decide) (by decide) (by decide) hne

/-! ### Counts -/

/-- The cuts of a count and of what it counts: noticed unless the bytes left of the count are zero,
all its bytes when none is missing. -/
def counted (n : ℕ) : Notices := fun w m => n % 256 ^ (m - w.length) ≠ 0

/-- **What a count counts.**  The rest fails on nothing when something is expected. -/
theorem cut_counted {n : ℕ} (hn : n < 2 ^ 64) {t : Writer} {k : ℕ → Reader Fault β} {Q : β → Prop}
    (ht : Appends t) (hnone : n = 0 → Cut Fault.Thrown t (k n) .never fun _ => Q)
    (hsome : n ≠ 0 → Cut Fault.Thrown t (k n) .always fun _ => Q)
    (hend : ∃ b, Q b ∧ AtEnd (k 0) b)
    (hfails : ∀ n', 0 < n' → n' ≤ n → FailsAtEnd Fault.Thrown (k n')) :
    Cut Fault.Thrown ((writeScalar sizeCodec n).andThen t)
      ((IOReader.buffered.readScalar sizeCodec 0).bind k) (counted n) fun _ => Q := by
  have hfits : sizeCodec.Fits n := InvertedListClusters.fits_size hn
  have hpart : ∀ j < 8, sizeCodec.overlay 0 n j = n % 256 ^ j := fun j hj => by
    rw [sizeCodec, Codec.overlay_nat_zero, min_eq_left hj.le]
  have hk : Cut Fault.Thrown t (k n) (fun _ _ => n ≠ 0) fun _ => Q := by
    by_cases h0 : n = 0
    · exact (hnone h0).congr fun _ _ _ _ => iff_of_false id (not_not.mpr h0)
    · exact (hsome h0).congr fun _ _ _ _ => iff_of_true trivial h0
  have hall := @Cut.bind _ _ _ _ _ _ _ _ _ _ _ _ _ (fun j => n % 256 ^ j ≠ 0)
    (cut_scalar sizeCodec 0 n) (copied_scalar sizeCodec hfits 0) ht hk
    (by
      rintro j n' ⟨hj, rfl⟩ hloud
      rw [hpart j hj]
      exact hfails _ (Nat.pos_of_ne_zero hloud) (Nat.mod_le _ _))
    (by
      rintro j n' ⟨hj, rfl⟩ hquiet
      rw [hpart j hj, not_not.mp hquiet]
      exact hend)
  refine hall.congr fun w m hm _ => ?_
  have hlen : (writeScalar sizeCodec n w).length = w.length + 8 := by
    rw [writeScalar, length_emit, sizeCodec.length_enc]
    rfl
  rw [Notices.seq, hlen, counted]
  split
  · exact or_iff_right id
  · -- behind the count, all of it is there
    have hlt : n < 256 ^ (m - w.length) := by
      refine lt_of_lt_of_le hn ?_
      calc 2 ^ 64 = 256 ^ 8 := by norm_num
        _ ≤ 256 ^ (m - w.length) := Nat.pow_le_pow_right (by decide) (by omega)
    rw [Nat.mod_eq_of_lt hlt]

/-- An array behind its count. -/
theorem cut_countedArray (c : Codec α) {xs : List α} {alignment : ℕ} (hwidth : 0 < c.width)
    (halign : 0 < alignment) (hmax : alignment ≤ kMaxAlignment) (hn : xs.length < 2 ^ 64) :
    Cut Fault.Thrown ((writeScalar sizeCodec xs.length).andThen (writePadded c xs alignment))
      ((IOReader.buffered.readScalar sizeCodec 0).bind fun n =>
        IOReader.buffered.readPadded c n alignment)
      (counted xs.length) fun _ _ => True := by
  refine cut_counted hn (writePadded_appends _ _ _) (fun h0 => ?_) (fun hne => ?_) ?_ ?_
  · rw [List.length_eq_zero_iff.mp h0]
    exact cut_emptyArray c halign hmax
  · exact (cut_array c hwidth halign hmax fun hnil => hne (List.length_eq_zero_iff.mpr hnil)).always
  · exact ⟨[], trivial, atEnd_array c halign⟩
  · exact fun n' hpos _ => failsAtEnd_array c hwidth halign hpos

/-! ### Clustered lists -/

namespace InvertedListClusters

variable {l : InvertedListClusters}

/-- The sections of a list. -/
def writeDocs (l : InvertedListClusters) : Writer :=
  (writeScalar sizeCodec l.docs.length).andThen (writePadded idxCodec l.docs 4)

def writeOffsets (l : InvertedListClusters) : Writer :=
  (writeScalar sizeCodec l.offsets.length).andThen (writePadded idxCodec l.offsets 4)

def writeTerms (l : InvertedListClusters) : Writer :=
  (writeScalar sizeCodec l.termIds.length).andThen l.writeTermColumns

def writeEntries (l : InvertedListClusters) : Writer :=
  (writeScalar sizeCodec l.cscCluster.length).andThen <|
  (writePadded clusterIdCodec l.cscCluster 2).andThen <|
  writePadded .byte l.cscValue l.elementSize

theorem serialize_eq_sections (l : InvertedListClusters) :
    l.serialize = l.writeDocs.andThen (l.writeOffsets.andThen
      ((writeScalar sizeCodec l.nClusters).andThen ((writeScalar sizeCodec l.elementSize).andThen
        (l.writeTerms.andThen l.writeEntries)))) := rfl

/-- The cuts of a list that are noticed: those of its four arrays with their counts. -/
def notices (l : InvertedListClusters) : Notices :=
  .seq l.writeDocs (counted l.docs.length) <|
  .seq l.writeOffsets (counted l.offsets.length) <|
  .seq (writeScalar sizeCodec l.nClusters) .never <|
  .seq (writeScalar sizeCodec l.elementSize) .never <|
  .seq l.writeTerms (counted l.termIds.length) (counted l.cscCluster.length)

/-- The entries behind their count. -/
def readEntries (elementSize : ℕ) : Reader Fault (List ℕ × Bytes) :=
  (IOReader.buffered.readScalar sizeCodec 0).bind fun nnz =>
  (IOReader.buffered.readPadded clusterIdCodec nnz 2).bind fun cscCluster =>
  (IOReader.buffered.readWords nnz elementSize).map fun cscValue => (cscCluster, cscValue)

/-- The copying reader, section by section. -/
theorem deserialize_eq_sections (held : InvertedListClusters) :
    deserialize .buffered held =
      ((IOReader.buffered.readScalar sizeCodec 0).bind fun n =>
        IOReader.buffered.readPadded idxCodec n 4).bind fun docs =>
      ((IOReader.buffered.readScalar sizeCodec 0).bind fun n =>
        IOReader.buffered.readPadded idxCodec n 4).bind fun offsets =>
      (IOReader.buffered.readScalar sizeCodec held.nClusters).bind fun nClusters =>
      (IOReader.buffered.readScalar sizeCodec held.elementSize).bind fun elementSize =>
      ((IOReader.buffered.readScalar sizeCodec 0).bind (readTermColumnsFrom .buffered)).bind
        fun columns =>
      (readEntries elementSize).map fun entries =>
        ⟨nClusters, elementSize, docs, offsets, columns.1, columns.2, entries.1, entries.2⟩ := by
  unfold deserialize readEntries
  simp only [← Reader.bind_assoc, ← Reader.map_bind, Reader.map_map]
  rfl

/-- The columns are read as two arrays or not at all. -/
theorem cut_termColumns (h : l.Storable) (hs : l.Held) (hne : l.termIds ≠ []) :
    Cut Fault.Thrown l.writeTermColumns (readTermColumnsFrom .buffered l.termIds.length) .always
      fun _ _ => False := by
  have hcolumns := h.columns
  rw [if_neg hne] at hcolumns
  have hpos : l.termIds.length > 0 := List.length_pos_iff.mpr hne
  have hptr : l.termPtr ≠ [] := List.ne_nil_of_length_eq_add_one hcolumns
  unfold writeTermColumns readTermColumnsFrom
  rw [if_pos hpos, if_pos hpos, List.take_of_length_le hcolumns.le, ← hcolumns]
  exact (cut_term hne).bindAll (copied_term h.terms hs.terms)
    (writePadded_appends idxCodec l.termPtr 4) ((cut_idx hptr).map _ fun _ _ hfalse => hfalse)

theorem cut_terms (h : l.Storable) (hs : l.Held) :
    Cut Fault.Thrown l.writeTerms
      ((IOReader.buffered.readScalar sizeCodec 0).bind (readTermColumnsFrom .buffered))
      (counted l.termIds.length) fun _ _ => True := by
  refine cut_counted hs.sized.terms l.writeTermColumns_appends (fun h0 => ?_) (fun hne => ?_) ?_ ?_
  · have hid : l.writeTermColumns = id := by
      rw [writeTermColumns, if_neg (by omega)]
    rw [hid]
    exact Cut.nothing
  · exact (cut_termColumns h hs fun hnil => hne (List.length_eq_zero_iff.mpr hnil)).always
  · exact ⟨([], []), trivial, fun _ => rfl⟩
  · intro n' hpos _
    unfold readTermColumnsFrom
    rw [if_pos hpos]
    exact (failsAtEnd_array termCodec (by decide) (by decide) hpos).bind

theorem cut_entries (h : l.Storable) (hs : l.Held) :
    Cut Fault.Thrown l.writeEntries (readEntries l.elementSize) (counted l.cscCluster.length)
      fun _ _ => True := by
  have hmax : l.elementSize ≤ kMaxAlignment := by
    rcases h.width with hw | hw | hw <;> rw [hw] <;> decide
  have hnnz : l.cscCluster.length < 2 ^ 64 := by
    have hbytes := hs.clusters
    omega
  have happ := (writePadded_appends clusterIdCodec l.cscCluster 2).andThen
    (writePadded_appends .byte l.cscValue l.elementSize)
  refine cut_counted hnnz happ (fun h0 => ?_) (fun hne => ?_) ?_ ?_
  · -- no entries: two paddings
    have hclusters := List.length_eq_zero_iff.mp h0
    have hvalues := h.values
    rw [h0, Nat.zero_mul] at hvalues
    have hround : RoundTrips (writePadded clusterIdCodec [] 2)
        (IOReader.buffered.readPadded clusterIdCodec 0 2) [] :=
      copied_padded clusterIdCodec (by simp) (by decide) (by decide) (by decide) (by decide)
    rw [h0, hclusters, List.length_eq_zero_iff.mp hvalues]
    have hall := Cut.bindQuiet (Q := fun _ => True) (k := fun clusters =>
        (IOReader.buffered.readWords 0 l.elementSize).map fun values => (clusters, values))
      (cut_emptyArray clusterIdCodec (by decide) (by decide)) hround
      (writePadded_appends .byte [] l.elementSize)
      ((cut_noWords h.width_pos hmax).map _ fun _ _ _ => trivial)
      fun _ clusters _ => ⟨(clusters, []), trivial, (atEnd_words h.width_pos).map _⟩
    rwa [Notices.seq_never] at hall
  · have hclusters : l.cscCluster ≠ [] := fun hnil => hne (List.length_eq_zero_iff.mpr hnil)
    exact (cut_term hclusters).bindAll (copied_term h.clusters hs.clusters)
      (writePadded_appends .byte l.cscValue l.elementSize)
      ((cut_words h.width_pos hmax h.values hs.values hne).map _ fun _ _ _ => trivial)
  · exact ⟨([], []), trivial, (atEnd_array clusterIdCodec (by decide)).bind
      ((atEnd_words h.width_pos).map _)⟩
  · exact fun n' hpos _ => (failsAtEnd_array clusterIdCodec (by decide) (by decide) hpos).bind

/-- Nothing is a list without entries. -/
theorem atEnd_entries {elementSize : ℕ} (hwidth : 0 < elementSize) :
    AtEnd (readEntries elementSize) ([], []) :=
  atEnd_count.bind ((atEnd_array clusterIdCodec (by decide)).bind ((atEnd_words hwidth).map _))

theorem atEnd_countedArray : AtEnd ((IOReader.buffered.readScalar sizeCodec 0).bind fun n =>
    IOReader.buffered.readPadded idxCodec n 4) [] :=
  atEnd_count.bind (atEnd_array idxCodec (by decide))

theorem atEnd_terms : AtEnd
    ((IOReader.buffered.readScalar sizeCodec 0).bind (readTermColumnsFrom .buffered)) ([], []) :=
  atEnd_count.bind fun _ => rfl

/-- The width that is left of a cut one is a width, over the one the object holds. -/
theorem overlay_width_pos {elementSize : ℕ}
    (h : elementSize = U32 ∨ elementSize = U16 ∨ elementSize = U8) {j : ℕ} (hj : j < 8) :
    0 < sizeCodec.overlay U32 elementSize j := by
  rcases h with rfl | rfl | rfl
  all_goals
    interval_cases j <;> decide

/-- The width of a new list stays what it is. -/
theorem atEnd_width : AtEnd (IOReader.buffered.readScalar sizeCodec U32) U32 :=
  atEnd_scalar sizeCodec (fits_size (by decide))

/-- Nothing is an empty list. -/
theorem atEnd_deserialize : AtEnd (deserialize .buffered .empty) .empty := by
  rw [deserialize_eq_sections]
  refine atEnd_countedArray.bind (atEnd_countedArray.bind (atEnd_count.bind ?_))
  exact atEnd_width.bind (atEnd_terms.bind ((atEnd_entries (by decide)).map _))

/-- **A cut list.** -/
theorem cut (h : l.Storable) (hs : l.Held) :
    Cut Fault.Thrown l.serialize (deserialize .buffered .empty) l.notices fun _ _ => True := by
  have hsized := hs.sized
  have hes : l.elementSize < 2 ^ 64 := by
    rcases h.width with hw | hw | hw <;> rw [hw] <;> decide
  have happ_terms := l.writeTermColumns_appends
  have happ_entries : Appends l.writeEntries := (writeScalar_appends _ _).andThen
    ((writePadded_appends _ _ _).andThen (writePadded_appends _ _ _))
  have happ_tail : Appends (l.writeTerms.andThen l.writeEntries) :=
    ((writeScalar_appends _ _).andThen happ_terms).andThen happ_entries
  have happ_width : Appends ((writeScalar sizeCodec l.elementSize).andThen
      (l.writeTerms.andThen l.writeEntries)) := (writeScalar_appends _ _).andThen happ_tail
  have happ_shape : Appends ((writeScalar sizeCodec l.nClusters).andThen
      ((writeScalar sizeCodec l.elementSize).andThen (l.writeTerms.andThen l.writeEntries))) :=
    (writeScalar_appends _ _).andThen happ_width
  have happ_offsets : Appends l.writeOffsets :=
    (writeScalar_appends _ _).andThen (writePadded_appends _ _ _)
  have hdocs := (copied_scalar sizeCodec (fits_size hsized.docs) 0).bind (k := fun n =>
    IOReader.buffered.readPadded idxCodec n 4) (copied_idx h.docs hs.docs)
  have hoffsets := (copied_scalar sizeCodec (fits_size hsized.offsets) 0).bind (k := fun n =>
    IOReader.buffered.readPadded idxCodec n 4) (copied_idx h.offsets hs.offsets)
  have hterms := (copied_scalar sizeCodec (fits_size hsized.terms) 0).bind
    (copied_termColumns h hs)
  rw [serialize_eq_sections, deserialize_eq_sections, notices]
  -- behind each cut the list that is left has the sections that were read and empty ones
  refine Cut.bindQuiet
    (cut_countedArray idxCodec (by decide) (by decide) (by decide) hsized.docs) hdocs
    (happ_offsets.andThen happ_shape) ?_ ?_
  rotate_left
  · exact fun _ docs _ => ⟨_, trivial, atEnd_countedArray.bind (atEnd_count.bind
      (atEnd_width.bind (atEnd_terms.bind ((atEnd_entries (by decide)).map _))))⟩
  refine Cut.bindQuiet
    (cut_countedArray idxCodec (by decide) (by decide) (by decide) hsized.offsets) hoffsets
    happ_shape ?_ ?_
  rotate_left
  · exact fun _ offsets _ => ⟨_, trivial, atEnd_count.bind
      (atEnd_width.bind (atEnd_terms.bind ((atEnd_entries (by decide)).map _)))⟩
  refine (cut_scalar _ _ _).bindQuiet (copied_scalar sizeCodec (fits_size hsized.nClusters) _)
    happ_width ?_ ?_
  rotate_left
  · exact fun _ nClusters _ => ⟨_, trivial,
      atEnd_width.bind (atEnd_terms.bind ((atEnd_entries (by decide)).map _))⟩
  refine (cut_scalar _ _ _).bindQuiet (copied_scalar sizeCodec (fits_size hes) _) happ_tail ?_ ?_
  rotate_left
  · rintro j _ ⟨hj, rfl⟩
    exact ⟨_, trivial, atEnd_terms.bind ((atEnd_entries (overlay_width_pos h.width hj)).map _)⟩
  refine (cut_terms h hs).bindQuiet hterms happ_entries ?_ ?_
  rotate_left
  · exact fun _ columns _ => ⟨_, trivial, (atEnd_entries h.width_pos).map _⟩
  exact (cut_entries h hs).map _ fun _ _ _ => trivial

end InvertedListClusters

/-- The cuts of all lists that are noticed; a list behind the cut reads as an empty one. -/
def listNotices (lists : List InvertedListClusters) : Notices :=
  .seq (writeScalar sizeCodec lists.length) .never
    (.many InvertedListClusters.serialize InvertedListClusters.notices lists)

theorem atEnd_lists (n : ℕ) :
    AtEnd (readMany (InvertedListClusters.deserialize .buffered .empty) n)
      (List.replicate n .empty) := InvertedListClusters.atEnd_deserialize.readMany n

/-- **Cut lists.** -/
theorem cut_lists {lists : List InvertedListClusters} (hlen : lists.length < 2 ^ 64)
    (h : ∀ l ∈ lists, l.Storable ∧ l.Held) :
    Cut Fault.Thrown (serializeLists false lists) (deserializeLists .buffered) (listNotices lists)
      fun _ _ => True :=
  (cut_scalar _ _ _).bindQuiet (copied_scalar sizeCodec (InvertedListClusters.fits_size hlen) _)
    (Appends.writeMany (fun l => l.serialize_appends) lists)
    ((Cut.readMany (fun l hl => InvertedListClusters.copied (h l hl).1 (h l hl).2 _)
      (fun l hl => InvertedListClusters.cut (h l hl).1 (h l hl).2)
      InvertedListClusters.atEnd_deserialize).mono fun _ _ _ => trivial)
    fun _ n _ => ⟨_, trivial, atEnd_lists n⟩

/-! ### Sparse vectors -/

namespace SparseVectors

/-- What `serialize` writes behind the count of vectors. -/
def writeArrays (v : SparseVectors Code) : Writer :=
  (writePadded termCodec v.indices 2).andThen (writePadded .byte v.values.flatten v.elementSize)

/-- The terms and the values are read behind the offsets. -/
def readArrays (vectorCount dimension elementSize : ℕ) (indptr : List ℕ) :
    Reader Fault (SparseVectors Code) :=
  (loadOffset indptr vectorCount).bind fun indicesSize =>
  (IOReader.buffered.readPadded termCodec indicesSize 2).bind fun indices =>
  (IOReader.buffered.readWords indicesSize elementSize).map fun values =>
    ⟨elementSize, dimension, indptr, indices, codesOf elementSize indicesSize values⟩

variable {v : SparseVectors Code}

theorem Storable.serialize_eq (h : v.Storable) (hne : v.numVectors ≠ 0) :
    v.serialize = (writeScalar sizeCodec v.numVectors).andThen
      ((writeScalar sizeCodec v.dimension).andThen ((writeScalar sizeCodec v.elementSize).andThen
        ((writePadded offsetCodec v.indptr 8).andThen v.writeArrays))) := by
  have hlen : v.indptr.length = v.numVectors + 1 := by
    have hpos := v.numVectors_eq
    omega
  have hflat := length_flatten_codes h.codes
  rw [← h.wellFormed.paired] at hflat
  rw [serialize, if_pos (Nat.pos_of_ne_zero hne)]
  dsimp only
  rw [h.wellFormed.getD_numVectors, ← hflat, List.take_length, List.take_length, ← hlen,
    List.take_length]
  rfl

theorem Storable.hload (h : v.Storable) (hne : v.numVectors ≠ 0) :
    loadOffset v.indptr v.numVectors = fun cursor => .ok (v.indices.length, cursor) := by
  have hindptr : v.indptr ≠ [] := fun hnil => hne (by rw [numVectors_eq, hnil]; rfl)
  have hlast := (h.wellFormed.offsets hindptr).last
  rw [List.getLast?_eq_getElem?, ← numVectors_eq] at hlast
  funext cursor
  rw [loadOffset, hlast]

/-- Where it is aligned, an empty array leaves nothing. -/
theorem writePadded_nil (c : Codec α) {alignment : ℕ} {w : Bytes} (h : alignment ∣ w.length) :
    writePadded c [] alignment w = w := by
  show (w ++ List.replicate (padding w.length alignment) 0) ++ [] = w
  rw [padding_eq_zero h, List.append_nil, List.replicate_zero, List.append_nil]

theorem eight_dvd_writeOffsets (indptr : List ℕ) (w : Bytes) :
    8 ∣ (writePadded offsetCodec indptr 8 w).length := by
  rw [writePadded, Writer.andThen, length_emit, length_padTo, offsetCodec.length_encAll]
  exact (dvd_add_padding w.length (by decide)).add (Dvd.intro_left _ rfl)

/-- Behind the offsets a cut is noticed; without terms there is nothing to cut. -/
theorem cut_arrays (h : v.Storable) (hs : v.Held) (hne : v.numVectors ≠ 0) :
    Cut Fault.Thrown ((writePadded offsetCodec v.indptr 8).andThen v.writeArrays)
      ((IOReader.buffered.readPadded offsetCodec (v.numVectors + 1) 8).bind
        (readArrays v.numVectors v.dimension v.elementSize)) .always fun _ _ => False := by
  have hindptr : v.indptr ≠ [] := fun hnil => hne (by rw [numVectors_eq, hnil]; rfl)
  have hlen : v.indptr.length = v.numVectors + 1 := by
    have hpos := v.numVectors_eq
    omega
  have hflat := length_flatten_codes h.codes
  rw [← h.wellFormed.paired] at hflat
  have hmax : v.elementSize ≤ kMaxAlignment ∧ v.elementSize ∣ 8 := by
    rcases h.width with hw | hw | hw <;> rw [hw] <;> decide
  have hoffsets : ∀ i ∈ v.indptr, offsetCodec.Fits i := by
    intro i hi
    have hle : i ≤ v.indices.length := (h.wellFormed.offsets hindptr).le_of_mem hi
    have hbytes := hs.terms
    exact InvertedListClusters.fits_size (by omega)
  have hterms : ∀ t ∈ v.indices, termCodec.Fits t := fun t ht => fits_term (h.terms t ht)
  have hround : RoundTrips (writePadded offsetCodec v.indptr 8)
      (IOReader.buffered.readPadded offsetCodec v.indptr.length 8) v.indptr :=
    copied_padded offsetCodec hoffsets (by decide) (by decide) (by decide) hs.offsets
  have hcut : Cut Fault.Thrown (writePadded offsetCodec v.indptr 8)
      (IOReader.buffered.readPadded offsetCodec v.indptr.length 8) .always fun _ _ => False :=
    cut_array offsetCodec (by decide) (by decide) (by decide) hindptr
  rw [hlen] at hround hcut
  by_cases hnnz : v.indices = []
  · -- the offsets end where both arrays would begin
    have hid : (writePadded offsetCodec v.indptr 8).andThen v.writeArrays
        = (writePadded offsetCodec v.indptr 8).andThen id := by
      funext w
      have hflat' : v.values.flatten = [] := by
        rw [hnnz, List.length_nil, Nat.zero_mul] at hflat
        exact List.length_eq_zero_iff.mp hflat
      have haligned := eight_dvd_writeOffsets v.indptr w
      show writePadded .byte v.values.flatten v.elementSize (writePadded termCodec v.indices 2
        (writePadded offsetCodec v.indptr 8 w)) = writePadded offsetCodec v.indptr 8 w
      rw [hnnz, hflat', writePadded_nil termCodec ((by decide : 2 ∣ 8).trans haligned),
        writePadded_nil .byte (hmax.2.trans haligned)]
    rw [hid]
    exact hcut.bindAll hround Appends.id Cut.nothing
  · have hload := h.hload hne
    have hnnz' : v.indices.length ≠ 0 := fun h0 => hnnz (List.length_eq_zero_iff.mp h0)
    refine hcut.bindAll hround ((writePadded_appends _ _ _).andThen (writePadded_appends _ _ _)) ?_
    unfold readArrays
    rw [hload]
    exact (cut_term hnnz).bindAll (copied_term hterms hs.terms) (writePadded_appends _ _ _)
      ((cut_words h.width_pos hmax.1 hflat hs.values hnnz').map _ fun _ _ hfalse => hfalse)

/-- **Cut vectors.**  What is left when no cut was noticed is a store without vectors. -/
theorem cut_vectors (h : v.Storable) (hs : v.Held) (hne : v.numVectors ≠ 0) :
    Cut Fault.Thrown v.serialize (deserialize .buffered .default) (counted v.numVectors)
      fun _ v' => v'.numVectors = 0 := by
  have hcount : v.numVectors < 2 ^ 64 := lt_of_le_of_lt (Nat.le_succ _) h.count
  have hes : v.elementSize < 2 ^ 64 := by
    rcases h.width with hw | hw | hw <;> rw [hw] <;> decide
  have happ_arrays : Appends ((writePadded offsetCodec v.indptr 8).andThen v.writeArrays) :=
    (writePadded_appends _ _ _).andThen
      ((writePadded_appends _ _ _).andThen (writePadded_appends _ _ _))
  have hnothing : AtEnd (IOReader.buffered.readScalar sizeCodec 0) 0 := atEnd_count
  -- the offsets of at least one vector fail on nothing
  have hoffsets : ∀ n, 0 < n → n ≤ v.numVectors → ∀ dimension elementSize,
      FailsAtEnd Fault.Thrown ((IOReader.buffered.readPadded offsetCodec ((n + 1) % 2 ^ 64) 8).bind
        (readArrays n dimension elementSize)) := fun n hpos hle dimension elementSize => by
    have hlt : n + 1 < 2 ^ 64 := lt_of_le_of_lt (Nat.succ_le_succ hle) h.count
    rw [Nat.mod_eq_of_lt hlt]
    exact (failsAtEnd_array offsetCodec (by decide) (by decide) (Nat.succ_pos n)).bind
  rw [h.serialize_eq hne]
  refine cut_counted hcount ((writeScalar_appends _ _).andThen
    ((writeScalar_appends _ _).andThen happ_arrays)) (fun h0 => absurd h0 hne) (fun _ => ?_) ?_ ?_
  · rw [if_neg hne]
    have harrays : Cut Fault.Thrown ((writePadded offsetCodec v.indptr 8).andThen v.writeArrays)
        ((IOReader.buffered.readPadded offsetCodec ((v.numVectors + 1) % 2 ^ 64) 8).bind
          (readArrays v.numVectors v.dimension v.elementSize)) .always fun _ v' =>
        v'.numVectors = 0 := by
      rw [Nat.mod_eq_of_lt h.count]
      exact (cut_arrays h hs hne).always
    have hfails := hoffsets _ (Nat.pos_of_ne_zero hne) le_rfl
    have helement := (cut_scalar sizeCodec 0 v.elementSize).bindFails
      (k := fun elementSize => (IOReader.buffered.readPadded offsetCodec
        ((v.numVectors + 1) % 2 ^ 64) 8).bind (readArrays v.numVectors v.dimension elementSize))
      (copied_scalar sizeCodec (InvertedListClusters.fits_size hes) 0) happ_arrays harrays
      fun _ elementSize _ => hfails v.dimension elementSize
    rw [Notices.seq_always] at helement
    have hdimension := (cut_scalar sizeCodec 0 v.dimension).bindFails
      (k := fun dimension => (IOReader.buffered.readScalar sizeCodec 0).bind fun elementSize =>
        (IOReader.buffered.readPadded offsetCodec ((v.numVectors + 1) % 2 ^ 64) 8).bind
          (readArrays v.numVectors dimension elementSize))
      (copied_scalar sizeCodec (InvertedListClusters.fits_size h.dimension.2) 0)
      ((writeScalar_appends _ _).andThen happ_arrays) helement
      fun _ dimension _ => hnothing.fails (hfails dimension 0)
    rw [Notices.seq_always] at hdimension
    exact hdimension
  · exact ⟨default, rfl, fun _ => rfl⟩
  · intro n hpos hle
    rw [if_neg hpos.ne']
    exact hnothing.fails (hnothing.fails (hoffsets n hpos hle 0 0))

theorem cut_default : Cut Fault.Thrown default.serialize (deserialize .buffered .default) (counted 0)
    fun _ v' => v'.numVectors = 0 :=
  cut_counted (t := id) (by decide) Appends.id (fun _ => Cut.nothing) (fun h => absurd rfl h)
    ⟨default, rfl, fun _ => rfl⟩ fun _ hpos hle => absurd hle (not_le.mpr hpos)

/-- Nothing holds no vectors. -/
theorem atEnd_default : AtEnd (deserialize .buffered .default) default :=
  atEnd_count.bind fun _ => rfl

end SparseVectors

/-! ### Plain lists -/

namespace InvertedList

variable {elementSize : ℕ} {l : InvertedList Code}

/-- Nothing is an empty list. -/
theorem atEnd_deserialize (hwidth : 0 < elementSize) :
    AtEnd (deserialize .buffered elementSize) ⟨[], []⟩ :=
  atEnd_count.bind ((atEnd_array idxCodec (by decide)).bind ((atEnd_words hwidth).map _))

/-- **A cut list.** -/
theorem cut (h : l.Storable elementSize) (hs : l.Held) (hwidth : 0 < elementSize)
    (hmax : elementSize ≤ kMaxAlignment) :
    Cut Fault.Thrown (serialize elementSize l) (deserialize .buffered elementSize)
      (counted l.size) fun _ _ => True := by
  have hn : l.size < 2 ^ 64 := by
    have hbytes := hs.docIds
    rw [size]
    omega
  have hflat := h.length_flatten
  refine cut_counted hn ((writePadded_appends _ _ _).andThen (writePadded_appends _ _ _))
    (fun h0 => ?_) (fun hne => ?_) ?_ ?_
  · have hround : RoundTrips (writePadded idxCodec [] 4)
        (IOReader.buffered.readPadded idxCodec 0 4) [] :=
      copied_idx (by simp) (by decide)
    rw [h0, Nat.zero_mul] at hflat
    have hids : l.docIds = [] := List.length_eq_zero_iff.mp h0
    rw [h0, hids, List.length_eq_zero_iff.mp hflat]
    have hall := Cut.bindQuiet (Q := fun _ => True) (k := fun docIds =>
        (IOReader.buffered.readWords 0 elementSize).map fun codes =>
          (⟨docIds, SparseVectors.codesOf elementSize 0 codes⟩ : InvertedList Code))
      (cut_emptyArray idxCodec (by decide) (by decide)) hround
      (writePadded_appends .byte [] elementSize)
      ((cut_noWords hwidth hmax).map _ fun _ _ _ => trivial)
      fun _ docIds _ => ⟨_, trivial, (atEnd_words hwidth).map _⟩
    rwa [Notices.seq_never] at hall
  · have hids : l.docIds ≠ [] := fun hnil => hne (by rw [size, hnil]; rfl)
    exact (cut_idx hids).bindAll (copied_idx h.docIds hs.docIds) (writePadded_appends _ _ _)
      ((cut_words hwidth hmax hflat hs.codes hne).map _ fun _ _ _ => trivial)
  · exact ⟨_, trivial, (atEnd_array idxCodec (by decide)).bind ((atEnd_words hwidth).map _)⟩
  · exact fun n' hpos _ => (failsAtEnd_array idxCodec (by decide) (by decide) hpos).bind

end InvertedList

end Nsparse
