/-
Nsparse/TruncatedFile.lean

Index files that end too early.

A cut is noticed in an id map and its header, in the first bytes of any header, and in
an array whose count is not zero; a posting list of an inverted index is missed by the
count of the maxima behind the lists.  The rest of a seismic index goes unnoticed: its
vectors and lists are what has been read so far.  `StoredIndex.notices` says so for every
byte, and `truncation_noticed_iff` that the copying reader throws at exactly these cuts.
-/
import Nsparse.Truncation
import Nsparse.WholeFile

namespace Nsparse

open Wire

variable {F : Type}

theorem Fault.thrown_thrown (e : Exception) : (Fault.thrown e).Thrown := ⟨e, rfl⟩

theorem failsAtEnd_check {α : Type} {x : Except Exception α} {e : Exception} (h : x = .error e) :
    FailsAtEnd Fault.Thrown (IOReader.check x) := fun data => by
  refine ⟨.thrown e, Fault.thrown_thrown e, ?_⟩
  unfold IOReader.check
  rw [h]

theorem atEnd_check {α : Type} {x : Except Exception α} {a : α} (h : x = .ok a) :
    AtEnd (IOReader.check x) a := fun data => by
  unfold IOReader.check
  rw [h]

/-- Nothing reads as the scalar that was there before. -/
theorem atEnd_overlay {α : Type} (c : Codec α) (init a : α) :
    AtEnd (IOReader.buffered.readScalar c init) (c.overlay init a 0) := fun data => by
  show Except.ok (c.dec ((data.drop data.length).take c.width
      ++ (c.enc init).drop ((data.drop data.length).take c.width).length),
      (⟨data, data.length + min c.width (data.length - data.length)⟩ : Cursor)) = _
  rw [List.drop_length, List.take_nil, List.length_nil, List.drop_zero, List.nil_append,
    Nat.sub_self, Nat.min_zero, Nat.add_zero]
  rfl

theorem length_writeScalar {α : Type} (c : Codec α) (a : α) (w : Bytes) :
    (writeScalar c a w).length = w.length + c.width := by
  rw [writeScalar, length_emit, c.length_enc]

/-- A scalar that is looked at later: its cuts are noticed when what is left of it is `bad`. -/
theorem cut_checked {α β : Type} (c : Codec α) (init : α) {a : α} (hfits : c.Fits a) {t : Writer}
    (ht : Appends t) {k : α → Reader Fault β} {M : Notices} (bad : α → Prop)
    (hk : Cut Fault.Thrown t (k a) M fun _ _ => True)
    (hloud : ∀ a', bad a' → FailsAtEnd Fault.Thrown (k a'))
    (hquiet : ∀ a', ¬ bad a' → ∃ b, AtEnd (k a') b) :
    Cut Fault.Thrown ((writeScalar c a).andThen t) ((IOReader.buffered.readScalar c init).bind k)
      (.seq (writeScalar c a) (fun w m => bad (c.overlay init a (m - w.length))) M)
      fun _ _ => True := by
  have hbind := @Cut.bind _ _ _ _ _ _ _ _ _ _ _ _ (fun _ => True)
    (fun j => bad (c.overlay init a j)) (cut_scalar c init a) (copied_scalar c hfits init) ht hk
    (by
      rintro j _ ⟨-, rfl⟩ hbad
      exact hloud _ hbad)
    (by
      rintro j _ ⟨-, rfl⟩ hgood
      obtain ⟨b, hb⟩ := hquiet _ hgood
      exact ⟨b, trivial, hb⟩)
  exact hbind.congr fun w m hm _ =>
    Notices.seq_congr (fun _ _ _ => or_iff_right id) (fun _ _ _ => Iff.rfl) hm

/-! ### Seismic indexes -/

namespace SeismicIndex

variable {x : SeismicIndex F} {elementSize : ℕ}

/-- The cuts of vectors and lists that are noticed. -/
def sectionNotices (x : SeismicIndex F) : Notices :=
  .seq (x.vectors.getD .default).serialize (counted (x.vectors.getD .default).numVectors)
    (listNotices x.clusteredInvertedLists)

theorem Storable.cut_vectors (h : x.Storable elementSize) {w : Bytes}
    (hw : (x.writeSections w).length < 2 ^ 63) :
    Cut Fault.Thrown (x.vectors.getD .default).serialize
      (SparseVectors.deserialize .buffered .default)
      (counted (x.vectors.getD .default).numVectors) fun _ v => v.numVectors = 0 := by
  cases hv : x.vectors with
  | none => exact SparseVectors.cut_default
  | some v =>
      obtain ⟨hstorable, hheld⟩ := (h.sections hw).1 v hv
      exact SparseVectors.cut_vectors hstorable hheld (h.fed.vectors v hv).nonempty

variable [FloatFormat F]

/-- Vectors without documents have the right width. -/
theorem check_empty {v : SparseVectors Code} (h : v.numVectors = 0) (msg : String) (width : ℕ) :
    throwIfElementSizeMismatch msg width v = .ok () := by
  rw [throwIfElementSizeMismatch, if_neg]
  rintro ⟨hpos, -⟩
  omega

/-- Behind vectors that are missing. -/
theorem atEnd_sections {v : SparseVectors Code} (h : v.numVectors = 0) (msg : String)
    (width dim : ℕ) :
    AtEnd ((IOReader.check (throwIfElementSizeMismatch msg width v)).bind fun _ =>
        (deserializeLists .buffered).map fun lists => (ofFile dim v lists : SeismicIndex F))
      (ofFile dim v []) :=
  (atEnd_check (check_empty h msg width)).bind ((atEnd_count.bind (atEnd_lists 0)).map _)

theorem atEnd_payload (msg : String) (width dim : ℕ) :
    AtEnd (readPayload .buffered msg width dim : Reader Fault (SeismicIndex F))
      (ofFile dim .default []) :=
  SparseVectors.atEnd_default.bind (atEnd_sections rfl msg width dim)

/-- **A cut payload.** -/
theorem Storable.cut (h : x.Storable elementSize) (msg : String) {w : Bytes}
    (hw : (x.writeSections w).length < 2 ^ 63) :
    Cut Fault.Thrown x.writeSections
      (readPayload .buffered msg elementSize x.dimension : Reader Fault (SeismicIndex F))
      x.sectionNotices fun _ _ => True := by
  refine (h.cut_vectors hw).bindQuiet (h.copied_vectors hw) (serializeLists_appends _) ?_
    fun _ v hv => ⟨_, trivial, atEnd_sections hv msg elementSize x.dimension⟩
  have hcheck : IOReader.check
      (throwIfElementSizeMismatch msg elementSize (x.vectors.getD .default))
      = fun cursor => .ok ((), cursor) := by
    funext cursor
    unfold IOReader.check
    rw [h.throwIfElementSizeMismatch_eq]
  rw [hcheck]
  exact (cut_lists (h.count.trans (by decide)) (h.sections hw).2).map _ fun _ _ _ => trivial

end SeismicIndex

/-! ### Quantizers -/

namespace ScalarQuantizer

variable [LinearOrder F] [FloatFormat F] [Zero F] [One F]

/-- The quantizer that the first `j` bytes of its header make, over the reader's initial values. -/
def ofBytes (sq : ScalarQuantizer F) (j : ℕ) : Except Exception (ScalarQuantizer F) :=
  quantizerFromFile (Codec.byte.overlay QuantizerType.QT_8bit.toByte sq.qtype.toByte j)
    ((floatCodec F).overlay 0 sq.vmin (j - 1)) ((floatCodec F).overlay 1 sq.vmax (j - 5))

/-- A cut header is noticed when what is left of it makes no quantizer. -/
def notices (sq : ScalarQuantizer F) : Notices := fun w m =>
  ∃ e, sq.ofBytes (m - w.length) = .error e

/-- **A cut header of a quantizer.** -/
theorem cut (sq : ScalarQuantizer F) :
    Cut Fault.Thrown sq.writeHeader
      (readQuantizationHeader .buffered : Reader Fault (ScalarQuantizer F)) sq.notices
      fun _ _ => True := by
  -- behind a scalar that was cut the others keep their initial values
  have hok : ∀ {x : Except Exception (ScalarQuantizer F)}, ¬ (∃ e, x = .error e) →
      ∃ q, x = .ok q := fun {x} h => by
    cases x with
    | error e => exact absurd ⟨e, rfl⟩ h
    | ok q => exact ⟨q, rfl⟩
  have happ : Appends ((writeScalar (floatCodec F) sq.vmax).andThen id) :=
    (writeScalar_appends _ _).andThen Appends.id
  have hthird := cut_checked (floatCodec F) 1 (StoredIndex.fits_float sq.stored.2) Appends.id
    (k := fun vmax => IOReader.check (quantizerFromFile sq.qtype.toByte sq.vmin vmax))
    (M := .never) (fun vmax => ∃ e, quantizerFromFile sq.qtype.toByte sq.vmin vmax = .error e)
    Cut.nothing (fun vmax ⟨e, he⟩ => failsAtEnd_check he)
    fun vmax h => (hok h).imp fun q hq => atEnd_check hq
  have hsecond := cut_checked (floatCodec F) 0 (StoredIndex.fits_float sq.stored.1) happ
    (k := fun vmin => (IOReader.buffered.readScalar (floatCodec F) 1).bind fun vmax =>
      IOReader.check (quantizerFromFile sq.qtype.toByte vmin vmax))
    (fun vmin => ∃ e, quantizerFromFile sq.qtype.toByte vmin
      ((floatCodec F).overlay 1 sq.vmax 0) = .error e) hthird
    (fun vmin ⟨e, he⟩ => (atEnd_overlay _ _ sq.vmax).fails (failsAtEnd_check he))
    fun vmin h => (hok h).imp fun q hq => (atEnd_overlay _ _ sq.vmax).bind (atEnd_check hq)
  have hfirst := cut_checked .byte QuantizerType.QT_8bit.toByte (Codec.fits_byte sq.qtype.toByte)
    ((writeScalar_appends (floatCodec F) sq.vmin).andThen happ)
    (k := fun qtype => (IOReader.buffered.readScalar (floatCodec F) 0).bind fun vmin =>
      (IOReader.buffered.readScalar (floatCodec F) 1).bind fun vmax =>
      IOReader.check (quantizerFromFile qtype vmin vmax))
    (fun qtype => ∃ e, quantizerFromFile qtype ((floatCodec F).overlay 0 sq.vmin 0)
      ((floatCodec F).overlay 1 sq.vmax 0) = .error e) hsecond
    (fun qtype ⟨e, he⟩ => (atEnd_overlay _ _ sq.vmin).fails
      ((atEnd_overlay _ _ sq.vmax).fails (failsAtEnd_check he)))
    fun qtype h => (hok h).imp fun q hq => (atEnd_overlay _ _ sq.vmin).bind
      ((atEnd_overlay _ _ sq.vmax).bind (atEnd_check hq))
  -- the three cases are one
  refine hfirst.congr fun w m hm hlt => ?_
  have hbyte : Codec.byte.width = 1 := rfl
  have hfloat : (floatCodec F).width = 4 := rfl
  have hq : ∀ j, 1 ≤ j → Codec.byte.overlay QuantizerType.QT_8bit.toByte sq.qtype.toByte j
      = sq.qtype.toByte := fun j hj => Codec.overlay_of_le (Codec.fits_byte _) _ hj
  have hv : ∀ j, 4 ≤ j → (floatCodec F).overlay 0 sq.vmin j = sq.vmin := fun j hj =>
    Codec.overlay_of_le (StoredIndex.fits_float sq.stored.1) _ hj
  rw [notices, ofBytes, Notices.seq, length_writeScalar, hbyte]
  split
  · rw [show m - w.length - 1 = 0 by omega, show m - w.length - 5 = 0 by omega]
  · rw [Notices.seq, length_writeScalar, length_writeScalar, hbyte, hfloat, hq _ (by omega)]
    split
    · rw [show m - (w.length + 1) = m - w.length - 1 by omega, show m - w.length - 5 = 0 by omega]
    · rw [Notices.seq, length_writeScalar, length_writeScalar, length_writeScalar, hbyte, hfloat,
        hv _ (by omega), show m - (w.length + 1 + 4) = m - w.length - 5 by omega]
      split
      · exact Iff.rfl
      · -- the header ends here
        have hlen : m < (writeScalar (floatCodec F) sq.vmax (writeScalar (floatCodec F) sq.vmin
          (writeScalar .byte sq.qtype.toByte w))).length := hlt
        rw [length_writeScalar, length_writeScalar, length_writeScalar, hbyte, hfloat] at hlen
        omega

/-- Nothing is the header of the quantizer that the initial values make. -/
theorem atEnd_header {sq : ScalarQuantizer F} (h : ¬ ∃ e, sq.ofBytes 0 = .error e) :
    ∃ q, AtEnd (readQuantizationHeader .buffered : Reader Fault (ScalarQuantizer F)) q := by
  cases hq : sq.ofBytes 0 with
  | error e => exact absurd ⟨e, hq⟩ h
  | ok q =>
      exact ⟨q, (atEnd_overlay _ _ sq.qtype.toByte).bind ((atEnd_overlay _ _ sq.vmin).bind
        ((atEnd_overlay _ _ sq.vmax).bind (atEnd_check hq)))⟩

theorem failsAtEnd_header {sq : ScalarQuantizer F} (h : ∃ e, sq.ofBytes 0 = .error e) :
    FailsAtEnd Fault.Thrown
      (readQuantizationHeader .buffered : Reader Fault (ScalarQuantizer F)) := by
  obtain ⟨e, he⟩ := h
  exact (atEnd_overlay _ _ sq.qtype.toByte).fails ((atEnd_overlay _ _ sq.vmin).fails
    ((atEnd_overlay _ _ sq.vmax).fails (failsAtEnd_check he)))

end ScalarQuantizer

/-! ### Posting lists and id maps -/

namespace InvertedIndex

variable [FloatFormat F] {x : InvertedIndex F}

/-- Every cut of an index with posting lists is noticed, of an index without them those in front of
the element size. -/
def payloadNotices (x : InvertedIndex F) : Notices := fun w m =>
  x.encodedLists ≠ [] ∨ m < w.length + 17

/-- The scores behind their count, and the check of it. -/
def readScores (dim numVectors : ℕ) (lists : List (InvertedList Code)) :
    Reader Fault (InvertedIndex F) :=
  (IOReader.buffered.readScalar sizeCodec 0).bind fun scoresSize =>
  (IOReader.buffered.readPadded (floatCodec F) scoresSize 4).bind fun scores =>
  (IOReader.check (throwIfScoresAreIncomplete lists.length scoresSize)).map fun _ =>
    .ofFile dim numVectors lists scores

theorem atEnd_scores (dim numVectors : ℕ) :
    AtEnd (readScores dim numVectors [] : Reader Fault (InvertedIndex F))
      (.ofFile dim numVectors [] []) :=
  atEnd_count.bind ((atEnd_array (floatCodec F) (by decide)).bind
    ((atEnd_check (a := ()) rfl).map _))

theorem failsAtEnd_scores (dim numVectors : ℕ) {lists : List (InvertedList Code)}
    (hne : lists ≠ []) :
    FailsAtEnd Fault.Thrown (readScores dim numVectors lists : Reader Fault (InvertedIndex F)) := by
  have hpos := List.length_pos_iff.mpr hne
  have hcheck : throwIfScoresAreIncomplete lists.length 0 = .error (.runtimeError
      "inverted index file's per-term score count does not match its term count") := by
    rw [throwIfScoresAreIncomplete, if_pos (by omega)]
  exact atEnd_count.fails ((atEnd_array (floatCodec F) (by decide)).fails
    ((failsAtEnd_check hcheck).map _))

/-- What follows the element size. -/
def readLists (dim numVectors nTerm storedElementSize : ℕ) : Reader Fault (InvertedIndex F) :=
  (IOReader.check (ArrayInvertedLists.throwIfForeignElementSize storedElementSize
    kElementSize)).bind fun _ =>
  (readMany (InvertedList.deserialize .buffered kElementSize) nTerm).bind
    (readScores dim numVectors)

theorem readPayload_eq (dim : ℕ) :
    (readPayload .buffered dim : Reader Fault (InvertedIndex F)) =
      (IOReader.buffered.readScalar sizeCodec 0).bind fun numVectors =>
      (IOReader.buffered.readScalar sizeCodec 0).bind fun nTerm =>
      (IOReader.buffered.readScalar sizeCodec 0).bind (readLists dim numVectors nTerm) := by
  unfold readPayload ArrayInvertedLists.read
  simp only [← Reader.bind_assoc]
  rfl

/-- Without an element size nothing is read. -/
theorem failsAtEnd_lists (dim numVectors nTerm : ℕ) {storedElementSize : ℕ}
    (hne : storedElementSize ≠ kElementSize) :
    FailsAtEnd Fault.Thrown
      (readLists dim numVectors nTerm storedElementSize : Reader Fault (InvertedIndex F)) :=
  (failsAtEnd_check (if_pos hne)).bind

/-- Nothing but the element size: the lists are empty, as many as were announced. -/
theorem readLists_atEnd (dim numVectors nTerm : ℕ) :
    (nTerm = 0 → AtEnd (readLists dim numVectors nTerm kElementSize : Reader Fault (InvertedIndex F))
      (.ofFile dim numVectors [] [])) ∧
    (nTerm ≠ 0 → FailsAtEnd Fault.Thrown
      (readLists dim numVectors nTerm kElementSize : Reader Fault (InvertedIndex F))) := by
  have hcheck : AtEnd (IOReader.check (ArrayInvertedLists.throwIfForeignElementSize kElementSize
      kElementSize)) () := atEnd_check rfl
  have hlist : AtEnd (InvertedList.deserialize .buffered kElementSize) ⟨[], []⟩ :=
    InvertedList.atEnd_deserialize (by decide)
  have hlists := hlist.readMany nTerm
  constructor
  · rintro rfl
    exact hcheck.bind (hlists.bind (atEnd_scores dim numVectors))
  · intro hne
    refine hcheck.fails (hlists.fails (failsAtEnd_scores dim numVectors ?_))
    exact fun hnil => hne (by simpa using congrArg List.length hnil)

/-- What is written behind the lists. -/
def writeScores (x : InvertedIndex F) : Writer :=
  (writeScalar sizeCodec x.maxTermScores.length).andThen (writePadded (floatCodec F) x.maxTermScores 4)

theorem writeScores_appends (x : InvertedIndex F) : Appends x.writeScores :=
  (writeScalar_appends _ _).andThen (writePadded_appends _ _ _)

/-- Cut scores are noticed, by their own count or by that of the lists. -/
theorem Storable.cut_scores (h : x.Storable) {w : Bytes} (hw : (x.writePayload w).length < 2 ^ 63)
    (hne : x.encodedLists ≠ []) :
    Cut Fault.Thrown x.writeScores
      (readScores x.dimension x.numVectors x.encodedLists : Reader Fault (InvertedIndex F)) .always
      fun _ _ => True := by
  have hpos := List.length_pos_iff.mpr hne
  have hmaxima : x.maxTermScores ≠ [] := fun hnil => by
    have hlen := h.length_maxima
    rw [hnil, List.length_nil] at hlen
    omega
  have harray : Cut Fault.Thrown (writePadded (floatCodec F) x.maxTermScores 4)
      (IOReader.buffered.readPadded (floatCodec F) x.maxTermScores.length 4) .always
      fun _ _ => False := cut_array (floatCodec F) (Nat.succ_pos 3) (by decide) (by decide) hmaxima
  have hround : RoundTrips (writePadded (floatCodec F) x.maxTermScores 4)
      (IOReader.buffered.readPadded (floatCodec F) x.maxTermScores.length 4) x.maxTermScores :=
    copied_padded (floatCodec F) h.listed.maxima (Nat.succ_pos 3) (by decide) (by decide)
      (sizes hw).2
  have hscores := harray.bindAll (t := id) (k := fun scores =>
      (IOReader.check (throwIfScoresAreIncomplete x.encodedLists.length
        x.maxTermScores.length)).map fun _ => (InvertedIndex.ofFile x.dimension x.numVectors
          x.encodedLists scores : InvertedIndex F))
    (Q := fun _ => True) hround Appends.id Cut.nothing
  have hall := (cut_scalar sizeCodec 0 x.maxTermScores.length).bindFails (k := fun scoresSize =>
      (IOReader.buffered.readPadded (floatCodec F) scoresSize 4).bind fun scores =>
      (IOReader.check (throwIfScoresAreIncomplete x.encodedLists.length scoresSize)).map fun _ =>
        (InvertedIndex.ofFile x.dimension x.numVectors x.encodedLists scores : InvertedIndex F))
    (copied_scalar sizeCodec (fits_maxima_count hw) 0) (writePadded_appends _ _ _) hscores
    (by
      intro _ scoresSize _
      rcases Nat.eq_zero_or_pos scoresSize with rfl | hcount
      · have hcheck : throwIfScoresAreIncomplete x.encodedLists.length 0 = .error (.runtimeError
            "inverted index file's per-term score count does not match its term count") := by
          rw [throwIfScoresAreIncomplete, if_pos (by omega)]
        exact (atEnd_array (floatCodec F) (by decide)).fails ((failsAtEnd_check hcheck).map _)
      · exact (failsAtEnd_array (floatCodec F) (Nat.succ_pos 3) (by decide) hcount).bind)
  rwa [Notices.seq_always] at hall

/-- Of an index without lists. -/
theorem cut_noScores (hmaxima : x.maxTermScores = []) :
    Cut Fault.Thrown x.writeScores
      (readScores x.dimension x.numVectors [] : Reader Fault (InvertedIndex F)) .never
      fun _ _ => True := by
  have hround : RoundTrips (writePadded (floatCodec F) [] 4)
      (IOReader.buffered.readPadded (floatCodec F) 0 4) [] :=
    copied_padded (floatCodec F) (by simp) (Nat.succ_pos 3) (by decide) (by decide) (by simp)
  have hcheck : ∀ scores : List F, AtEnd ((IOReader.check (throwIfScoresAreIncomplete 0 0)).map
      fun _ => (InvertedIndex.ofFile x.dimension x.numVectors [] scores : InvertedIndex F)) _ :=
    fun scores => (atEnd_check (a := ()) rfl).map _
  have hempty : Cut Fault.Thrown (writePadded (floatCodec F) [] 4)
      (IOReader.buffered.readPadded (floatCodec F) 0 4) .never fun _ _ => True :=
    cut_emptyArray (floatCodec F) (by decide) (by decide)
  have harray := hempty.bindQuiet
    (t := id) (k := fun scores =>
      (IOReader.check (throwIfScoresAreIncomplete 0 0)).map fun _ =>
        (InvertedIndex.ofFile x.dimension x.numVectors [] scores : InvertedIndex F))
    (Q := fun _ => True) (M := .never) hround Appends.id Cut.nothing
    fun _ scores _ => ⟨_, trivial, hcheck scores⟩
  rw [Notices.seq_never] at harray
  unfold writeScores
  rw [hmaxima]
  have hall := cut_counted (n := 0) (by decide) (writePadded_appends (floatCodec F) [] 4)
    (k := fun scoresSize =>
      (IOReader.buffered.readPadded (floatCodec F) scoresSize 4).bind fun scores =>
      (IOReader.check (throwIfScoresAreIncomplete 0 scoresSize)).map fun _ =>
        (InvertedIndex.ofFile x.dimension x.numVectors [] scores : InvertedIndex F))
    (Q := fun _ => True) (fun _ => harray) (fun h => absurd rfl h)
    ⟨_, trivial, (atEnd_array (floatCodec F) (by decide)).bind (hcheck [])⟩
    fun _ hpos hle => absurd hle (not_le.mpr hpos)
  exact hall.congr fun w m _ _ => iff_of_false (not_not.mpr (Nat.zero_mod _)) id

/-- **A cut payload.** -/
theorem Storable.cut (h : x.Storable) {w : Bytes} (hw : (x.writePayload w).length < 2 ^ 63) :
    Cut Fault.Thrown x.writePayload
      (readPayload .buffered x.dimension : Reader Fault (InvertedIndex F)) x.payloadNotices
      fun _ _ => True := by
  obtain ⟨hsize, -⟩ := sizes hw
  have hwidth : sizeCodec.Fits kElementSize := InvertedListClusters.fits_size (by decide)
  -- all lists with the scores behind them
  have hlists : Cut Fault.Thrown ((writeMany (InvertedList.serialize kElementSize) x.encodedLists).andThen
      x.writeScores)
      (readLists x.dimension x.numVectors x.encodedLists.length kElementSize
        : Reader Fault (InvertedIndex F)) (fun _ _ => x.encodedLists ≠ []) fun _ _ => True := by
    have hread : (readLists x.dimension x.numVectors x.encodedLists.length kElementSize
        : Reader Fault (InvertedIndex F)) =
          (readMany (InvertedList.deserialize .buffered kElementSize) x.encodedLists.length).bind
            (readScores x.dimension x.numVectors) := rfl
    rw [hread]
    by_cases hnone : x.encodedLists = []
    · have hmaxima : x.maxTermScores = [] := by
        have hlen := h.length_maxima
        rw [hnone] at hlen
        exact List.length_eq_zero_iff.mp hlen
      rw [hnone]
      exact (cut_noScores hmaxima).congr fun _ _ _ _ => iff_of_false id (not_not.mpr rfl)
    · have hheld := ArrayInvertedLists.held_of_serialize hsize
      have hmany := (Cut.readMany (fun l hl => InvertedList.copied (h.lists l hl) (hheld l hl)
          (by decide) (by decide))
        (fun l hl => InvertedList.cut (h.lists l hl) (hheld l hl) (by decide) (by decide))
        (InvertedList.atEnd_deserialize (by decide))).bindFails
        (RoundTrips.readMany fun l hl => InvertedList.copied (h.lists l hl) (hheld l hl)
          (by decide) (by decide))
        x.writeScores_appends (h.cut_scores hw hnone)
        fun _ lists hlen => failsAtEnd_scores _ _ fun hnil => hnone (by
          rw [hnil] at hlen
          exact List.length_eq_zero_iff.mp hlen.symm)
      rw [Notices.seq_always] at hmany
      exact hmany.congr fun _ _ _ _ => iff_of_true trivial hnone
  have happ_lists : Appends ((writeMany (InvertedList.serialize kElementSize) x.encodedLists).andThen
      x.writeScores) :=
    (Appends.writeMany (InvertedList.serialize_appends kElementSize) _).andThen x.writeScores_appends
  have helement := cut_checked sizeCodec 0 hwidth happ_lists
    (fun storedElementSize => storedElementSize ≠ kElementSize ∨ x.encodedLists ≠ []) hlists
    (fun storedElementSize hbad => by
      by_cases hsame : storedElementSize = kElementSize
      · subst hsame
        refine (readLists_atEnd _ _ _).2 fun h0 => ?_
        exact hbad.elim (fun hne => hne rfl) fun hne => hne (List.length_eq_zero_iff.mp h0)
      · exact failsAtEnd_lists _ _ _ hsame)
    fun storedElementSize hgood => by
      rw [not_or, not_not, not_not] at hgood
      obtain ⟨rfl, hnone⟩ := hgood
      exact ⟨_, (readLists_atEnd _ _ _).1 (by rw [hnone]; rfl)⟩
  have hzero : ∀ numVectors nTerm, FailsAtEnd Fault.Thrown
      ((IOReader.buffered.readScalar sizeCodec 0).bind (readLists x.dimension numVectors nTerm)
        : Reader Fault (InvertedIndex F)) :=
    fun numVectors nTerm => atEnd_count.fails (failsAtEnd_lists _ _ _ (by decide))
  have hnTerm := (cut_scalar sizeCodec 0 x.encodedLists.length).bindFails
    (k := fun nTerm => (IOReader.buffered.readScalar sizeCodec 0).bind
      (readLists x.dimension x.numVectors nTerm))
    (copied_scalar sizeCodec (ArrayInvertedLists.fits_count hsize) 0)
    ((writeScalar_appends sizeCodec kElementSize).andThen happ_lists) helement
    fun _ nTerm _ => hzero _ nTerm
  have hnumVectors := (cut_scalar sizeCodec 0 x.numVectors).bindFails
    (k := fun numVectors => (IOReader.buffered.readScalar sizeCodec 0).bind fun nTerm =>
      (IOReader.buffered.readScalar sizeCodec 0).bind (readLists x.dimension numVectors nTerm))
    (copied_scalar sizeCodec (InvertedListClusters.fits_size h.count) 0)
    ((writeScalar_appends sizeCodec x.encodedLists.length).andThen
      ((writeScalar_appends sizeCodec kElementSize).andThen happ_lists)) hnTerm
    fun _ numVectors _ => atEnd_count.fails (hzero numVectors 0)
  rw [readPayload_eq]
  refine hnumVectors.congr fun w m hm _ => ?_
  have hsizeWidth : sizeCodec.width = 8 := rfl
  simp only [Notices.seq, length_writeScalar, hsizeWidth, Notices.always, payloadNotices]
  split
  · exact iff_of_true trivial (.inr (by omega))
  split
  · exact iff_of_true trivial (.inr (by omega))
  split
  · -- one byte of the element size is enough
    have hoverlay : sizeCodec.overlay 0 kElementSize (m - (w.length + 8 + 8)) ≠ kElementSize
        ↔ m < w.length + 17 := by
      rw [sizeCodec, Codec.overlay_nat_zero_ne_iff (by decide) (by decide) (by decide)]
      omega
    rw [hoverlay, or_comm]
  · exact (or_iff_left (by omega)).symm

end InvertedIndex

/-! ### Id maps -/

/-- A cut id map is not noticed; the ids that are missing are 0. -/
theorem cut_idMap {ids : List ℤ} (hsize : ids.length * 4 < 2 ^ 63) :
    Cut Fault.Thrown (writeIdMap ids) (readIdMap .buffered) .never fun _ _ => True := by
  have hcount : sizeCodec.Fits ids.length := InvertedListClusters.fits_size (by omega)
  -- as many ids as the bytes left make, and zeros
  have hread : ∀ n, n * 4 < 2 ^ 63 → ∀ data : Bytes, ∀ pos, pos ≤ data.length →
      data.length ≤ pos + n * 4 →
      (if 2 ^ 63 ≤ n * idxCodec.width then (fun _ =>
          .error (.thrown (.lengthError "cannot create std::vector larger than max_size()"))
          : Reader Fault (List ℤ))
        else (IOReader.buffered.read (n * idxCodec.width)).map fun bytes =>
          idxCodec.decAll n (bytes ++ List.replicate (n * idxCodec.width - bytes.length) 0))
        ⟨data, pos⟩ = .ok (idxCodec.decAll n ((data.drop pos).take (n * 4)
          ++ List.replicate (n * 4 - ((data.drop pos).take (n * 4)).length) 0),
            ⟨data, data.length⟩) := fun n hn data pos hpos hend => by
    have hwidth : idxCodec.width = 4 := rfl
    rw [hwidth, if_neg (not_le.mpr hn)]
    show Except.ok (_, (⟨data, pos + min (n * 4) (data.length - pos)⟩ : Cursor)) = _
    rw [min_eq_right (by omega), Nat.add_sub_cancel' hpos]
  refine ((cut_scalar sizeCodec 0 ids.length).bindQuiet (M := .never) (Q := fun _ => True)
    (copied_scalar sizeCodec hcount 0) (emit_appends _) ?_ ?_).congr
      fun w m _ _ => by rw [Notices.seq_never]
  · refine ⟨fun _ _ _ hnever => hnever.elim, fun w data h _ => ?_⟩
    have hshort := h.short
    rw [length_emit, idxCodec.length_encAll] at hshort
    exact ⟨_, trivial, hread _ hsize data w.length h.behind hshort.le⟩
  · rintro j n ⟨-, hn⟩
    have hle : n ≤ ids.length := by
      rw [hn, sizeCodec, Codec.overlay_nat_zero]
      exact Nat.mod_le _ _
    refine ⟨idxCodec.decAll n ([] ++ List.replicate (n * 4 - ([] : Bytes).length) 0), trivial,
      fun data => ?_⟩
    have hend := hread n (by omega) data data.length le_rfl (Nat.le_add_right _ _)
    rw [List.drop_length, List.take_nil] at hend
    exact hend

theorem atEnd_idMap : AtEnd (readIdMap .buffered) [] := atEnd_count.bind fun data => by
  show Except.ok (idxCodec.decAll 0 _, (⟨data, data.length + min (0 * 4) _⟩ : Cursor)) = _
  rw [Nat.zero_mul, Nat.zero_min]
  rfl

/-! ### Headers -/

section Header

variable [LinearOrder F] [FloatFormat F]
  {payload : IndexHeader → Reader Fault (StoredIndex F) → IndexKind → Reader Fault (StoredIndex F)}

theorem kindOf_of_lt {id : ℕ} (h : id < 2 ^ 24) :
    kindOf id = .error (.runtimeError "Unknown index type") := by
  have hne : ∀ kind : IndexKind, id ≠ fourcc kind.name := fun kind hid => by
    have hbig : 2 ^ 24 ≤ fourcc kind.name := by
      rw [fourcc_eq]
      cases kind <;> decide
    omega
  rw [kindOf, if_neg (hne _), if_neg (hne _), if_neg (hne _), if_neg (hne _), if_neg (hne _),
    if_neg (hne _), if_neg (hne _)]

/-- An id that was cut names no type. -/
theorem checkHeader_of_lt {id : ℕ} (h : id < 2 ^ 24) (version : ℕ) (dim : ℤ) :
    ∃ e, checkHeader ⟨id, version, dim⟩ = .error e := by
  unfold checkHeader
  rw [kindOf_of_lt h]
  exact ⟨_, rfl⟩

/-- There is one version so far. -/
theorem checkHeader_version (kind : IndexKind) {version : ℕ} (h : version ≠ kFormatVersion)
    (dim : ℤ) : ∃ e, checkHeader ⟨fourcc kind.name, version, dim⟩ = .error e := by
  have hversion : version = 0 ∨ kFormatVersion < version := by
    rw [kFormatVersion] at h ⊢
    omega
  unfold checkHeader
  rw [kindOf_fourcc]
  by_cases hkind : kind = .brutal
  · exact ⟨_, if_pos hkind⟩
  · exact ⟨_, (if_neg hkind).trans (if_pos hversion)⟩

/-- **No index is read from nothing**, however deep the reader may go. -/
theorem failsAtEnd_readIndexWithin (fuel : ℕ) :
    FailsAtEnd Fault.Thrown (readIndexWithin .buffered payload fuel) := by
  cases fuel with
  | zero => exact fun data => ⟨_, Fault.thrown_thrown _, rfl⟩
  | succ fuel =>
      obtain ⟨e, he⟩ := checkHeader_of_lt (by decide : 0 < 2 ^ 24) 0 0
      have hheader : AtEnd (readHeader .buffered) ⟨0, 0, 0⟩ := by
        refine (atEnd_scalar headerIdCodec (Codec.fits_nat (by decide))).bind ?_
        refine (atEnd_scalar headerIdCodec (Codec.fits_nat (by decide))).bind ?_
        exact (atEnd_scalar headerDimensionCodec (fits_dimension (by decide))).map _
      exact hheader.fails (failsAtEnd_check he).bind

/-- **A cut header** is noticed up to the first byte of the version; behind it the payload is read
from nothing, for which it may be `quiet`. -/
theorem cut_behind_header {kind : IndexKind} (hkind : kind ≠ .brutal) {dim : ℕ}
    (hdim : dim < 2 ^ 31) {s : Writer} (hs : Appends s) {fuel : ℕ} {M : Notices} (quiet : Prop)
    (h : Cut Fault.Thrown s (payload ⟨fourcc kind.name, kFormatVersion, dim⟩
      (readIndexWithin .buffered payload fuel) kind) M fun _ _ => True)
    (hquiet : quiet → ∀ dim', ∃ y, AtEnd (payload ⟨fourcc kind.name, kFormatVersion, dim'⟩
      (readIndexWithin .buffered payload fuel) kind) y)
    (hloud : ¬ quiet → ∀ dim', FailsAtEnd Fault.Thrown (payload
      ⟨fourcc kind.name, kFormatVersion, dim'⟩ (readIndexWithin .buffered payload fuel) kind)) :
    Cut Fault.Thrown ((SeismicIndex.writeHeader kind.name kFormatVersion dim).andThen s)
      (readIndexWithin .buffered payload (fuel + 1))
      (.seq (SeismicIndex.writeHeader kind.name kFormatVersion dim)
        (fun w m => m < w.length + 5 ∨ ¬ quiet) M) fun _ _ => True := by
  obtain ⟨hid, henc⟩ := fourcc_fits kind
  have hversion : headerIdCodec.Fits kFormatVersion := Codec.fits_nat (by decide)
  -- the payload of a header, if it is one
  let rest (header : IndexHeader) : Reader Fault (StoredIndex F) :=
    (IOReader.check (checkHeader header)).bind fun kind =>
      payload header (readIndexWithin .buffered payload fuel) kind
  have hrest : ∀ dim', rest ⟨fourcc kind.name, kFormatVersion, dim'⟩
      = payload ⟨fourcc kind.name, kFormatVersion, dim'⟩ (readIndexWithin .buffered payload fuel)
        kind := fun dim' => by
    funext cursor
    show Reader.bind (IOReader.check _) _ cursor = _
    rw [checkHeader_eq hkind]
    rfl
  have hread : readIndexWithin .buffered payload (fuel + 1) =
      (IOReader.buffered.readScalar headerIdCodec 0).bind fun id =>
      (IOReader.buffered.readScalar headerIdCodec 0).bind fun version =>
      (IOReader.buffered.readScalar headerDimensionCodec 0).bind fun dimension =>
        rest ⟨id, version, dimension⟩ := by
    show (readHeader .buffered).bind rest = _
    unfold readHeader
    simp only [← Reader.bind_assoc, Reader.bind_map]
  -- the dimension may be cut, it is checked by none
  have hdimension := cut_checked headerDimensionCodec 0 (fits_dimension hdim) hs
    (k := fun dimension => rest ⟨fourcc kind.name, kFormatVersion, dimension⟩)
    (M := M) (fun _ => ¬ quiet) (by
      rw [hrest]
      exact h)
    (fun dim' hnot => by
      rw [hrest]
      exact hloud hnot dim')
    (fun dim' hquiet' => by
      rw [hrest]
      exact hquiet (not_not.mp hquiet') dim')
  have hzero : AtEnd (IOReader.buffered.readScalar headerDimensionCodec 0) 0 :=
    atEnd_scalar headerDimensionCodec (fits_dimension (by decide))
  have happ : Appends ((writeScalar headerDimensionCodec (dim : ℤ)).andThen s) :=
    (writeScalar_appends _ _).andThen hs
  have hversions := cut_checked headerIdCodec 0 hversion happ
    (k := fun version => (IOReader.buffered.readScalar headerDimensionCodec 0).bind fun dimension =>
      rest ⟨fourcc kind.name, version, dimension⟩)
    (fun version => version ≠ kFormatVersion ∨ ¬ quiet) hdimension
    (fun version hbad => by
      by_cases hsame : version = kFormatVersion
      · subst hsame
        refine hzero.fails ?_
        rw [hrest]
        exact hloud (hbad.resolve_left fun hne => hne rfl) 0
      · obtain ⟨e, he⟩ := checkHeader_version kind hsame 0
        exact hzero.fails (failsAtEnd_check he).bind)
    (fun version hgood => by
      rw [not_or, not_not, not_not] at hgood
      obtain ⟨rfl, hq⟩ := hgood
      obtain ⟨y, hy⟩ := hquiet hq 0
      refine ⟨y, hzero.bind ?_⟩
      rw [hrest]
      exact hy)
  have hids := (cut_scalar headerIdCodec 0 (fourcc kind.name)).bindFails
    (k := fun id => (IOReader.buffered.readScalar headerIdCodec 0).bind fun version =>
      (IOReader.buffered.readScalar headerDimensionCodec 0).bind fun dimension =>
        rest ⟨id, version, dimension⟩)
    (copied_scalar headerIdCodec hid 0) ((writeScalar_appends _ _).andThen happ) hversions
    (by
      rintro j _ ⟨hj, rfl⟩
      have hlt : headerIdCodec.overlay 0 (fourcc kind.name) j < 2 ^ 24 := by
        have hj4 : j < 4 := hj
        rw [headerIdCodec, Codec.overlay_nat_zero, min_eq_left hj4.le]
        have hle : (256 : ℕ) ^ j ≤ 256 ^ 3 := Nat.pow_le_pow_right (by decide) (Nat.lt_succ_iff.mp hj4)
        exact (Nat.mod_lt _ (by positivity)).trans_le (hle.trans (by decide))
      obtain ⟨e, he⟩ := checkHeader_of_lt hlt 0 0
      refine (atEnd_scalar headerIdCodec (Codec.fits_nat (by decide))).fails (hzero.fails ?_)
      exact (failsAtEnd_check he).bind)
  rw [hread, SeismicIndex.writeHeader, ← henc]
  refine hids.congr fun w m hm _ => ?_
  have hwidth : headerIdCodec.width = 4 := rfl
  have hwidth' : headerDimensionCodec.width = 4 := rfl
  have hheader : (((emit (headerIdCodec.enc (fourcc kind.name))).andThen
      ((writeScalar (.nat 4) kFormatVersion).andThen (writeScalar (.int 4) (dim : ℤ)))) w).length
      = w.length + 12 := by
    rw [henc]
    exact length_writeHeader kind dim w
  simp only [Notices.seq, length_writeScalar, hwidth, hwidth', Notices.always, hheader]
  by_cases hid : m < w.length + 4
  · rw [if_pos hid, if_pos (by omega)]
    exact iff_of_true trivial (.inl (by omega))
  rw [if_neg hid]
  by_cases hver : m < w.length + 4 + 4
  · rw [if_pos hver, if_pos (by omega)]
    -- one byte of the version is enough
    have hoverlay : headerIdCodec.overlay 0 kFormatVersion (m - (w.length + 4)) ≠ kFormatVersion
        ↔ m < w.length + 5 := by
      rw [headerIdCodec, Codec.overlay_nat_zero_ne_iff (by decide) (by decide) (by decide)]
      omega
    rw [hoverlay]
  rw [if_neg hver]
  by_cases hdim' : m < w.length + 4 + 4 + 4
  · rw [if_pos hdim', if_pos (by omega)]
    exact (or_iff_right (by omega)).symm
  · rw [if_neg hdim', if_neg (by omega)]
    exact Iff.rfl

end Header

/-! ### Whole files -/

namespace StoredIndex

variable [LinearOrder F] [FloatFormat F]

/-- What the copying reader's types hold whenever they are written, built or not. -/
def Writable : StoredIndex F → Prop
  | seismic x => x.Storable U32
  | seismicSQ sq x => x.Storable sq.bytesPerValue
  | inverted x => x.dimension < 2 ^ 31 ∧ x.numVectors < 2 ^ 64 ∧ x.Listed
  | idMap internalToExternal _ delegate =>
      (∀ id ∈ internalToExternal, idxCodec.Fits id) ∧ delegate.Writable
  | _ => False

theorem Storable.writable {x : StoredIndex F} (h : x.Storable) : x.Writable := by
  induction x with
  | seismic x => exact h
  | seismicSQ sq x => exact h
  | inverted x => exact ⟨h.dimension, h.count, h.listed⟩
  | idMap internal external delegate ih => exact ⟨h.1, ih h.2⟩
  | diskSeismic x => exact h.elim
  | diskSeismicSQ sq x => exact h.elim

variable [Ring F]

/-- The cuts of an index's file that the copying reader notices. -/
def notices : StoredIndex F → Notices
  | seismic x =>
      .seq (SeismicIndex.writeHeader IndexKind.seismic.name kFormatVersion x.dimension)
        (fun w m => m < w.length + 5) x.sectionNotices
  | seismicSQ sq x =>
      .seq (SeismicIndex.writeHeader IndexKind.seismicSQ.name kFormatVersion x.dimension)
        (fun w m => m < w.length + 5 ∨ ∃ e, sq.ofBytes 0 = .error e)
        (.seq sq.writeHeader sq.notices x.sectionNotices)
  | inverted x =>
      .seq (SeismicIndex.writeHeader IndexKind.inverted.name kFormatVersion x.dimension) .always
        x.payloadNotices
  | idMap internalToExternal _ delegate =>
      .seq (SeismicIndex.writeHeader IndexKind.idMap.name kFormatVersion 0) .always
        (.seq (writeIdMap internalToExternal) .always delegate.notices)
  | _ => .always

/-- A file of one index, whatever the fuel. -/
theorem cut_seismic {x : SeismicIndex F} (h : x.Storable U32) {w : Bytes}
    (hw : (x.writeSections w).length < 2 ^ 63) (fuel : ℕ) :
    Cut Fault.Thrown ((SeismicIndex.writeHeader IndexKind.seismic.name kFormatVersion
        x.dimension).andThen x.writeSections)
      (readIndexWithin .buffered (readPayload .buffered : _ → Reader Fault (StoredIndex F) → _)
        (fuel + 1)) (seismic x).notices fun _ _ => True := by
  have happ : Appends x.writeSections :=
    (SparseVectors.serialize_appends _).andThen (SeismicIndex.serializeLists_appends _)
  have hcut : Cut Fault.Thrown x.writeSections
      (readPayload .buffered ⟨fourcc IndexKind.seismic.name, kFormatVersion, x.dimension⟩
        (readIndexWithin .buffered (readPayload .buffered) fuel) .seismic
          : Reader Fault (StoredIndex F)) x.sectionNotices fun _ _ => True :=
    (h.cut seismicWidthMsg hw).map _ fun _ _ _ => trivial
  have hall := cut_behind_header (by decide) h.fed.dimension happ True hcut
    (fun _ dim' => ⟨_, (SeismicIndex.atEnd_payload seismicWidthMsg U32 dim'.toNat).map _⟩)
    fun hnot => absurd trivial hnot
  exact hall.congr fun w m hm _ => Notices.seq_congr
    (fun _ _ _ => or_iff_left (not_not.mpr trivial)) (fun _ _ _ => Iff.rfl) hm

theorem cut_seismicSQ {sq : ScalarQuantizer F} {x : SeismicIndex F}
    (h : x.Storable sq.bytesPerValue) {w : Bytes} (hw : (x.writeSections w).length < 2 ^ 63)
    (fuel : ℕ) :
    Cut Fault.Thrown ((SeismicIndex.writeHeader IndexKind.seismicSQ.name kFormatVersion
        x.dimension).andThen (sq.writeHeader.andThen x.writeSections))
      (readIndexWithin .buffered (readPayload .buffered : _ → Reader Fault (StoredIndex F) → _)
        (fuel + 1)) (seismicSQ sq x).notices fun _ _ => True := by
  have happ_sq : Appends sq.writeHeader := (quantizedFormat sq "").writePayloadHeader_appends
  have happ : Appends x.writeSections :=
    (SparseVectors.serialize_appends _).andThen (SeismicIndex.serializeLists_appends _)
  have hatEnd : ∀ (sq' : ScalarQuantizer F) dim, AtEnd ((SeismicIndex.readPayload .buffered
      quantizedWidthMsg sq'.bytesPerValue dim).map (StoredIndex.seismicSQ sq')) _ :=
    fun sq' dim => (SeismicIndex.atEnd_payload quantizedWidthMsg sq'.bytesPerValue dim).map _
  have hcut : Cut Fault.Thrown (sq.writeHeader.andThen x.writeSections)
      (readPayload .buffered ⟨fourcc IndexKind.seismicSQ.name, kFormatVersion, x.dimension⟩
        (readIndexWithin .buffered (readPayload .buffered) fuel) .seismicSQ
          : Reader Fault (StoredIndex F)) (.seq sq.writeHeader sq.notices x.sectionNotices)
      fun _ _ => True :=
    sq.cut.bindQuiet (copied_quantizer sq) happ
      ((h.cut quantizedWidthMsg hw).map _ fun _ _ _ => trivial)
      fun _ sq' _ => ⟨_, trivial, hatEnd sq' _⟩
  have hall := cut_behind_header (by decide) h.fed.dimension (happ_sq.andThen happ)
    (¬ ∃ e, sq.ofBytes 0 = .error e) hcut
    (fun hquiet dim' => by
      obtain ⟨sq', hsq'⟩ := ScalarQuantizer.atEnd_header hquiet
      exact ⟨_, hsq'.bind (hatEnd sq' _)⟩)
    fun hloud dim' => (ScalarQuantizer.failsAtEnd_header (not_not.mp hloud)).bind
  exact hall.congr fun w m hm _ => Notices.seq_congr
    (fun _ _ _ => by rw [not_not]) (fun _ _ _ => Iff.rfl) hm

theorem cut_inverted {x : InvertedIndex F} (h : x.Storable) {w : Bytes}
    (hw : (x.writePayload w).length < 2 ^ 63) (fuel : ℕ) :
    Cut Fault.Thrown ((SeismicIndex.writeHeader IndexKind.inverted.name kFormatVersion
        x.dimension).andThen x.writePayload)
      (readIndexWithin .buffered (readPayload .buffered : _ → Reader Fault (StoredIndex F) → _)
        (fuel + 1)) (inverted x).notices fun _ _ => True := by
  have happ : Appends x.writePayload := (h.copied hw).appends
  have hcut : Cut Fault.Thrown x.writePayload
      (readPayload .buffered ⟨fourcc IndexKind.inverted.name, kFormatVersion, x.dimension⟩
        (readIndexWithin .buffered (readPayload .buffered) fuel) .inverted
          : Reader Fault (StoredIndex F)) x.payloadNotices fun _ _ => True :=
    (h.cut hw).map _ fun _ _ _ => trivial
  have hloud : ∀ dim, FailsAtEnd Fault.Thrown
      (InvertedIndex.readPayload .buffered dim : Reader Fault (InvertedIndex F)) := fun dim => by
    rw [InvertedIndex.readPayload_eq]
    exact atEnd_count.fails (atEnd_count.fails (atEnd_count.fails
      (InvertedIndex.failsAtEnd_lists dim 0 0 (by decide))))
  have hall := cut_behind_header (by decide) h.dimension happ False hcut
    (fun hfalse => hfalse.elim) fun _ dim' => (hloud dim'.toNat).map _
  exact hall.congr fun w m hm _ => Notices.seq_congr
    (fun _ _ _ => iff_of_true (.inr id) trivial) (fun _ _ _ => Iff.rfl) hm

/-- Under an id map every cut in front of the delegate is noticed, since no index is read then. -/
theorem cut_idMap {internal : List ℤ} (external : ℤ → Option ℤ)
    (hfits : ∀ id ∈ internal, idxCodec.Fits id) (hsize : internal.length * 4 < 2 ^ 63)
    {delegate : StoredIndex F} {s : Writer} (hs : Appends s) {fuel : ℕ}
    (h : Cut Fault.Thrown s
      (readIndexWithin .buffered (readPayload .buffered : _ → Reader Fault (StoredIndex F) → _)
        fuel) delegate.notices fun _ _ => True) :
    Cut Fault.Thrown ((SeismicIndex.writeHeader IndexKind.idMap.name kFormatVersion 0).andThen
        ((writeIdMap internal).andThen s))
      (readIndexWithin .buffered (readPayload .buffered : _ → Reader Fault (StoredIndex F) → _)
        (fuel + 1)) (idMap internal external delegate).notices fun _ _ => True := by
  have hids := copied_idMap hfits hsize
  have hcut : Cut Fault.Thrown ((writeIdMap internal).andThen s)
      (readPayload .buffered ⟨fourcc IndexKind.idMap.name, kFormatVersion, (0 : ℕ)⟩
        (readIndexWithin .buffered (readPayload .buffered) fuel) .idMap
          : Reader Fault (StoredIndex F)) (.seq (writeIdMap internal) .always delegate.notices)
      fun _ _ => True :=
    (Nsparse.cut_idMap hsize).bindFails hids hs (h.map _ fun _ _ _ => trivial)
      fun _ _ _ => (failsAtEnd_readIndexWithin fuel).map _
  have hall := cut_behind_header (by decide) (by decide : 0 < 2 ^ 31) (hids.appends.andThen hs)
    False hcut (fun hfalse => hfalse.elim)
    fun _ dim' => atEnd_idMap.fails ((failsAtEnd_readIndexWithin fuel).map _)
  exact hall.congr fun w m hm _ => Notices.seq_congr
    (fun _ _ _ => iff_of_true (.inr id) trivial) (fun _ _ _ => Iff.rfl) hm

/-- **Every index that can be written**: its file is noticed to be cut as `notices` says, by a reader
that goes deep enough. -/
theorem Writable.cut {x : StoredIndex F} (h : x.Writable) {w bytes : Bytes}
    (hw : x.write w = .ok bytes) (hsize : bytes.length < 2 ^ 63) :
    ∃ s : Writer, (∀ w, x.write w = .ok (s w)) ∧ Appends s ∧ ∀ fuel, x.depth < fuel →
      Cut Fault.Thrown s
        (readIndexWithin .buffered (readPayload .buffered : _ → Reader Fault (StoredIndex F) → _)
          fuel) x.notices fun _ _ => True := by
  have hheader : ∀ kind dim, dim < 2 ^ 31 →
      Appends (SeismicIndex.writeHeader (IndexKind.name kind) kFormatVersion dim) :=
    fun kind dim hdim => (copied_header kind hdim).appends
  have hsections : ∀ y : SeismicIndex F, Appends y.writeSections := fun y =>
    (SparseVectors.serialize_appends _).andThen (SeismicIndex.serializeLists_appends _)
  -- by recursion over the id maps, as for the round trip
  induction x generalizing w with
  | seismic x =>
      cases hw
      have hx : x.Storable U32 := h
      refine ⟨_, fun _ => rfl, (hheader .seismic _ hx.fed.dimension).andThen (hsections x), ?_⟩
      intro fuel hfuel
      obtain ⟨fuel, rfl⟩ := Nat.exists_eq_succ_of_ne_zero (Nat.ne_of_gt hfuel)
      exact cut_seismic hx hsize fuel
  | seismicSQ sq x =>
      cases hw
      have hx : x.Storable sq.bytesPerValue := h
      refine ⟨_, fun _ => rfl, (hheader .seismicSQ _ hx.fed.dimension).andThen
        ((quantizedFormat sq "").writePayloadHeader_appends.andThen (hsections x)), ?_⟩
      intro fuel hfuel
      obtain ⟨fuel, rfl⟩ := Nat.exists_eq_succ_of_ne_zero (Nat.ne_of_gt hfuel)
      exact cut_seismicSQ hx hsize fuel
  | inverted x =>
      cases hw
      obtain ⟨hdim, hcount, hlisted⟩ := h
      -- vectors that were not built are not written
      have hx : { x with vectors := none }.Storable :=
        ⟨hdim, rfl, hcount, ⟨hlisted.shape, hlisted.postings, hlisted.maxima⟩⟩
      refine ⟨_, fun _ => rfl, (hheader .inverted _ hdim).andThen
        (InvertedIndex.Storable.copied hx hsize).appends, ?_⟩
      intro fuel hfuel
      obtain ⟨fuel, rfl⟩ := Nat.exists_eq_succ_of_ne_zero (Nat.ne_of_gt hfuel)
      exact cut_inverted hx hsize fuel
  | idMap internal external delegate ih =>
      have hwritten : delegate.write (writeIdMap internal
          (SeismicIndex.writeHeader IndexKind.idMap.name kFormatVersion 0 w)) = .ok bytes := hw
      obtain ⟨s, hs, happ, hcut⟩ := ih h.2 hwritten
      have hids : internal.length * 4 < 2 ^ 63 := by
        rw [hs] at hwritten
        cases hwritten
        have hlen := (happ (writeIdMap internal
          (SeismicIndex.writeHeader IndexKind.idMap.name kFormatVersion 0 w))).length_le
        rw [length_writeIdMap] at hlen
        omega
      refine ⟨_, fun w => hs _, ((hheader .idMap 0 (by decide)).andThen
        (copied_idMap h.1 hids).appends).andThen happ, ?_⟩
      intro fuel hfuel
      obtain ⟨fuel, rfl⟩ := Nat.exists_eq_succ_of_ne_zero
        (Nat.ne_of_gt ((Nat.zero_le _).trans_lt hfuel))
      exact cut_idMap external h.1 hids happ (hcut fuel (Nat.lt_of_succ_lt_succ hfuel))
  | diskSeismic x => exact h.elim
  | diskSeismicSQ sq x => exact h.elim

/-! ### Fuel -/

/-- Reading makes what is left no more. -/
theorem remaining_of_readScalar {α : Type} {c : Codec α} {init a : α} {cursor cursor' : Cursor}
    (h : IOReader.buffered.readScalar c init cursor = .ok (a, cursor')) :
    cursor'.remaining = cursor.remaining - min c.width cursor.remaining := by
  have hread : IOReader.buffered.readScalar c init cursor = .ok (_,
    { cursor with pos := cursor.pos + min c.width cursor.remaining }) := rfl
  rw [hread] at h
  cases h
  show cursor.data.length - (cursor.pos + min c.width cursor.remaining) = _
  rw [← Nat.sub_sub]
  rfl

/-- A header that names a type takes some bytes. -/
theorem remaining_of_readHeader {header : IndexHeader} {cursor cursor' : Cursor} {kind : IndexKind}
    (h : readHeader .buffered cursor = .ok (header, cursor')) (hcheck : checkHeader header = .ok kind) :
    cursor'.remaining < cursor.remaining := by
  obtain ⟨id, c₁, hid, h⟩ := Reader.bind_eq_ok h
  obtain ⟨version, c₂, hversion, h⟩ := Reader.bind_eq_ok h
  rw [Reader.map] at h
  rcases hdim : IOReader.buffered.readScalar headerDimensionCodec 0 c₂ with e | ⟨dimension, c₃⟩
  · rw [hdim] at h
    cases h
  rw [hdim] at h
  cases h
  have hleft := remaining_of_readScalar hid
  have hleft' := remaining_of_readScalar hversion
  have hleft'' := remaining_of_readScalar hdim
  have hwidth : headerIdCodec.width = 4 := rfl
  -- nothing left would have been the id 0
  have hpos : cursor.remaining ≠ 0 := fun h0 => by
    have hnil : (cursor.data.drop cursor.pos).take 4 = [] := by
      rw [List.drop_of_length_le (Nat.sub_eq_zero_iff_le.mp h0), List.take_nil]
    have hread : IOReader.buffered.readScalar headerIdCodec 0 cursor
        = .ok (headerIdCodec.dec ((cursor.data.drop cursor.pos).take 4
            ++ (headerIdCodec.enc 0).drop ((cursor.data.drop cursor.pos).take 4).length), _) := rfl
    rw [hread, hnil] at hid
    cases hid
    obtain ⟨e, he⟩ := checkHeader_of_lt (by decide : 0 < 2 ^ 24) version dimension
    have hzero : headerIdCodec.dec ([] ++ (headerIdCodec.enc 0).drop ([] : Bytes).length) = 0 := by
      decide
    rw [hzero, he] at hcheck
    cases hcheck
  omega

theorem remaining_of_readIdMap {ids : List ℤ} {cursor cursor' : Cursor}
    (h : readIdMap .buffered cursor = .ok (ids, cursor')) : cursor'.remaining ≤ cursor.remaining := by
  obtain ⟨n, c₁, hcount, h⟩ := Reader.bind_eq_ok h
  have hleft := remaining_of_readScalar hcount
  by_cases hbig : 2 ^ 63 ≤ n * idxCodec.width
  · rw [if_pos hbig] at h
    cases h
  · rw [if_neg hbig] at h
    cases h
    show c₁.data.length - (c₁.pos + _) ≤ _
    have hle : c₁.data.length - c₁.pos = c₁.remaining := rfl
    omega

/-- **The fuel of the reader is enough**: more of it reads the same. -/
theorem readIndexWithin_more (fuel more : ℕ) {cursor : Cursor} (h : cursor.remaining < fuel) :
    readIndexWithin .buffered (readPayload .buffered : _ → Reader Fault (StoredIndex F) → _)
        (fuel + more) cursor
      = readIndexWithin .buffered (readPayload .buffered) fuel cursor := by
  induction fuel generalizing cursor with
  | zero => exact absurd h (Nat.not_lt_zero _)
  | succ fuel ih =>
      rw [Nat.succ_add]
      show (readHeader .buffered).bind _ cursor = (readHeader .buffered).bind _ cursor
      rcases hheader : readHeader .buffered cursor with e | ⟨header, c₁⟩
      · rw [Reader.bind_of_error hheader, Reader.bind_of_error hheader]
      rw [Reader.bind_of_ok hheader, Reader.bind_of_ok hheader]
      rcases hkind : checkHeader header with e | kind
      · rfl
      have hcheck : IOReader.check (.ok kind) c₁ = .ok (kind, c₁) := rfl
      rw [Reader.bind_of_ok hcheck, Reader.bind_of_ok hcheck]
      cases kind with
      | idMap =>
          -- the nested index begins behind the header
          show (readIdMap .buffered).bind _ c₁ = (readIdMap .buffered).bind _ c₁
          rcases hids : readIdMap .buffered c₁ with e | ⟨ids, c₂⟩
          · rw [Reader.bind_of_error hids, Reader.bind_of_error hids]
          rw [Reader.bind_of_ok hids, Reader.bind_of_ok hids, Reader.map, Reader.map, ih]
          have hlt := remaining_of_readHeader hheader hkind
          have hle := remaining_of_readIdMap hids
          omega
      | brutal => rfl
      | seismic => rfl
      | seismicSQ => rfl
      | diskSeismic => rfl
      | diskSeismicSQ => rfl
      | inverted => rfl

/-- **A cut file** is noticed exactly where `notices` says, and read as an index elsewhere. -/
theorem truncation_noticed_iff {x : StoredIndex F} (h : x.Writable) {bytes : Bytes}
    (hw : x.write [] = .ok bytes) (hsize : bytes.length < 2 ^ 63) {data : Bytes}
    (hpart : data <+: bytes) (hshort : data.length < bytes.length) :
    ((∃ e, (readIndex .buffered ⟨data, 0⟩ : Except Fault (StoredIndex F × Cursor))
        = .error (.thrown e)) ↔ x.notices [] data.length) ∧
      (¬ x.notices [] data.length → ∃ y : StoredIndex F,
        readIndex .buffered ⟨data, 0⟩ = .ok (y, ⟨data, data.length⟩)) := by
  obtain ⟨s, hs, -, hcut⟩ := h.cut hw hsize
  rw [hs] at hw
  cases hw
  have hiscut : IsCut s [] data := ⟨hpart, Nat.zero_le _, hshort⟩
  -- the reader goes deep enough
  have hread : (readIndex .buffered ⟨data, 0⟩ : Except Fault (StoredIndex F × Cursor))
      = readIndexWithin .buffered (readPayload .buffered) (data.length - 0 + 1 + x.depth)
        ⟨data, 0⟩ := (readIndexWithin_more _ x.depth (Nat.lt_succ_self _)).symm
  have hall := hcut (data.length - 0 + 1 + x.depth) (by omega)
  rw [hread]
  refine ⟨⟨fun ⟨e, he⟩ => ?_, fun hnotice => ?_⟩, fun hquiet => ?_⟩
  · by_contra hquiet
    obtain ⟨y, -, hy⟩ := hall.unnoticed [] data hiscut hquiet
    rw [List.length_nil, he] at hy
    cases hy
  · obtain ⟨_, ⟨e, rfl⟩, he⟩ := hall.noticed [] data hiscut hnotice
    exact ⟨e, he⟩
  · obtain ⟨y, -, hy⟩ := hall.unnoticed [] data hiscut hquiet
    exact ⟨y, hy⟩

/-- A seismic index built over one document. -/
def builtOneDocument : StoredIndex ℤ :=
  .seismic (SeismicIndex.oneDocumentIndex.build SeismicIndex.calmEnv countingRng insertionSort 0).1

theorem builtOneDocument_built : builtOneDocument.Built := by
  have hfed : SeismicIndex.oneDocumentIndex.Fed U32 := by
    refine ⟨by decide, fun v hv => ?_⟩
    cases hv
    exact ⟨SeismicIndex.stored_oneDocument.wellFormed, by decide, rfl, rfl, by decide, by decide⟩
  have hrange : SeismicIndex.oneDocumentIndex.InRange := by
    intro v hv _ _
    cases hv
    exact SeismicIndex.stored_oneDocument
  have hok : (SeismicIndex.oneDocumentIndex.build SeismicIndex.calmEnv countingRng insertionSort
      0).2 = .ok () := by decide +kernel
  have hbuild : SeismicIndex.oneDocumentIndex.build SeismicIndex.calmEnv countingRng insertionSort 0
      = ((SeismicIndex.oneDocumentIndex.build SeismicIndex.calmEnv countingRng insertionSort 0).1,
        .ok ()) := Prod.ext rfl hok
  exact .seismic hfed hrange hbuild

/-- The first byte of its vectors, of one document, is enough to see that they are cut. -/
theorem truncation_noticed_iff_one_document :
    ∃ bytes, builtOneDocument.write [] = .ok bytes ∧
      (((∃ e, (readIndex .buffered ⟨bytes.take 13, 0⟩ : Except Fault (StoredIndex ℤ × Cursor))
          = .error (.thrown e)) ↔ builtOneDocument.notices [] 13) ∧
        (¬ builtOneDocument.notices [] 13 → ∃ y : StoredIndex ℤ,
          readIndex .buffered ⟨bytes.take 13, 0⟩ = .ok (y, ⟨bytes.take 13, 13⟩))) := by
  obtain ⟨bytes, hw⟩ := builtOneDocument_built.storable.write_eq []
  have hlen : bytes.length = 200 := by
    have hlen : (builtOneDocument.write []).toOption.map List.length = some 200 := by decide +kernel
    rw [hw] at hlen
    exact Option.some_inj.mp hlen
  have htake : (bytes.take 13).length = 13 := by
    rw [List.length_take, hlen]
    rfl
  have hcut := truncation_noticed_iff builtOneDocument_built.storable.writable hw
    (by rw [hlen]; decide) (List.take_prefix 13 bytes) (by rw [htake, hlen]; decide)
  rw [htake] at hcut
  exact ⟨bytes, hw, hcut⟩

/-- **The header alone** is read as an index. -/
theorem header_alone_is_read :
    builtOneDocument.Built ∧ ∃ bytes, builtOneDocument.write [] = .ok bytes ∧
      bytes.take 12 <+: bytes ∧ (bytes.take 12).length < bytes.length ∧
      ∃ (y : StoredIndex ℤ) (cursor : Cursor),
        readIndex .buffered ⟨bytes.take 12, 0⟩ = .ok (y, cursor) := by
  obtain ⟨bytes, hw⟩ := builtOneDocument_built.storable.write_eq []
  refine ⟨builtOneDocument_built, bytes, hw, List.take_prefix 12 bytes, ?_, ?_⟩
  · have hlen : (builtOneDocument.write []).toOption.map
        (fun bytes => decide ((bytes.take 12).length < bytes.length)) = some true := by
      decide +kernel
    rw [hw] at hlen
    exact of_decide_eq_true (Option.some_inj.mp hlen)
  · have hread : (builtOneDocument.write []).toOption.map (fun bytes =>
        (readIndex .buffered ⟨bytes.take 12, 0⟩
          : Except Fault (StoredIndex ℤ × Cursor)).toOption.isSome) = some true := by
      decide +kernel
    rw [hw] at hread
    cases hy : (readIndex .buffered ⟨bytes.take 12, 0⟩ : Except Fault (StoredIndex ℤ × Cursor)) with
    | error e =>
        have hsome : (readIndex .buffered ⟨bytes.take 12, 0⟩
            : Except Fault (StoredIndex ℤ × Cursor)).toOption.isSome = true :=
          Option.some_inj.mp hread
        rw [hy] at hsome
        cases hsome
    | ok p => exact ⟨p.1, p.2, rfl⟩

end StoredIndex

end Nsparse
