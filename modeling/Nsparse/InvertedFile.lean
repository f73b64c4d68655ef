/-
Nsparse/InvertedFile.lean

The payload of the inverted index, written and read.

The index keeps its posting lists and the maximum of each; a build that returned
releases the vectors, so that the file holds the whole index.  A value is a float,
which its four bytes give back (`Fits`); the model's scores are any ordered ring, so
that this is said of the values that callers pass.
-/
import Nsparse.InvertedCorpus
import Nsparse.FileRoundTrip

namespace Nsparse

open Wire

variable {F : Type} [FloatFormat F]

namespace InvertedIndex

/-! ### What a build leaves -/

/-- A posting list that 32-bit ids and floats can be stored for. -/
structure FloatPostings (l : InvertedList F) : Prop where
  paired : l.codes.length = l.docIds.length
  docIds : ∀ d ∈ l.docIds, idxCodec.Fits d
  values : ∀ v ∈ l.codes, (floatCodec F).Fits v

/-- The lists, one maximum for each, all of them numbers that can be stored. -/
structure Listed (x : InvertedIndex F) : Prop where
  shape : x.invertedLists = none ∧ x.maxTermScores = [] ∨
    ∃ lists, x.invertedLists = some lists ∧ lists ≠ [] ∧ lists.length < 2 ^ 31 ∧
      x.maxTermScores.length = lists.length
  postings : ∀ l ∈ x.invertedLists.getD [], FloatPostings l
  maxima : ∀ v ∈ x.maxTermScores, (floatCodec F).Fits v

/-- What a file can hold of an inverted index. -/
structure Storable (x : InvertedIndex F) : Prop where
  dimension : x.dimension < 2 ^ 31
  released : x.vectors = none
  count : x.numVectors < 2 ^ 64
  listed : x.Listed

/-- The postings of documents with floats. -/
theorem floatPostings_postingList {docs : List (SparseRow F)}
    (h : ∀ row ∈ docs, ∀ entry ∈ row, (floatCodec F).Fits entry.2) (term : ℕ) :
    FloatPostings (postingList docs term) where
  paired := by simp [postingList, InvertedList.ofPostings]
  docIds d hd := by
    obtain ⟨p, hp, rfl⟩ := List.mem_map.mp hd
    obtain ⟨q, -, rfl⟩ := List.mem_map.mp hp
    exact fits_toIdx _
  values v hv := by
    obtain ⟨p, hp, rfl⟩ := List.mem_map.mp hv
    obtain ⟨q, hq, rfl⟩ := List.mem_map.mp hp
    obtain ⟨row, hrow, hmem⟩ := mem_postingsOf_iff.mp hq
    exact h row (List.mem_of_getElem? hrow) (term, q.2) hmem

section History

variable [Ring F]

/-- What every history leaves: documents with floats waiting, and lists that can be stored. -/
structure Fed (x : InvertedIndex F) : Prop where
  dimension : x.dimension < 2 ^ 31
  zero : (floatCodec F).Fits 0
  vectors : ∀ v, x.vectors = some v → v.WellFormed ∧ x.dimension ≠ 0 ∧
    ∀ row ∈ v.rows, ∀ entry ∈ row, (floatCodec F).Fits entry.2
  listed : x.Listed

theorem new_fed {dim : ℕ} (hdim : dim < 2 ^ 31) (hzero : (floatCodec F).Fits 0) :
    (new dim : InvertedIndex F).Fed :=
  ⟨hdim, hzero, fun _ h => (by cases h), ⟨Or.inl ⟨rfl, rfl⟩, by simp [new], by simp [new]⟩⟩

variable [LinearOrder F]

/-- A maximum is 0 or one of the values. -/
theorem fits_maxValue {l : InvertedList F} (h : FloatPostings l) (hzero : (floatCodec F).Fits 0) :
    (floatCodec F).Fits l.maxValue := by
  rcases List.mem_cons.mp (foldl_max_mem l.codes 0) with hmax | hmax
  · rw [InvertedList.maxValue, hmax]
    exact hzero
  · exact h.values _ hmax

/-- A call whose values are floats. -/
def Call.Floats : Call F → Prop
  | .add a => ∀ row ∈ a.rows, ∀ entry ∈ row, (floatCodec F).Fits entry.2
  | _ => True

/-- **A build** leaves what a file can hold, and when it returns no vectors are waiting. -/
theorem build_fed {x : InvertedIndex F} (hx : x.Fed) :
    x.build.1.Fed ∧ (x.build.2 = .ok () → x.build.1.vectors = none) := by
  rcases x.build_cases with ⟨hnone, heq⟩ | ⟨v, hv, ⟨e, heq⟩ | ⟨hterms, heq⟩⟩
  · rw [heq]
    exact ⟨hx, fun _ => hnone⟩
  · rw [heq]
    exact ⟨⟨hx.dimension, hx.zero, hx.vectors,
      ⟨hx.listed.shape, hx.listed.postings, hx.listed.maxima⟩⟩, fun h => (by cases h)⟩
  · rw [heq]
    obtain ⟨-, hpos, hfloats⟩ := hx.vectors v hv
    refine ⟨⟨hx.dimension, hx.zero, fun _ h => (by cases h), ?_, ?_, ?_⟩, fun _ => rfl⟩
    · refine Or.inr ⟨_, rfl, ?_, ?_, ?_⟩
      · rw [ne_eq, List.map_eq_nil_iff, List.range_eq_nil]
        exact hpos
      · rw [List.length_map, List.length_range]
        exact hx.dimension
      · rw [List.length_map, List.length_map]
    · intro l hl
      obtain ⟨t, -, rfl⟩ := List.mem_map.mp hl
      exact floatPostings_postingList hfloats t
    · intro m hm
      obtain ⟨t, -, rfl⟩ := List.mem_map.mp hm
      exact fits_maxValue (floatPostings_postingList hfloats t) hx.zero

theorem step_fed {x : InvertedIndex F} (hx : x.Fed) {call : Call F} (hcall : call.Floats) :
    (x.step call).1.Fed := by
  cases call with
  | add a =>
      rcases x.add_cases a fun v hv => (hx.vectors v hv).1 with
        ⟨e, heq, -⟩ | ⟨v, heq, hwf, hne, hdim, hrows⟩
      · show (x.add a).1.Fed
        rw [heq]
        exact hx
      · show (x.add a).1.Fed
        rw [heq]
        refine ⟨hx.dimension, hx.zero, fun v' hv' => ?_, ⟨hx.listed.shape, hx.listed.postings,
          hx.listed.maxima⟩⟩
        obtain rfl : v = v' := Option.some_inj.mp hv'
        refine ⟨hwf, ?_, fun row hrow entry hentry => ?_⟩
        · rcases hv : x.vectors with - | w
          · exact hdim hv
          · exact (hx.vectors w hv).2.1
        · rw [hrows] at hrow
          rcases List.mem_append.mp hrow with hrow | hrow
          · rcases hv : x.vectors with - | w
            · rw [hv] at hrow
              cases hrow
            · rw [hv] at hrow
              exact (hx.vectors w hv).2.2 row hrow entry hentry
          · exact hcall row hrow entry hentry
  | build => exact (build_fed hx).1
  | search a idSelector => exact hx

/-- **Every run** of calls with floats leaves lists that can be stored. -/
theorem run_fed {x : InvertedIndex F} (hx : x.Fed) {calls : List (Call F)}
    (hcalls : ∀ call ∈ calls, call.Floats) : (x.run calls).Fed := by
  induction calls generalizing x with
  | nil => exact hx
  | cons call calls ih =>
      obtain ⟨hcall, hcalls⟩ := List.forall_mem_cons.mp hcalls
      exact ih (step_fed hx hcall) hcalls

/-- **A build that returned leaves what a file can hold.** -/
theorem build_storable {x x' : InvertedIndex F} (hx : x.Fed) (h : x.build = (x', .ok ()))
    (hcount : x'.numVectors < 2 ^ 64) : x'.Storable := by
  obtain ⟨hfed, hreleased⟩ := build_fed hx
  rw [h] at hfed hreleased
  exact ⟨hfed.dimension, hreleased rfl, hcount, hfed.listed⟩

end History

/-! ### The payload -/

variable {x : InvertedIndex F}

theorem FloatPostings.storable {l : InvertedList F} (h : FloatPostings l) :
    l.encoded.Storable kElementSize where
  paired := by
    show (l.codes.map FloatFormat.toBits).length = l.docIds.length
    rw [List.length_map, h.paired]
  docIds := h.docIds
  codes code hcode := by
    obtain ⟨v, -, rfl⟩ := List.mem_map.mp hcode
    exact FloatFormat.length_toBits v

theorem FloatPostings.decoded_encoded {l : InvertedList F} (h : FloatPostings l) :
    l.encoded.decoded = l := by
  have hcodes : (l.codes.map FloatFormat.toBits).map FloatFormat.ofBits = l.codes := by
    rw [List.map_map]
    exact (List.map_congr_left h.values).trans (List.map_id l.codes)
  show (⟨l.docIds, (l.codes.map FloatFormat.toBits).map FloatFormat.ofBits⟩ : InvertedList F) = l
  rw [hcodes]

/-- The lists with the bytes of their values. -/
def encodedLists (x : InvertedIndex F) : List (InvertedList Code) :=
  (x.invertedLists.getD []).map InvertedList.encoded

theorem Storable.lists (h : x.Storable) : ∀ l ∈ x.encodedLists, l.Storable kElementSize := fun l hl => by
  obtain ⟨m, hm, rfl⟩ := List.mem_map.mp hl
  exact (h.listed.postings m hm).storable

theorem Storable.length_maxima (h : x.Storable) : x.maxTermScores.length = x.encodedLists.length := by
  rw [encodedLists, List.length_map]
  rcases h.listed.shape with ⟨hnone, hmax⟩ | ⟨lists, hsome, -, -, hlen⟩
  · rw [hnone, hmax]
    rfl
  · rw [hsome]
    exact hlen

/-- **The index is what its file holds.** -/
theorem Storable.ofFile_eq (h : x.Storable) :
    ofFile x.dimension x.numVectors x.encodedLists x.maxTermScores = x := by
  have hlists : (if 0 < x.encodedLists.length then
      some (x.encodedLists.map InvertedList.decoded) else none) = x.invertedLists := by
    rcases h.listed.shape with ⟨hnone, -⟩ | ⟨lists, hsome, hne, -, -⟩
    · rw [encodedLists, hnone]
      rfl
    · have hdec : (lists.map InvertedList.encoded).map InvertedList.decoded = lists := by
        rw [List.map_map]
        have hall : ∀ l ∈ lists, (InvertedList.decoded ∘ InvertedList.encoded) l = l := fun l hl =>
          (h.listed.postings l (by rwa [hsome])).decoded_encoded
        exact (List.map_congr_left hall).trans (List.map_id lists)
      rw [encodedLists, hsome, Option.getD_some, if_pos, hdec]
      rw [List.length_map]
      exact List.length_pos_iff.mpr hne
  have hreleased := h.released
  unfold ofFile
  rw [hlists]
  obtain ⟨dim, vectors, lists, n, maxima⟩ := x
  obtain rfl : vectors = none := hreleased
  rfl

theorem writePayload_eq (x : InvertedIndex F) : x.writePayload =
    (writeScalar sizeCodec x.numVectors).andThen
      ((ArrayInvertedLists.serialize kElementSize x.encodedLists).andThen
        ((writeScalar sizeCodec x.maxTermScores.length).andThen
          (writePadded (floatCodec F) x.maxTermScores 4))) := rfl

/-- What a file of less than 2^63 bytes holds can be read. -/
theorem Storable.sizes {w : Bytes} (hw : (x.writePayload w).length < 2 ^ 63) :
    (ArrayInvertedLists.serialize kElementSize x.encodedLists
        (writeScalar sizeCodec x.numVectors w)).length < 2 ^ 63 ∧
      x.maxTermScores.length * (floatCodec F).width < 2 ^ 63 := by
  rw [writePayload_eq] at hw
  constructor
  · have hrest := ((writeScalar_appends sizeCodec x.maxTermScores.length).andThen
      (writePadded_appends (floatCodec F) x.maxTermScores 4)
      (ArrayInvertedLists.serialize kElementSize x.encodedLists
        (writeScalar sizeCodec x.numVectors w))).length_le
    exact hrest.trans_lt hw
  · exact lt_of_le_of_lt (Leaves.right (Leaves.right (Leaves.right
      (leaves_bytes (floatCodec F) _ _))) w) hw

theorem fits_maxima_count {w : Bytes} (hw : (x.writePayload w).length < 2 ^ 63) :
    sizeCodec.Fits x.maxTermScores.length := by
  have hbytes := (Storable.sizes hw).2
  rw [show (floatCodec F).width = 4 from rfl] at hbytes
  exact InvertedListClusters.fits_size (by omega)

/-- **The payload by copying.** -/
theorem Storable.copied (h : x.Storable) {w : Bytes} (hw : (x.writePayload w).length < 2 ^ 63) :
    RoundTrips x.writePayload (readPayload .buffered x.dimension) x := by
  obtain ⟨hlists, hscores⟩ := sizes hw
  rw [writePayload_eq]
  refine (copied_scalar sizeCodec (InvertedListClusters.fits_size h.count) _).bind ?_
  refine (ArrayInvertedLists.copied h.lists (by decide) (by decide) hlists).bind ?_
  refine (copied_scalar sizeCodec (fits_maxima_count hw) _).bind ?_
  have hmaxima : RoundTrips (writePadded (floatCodec F) x.maxTermScores 4)
      (IOReader.buffered.readPadded (floatCodec F) x.maxTermScores.length 4) x.maxTermScores :=
    copied_padded (floatCodec F) h.listed.maxima (Nat.succ_pos 3) (by decide) (by decide) hscores
  have hcheck : (IOReader.check (throwIfScoresAreIncomplete x.encodedLists.length
      x.maxTermScores.length)).map (fun _ => (ofFile x.dimension x.numVectors x.encodedLists
        x.maxTermScores : InvertedIndex F)) = fun cursor => .ok (x, cursor) := by
    funext cursor
    rw [h.ofFile_eq]
    unfold Reader.map IOReader.check
    rw [throwIfScoresAreIncomplete, if_neg (not_not.mpr h.length_maxima)]
  have hall := hmaxima.bind (t := id) (k := fun scores =>
    (IOReader.check (throwIfScoresAreIncomplete x.encodedLists.length
      x.maxTermScores.length)).map fun _ => (ofFile x.dimension x.numVectors x.encodedLists scores
        : InvertedIndex F)) (b := x) (by
      rw [hcheck]
      exact ⟨Appends.id, fun _ _ => rfl⟩)
  exact hall

/-- **The payload from a mapping.** -/
theorem Storable.mapped (h : x.Storable) (page : ℕ) {w : Bytes}
    (hw : (x.writePayload w).length < 2 ^ 63) :
    RoundTrips x.writePayload (mapPayload (4096 * page) x.dimension) x := by
  obtain ⟨hlists, hscores⟩ := sizes hw
  rw [writePayload_eq]
  refine (roundTrips_scalar sizeCodec (InvertedListClusters.fits_size h.count)).bind ?_
  refine (ArrayInvertedLists.mapped h.lists (by decide) (by decide)
    (Dvd.dvd.mul_right (by decide) page) hlists).bind ?_
  refine (roundTrips_scalar sizeCodec (fits_maxima_count hw)).bind ?_
  have hmaxima : RoundTrips (writePadded (floatCodec F) x.maxTermScores 4)
      (borrowPadded (floatCodec F) x.maxTermScores.length 4) x.maxTermScores :=
    roundTrips_padded (floatCodec F) h.listed.maxima (Nat.succ_pos 3) (by decide) (dvd_refl 4)
  have hcheck : (Reader.lift (throwIfScoresAreIncomplete x.encodedLists.length
      x.maxTermScores.length)).map (fun _ => (ofFile x.dimension x.numVectors x.encodedLists
        x.maxTermScores : InvertedIndex F)) = fun cursor => .ok (x, cursor) := by
    funext cursor
    rw [h.ofFile_eq, throwIfScoresAreIncomplete, if_neg (not_not.mpr h.length_maxima)]
    rfl
  have hall := hmaxima.bind (t := id) (k := fun scores =>
    (Reader.lift (throwIfScoresAreIncomplete x.encodedLists.length
      x.maxTermScores.length)).map fun _ => (ofFile x.dimension x.numVectors x.encodedLists scores
        : InvertedIndex F)) (b := x) (by
      rw [hcheck]
      exact ⟨Appends.id, fun _ _ => rfl⟩)
  exact hall

end InvertedIndex

end Nsparse
