/-
Nsparse/WholeFile.lean

A whole index file, id maps included.

An index that was built can be stored (`Built.storable`), and what is stored comes
back to both readers at once, alone or under any number of id maps
(`Storable.roundTrips`).  The reader makes the map from external ids out of the other
one.  An id map that grew by `add_with_ids` alone already has that map
(`addWithIds_inverts`); after a plain `add` it has not.
-/
import Nsparse.InvertedFile

namespace Nsparse

open Wire

variable {F : Type}

/-! ### Id maps -/

theorem length_writeIdMap (ids : List ℤ) (w : Bytes) :
    (writeIdMap ids w).length = w.length + 8 + ids.length * 4 := by
  show (emit (idxCodec.encAll ids) (emit (sizeCodec.enc ids.length) w)).length = _
  rw [length_emit, length_emit, idxCodec.length_encAll, sizeCodec.length_enc]
  rfl

/-- The id map comes back. -/
theorem copied_idMap {ids : List ℤ} (hfits : ∀ id ∈ ids, idxCodec.Fits id)
    (hsize : ids.length * 4 < 2 ^ 63) :
    RoundTrips (writeIdMap ids) (readIdMap .buffered) ids := by
  have hcount : sizeCodec.Fits ids.length := InvertedListClusters.fits_size (by omega)
  have hsize' : ¬ 2 ^ 63 ≤ ids.length * idxCodec.width := not_le.mpr hsize
  refine (copied_scalar sizeCodec hcount _).bind ⟨emit_appends _, fun w rest => ?_⟩
  have hread : IOReader.buffered.read (idxCodec.encAll ids).length
      ⟨emit (idxCodec.encAll ids) w ++ rest, w.length⟩
      = .ok (idxCodec.encAll ids, ⟨_, w.length + (idxCodec.encAll ids).length⟩) :=
    buffered_read_at (List.append_assoc w (idxCodec.encAll ids) rest) rfl
  rw [idxCodec.length_encAll] at hread
  have hdec := idxCodec.decAll_encAll hfits []
  rw [List.append_nil] at hdec
  rw [if_neg hsize', Reader.map, hread]
  dsimp only
  rw [idxCodec.length_encAll, Nat.sub_self, List.replicate_zero, List.append_nil, hdec, length_emit,
    idxCodec.length_encAll]

/-- The loop of `add_with_ids` maps each id as `set_id_map` does. -/
theorem externalToInternal_mapIds {σ : Type} (m : IDMapIndex σ) (position : ℕ) (ids : List ℤ) :
    (m.mapIds position ids).externalToInternal
      = (ids.zipIdx position).foldl
          (fun (map : ℤ → Option ℤ) (entry : ℤ × ℕ) =>
            Function.update map entry.1 (some (toIdx entry.2)))
          m.externalToInternal := by
  induction ids generalizing m position with
  | nil => rfl
  | cons id ids ih => exact ih (m.mapId position id) (position + 1)

/-- **An id map that grows by `add_with_ids`** keeps the inverse of the other map, while that one
is as long as the delegate. -/
theorem addWithIds_inverts {σ P : Type} {I : Index σ F P} {m : IDMapIndex σ} {a : IdArgs F}
    (hm : m.externalToInternal = invertIdMap m.internalToExternal)
    (hlen : m.internalToExternal.length = I.numVectors m.delegate) :
    (m.addWithIds I a).1.externalToInternal = invertIdMap (m.addWithIds I a).1.internalToExternal := by
  rcases h : I.add m.delegate a.toCsrArgs with ⟨delegate, e | ⟨⟩⟩
  · rw [IDMapIndex.addWithIds_of_error h]
    exact hm
  · obtain ⟨-, -, hinternal⟩ := IDMapIndex.addWithIds_of_ok h hlen
    rw [hinternal]
    simp only [IDMapIndex.addWithIds, h]
    rw [externalToInternal_mapIds]
    dsimp only
    rw [hm, ← hlen, invertIdMap, invertIdMap, List.zipIdx_append, List.foldl_append, Nat.zero_add]

/-! ### Indexes of every type -/

namespace StoredIndex

section Layout

variable [LT F] [FloatFormat F]

/-- What a file can hold of an index that the copying reader takes. -/
def Storable : StoredIndex F → Prop
  | seismic x => x.Storable U32
  | seismicSQ sq x => x.Storable sq.bytesPerValue
  | inverted x => x.Storable
  | idMap internalToExternal _ delegate =>
      (∀ id ∈ internalToExternal, idxCodec.Fits id) ∧ delegate.Storable
  | _ => False

/-- The id maps around an index. -/
def depth : StoredIndex F → ℕ
  | idMap _ _ delegate => delegate.depth + 1
  | _ => 0

/-- At every level the map from external ids is the one `set_id_map` makes of the other. -/
def IdsInvert : StoredIndex F → Prop
  | idMap internalToExternal externalToInternal delegate =>
      externalToInternal = invertIdMap internalToExternal ∧ delegate.IdsInvert
  | _ => True

/-- What a file gives back of an index. -/
def reloaded : StoredIndex F → StoredIndex F
  | seismic x => .seismic (.ofFile x.dimension (x.vectors.getD .default) x.clusteredInvertedLists)
  | seismicSQ sq x =>
      .seismicSQ sq (.ofFile x.dimension (x.vectors.getD .default) x.clusteredInvertedLists)
  | idMap internalToExternal _ delegate =>
      .idMap internalToExternal (invertIdMap internalToExternal) delegate.reloaded
  | x => x

end Layout

/-- A float that its bytes give back. -/
theorem fits_float [FloatFormat F] {v : F} (h : FloatFormat.ofBits (FloatFormat.toBits v) = v) :
    (floatCodec F).Fits v := h

variable [LinearOrder F] [FloatFormat F]

/-- **What comes back is the index** exactly when its id maps invert each other. -/
theorem Storable.same_reloaded_iff {x : StoredIndex F} (h : x.Storable) :
    x.reloaded.Same x ↔ x.IdsInvert := by
  induction x with
  | seismic x => exact iff_of_true ⟨rfl, SeismicIndex.Storable.ofFile_eq h, rfl⟩ trivial
  | seismicSQ sq x => exact iff_of_true ⟨rfl, rfl, SeismicIndex.Storable.ofFile_eq h, rfl⟩ trivial
  | inverted x => exact iff_of_true rfl trivial
  | idMap internal external delegate ih =>
      constructor
      · rintro ⟨-, hexternal, hsame⟩
        exact ⟨hexternal.symm, (ih h.2).mp hsame⟩
      · rintro ⟨hexternal, hinvert⟩
        exact ⟨rfl, hexternal.symm, (ih h.2).mpr hinvert⟩
  | diskSeismic x => exact h.elim
  | diskSeismicSQ sq x => exact h.elim

/-! ### Quantizers -/

theorem make_eq (sq : ScalarQuantizer F) :
    ScalarQuantizer.make sq.qtype sq.vmin sq.vmax = .ok sq := by
  obtain ⟨qtype, vmin, vmax, finite, range, stored⟩ := sq
  rw [ScalarQuantizer.make, dif_pos finite, dif_pos range, dif_pos stored]

theorem quantizerFromFile_eq (sq : ScalarQuantizer F) :
    quantizerFromFile sq.qtype.toByte sq.vmin sq.vmax = .ok sq := by
  have hmake := make_eq sq
  rw [quantizerFromFile]
  rcases h : sq.qtype with - | -
  · rw [h] at hmake
    exact hmake
  · rw [h] at hmake
    exact hmake

theorem mapped_quantizer (sq : ScalarQuantizer F) :
    RoundTrips sq.writeHeader mapQuantizationHeader sq := by
  refine (roundTrips_scalar .byte (Codec.fits_byte _)).bind ?_
  refine (roundTrips_scalar (floatCodec F) (fits_float sq.stored.1)).bind ?_
  have hcheck : Reader.lift (quantizerFromFile sq.qtype.toByte sq.vmin sq.vmax)
      = fun cursor => .ok (sq, cursor) := by
    funext cursor
    exact Reader.lift_eq_ok_iff.mpr ⟨quantizerFromFile_eq sq, rfl⟩
  refine (roundTrips_scalar (floatCodec F) (fits_float sq.stored.2)).bind (t := id) ?_
  rw [hcheck]
  exact ⟨Appends.id, fun _ _ => rfl⟩

variable [Ring F]

theorem copied_quantizer (sq : ScalarQuantizer F) :
    RoundTrips sq.writeHeader (readQuantizationHeader .buffered) sq := by
  refine (copied_scalar .byte (Codec.fits_byte _) _).bind ?_
  refine (copied_scalar (floatCodec F) (fits_float sq.stored.1) _).bind ?_
  have hcheck : IOReader.check (quantizerFromFile sq.qtype.toByte sq.vmin sq.vmax)
      = fun cursor => .ok (sq, cursor) := by
    funext cursor
    unfold IOReader.check
    rw [quantizerFromFile_eq]
  refine (copied_scalar (floatCodec F) (fits_float sq.stored.2) _).bind (t := id) ?_
  rw [hcheck]
  exact ⟨Appends.id, fun _ _ => rfl⟩

/-! ### Whole files -/

/-- A reader of payloads, the copying one or the one of a mapping that begins on a page. -/
inductive PayloadReader : (IndexHeader → Reader Fault (StoredIndex F) → IndexKind →
    Reader Fault (StoredIndex F)) → Prop
  | copying : PayloadReader (readPayload .buffered)
  | mapping (page : ℕ) : PayloadReader (mapPayload (4096 * page))

variable {payload : IndexHeader → Reader Fault (StoredIndex F) → IndexKind →
  Reader Fault (StoredIndex F)}

theorem PayloadReader.seismic (hpayload : PayloadReader payload) {x : SeismicIndex F}
    (h : x.Storable U32) (nested : Reader Fault (StoredIndex F)) {w : Bytes}
    (hw : (x.writeSections w).length < 2 ^ 63) :
    RoundTrips x.writeSections
      (payload ⟨fourcc IndexKind.seismic.name, kFormatVersion, x.dimension⟩ nested .seismic)
      (StoredIndex.seismic x).reloaded := by
  cases hpayload with
  | copying => exact (h.copied seismicWidthMsg hw).map _
  | mapping page => exact (RoundTrips.liftMapped (h.mapped seismicWidthMsg page hw)).map _

theorem PayloadReader.seismicSQ (hpayload : PayloadReader payload) {sq : ScalarQuantizer F}
    {x : SeismicIndex F} (h : x.Storable sq.bytesPerValue) (nested : Reader Fault (StoredIndex F))
    {w : Bytes} (hw : (x.writeSections w).length < 2 ^ 63) :
    RoundTrips (sq.writeHeader.andThen x.writeSections)
      (payload ⟨fourcc IndexKind.seismicSQ.name, kFormatVersion, x.dimension⟩ nested .seismicSQ)
      (StoredIndex.seismicSQ sq x).reloaded := by
  cases hpayload with
  | copying => exact (copied_quantizer sq).bind ((h.copied quantizedWidthMsg hw).map _)
  | mapping page =>
      exact (RoundTrips.liftMapped (mapped_quantizer sq)).bind
        ((RoundTrips.liftMapped (h.mapped quantizedWidthMsg page hw)).map _)

theorem PayloadReader.inverted (hpayload : PayloadReader payload) {x : InvertedIndex F}
    (h : x.Storable) (nested : Reader Fault (StoredIndex F)) {w : Bytes}
    (hw : (x.writePayload w).length < 2 ^ 63) :
    RoundTrips x.writePayload
      (payload ⟨fourcc IndexKind.inverted.name, kFormatVersion, x.dimension⟩ nested .inverted)
      (StoredIndex.inverted x).reloaded := by
  cases hpayload with
  | copying => exact (h.copied hw).map _
  | mapping page => exact (RoundTrips.liftMapped (h.mapped page hw)).map _

/-- Both readers copy an id map. -/
theorem PayloadReader.idMap (hpayload : PayloadReader payload) {internal : List ℤ}
    (external : ℤ → Option ℤ) (hfits : ∀ id ∈ internal, idxCodec.Fits id)
    (hsize : internal.length * 4 < 2 ^ 63) {s : Writer} {nested : Reader Fault (StoredIndex F)}
    {delegate : StoredIndex F} (h : RoundTrips s nested delegate.reloaded) :
    RoundTrips ((writeIdMap internal).andThen s)
      (payload ⟨fourcc IndexKind.idMap.name, kFormatVersion, (0 : ℕ)⟩ nested .idMap)
      (StoredIndex.idMap internal external delegate).reloaded := by
  cases hpayload with
  | copying => exact (copied_idMap hfits hsize).bind (h.map _)
  | mapping page => exact (copied_idMap hfits hsize).bind (h.map _)

/-- **An index that can be stored comes back** from the bytes it was written to, to every reader
that goes deep enough. -/
theorem Storable.roundTrips {x : StoredIndex F} (h : x.Storable) {w bytes : Bytes}
    (hw : x.write w = .ok bytes) (hsize : bytes.length < 2 ^ 63) :
    ∃ s : Writer, (∀ w, x.write w = .ok (s w)) ∧ (∀ w, w.length + x.depth ≤ (s w).length) ∧
      ∀ payload, PayloadReader payload → ∀ fuel, x.depth < fuel →
        RoundTrips s (readIndexWithin .buffered payload fuel) x.reloaded := by
  -- a file of one index is not shorter than what was written before
  have hflat : ∀ {s : Writer} {y : StoredIndex F}, (∀ payload, PayloadReader payload →
      ∀ fuel, RoundTrips s (readIndexWithin .buffered payload (fuel + 1)) y) →
      (∀ w, w.length + 0 ≤ (s w).length) ∧ ∀ payload, PayloadReader payload → ∀ fuel, 0 < fuel →
        RoundTrips s (readIndexWithin .buffered payload fuel) y := fun hall =>
    ⟨fun w => ((hall _ .copying 0).appends w).length_le, fun payload hpayload fuel hfuel => by
      obtain ⟨fuel, rfl⟩ := Nat.exists_eq_succ_of_ne_zero hfuel.ne'
      exact hall payload hpayload fuel⟩
  -- by recursion over the id maps; the bytes of the whole bound those of every part
  induction x generalizing w with
  | seismic x =>
      cases hw
      refine ⟨_, fun _ => rfl, hflat fun payload hpayload fuel => ?_⟩
      exact @copied_behind_header _ _ _ .seismic (by decide) _ (SeismicIndex.Storable.fed h).dimension
        _ _ _ _ (hpayload.seismic h _ hsize)
  | seismicSQ sq x =>
      cases hw
      refine ⟨_, fun _ => rfl, hflat fun payload hpayload fuel => ?_⟩
      exact @copied_behind_header _ _ _ .seismicSQ (by decide) _
        (SeismicIndex.Storable.fed h).dimension _ _ _ _ (hpayload.seismicSQ h _ hsize)
  | inverted x =>
      cases hw
      refine ⟨_, fun _ => rfl, hflat fun payload hpayload fuel => ?_⟩
      exact @copied_behind_header _ _ _ .inverted (by decide) _
        (InvertedIndex.Storable.dimension h) _ _ _ _ (hpayload.inverted h _ hsize)
  | idMap internal external delegate ih =>
      obtain ⟨s, hs, hdepth, hread⟩ := ih h.2 hw
      refine ⟨_, fun w => hs _, fun w => ?_, fun payload hpayload fuel hfuel => ?_⟩
      · have hnested := hdepth (writeIdMap internal
          (SeismicIndex.writeHeader IndexKind.idMap.name kFormatVersion 0 w))
        rw [length_writeIdMap, length_writeHeader] at hnested
        show w.length + (delegate.depth + 1) ≤ _
        exact le_trans (by omega) hnested
      · obtain ⟨fuel, rfl⟩ := Nat.exists_eq_succ_of_ne_zero
          (Nat.ne_of_gt ((Nat.zero_le _).trans_lt hfuel))
        have hnested := hread payload hpayload fuel (Nat.lt_of_succ_lt_succ hfuel)
        have hids : internal.length * 4 < 2 ^ 63 := by
          have hwritten : delegate.write (writeIdMap internal
            (SeismicIndex.writeHeader IndexKind.idMap.name kFormatVersion 0 w)) = .ok bytes := hw
          rw [hs] at hwritten
          cases hwritten
          have hlen := (hnested.appends (writeIdMap internal
            (SeismicIndex.writeHeader IndexKind.idMap.name kFormatVersion 0 w))).length_le
          rw [length_writeIdMap] at hlen
          omega
        exact @copied_behind_header _ _ _ .idMap (by decide) _ (by decide)
          _ _ _ _ (hpayload.idMap external h.1 hids hnested)
  | diskSeismic x => exact h.elim
  | diskSeismicSQ sq x => exact h.elim

/-! ### Built indexes -/

/-- The indexes a file is made of: a build that returned, over documents with codes, alone or under
id maps of 32-bit ids. -/
inductive Built : StoredIndex F → Prop
  | seismic {env : SpillEnv} {rng : Rng} {sort : StdSort} {entropy : ℕ} {x x' : SeismicIndex F}
      (fed : x.Fed U32) (range : x.InRange)
      (build : x.build env rng sort entropy = (x', .ok ())) : Built (.seismic x')
  | seismicSQ {env : SpillEnv} {rng : Rng} {sort : StdSort} {entropy : ℕ} {x x' : SeismicIndex F}
      (sq : ScalarQuantizer F) (fed : x.Fed sq.bytesPerValue) (range : x.InRange)
      (build : x.build env rng sort entropy = (x', .ok ())) : Built (.seismicSQ sq x')
  | inverted {x x' : InvertedIndex F} (fed : x.Fed) (build : x.build = (x', .ok ()))
      (count : x'.numVectors < 2 ^ 64) : Built (.inverted x')
  | idMap {internalToExternal : List ℤ} (externalToInternal : ℤ → Option ℤ)
      {delegate : StoredIndex F} (ids : ∀ id ∈ internalToExternal, idxCodec.Fits id)
      (built : Built delegate) : Built (.idMap internalToExternal externalToInternal delegate)

theorem Built.storable {x : StoredIndex F} (h : x.Built) : x.Storable := by
  induction h with
  | seismic fed range build => exact SeismicIndex.build_storable fed range (Or.inl rfl) build
  | seismicSQ sq fed range build =>
      refine SeismicIndex.build_storable fed range ?_ build
      exact (quantizedFormat sq "").width
  | inverted fed build count => exact InvertedIndex.build_storable fed build count
  | idMap external ids built ih => exact ⟨ids, ih⟩

/-- Both readers take a file up to its end, and give back one index, which holds what `x` holds and
answers every search alike. -/
def KeptByFile (x : StoredIndex F) (base : ℕ) (bytes : Bytes) : Prop :=
  ∃ y : StoredIndex F,
    readIndex .buffered ⟨bytes, 0⟩ = .ok (y, ⟨bytes, bytes.length⟩) ∧
    mapIndex base ⟨bytes, 0⟩ = .ok (y, ⟨bytes, bytes.length⟩) ∧
    y.Same x ∧
    ∀ (tools : SearchTools F) (a : SearchArgs F) (params : Option (SearchFields F))
      (sel : Option IDSelector), y.search tools a params sel = x.search tools a params sel

/-- Both readers give back `reloaded`. -/
theorem Storable.read_eq {x : StoredIndex F} (h : x.Storable) {bytes : Bytes}
    (hw : x.write [] = .ok bytes) (hsize : bytes.length < 2 ^ 63) (page : ℕ) :
    readIndex .buffered ⟨bytes, 0⟩ = .ok (x.reloaded, ⟨bytes, bytes.length⟩) ∧
      mapIndex (4096 * page) ⟨bytes, 0⟩ = .ok (x.reloaded, ⟨bytes, bytes.length⟩) := by
  obtain ⟨s, hs, hdepth, hread⟩ := h.roundTrips hw hsize
  rw [hs] at hw
  cases hw
  have hfuel : x.depth < (s []).length - 0 + 1 := by
    have hlen := hdepth []
    rw [List.length_nil] at hlen
    omega
  have hall := fun payload hpayload => (hread payload hpayload _ hfuel).reads [] []
  simp only [List.append_nil, List.length_nil] at hall
  exact ⟨hall _ .copying, hall _ (.mapping page)⟩

theorem Storable.write_eq {x : StoredIndex F} (h : x.Storable) (w : Bytes) :
    ∃ bytes, x.write w = .ok bytes := by
  induction x generalizing w with
  | seismic x => exact ⟨_, rfl⟩
  | seismicSQ sq x => exact ⟨_, rfl⟩
  | inverted x => exact ⟨_, rfl⟩
  | idMap internal external delegate ih => exact ih h.2 _
  | diskSeismic x => exact h.elim
  | diskSeismicSQ sq x => exact h.elim

/-- **A whole file round-trips** exactly when the id maps of the index invert each other. -/
theorem whole_file_round_trip_iff {x : StoredIndex F} (h : x.Built) (page : ℕ) :
    ∃ bytes, x.write [] = .ok bytes ∧
      (bytes.length < 2 ^ 63 → (x.KeptByFile (4096 * page) bytes ↔ x.IdsInvert)) := by
  obtain ⟨bytes, hw⟩ := h.storable.write_eq []
  refine ⟨bytes, hw, fun hsize => ?_⟩
  obtain ⟨hcopy, hmap⟩ := h.storable.read_eq hw hsize page
  constructor
  · rintro ⟨y, hy, -, hsame, -⟩
    rw [hcopy] at hy
    cases hy
    exact h.storable.same_reloaded_iff.mp hsame
  · intro hinvert
    have hsame := h.storable.same_reloaded_iff.mpr hinvert
    exact ⟨x.reloaded, hcopy, hmap, hsame, hsame.search_eq⟩

/-- One document under the id 70. -/
def oneDocumentStored : StoredIndex ℤ :=
  .idMap [70] (invertIdMap [70]) (.inverted ((InvertedIndex.new 1).run [.add oneDocument]).build.1)

/-- Calls with the one document have floats. -/
theorem fed_documents (calls : List (InvertedIndex.Call ℤ)) (h : ∀ call ∈ calls,
    call = .add oneDocument) : ((InvertedIndex.new 1 : InvertedIndex ℤ).run calls).Fed := by
  refine InvertedIndex.run_fed (InvertedIndex.new_fed (by decide) (by decide)) fun call hcall => ?_
  rw [h call hcall]
  have hfloats : ∀ row ∈ oneDocument.rows, ∀ entry ∈ row, (floatCodec ℤ).Fits entry.2 := by decide
  exact hfloats

theorem oneDocumentStored_built : oneDocumentStored.Built :=
  .idMap _ (by
    intro id hid
    obtain rfl := List.mem_singleton.mp hid
    decide) (.inverted (fed_documents [.add oneDocument] (by simp)) (by decide) (by decide))

theorem whole_file_round_trip_iff_one_document :
    ∃ bytes, oneDocumentStored.write [] = .ok bytes ∧ (bytes.length < 2 ^ 63 →
      (oneDocumentStored.KeptByFile (4096 * 1) bytes ↔ oneDocumentStored.IdsInvert)) :=
  whole_file_round_trip_iff oneDocumentStored_built 1

/-- An id map after a plain `add`, an `add_with_ids` and a `build`. -/
def gappedIds : IDMapIndex (InvertedIndex ℤ) :=
  let I : Index (InvertedIndex ℤ) ℤ Unit :=
    InvertedIndex.asIndex (sortedQueue TopKItem.score) insertionSort 0
  (((((IDMapIndex.new (InvertedIndex.new 1)).add I oneDocument).1.addWithIds I
    ⟨oneDocument, [70], rfl⟩).1).build I).1

/-- That index, to be stored. -/
def gappedStored : StoredIndex ℤ :=
  .idMap gappedIds.internalToExternal gappedIds.externalToInternal (.inverted gappedIds.delegate)

theorem gappedStored_built : gappedStored.Built :=
  .idMap _ (by
    intro id hid
    have hids : ∀ id ∈ gappedIds.internalToExternal, idxCodec.Fits id := by decide
    exact hids id hid) (.inverted (fed_documents [.add oneDocument, .add oneDocument] (by simp)) (by decide)
      (by decide))

/-- **The document without an id** has the id 0 in the file, and is found under it afterwards. -/
theorem file_maps_documents_without_ids :
    gappedStored.Built ∧ ∃ bytes, gappedStored.write [] = .ok bytes ∧ bytes.length < 2 ^ 63 ∧
      ¬ gappedStored.KeptByFile (4096 * 1) bytes := by
  obtain ⟨bytes, hw⟩ := gappedStored_built.storable.write_eq []
  have hsize : bytes.length < 2 ^ 63 := by
    have hlen : (gappedStored.write []).map (fun bytes => decide (bytes.length < 2 ^ 63)) = .ok true := by
      decide +kernel
    rw [hw] at hlen
    exact of_decide_eq_true (Except.ok.inj hlen)
  refine ⟨gappedStored_built, bytes, hw, hsize, ?_⟩
  rintro ⟨y, hy, -, hsame, -⟩
  obtain ⟨hcopy, -⟩ := gappedStored_built.storable.read_eq hw hsize 1
  rw [hcopy] at hy
  cases hy
  obtain ⟨hinvert, -⟩ := gappedStored_built.storable.same_reloaded_iff.mp hsame
  have hzero : gappedIds.externalToInternal 0 = invertIdMap gappedIds.internalToExternal 0 :=
    congrFun hinvert 0
  revert hzero
  decide

end StoredIndex

end Nsparse
