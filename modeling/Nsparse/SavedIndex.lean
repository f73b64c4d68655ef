/-
Nsparse/SavedIndex.lean

Files of disk indexes that are not loaded.

A load takes a section only when it names no more lists than terms can
(`frame_refuses`), and a directory only when it locates as many documents as the file
counts (`Written.refuses`).
-/
import Nsparse.ExactReload

namespace Nsparse

open Wire

variable {F : Type}

/-! ### Too many lists -/

namespace InlineForwardSource

variable {x : InlineForwardSource}

theorem inlineAlignUp_lt (offset alignment : ℕ) : inlineAlignUp offset alignment < 2 ^ 64 :=
  Nat.mod_lt _ (Nat.two_pow_pos 64)

/-- Where the blocks end is a 64-bit number. -/
theorem writeBlocks_fin_lt {off : ℕ} {blocks : List InlineBlock}
    {written : Bytes × ℕ × List InlineDirEntry} (h : x.writeBlocks off blocks = .ok written)
    (hoff : off < 2 ^ 64) : written.2.1 < 2 ^ 64 := by
  induction blocks generalizing off written with
  | nil =>
      obtain rfl := Except.ok.inj h
      exact hoff
  | cons b blocks ih =>
      rw [writeBlocks] at h
      obtain ⟨counts, -, h⟩ := bind_eq_ok h
      obtain ⟨rest, hrest, h⟩ := bind_eq_ok h
      obtain rfl := Except.ok.inj h
      show rest.2.1 < 2 ^ 64
      refine ih hrest ?_
      split
      · exact inlineAlignUp_lt _ _
      · exact Nat.mod_lt _ (Nat.two_pow_pos 64)

/-- A directory that was loaded names as many lists as there can be terms. -/
theorem nLists_le_of_loadDirectory {mapping : Bytes} {base sectionLen : ℕ}
    {fwd : InlineForwardIndex}
    (h : InlineForwardIndex.loadDirectory mapping base sectionLen = .ok fwd) :
    (trailerCodec.readAt mapping (base + sectionLen - 24)).nLists ≤ 2 ^ 16 := by
  unfold InlineForwardIndex.loadDirectory at h
  dsimp only at h
  split at h; · cases h
  split at h; · cases h
  split at h; · cases h
  split at h; · cases h
  split at h; · cases h
  split at h; · cases h
  split at h; · cases h
  rename_i hlists
  exact not_lt.mp hlists

/-- **A section of more lists is not loaded.** -/
theorem frame_refuses {body : Bytes} (hbody : x.writeBody = .ok body) (hlen : body.length < 2 ^ 63)
    (hlists : 2 ^ 16 < x.lists.length) (hsmall : x.lists.length < 2 ^ 64) :
    Refuses (frame body) InlineForwardIndex.mmapDeserialize := by
  -- the body ends with the trailer
  obtain ⟨-, -, hbody⟩ := bind_eq_ok hbody
  obtain ⟨⟨bytes, fin, entries⟩, hblocks, hbody⟩ := bind_eq_ok hbody
  have hfin : fin < 2 ^ 64 := writeBlocks_fin_lt hblocks (inlineAlignUp_lt _ _)
  set trailer : InlineForwardIndexTrailer := ⟨fin, entries.length, x.lists.length⟩ with htrailer
  obtain ⟨front, hfront⟩ : ∃ front, body = front ++ trailerCodec.enc trailer :=
    ⟨_, (Except.ok.inj hbody).symm⟩
  have hentries : entries.length < 2 ^ 64 := by
    have hparts := congrArg List.length (Except.ok.inj hbody)
    rw [List.length_append, List.length_append, Codec.length_encAll, width_dirEntryCodec] at hparts
    dsimp only at hparts
    omega
  have hwidth : (trailerCodec.enc trailer).length = 24 := trailerCodec.length_enc _
  refine (roundTrips_skipPadding (by decide)).bindRefuses
    ((writeScalar_appends _ _).andThen (emit_appends _)) ?_
  refine (roundTrips_scalar sizeCodec (InvertedListClusters.fits_size (by omega))).bindRefuses
    (emit_appends body) ?_
  rintro w rest ⟨fwd, c⟩ hread
  have hdata : emit body w ++ rest = w ++ (body ++ rest) := List.append_assoc _ _ _
  rw [hdata] at hread
  dsimp only at hread
  split at hread
  · cases hread
  rcases hload : InlineForwardIndex.loadDirectory (w ++ (body ++ rest)) w.length body.length with
    e | fwd'
  · rw [hload] at hread
    cases hread
  have hle := nLists_le_of_loadDirectory hload
  have hpos : w.length + body.length - 24 = (w ++ front).length := by
    rw [hfront, List.length_append, List.length_append, hwidth]
    omega
  have hbytes : w ++ (body ++ rest) = (w ++ front) ++ (trailerCodec.enc trailer ++ rest) := by
    rw [hfront, List.append_assoc, List.append_assoc]
  rw [hpos, hbytes, Codec.readAt_append (fits_trailer hfin hentries hsmall)] at hle
  exact absurd hle (not_le.mpr hlists)

end InlineForwardSource

/-! ### What a write begins with -/

namespace DiskSeismicIndex

variable {x : DiskSeismicIndex F}

/-- The sections of a payload up to the blocks. -/
def frontSections (x : DiskSeismicIndex F) (body : Bytes) : Writer :=
  (writeScalar u64Codec x.numVectors).andThen <|
  (serializeLists true x.clusteredInvertedLists).andThen (InlineForwardSource.frame body)

theorem frontSections_appends (x : DiskSeismicIndex F) (body : Bytes) :
    Appends (x.frontSections body) := by
  have hlists : Appends (serializeLists true x.clusteredInvertedLists) :=
    (writeScalar_appends _ _).andThen
      (Appends.writeMany (fun l => l.summariesOnly.serialize_appends) _)
  exact (writeScalar_appends _ _).andThen
    (hlists.andThen (InlineForwardSource.frame_appends body))

theorem writeDocDirectory_appends {lists : List InvertedListClusters} {vectors : SparseVectors Code}
    {dimension : ℕ} {w bytes : Bytes}
    (h : writeDocDirectory lists vectors dimension w = .ok bytes) : w <+: bytes := by
  obtain ⟨_, -, h⟩ := bind_eq_ok h
  obtain ⟨⟨locators, remainder⟩, -, h⟩ := bind_eq_ok h
  obtain rfl := Except.ok.inj h
  have happends : Appends ((padTo kMinBlockAlign).andThen <|
      (writeScalar u64Codec vectors.numVectors).andThen <|
      (writePadded locatorCodec locators kLocatorAlign).andThen remainder.serialize) :=
    (padTo_appends _).andThen <| (writeScalar_appends _ _).andThen <|
      (writePadded_appends _ _ _).andThen remainder.serialize_appends
  exact happends w

/-- A write that returned begins with these sections, whatever the index is. -/
theorem writePayload_front {format : CodeFormat F} {w bytes : Bytes}
    (hw : x.writePayload format w = .ok bytes) :
    ∃ (source : InlineForwardSource) (body : Bytes),
      source.lists = x.clusteredInvertedLists ∧ source.writeBody = .ok body ∧
        x.frontSections body (format.writePayloadHeader w) <+: bytes := by
  obtain ⟨emptyVectors, -, hw⟩ := bind_eq_ok hw
  obtain ⟨source, hsource, hw⟩ := bind_eq_ok hw
  obtain ⟨out, hserialize, hw⟩ := bind_eq_ok hw
  obtain ⟨sectionLen, -, hserialize⟩ := bind_eq_ok hserialize
  obtain ⟨body, hbody, hserialize⟩ := bind_eq_ok hserialize
  have hlists : source.lists = x.clusteredInvertedLists := by
    unfold InlineForwardSource.new at hsource
    split at hsource
    · obtain rfl := Except.ok.inj hsource
      rfl
    · cases hsource
  refine ⟨source, body, hlists, hbody, ?_⟩
  split at hserialize
  · cases hserialize
  rename_i hlen
  obtain rfl := Except.ok.inj hserialize
  rw [← not_not.mp hlen] at hw
  exact writeDocDirectory_appends hw

/-- **A payload of too many lists is not loaded.** -/
theorem frontSections_refuses {elementSize : ℕ} (hx : x.toSeismicIndex.Storable elementSize)
    (hcount : x.numVectors < 2 ^ 64) (hlists : 2 ^ 16 < x.clusteredInvertedLists.length)
    {source : InlineForwardSource} (hsource : source.lists = x.clusteredInvertedLists)
    {body : Bytes} (hbody : source.writeBody = .ok body) {w : Bytes}
    (hsize : (x.frontSections body w).length < 2 ^ 63) (page : ℕ) :
    Refuses (x.frontSections body) (loadMappedPayload (4096 * page)) := by
  have hframe := InlineForwardSource.frame_appends body
  have hsummaries := roundTrips_summaries hx ((hframe _).length_le.trans_lt hsize) page
  have hlen : body.length < 2 ^ 63 := by
    refine lt_of_le_of_lt ?_ hsize
    show body.length ≤ (emit body _).length
    rw [length_emit]
    exact Nat.le_add_left _ _
  have hsmall := hx.count
  rw [← hsource] at hsmall hlists
  exact (roundTrips_scalar u64Codec (fits_u64 hcount)).bindRefuses
    (hsummaries.appends.andThen hframe) <| hsummaries.bindRefuses hframe <|
      (InlineForwardSource.frame_refuses hbody hlen hlists (hsmall.trans (by decide))).bind _

end DiskSeismicIndex

/-! ### Whole files -/

section Readers

variable [LinearOrder F] [FloatFormat F]

theorem Refuses.liftMapped {α : Type} {s : Writer} {r : Reader Exception α} (h : Refuses s r) :
    Refuses s (liftMapped r) := by
  rintro w rest result hread
  unfold Nsparse.liftMapped at hread
  rcases hr : r ⟨s w ++ rest, w.length⟩ with e | result'
  · rw [hr] at hread
    cases hread
  · exact h w rest result' hr

variable [Zero F] [One F] [Sub F] [Mul F]

/-- What a payload is not loaded from does not make a file either. -/
theorem DiskKind.mapIndex_refuses (kind : DiskKind F) {dim : ℕ} (hdim : dim < 2 ^ 31) {s : Writer}
    (hs : Appends s) {page : ℕ} (h : Refuses s (loadMappedPayload (4096 * page))) {bytes : Bytes}
    (hbytes : s (kind.format.writePayloadHeader
      (SeismicIndex.writeHeader kind.format.name kind.format.formatVersion dim [])) <+: bytes)
    (result : StoredIndex F × Cursor) : mapIndex (4096 * page) ⟨bytes, 0⟩ ≠ .ok result := by
  obtain ⟨rest, rfl⟩ := hbytes
  have hcheck : ∀ {k : IndexKind}, k ≠ .brutal →
      IOReader.check (checkHeader ⟨fourcc k.name, kFormatVersion, dim⟩)
        = fun cursor => .ok (k, cursor) := by
    intro k hk
    funext cursor
    unfold IOReader.check
    rw [checkHeader_eq hk]
  cases kind with
  | float =>
      have hall : ∀ fuel, Refuses ((SeismicIndex.writeHeader IndexKind.diskSeismic.name kFormatVersion
          dim).andThen s) (readIndexWithin (F := F) .buffered (mapPayload (4096 * page)) (fuel + 1)) := by
        intro fuel
        refine (copied_header .diskSeismic hdim).bindRefuses hs ?_
        rw [hcheck (by decide)]
        exact (Refuses.liftMapped (h.map _)).map _
      exact hall _ [] rest result
  | quantized sq =>
      have hquantizer := StoredIndex.mapped_quantizer sq
      have hall : ∀ fuel, Refuses ((SeismicIndex.writeHeader IndexKind.diskSeismicSQ.name
          kFormatVersion dim).andThen (sq.writeHeader.andThen s))
          (readIndexWithin (F := F) .buffered (mapPayload (4096 * page)) (fuel + 1)) := by
        intro fuel
        refine (copied_header .diskSeismicSQ hdim).bindRefuses (hquantizer.appends.andThen hs) ?_
        rw [hcheck (by decide)]
        have hpayload : Refuses (sq.writeHeader.andThen s)
            (DiskSeismicIndex.mapQuantizedPayload (F := F) (4096 * page) dim) :=
          hquantizer.bindRefuses hs (h.bind _)
        exact (Refuses.liftMapped hpayload).map _
      exact hall _ [] rest result

end Readers

/-! ### Documents without locators -/

namespace DiskSeismicIndex

variable {x y : DiskSeismicIndex F} {elementSize : ℕ}

/-- **A payload that counts other documents than it locates is not loaded.** -/
theorem Written.refuses {body : Bytes} {locators : List DocLocator} {remainder : SparseVectors Code}
    (h : x.Written elementSize body locators remainder) (hx : x.Storable elementSize)
    (hne : x.numVectors ≠ (x.writtenVectors elementSize).numVectors) (hcount : x.numVectors < 2 ^ 64)
    {w : Bytes} (hsize : (x.sections body locators remainder w).length < 2 ^ 63) (page : ℕ) :
    Refuses (x.sections body locators remainder) (loadMappedPayload (4096 * page)) := by
  obtain ⟨-, -, -, hlt⟩ := hx.encodable
  obtain ⟨source, hsource, -, -, hsection, blocks, entries, hbody⟩ := h.forward
  have hlocators : locators.length ≠ x.numVectors := by
    rw [h.length_locators]
    exact hne.symm
  have hrecords : Appends ((writePadded locatorCodec locators kLocatorAlign).andThen
      remainder.serialize) :=
    (writePadded_appends _ _ _).andThen remainder.serialize_appends
  have hdirectory : Appends (directorySections locators.length locators remainder) :=
    (padTo_appends _).andThen ((writeScalar_appends _ _).andThen hrecords)
  have hframe := InlineForwardSource.frame_appends body
  have hsummaries := roundTrips_summaries hx.toStorable
    (((hframe.andThen hdirectory) _).length_le.trans_lt hsize) page
  rw [loadMappedPayload_eq]
  refine (roundTrips_scalar u64Codec (fits_u64 hcount)).bindRefuses
    (hsummaries.appends.andThen (hframe.andThen hdirectory)) ?_
  refine hsummaries.bindRefuses (hframe.andThen hdirectory) ?_
  refine (hbody.yields hsource (hsection.trans (by decide))).bindRefuses hdirectory
    fun _ fwd _ => Refuses.map ?_ _
  have hfits : u64Codec.Fits locators.length := by
    rw [h.length_locators]
    exact fits_u64 (hlt.trans (by decide))
  refine (roundTrips_skipPadding (by decide)).bindRefuses
    ((writeScalar_appends _ _).andThen hrecords) ?_
  refine (roundTrips_scalar u64Codec hfits).bindRefuses hrecords ?_
  rintro w rest ⟨result, c⟩ hread
  obtain ⟨_, _, hagree, -⟩ := Reader.bind_eq_ok hread
  have hthrow : throwIfLocatorsDisagree locators.length x.numVectors = .error _ := if_pos hlocators
  rw [hthrow] at hagree
  cases hagree

/-- What was mapped can be stored. -/
theorem Reloads.storable (h : y.Reloads elementSize x) (hx : x.Storable elementSize) :
    y.Storable elementSize := by
  have hlists := h.mirrors.summaries
  refine ⟨⟨⟨h.dimension.symm ▸ hx.fed.dimension, fun v hv => ?_⟩, hx.width, fun v hv => ?_,
    fun l hl => ?_, ?_⟩, ?_, fun l hl hn => ?_⟩
  · exact absurd (h.vectors.symm.trans hv) nofun
  · exact absurd (h.vectors.symm.trans hv) nofun
  · rw [hlists] at hl
    obtain ⟨whole, hwhole, rfl⟩ := List.mem_map.mp hl
    obtain ⟨hstorable, hclusters⟩ := hx.lists whole hwhole
    exact ⟨hstorable.summariesOnly, hclusters⟩
  · rw [hlists, List.length_map]
    exact hx.count
  · rw [hlists, List.length_map]
    exact hx.short
  · rw [hlists] at hl
    obtain ⟨whole, hwhole, rfl⟩ := List.mem_map.mp hl
    exact hx.summaries whole hwhole hn

end DiskSeismicIndex

end Nsparse
