/-
Nsparse/DiskFile.lean

The file of a disk index, written and mapped again.

A write that returned has checked every block, so its section was made of countable
blocks and its arithmetic did not wrap (`serialize_eq_ok`).  The sections behind the
header then come back one after the other (`writePayload_yields`), and what is mapped
mirrors what was written (`DiskSeismicIndex.mapped`).
-/
import Nsparse.DiskReload
import Nsparse.Lib.Truncation
import Nsparse.WholeFile

namespace Nsparse

open Wire

variable {F : Type}

/-! ### A section that was written -/

namespace InlineForwardSource

variable {x : InlineForwardSource}

/-- The blocks that were written are countable, and lie where the layout puts them. -/
theorem writeBlocks_eq_ok (henc : Encodable x.vectors) (halign : x.writeAlignment ≤ 2 ^ 62) {off : ℕ}
    {blocks : List InlineBlock} {bytes : Bytes} {fin : ℕ} {entries : List InlineDirEntry}
    (h : x.writeBlocks off blocks = .ok (bytes, fin, entries))
    (hsize : off + bytes.length < 2 ^ 63) :
    (∀ b ∈ blocks, Countable x.vectors b.docs) ∧ x.dirStart off blocks = off + bytes.length ∧
      entries.length = blocks.length := by
  induction blocks generalizing off bytes fin entries with
  | nil =>
      cases h
      exact ⟨by simp, rfl, rfl⟩
  | cons b blocks ih =>
      rw [writeBlocks] at h
      obtain ⟨counts, hcounts, h⟩ := bind_eq_ok h
      obtain ⟨⟨bytes', fin', entries'⟩, hrest, h⟩ := bind_eq_ok h
      obtain ⟨hb, rfl⟩ := countBlock_eq_ok_iff.mp hcounts
      have hlayout := inlineBlockOffsets_block henc.width hb
      have hraw := blockBytes_eq henc.width hb
      have hlen := length_rawBlock henc hb
      unfold blockNnz at hlayout hraw
      dsimp only at hrest h
      rw [hlayout] at hrest
      rw [hraw, hlayout] at h
      dsimp only at hrest h
      obtain ⟨hbytes, hentries⟩ := Prod.mk.inj (Except.ok.inj h)
      obtain ⟨-, rfl⟩ := Prod.mk.inj hentries
      -- the block lies below the limit, so its end and the next offset do not wrap
      have hroom : blockLen x.vectors b.docs ≤ bytes.length := by
        rw [← hbytes, List.length_append, List.length_append, hlen]
        omega
      have hpadded := alignUp_lt (off + blockLen x.vectors b.docs) x.writeAlignment_pos
      obtain ⟨hend, hnext⟩ := x.inlineAlignUp_nextOff
        (show x.nextOff off b < 2 ^ 64 from hpadded.trans (by omega))
      have hle := x.le_nextOff off b
      have hstep : (if off + blockLen x.vectors b.docs < x.nextOff off b then x.nextOff off b
          else off + blockLen x.vectors b.docs) = x.nextOff off b := by
        split
        · rfl
        · exact le_antisymm hle (not_lt.mp ‹_›)
      rw [hend, hnext, hstep] at hrest hbytes
      have hlength : off + bytes.length = x.nextOff off b + bytes'.length := by
        rw [← hbytes, List.length_append, List.length_append, hlen, List.length_replicate]
        omega
      obtain ⟨hblocks, hdir, hcount⟩ := ih hrest (by omega)
      refine ⟨List.forall_mem_cons.mpr ⟨hb, hblocks⟩, hdir.trans hlength.symm, ?_⟩
      rw [List.length_cons, List.length_cons, hcount]

/-- **A section that was written** was made of countable blocks, and its size did not wrap. -/
theorem serialize_eq_ok (henc : Encodable x.vectors) (halign : x.writeAlignment ≤ 2 ^ 62)
    {w out : Bytes} (h : x.serialize w = .ok out) (hsize : out.length < 2 ^ 63) :
    (∀ b ∈ blocksOf x.lists, Countable x.vectors b.docs) ∧ x.sectionSize < 2 ^ 63 := by
  obtain ⟨sectionLen, -, h⟩ := bind_eq_ok h
  obtain ⟨body, hbody, h⟩ := bind_eq_ok h
  obtain ⟨-, -, hbody⟩ := bind_eq_ok hbody
  obtain ⟨⟨bytes, fin, entries⟩, hblocks, hbody⟩ := bind_eq_ok hbody
  have hout : body.length ≤ out.length := by
    split at h
    · cases h
    · rw [← Except.ok.inj h, length_emit]
      exact Nat.le_add_left _ _
  have hfirst : inlineAlignUp 24 x.writeAlignment = x.firstBlock :=
    inlineAlignUp_eq x.writeAlignment_pos x.writeAlignment_dvd
      ((alignUp_lt 24 x.writeAlignment_pos).trans (by omega))
  rw [hfirst] at hblocks hbody
  have hlen : body.length = x.firstBlock + bytes.length + entries.length * 32 + 24 := by
    have hle := x.le_firstBlock
    have h24 : (headerCodec.enc ⟨x.vectors.elementSize, x.nBlocks, x.writeAlignment⟩).length = 24 :=
      headerCodec.length_enc _
    have h32 : (dirEntryCodec.encAll entries).length = entries.length * 32 :=
      dirEntryCodec.length_encAll entries
    have htrailer : (trailerCodec.enc ⟨fin, entries.length, x.lists.length⟩).length = 24 :=
      trailerCodec.length_enc _
    rw [← Except.ok.inj hbody, List.length_append, List.length_append, List.length_append,
      List.length_append, h24, h32, htrailer, List.length_replicate]
    dsimp only
    omega
  obtain ⟨hcountable, hdir, hentries⟩ := writeBlocks_eq_ok henc halign hblocks (by omega)
  refine ⟨hcountable, ?_⟩
  rw [sectionSize, hdir, nBlocks, ← length_blocksOf, ← hentries]
  omega

end InlineForwardSource

/-! ### The directory -/

/-- Records that begin at a place for them come back. -/
theorem roundTrips_records {α : Type} (c : Codec α) {xs : List α} {alignment : ℕ}
    (hfits : ∀ x ∈ xs, c.Fits x) (hwidth : 0 < c.width) (halign : 0 < alignment) :
    RoundTrips (writePadded c xs alignment)
      ((skipPadding alignment).bind fun _ => readRecords c alignment xs.length) xs where
  appends := writePadded_appends c xs alignment
  reads w rest := by
    have hw : writePadded c xs alignment w = padTo alignment w ++ c.encAll xs := rfl
    have hskip := (roundTrips_skipPadding halign).reads w (c.encAll xs ++ rest)
    have hpos : (padTo alignment w).length % alignment = 0 := by
      rw [length_padTo]
      exact Nat.mod_eq_zero_of_dvd (dvd_add_padding w.length halign)
    rw [hw, List.append_assoc, Reader.bind_of_ok hskip, readRecords, List.length_append,
      c.length_encAll]
    by_cases h0 : xs.length = 0
    · rw [if_pos h0, List.length_eq_zero_iff.mp h0, List.length_nil, Nat.zero_mul, Nat.add_zero]
    · rw [if_neg h0, if_neg, if_neg (not_not.mpr hpos), List.drop_left, c.decAll_encAll hfits]
      rw [Cursor.remaining, List.length_append, List.length_append, c.length_encAll, not_lt,
        Nat.le_div_iff_mul_le hwidth]
      dsimp only
      omega

theorem fits_locator {loc : DocLocator} (hpl : loc.postingList < 2 ^ 32) (hblock : loc.block < 2 ^ 32)
    (hslot : loc.slot < 2 ^ 32) : locatorCodec.Fits loc :=
  Codec.fits_record (Codec.fits_pair (fits_u32 hpl)
    (Codec.fits_pair (fits_u32 hblock) (fits_u32 hslot))) rfl

/-- Every locator that is written fits. -/
theorem Collected.fits {vectors remainder remainder' : SparseVectors Code} {doc : ℕ}
    {found : List (Option DocLocator)} {locators : List DocLocator} {blocks : List InlineBlock}
    (h : Collected vectors doc found remainder remainder' locators) (hfound : Located blocks found) :
    ∀ loc ∈ locators, locatorCodec.Fits loc := by
  intro loc hloc
  obtain ⟨i, hi⟩ := List.mem_iff_getElem?.mp hloc
  have hlt : i < found.length := h.length ▸ (List.getElem?_eq_some_iff.mp hi).1
  rcases hslot : found[i] with - | place
  · obtain ⟨r, -, hmoved⟩ := h.moved i ((List.getElem?_eq_getElem hlt).trans (congrArg some hslot))
    obtain rfl := Option.some.inj (hi.symm.trans hmoved)
    exact fits_locator (Nat.sub_lt (Nat.two_pow_pos 32) Nat.one_pos) (Nat.mod_lt _ (by decide))
      (Nat.two_pow_pos 32)
  · have hsome := (List.getElem?_eq_getElem hlt).trans (congrArg some hslot)
    obtain rfl := Option.some.inj (hi.symm.trans (h.kept i place hsome))
    obtain ⟨b, -, slot, -, rfl⟩ := hfound i _ hsome
    exact fits_locator (Nat.mod_lt _ (by decide)) (Nat.mod_lt _ (by decide))
      (Nat.mod_lt _ (by decide))

/-- The part of the file behind the blocks. -/
def directorySections (count : ℕ) (locators : List DocLocator) (remainder : SparseVectors Code) :
    Writer :=
  (padTo kMinBlockAlign).andThen <| (writeScalar u64Codec count).andThen <|
  (writePadded locatorCodec locators kLocatorAlign).andThen remainder.serialize

/-- How it is read, for a payload of `numVectors` documents. -/
def readDirectory (numVectors : ℕ) : Reader Exception (List DocLocator × SparseVectors Code) :=
  (skipPadding kMinBlockAlign).bind fun _ =>
  (readScalar u64Codec).bind fun numLocators =>
  (Reader.lift (throwIfLocatorsDisagree numLocators numVectors)).bind fun _ =>
  (skipPadding kLocatorAlign).bind fun _ =>
  (readRecords locatorCodec kLocatorAlign numLocators).bind fun docLocators =>
  SparseVectors.mmapDeserialize.map fun remainder => (docLocators, remainder)

theorem loadMappedPayload_eq (base : ℕ) : loadMappedPayload base =
    (readScalar u64Codec).bind fun numVectors =>
    (mmapDeserializeLists base).bind fun lists =>
    InlineForwardIndex.mmapDeserialize.bind fun fwd =>
    (readDirectory numVectors).map fun d => ⟨numVectors, lists, fwd, d.1, d.2⟩ := by
  unfold readDirectory
  simp only [← Reader.map_bind, Reader.map_map]
  rfl

/-- **The directory comes back.** -/
theorem roundTrips_directory {locators : List DocLocator} {remainder remainder' : SparseVectors Code}
    (hcount : locators.length < 2 ^ 64) (hfits : ∀ loc ∈ locators, locatorCodec.Fits loc)
    (hremainder : RoundTrips remainder.serialize SparseVectors.mmapDeserialize remainder') :
    RoundTrips (directorySections locators.length locators remainder)
      (readDirectory locators.length) (locators, remainder') := by
  refine (roundTrips_skipPadding (by decide)).bind ?_
  refine (roundTrips_scalar u64Codec (fits_u64 hcount)).bind ?_
  have hagree : Reader.lift (throwIfLocatorsDisagree locators.length locators.length)
      = fun cursor => .ok ((), cursor) := by
    funext cursor
    exact Reader.lift_eq_ok_iff.mpr ⟨if_neg (not_not.mpr rfl), rfl⟩
  rw [hagree]
  show RoundTrips _ ((skipPadding kLocatorAlign).bind _) _
  rw [Reader.bind_assoc]
  exact (roundTrips_records locatorCodec hfits (by decide) (by decide)).bind (hremainder.map _)

/-! ### The payload -/

namespace DiskSeismicIndex

variable {x : DiskSeismicIndex F} {elementSize : ℕ}

/-- The vectors that a file is made of. -/
def writtenVectors (elementSize : ℕ) (x : DiskSeismicIndex F) : SparseVectors Code :=
  x.vectors.getD ⟨elementSize, x.dimension, [], [], []⟩

theorem writtenVectors_eq {vectors : SparseVectors Code} (h : x.vectors = some vectors) :
    x.writtenVectors elementSize = vectors := by
  rw [writtenVectors, h]
  rfl

/-- What a file can hold of a disk index: what it can hold of a seismic index, of at most as many
lists as a directory may name, with the summaries at the width of the codes. -/
structure Storable (elementSize : ℕ) (x : DiskSeismicIndex F) : Prop
    extends x.toSeismicIndex.Storable elementSize where
  short : x.clusteredInvertedLists.length ≤ 2 ^ 16
  summaries : ∀ l ∈ x.clusteredInvertedLists, 0 < l.nClusters → l.elementSize = elementSize

theorem Storable.encodable (h : x.Storable elementSize) :
    Encodable (x.writtenVectors elementSize) ∧
      (x.writtenVectors elementSize).elementSize = elementSize ∧
      (x.writtenVectors elementSize).dimension = x.dimension ∧
      (x.writtenVectors elementSize).numVectors < 2 ^ 31 := by
  have hwidth : BlockWidth elementSize := by
    rcases h.width with rfl | rfl | rfl
    · exact .inr (.inr rfl)
    · exact .inr (.inl rfl)
    · exact .inl rfl
  unfold writtenVectors
  rcases hv : x.vectors with - | v
  · exact ⟨⟨⟨rfl, fun _ => rfl, fun hne => absurd rfl hne⟩, hwidth, by simp, by simp⟩, rfl, rfl,
      Nat.two_pow_pos 31⟩
  · have hfed := h.fed.vectors v hv
    obtain ⟨hterms, hsize⟩ := h.toStorable.vectors v hv
    refine ⟨⟨hfed.wellFormed, hfed.width ▸ hwidth, ?_, ?_⟩, hfed.width, hfed.dimension, hsize⟩
    · exact hfed.wellFormed.forall_indices_lt hterms
    · intro code hcode
      exact (hfed.codes code hcode).trans hfed.width.symm

/-- What a finished write has made: the blocks of its body, and its directory. -/
structure Written (elementSize : ℕ) (x : DiskSeismicIndex F) (body : Bytes)
    (locators : List DocLocator) (remainder : SparseVectors Code) : Prop where
  forward : ∃ source : InlineForwardSource, source.Writable ∧
    source.lists = x.clusteredInvertedLists ∧ source.vectors = x.writtenVectors elementSize ∧
    source.sectionSize < 2 ^ 63 ∧ ∃ blocks entries, source.Body body blocks entries
  directory : Collected (x.writtenVectors elementSize) 0
    (locateDocs (x.writtenVectors elementSize).numVectors x.clusteredInvertedLists)
    ⟨elementSize, x.dimension, [], [], []⟩ remainder locators
  dimension : x.dimension ≠ 0

theorem Written.length_locators {body : Bytes} {locators : List DocLocator}
    {remainder : SparseVectors Code} (h : x.Written elementSize body locators remainder) :
    locators.length = (x.writtenVectors elementSize).numVectors :=
  h.directory.length.trans (locateDocs_spec _ _).2

/-- The sections of a payload. -/
def sections (x : DiskSeismicIndex F) (body : Bytes) (locators : List DocLocator)
    (remainder : SparseVectors Code) : Writer :=
  (writeScalar u64Codec x.numVectors).andThen <|
  (serializeLists true x.clusteredInvertedLists).andThen <|
  (InlineForwardSource.frame body).andThen <|
  directorySections locators.length locators remainder

/-- **A write that returned** wrote these sections, and writes them behind anything. -/
theorem writePayload_eq_ok {format : CodeFormat F} (h : x.Storable format.elementSize)
    {w bytes : Bytes} (hw : x.writePayload format w = .ok bytes) (hsize : bytes.length < 2 ^ 63) :
    ∃ body locators remainder, x.Written format.elementSize body locators remainder ∧
      ∀ w, x.writePayload format w
        = .ok (x.sections body locators remainder (format.writePayloadHeader w)) := by
  obtain ⟨henc, hes, hdim, hcount⟩ := h.encodable
  have hpositive : x.dimension ≠ 0 := by
    intro hzero
    unfold writePayload at hw
    rw [SparseVectors.new, if_pos hzero] at hw
    cases hw
  have hnew : ∀ width, (SparseVectors.new width x.dimension : Except Exception (SparseVectors Code))
      = .ok ⟨width, x.dimension, [], [], []⟩ := fun _ => if_neg hpositive
  have hpage : InlineLayout.kPageAligned = .kPageAligned → kDefaultPageSize &&& (kDefaultPageSize - 1)
      = 0 ∧ 24 ≤ kDefaultPageSize ∧ kDefaultPageSize < 2 ^ 64 := fun _ => by decide
  set source : InlineForwardSource := ⟨x.clusteredInvertedLists, x.writtenVectors format.elementSize,
    kDefaultPageSize, .kPageAligned, hpage⟩ with hsource
  -- the directory never fails
  obtain ⟨locators, remainder, hcollect, hcollected⟩ := collectRemainder_spec henc.wellFormed
    (locateDocs source.vectors.numVectors source.lists)
    (Nat.le_of_eq ((Nat.zero_add _).trans (locateDocs_spec _ _).2))
    (show SparseVectors.WellFormed ⟨format.elementSize, x.dimension, [], [], []⟩ from
      ⟨rfl, fun _ => rfl, fun hne => absurd rfl hne⟩)
  have hlocators : locators.length = source.vectors.numVectors :=
    hcollected.length.trans (locateDocs_spec _ _).2
  have hdirectory : ∀ w, writeDocDirectory source.lists source.vectors x.dimension w
      = .ok (directorySections locators.length locators remainder w) := by
    intro w
    unfold writeDocDirectory
    rw [show source.vectors.elementSize = format.elementSize from hes, hnew]
    show (collectRemainder source.vectors 0 _ _).bind _ = _
    rw [hcollect, hlocators]
    rfl
  have hwrite : ∀ w, x.writePayload format w
      = (source.serialize (serializeLists true x.clusteredInvertedLists
          (writeScalar u64Codec x.numVectors (format.writePayloadHeader w)))).bind
          fun w => .ok (directorySections locators.length locators remainder w) := by
    intro w
    have hforward : InlineForwardSource.new x.clusteredInvertedLists
        (x.vectors.getD ⟨format.elementSize, x.dimension, [], [], []⟩) kDefaultPageSize .kPageAligned
        = .ok source := dif_pos hpage
    unfold writePayload
    rw [hnew]
    dsimp only [bind, Except.bind]
    rw [hforward]
    dsimp only
    split
    · rfl
    · exact hdirectory _
  rw [hwrite] at hw
  obtain ⟨out, hserialize, hout⟩ := bind_eq_ok hw
  have hshort : out.length < 2 ^ 63 := by
    have happends : Appends (directorySections locators.length locators remainder) :=
      (padTo_appends _).andThen <| (writeScalar_appends _ _).andThen <|
        (writePadded_appends _ _ _).andThen (remainder.serialize_appends)
    rw [← Except.ok.inj hout] at hsize
    exact (happends out).length_le.trans_lt hsize
  obtain ⟨hcountable, hsection⟩ := InlineForwardSource.serialize_eq_ok henc (by
    show kDefaultPageSize ≤ 2 ^ 62
    decide) hserialize hshort
  have hwritable : source.Writable := by
    refine ⟨henc, hcountable, fun b hb d hd => ?_, h.short⟩
    obtain ⟨hpos, hlt⟩ := (hcountable b hb).rows d hd
    have : d.toNat < 2 ^ 31 := hlt.trans hcount
    omega
  obtain ⟨body, blocks, entries, -, -, hbody, hframe⟩ :=
    InlineForwardSource.serialize_eq hwritable (hsection.trans (by decide))
  refine ⟨body, locators, remainder,
    ⟨⟨source, hwritable, rfl, rfl, hsection, blocks, entries, hbody⟩, hcollected, hpositive⟩,
    fun w => ?_⟩
  rw [hwrite, hframe]
  rfl

/-- The remainder that was written comes back; one without rows as no vectors. -/
theorem Written.roundTrips_remainder {body : Bytes} {locators : List DocLocator}
    {remainder : SparseVectors Code} (h : x.Written elementSize body locators remainder)
    (hx : x.Storable elementSize) {w : Bytes} (hsize : (remainder.serialize w).length < 2 ^ 63) :
    RoundTrips remainder.serialize SparseVectors.mmapDeserialize
      (if remainder.numVectors = 0 then .default else remainder) := by
  obtain ⟨henc, hes, hdim, hcount⟩ := hx.encodable
  by_cases hzero : remainder.numVectors = 0
  · have hserialize : remainder.serialize = SparseVectors.default.serialize := by
      unfold SparseVectors.serialize
      rw [hzero]
      rfl
    rw [if_pos hzero, hserialize]
    exact SparseVectors.mapped_default
  · have hterms : TermsBelow (2 ^ 16) remainder.rows := by
      apply h.directory.wellFormed.termsBelow
      intro t ht
      rcases h.directory.terms t ht with hnone | hmem
      · cases hnone
      · exact henc.terms t hmem
    have hfed : remainder.Fed elementSize x.dimension :=
      ⟨h.directory.wellFormed, hzero, h.directory.width, h.directory.dimension,
        Nat.pos_of_ne_zero h.dimension, by
          intro code hcode
          rcases h.directory.codes code hcode with hnone | hmem
          · cases hnone
          · exact (henc.codes code hmem).trans hes⟩
    have hrows : remainder.numVectors < 2 ^ 31 := by
      have hle : remainder.numVectors ≤ 0 + (locateDocs _ _).length := h.directory.numVectors_le
      rw [(locateDocs_spec _ _).2] at hle
      omega
    exact SparseVectors.roundTrips
      (hfed.storable hx.fed.dimension hx.width hterms hrows hsize).1

/-- The summaries that were written come back, without the members. -/
theorem roundTrips_summaries (h : x.toSeismicIndex.Storable elementSize) {w : Bytes}
    (hsize : (serializeLists true x.clusteredInvertedLists w).length < 2 ^ 63) (page : ℕ) :
    RoundTrips (serializeLists true x.clusteredInvertedLists) (mmapDeserializeLists (4096 * page))
      (x.clusteredInvertedLists.map InvertedListClusters.summariesOnly) := by
  have heq : serializeLists true x.clusteredInvertedLists
      = serializeLists false (x.clusteredInvertedLists.map InvertedListClusters.summariesOnly) := by
    unfold serializeLists writeMany
    rw [List.length_map]
    simp only [List.foldl_map]
    rfl
  have hstorable : ∀ l ∈ x.clusteredInvertedLists.map InvertedListClusters.summariesOnly,
      l.Storable ∧ l.nClusters < 2 ^ 31 := by
    intro l hl
    obtain ⟨whole, hwhole, rfl⟩ := List.mem_map.mp hl
    obtain ⟨hstorable, hn⟩ := h.lists whole hwhole
    exact ⟨hstorable.summariesOnly, hn⟩
  rw [heq] at hsize ⊢
  refine roundTrips_lists ?_ (fun l hl => ?_) (fun l hl => ?_)
  · rw [List.length_map]
    exact h.count.trans (by decide)
  · obtain ⟨v, hv⟩ := exists_le_writeMany (fun l : InvertedListClusters => l.serialize_appends) hl
      (writeScalar sizeCodec
        (x.clusteredInvertedLists.map InvertedListClusters.summariesOnly).length w)
    obtain ⟨hl, hn⟩ := hstorable l hl
    exact ⟨hl, InvertedListClusters.sized_of_serialize
      ((hv.trans_lt hsize).trans (by decide)) (hn.trans (by decide))⟩
  · -- a width is a power of two below a page
    rcases (hstorable l hl).1.width with hes | hes | hes <;> rw [hes]
    · exact Dvd.dvd.mul_right (by decide) page
    · exact Dvd.dvd.mul_right (by decide) page
    · exact one_dvd _

/-- What is mapped mirrors what was written. -/
def Mirrored (elementSize : ℕ) (x : DiskSeismicIndex F) (p : MappedPayload) : Prop :=
  p.numVectors = x.numVectors ∧ ∀ (dim : ℕ) (parameter : SeismicClusterParameters F),
    (ofPayload dim parameter p).Mirrors x.clusteredInvertedLists (x.writtenVectors elementSize)

/-- **The payload comes back** when it counts its documents right. -/
theorem Written.yields {body : Bytes} {locators : List DocLocator} {remainder : SparseVectors Code}
    (h : x.Written elementSize body locators remainder) (hx : x.Storable elementSize)
    (hcount : x.numVectors = (x.writtenVectors elementSize).numVectors) {w : Bytes}
    (hsize : (x.sections body locators remainder w).length < 2 ^ 63) (page : ℕ) :
    Yields (x.sections body locators remainder) (loadMappedPayload (4096 * page))
      fun _ p => x.Mirrored elementSize p := by
  obtain ⟨henc, hes, hdim, hlt⟩ := hx.encodable
  obtain ⟨source, hsource, hlists, hvectors, hsection, blocks, entries, hbody⟩ := h.forward
  have hdirectory : Appends (directorySections locators.length locators remainder) :=
    (padTo_appends _).andThen <| (writeScalar_appends _ _).andThen <|
      (writePadded_appends _ _ _).andThen remainder.serialize_appends
  have hremainder := h.roundTrips_remainder hx hsize
  have hsummaries := roundTrips_summaries hx.toStorable
    ((((InlineForwardSource.frame_appends body).andThen hdirectory) _).length_le.trans_lt hsize) page
  rw [loadMappedPayload_eq]
  refine (roundTrips_scalar u64Codec (fits_u64 ?_)).bindYields ?_
  · rw [hcount]
    exact hlt.trans (by decide)
  refine hsummaries.bindYields ?_
  have hread := roundTrips_directory (by
    rw [h.length_locators]
    exact hlt.trans (by decide)) (h.directory.fits (locateDocs_spec _ _).1) hremainder
  have hnum : x.numVectors = locators.length := hcount.trans h.length_locators.symm
  rw [hnum]
  have hall := (hbody.yields hsource (hsection.trans (by decide))).bindEach hdirectory
    (fun _ fwd _ => hread.map fun d => (⟨locators.length,
      x.clusteredInvertedLists.map InvertedListClusters.summariesOnly, fwd, d.1, d.2⟩ : MappedPayload))
  refine ⟨hall.appends, fun w rest => ?_⟩
  obtain ⟨p, hp, fwd, ⟨-, hfwd⟩, rfl⟩ := hall.reads w rest
  refine ⟨_, hp, hnum.symm, fun dim parameter => ⟨rfl, ⟨source, hsource, hlists, hvectors, hfwd⟩,
    ⟨remainder, ?_, rfl⟩, fun l hl => (hx.lists l hl).2, hlt⟩⟩
  rw [hes, hdim]
  exact h.directory

/-- An index that was mapped from the file of another. -/
structure Reloads (elementSize : ℕ) (y x : DiskSeismicIndex F) : Prop where
  dimension : y.dimension = x.dimension
  count : y.numVectors = x.numVectors
  vectors : y.vectors = none
  mirrors : y.Mirrors x.clusteredInvertedLists (x.writtenVectors elementSize)

theorem Mirrored.reloads {p : MappedPayload} (h : x.Mirrored elementSize p)
    (parameter : SeismicClusterParameters F) :
    (ofPayload x.dimension parameter p).Reloads elementSize x :=
  ⟨rfl, h.1, rfl, h.2 x.dimension parameter⟩

/-- The widths of a mapped payload agree with its quantizer's. -/
theorem Mirrored.validate_eq {p : MappedPayload} (h : x.Mirrored elementSize p)
    (hx : x.Storable elementSize) (parameter : SeismicClusterParameters F) :
    validateMappedPayload elementSize p = .ok () := by
  obtain ⟨source, -, -, hvectors, hrestored⟩ := (h.2 x.dimension parameter).forward
  have hlists : p.lists = x.clusteredInvertedLists.map InvertedListClusters.summariesOnly :=
    (h.2 x.dimension parameter).summaries
  have hfwd : p.fwd.elementSize = elementSize := by
    have hwidth : p.fwd.elementSize = source.vectors.elementSize := hrestored.elementSize
    rw [hwidth, hvectors]
    exact hx.encodable.2.1
  refine (if_neg (fun hne => hne.2 hfwd)).trans (if_neg ?_)
  rw [hlists, Bool.not_eq_true, List.any_eq_false]
  intro l hl
  obtain ⟨whole, hwhole, rfl⟩ := List.mem_map.mp hl
  simp only [Bool.and_eq_true, decide_eq_true_eq, bne_iff_ne, not_and, not_not]
  exact hx.summaries whole hwhole

end DiskSeismicIndex

/-! ### The whole file -/

section Readers

variable [LinearOrder F] [FloatFormat F]

theorem Yields.liftMapped {α : Type} {s : Writer} {r : Reader Exception α} {P : Bytes → α → Prop}
    (h : Yields s r P) : Yields s (liftMapped r) P where
  appends := h.appends
  reads w rest := by
    obtain ⟨a, hread, hP⟩ := h.reads w rest
    refine ⟨a, ?_, hP⟩
    unfold Nsparse.liftMapped
    rw [hread]

/-- What comes back behind the header of a file. -/
theorem yields_behind_header {kind : IndexKind} (hkind : kind ≠ .brutal) {dim : ℕ}
    (hdim : dim < 2 ^ 31) {s : Writer}
    {payload : IndexHeader → Reader Fault (StoredIndex F) → IndexKind →
      Reader Fault (StoredIndex F)} {fuel : ℕ} {P : Bytes → StoredIndex F → Prop}
    (h : Yields s (payload ⟨fourcc kind.name, kFormatVersion, dim⟩
      (readIndexWithin .buffered payload fuel) kind) P) :
    Yields ((SeismicIndex.writeHeader kind.name kFormatVersion dim).andThen s)
      (readIndexWithin .buffered payload (fuel + 1)) P := by
  refine (copied_header kind hdim).bindYields ?_
  have hcheck : IOReader.check (checkHeader ⟨fourcc kind.name, kFormatVersion, dim⟩)
      = fun cursor => .ok (kind, cursor) := by
    funext cursor
    unfold IOReader.check
    rw [checkHeader_eq hkind]
  rw [hcheck]
  exact h

variable [Zero F] [One F] [Sub F] [Mul F]

omit [Sub F] [Mul F] in
/-- A whole file is mapped from its first byte to its last. -/
theorem mapIndex_of_yields {s : Writer} {P : StoredIndex F → Prop} {base : ℕ}
    (h : ∀ fuel, Yields s (readIndexWithin .buffered (mapPayload base) (fuel + 1)) fun _ => P) :
    ∃ y, mapIndex base ⟨s [], 0⟩ = .ok (y, ⟨s [], (s []).length⟩) ∧ P y := by
  obtain ⟨y, hread, hP⟩ := (h (s []).length).reads [] []
  rw [List.append_nil] at hread
  exact ⟨y, hread, hP⟩

/-- **A disk index is mapped from its own file**, and mirrors what was written. -/
theorem DiskSeismicIndex.mapped {x : DiskSeismicIndex F} (hx : x.Storable U32)
    (hcount : x.numVectors = (x.writtenVectors U32).numVectors) {bytes : Bytes}
    (hw : (StoredIndex.diskSeismic x).write [] = .ok bytes) (hsize : bytes.length < 2 ^ 63)
    (page : ℕ) :
    ∃ y, mapIndex (4096 * page) ⟨bytes, 0⟩ = .ok (StoredIndex.diskSeismic y, ⟨bytes, bytes.length⟩) ∧
      y.Reloads U32 x := by
  obtain ⟨body, locators, remainder, hwritten, hwrite⟩ := writePayload_eq_ok hx hw hsize
  have hwrite' : (StoredIndex.diskSeismic x).write [] = .ok _ := hwrite _
  rw [hw] at hwrite'
  obtain rfl := Except.ok.inj hwrite'
  have hpayload := hwritten.yields hx hcount hsize page
  obtain ⟨y, hread, y', rfl, hy⟩ := mapIndex_of_yields
    (P := fun y => ∃ y', y = StoredIndex.diskSeismic y' ∧ y'.Reloads U32 x) fun fuel =>
    @yields_behind_header F _ _ .diskSeismic (by decide) x.dimension hx.fed.dimension _
      (Nsparse.mapPayload (4096 * page)) fuel _
      ((Yields.liftMapped (hpayload.map (Q := fun _ y => Reloads U32 y x) fun _ p hp =>
        hp.reloads (kDefaultSeismicClusterParams F))).map fun _ y hy => ⟨y, rfl, hy⟩)
  exact ⟨y', hread, hy⟩

/-- **A quantizing disk index is mapped from its own file**, with its quantizer. -/
theorem DiskSeismicIndex.mapped_quantized (sq : ScalarQuantizer F) {x : DiskSeismicIndex F}
    (hx : x.Storable sq.bytesPerValue)
    (hcount : x.numVectors = (x.writtenVectors sq.bytesPerValue).numVectors) {bytes : Bytes}
    (hw : (StoredIndex.diskSeismicSQ sq x).write [] = .ok bytes) (hsize : bytes.length < 2 ^ 63)
    (page : ℕ) :
    ∃ y, mapIndex (4096 * page) ⟨bytes, 0⟩
        = .ok (StoredIndex.diskSeismicSQ sq y, ⟨bytes, bytes.length⟩) ∧
      y.Reloads sq.bytesPerValue x := by
  obtain ⟨body, locators, remainder, hwritten, hwrite⟩ :=
    @writePayload_eq_ok F x (quantizedFormat sq IndexKind.diskSeismicSQ.name) hx _ _ hw hsize
  have hwrite' : (StoredIndex.diskSeismicSQ sq x).write [] = .ok _ := hwrite _
  rw [hw] at hwrite'
  obtain rfl := Except.ok.inj hwrite'
  have hpayload : Yields (x.sections body locators remainder) (loadMappedPayload (4096 * page))
      fun _ p => x.Mirrored sq.bytesPerValue p := hwritten.yields hx hcount hsize page
  have hchecked : Yields (x.sections body locators remainder)
      ((loadMappedPayload (4096 * page)).bind fun p =>
        (Reader.lift (validateMappedPayload sq.bytesPerValue p)).map fun _ =>
          (sq, ofPayload x.dimension (kDefaultSeismicClusterParams F) p))
      fun _ r => r.1 = sq ∧ Reloads sq.bytesPerValue r.2 x := by
    refine ⟨hpayload.appends, fun w rest => ?_⟩
    obtain ⟨p, hread, hp⟩ := hpayload.reads w rest
    refine ⟨(sq, ofPayload x.dimension (kDefaultSeismicClusterParams F) p), ?_, rfl,
      hp.reloads (kDefaultSeismicClusterParams F)⟩
    have hvalid := hp.validate_eq hx (kDefaultSeismicClusterParams F)
    rw [Reader.bind_of_ok hread, hvalid]
    rfl
  obtain ⟨y, hread, y', rfl, hy⟩ := mapIndex_of_yields
    (P := fun y => ∃ y', y = StoredIndex.diskSeismicSQ sq y' ∧ y'.Reloads sq.bytesPerValue x)
    fun fuel =>
    @yields_behind_header F _ _ .diskSeismicSQ (by decide) x.dimension hx.fed.dimension _
      (Nsparse.mapPayload (4096 * page)) fuel _
      ((Yields.liftMapped ((StoredIndex.mapped_quantizer sq).bindYields hchecked)).map fun _ r hr =>
        ⟨r.2, by rw [hr.1], hr.2⟩)
  exact ⟨y', hread, hy⟩

end Readers

end Nsparse
