/-
Nsparse/FileRoundTrip.lean

Whole files: an index that was written comes back to both readers.

Every part of a file has its round trip, for the copying readers and for the mapped
ones, so a file has it too, by recursion over the id maps around the index
(`StoredIndex.Storable.roundTrips`).  What comes back is the index itself but for the
map from the callers' ids, which is not stored: the reader inverts the other map.
-/
import Nsparse.BuiltIndex
import Nsparse.InvertedCorpus
import Nsparse.PostingRoundTrip
import Nsparse.StoredSearch

namespace Nsparse

open Wire

variable {F : Type}

/-! ### Headers -/

theorem fourcc_fits (kind : IndexKind) : headerIdCodec.Fits (fourcc kind.name) ∧
    headerIdCodec.enc (fourcc kind.name) = kind.name.toUTF8.toList := by
  have hlen : kind.name.toUTF8.toList.length = 4 := by cases kind <;> decide +kernel
  constructor
  · apply Codec.fits_nat
    have hlt := leNat_lt kind.name.toUTF8.toList
    rwa [hlen] at hlt
  · show leBytes 4 (leNat kind.name.toUTF8.toList) = _
    rw [← hlen]
    exact leBytes_leNat _

theorem fits_dimension {dim : ℕ} (h : dim < 2 ^ 31) : headerDimensionCodec.Fits (dim : ℤ) := by
  rw [← toIdx_eq_self_iff.mpr h]
  exact fits_toIdx _

/-- A header takes 12 bytes. -/
theorem length_writeHeader (kind : IndexKind) (dim : ℕ) (w : Bytes) :
    (SeismicIndex.writeHeader kind.name kFormatVersion dim w).length = w.length + 12 := by
  rw [SeismicIndex.writeHeader, ← (fourcc_fits kind).2]
  show (emit ((Codec.int 4).enc dim) (emit ((Codec.nat 4).enc kFormatVersion)
    (emit (headerIdCodec.enc (fourcc kind.name)) w))).length = w.length + 12
  rw [length_emit, length_emit, length_emit, Codec.length_enc, Codec.length_enc, Codec.length_enc]
  rfl

/-- A header comes back. -/
theorem copied_header (kind : IndexKind) {dim : ℕ} (hdim : dim < 2 ^ 31) :
    RoundTrips (SeismicIndex.writeHeader kind.name kFormatVersion dim) (readHeader .buffered)
      ⟨fourcc kind.name, kFormatVersion, dim⟩ := by
  obtain ⟨hfits, henc⟩ := fourcc_fits kind
  have hversion : headerIdCodec.Fits kFormatVersion := Codec.fits_nat (by decide)
  rw [SeismicIndex.writeHeader, ← henc]
  refine (copied_scalar headerIdCodec hfits _).bind ?_
  refine (copied_scalar headerIdCodec hversion _).bind ?_
  exact (copied_scalar headerDimensionCodec (fits_dimension hdim) _).map _

/-- The ids of the types are the bytes of their names. -/
theorem fourcc_eq (kind : IndexKind) : fourcc kind.name =
    match kind with
    | .brutal => 0x54555242
    | .seismic => 0x53494553
    | .seismicSQ => 0x51534553
    | .diskSeismic => 0x49455344
    | .diskSeismicSQ => 0x51535344
    | .idMap => 0x504d4449
    | .inverted => 0x54564e49 := by
  cases kind <;> decide +kernel

theorem kindOf_fourcc (kind : IndexKind) : kindOf (fourcc kind.name) = .ok kind := by
  unfold kindOf
  rw [fourcc_eq, fourcc_eq, fourcc_eq, fourcc_eq, fourcc_eq, fourcc_eq, fourcc_eq, fourcc_eq]
  cases kind <;> rfl

theorem checkHeader_eq {kind : IndexKind} (hkind : kind ≠ .brutal) (dim : ℤ) :
    checkHeader ⟨fourcc kind.name, kFormatVersion, dim⟩ = .ok kind := by
  unfold checkHeader
  rw [kindOf_fourcc]
  cases kind with
  | brutal => exact absurd rfl hkind
  | _ => rfl

section Readers

variable [LinearOrder F] [FloatFormat F]

/-- **Behind its header** a file goes on with the payload that the header names. -/
theorem copied_behind_header {kind : IndexKind} (hkind : kind ≠ .brutal) {dim : ℕ}
    (hdim : dim < 2 ^ 31) {s : Writer}
    {payload : IndexHeader → Reader Fault (StoredIndex F) → IndexKind →
      Reader Fault (StoredIndex F)} {fuel : ℕ} {y : StoredIndex F}
    (h : RoundTrips s (payload ⟨fourcc kind.name, kFormatVersion, dim⟩
      (readIndexWithin .buffered payload fuel) kind) y) :
    RoundTrips ((SeismicIndex.writeHeader kind.name kFormatVersion dim).andThen s)
      (readIndexWithin .buffered payload (fuel + 1)) y := by
  refine (copied_header kind hdim).bind ?_
  have hcheck : IOReader.check (checkHeader ⟨fourcc kind.name, kFormatVersion, dim⟩)
      = fun cursor => .ok (kind, cursor) := by
    funext cursor
    unfold IOReader.check
    rw [checkHeader_eq hkind]
  rw [hcheck]
  exact h

end Readers

theorem RoundTrips.liftMapped {α : Type} {s : Writer} {r : Reader Exception α} {a : α}
    (h : RoundTrips s r a) : RoundTrips s (liftMapped r) a where
  appends := h.appends
  reads w rest := by
    unfold Nsparse.liftMapped
    rw [h.reads w rest]

/-! ### Seismic payloads -/

namespace SparseVectors

theorem copied_default (held : SparseVectors Code) :
    RoundTrips default.serialize (deserialize .buffered held) held :=
  (copied_scalar sizeCodec (InvertedListClusters.fits_size (by decide)) _).bind
    (t := id) ⟨Appends.id, fun _ _ => rfl⟩

theorem mapped_default : RoundTrips default.serialize mmapDeserialize default :=
  (roundTrips_scalar sizeCodec (InvertedListClusters.fits_size (by decide))).bind
    (t := id) ⟨Appends.id, fun _ _ => rfl⟩

variable {v : SparseVectors Code} {elementSize dim : ℕ}

theorem WellFormed.forall_indices_lt {n : ℕ} (h : v.WellFormed) (hterms : TermsBelow n v.rows) :
    ∀ t ∈ v.indices, t < n := by
  intro t ht
  rw [← h.map_fst_entries, ← h.flatten_rows] at ht
  obtain ⟨entry, hentry, rfl⟩ := List.mem_map.mp ht
  obtain ⟨row, hrow, hmem⟩ := List.mem_flatten.mp hentry
  exact hterms row hrow entry hmem

theorem WellFormed.termsBelow {n : ℕ} (h : v.WellFormed) (hterms : ∀ t ∈ v.indices, t < n) :
    TermsBelow n v.rows := by
  intro row hrow entry hentry
  apply hterms
  rw [← h.map_fst_entries, ← h.flatten_rows]
  exact List.mem_map_of_mem (List.mem_flatten.mpr ⟨row, hrow, hentry⟩)

/-- Documents with codes that were written in a file can be read from it. -/
theorem Fed.storable (h : v.Fed elementSize dim) (hdim : dim < 2 ^ 31)
    (hwidth : elementSize = U32 ∨ elementSize = U16 ∨ elementSize = U8)
    (hterms : TermsBelow (2 ^ 16) v.rows) (hsize : v.numVectors < 2 ^ 31) {w : Bytes}
    (hw : (v.serialize w).length < 2 ^ 63) : v.Storable ∧ v.Held := by
  have hcodes : ∀ code ∈ v.values, code.length = v.elementSize := fun code hcode =>
    (h.codes code hcode).trans h.width.symm
  have hheld := held_of_serialize h.wellFormed hcodes h.nonempty hw
  have hflat := length_flatten_codes hcodes
  rw [← h.wellFormed.paired] at hflat
  have hvalues := hheld.values
  have hpos := h.positive
  have hes := h.width
  refine ⟨⟨h.wellFormed, ⟨?_, ?_⟩, ?_, fun t ht => ?_, hcodes, by omega, by omega⟩, hheld⟩
  · rw [h.dimension]
    exact hpos
  · rw [h.dimension]
    omega
  · rw [hes]
    exact hwidth
  · exact h.wellFormed.forall_indices_lt hterms t ht

end SparseVectors

namespace SeismicIndex

variable {x : SeismicIndex F} {elementSize : ℕ}

/-- What a file can hold of a seismic index. -/
structure Storable (elementSize : ℕ) (x : SeismicIndex F) : Prop where
  fed : x.Fed elementSize
  width : elementSize = U32 ∨ elementSize = U16 ∨ elementSize = U8
  vectors : ∀ v, x.vectors = some v → TermsBelow (2 ^ 16) v.rows ∧ v.numVectors < 2 ^ 31
  lists : ∀ l ∈ x.clusteredInvertedLists, l.Storable ∧ l.nClusters < 2 ^ 31
  count : x.clusteredInvertedLists.length < 2 ^ 31

section Build

variable [Mul F] [FloatFormat F] [Zero F] [Add F] [Sub F] [LT F] [DecidableLT F]

theorem empty_storable : InvertedListClusters.empty.Storable :=
  ⟨by simp [InvertedListClusters.empty], by simp [InvertedListClusters.empty],
    by simp [InvertedListClusters.empty], by simp [InvertedListClusters.empty], rfl,
    by simp [InvertedListClusters.empty], Or.inl rfl, rfl⟩

/-- **A build that returned leaves what a file can hold.** -/
theorem build_storable {env : SpillEnv} {rng : Rng} {sort : StdSort} {entropy : ℕ}
    {x x' : SeismicIndex F} (hx : x.Fed elementSize) (hrange : x.InRange)
    (hwidth : elementSize = U32 ∨ elementSize = U16 ∨ elementSize = U8)
    (h : x.build env rng sort entropy = (x', .ok ())) : x'.Storable elementSize := by
  obtain ⟨hvectors, hdim, hlists⟩ := build_lists hx hrange h
  have hfed : x'.Fed elementSize := ⟨hdim ▸ hx.dimension, fun v hv => by
    rw [hdim]
    exact hx.vectors v (hvectors ▸ hv)⟩
  cases hlists with
  | none hnone heq =>
      refine ⟨hfed, hwidth, fun v hv => ?_, fun l hl => ?_, ?_⟩
      · rw [hvectors, hnone] at hv
        cases hv
      · rw [heq] at hl
        rw [List.eq_of_mem_replicate hl]
        exact ⟨empty_storable, by decide⟩
      · rw [heq, List.length_replicate]
        exact hx.dimension
  | some v hsome hstored heq =>
      refine ⟨hfed, hwidth, fun v' hv' => ?_, fun l hl => ?_, ?_⟩
      · rw [hvectors, hsome] at hv'
        cases hv'
        exact ⟨hstored.terms16, hstored.size⟩
      · rw [heq] at hl
        obtain ⟨i, hi, rfl⟩ := List.mem_map.mp hl
        rw [Nat.zero_add]
        exact clusteredList_storable rng sort hstored.size hstored.terms16 hstored.width _
          (hstored.postings i (List.mem_range.mp hi))
      · rw [heq, length_clusteredLists]
        exact hx.dimension

end Build

/-- The payload of a seismic index. -/
def writeSections (x : SeismicIndex F) : Writer :=
  ((x.vectors.getD .default).serialize).andThen (serializeLists false x.clusteredInvertedLists)

theorem serializeLists_appends (lists : List InvertedListClusters) :
    Appends (serializeLists false lists) :=
  (writeScalar_appends _ _).andThen (.writeMany (fun l => l.serialize_appends) lists)

section Payload

/-- Dimension, vectors and lists come back. -/
theorem Storable.ofFile_eq [FloatFormat F] (h : x.Storable elementSize) :
    (ofFile x.dimension (x.vectors.getD .default) x.clusteredInvertedLists
      : SeismicIndex F).vectors = x.vectors := by
  unfold ofFile
  rcases hv : x.vectors with - | v
  · rfl
  · have hne := (h.fed.vectors v hv).nonempty
    exact if_pos (Nat.pos_of_ne_zero hne)

theorem Storable.throwIfElementSizeMismatch_eq (h : x.Storable elementSize) (msg : String) :
    throwIfElementSizeMismatch msg elementSize (x.vectors.getD .default) = .ok () := by
  refine if_neg ?_
  rintro ⟨hpos, hne⟩
  rcases hv : x.vectors with - | v
  · rw [hv] at hpos
    exact lt_irrefl _ hpos
  · rw [hv] at hne
    exact hne (h.fed.vectors v hv).width

/-- What a file of less than 2^63 bytes holds can be read. -/
theorem Storable.sections (h : x.Storable elementSize) {w : Bytes}
    (hw : (x.writeSections w).length < 2 ^ 63) :
    (∀ v, x.vectors = some v → v.Storable ∧ v.Held) ∧
      ∀ l ∈ x.clusteredInvertedLists, l.Storable ∧ l.Held := by
  constructor
  · intro v hv
    obtain ⟨hterms, hsize⟩ := h.vectors v hv
    refine (h.fed.vectors v hv).storable h.fed.dimension h.width hterms hsize (w := w) ?_
    have hle := (serializeLists_appends x.clusteredInvertedLists
      ((x.vectors.getD .default).serialize w)).length_le
    rw [hv] at hle
    exact hle.trans_lt (by rwa [writeSections, hv] at hw)
  · intro l hl
    obtain ⟨v, hv⟩ := exists_le_writeMany (fun l : InvertedListClusters => l.serialize_appends) hl
      (writeScalar sizeCodec x.clusteredInvertedLists.length ((x.vectors.getD .default).serialize w))
    obtain ⟨hstorable, hn⟩ := h.lists l hl
    exact ⟨hstorable, InvertedListClusters.held_of_serialize hstorable (hv.trans_lt hw) (by omega)⟩

theorem Storable.copied_vectors (h : x.Storable elementSize) {w : Bytes}
    (hw : (x.writeSections w).length < 2 ^ 63) :
    RoundTrips (x.vectors.getD .default).serialize (SparseVectors.deserialize .buffered .default)
      (x.vectors.getD .default) := by
  rcases hv : x.vectors with - | v
  · exact SparseVectors.copied_default _
  · obtain ⟨hstorable, hheld⟩ := (h.sections hw).1 v hv
    have hcopied := SparseVectors.copied hstorable hheld .default
    rwa [if_neg (h.fed.vectors v hv).nonempty] at hcopied

theorem Storable.mapped_vectors (h : x.Storable elementSize) {w : Bytes}
    (hw : (x.writeSections w).length < 2 ^ 63) :
    RoundTrips (x.vectors.getD .default).serialize SparseVectors.mmapDeserialize
      (x.vectors.getD .default) := by
  rcases hv : x.vectors with - | v
  · exact SparseVectors.mapped_default
  · have hmapped := SparseVectors.roundTrips ((h.sections hw).1 v hv).1
    rwa [if_neg (h.fed.vectors v hv).nonempty] at hmapped

variable [FloatFormat F]

/-- **The payload by copying.** -/
theorem Storable.copied (h : x.Storable elementSize) (msg : String) {w : Bytes}
    (hw : (x.writeSections w).length < 2 ^ 63) :
    RoundTrips x.writeSections (readPayload .buffered msg elementSize x.dimension)
      (ofFile x.dimension (x.vectors.getD .default) x.clusteredInvertedLists
        : SeismicIndex F) := by
  refine (h.copied_vectors hw).bind ?_
  have hcheck : IOReader.check
      (throwIfElementSizeMismatch msg elementSize (x.vectors.getD .default))
      = fun cursor => .ok ((), cursor) := by
    funext cursor
    unfold IOReader.check
    rw [h.throwIfElementSizeMismatch_eq]
  rw [hcheck]
  exact (copied_lists (h.count.trans (by decide)) (h.sections hw).2).map _

/-- **The payload from a mapping.** -/
theorem Storable.mapped (h : x.Storable elementSize) (msg : String) (page : ℕ) {w : Bytes}
    (hw : (x.writeSections w).length < 2 ^ 63) :
    RoundTrips x.writeSections (mapPayload (4096 * page) msg elementSize x.dimension)
      (ofFile x.dimension (x.vectors.getD .default) x.clusteredInvertedLists
        : SeismicIndex F) := by
  refine (h.mapped_vectors hw).bind ?_
  have hcheck : Reader.lift
      (throwIfElementSizeMismatch msg elementSize (x.vectors.getD .default))
      = fun cursor => .ok ((), cursor) := by
    funext cursor
    exact Reader.lift_eq_ok_iff.mpr ⟨h.throwIfElementSizeMismatch_eq msg, rfl⟩
  rw [hcheck]
  refine (roundTrips_lists (h.count.trans (by decide))
    (fun l hl => ⟨((h.sections hw).2 l hl).1, ((h.sections hw).2 l hl).2.sized⟩)
    fun l hl => ?_).map _
  -- a width is a power of two below a page
  rcases ((h.sections hw).2 l hl).1.width with hes | hes | hes <;> rw [hes]
  · exact Dvd.dvd.mul_right (by decide) page
  · exact Dvd.dvd.mul_right (by decide) page
  · exact one_dvd _

end Payload

end SeismicIndex

end Nsparse
