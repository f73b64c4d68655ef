/-
Nsparse/WidthAgreement.lean

The widths at which a mapped index stores its values.

The codes of an index have one width: four bytes, or what its quantizer says.  The
vectors, the cluster summaries, the inline forward index and the remainder each declare
a width of their own in the file.  `declaredWidths` reads the sections of a file for
their widths alone; the readers check some of them and not others (`unchecked`), and an
index they accept is stored at one width exactly when the rest of its file agrees
(`widths_agree_iff`).
-/
import Nsparse.TruncatedFile

namespace Nsparse

open Wire

variable {F : Type}

/-! ### Declared widths -/

/-- The width of the codes of an index, and the widths its sections declare; a section that holds
nothing declares none. -/
structure FileWidths where
  codes : ℕ
  vectors : List ℕ
  summaries : List ℕ
  forward : List ℕ
  remainder : List ℕ
  deriving Repr, DecidableEq

def SparseVectors.widths (v : SparseVectors Code) : List ℕ :=
  if 0 < v.numVectors then [v.elementSize] else []

def summaryWidths (lists : List InvertedListClusters) : List ℕ :=
  (lists.filter fun l => 0 < l.nClusters).map InvertedListClusters.elementSize

def InlineForwardIndex.widths (fwd : InlineForwardIndex) : List ℕ :=
  if 0 < fwd.numBlocks then [fwd.elementSize] else []

section Declared

variable [LinearOrder F] [FloatFormat F] [Zero F] [One F] [Sub F] [Mul F]

/-- The width of the codes of a kind, read from the quantization header where there is one. -/
def codeWidth (F : Type) [LinearOrder F] [FloatFormat F] [Zero F] [One F] [Sub F] [Mul F] :
    IndexKind → Reader Exception ℕ
  | .seismicSQ => (mapQuantizationHeader (F := F)).map ScalarQuantizer.bytesPerValue
  | .diskSeismicSQ => (mapQuantizationHeader (F := F)).map ScalarQuantizer.bytesPerValue
  | _ => Reader.lift (.ok U32)

/-- The widths of the sections behind the code width. -/
def sectionWidths (base : ℕ) (kind : IndexKind) (codes : ℕ) : Reader Exception FileWidths :=
  if kind = .diskSeismic ∨ kind = .diskSeismicSQ then
    (loadMappedPayload base).map fun p =>
      ⟨codes, [], summaryWidths p.lists, p.fwd.widths, p.remainder.widths⟩
  else
    SparseVectors.mmapDeserialize.bind fun vectors =>
    (mmapDeserializeLists base).map fun lists =>
      ⟨codes, vectors.widths, summaryWidths lists, [], []⟩

/-- What the payload of a file declares. -/
def declaredWidths (F : Type) [LinearOrder F] [FloatFormat F] [Zero F] [One F] [Sub F] [Mul F]
    (base : ℕ) (kind : IndexKind) : Reader Exception FileWidths :=
  (codeWidth F kind).bind (sectionWidths base kind)

/-- The widths that the reader of a kind takes as they come. -/
def FileWidths.unchecked (w : FileWidths) : IndexKind → List ℕ
  | .diskSeismic => w.summaries ++ w.forward ++ w.remainder
  | .diskSeismicSQ => w.remainder
  | _ => w.summaries

end Declared

/-! ### Stored widths -/

/-- The vectors, the summaries of the lists that have clusters, the blocks and the remainder rows
are stored at one width. -/
structure SeismicIndex.StoredAt (width : ℕ) (x : SeismicIndex F) : Prop where
  vectors : ∀ v, x.vectors = some v → v.elementSize = width
  summaries : ∀ l ∈ x.clusteredInvertedLists, 0 < l.nClusters → l.elementSize = width

structure DiskSeismicIndex.StoredAt (width : ℕ) (x : DiskSeismicIndex F) : Prop
    extends x.toSeismicIndex.StoredAt width where
  forward : 0 < x.fwd.numBlocks → x.fwd.elementSize = width
  remainder : 0 < x.remainder.numVectors → x.remainder.elementSize = width

/-- An index is stored at the width of its codes. -/
def StoredIndex.WidthsAgree [LT F] [FloatFormat F] : StoredIndex F → Prop
  | seismic x => x.StoredAt U32
  | seismicSQ sq x => x.StoredAt sq.bytesPerValue
  | diskSeismic x => x.StoredAt U32
  | diskSeismicSQ sq x => x.StoredAt sq.bytesPerValue
  | inverted _ => True
  | idMap _ _ delegate => delegate.WidthsAgree

theorem forall_widths_iff {v : SparseVectors Code} {width : ℕ} :
    (∀ w ∈ v.widths, w = width) ↔ (0 < v.numVectors → v.elementSize = width) := by
  unfold SparseVectors.widths
  split
  · rename_i h
    simp [h]
  · rename_i h
    simp [h]

theorem forall_forward_widths_iff {fwd : InlineForwardIndex} {width : ℕ} :
    (∀ w ∈ fwd.widths, w = width) ↔ (0 < fwd.numBlocks → fwd.elementSize = width) := by
  unfold InlineForwardIndex.widths
  split
  · rename_i h
    simp [h]
  · rename_i h
    simp [h]

theorem forall_summaryWidths_iff {lists : List InvertedListClusters} {width : ℕ} :
    (∀ w ∈ summaryWidths lists, w = width) ↔
      ∀ l ∈ lists, 0 < l.nClusters → l.elementSize = width := by
  constructor
  · exact fun h l hl hn => h _ (List.mem_map_of_mem (List.mem_filter.mpr ⟨hl, by simpa using hn⟩))
  · intro h w hw
    obtain ⟨l, hl, rfl⟩ := List.mem_map.mp hw
    obtain ⟨hl, hn⟩ := List.mem_filter.mp hl
    exact h l hl (of_decide_eq_true hn)

/-! ### What the readers check -/

section Readers

variable [LinearOrder F] [FloatFormat F] [Zero F] [One F] [Sub F] [Mul F]

theorem liftMapped_eq_ok {α : Type} {r : Reader Exception α} {c c' : Cursor} {a : α}
    (h : liftMapped r c = .ok (a, c')) : r c = .ok (a, c') := by
  unfold liftMapped at h
  cases hr : r c with
  | error e =>
      rw [hr] at h
      cases h
  | ok p =>
      rw [hr] at h
      rw [Except.ok.inj h]

omit [LinearOrder F] [Zero F] [One F] [Sub F] [Mul F] in
/-- The seismic readers check the vectors and leave the summaries. -/
theorem SeismicIndex.mapPayload_widths {base width dim : ℕ} {msg : String} {c c' : Cursor}
    {x : SeismicIndex F} (h : SeismicIndex.mapPayload base msg width dim c = .ok (x, c'))
    (kind : IndexKind) (hkind : ¬ (kind = .diskSeismic ∨ kind = .diskSeismicSQ)) :
    ∃ declared, sectionWidths base kind width c = .ok (declared, c') ∧ declared.codes = width ∧
      (x.StoredAt width ↔ ∀ w ∈ declared.summaries, w = width) := by
  obtain ⟨vectors, d, hvectors, hrest⟩ := Reader.bind_eq_ok h
  obtain ⟨_, d', hlift, hmap⟩ := Reader.bind_eq_ok hrest
  obtain ⟨hcheck, rfl⟩ := Reader.lift_eq_ok_iff.mp hlift
  obtain ⟨lists, hlists, rfl⟩ := Reader.map_eq_ok hmap
  refine ⟨⟨width, vectors.widths, summaryWidths lists, [], []⟩, ?_, rfl, ?_⟩
  · rw [sectionWidths, if_neg hkind, Reader.bind_of_ok hvectors, Reader.map_of_ok hlists]
  · rw [forall_summaryWidths_iff]
    refine ⟨StoredAt.summaries, fun hsummaries => ⟨fun v hv => ?_, hsummaries⟩⟩
    -- the vectors are kept when there are any, and then they were checked
    replace hv : (if 0 < vectors.numVectors then some vectors else none) = some v := hv
    split at hv
    · rename_i hpos
      obtain rfl := Option.some.inj hv
      by_contra hne
      rw [throwIfElementSizeMismatch, if_pos ⟨hpos, hne⟩] at hcheck
      cases hcheck
    · cases hv

theorem validateMappedPayload_eq_ok {width : ℕ} {p : MappedPayload}
    (h : validateMappedPayload width p = .ok ()) :
    (0 < p.fwd.numBlocks → p.fwd.elementSize = width) ∧
      ∀ l ∈ p.lists, 0 < l.nClusters → l.elementSize = width := by
  unfold validateMappedPayload at h
  split at h
  · cases h
  · rename_i hforward
    split at h
    · cases h
    · rename_i hsummaries
      refine ⟨fun hpos => not_not.mp fun hne => hforward ⟨hpos, hne⟩, fun l hl hn => ?_⟩
      by_contra hne
      exact hsummaries (List.any_eq_true.mpr ⟨l, hl, by simpa using ⟨hn, hne⟩⟩)

omit [LinearOrder F] [FloatFormat F] [Zero F] [One F] [Sub F] [Mul F] in
/-- A mapped disk index is stored as its sections say. -/
theorem DiskSeismicIndex.ofPayload_storedAt {width dim : ℕ} {params : SeismicClusterParameters F}
    {p : MappedPayload} :
    (ofPayload dim params p : DiskSeismicIndex F).StoredAt width ↔
      (∀ w ∈ summaryWidths p.lists, w = width) ∧ (∀ w ∈ p.fwd.widths, w = width) ∧
        ∀ w ∈ p.remainder.widths, w = width := by
  rw [forall_summaryWidths_iff, forall_forward_widths_iff, forall_widths_iff]
  constructor
  · exact fun h => ⟨h.summaries, h.forward, h.remainder⟩
  · rintro ⟨hsummaries, hforward, hremainder⟩
    exact ⟨⟨nofun, hsummaries⟩, hforward, hremainder⟩

/-- **The stored widths agree** exactly when the sections that the reader leaves unchecked declare
the width of the codes. -/
theorem widths_agree_iff (base : ℕ) (header : IndexHeader) (nested : Reader Fault (StoredIndex F))
    {kind : IndexKind}
    (hkind : kind = .seismic ∨ kind = .seismicSQ ∨ kind = .diskSeismic ∨ kind = .diskSeismicSQ)
    {c c' : Cursor} {y : StoredIndex F} (h : mapPayload base header nested kind c = .ok (y, c')) :
    ∃ declared, declaredWidths F base kind c = .ok (declared, c') ∧
      (y.WidthsAgree ↔ ∀ w ∈ declared.unchecked kind, w = declared.codes) := by
  rcases hkind with rfl | rfl | rfl | rfl
  · obtain ⟨x, hx, rfl⟩ := Reader.map_eq_ok h
    obtain ⟨declared, hdeclared, hcodes, hiff⟩ :=
      SeismicIndex.mapPayload_widths (liftMapped_eq_ok hx) .seismic (by decide)
    exact ⟨declared, hdeclared, hcodes ▸ hiff⟩
  · obtain ⟨sq, d, hsq, hrest⟩ := Reader.bind_eq_ok h
    obtain ⟨x, hx, rfl⟩ := Reader.map_eq_ok hrest
    obtain ⟨declared, hdeclared, hcodes, hiff⟩ :=
      SeismicIndex.mapPayload_widths (liftMapped_eq_ok hx) .seismicSQ (by decide)
    refine ⟨declared, ?_, hcodes ▸ hiff⟩
    exact (Reader.bind_of_ok (Reader.map_of_ok (liftMapped_eq_ok hsq))).trans hdeclared
  · obtain ⟨x, hx, rfl⟩ := Reader.map_eq_ok h
    obtain ⟨p, hp, rfl⟩ := Reader.map_eq_ok (liftMapped_eq_ok hx)
    refine ⟨⟨U32, [], summaryWidths p.lists, p.fwd.widths, p.remainder.widths⟩, ?_, ?_⟩
    · exact Reader.map_of_ok hp
    · refine DiskSeismicIndex.ofPayload_storedAt.trans ?_
      show _ ↔ ∀ w ∈ summaryWidths p.lists ++ p.fwd.widths ++ p.remainder.widths, w = U32
      rw [List.forall_mem_append, List.forall_mem_append, and_assoc]
  · obtain ⟨⟨sq, x⟩, hx, rfl⟩ := Reader.map_eq_ok h
    obtain ⟨sq', d, hsq, hx⟩ := Reader.bind_eq_ok (liftMapped_eq_ok hx)
    obtain ⟨p, d', hp, hx⟩ := Reader.bind_eq_ok hx
    obtain ⟨_, hlift, heq⟩ := Reader.map_eq_ok hx
    obtain ⟨rfl, rfl⟩ := Prod.mk.inj heq
    obtain ⟨hcheck, rfl⟩ := Reader.lift_eq_ok_iff.mp hlift
    obtain ⟨hforward, hsummaries⟩ := validateMappedPayload_eq_ok hcheck
    refine ⟨⟨sq'.bytesPerValue, [], summaryWidths p.lists, p.fwd.widths, p.remainder.widths⟩, ?_,
      ?_⟩
    · exact (Reader.bind_of_ok (Reader.map_of_ok hsq)).trans (Reader.map_of_ok hp)
    · refine DiskSeismicIndex.ofPayload_storedAt.trans ?_
      show _ ↔ ∀ w ∈ p.remainder.widths, w = sq'.bytesPerValue
      exact ⟨fun h => h.2.2, fun h => ⟨forall_summaryWidths_iff.mpr hsummaries,
        forall_forward_widths_iff.mpr hforward, h⟩⟩

end Readers

/-- A float index whose one summary is a byte wide. -/
def narrowSummary : SeismicIndex ℤ :=
  { SeismicIndex.new 1 ⟨0, 1, 1, ⟨2, ""⟩, 42⟩ with
    clusteredInvertedLists := [⟨1, U8, [0], [0, 1], [0], [0, 1], [0], [7]⟩] }

theorem narrowSummary_storable : narrowSummary.Storable U32 where
  fed := ⟨by decide, nofun⟩
  width := .inl rfl
  vectors := nofun
  lists := by
    intro l hl
    obtain rfl := List.mem_singleton.mp hl
    exact ⟨⟨by decide, by decide, by decide, by decide, rfl, by decide, .inr (.inr rfl), rfl⟩,
      by decide⟩
  count := by decide

/-- Its file, read back. -/
theorem narrowSummary_reads (nested : Reader Fault (StoredIndex ℤ)) :
    mapPayload (4096 * 0) ⟨fourcc IndexKind.seismic.name, kFormatVersion, 1⟩ nested .seismic
        ⟨narrowSummary.writeSections [], 0⟩
      = .ok ((StoredIndex.seismic narrowSummary).reloaded,
        ⟨narrowSummary.writeSections [], (narrowSummary.writeSections []).length⟩) := by
  have hsize : (narrowSummary.writeSections []).length < 2 ^ 63 := by decide +kernel
  have hreads := (StoredIndex.PayloadReader.seismic (.mapping 0) narrowSummary_storable nested
    hsize).reads [] []
  rw [List.append_nil] at hreads
  exact hreads

theorem widths_agree_iff_narrow_summary :
    ∃ declared c', declaredWidths ℤ (4096 * 0) .seismic ⟨narrowSummary.writeSections [], 0⟩
        = .ok (declared, c') ∧
      ((StoredIndex.seismic narrowSummary).reloaded.WidthsAgree ↔
        ∀ w ∈ declared.unchecked .seismic, w = declared.codes) := by
  obtain ⟨declared, hdeclared, hiff⟩ := widths_agree_iff (4096 * 0)
    ⟨fourcc IndexKind.seismic.name, kFormatVersion, 1⟩
    (readIndexWithin .buffered (mapPayload (4096 * 0)) 0) (.inl rfl) (narrowSummary_reads _)
  exact ⟨declared, _, hdeclared, hiff⟩

/-- **A summary of another width** is accepted. -/
theorem narrow_summary_is_accepted :
    ∃ bytes, (StoredIndex.seismic narrowSummary).write [] = .ok bytes ∧
      ∃ (y : StoredIndex ℤ) (c' : Cursor), mapIndex (4096 * 0) ⟨bytes, 0⟩ = .ok (y, c') ∧
        ¬ y.WidthsAgree := by
  have hstorable : (StoredIndex.seismic narrowSummary).Storable := narrowSummary_storable
  obtain ⟨bytes, hw⟩ := hstorable.write_eq []
  have hlen : ((StoredIndex.seismic narrowSummary).write []).toOption.map
      (fun bytes => decide (bytes.length < 2 ^ 63)) = some true := by decide +kernel
  rw [hw] at hlen
  obtain ⟨-, hread⟩ := hstorable.read_eq hw (of_decide_eq_true (Option.some_inj.mp hlen)) 0
  refine ⟨bytes, hw, _, _, hread, fun h => ?_⟩
  have hwidth := SeismicIndex.StoredAt.summaries h _ (List.mem_singleton_self _) Nat.one_pos
  exact absurd hwidth (by decide)

end Nsparse
