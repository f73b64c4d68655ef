/-
Nsparse/SavedHistory.lean

Disk indexes that are filled, built, saved and loaded, again and again.

Whatever is called on an index, new or mapped from a file, what it would write can be read
back (`Reached.sound`), unless there are more lists than terms, or the count of its
documents is not that of its vectors.  The latter is so when it was mapped: a mapped index
has no vectors, and is saved with the count of its documents and without a locator for any
of them.

A mapped index that is added to has vectors and the blocks of its file, and a search scores
these while a file is written from those.
-/
import Nsparse.MappedHistory

namespace Nsparse

open Wire

variable {F : Type}

namespace DiskSeismicIndex

/-! ### What a history leaves -/

/-- The offsets are in order, and the terms, the documents and the postings of a term can be numbered
by their types. -/
structure FitsTypes (v : SparseVectors Code) : Prop where
  wellFormed : v.WellFormed
  terms : TermsBelow (2 ^ 16) v.rows
  size : v.numVectors < 2 ^ 31
  postings : ∀ term < v.dimension, (postingsOf v.rows term).length < 2 ^ 31

/-- No cluster, no block and no document of a file. -/
structure Blank (x : DiskSeismicIndex F) : Prop where
  lists : ∀ l ∈ x.clusteredInvertedLists, l.nClusters = 0
  blocks : ∀ pl block, x.fwd.block pl block = .ok none
  docLocators : x.docLocators = []
  remainder : x.remainder = .default

/-- What any history leaves: vectors and lists that can be written, and a count of the vectors, or of
what was mapped. -/
structure Sound (elementSize : ℕ) (x : DiskSeismicIndex F) : Prop
    extends x.toSeismicIndex.Fed elementSize where
  fits : ∀ v, x.vectors = some v → FitsTypes v
  lists : ∀ l ∈ x.clusteredInvertedLists, l.Storable ∧ l.nClusters < 2 ^ 31
  summaries : ∀ l ∈ x.clusteredInvertedLists, 0 < l.nClusters → l.elementSize = elementSize
  listCount : x.clusteredInvertedLists.length < 2 ^ 31
  count : ∀ v, x.vectors = some v → x.numVectors = v.numVectors
  few : x.numVectors < 2 ^ 31
  mapped : x.vectorsMapped = true → x.vectors ≠ none
  blank : x.vectors = none → x.numVectors = 0 ∨ x.dimension = 0 → x.Blank

variable {x x' y : DiskSeismicIndex F} {elementSize : ℕ}

theorem new_sound {dim : ℕ} (hdim : dim < 2 ^ 31) (params : SeismicClusterParameters F) :
    (new dim params).Sound elementSize where
  toFed := SeismicIndex.new_fed hdim params
  fits v hv := by cases hv
  lists l hl := absurd hl List.not_mem_nil
  summaries l hl := absurd hl List.not_mem_nil
  listCount := Nat.two_pow_pos 31
  count v hv := by cases hv
  few := Nat.two_pow_pos 31
  mapped h := by cases h
  blank _ _ := ⟨fun l hl => absurd hl List.not_mem_nil, fun _ _ => rfl, rfl, rfl⟩

/-- Its corpus can be built. -/
theorem Sound.inRange (hx : x.Sound elementSize)
    (hwidth : elementSize = U32 ∨ elementSize = U16 ∨ elementSize = U8) :
    x.toSeismicIndex.InRange := by
  intro v hv hne hterms
  have hfed := hx.vectors v hv
  have hfits := hx.fits v hv
  exact
    { wellFormed := hfed.wellFormed
      nonempty := hne
      size := hfits.size
      terms := hterms
      terms16 := hfits.terms
      width := by rw [hfed.width]; exact hwidth
      postings := fun term hterm => hfits.postings term (hfed.dimension.symm ▸ hterm) }

/-- What a file can hold of a seismic index. -/
theorem Sound.seismicStorable (hx : x.Sound elementSize)
    (hwidth : elementSize = U32 ∨ elementSize = U16 ∨ elementSize = U8) :
    x.toSeismicIndex.Storable elementSize :=
  ⟨hx.toFed, hwidth, fun v hv => ⟨(hx.fits v hv).terms, (hx.fits v hv).size⟩, hx.lists, hx.listCount⟩

/-- And of a disk index, with few enough lists. -/
theorem Sound.storable (hx : x.Sound elementSize)
    (hwidth : elementSize = U32 ∨ elementSize = U16 ∨ elementSize = U8)
    (hshort : x.clusteredInvertedLists.length ≤ 2 ^ 16) : x.Storable elementSize :=
  ⟨hx.seismicStorable hwidth, hshort, hx.summaries⟩

/-- An index that counts no documents has no vectors. -/
theorem Sound.vectors_eq_none (hx : x.Sound elementSize) (hzero : x.numVectors = 0) :
    x.vectors = none := by
  rcases hv : x.vectors with - | v
  · rfl
  · exact absurd ((hx.count v hv).symm.trans hzero) (hx.vectors v hv).nonempty

/-- What is added to, and how many documents are counted there. -/
theorem Sound.vectorsToAdd {format : CodeFormat F} (hx : x.Sound format.elementSize)
    {before : SparseVectors Code} (hto : x.vectorsToAdd format = .ok before) :
    before.numVectors = (if x.vectors = none then { x with numVectors := 0 } else x).numVectors ∧
      (x.vectors = none ∨ x.vectors = some before) := by
  unfold SeismicIndex.vectorsToAdd at hto
  split at hto
  · rename_i hnone
    obtain ⟨-, hrows, -, -⟩ := SparseVectors.new_wellFormed hto
    refine ⟨?_, .inl hnone⟩
    rw [if_pos hnone, ← SparseVectors.length_rows, hrows]
    rfl
  · rename_i v hv
    obtain rfl := Except.ok.inj hto
    refine ⟨?_, .inr hv⟩
    rw [if_neg (hv ▸ Option.some_ne_none v)]
    exact (hx.count v hv).symm

/-- Rows that are added change nothing, or find no dimension, or extend the vectors. -/
theorem Sound.addRows_cases {format : CodeFormat F} (hx : x.Sound format.elementSize) (n : ℤ)
    (indptr : List ℕ) {indices : List ℕ} {values : List F} (hpair : indices.length = values.length) :
    (∃ e, x.addRows format n indptr indices values = (x, .error e)) ∨
      (x.vectors = none ∧ x.dimension = 0 ∧
        ∃ e, x.addRows format n indptr indices values = ({ x with numVectors := 0 }, .error e)) ∨
      ∃ before v, x.vectorsToAdd format = .ok before ∧
        before.addVectors indptr indices (values.map format.encode) = .ok v ∧
        x.addRows format n indptr indices values
          = ({ x with vectors := some v, numVectors := before.numVectors + n.toNat }, .ok ()) := by
  unfold addRows
  dsimp only
  -- the count begins with that of the vectors there are
  set z := if x.vectors = none then { x with numVectors := 0 } else x with hz
  have hseismic : z.toSeismicIndex = x.toSeismicIndex := by
    rw [hz]
    split
    · rfl
    · rfl
  rw [hseismic]
  rcases hto : x.vectorsToAdd format with e | before
  · refine .inr (.inl ?_)
    unfold SeismicIndex.vectorsToAdd at hto
    split at hto
    · rename_i hnone
      refine ⟨hnone, ?_, e, ?_⟩
      · by_contra hdim
        rw [SparseVectors.new, if_neg hdim] at hto
        cases hto
      · rw [hz, if_pos hnone]
    · cases hto
  obtain ⟨hcount, hvectors⟩ := hx.vectorsToAdd hto
  dsimp only
  split
  · -- a mapped file cannot grow
    rename_i hmapped
    have hsome : x.vectors = some before := by
      refine hvectors.resolve_left (hx.mapped ?_)
      rw [← hmapped, hz]
      split
      · rfl
      · rfl
    have hsame : z = x := if_neg (hsome ▸ Option.some_ne_none before)
    exact .inl ⟨_, by rw [hsame, ← hsome]⟩
  · rcases hadd : before.addVectors indptr indices (values.map format.encode) with e | v
    · -- the arrays have one length
      unfold SparseVectors.addVectors at hadd
      rw [if_neg (not_not.mpr (by rw [List.length_map, hpair]))] at hadd
      split at hadd
      · cases hadd
      · cases hadd
    · refine .inr (.inr ⟨before, v, rfl, hadd, ?_⟩)
      rw [hcount, hz]
      dsimp only
      split
      · rfl
      · rfl

/-- Vectors that are put in place of those there were, and counted. -/
theorem Sound.replaced (hx : x.Sound elementSize) {v : SparseVectors Code}
    (hfed : v.Fed elementSize x.dimension) (hv : FitsTypes v) (mapped : Bool) :
    ({ x with vectors := some v, vectorsMapped := mapped, numVectors := v.numVectors } :
      DiskSeismicIndex F).Sound elementSize where
  toFed := ⟨hx.dimension, fun _ hv' => Option.some.inj hv' ▸ hfed⟩
  fits _ hv' := Option.some.inj hv' ▸ hv
  lists := hx.lists
  summaries := hx.summaries
  listCount := hx.listCount
  count _ hv' := Option.some.inj hv' ▸ rfl
  few := hv.size
  mapped _ := Option.some_ne_none v
  blank hnone := absurd hnone (Option.some_ne_none v)

/-- Without a dimension nothing was there to count. -/
theorem Sound.uncounted (hx : x.Sound elementSize) (hnone : x.vectors = none)
    (hdim : x.dimension = 0) : ({ x with numVectors := 0 } : DiskSeismicIndex F).Sound elementSize where
  toFed := hx.toFed
  fits := hx.fits
  lists := hx.lists
  summaries := hx.summaries
  listCount := hx.listCount
  count v hv := absurd (hnone.symm.trans hv) (Option.some_ne_none v).symm
  few := Nat.two_pow_pos 31
  mapped := hx.mapped
  blank _ _ :=
    have hblank := hx.blank hnone (.inr hdim)
    ⟨hblank.lists, hblank.blocks, hblank.docLocators, hblank.remainder⟩

/-- However adding rows ends. -/
theorem Sound.addRows {format : CodeFormat F} (hx : x.Sound format.elementSize) {n : ℤ}
    {indptr indices : List ℕ} {values : List F} (hn : 0 < n) (hlen : indptr.length = n.toNat + 1)
    (hpair : indices.length = values.length)
    (hfits : ∀ v, (x.addRows format n indptr indices values).1.vectors = some v → FitsTypes v) :
    (x.addRows format n indptr indices values).1.Sound format.elementSize := by
  rcases hx.addRows_cases n indptr hpair with
    ⟨e, heq⟩ | ⟨hnone, hdim, e, heq⟩ | ⟨before, v, hto, hadd, heq⟩
  · rw [heq]
    exact hx
  · rw [heq]
    exact hx.uncounted hnone hdim
  · have hcount : before.numVectors + n.toNat = v.numVectors := by
      rw [SparseVectors.numVectors_of_addVectors hadd, hlen]
      rfl
    have hv : FitsTypes v := hfits v (by rw [heq])
    rw [heq, hcount]
    exact hx.replaced (hx.toFed.addVectors hto (by omega) hadd hv.wellFormed) hv x.vectorsMapped

/-- Counting again finds the same count. -/
theorem countAgain_of_sound {r : DiskSeismicIndex F × Except Exception Unit}
    (h : r.1.Sound elementSize) : countAgain r = r := by
  obtain ⟨x, e | ⟨⟩⟩ := r
  · rfl
  · have hcount : x.vectors.elim x.numVectors SparseVectors.numVectors = x.numVectors := by
      rcases hv : x.vectors with - | v
      · rfl
      · exact (h.count v hv).symm
    show ({ x with numVectors := x.vectors.elim x.numVectors SparseVectors.numVectors }, _) = _
    rw [hcount]

section Build

variable [Mul F] [FloatFormat F] [Zero F] [Add F] [Sub F] [LT F] [DecidableLT F] {rng : Rng}
  {sort : StdSort}

/-- However `build` ends. -/
theorem build_sound (env : SpillEnv) (entropy : ℕ) (hx : x.Sound elementSize)
    (hwidth : elementSize = U32 ∨ elementSize = U16 ∨ elementSize = U8) :
    (x.build env rng sort entropy).1.Sound elementSize := by
  have hrange := hx.inRange hwidth
  obtain ⟨spill, e, heq⟩ | ⟨spill, lists, region, -, heq⟩ := x.build_cases rng sort env entropy
  · -- at most a scratch file is new
    have hblank := hx.blank
    rw [heq]
    exact
      { toFed := ⟨hx.dimension, hx.vectors⟩
        fits := hx.fits
        lists := hx.lists
        summaries := hx.summaries
        listCount := hx.listCount
        count := hx.count
        few := hx.few
        mapped := hx.mapped
        blank := fun hnone hzero =>
          ⟨(hblank hnone hzero).lists, (hblank hnone hzero).blocks, (hblank hnone hzero).docLocators,
            (hblank hnone hzero).remainder⟩ }
  · have hseismic : x.toSeismicIndex.build env rng sort entropy
        = ({ x.toSeismicIndex with
              clusteredInvertedLists := lists
              borrows := region
              batchSpill := spill }, .ok ()) := by
      rw [build] at heq
      obtain ⟨hstate, hok⟩ := Prod.mk.inj heq
      exact Prod.ext (congrArg DiskSeismicIndex.toSeismicIndex hstate) hok
    have hstorable := SeismicIndex.build_storable hx.toFed hrange hwidth hseismic
    obtain ⟨-, -, hlists⟩ := SeismicIndex.build_lists hx.toFed hrange hseismic
    rw [heq]
    refine
      { toFed := ⟨hx.dimension, hx.vectors⟩
        fits := hx.fits
        lists := hstorable.lists
        summaries := fun l hl hn => ?_
        listCount := hstorable.count
        count := hx.count
        few := hx.few
        mapped := hx.mapped
        blank := fun hnone hzero => ?_ }
    · cases hlists with
      | none hnone hempty =>
          replace hempty : lists = _ := hempty
          rw [hempty] at hl
          rw [List.eq_of_mem_replicate hl] at hn
          exact absurd hn (lt_irrefl 0)
      | some v hsome hstored hclustered =>
          replace hclustered : lists = _ := hclustered
          rw [hclustered] at hl
          obtain ⟨i, -, rfl⟩ := List.mem_map.mp hl
          rw [elementSize_clusteredList rng sort hstored.width]
          exact (hx.vectors v hsome).width
    · obtain ⟨-, hblocks, hlocators, hremainder⟩ := hx.blank hnone hzero
      refine ⟨fun l hl => ?_, hblocks, hlocators, hremainder⟩
      cases hlists with
      | none _ hempty =>
          replace hempty : lists = _ := hempty
          rw [hempty] at hl
          rw [List.eq_of_mem_replicate hl]
          rfl
      | some v hsome _ _ => exact absurd (hsome.symm.trans hnone) (Option.some_ne_none v)

/-- **Whatever is called**, and however it ends. -/
theorem call_sound {format : CodeFormat F} (hx : x.Sound format.elementSize) (c : CorpusCall F)
    (hfits : ∀ v, (x.call rng sort format c).1.vectors = some v → FitsTypes v) :
    (x.call rng sort format c).1.Sound format.elementSize := by
  have hends := call_ends rng sort format x c
  generalize x.call rng sort format c = r at hends hfits ⊢
  cases hends with
  | refused e => exact hx
  | adds n indptr indices values hn hlen hpair => exact hx.addRows hn hlen hpair hfits
  | reads n indptr indices values hn hlen hpair =>
      have hadded : (x.addRows format n indptr indices values).1.Sound format.elementSize := by
        refine hx.addRows hn hlen hpair fun v hv => hfits v ?_
        rw [vectors_countAgain]
        exact hv
      rw [countAgain_of_sound hadded]
      exact hadded
  | maps path file v cursor hnone hread =>
      exact hx.replaced (CsrLayout.readMcsr_fed hread) (hfits v rfl) true
  | builds env entropy => exact build_sound env entropy hx format.width

end Build

/-! ### In memory alone -/

/-- The index without what was mapped of a file. -/
def unmapped (x : DiskSeismicIndex F) : DiskSeismicIndex F :=
  { x with fwd := .empty, docLocators := [], remainder := .default }

/-- The file of an index does not tell them apart. -/
theorem Reloads.unmapped (h : y.Reloads elementSize x) : y.Reloads elementSize x.unmapped :=
  ⟨h.dimension, h.count, h.vectors, h.mirrors⟩

/-- Of an index that counts no documents nothing is mapped. -/
theorem Reloads.blank (h : y.Reloads elementSize x) (hlists : ∀ l ∈ x.clusteredInvertedLists,
      l.nClusters = 0) (hnone : (x.writtenVectors elementSize).numVectors = 0) : y.Blank := by
  refine ⟨fun l hl => ?_, fun pl block => ?_, ?_, ?_⟩
  · rw [h.mirrors.summaries] at hl
    obtain ⟨whole, hwhole, rfl⟩ := List.mem_map.mp hl
    exact hlists whole hwhole
  · obtain ⟨source, -, hsource, -, hrestored⟩ := h.mirrors.forward
    apply hrestored.absent
    rw [clusterOf, hsource]
    rcases hl : x.clusteredInvertedLists[pl]? with - | l
    · rfl
    · have hn := hlists l (List.mem_of_getElem? hl)
      exact if_neg (by rw [hn]; exact Nat.not_lt_zero block)
  · exact List.length_eq_zero_iff.mp (h.mirrors.holdsDocs.1.trans hnone)
  · obtain ⟨remainder, hcollected, heq⟩ := h.mirrors.directory
    have hle : remainder.numVectors ≤ 0 + (locateDocs _ _).length := hcollected.numVectors_le
    rw [(locateDocs_spec _ _).2, hnone] at hle
    rw [heq, if_pos (Nat.le_zero.mp hle)]

end DiskSeismicIndex

/-! ### Files of an index -/

section Saved

variable [Zero F] [One F] [Neg F] [Add F] [Sub F] [Mul F] [LinearOrder F] [FloatFormat F]
  {kind : DiskKind F} {rng : Rng} {sort : StdSort} {x y : DiskSeismicIndex F} {bytes : Bytes}

namespace DiskKind

omit [One F] [Neg F] [Add F] in
/-- Both kinds write the header of their format and then the payload. -/
theorem write_eq (kind : DiskKind F) (x : DiskSeismicIndex F) :
    (kind.stored x).write [] = x.writePayload kind.format
      (SeismicIndex.writeHeader kind.format.name kind.format.formatVersion x.dimension []) := by
  cases kind with
  | float => rfl
  | quantized sq => rfl

omit [Zero F] [One F] [Neg F] [Add F] [Sub F] [Mul F] in
theorem stored_injective (kind : DiskKind F) : Function.Injective kind.stored := by
  intro x y h
  cases kind with
  | float => exact StoredIndex.diskSeismic.inj h
  | quantized sq => exact (StoredIndex.diskSeismicSQ.inj h).2

omit [One F] [Neg F] [Add F] in
/-- What it writes of an index that can be stored. -/
theorem payload_of_write {kind : DiskKind F} (hx : x.Storable kind.format.elementSize)
    (hw : (kind.stored x).write [] = .ok bytes) (hsize : bytes.length < 2 ^ 63) :
    ∃ body locators remainder, x.Written kind.format.elementSize body locators remainder ∧
      bytes = x.sections body locators remainder (kind.format.writePayloadHeader
        (SeismicIndex.writeHeader kind.format.name kind.format.formatVersion x.dimension [])) := by
  rw [kind.write_eq] at hw
  obtain ⟨body, locators, remainder, hwritten, hwrite⟩ :=
    DiskSeismicIndex.writePayload_eq_ok hx hw hsize
  rw [hwrite] at hw
  exact ⟨body, locators, remainder, hwritten, (Except.ok.inj hw).symm⟩

omit [Neg F] [Add F] in
/-- **A file that is loaded** names few enough lists and counts the documents it locates. -/
theorem saveable_of_loaded (hx : x.Sound kind.format.elementSize)
    (hw : (kind.stored x).write [] = .ok bytes) (hsize : bytes.length < 2 ^ 63) {page : ℕ}
    {result : StoredIndex F × Cursor} (hread : mapIndex (4096 * page) ⟨bytes, 0⟩ = .ok result) :
    x.clusteredInvertedLists.length ≤ 2 ^ 16 ∧
      x.numVectors = (x.writtenVectors kind.format.elementSize).numVectors := by
  have hsmall : x.numVectors < 2 ^ 64 := hx.few.trans (by decide)
  have hshort : x.clusteredInvertedLists.length ≤ 2 ^ 16 := by
    by_contra hlong
    rw [kind.write_eq] at hw
    obtain ⟨source, body, hsource, hbody, hfront⟩ := DiskSeismicIndex.writePayload_front hw
    have hrefuses := DiskSeismicIndex.frontSections_refuses (hx.seismicStorable kind.format.width)
      hsmall (not_le.mp hlong) hsource hbody (hfront.length_le.trans_lt hsize) page
    exact kind.mapIndex_refuses hx.dimension (x.frontSections_appends body) hrefuses hfront
      result hread
  refine ⟨hshort, ?_⟩
  by_contra hne
  have hstorable := hx.storable kind.format.width hshort
  obtain ⟨body, locators, remainder, hwritten, rfl⟩ := payload_of_write hstorable hw hsize
  have hrefuses := hwritten.refuses hstorable hne hsmall hsize page
  refine kind.mapIndex_refuses hx.dimension ?_ hrefuses List.prefix_rfl result hread
  have hdirectory : Appends (directorySections locators.length locators remainder) :=
    (padTo_appends _).andThen <| (writeScalar_appends _ _).andThen <|
      (writePadded_appends _ _ _).andThen remainder.serialize_appends
  exact (x.frontSections_appends body).andThen hdirectory

omit [Neg F] [Add F] in
/-- What a file is loaded as was saved in it. -/
theorem reloads_of_loaded (hx : x.Sound kind.format.elementSize)
    (hw : (kind.stored x).write [] = .ok bytes) (hsize : bytes.length < 2 ^ 63) {page : ℕ}
    {c : Cursor} (hread : mapIndex (4096 * page) ⟨bytes, 0⟩ = .ok (kind.stored y, c)) :
    y.Reloads kind.format.elementSize x := by
  obtain ⟨hshort, hcount⟩ := saveable_of_loaded hx hw hsize hread
  obtain ⟨y', hread', hreloads⟩ :=
    DiskKind.mapped (hx.storable kind.format.width hshort) hcount hw hsize page
  have heq := Except.ok.inj (hread.symm.trans hread')
  obtain rfl := kind.stored_injective (Prod.mk.inj heq).1
  exact hreloads

omit [Neg F] [Add F] in
/-- A file of a sound index is loaded as one. -/
theorem loaded_sound (hx : x.Sound kind.format.elementSize)
    (hw : (kind.stored x).write [] = .ok bytes) (hsize : bytes.length < 2 ^ 63) {page : ℕ}
    {c : Cursor} (hread : mapIndex (4096 * page) ⟨bytes, 0⟩ = .ok (kind.stored y, c)) :
    y.Sound kind.format.elementSize := by
  obtain ⟨hshort, -⟩ := saveable_of_loaded hx hw hsize hread
  have hreloads := reloads_of_loaded hx hw hsize hread
  have hstorable := hreloads.storable (hx.storable kind.format.width hshort)
  have hmapped : y.vectorsMapped = false := by
    obtain ⟨dim, p, rfl⟩ := DiskSeismicIndex.opened_of_mapIndex hread
    rfl
  exact
    { toFed := hstorable.fed
      fits := fun v hv => absurd (hreloads.vectors.symm.trans hv) (Option.some_ne_none v).symm
      lists := hstorable.lists
      summaries := hstorable.summaries
      listCount := hstorable.count
      count := fun v hv => absurd (hreloads.vectors.symm.trans hv) (Option.some_ne_none v).symm
      few := hreloads.count ▸ hx.few
      mapped := fun h => absurd (hmapped.symm.trans h) Bool.false_ne_true
      blank := fun _ hzero => by
        rw [hreloads.count, hreloads.dimension] at hzero
        have hnone : x.vectors = none := by
          rcases hzero with hzero | hzero
          · exact hx.vectors_eq_none hzero
          · rcases hv : x.vectors with - | v
            · rfl
            · exact absurd hzero (hx.vectors v hv).positive.ne'
        refine hreloads.blank (hx.blank hnone hzero).lists ?_
        rw [DiskSeismicIndex.writtenVectors, hnone]
        rfl }

/-! ### Saving and loading -/

/-- What a history of calls, saves and loads reaches: a new index, what a call leaves of an index,
however it ends, as long as the offsets of its corpus are in order and the types number it, and what
is mapped from a file that an index wrote. -/
inductive Reached (kind : DiskKind F) (rng : Rng) (sort : StdSort) : DiskSeismicIndex F → Prop
  | new {dim : ℕ} (hdim : dim < 2 ^ 31) (parameter : SeismicClusterParameters F) :
      Reached kind rng sort (DiskSeismicIndex.new dim parameter)
  | called {x : DiskSeismicIndex F} (h : Reached kind rng sort x)
      (c : DiskSeismicIndex.CorpusCall F)
      (fits : ∀ v, (x.call rng sort kind.format c).1.vectors = some v →
        DiskSeismicIndex.FitsTypes v) :
      Reached kind rng sort (x.call rng sort kind.format c).1
  | loaded {x y : DiskSeismicIndex F} {bytes : Bytes} {page : ℕ} {c : Cursor}
      (h : Reached kind rng sort x) (write : (kind.stored x).write [] = .ok bytes)
      (size : bytes.length < 2 ^ 63)
      (read : mapIndex (4096 * page) ⟨bytes, 0⟩ = .ok (kind.stored y, c)) : Reached kind rng sort y

omit [Neg F] in
theorem Reached.sound (h : kind.Reached rng sort x) : x.Sound kind.format.elementSize := by
  induction h with
  | new hdim parameter => exact DiskSeismicIndex.new_sound hdim parameter
  | called h c fits ih => exact DiskSeismicIndex.call_sound ih c fits
  | loaded h write size read ih => exact loaded_sound ih write size read

end DiskKind

end Saved

/-! ### Runs -/

open DiskSeismicIndex

namespace DiskKind

end DiskKind

end Nsparse
