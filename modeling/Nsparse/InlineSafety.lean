/-
Nsparse/InlineSafety.lean

The inline forward index fails closed.

Whatever the bytes are, an index that `mmapDeserialize` accepts has a directory whose
entries lie inside its section (`Loaded`), and a block that `viewBlock` accepts has its
four arrays inside its entry, aligned, with offsets that begin at 0 and never decrease.
The reader's arithmetic is that of 64-bit words; what it computes from the numbers in
the file never wraps, because those numbers have 32 bits.
-/
import Nsparse.InlineForward

namespace Nsparse

open Wire

theorem readAt_u32_lt (data : Bytes) (pos : ℕ) : u32Codec.readAt data pos < 2 ^ 32 := by
  have hlt := leNat_lt ((data.drop pos).take 4)
  have hlen : ((data.drop pos).take 4).length ≤ 4 := by
    rw [List.length_take]
    exact min_le_left _ _
  calc u32Codec.readAt data pos
      < 256 ^ ((data.drop pos).take 4).length := hlt
    _ ≤ 256 ^ 4 := Nat.pow_le_pow_right (by decide) hlen
    _ = 2 ^ 32 := by norm_num

namespace InlineForwardIndex

/-! ### The directory -/

/-- An entry that lies in front of the directory, behind the header. -/
structure EntryInside (dirOffset : ℕ) (entry : InlineDirEntry) : Prop where
  count : 4 ≤ entry.len
  aligned : 8 ∣ entry.byteOff
  inside : entry.byteOff + entry.len ≤ dirOffset

theorem corruptEntry_eq_false {numLists dirOffset : ℕ} {entry : InlineDirEntry}
    (h : corruptEntry numLists dirOffset entry = false) :
    entry.pl < numLists ∧ EntryInside dirOffset entry := by
  unfold corruptEntry kInlineBlockPrefixSize kMinBlockAlign at h
  simp only [Bool.or_eq_false_iff, decide_eq_false_iff_not, bne_eq_false_iff_eq, not_le,
    not_lt] at h
  obtain ⟨⟨⟨⟨⟨hpl, hlen⟩, halign⟩, -⟩, hoff⟩, hinside⟩ := h
  exact ⟨hpl, hlen, Nat.dvd_of_mod_eq_zero halign, by omega⟩

/-- Every entry that the loop over the directory passes is inside. -/
theorem checkEntries_eq_ok {numLists dirOffset : ℕ} {prev : Option (ℕ × ℕ)}
    {entries : List InlineDirEntry} (h : checkEntries numLists dirOffset prev entries = .ok ()) :
    ∀ entry ∈ entries, entry.pl < numLists ∧ EntryInside dirOffset entry := by
  induction entries generalizing prev with
  | nil => exact fun entry hentry => absurd hentry List.not_mem_nil
  | cons entry entries ih =>
      rw [checkEntries] at h
      split at h
      · cases h
      · rename_i hcorrupt
        split at h
        · cases h
        · split at h
          · cases h
          · refine List.forall_mem_cons.mpr ⟨?_, ih h⟩
            exact corruptEntry_eq_false (by simpa using hcorrupt)

/-- What the load has made sure of: the section from `blockBase` to `fin` begins aligned, its width
is one of three, its directory names blocks inside it, and every list has its part of the
directory. -/
structure Loaded (fwd : InlineForwardIndex) (fin : ℕ) : Prop where
  base : 8 ∣ fwd.blockBase
  width : BlockWidth fwd.elementSize
  entries : ∀ entry ∈ fwd.entries, 4 ≤ entry.len ∧ 8 ∣ entry.byteOff ∧
    fwd.blockBase + entry.byteOff + entry.len ≤ fin
  listOffset : ∃ numLists, fwd.listOffset = CountingSort.offsets numLists (fwd.entries.map (·.pl))

theorem loadDirectory_eq_ok {mapping : Bytes} {base sectionLen : ℕ} {fwd : InlineForwardIndex}
    (h : loadDirectory mapping base sectionLen = .ok fwd) :
    fwd.mapping = mapping ∧ fwd.blockBase = base ∧ Loaded fwd (base + sectionLen) := by
  unfold loadDirectory at h
  dsimp only at h
  split at h; · cases h
  rename_i hlen
  split at h; · cases h
  rename_i halign
  split at h; · cases h
  rename_i hwidth
  split at h; · cases h
  split at h; · cases h
  rename_i htrailer
  split at h; · cases h
  split at h; · cases h
  split at h
  · cases h
  · rename_i hcheck
    cases h
    have hentries := checkEntries_eq_ok hcheck
    refine ⟨rfl, rfl, ⟨?_, ?_, fun entry hentry => ?_, ⟨_, rfl⟩⟩⟩
    · exact Nat.dvd_of_mod_eq_zero (not_not.mp halign)
    · unfold BlockWidth
      dsimp only
      omega
    · obtain ⟨-, hcount, hoff, hinside⟩ := hentries entry hentry
      refine ⟨hcount, hoff, ?_⟩
      dsimp only
      omega

/-- A load that succeeds has found a section inside the mapping. -/
theorem mmapDeserialize_eq_ok {cursor next : Cursor} {fwd : InlineForwardIndex}
    (h : mmapDeserialize cursor = .ok (fwd, next)) :
    fwd.mapping = cursor.data ∧ next.data = cursor.data ∧ next.pos ≤ cursor.data.length ∧
      cursor.pos ≤ fwd.blockBase ∧ fwd.blockBase ≤ next.pos ∧ Loaded fwd next.pos := by
  obtain ⟨⟨⟩, c₁, hskip, h⟩ := Reader.bind_eq_ok h
  obtain ⟨sectionLen, c₂, hscalar, h⟩ := Reader.bind_eq_ok h
  have h₁ : c₁.data = cursor.data ∧ cursor.pos ≤ c₁.pos := by
    unfold skipPadding skip at hskip
    rw [if_neg (by decide)] at hskip
    split at hskip
    · cases hskip
    · cases hskip
      exact ⟨rfl, Nat.le_add_right _ _⟩
  have h₂ : c₂.data = c₁.data ∧ c₁.pos ≤ c₂.pos ∧ c₂.pos ≤ c₂.data.length := by
    unfold readScalar at hscalar
    split at hscalar
    · cases hscalar
    · rename_i hroom
      cases hscalar
      refine ⟨rfl, Nat.le_add_right _ _, ?_⟩
      have hw : sizeCodec.width = 8 := rfl
      rw [Cursor.remaining, hw] at hroom
      dsimp only
      rw [hw]
      omega
  split at h
  · cases h
  · rename_i hroom
    cases hload : loadDirectory c₂.data c₂.pos sectionLen with
    | error e =>
        rw [hload] at h
        cases h
    | ok x =>
        rw [hload, skip, if_neg hroom] at h
        cases h
        obtain ⟨hmapping, hbase, hloaded⟩ := loadDirectory_eq_ok hload
        rw [Cursor.remaining] at hroom
        have hle : c₂.pos + sectionLen ≤ cursor.data.length := by
          rw [← h₁.1, ← h₂.1]
          omega
        refine ⟨hmapping.trans (h₂.1.trans h₁.1), h₂.1.trans h₁.1, hle, ?_, ?_, hloaded⟩
        · rw [hbase]
          exact h₁.2.trans h₂.2.1
        · rw [hbase]
          exact Nat.le_add_right _ _

/-- A block that a list has is an entry of the directory. -/
theorem Loaded.index_lt {fwd : InlineForwardIndex} {fin : ℕ} (h : fwd.Loaded fin) {pl block : ℕ}
    (hblock : block < fwd.numBlocksInList pl) :
    fwd.listOffset.getD pl 0 + block < fwd.entries.length := by
  obtain ⟨numLists, hoffset⟩ := h.listOffset
  unfold numBlocksInList at hblock
  split at hblock
  · omega
  · rename_i hpl
    rw [hoffset, CountingSort.length_offsets] at hpl
    rw [hoffset, CountingSort.getD_offsets (by omega), CountingSort.getD_offsets (by omega)]
      at hblock
    have htotal : (fwd.entries.map (·.pl)).countP (· < pl + 1) ≤ (fwd.entries.map (·.pl)).length :=
      List.countP_le_length
    rw [List.length_map] at htotal
    rw [hoffset, CountingSort.getD_offsets (by omega)]
    omega

/-! ### The blocks -/

/-- The arrays of a view lie between `lo` and `fin` of the mapping, each on a boundary for its
elements, their sizes are computed without wrapping, and the offsets cut the components and the
values into rows. -/
structure ViewInside (mapping : Bytes) (elementSize lo fin : ℕ) (view : BlockView) : Prop where
  docIds : lo ≤ view.docIds ∧ view.docIds + 4 * view.nDocs ≤ fin ∧ 4 ∣ view.docIds
  offsets : lo ≤ view.offsets ∧ view.offsets + 4 * (view.nDocs + 1) ≤ fin ∧ 4 ∣ view.offsets
  comps : lo ≤ view.comps ∧ view.comps + 2 * view.offset mapping view.nDocs ≤ fin ∧ 2 ∣ view.comps
  vals : lo ≤ view.vals ∧ view.vals + elementSize * view.offset mapping view.nDocs ≤ fin ∧
    elementSize ∣ view.vals
  first : view.offset mapping 0 = 0
  mono : ∀ i < view.nDocs, view.offset mapping i ≤ view.offset mapping (i + 1)
  exact : inlineBlockOffsets view.nDocs (view.offset mapping view.nDocs) elementSize =
    ⟨4, 4 + view.nDocs * 4, compsStart view.nDocs,
      valsStart view.nDocs (view.offset mapping view.nDocs) elementSize,
      valsStart view.nDocs (view.offset mapping view.nDocs) elementSize +
        view.offset mapping view.nDocs * elementSize⟩

/-- Offsets that never decrease stay below the last. -/
theorem ViewInside.offset_le {mapping : Bytes} {elementSize lo fin : ℕ} {view : BlockView}
    (h : ViewInside mapping elementSize lo fin view) {i : ℕ} (hi : i ≤ view.nDocs) :
    view.offset mapping i ≤ view.offset mapping view.nDocs := by
  have key : ∀ k, i + k ≤ view.nDocs →
      view.offset mapping i ≤ view.offset mapping (i + k) := by
    intro k
    induction k with
    | zero => exact fun _ => le_rfl
    | succ k ih => exact fun hk => (ih (by omega)).trans (h.mono (i + k) (by omega))
  have := key (view.nDocs - i) (by omega)
  rwa [Nat.add_sub_cancel' hi] at this

theorem getElem?_offsetsAt (fwd : InlineForwardIndex) {pos nDocs i : ℕ} (h : i ≤ nDocs) :
    (fwd.offsetsAt pos nDocs)[i]? = some (u32Codec.readAt fwd.mapping (pos + 4 * i)) :=
  Codec.getElem?_arrayAt u32Codec (Nat.lt_succ_of_le h) fwd.mapping pos

theorem getD_offsetsAt (fwd : InlineForwardIndex) {pos nDocs i : ℕ} (h : i ≤ nDocs) :
    (fwd.offsetsAt pos nDocs).getD i 0 = u32Codec.readAt fwd.mapping (pos + 4 * i) := by
  rw [List.getD_eq_getElem?_getD, fwd.getElem?_offsetsAt h, Option.getD_some]

theorem compsStart_eq (nDocs : ℕ) : compsStart nDocs = 8 + 8 * nDocs := by
  unfold compsStart
  omega

/-- **A block that passes its checks** has its arrays inside its entry. -/
theorem viewBlock_inside {fwd : InlineForwardIndex} {entry : InlineDirEntry} {view : BlockView}
    {fin : ℕ} (hbase : 8 ∣ fwd.blockBase) (hes : BlockWidth fwd.elementSize)
    (hoff : 8 ∣ entry.byteOff) (hfin : fwd.blockBase + entry.byteOff + entry.len ≤ fin)
    (h : fwd.viewBlock entry = .ok view) :
    ViewInside fwd.mapping fwd.elementSize fwd.blockBase fin view := by
  unfold viewBlock at h
  dsimp only at h
  set base := fwd.blockBase + entry.byteOff with hbaseDef
  set nDocs := u32Codec.readAt fwd.mapping base with hnDocs
  have hdocs : nDocs < 2 ^ 32 := readAt_u32_lt _ _
  rw [inlineBlockOffsets_eq hdocs (Nat.two_pow_pos 32) hes] at h
  dsimp only at h
  rw [fwd.getD_offsetsAt le_rfl] at h
  set nnz := u32Codec.readAt fwd.mapping (base + (4 + nDocs * 4) + 4 * nDocs) with hnnzDef
  have hnnz : nnz < 2 ^ 32 := readAt_u32_lt _ _
  rw [inlineBlockOffsets_eq hdocs hnnz hes] at h
  dsimp only at h
  split at h; · cases h
  split at h; · cases h
  rename_i hheader
  split at h; · cases h
  rename_i hfirst
  split at h; · cases h
  rename_i hchain
  split at h
  · cases h
  · rename_i hlen
    cases h
    have hlen := not_not.mp hlen
    have hcomps := compsStart_eq nDocs
    have hvals : compsStart nDocs + nnz * 2 ≤ valsStart nDocs nnz fwd.elementSize :=
      le_alignUp _ _
    have halignedBase : 8 ∣ base := Nat.dvd_add hbase hoff
    have hlo : fwd.blockBase ≤ base := Nat.le_add_right _ _
    refine ⟨?_, ?_, ?_, ?_, ?_, fun i hi => ?_, inlineBlockOffsets_eq hdocs hnnz hes⟩
    · refine ⟨by dsimp only; omega, by dsimp only; omega, ?_⟩
      exact Nat.dvd_add (Nat.dvd_trans (by decide) halignedBase) (dvd_refl 4)
    · refine ⟨by dsimp only; omega, by dsimp only; omega, ?_⟩
      refine Nat.dvd_add (Nat.dvd_trans (by decide) halignedBase) ?_
      exact Nat.dvd_add (dvd_refl 4) (Nat.dvd_mul_left 4 nDocs)
    · refine ⟨by dsimp only; omega, ?_, ?_⟩
      · show base + compsStart nDocs + 2 * nnz ≤ fin
        have := Nat.zero_le (nnz * fwd.elementSize)
        omega
      · refine Nat.dvd_add (Nat.dvd_trans (by decide) halignedBase) ?_
        rw [hcomps]
        omega
    · refine ⟨by dsimp only; omega, ?_, ?_⟩
      · show base + valsStart nDocs nnz fwd.elementSize + fwd.elementSize * nnz ≤ fin
        rw [mul_comm fwd.elementSize]
        omega
      · exact Nat.dvd_add (hes.dvd.trans halignedBase) (dvd_alignUp _ hes.pos)
    · show u32Codec.readAt fwd.mapping (base + (4 + nDocs * 4) + 4 * 0) = 0
      rw [← fwd.getD_offsetsAt (Nat.zero_le nDocs), ← List.headD_eq_getD]
      exact not_not.mp hfirst
    · -- neighbours in the chain
      have hpair := List.isChain_iff_getElem.mp (not_not.mp hchain) i (by
        rw [offsetsAt, Codec.arrayAt, Codec.length_decAll]
        dsimp only at hi
        omega)
      have hget : ∀ j ≤ nDocs, ∀ _ : j < (fwd.offsetsAt (base + (4 + nDocs * 4)) nDocs).length,
          (fwd.offsetsAt (base + (4 + nDocs * 4)) nDocs)[j] = u32Codec.readAt fwd.mapping (base + (4 + nDocs * 4) + 4 * j) := by
        intro j hj hlt
        have : (fwd.offsetsAt (base + (4 + nDocs * 4)) nDocs)[j]?
            = some (u32Codec.readAt fwd.mapping (base + (4 + nDocs * 4) + 4 * j)) :=
          fwd.getElem?_offsetsAt hj
        rwa [List.getElem?_eq_getElem hlt, Option.some_inj] at this
      rw [hget i hi.le, hget (i + 1) hi] at hpair
      exact hpair

/-! ### Every file -/

/-- What `viewBlock` reads of an entry before it has decided about it: the number of documents, and
the offsets once that number left room for them. -/
structure ReadsInside (fwd : InlineForwardIndex) (fin : ℕ) (entry : InlineDirEntry) : Prop where
  count : fwd.blockBase + entry.byteOff + 4 ≤ fin
  offsets : ∀ nDocs < 2 ^ 32, (inlineBlockOffsets nDocs 0 fwd.elementSize).comps ≤ entry.len →
    fwd.blockBase + entry.byteOff + (inlineBlockOffsets nDocs 0 fwd.elementSize).off
      + 4 * (nDocs + 1) ≤ fin

theorem Loaded.readsInside {fwd : InlineForwardIndex} {fin : ℕ} (h : fwd.Loaded fin)
    {entry : InlineDirEntry} (hentry : entry ∈ fwd.entries) : fwd.ReadsInside fin entry := by
  obtain ⟨hcount, -, hfin⟩ := h.entries entry hentry
  refine ⟨by omega, fun nDocs hdocs hcomps => ?_⟩
  rw [inlineBlockOffsets_eq hdocs (Nat.two_pow_pos 32) h.width] at hcomps ⊢
  dsimp only at hcomps ⊢
  rw [compsStart_eq] at hcomps
  omega

/-- The components and the values of document `i` end before `fin`. -/
def RowInside (fwd : InlineForwardIndex) (fin : ℕ) (view : BlockView) (i : ℕ) : Prop :=
  view.comps + 2 * (view.offset fwd.mapping i + view.nnz fwd.mapping i) ≤ fin ∧
  view.vals + fwd.elementSize * (view.offset fwd.mapping i + view.nnz fwd.mapping i) ≤ fin

theorem ViewInside.rowInside {fwd : InlineForwardIndex} {lo fin : ℕ} {view : BlockView}
    (h : ViewInside fwd.mapping fwd.elementSize lo fin view) {i : ℕ} (hi : i < view.nDocs) :
    fwd.RowInside fin view i := by
  have hrow : view.offset fwd.mapping i + view.nnz fwd.mapping i
      = view.offset fwd.mapping (i + 1) := Nat.add_sub_cancel' (h.mono i hi)
  have hnext : i + 1 ≤ view.nDocs := hi
  have hle := h.offset_le hnext
  rw [RowInside, hrow]
  constructor
  · exact (Nat.add_le_add_left (Nat.mul_le_mul_left 2 hle) _).trans h.comps.2.1
  · exact (Nat.add_le_add_left (Nat.mul_le_mul_left fwd.elementSize hle) _).trans h.vals.2.1

/-- What asking for a block does: it reads an entry of the directory and bytes of the section, and
it throws, finds no block, or returns a view of the section. -/
structure BlockSafe (fwd : InlineForwardIndex) (fin pl block : ℕ) : Prop where
  reads : block < fwd.numBlocksInList pl →
    ∃ entry, fwd.entries[fwd.listOffset.getD pl 0 + block]? = some entry ∧
      fwd.ReadsInside fin entry
  result : (∃ e, fwd.block pl block = .error e) ∨ fwd.block pl block = .ok none ∨
    ∃ view, fwd.block pl block = .ok (some view) ∧
      ViewInside fwd.mapping fwd.elementSize fwd.blockBase fin view ∧
      ∀ i < view.nDocs, fwd.RowInside fin view i

theorem Loaded.blockSafe {fwd : InlineForwardIndex} {fin : ℕ} (h : fwd.Loaded fin)
    (pl block : ℕ) : fwd.BlockSafe fin pl block where
  reads hblock := by
    have hlt := h.index_lt hblock
    exact ⟨_, List.getElem?_eq_getElem hlt, h.readsInside (List.getElem_mem hlt)⟩
  result := by
    rw [InlineForwardIndex.block]
    split
    · exact Or.inr (Or.inl rfl)
    · rename_i hblock
      have hlt := h.index_lt (not_le.mp hblock)
      dsimp only
      split
      · exact Or.inr (Or.inl rfl)
      · rw [List.getD_eq_getElem _ _ hlt]
        cases hview : fwd.viewBlock fwd.entries[fwd.listOffset.getD pl 0 + block] with
        | error e => exact Or.inl ⟨e, rfl⟩
        | ok view =>
            obtain ⟨-, hoff, hfin⟩ := h.entries _ (List.getElem_mem hlt)
            have hinside := viewBlock_inside h.base h.width hoff hfin hview
            exact Or.inr (Or.inr ⟨view, rfl, hinside, fun i hi => hinside.rowInside hi⟩)

/-- **The inline forward index fails closed.**  For all bytes the load throws, or it has found a
section inside the mapping, and whichever block is asked for, nothing outside the section is
read. -/
theorem mmapDeserialize_fails_closed (cursor : Cursor) :
    (∃ e, mmapDeserialize cursor = .error e) ∨
      ∃ fwd next, mmapDeserialize cursor = .ok (fwd, next) ∧ fwd.mapping = cursor.data ∧
        cursor.pos ≤ fwd.blockBase ∧ fwd.blockBase ≤ next.pos ∧
        next.pos ≤ cursor.data.length ∧ ∀ pl block, fwd.BlockSafe next.pos pl block := by
  cases h : mmapDeserialize cursor with
  | error e => exact Or.inl ⟨e, rfl⟩
  | ok p =>
      obtain ⟨fwd, next⟩ := p
      obtain ⟨hmapping, -, hend, hlo, hbase, hloaded⟩ := mmapDeserialize_eq_ok h
      exact Or.inr ⟨fwd, next, rfl, hmapping, hlo, hbase, hend, hloaded.blockSafe⟩

end InlineForwardIndex

end Nsparse
