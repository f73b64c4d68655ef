/-
Nsparse/DiskReload.lean

A disk index that was written and mapped again.

`Mirrors` says what the mapped index holds of the one that was written: the summaries of
its lists, a block for each cluster, and a locator for each document.  Through it every
document is found again (`Mirrors.holdsDocs`).
-/
import Nsparse.DocDirectory
import Nsparse.ExactMatch

namespace Nsparse

open Wire

variable {F : Type}

/-- What a file keeps of the lists of an index and of its vectors. -/
structure DiskSeismicIndex.Mirrors (y : DiskSeismicIndex F) (lists : List InvertedListClusters)
    (vectors : SparseVectors Code) : Prop where
  summaries : y.clusteredInvertedLists = lists.map InvertedListClusters.summariesOnly
  forward : ∃ x : InlineForwardSource, x.Writable ∧ x.lists = lists ∧ x.vectors = vectors ∧
    x.Restored y.fwd
  directory : ∃ remainder, Collected vectors 0 (locateDocs vectors.numVectors lists)
      ⟨vectors.elementSize, vectors.dimension, [], [], []⟩ remainder y.docLocators ∧
    y.remainder = if remainder.numVectors = 0 then .default else remainder
  clusters : ∀ l ∈ lists, l.nClusters < 2 ^ 31
  count : vectors.numVectors < 2 ^ 31

/-! ### Rows -/

/-- A row of the remainder, read from its bytes. -/
theorem DiskSeismicIndex.remainderRow_eq (y : DiskSeismicIndex F) {elementSize r : ℕ}
    (hwf : y.remainder.WellFormed)
    (hcodes : ∀ code ∈ y.remainder.values, code.length = elementSize)
    (hr : r < y.remainder.numVectors) : y.remainderRow elementSize r = y.remainder.row r := by
  have hlen : (y.remainder.valsOf r).length = y.remainder.nnzOf r := hwf.length_valsOf hr
  set start := y.remainder.indptr.getD r 0 with hstart
  have hvals : ∀ code ∈ y.remainder.valsOf r, code.length = elementSize := fun code hcode =>
    hcodes code (List.mem_of_mem_drop (List.mem_of_mem_take hcode))
  have htake : ∀ code ∈ y.remainder.values.take start, code.length = elementSize :=
    fun code hcode => hcodes code (List.mem_of_mem_take hcode)
  -- the bytes from the start of the row are those of the row and of what follows
  have hbytes : y.remainder.values.flatten.drop (start * elementSize)
      = (y.remainder.valsOf r).flatten
        ++ ((y.remainder.values.drop start).drop (y.remainder.nnzOf r)).flatten := by
    rw [← List.flatten_append, SparseVectors.valsOf, Int.toNat_natCast, ← hstart,
      List.take_append_drop]
    have hsplit : y.remainder.values.flatten
        = (y.remainder.values.take start).flatten ++ (y.remainder.values.drop start).flatten := by
      rw [← List.flatten_append, List.take_append_drop]
    by_cases hle : start ≤ y.remainder.values.length
    · rw [hsplit, List.drop_left']
      rw [SparseVectors.length_flatten_codes htake, List.length_take, min_eq_left hle]
    · rw [List.drop_eq_nil_of_le (by
        rw [SparseVectors.length_flatten_codes hcodes]
        exact Nat.mul_le_mul_right _ (by omega)), List.drop_eq_nil_of_le (by omega)]
      rfl
  rw [remainderRow, ← hstart, hbytes, ← hlen, SparseVectors.codesOf_flatten_append hvals,
    ← SparseVectors.docRow_eq_zip]
  rfl

/-- A document of a block. -/
theorem rowAt_eq {fwd : InlineForwardIndex} {view : BlockView} {vectors : SparseVectors Code}
    {docs : List ℤ} (h : view.Holds fwd.mapping vectors docs) {i : ℕ} (hi : i < docs.length) :
    fwd.rowAt vectors.elementSize view i = docRow vectors docs[i] := by
  rw [InlineForwardIndex.rowAt, h.comps i hi, h.vals i hi, ← SparseVectors.docRow_eq_zip]

/-! ### Documents -/

theorem clusterOf_of_mem_blocksOf {lists : List InvertedListClusters} {b : InlineBlock}
    (hb : b ∈ blocksOf lists) :
    clusterOf lists b.pl b.block = some b.docs ∧ b.pl < lists.length ∧
      ∃ l ∈ lists, b.block < l.nClusters := by
  obtain ⟨⟨l, pl⟩, hl, hb⟩ := List.mem_flatMap.mp hb
  obtain ⟨block, hblock, rfl⟩ := List.mem_map.mp hb
  have hget : lists[pl]? = some l := List.mem_zipIdx_iff_getElem?.mp hl
  have hlt : block < l.nClusters := List.mem_range.mp hblock
  refine ⟨?_, (List.getElem?_eq_some_iff.mp hget).1, l, List.mem_of_getElem? hget, hlt⟩
  show lists[pl]?.bind _ = _
  rw [hget]
  exact if_pos hlt

variable {y : DiskSeismicIndex F} {lists : List InvertedListClusters}
  {vectors : SparseVectors Code}

/-- A locator into the remainder. -/
theorem DiskSeismicIndex.getDoc_remainder {d r : ℕ} (elementSize : ℕ)
    (hloc : y.docLocators[d]? = some ⟨DocLocator.kRemainder, r, 0⟩)
    (hr : r < y.remainder.numVectors) :
    y.getDoc d elementSize = .ok (y.remainderRow elementSize r) := by
  unfold getDoc
  rw [Int.toNat_natCast, List.getD_eq_getElem?_getD, hloc]
  exact (if_pos rfl).trans (if_neg (not_le.mpr hr))

/-- A locator to a slot that lists its document. -/
theorem DiskSeismicIndex.getDoc_block {d pl block slot : ℕ} (elementSize : ℕ)
    (hloc : y.docLocators[d]? = some ⟨pl, block, slot⟩) (hpl : pl ≠ DocLocator.kRemainder)
    {view : BlockView} (hview : y.fwd.block pl block = .ok (some view))
    (hid : (view.docIdList y.fwd.mapping)[slot]? = some d) :
    y.getDoc d elementSize = .ok (y.fwd.rowAt elementSize view slot) := by
  unfold getDoc
  rw [Int.toNat_natCast, List.getD_eq_getElem?_getD, hloc]
  refine (if_neg hpl).trans ?_
  show (y.fwd.block pl block).bind _ = _
  rw [hview]
  exact if_pos hid

/-- **Every document is found again**, in a block or in the remainder. -/
theorem DiskSeismicIndex.Mirrors.holdsDocs (h : y.Mirrors lists vectors) :
    y.HoldsDocs vectors.elementSize vectors := by
  obtain ⟨x, hx, rfl, rfl, hrestored⟩ := h.forward
  obtain ⟨remainder, hcollected, hremainder⟩ := h.directory
  obtain ⟨hlocated, hlen⟩ := locateDocs_spec x.vectors.numVectors x.lists
  refine ⟨hcollected.length.trans hlen, fun d hd => ?_⟩
  have hfound : d < (locateDocs x.vectors.numVectors x.lists).length := hlen.symm ▸ hd
  rcases hloc : (locateDocs x.vectors.numVectors x.lists)[d] with - | loc
  · -- in the remainder
    obtain ⟨r, hrow, hlocator⟩ := hcollected.moved d
      ((List.getElem?_eq_getElem hfound).trans (congrArg some hloc))
    have hr : r < remainder.numVectors := by
      have hlt := (List.getElem?_eq_some_iff.mp hrow).1
      rwa [SparseVectors.rows_eq_map_row, List.length_map, List.length_range] at hlt
    have hkept : y.remainder = remainder := by
      rw [hremainder, if_neg (Nat.ne_of_gt (Nat.zero_lt_of_lt hr))]
    have hsmall : r % 2 ^ 32 = r := by
      have hle : remainder.numVectors ≤ 0 + (locateDocs _ _).length := hcollected.numVectors_le
      have := h.count
      exact Nat.mod_eq_of_lt (by omega)
    rw [hsmall] at hlocator
    rw [y.getDoc_remainder _ hlocator (hkept.symm ▸ hr), y.remainderRow_eq]
    · rw [SparseVectors.rows_eq_map_row, List.getElem?_map, List.getElem?_range hr, Nat.zero_add]
        at hrow
      exact congrArg Except.ok (hkept.symm ▸ Option.some.inj hrow)
    · exact hkept.symm ▸ hcollected.wellFormed
    · intro code hcode
      rw [hkept] at hcode
      rcases hcollected.codes code hcode with hcode | hcode
      · cases hcode
      · exact hx.encodable.codes code hcode
    · exact hkept.symm ▸ hr
  · -- in a block
    have hsome : (locateDocs x.vectors.numVectors x.lists)[d]? = some (some loc) :=
      (List.getElem?_eq_getElem hfound).trans (congrArg some hloc)
    obtain ⟨b, hb, slot, hslot, rfl⟩ := hlocated d loc hsome
    obtain ⟨hcluster, hpl, l, hl, hblock⟩ := clusterOf_of_mem_blocksOf hb
    obtain ⟨hslotlt, hdoc⟩ := List.getElem?_eq_some_iff.mp hslot
    have hplsmall : b.pl < 2 ^ 16 := lt_of_lt_of_le hpl hx.lists
    have hblocksmall : b.block < 2 ^ 31 := hblock.trans (h.clusters l hl)
    have hslotsmall : slot < 2 ^ 32 := hslotlt.trans (hx.countable b hb).count
    obtain ⟨view, hview, hholds⟩ := hrestored.found b.pl b.block b.docs (by omega) hcluster
    have hlocator := hcollected.kept d _ hsome
    rw [locatorOf, Nat.mod_eq_of_lt (show b.pl < 2 ^ 32 by omega),
      Nat.mod_eq_of_lt (show b.block < 2 ^ 32 by omega), Nat.mod_eq_of_lt hslotsmall] at hlocator
    have hne : b.pl ≠ DocLocator.kRemainder := by
      intro heq
      rw [heq] at hplsmall
      exact absurd hplsmall (by decide)
    have hid : (view.docIdList y.fwd.mapping)[slot]? = some d := by
      have hids : ((view.docIdList y.fwd.mapping).map fun n : ℕ => (n : ℤ))[slot]? = some (d : ℤ) :=
        hholds.docIds.symm ▸ hslot
      rw [List.getElem?_map, Option.map_eq_some_iff] at hids
      obtain ⟨n, hn, hcast⟩ := hids
      rw [hn, Int.ofNat_inj.mp hcast]
    rw [y.getDoc_block _ hlocator hne hview hid, rowAt_eq hholds hslotlt, hdoc]

end Nsparse
