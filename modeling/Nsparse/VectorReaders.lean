/-
Nsparse/VectorReaders.lean

The two readers of a sparse-vector section.

`deserialize` copies a section and checks nothing of what it copies; the mapped reader
checks the dimension, the width and the offsets.  So they agree on a section that the
mapped reader takes, on one in which the copying reader misses bytes of an array
that is not empty, and on hardly any other (`sections_agree_iff`).
-/
import Mathlib.Data.List.GetD
import Nsparse.CopyReader
import Nsparse.VectorStore

namespace Nsparse

open Wire

namespace SparseVectors

/-- `indptr_[i]`; an empty buffer has no address to load from. -/
def loadOffset (indptr : List ℕ) (i : ℕ) : Reader Fault ℕ := fun cursor =>
  match indptr[i]? with
  | none => .error .nullLoad
  | some offset => .ok (offset, cursor)

/-- `deserialize` into `v`, which a count of 0 leaves as it is. -/
def deserialize (io : IOReader) (v : SparseVectors Code) : Reader Fault (SparseVectors Code) :=
  (io.readScalar sizeCodec 0).bind fun vectorCount =>
  if vectorCount = 0 then fun cursor => .ok (v, cursor)
  else
    (io.readScalar sizeCodec 0).bind fun dimension =>
    (io.readScalar sizeCodec 0).bind fun elementSize =>
    (io.readPadded offsetCodec ((vectorCount + 1) % 2 ^ 64) 8).bind fun indptr =>
    (loadOffset indptr vectorCount).bind fun indicesSize =>
    (io.readPadded termCodec indicesSize 2).bind fun indices =>
    (io.readWords indicesSize elementSize).map fun values =>
      ⟨elementSize, dimension, indptr, indices, codesOf elementSize indicesSize values⟩

/-! ### The layout -/

section Layout

variable (data : Bytes) (pos : ℕ)

def countAt : ℕ := sizeCodec.readAt data pos

def dimensionAt : ℕ := sizeCodec.readAt data (pos + 8)

def offsetsAt : List ℕ := offsetCodec.arrayAt data (alignTo (pos + 24) 8) (countAt data pos + 1)

/-- Where the offsets end. -/
def offsetsEnd : ℕ := arrayEnd (pos + 24) 8 (countAt data pos + 1)

/-- The values, as many as the last offset says. -/
def valueSection : WordSection where
  count := (offsetsAt data pos).getD (countAt data pos) 0
  width := sizeCodec.readAt data (pos + 16)
  start := arrayEnd (offsetsEnd data pos) 2 ((offsetsAt data pos).getD (countAt data pos) 0)

/-- What the mapped reader checks. -/
def Valid : Prop :=
  0 < dimensionAt data pos ∧
    ((valueSection data pos).width = U8 ∨ (valueSection data pos).width = U16 ∨
      (valueSection data pos).width = U32 ∨ (valueSection data pos).width = U64) ∧
    (offsetsAt data pos).headD 0 = 0 ∧ (offsetsAt data pos).IsChain (· ≤ ·)

/-- Where the two readers agree.  A count of 0 is there in full.  For any other, either the bytes
end within the offsets or the terms; or the values have no width or more bytes than a `size_t` counts;
or the bytes end within values that there are, and before that no padding overran; or they hold
the section and it is valid. -/
def SectionAgrees : Prop :=
  let s := valueSection data pos
  if countAt data pos = 0 then pos + 8 ≤ data.length
  else
    countAt data pos + 1 < 2 ^ 64 ∧
      (data.length < s.start ∨ s.width = 0 ∨ 2 ^ 64 ≤ s.count * s.width ∨
        (min (padding s.start s.width) (data.length - s.start) ≤ kMaxAlignment ∧ 0 < s.count ∧
          data.length < s.next) ∨
        (Valid data pos ∧ s.next ≤ data.length))

end Layout

/-- A valid layout, and every value has the bytes of its width. -/
structure CsrInvariants (v : SparseVectors Code) : Prop where
  wellFormed : v.WellFormed
  codes : ∀ code ∈ v.values, code.length = v.elementSize

/-! ### The readers on the layout -/

variable {data : Bytes} {pos : ℕ}

theorem eight_dvd_offsetsEnd (data : Bytes) (pos : ℕ) : 8 ∣ offsetsEnd data pos :=
  (dvd_add_padding (pos + 24) (by decide)).add (Dvd.intro_left _ rfl)

theorem le_offsetsEnd (data : Bytes) (pos : ℕ) : pos + 24 + (countAt data pos + 1) * 8 ≤ offsetsEnd data pos :=
  Nat.add_le_add_right (Nat.le_add_right _ _) _

theorem offsetsEnd_le_start : offsetsEnd data pos ≤ (valueSection data pos).start :=
  le_arrayEnd _ _ _

/-- The terms follow the offsets without padding. -/
theorem start_eq (data : Bytes) (pos : ℕ) : (valueSection data pos).start
    = offsetsEnd data pos + (valueSection data pos).count * 2 := by
  have hpad : padding (offsetsEnd data pos) 2 = 0 :=
    padding_eq_zero (Dvd.dvd.trans (by decide) (eight_dvd_offsetsEnd data pos))
  show offsetsEnd data pos + padding (offsetsEnd data pos) 2 + _ = _
  rw [hpad, add_zero]
  rfl

theorem length_offsetsAt (data : Bytes) (pos : ℕ) : (offsetsAt data pos).length = countAt data pos + 1 :=
  Codec.length_decAll _ _ _

/-- A scalar is there in full. -/
theorem scalar_fits (init pos : ℕ) (h : pos + 8 ≤ data.length) (hdata : data.length < 2 ^ 63) :
    IOReader.buffered.readScalar sizeCodec init ⟨data, pos⟩
        = .ok (sizeCodec.readAt data pos, ⟨data, pos + 8⟩) ∧
      readScalar sizeCodec ⟨data, pos⟩ = .ok (sizeCodec.readAt data pos, ⟨data, pos + 8⟩) :=
  (walks_count init (Nat.le_of_add_right_le h)).of_fits (unalarmed_readScalar _ _) hdata h

/-- The counts and the offsets are there in full. -/
theorem readers_eq_of_offsets (v : SparseVectors Code) (hdata : data.length < 2 ^ 63)
    (hcount : countAt data pos ≠ 0) (hmax : countAt data pos + 1 < 2 ^ 64)
    (h : offsetsEnd data pos ≤ data.length) :
    deserialize .buffered v ⟨data, pos⟩
        = ((IOReader.buffered.readPadded termCodec (valueSection data pos).count 2).bind fun indices =>
          (IOReader.buffered.readWords (valueSection data pos).count (valueSection data pos).width).map
            fun values => ⟨(valueSection data pos).width, dimensionAt data pos, offsetsAt data pos,
              indices, codesOf (valueSection data pos).width (valueSection data pos).count values⟩)
          ⟨data, offsetsEnd data pos⟩ ∧
      mmapDeserialize ⟨data, pos⟩
        = ((borrowPadded termCodec (valueSection data pos).count 2).bind fun indices =>
          borrowVectors (valueSection data pos).width (dimensionAt data pos) (offsetsAt data pos)
            indices) ⟨data, offsetsEnd data pos⟩ := by
  have hend := le_offsetsEnd data pos
  obtain ⟨hr₁, hm₁⟩ : _ = Except.ok (countAt data pos, _) ∧ _ = Except.ok (countAt data pos, _) :=
    scalar_fits 0 pos (by omega) hdata
  obtain ⟨hr₂, hm₂⟩ := scalar_fits 0 (pos + 8) (by omega) hdata
  obtain ⟨hr₃, hm₃⟩ := scalar_fits 0 (pos + 16) (by omega) hdata
  have hwalk : Walks (IOReader.guarded.readPadded offsetCodec (countAt data pos + 1) 8)
      (borrowPadded offsetCodec (countAt data pos + 1) 8) data (pos + 24) (offsetsEnd data pos)
      (offsetsAt data pos) :=
    walks_readAligned offsetCodec (by decide) (by decide) _ hdata (by omega)
  obtain ⟨hr₄, hm₄⟩ := hwalk.of_fits (unalarmed_readPadded _ _ _) hdata h
  have hload : loadOffset (offsetsAt data pos) (countAt data pos)
      = fun cursor => .ok ((valueSection data pos).count, cursor) := by
    funext cursor
    have hlt : countAt data pos < (offsetsAt data pos).length := by
      rw [length_offsetsAt]
      exact Nat.lt_succ_self _
    have hget : (offsetsAt data pos)[countAt data pos]? = some (valueSection data pos).count := by
      rw [List.getElem?_eq_getElem hlt]
      exact congrArg some (List.getD_eq_getElem _ _ hlt).symm
    rw [loadOffset, hget]
  constructor
  · rw [deserialize, Reader.bind_of_ok hr₁, if_neg hcount, Reader.bind_of_ok hr₂,
      Reader.bind_of_ok hr₃, Nat.mod_eq_of_lt hmax, Reader.bind_of_ok hr₄, Reader.bind, hload]
    rfl
  · rw [mmapDeserialize, Reader.bind_of_ok hm₁, if_neg hcount, Reader.bind_of_ok hm₂,
      Reader.bind_of_ok hm₃, if_neg hmax.ne, Reader.bind_of_ok hm₄]
    rfl

/-- A non-empty array of a section that ends too early. -/
theorem readers_throw_of_cut (v : SparseVectors Code) (hdata : data.length < 2 ^ 63)
    (hpos : pos ≤ data.length) (hcount : countAt data pos ≠ 0)
    (hmax : countAt data pos + 1 < 2 ^ 64) (hcut : data.length < (valueSection data pos).start) :
    (∃ e, deserialize .buffered v ⟨data, pos⟩ = .error (.thrown e)) ∧
      ∃ e, mmapDeserialize ⟨data, pos⟩ = .error e := by
  rcases le_or_gt (offsetsEnd data pos) data.length with h | h
  · -- the terms are cut short, and since no padding precedes them there are some
    obtain ⟨hr, hm⟩ := readers_eq_of_offsets v hdata hcount hmax h
    have hterms : 0 < (valueSection data pos).count := by
      have hstart := start_eq data pos
      omega
    have hcut' : data.length < arrayEnd (offsetsEnd data pos) 2 (valueSection data pos).count := hcut
    obtain ⟨e, he⟩ := buffered_readAligned_cut termCodec (by decide) (by decide) hterms h hcut'
    obtain ⟨e', he'⟩ := (walks_term _ hdata h).mapped_error hcut'
    exact ⟨⟨e, hr.trans (Reader.bind_of_error he)⟩, ⟨e', hm.trans (Reader.bind_of_error he')⟩⟩
  · constructor
    · -- wherever the scalars ended, the offsets do not fit behind them
      have hcut' : ∀ p, p = pos + 24 ∨ p = data.length →
          data.length < arrayEnd p 8 (countAt data pos + 1) := by
        rintro p (rfl | rfl)
        · exact h
        · exact lt_of_lt_of_le (by omega) (Nat.add_le_add_right (Nat.le_add_right _ _) _)
      have hend : pos + min 8 (data.length - pos) + min 8 (data.length -
          (pos + min 8 (data.length - pos))) + min 8 (data.length - (pos +
          min 8 (data.length - pos) + min 8 (data.length - (pos + min 8 (data.length - pos)))))
            = min (pos + 24) data.length := by omega
      have hcount' : sizeCodec.readAt data pos ≠ 0 := hcount
      have hmax' : (sizeCodec.readAt data pos + 1) % 2 ^ 64 = countAt data pos + 1 :=
        Nat.mod_eq_of_lt hmax
      rw [deserialize, Reader.bind_of_ok buffered_readCount, if_neg hcount',
        Reader.bind_of_ok buffered_readCount, Reader.bind_of_ok buffered_readCount, hmax', hend]
      obtain ⟨e, he⟩ := @buffered_readAligned_cut _ data (min (pos + 24) data.length) offsetCodec _
        (by decide) (by decide) (Nat.succ_pos (countAt data pos)) (min_le_right _ _)
        (hcut' _ (by omega))
      exact ⟨e, Reader.bind_of_error he⟩
    · have hcount' : sizeCodec.readAt data pos ≠ 0 := hcount
      have hmax' : sizeCodec.readAt data pos + 1 ≠ 2 ^ 64 := hmax.ne
      rcases readScalar_cases sizeCodec 0 hpos with ⟨-, -, hm₁⟩ | ⟨h₁, -, hm₁⟩
      · exact ⟨_, Reader.bind_of_error hm₁⟩
      rcases readScalar_cases sizeCodec 0 h₁ with ⟨-, -, hm₂⟩ | ⟨h₂, -, hm₂⟩
      · refine ⟨endOfFile, ?_⟩
        rw [mmapDeserialize, Reader.bind_of_ok hm₁, if_neg hcount', Reader.bind_of_error hm₂]
      rcases readScalar_cases sizeCodec 0 h₂ with ⟨-, -, hm₃⟩ | ⟨h₃, -, hm₃⟩
      · refine ⟨endOfFile, ?_⟩
        rw [mmapDeserialize, Reader.bind_of_ok hm₁, if_neg hcount', Reader.bind_of_ok hm₂,
          Reader.bind_of_error hm₃]
      have hwalk := walks_readAligned offsetCodec (by decide) (by decide) (countAt data pos + 1) hdata
        h₃
      obtain ⟨e, he⟩ := hwalk.mapped_error h
      refine ⟨e, ?_⟩
      rw [mmapDeserialize, Reader.bind_of_ok hm₁, if_neg hcount', Reader.bind_of_ok hm₂,
        Reader.bind_of_ok hm₃, if_neg hmax']
      exact Reader.bind_of_error he

/-! ### What the mapped reader checks -/

theorem length_codesOf (width n : ℕ) (bytes : Bytes) : (codesOf width n bytes).length = n := by
  induction n generalizing bytes with
  | zero => rfl
  | succ n ih => rw [codesOf, List.length_cons, ih]

theorem length_of_mem_codesOf {width n : ℕ} {bytes : Bytes} (h : bytes.length = n * width)
    {code : Code} (hcode : code ∈ codesOf width n bytes) : code.length = width := by
  induction n generalizing bytes with
  | zero => cases hcode
  | succ n ih =>
      rw [Nat.succ_mul] at h
      rcases List.mem_cons.mp hcode with rfl | hcode
      · rw [List.length_take, h]
        omega
      · exact ih (by rw [List.length_drop, h]; omega) hcode

/-- What passes the checks is a valid layout. -/
theorem mapVectors_invariants {elementSize dimension valuesAt : ℕ} {indptr indices : List ℕ}
    {values : List UInt8} {v : SparseVectors Code}
    (h : mapVectors elementSize dimension indptr indices values valuesAt = .ok v) :
    v.CsrInvariants := by
  rw [mapVectors] at h
  split at h
  · cases h
  split at h
  · cases h
  split at h
  · cases h
    exact ⟨⟨rfl, fun _ => rfl, fun hne => absurd rfl hne⟩, fun code hcode => absurd hcode
      List.not_mem_nil⟩
  rename_i hne
  split at h
  · cases h
  rename_i hlen
  split at h
  · cases h
  split at h
  · cases h
  rename_i hhead
  split at h
  · cases h
  rename_i hmono
  split at h
  · cases h
  rename_i hlast
  cases h
  obtain ⟨first, rest, rfl⟩ := List.exists_cons_of_ne_nil hne
  refine ⟨⟨(length_codesOf _ _ _).symm, fun hnil => absurd hnil hne, fun _ => ⟨?_, ?_, ?_⟩⟩,
    fun code hcode => length_of_mem_codesOf (not_not.mp hlen).symm hcode⟩
  · exact congrArg some (not_not.mp hhead)
  · exact List.isChain_iff_pairwise.mp (not_not.mp hmono)
  · rw [List.getLast?_eq_some_getLast hne] at hlast ⊢
    exact congrArg some (not_not.mp hlast)

/-- It has the shape and the offsets it was given. -/
theorem mapVectors_shape {elementSize dimension valuesAt : ℕ} {indptr indices : List ℕ}
    {values : List UInt8} {v : SparseVectors Code}
    (h : mapVectors elementSize dimension indptr indices values valuesAt = .ok v) :
    v.elementSize = elementSize ∧ v.dimension = dimension ∧ 0 < dimension ∧ v.indptr = indptr := by
  rw [mapVectors] at h
  split at h
  · cases h
  rename_i hdim
  split at h
  · cases h
  split at h
  · rename_i hnil
    cases h
    exact ⟨rfl, rfl, Nat.pos_of_ne_zero hdim, hnil.symm⟩
  iterate 5
    split at h
    · cases h
  cases h
  exact ⟨rfl, rfl, Nat.pos_of_ne_zero hdim, rfl⟩

theorem mmapDeserialize_invariants {cursor cursor' : Cursor} {v : SparseVectors Code}
    (h : mmapDeserialize cursor = .ok (v, cursor')) : v.CsrInvariants := by
  obtain ⟨count, c₁, -, h⟩ := Reader.bind_eq_ok h
  split at h
  · cases h
    exact ⟨⟨rfl, fun _ => rfl, fun hne => absurd rfl hne⟩, fun code hcode => absurd hcode
      List.not_mem_nil⟩
  obtain ⟨dimension, c₂, -, h⟩ := Reader.bind_eq_ok h
  obtain ⟨elementSize, c₃, -, h⟩ := Reader.bind_eq_ok h
  split at h
  · cases h
  obtain ⟨indptr, c₄, -, h⟩ := Reader.bind_eq_ok h
  obtain ⟨indices, c₅, -, h⟩ := Reader.bind_eq_ok h
  rw [borrowVectors] at h
  split at h
  · cases h
  split at h
  · cases h
  dsimp only at h
  split at h
  · cases h
  rename_i hmap
  cases h
  exact mapVectors_invariants hmap

/-- On arrays of the lengths the section declares, the checks are those of `Valid`. -/
theorem mapVectors_section {indices : List ℕ} {values : List UInt8} {valuesAt : ℕ}
    (hindices : indices.length = (valueSection data pos).count)
    (hvalues : values.length = (valueSection data pos).count * (valueSection data pos).width)
    (hat : (valueSection data pos).width ∣ valuesAt) :
    (Valid data pos ∧ mapVectors (valueSection data pos).width (dimensionAt data pos)
        (offsetsAt data pos) indices values valuesAt
          = .ok ⟨(valueSection data pos).width, dimensionAt data pos, offsetsAt data pos, indices,
            codesOf (valueSection data pos).width (valueSection data pos).count values⟩) ∨
      (¬ Valid data pos ∧ ∃ e, mapVectors (valueSection data pos).width (dimensionAt data pos)
        (offsetsAt data pos) indices values valuesAt = .error e) := by
  have hne : offsetsAt data pos ≠ [] := fun hnil => by
    have hlen := length_offsetsAt data pos
    rw [hnil] at hlen
    cases hlen
  have hlast : (offsetsAt data pos).getLast?.getD 0 = indices.length := by
    rw [List.getLast?_eq_getElem?, length_offsetsAt, hindices, Nat.add_sub_cancel]
    rfl
  rw [mapVectors]
  by_cases hdim : dimensionAt data pos = 0
  · exact .inr ⟨fun h => h.1.ne' hdim, _, if_pos hdim⟩
  rw [if_neg hdim]
  by_cases hwidth : (valueSection data pos).width ≠ U8 ∧ (valueSection data pos).width ≠ U16 ∧
      (valueSection data pos).width ≠ U32 ∧ (valueSection data pos).width ≠ U64
  · refine .inr ⟨fun h => ?_, _, if_pos hwidth⟩
    rcases h.2.1 with h | h | h | h
    · exact hwidth.1 h
    · exact hwidth.2.1 h
    · exact hwidth.2.2.1 h
    · exact hwidth.2.2.2 h
  rw [if_neg hwidth, if_neg hne, if_neg (not_not.mpr (by rw [hindices, hvalues])),
    if_neg (not_not.mpr (Nat.mod_eq_zero_of_dvd hat))]
  by_cases hhead : (offsetsAt data pos).headD 0 ≠ 0
  · exact .inr ⟨fun h => hhead h.2.2.1, _, if_pos hhead⟩
  rw [if_neg hhead]
  by_cases hmono : ¬ (offsetsAt data pos).IsChain (· ≤ ·)
  · exact .inr ⟨fun h => hmono h.2.2.2, _, if_pos hmono⟩
  rw [if_neg hmono, if_neg (not_not.mpr hlast), hindices]
  refine .inl ⟨⟨Nat.pos_of_ne_zero hdim, ?_, not_not.mp hhead, not_not.mp hmono⟩, rfl⟩
  by_contra hnone
  obtain ⟨h8, hnone⟩ := not_or.mp hnone
  obtain ⟨h16, hnone⟩ := not_or.mp hnone
  exact hwidth ⟨h8, h16, not_or.mp hnone⟩

/-- What `borrowVectors` does with the values once they were borrowed. -/
theorem borrowVectors_of_lt {elementSize dimension : ℕ} {indptr indices : List ℕ} {cursor : Cursor}
    (h : indices.length * elementSize < 2 ^ 64) :
    borrowVectors elementSize dimension indptr indices cursor =
      match borrowPadded .byte (indices.length * elementSize) elementSize cursor with
      | .error e => .error e
      | .ok (values, cursor) =>
          match mapVectors elementSize dimension indptr indices values
            (if indices.length * elementSize = 0 then 0
              else cursor.pos - indices.length * elementSize) with
          | .error e => .error e
          | .ok vectors => .ok (vectors, cursor) := by
  unfold borrowVectors
  have hbytes := checkedMul_eq_ok h
  generalize checkedMul indices.length elementSize = bytes at hbytes ⊢
  subst hbytes
  rfl

/-- The copying reader of the values of a section. -/
def readValues (data : Bytes) (pos : ℕ) (indices : List ℕ) : Reader Fault (SparseVectors Code) :=
  (IOReader.buffered.readWords (valueSection data pos).count (valueSection data pos).width).map
    fun values => ⟨(valueSection data pos).width, dimensionAt data pos, offsetsAt data pos, indices,
      codesOf (valueSection data pos).width (valueSection data pos).count values⟩

/-- **The values**, where the two readers part. -/
theorem values_agree_iff {indices : List ℕ} (hdata : data.length < 2 ^ 63)
    (hstart : (valueSection data pos).start ≤ data.length)
    (hindices : indices.length = (valueSection data pos).count) :
    SameOutcome (readValues data pos indices ⟨data, (valueSection data pos).start⟩)
        (borrowVectors (valueSection data pos).width (dimensionAt data pos) (offsetsAt data pos)
          indices ⟨data, (valueSection data pos).start⟩) ↔
      (valueSection data pos).width = 0 ∨
        2 ^ 64 ≤ (valueSection data pos).count * (valueSection data pos).width ∨
        (min (padding (valueSection data pos).start (valueSection data pos).width)
            (data.length - (valueSection data pos).start) ≤ kMaxAlignment ∧
          0 < (valueSection data pos).count ∧ data.length < (valueSection data pos).next) ∨
        (Valid data pos ∧ (valueSection data pos).next ≤ data.length) := by
  have hvalues := fun values at' => @mapVectors_section data pos indices values at' hindices
  have hnext : (valueSection data pos).next
    = alignTo (valueSection data pos).start (valueSection data pos).width
      + (valueSection data pos).count * (valueSection data pos).width * 1 := by
    rw [Nat.mul_one]
    rfl
  have hsmall : Valid data pos → padding (valueSection data pos).start (valueSection data pos).width
      ≤ kMaxAlignment := fun hvalid => by
    rcases hvalid.2.1 with h | h | h | h <;> rw [h] <;> exact (padding_lt (by decide)).le.trans
      (by decide)
  rw [readValues]
  rcases hs : valueSection data pos with ⟨count, width, start⟩
  rw [hs] at hstart hindices hvalues hnext hsmall
  dsimp only at hstart hindices hvalues hnext hsmall ⊢
  by_cases hover : 2 ^ 64 ≤ count * width
  · refine iff_of_true ?_ (.inr (.inl hover))
    rw [Reader.map, readWords_of_overflow hover, borrowVectors, checkedMul, hindices, if_pos hover]
    trivial
  rw [not_le] at hover
  have hborrow := fun cursor => @borrowVectors_of_lt width (dimensionAt data pos) (offsetsAt data pos)
    indices cursor (by rwa [hindices])
  rw [hindices] at hborrow
  rw [Reader.map, readWords_of_lt hover, hborrow]
  rcases Nat.eq_zero_or_pos width with hzero | hwidth
  · refine iff_of_true ?_ (.inl hzero)
    subst hzero
    trivial
  by_cases hpad : min (padding start width) (data.length - start) ≤ kMaxAlignment
  · rcases le_or_gt (WordSection.next ⟨count, width, start⟩) data.length with hfits | hcut
    · have hpad' : padding start width ≤ kMaxAlignment := by
        have hle : alignTo start width ≤ data.length := (Nat.le_add_right _ _).trans hfits
        rw [alignTo] at hle
        omega
      have hwalk := walks_readPadded .byte Nat.one_pos (count * width) hwidth hpad' (one_dvd _) hdata
        hstart
      rw [show Codec.byte.width = 1 from rfl, ← hnext] at hwalk
      obtain ⟨hr, hm⟩ := hwalk.of_fits (unalarmed_readPadded _ _ _) hdata hfits
      rw [hr, hm]
      dsimp only
      have hat : width ∣ if count * width = 0 then 0
          else WordSection.next ⟨count, width, start⟩ - count * width := by
        split
        · exact dvd_zero _
        · rw [hnext, Nat.mul_one, Nat.add_sub_cancel]
          exact dvd_add_padding start hwidth
      have hlength : (Codec.byte.arrayAt data (alignTo start width) (count * width)).length
          = count * width := Codec.length_decAll _ _ _
      rcases hvalues _ _ hlength hat with ⟨hvalid, hok⟩ | ⟨hinvalid, e, herr⟩
      · rw [hok]
        exact iff_of_true rfl (.inr (.inr (.inr ⟨hvalid, hfits⟩)))
      · rw [herr]
        refine iff_of_false id ?_
        rintro (h | h | h | h)
        · exact hwidth.ne' h
        · exact absurd h (not_le.mpr hover)
        · exact absurd h.2.2 (not_lt.mpr hfits)
        · exact hinvalid h.1
    · rw [borrowPadded_cut .byte Nat.one_pos hwidth hstart (hnext ▸ hcut)]
      rcases Nat.eq_zero_or_pos count with hzero | hcount
      · subst hzero
        rw [Nat.zero_mul, IOReader.readPadded, Reader.bind, buffered_skipPadding hwidth,
          if_neg (not_lt.mpr hpad)]
        refine iff_of_false id ?_
        rintro (h | h | h | h)
        · exact hwidth.ne' h
        · omega
        · exact lt_irrefl _ h.2.1
        · exact absurd h.2 (not_le.mpr hcut)
      · obtain ⟨e, he⟩ := buffered_readPadded_cut .byte Nat.one_pos (Nat.mul_pos hcount hwidth) hwidth
          hpad hstart (hnext ▸ hcut)
        rw [he]
        exact iff_of_true trivial (.inr (.inr (.inl ⟨hpad, hcount, hcut⟩)))
  · rw [IOReader.readPadded, Reader.bind, buffered_skipPadding hwidth, if_pos (not_le.mp hpad)]
    refine iff_of_false id ?_
    rintro (h | h | h | h)
    · exact hwidth.ne' h
    · exact absurd h (not_le.mpr hover)
    · exact hpad h.1
    · exact hpad ((min_le_left _ _).trans (hsmall h.1))

/-- The outcomes of the two readers match exactly where `SectionAgrees` says. -/
theorem sameOutcome_iff (hdata : data.length < 2 ^ 63) (hpos : pos ≤ data.length) :
    SameOutcome (deserialize .buffered default ⟨data, pos⟩) (mmapDeserialize ⟨data, pos⟩) ↔
      SectionAgrees data pos := by
  by_cases hcount : countAt data pos = 0
  · -- a count of 0 is all there is, if it is there
    have hcopy : deserialize .buffered default ⟨data, pos⟩
        = .ok (default, ⟨data, pos + min 8 (data.length - pos)⟩) := by
      rw [deserialize, Reader.bind_of_ok buffered_readCount]
      exact congrFun (if_pos hcount) _
    rw [SectionAgrees, if_pos hcount, hcopy]
    rcases readScalar_cases sizeCodec 0 hpos with ⟨hcut, -, hm⟩ | ⟨hfits, -, hm⟩
    · have hmap : mmapDeserialize ⟨data, pos⟩ = .error endOfFile := Reader.bind_of_error hm
      rw [hmap]
      exact iff_of_false id (not_le.mpr hcut)
    · have hmap : mmapDeserialize ⟨data, pos⟩ = .ok (default, ⟨data, pos + 8⟩) := by
        rw [mmapDeserialize, Reader.bind_of_ok hm]
        exact congrFun (if_pos hcount) _
      have hfits' : pos + 8 ≤ data.length := hfits
      rw [hmap, min_eq_left (by omega)]
      exact iff_of_true rfl hfits
  rw [SectionAgrees, if_neg hcount]
  by_cases hmax : countAt data pos + 1 < 2 ^ 64
  · rcases le_or_gt (valueSection data pos).start data.length with hstart | hcut
    · -- all arrays but the values are there
      obtain ⟨hr, hm⟩ := readers_eq_of_offsets default hdata hcount hmax
        (offsetsEnd_le_start.trans hstart)
      have hterms : Walks (IOReader.guarded.readPadded termCodec (valueSection data pos).count 2)
          (borrowPadded termCodec (valueSection data pos).count 2) data (offsetsEnd data pos)
          (valueSection data pos).start _ :=
        walks_term _ hdata (offsetsEnd_le_start.trans hstart)
      obtain ⟨hr', hm'⟩ := hterms.of_fits (unalarmed_readPadded termCodec _ 2) hdata hstart
      rw [hr, hm, Reader.bind_of_ok hr', Reader.bind_of_ok hm']
      refine (values_agree_iff hdata hstart (Codec.length_decAll _ _ _)).trans ?_
      exact ⟨fun h => ⟨hmax, .inr h⟩, fun h => h.2.resolve_left (not_lt.mpr hstart)⟩
    · obtain ⟨⟨e, he⟩, e', he'⟩ := readers_throw_of_cut default hdata hpos hcount hmax hcut
      rw [he, he']
      exact iff_of_true trivial ⟨hmax, .inl hcut⟩
  · -- the number of offsets wraps to 0, and there is no last one
    have hlast : (countAt data pos + 1) % 2 ^ 64 = 0 := by
      have hlt : countAt data pos < 256 ^ 8 :=
        (leNat_lt _).trans_le (Nat.pow_le_pow_right (by decide) (List.length_take_le _ _))
      rw [show countAt data pos + 1 = 2 ^ 64 by omega, Nat.mod_self]
    have hcopy : deserialize .buffered default ⟨data, pos⟩ = .error .nullLoad := by
      have hcount' : sizeCodec.readAt data pos ≠ 0 := hcount
      have hlast' : (sizeCodec.readAt data pos + 1) % 2 ^ 64 = 0 := hlast
      have hempty : ∀ p, ∃ stop, IOReader.buffered.readPadded offsetCodec 0 8 ⟨data, p⟩
          = .ok ([], ⟨data, stop⟩) := fun p => by
        have hpad : min (padding p 8) (data.length - p) ≤ kMaxAlignment :=
          (min_le_left _ _).trans (padding_lt (by decide)).le
        refine ⟨p + min (padding p 8) (data.length - p), ?_⟩
        rw [IOReader.readPadded, Reader.bind, buffered_skipPadding (by decide),
          if_neg (not_lt.mpr hpad)]
        rfl
      rw [deserialize, Reader.bind_of_ok buffered_readCount, if_neg hcount',
        Reader.bind_of_ok buffered_readCount, Reader.bind_of_ok buffered_readCount, hlast']
      obtain ⟨stop, hstop⟩ := hempty _
      rw [Reader.bind_of_ok hstop]
      rfl
    rw [hcopy]
    exact iff_of_false id fun h => hmax h.1

/-- **The two readers of a section agree, and give valid layouts, exactly where `SectionAgrees`
says.**  Positions count from an address that is a multiple of 8. -/
theorem sections_agree_iff (data : Bytes) (pos : ℕ) (hdata : data.length < 2 ^ 63)
    (hpos : pos ≤ data.length) :
    (SameOutcome (deserialize .buffered default ⟨data, pos⟩) (mmapDeserialize ⟨data, pos⟩) ∧
      (∀ v c, deserialize .buffered default ⟨data, pos⟩ = .ok (v, c) → v.CsrInvariants) ∧
      ∀ v c, mmapDeserialize ⟨data, pos⟩ = .ok (v, c) → v.CsrInvariants) ↔
      SectionAgrees data pos := by
  rw [← sameOutcome_iff hdata hpos]
  refine ⟨And.left, fun hsame => ⟨hsame, fun v c hv => ?_, fun v c => mmapDeserialize_invariants⟩⟩
  rw [hv] at hsame
  rcases hm : mmapDeserialize ⟨data, pos⟩ with e | ⟨v', c'⟩
  · rw [hm] at hsame
    exact hsame.elim
  · rw [hm] at hsame
    obtain ⟨rfl, rfl⟩ := Prod.mk.inj hsame
    exact mmapDeserialize_invariants hm

/-- A section of one vector without terms, in a space of no dimension. -/
def dimensionlessSection : Bytes := serialize ⟨U32, 0, [0, 0], [], []⟩ []

theorem sections_agree_iff_dimensionless :
    (SameOutcome (deserialize .buffered default ⟨dimensionlessSection, 0⟩)
        (mmapDeserialize ⟨dimensionlessSection, 0⟩) ∧
      (∀ v c, deserialize .buffered default ⟨dimensionlessSection, 0⟩ = .ok (v, c) →
        v.CsrInvariants) ∧
      ∀ v c, mmapDeserialize ⟨dimensionlessSection, 0⟩ = .ok (v, c) → v.CsrInvariants) ↔
      SectionAgrees dimensionlessSection 0 :=
  sections_agree_iff dimensionlessSection 0 (by decide) (by decide)

/-- The copying reader takes it and the mapped one does not. -/
theorem mapped_reader_alone_rejects_dimension_zero :
    ¬ SameOutcome (deserialize .buffered default ⟨dimensionlessSection, 0⟩)
      (mmapDeserialize ⟨dimensionlessSection, 0⟩) := by
  decide

end SparseVectors

end Nsparse
