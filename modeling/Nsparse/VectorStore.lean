/-
Nsparse/VectorStore.lean

Sparse vectors on the wire.

`serialize` writes the counts and the three arrays, or the count alone when there is
no vector, and `mmapDeserialize` borrows the arrays back after `mapVectors` has
checked that their offsets start at 0, never decrease and end at the number of terms.
Values are bytes in the file and one code for each entry in the model.
-/
import Nsparse.Serialize
import Nsparse.SparseVectors
import Nsparse.Values

namespace Nsparse

open Wire

def U64 : ℕ := 8

namespace SparseVectors

/-! ### Writing -/

def serialize (v : SparseVectors Code) : Writer :=
  (writeScalar sizeCodec v.numVectors).andThen <|
  if v.numVectors > 0 then
    let indicesSize := v.indptr.getD v.numVectors 0
    (writeScalar sizeCodec v.dimension).andThen <|
    (writeScalar sizeCodec v.elementSize).andThen <|
    (writePadded offsetCodec (v.indptr.take (v.numVectors + 1)) 8).andThen <|
    (writePadded termCodec (v.indices.take indicesSize) 2).andThen <|
    writePadded .byte (v.values.flatten.take (indicesSize * v.elementSize)) v.elementSize
  else id

/-! ### Reading -/

/-- The default constructor. -/
def default : SparseVectors Code := ⟨0, 0, [], [], []⟩

/-- Cut bytes into codes of `width` bytes. -/
def codesOf (width : ℕ) : ℕ → List UInt8 → List Code
  | 0, _ => []
  | n + 1, bytes => bytes.take width :: codesOf width n (bytes.drop width)

/-- `map_vectors` on arrays that exist; `valuesAt` is where the values begin. -/
def mapVectors (elementSize dimension : ℕ) (indptr indices : List ℕ) (values : List UInt8)
    (valuesAt : ℕ) : Except Exception (SparseVectors Code) :=
  if dimension = 0 then .error (.invalidArgument notPositiveMsg)
  else if elementSize ≠ U8 ∧ elementSize ≠ U16 ∧ elementSize ≠ U32 ∧ elementSize ≠ U64 then
    .error (.invalidArgument "Invalid element size")
  else if indptr = [] then .ok ⟨elementSize, dimension, [], [], []⟩
  else if indices.length * elementSize ≠ values.length then
    .error (.invalidArgument "Indices and weights must have the same size")
  else if valuesAt % elementSize ≠ 0 then
    .error (.invalidArgument "Mapped values are misaligned for the element size")
  else if indptr.headD 0 ≠ 0 then
    .error (.invalidArgument "Mapped indptr must start at 0")
  else if ¬ indptr.IsChain (· ≤ ·) then
    .error (.invalidArgument "Mapped indptr is not monotonic")
  else if indptr.getLast?.getD 0 ≠ indices.length then
    .error (.invalidArgument "Mapped indptr does not end at the index count")
  else .ok ⟨elementSize, dimension, indptr, indices, codesOf elementSize indices.length values⟩

/-- The values and their check; an empty array has no address to be misaligned. -/
def borrowVectors (elementSize dimension : ℕ) (indptr indices : List ℕ) :
    Reader Exception (SparseVectors Code) := fun cursor =>
  match checkedMul indices.length elementSize with
  | .error e => .error e
  | .ok valueSize =>
      match borrowPadded .byte valueSize elementSize cursor with
      | .error e => .error e
      | .ok (values, cursor) =>
          let valuesAt := if valueSize = 0 then 0 else cursor.pos - valueSize
          match mapVectors elementSize dimension indptr indices values valuesAt with
          | .error e => .error e
          | .ok vectors => .ok (vectors, cursor)

def mmapDeserialize : Reader Exception (SparseVectors Code) :=
  (readScalar sizeCodec).bind fun vectorCount =>
  if vectorCount = 0 then fun cursor => .ok (default, cursor)
  else
    (readScalar sizeCodec).bind fun dimension =>
    (readScalar sizeCodec).bind fun elementSize =>
    if vectorCount + 1 = 2 ^ 64 then fun _ =>
      .error (.runtimeError "mmap: implausible vector count in index file")
    else
      (borrowPadded offsetCodec (vectorCount + 1) 8).bind fun indptr =>
      (borrowPadded termCodec (indptr.getD vectorCount 0) 2).bind fun indices =>
      borrowVectors elementSize dimension indptr indices

/-! ### What comes back -/

/-- Vectors that can be stored: a valid layout of 16-bit terms and codes of the element width,
with sizes that a `size_t` holds. -/
structure Storable (v : SparseVectors Code) : Prop where
  wellFormed : v.WellFormed
  dimension : 0 < v.dimension ∧ v.dimension < 2 ^ 64
  width : v.elementSize = U32 ∨ v.elementSize = U16 ∨ v.elementSize = U8
  terms : ∀ t ∈ v.indices, t < 2 ^ 16
  codes : ∀ code ∈ v.values, code.length = v.elementSize
  count : v.numVectors + 1 < 2 ^ 64
  bytes : v.indices.length * v.elementSize < 2 ^ 64

theorem length_flatten_codes {codes : List Code} {width : ℕ}
    (h : ∀ code ∈ codes, code.length = width) : codes.flatten.length = codes.length * width := by
  rw [List.length_flatten, List.map_congr_left h]
  simp

theorem codesOf_flatten {codes : List Code} {width : ℕ}
    (h : ∀ code ∈ codes, code.length = width) :
    codesOf width codes.length codes.flatten = codes := by
  induction codes with
  | nil => rfl
  | cons code codes ih =>
      obtain ⟨hcode, hcodes⟩ := List.forall_mem_cons.mp h
      rw [List.length_cons, codesOf, List.flatten_cons, List.take_left' hcode,
        List.drop_left' hcode, ih hcodes]

theorem Storable.width_pos {v : SparseVectors Code} (h : v.Storable) : 0 < v.elementSize := by
  rcases h.width with hw | hw | hw <;> rw [hw] <;> decide

/-- A valid layout passes the checks of a mapped one. -/
theorem mapVectors_eq_ok {v : SparseVectors Code} (h : v.Storable) (hne : v.indptr ≠ [])
    {valuesAt : ℕ} (hat : v.elementSize ∣ valuesAt) :
    mapVectors v.elementSize v.dimension v.indptr v.indices v.values.flatten valuesAt = .ok v := by
  have hoff := h.wellFormed.offsets hne
  have hlen := length_flatten_codes h.codes
  rw [← h.wellFormed.paired] at hlen
  have hcodes := codesOf_flatten h.codes
  rw [← h.wellFormed.paired] at hcodes
  have hwidth : ¬ (v.elementSize ≠ U8 ∧ v.elementSize ≠ U16 ∧ v.elementSize ≠ U32 ∧
      v.elementSize ≠ U64) := by
    rintro ⟨h8, h16, h32, -⟩
    rcases h.width with hw | hw | hw
    · exact h32 hw
    · exact h16 hw
    · exact h8 hw
  have hhead : v.indptr.headD 0 = 0 := by
    rw [List.headD_eq_head?_getD, hoff.head, Option.getD_some]
  have hlast : v.indptr.getLast?.getD 0 = v.indices.length := by
    rw [hoff.last, Option.getD_some]
  rw [mapVectors, if_neg h.dimension.1.ne', if_neg hwidth, if_neg hne,
    if_neg (not_not.mpr hlen.symm), if_neg (not_not.mpr (Nat.mod_eq_zero_of_dvd hat)),
    if_neg (not_not.mpr hhead), if_neg (not_not.mpr hoff.mono.isChain),
    if_neg (not_not.mpr hlast), hcodes]

theorem roundTrips_borrowVectors {v : SparseVectors Code} (h : v.Storable) (hne : v.indptr ≠ []) :
    RoundTrips (writePadded .byte v.values.flatten v.elementSize)
      (borrowVectors v.elementSize v.dimension v.indptr v.indices) v := by
  have hlen := length_flatten_codes h.codes
  rw [← h.wellFormed.paired] at hlen
  have hpad : RoundTrips (writePadded .byte v.values.flatten v.elementSize)
      (borrowPadded .byte v.values.flatten.length v.elementSize) v.values.flatten :=
    roundTrips_padded .byte (fun b _ => Codec.fits_byte b) Nat.one_pos h.width_pos (one_dvd _)
  refine ⟨hpad.appends, fun w rest => ?_⟩
  have hmul : checkedMul v.indices.length v.elementSize = .ok v.values.flatten.length := by
    rw [checkedMul_eq_ok h.bytes, hlen]
  have hstart : (writePadded Codec.byte v.values.flatten v.elementSize w).length
      - v.values.flatten.length = w.length + padding w.length v.elementSize := by
    rw [writePadded, Writer.andThen, length_emit, length_padTo, Codec.encAll_byte,
      Nat.add_sub_cancel]
  unfold borrowVectors
  rw [hmul]
  dsimp only
  rw [hpad.reads w rest]
  dsimp only
  rw [hstart, mapVectors_eq_ok h hne]
  split
  · exact dvd_zero _
  · exact dvd_add_padding w.length h.width_pos

/-- **Stored vectors come back**, those of an empty store as the default. -/
theorem roundTrips {v : SparseVectors Code} (h : v.Storable) :
    RoundTrips v.serialize mmapDeserialize (if v.numVectors = 0 then default else v) := by
  have hcount : v.numVectors < 2 ^ 64 := lt_of_le_of_lt (Nat.le_succ _) h.count
  have hfits : ∀ {n : ℕ}, n < 2 ^ 64 → sizeCodec.Fits n := fun hn =>
    Codec.fits_nat (hn.trans_eq (by norm_num))
  refine (roundTrips_scalar sizeCodec (hfits hcount)).bind ?_
  by_cases h0 : v.numVectors = 0
  · rw [if_pos h0, if_pos h0, if_neg (by omega)]
    exact ⟨Appends.id, fun _ _ => rfl⟩
  · have hne : v.indptr ≠ [] := fun hnil => h0 (by rw [numVectors_eq, hnil]; rfl)
    have hlen : v.indptr.length = v.numVectors + 1 := by
      rw [numVectors_eq]
      have := List.length_pos_iff.mpr hne
      omega
    have hnnz := h.wellFormed.getD_numVectors
    have hvalues : v.values.flatten.take (v.indices.length * v.elementSize) = v.values.flatten := by
      rw [h.wellFormed.paired, ← length_flatten_codes h.codes, List.take_length]
    have hes : v.elementSize < 2 ^ 64 := by
      rcases h.width with hw | hw | hw <;> rw [hw] <;> decide
    have hoffsets : ∀ i ∈ v.indptr, offsetCodec.Fits i := by
      intro i hi
      have hle : i ≤ v.indices.length :=
        (h.wellFormed.offsets hne).le_of_mem hi
      have hbytes := Nat.le_mul_of_pos_right v.indices.length h.width_pos
      exact hfits (hle.trans_lt (hbytes.trans_lt h.bytes))
    rw [if_neg h0, if_neg h0, if_pos (Nat.pos_of_ne_zero h0)]
    dsimp only
    rw [hnnz, hvalues, List.take_length, ← hlen, List.take_length]
    refine (roundTrips_scalar sizeCodec (hfits h.dimension.2)).bind ?_
    refine (roundTrips_scalar sizeCodec (hfits hes)).bind ?_
    rw [if_neg (hlen.trans_lt h.count).ne]
    have hindptr : RoundTrips (writePadded offsetCodec v.indptr 8)
        (borrowPadded offsetCodec v.indptr.length 8) v.indptr :=
      roundTrips_padded offsetCodec hoffsets (by decide) (by decide) (dvd_refl 8)
    have hindices : RoundTrips (writePadded termCodec v.indices 2)
        (borrowPadded termCodec v.indices.length 2) v.indices :=
      roundTrips_padded termCodec
        (fun t ht => Codec.fits_nat ((h.terms t ht).trans_eq (by norm_num)))
        (by decide) (by decide) (dvd_refl 2)
    refine hindptr.bind ?_
    rw [hnnz]
    exact hindices.bind (roundTrips_borrowVectors h hne)

theorem serialize_appends (v : SparseVectors Code) : Appends v.serialize := by
  refine (writeScalar_appends _ _).andThen ?_
  split
  · refine (writeScalar_appends _ _).andThen ((writeScalar_appends _ _).andThen ?_)
    exact (writePadded_appends _ _ _).andThen
      ((writePadded_appends _ _ _).andThen (writePadded_appends _ _ _))
  · exact Appends.id

end SparseVectors

end Nsparse
