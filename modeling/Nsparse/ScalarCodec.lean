/-
Nsparse/ScalarCodec.lean

The codec of `ScalarQuantizer` on numbers that are not rounded.

`ExactRounding` states what exact arithmetic means for the operations a quantizer
uses, `std::lround` included.  Under it `encode` is the nearest code of a clamped,
scaled value (`leNat_encode`) and `decode` places code `c` at the `c`-th of the evenly
spaced points of the range (`decode_eq`), so that `encode` is monotone, exact on
decoded codes, and off by at most half a step inside the range (`scalar_codec`).

`decode_dot_product` multiplies by the two step widths and adds no offset.  Over the
pairs of codes that meet at a term the decoded product has cross terms with `vmin`
in them, so the two agree only where these cancel (`decodeDotProduct_iff`): for every
document and query exactly when both ranges start at zero.
-/
import Nsparse.DenseQuery
import Mathlib.Algebra.Order.Archimedean.Basic
import Mathlib.Algebra.Order.Floor.Ring
import Mathlib.Data.Rat.Floor

namespace Nsparse

open Wire

/-! ### Numbers that are not rounded -/

/-- Conversions and divisions lose nothing, and `std::lround` takes the nearest whole number,
half a unit away from zero. -/
structure ExactRounding (F : Type) [Field F] [LinearOrder F] [FloatFormat F] : Prop where
  ofInt : ∀ i : ℤ, (FloatFormat.ofInt i : F) = i
  div : ∀ a b : F, b ≠ 0 → FloatFormat.div a b = a / b
  near : ∀ x : F, |x - FloatFormat.lround x| ≤ 1 / 2
  away : ∀ x : F, |x - FloatFormat.lround x| = 1 / 2 → |x| < |(FloatFormat.lround x : F)|

section Codec

variable {F : Type} [Field F] [LinearOrder F] [IsStrictOrderedRing F] [FloatFormat F]

namespace ExactRounding

theorem lround_intCast (hF : ExactRounding F) (n : ℤ) : FloatFormat.lround (n : F) = n := by
  have hnear := hF.near (n : F)
  rw [← Int.cast_sub, ← Int.cast_abs] at hnear
  have hlt : |n - FloatFormat.lround (n : F)| < 1 := by
    rw [← @Int.cast_lt F, Int.cast_one]
    exact hnear.trans_lt (by norm_num)
  have hzero := Int.abs_lt_one_iff.mp hlt
  omega

theorem lround_mono (hF : ExactRounding F) {x y : F} (h : x ≤ y) :
    FloatFormat.lround x ≤ FloatFormat.lround y := by
  by_contra hlt
  rw [not_le] at hlt
  have hx := abs_le.mp (hF.near x)
  have hy := abs_le.mp (hF.near y)
  have hstep : (FloatFormat.lround y : F) + 1 ≤ FloatFormat.lround x := by exact_mod_cast hlt
  -- only the same number half-way between the two could be rounded to both
  have heq : x = y := le_antisymm h (by linarith)
  rw [heq] at hlt
  exact lt_irrefl _ hlt

end ExactRounding

namespace ScalarQuantizer

/-- The largest code of a type. -/
def largestCode : QuantizerType → ℕ
  | .QT_8bit => 255
  | .QT_16bit => 65535

/-- `decode_8bit` and `decode_16bit`. -/
def decode (sq : ScalarQuantizer F) (code : Code) : F :=
  sq.vmin + FloatFormat.div (FloatFormat.ofInt (leNat code) * (sq.vmax - sq.vmin)) (kMax sq.qtype)

/-- `encode` of an array. -/
def encodeArray (sq : ScalarQuantizer F) (vals : List F) : List Code := vals.map sq.encode

/-- The width of one quantization step. -/
def step (sq : ScalarQuantizer F) : F := (sq.vmax - sq.vmin) / largestCode sq.qtype

/-- What `encode` rounds: the value scaled to the codes and clamped to them. -/
def scaled (sq : ScalarQuantizer F) (val : F) : F :=
  max 0 (min (largestCode sq.qtype : F) ((val - sq.vmin) / sq.step))

theorem largestCode_pos (qtype : QuantizerType) : 0 < largestCode qtype := by
  cases qtype <;> decide

omit [Field F] [IsStrictOrderedRing F] in
theorem largestCode_succ (sq : ScalarQuantizer F) :
    largestCode sq.qtype + 1 = 256 ^ sq.bytesPerValue := by
  rw [bytesPerValue]
  cases sq.qtype <;> rfl

theorem kMax_eq (hF : ExactRounding F) (qtype : QuantizerType) :
    (kMax qtype : F) = (largestCode qtype : F) := by
  cases qtype
  · show (FloatFormat.ofInt 255 : F) = ((255 : ℕ) : F)
    rw [hF.ofInt]
    norm_cast
  · show (FloatFormat.ofInt 65535 : F) = ((65535 : ℕ) : F)
    rw [hF.ofInt]
    norm_cast

theorem step_pos (sq : ScalarQuantizer F) : 0 < sq.step :=
  div_pos (sub_pos.mpr sq.range) (Nat.cast_pos.mpr (largestCode_pos sq.qtype))

theorem largestCode_mul_step (sq : ScalarQuantizer F) :
    (largestCode sq.qtype : F) * sq.step = sq.vmax - sq.vmin :=
  mul_div_cancel₀ _ (Nat.cast_pos.mpr (largestCode_pos sq.qtype)).ne'

/-- Code `c` stands for the `c`-th of the evenly spaced points of the range. -/
theorem decode_eq (hF : ExactRounding F) (sq : ScalarQuantizer F) (code : Code) :
    sq.decode code = sq.vmin + leNat code * sq.step := by
  have hmax : (largestCode sq.qtype : F) ≠ 0 := (Nat.cast_pos.mpr (largestCode_pos sq.qtype)).ne'
  rw [decode, kMax_eq hF, hF.div _ _ hmax, hF.ofInt, step, Int.cast_natCast, mul_div_assoc]

theorem encode_eq (hF : ExactRounding F) (sq : ScalarQuantizer F) (val : F) :
    sq.encode val = leBytes sq.bytesPerValue (FloatFormat.lround (sq.scaled val)).toNat := by
  have hrange : sq.vmax - sq.vmin ≠ 0 := (sub_pos.mpr sq.range).ne'
  have hscaled : (val - sq.vmin) * FloatFormat.div (kMax sq.qtype) (sq.vmax - sq.vmin)
      = (val - sq.vmin) / sq.step := by
    rw [kMax_eq hF, hF.div _ _ hrange, step, div_div_eq_mul_div, mul_div_assoc]
  rw [encode, scaled, hscaled, kMax_eq hF]
  congr 3
  rw [max_def_lt, min_comm, min_def_lt]

omit [IsStrictOrderedRing F] in
theorem scaled_nonneg (sq : ScalarQuantizer F) (val : F) : 0 ≤ sq.scaled val := le_max_left _ _

theorem scaled_le (sq : ScalarQuantizer F) (val : F) : sq.scaled val ≤ largestCode sq.qtype :=
  max_le (Nat.cast_nonneg _) (min_le_left _ _)

theorem scaled_mono (sq : ScalarQuantizer F) {u v : F} (h : u ≤ v) :
    sq.scaled u ≤ sq.scaled v := by
  apply max_le_max_left
  apply min_le_min_left
  exact div_le_div_of_nonneg_right (sub_le_sub_right h _) sq.step_pos.le

/-- Inside the range nothing is clamped. -/
theorem scaled_of_mem (sq : ScalarQuantizer F) {v : F} (hmin : sq.vmin ≤ v) (hmax : v ≤ sq.vmax) :
    sq.scaled v = (v - sq.vmin) / sq.step := by
  have hlow : 0 ≤ (v - sq.vmin) / sq.step := div_nonneg (sub_nonneg.mpr hmin) sq.step_pos.le
  have hhigh : (v - sq.vmin) / sq.step ≤ largestCode sq.qtype := by
    rw [div_le_iff₀ sq.step_pos, largestCode_mul_step]
    exact sub_le_sub_right hmax _
  rw [scaled, min_eq_right hhigh, max_eq_right hlow]

theorem lround_scaled_mem (hF : ExactRounding F) (sq : ScalarQuantizer F) (val : F) :
    0 ≤ FloatFormat.lround (sq.scaled val) ∧
      FloatFormat.lround (sq.scaled val) ≤ largestCode sq.qtype := by
  constructor
  · have hmono := hF.lround_mono (sq.scaled_nonneg val)
    rwa [← Int.cast_zero, hF.lround_intCast] at hmono
  · have hmono := hF.lround_mono (sq.scaled_le val)
    rwa [← Int.cast_natCast, hF.lround_intCast] at hmono

/-- The code of a value is the whole number nearest to its scaled value. -/
theorem leNat_encode (hF : ExactRounding F) (sq : ScalarQuantizer F) (val : F) :
    (leNat (sq.encode val) : ℤ) = FloatFormat.lround (sq.scaled val) := by
  obtain ⟨hlow, hhigh⟩ := sq.lround_scaled_mem hF val
  have hfits : (FloatFormat.lround (sq.scaled val)).toNat < 256 ^ sq.bytesPerValue := by
    rw [← largestCode_succ]
    omega
  rw [encode_eq hF, leNat_leBytes hfits, Int.toNat_of_nonneg hlow]

/-! ### The laws of the codec -/

theorem encode_mono (hF : ExactRounding F) (sq : ScalarQuantizer F) {u v : F} (h : u ≤ v) :
    leNat (sq.encode u) ≤ leNat (sq.encode v) := by
  have hmono := hF.lround_mono (sq.scaled_mono h)
  rwa [← leNat_encode hF, ← leNat_encode hF, Int.ofNat_le] at hmono

theorem encode_of_le_vmin (hF : ExactRounding F) (sq : ScalarQuantizer F) {v : F}
    (h : v ≤ sq.vmin) : leNat (sq.encode v) = 0 := by
  have hzero : sq.scaled sq.vmin = ((0 : ℤ) : F) := by
    rw [sq.scaled_of_mem le_rfl sq.range.le, sub_self, zero_div, Int.cast_zero]
  have hcode := leNat_encode hF sq sq.vmin
  rw [hzero, hF.lround_intCast] at hcode
  have hle := encode_mono hF sq h
  omega

theorem encode_of_vmax_le (hF : ExactRounding F) (sq : ScalarQuantizer F) {v : F}
    (h : sq.vmax ≤ v) : leNat (sq.encode v) = largestCode sq.qtype := by
  have htop : sq.scaled sq.vmax = ((largestCode sq.qtype : ℤ) : F) := by
    rw [sq.scaled_of_mem sq.range.le le_rfl, ← largestCode_mul_step, mul_div_assoc,
      div_self sq.step_pos.ne', mul_one, Int.cast_natCast]
  have hcode := leNat_encode hF sq sq.vmax
  rw [htop, hF.lround_intCast] at hcode
  have hle := encode_mono hF sq h
  have hmax := (sq.lround_scaled_mem hF v).2
  rw [← leNat_encode hF] at hmax
  omega

/-- A decoded code is encoded back. -/
theorem encode_decode (hF : ExactRounding F) (sq : ScalarQuantizer F) {code : Code}
    (hcode : code.length = sq.bytesPerValue) : sq.encode (sq.decode code) = code := by
  have hlt := leNat_lt code
  rw [hcode, ← largestCode_succ] at hlt
  have hle : (leNat code : F) ≤ largestCode sq.qtype := Nat.cast_le.mpr (by omega)
  have hstep := sq.step_pos
  have hscaled : sq.scaled (sq.decode code) = ((leNat code : ℤ) : F) := by
    rw [decode_eq hF, sq.scaled_of_mem, add_sub_cancel_left, mul_div_assoc,
      div_self hstep.ne', mul_one, Int.cast_natCast]
    · exact le_add_of_nonneg_right (mul_nonneg (Nat.cast_nonneg _) hstep.le)
    · have htop := mul_le_mul_of_nonneg_right hle hstep.le
      rw [largestCode_mul_step] at htop
      linarith
  rw [encode_eq hF, hscaled, hF.lround_intCast, Int.toNat_natCast, ← hcode, leBytes_leNat]

/-- Inside the range a value comes back within half a step. -/
theorem decode_encode (hF : ExactRounding F) (sq : ScalarQuantizer F) {v : F}
    (hmin : sq.vmin ≤ v) (hmax : v ≤ sq.vmax) :
    |sq.decode (sq.encode v) - v| ≤ sq.step / 2 := by
  have hstep := sq.step_pos
  have hcode : (leNat (sq.encode v) : F) = FloatFormat.lround (sq.scaled v) := by
    rw [← leNat_encode hF, Int.cast_natCast]
  have herror : sq.decode (sq.encode v) - v
      = -((sq.scaled v - FloatFormat.lround (sq.scaled v)) * sq.step) := by
    have hback : (v - sq.vmin) / sq.step * sq.step = v - sq.vmin := div_mul_cancel₀ _ hstep.ne'
    rw [decode_eq hF, hcode, sub_mul, sq.scaled_of_mem hmin hmax, hback]
    ring
  rw [herror, abs_neg, abs_mul, abs_of_pos hstep]
  calc |sq.scaled v - FloatFormat.lround (sq.scaled v)| * sq.step
      ≤ 1 / 2 * sq.step := mul_le_mul_of_nonneg_right (hF.near _) hstep.le
    _ = sq.step / 2 := by ring

/-- **The scalar quantizer is a faithful monotone codec**, at both widths and for every range. -/
theorem scalar_codec (hF : ExactRounding F) (sq : ScalarQuantizer F) :
    (∀ u v, u ≤ v → leNat (sq.encode u) ≤ leNat (sq.encode v)) ∧
    (∀ v, v ≤ sq.vmin → leNat (sq.encode v) = 0) ∧
    (∀ v, sq.vmax ≤ v → leNat (sq.encode v) = largestCode sq.qtype) ∧
    (∀ code : Code, code.length = sq.bytesPerValue → sq.encode (sq.decode code) = code) ∧
    (∀ v, sq.vmin ≤ v → v ≤ sq.vmax → |sq.decode (sq.encode v) - v| ≤ sq.step / 2) ∧
    ∀ (vals : List F) (i j : ℕ) (u v : F), vals[i]? = some u → vals[j]? = some v →
      ∃ c d, (sq.encodeArray vals)[i]? = some c ∧ (sq.encodeArray vals)[j]? = some d ∧
        (u ≤ v → leNat c ≤ leNat d) ∧ (leNat c < leNat d → u < v) := by
  refine ⟨fun u v => encode_mono hF sq, fun v => encode_of_le_vmin hF sq,
    fun v => encode_of_vmax_le hF sq, fun code => encode_decode hF sq,
    fun v => decode_encode hF sq, ?_⟩
  intro vals i j u v hu hv
  refine ⟨sq.encode u, sq.encode v, ?_, ?_, fun h => encode_mono hF sq h, fun h => ?_⟩
  · rw [encodeArray, List.getElem?_map, hu, Option.map_some]
  · rw [encodeArray, List.getElem?_map, hv, Option.map_some]
  · by_contra hle
    exact absurd h (not_lt.mpr (encode_mono hF sq (not_lt.mp hle)))

end ScalarQuantizer

end Codec

/-! ### Decoded scores -/

/-- The codes of a document and a query that meet at a term. -/
def sharedPairs (query row : SparseRow Code) : List (Code × Code) :=
  row.flatMap fun entry =>
    (CountingSort.itemsOf query entry.1).map fun code => (entry.2, code)

/-- An inner product is the sum over the pairs that meet. -/
theorem rowProduct_eq_sum_sharedPairs {R : Type} [NonUnitalNonAssocSemiring R]
    (decodeQuery decodeDoc : Code → R) (query row : SparseRow Code) :
    rowProduct (decodeRow decodeQuery query) (decodeRow decodeDoc row)
      = ((sharedPairs query row).map fun pair => decodeDoc pair.1 * decodeQuery pair.2).sum := by
  induction row with
  | nil => rfl
  | cons entry row ih =>
      rw [sharedPairs, List.flatMap_cons, List.map_append, List.sum_append, ← sharedPairs, ← ih,
        List.map_map]
      have hentry : decodeDoc entry.2
            * ((CountingSort.itemsOf query entry.1).map decodeQuery).sum
          = ((CountingSort.itemsOf query entry.1).map
              fun code => decodeDoc entry.2 * decodeQuery code).sum :=
        (List.sum_map_mul_left ..).symm
      show decodeDoc entry.2 * (CountingSort.itemsOf (decodeRow decodeQuery query) entry.1).sum + _
        = _
      rw [itemsOf_decodeRow, hentry]
      rfl

section Scores

variable {F : Type} [Field F] [LinearOrder F] [IsStrictOrderedRing F] [FloatFormat F]

namespace ScalarQuantizer

/-- The decoded score of a document is the inner product of the decoded values. -/
def DecodesScore (sq querySq : ScalarQuantizer F) (query row : SparseRow Code) : Prop :=
  sq.decodeDotProduct (exactScore F sq.bytesPerValue query row) querySq
    = rowProduct (decodeRow querySq.decode query) (decodeRow sq.decode row)

instance (sq querySq : ScalarQuantizer F) (query row : SparseRow Code) :
    Decidable (sq.DecodesScore querySq query row) :=
  inferInstanceAs (Decidable (_ = _))

/-- Codes of the width of a quantizer. -/
def CodesOf (sq : ScalarQuantizer F) (row : SparseRow Code) : Prop :=
  ∀ entry ∈ row, entry.2.length = sq.bytesPerValue

instance (sq : ScalarQuantizer F) (row : SparseRow Code) : Decidable (sq.CodesOf row) :=
  inferInstanceAs (Decidable (∀ entry ∈ row, entry.2.length = sq.bytesPerValue))

/-- The decoded score adds up the products of the codes, in steps. -/
theorem decodeDotProduct_eq (hF : ExactRounding F) {sq querySq : ScalarQuantizer F}
    (htype : querySq.qtype = sq.qtype) (query row : SparseRow Code) :
    sq.decodeDotProduct (exactScore F sq.bytesPerValue query row) querySq
      = ((sharedPairs query row).map fun pair =>
          (leNat pair.1 * sq.step) * (leNat pair.2 * querySq.step)).sum := by
  have hwidth : sq.bytesPerValue ≠ U32 := by
    rw [bytesPerValue]
    cases sq.qtype <;> decide
  have hmax : (largestCode sq.qtype : F) ≠ 0 := (Nat.cast_pos.mpr (largestCode_pos sq.qtype)).ne'
  have hscale : FloatFormat.div ((sq.vmax - sq.vmin) * (querySq.vmax - querySq.vmin))
      (kMax sq.qtype * kMax sq.qtype) = sq.step * querySq.step := by
    rw [kMax_eq hF, hF.div _ _ (mul_ne_zero hmax hmax), step, step, htype, div_mul_div_comm]
  rw [decodeDotProduct, hscale, exactScore, if_neg hwidth, hF.ofInt, Int.cast_natCast,
    rowProduct_eq_sum_sharedPairs, Nat.cast_list_sum, List.map_map, ← List.sum_map_mul_right]
  congr 1
  refine List.map_congr_left fun pair _ => ?_
  show ((leNat pair.1 * leNat pair.2 : ℕ) : F) * (sq.step * querySq.step) = _
  rw [Nat.cast_mul]
  ring

/-- Multiplying out the decoded values leaves cross terms with the lower ends of the ranges. -/
theorem sum_decoded_products (hF : ExactRounding F) (sq querySq : ScalarQuantizer F)
    (pairs : List (Code × Code)) :
    (pairs.map fun pair => sq.decode pair.1 * querySq.decode pair.2).sum
        + pairs.length * (sq.vmin * querySq.vmin)
      = (pairs.map fun pair => (leNat pair.1 * sq.step) * (leNat pair.2 * querySq.step)).sum
        + (sq.vmin * (pairs.map fun pair => querySq.decode pair.2).sum
          + querySq.vmin * (pairs.map fun pair => sq.decode pair.1).sum) := by
  induction pairs with
  | nil => simp
  | cons pair pairs ih =>
      simp only [List.map_cons, List.sum_cons, List.length_cons, Nat.cast_add, Nat.cast_one]
      rw [decode_eq hF sq, decode_eq hF querySq]
      linear_combination ih

/-- The cross terms of one document and one query cancel. -/
def OffsetsCancel (sq querySq : ScalarQuantizer F) (query row : SparseRow Code) : Prop :=
  let pairs := sharedPairs query row
  sq.vmin * (pairs.map fun pair => querySq.decode pair.2).sum
      + querySq.vmin * (pairs.map fun pair => sq.decode pair.1).sum
    = pairs.length * (sq.vmin * querySq.vmin)

theorem decodesScore_iff (hF : ExactRounding F) {sq querySq : ScalarQuantizer F}
    (htype : querySq.qtype = sq.qtype) (query row : SparseRow Code) :
    sq.DecodesScore querySq query row ↔ sq.OffsetsCancel querySq query row := by
  have hsum := sum_decoded_products hF sq querySq (sharedPairs query row)
  rw [DecodesScore, decodeDotProduct_eq hF htype, rowProduct_eq_sum_sharedPairs, OffsetsCancel]
  constructor
  · intro heq
    rw [← heq] at hsum
    exact (add_left_cancel hsum).symm
  · intro hcancel
    rw [hcancel] at hsum
    exact (add_right_cancel hsum).symm

/-- One term with the two codes. -/
theorem offsetsCancel_single (hF : ExactRounding F) (sq querySq : ScalarQuantizer F)
    (code queryCode : Code) :
    sq.OffsetsCancel querySq [(0, queryCode)] [(0, code)] ↔
      sq.vmin * (querySq.vmin + leNat queryCode * querySq.step)
        + querySq.vmin * (leNat code * sq.step) = 0 := by
  have hpairs : sharedPairs [(0, queryCode)] [(0, code)] = [(code, queryCode)] := rfl
  rw [OffsetsCancel, hpairs]
  simp only [List.map_cons, List.map_nil, List.sum_cons, List.sum_nil, List.length_cons,
    List.length_nil, decode_eq hF]
  constructor
  · intro h
    linear_combination h
  · intro h
    linear_combination h

/-- **Decoded scores are those of the decoded vectors** exactly where the cross terms cancel, and
so for every document and query exactly when both ranges start at zero. -/
theorem decodeDotProduct_iff (hF : ExactRounding F) (sq querySq : ScalarQuantizer F)
    (htype : querySq.qtype = sq.qtype) :
    (∀ query row, sq.DecodesScore querySq query row ↔ sq.OffsetsCancel querySq query row) ∧
    ((∀ query row, querySq.CodesOf query → sq.CodesOf row → sq.DecodesScore querySq query row) ↔
      sq.vmin = 0 ∧ querySq.vmin = 0) := by
  refine ⟨decodesScore_iff hF htype, ?_, ?_⟩
  · intro hall
    have hcancel : ∀ c q : ℕ, c < 2 → q < 2 →
        sq.vmin * (querySq.vmin + q * querySq.step) + querySq.vmin * (c * sq.step) = 0 := by
      intro c q hc hq
      have hfits : ∀ (s : ScalarQuantizer F) (n : ℕ), n < 2 → n < 256 ^ s.bytesPerValue := by
        intro s n hn
        rw [← largestCode_succ]
        have hpos := largestCode_pos s.qtype
        omega
      have hcodes : ∀ (s : ScalarQuantizer F) (n : ℕ),
          s.CodesOf [(0, leBytes s.bytesPerValue n)] := by
        intro s n entry hentry
        rw [List.mem_singleton.mp hentry]
        exact length_leBytes _ _
      have hscore := hall _ _ (hcodes querySq q) (hcodes sq c)
      rw [decodesScore_iff hF htype, offsetsCancel_single hF, leNat_leBytes (hfits _ _ hc),
        leNat_leBytes (hfits _ _ hq)] at hscore
      exact hscore
    have h00 := hcancel 0 0 (by decide) (by decide)
    have h01 := hcancel 0 1 (by decide) (by decide)
    have h10 := hcancel 1 0 (by decide) (by decide)
    push_cast at h00 h01 h10
    have hdoc : sq.vmin * querySq.step = 0 := by linear_combination h01 - h00
    have hquery : querySq.vmin * sq.step = 0 := by linear_combination h10 - h00
    exact ⟨(mul_eq_zero.mp hdoc).resolve_right querySq.step_pos.ne',
      (mul_eq_zero.mp hquery).resolve_right sq.step_pos.ne'⟩
  · rintro ⟨hdoc, hquery⟩ query row - -
    rw [decodesScore_iff hF htype, OffsetsCancel, hdoc, hquery]
    ring

end ScalarQuantizer

end Scores

/-! ### Rational numbers as floats -/

/-- The exponent of the largest power of two that is at most a positive number. -/
def binaryExponent (x : ℚ) : ℤ :=
  let e := (x.num.natAbs.log2 : ℤ) - x.den.log2
  if x < 2 ^ e then e - 1 else e

/-- The float that is a fraction, to compute with: the bytes are those of IEEE 754, and what has
too many digits for them is cut off. -/
instance : FloatFormat ℚ where
  ofBits code :=
    let bits := leNat code
    let magnitude : ℚ := if bits % 2 ^ 31 = 0 then 0
      else (bits % 2 ^ 23 + 2 ^ 23 : ℕ) * 2 ^ ((bits / 2 ^ 23 % 256 : ℕ) - 150 : ℤ)
    if bits < 2 ^ 31 then magnitude else -magnitude
  toBits x := leBytes U32 (if x = 0 then 0 else
    let e := binaryExponent |x|
    (if x < 0 then 2 ^ 31 else 0) + (127 + e).toNat * 2 ^ 23
      + (⌊|x| * 2 ^ (23 - e)⌋.toNat - 2 ^ 23))
  length_toBits _ := length_leBytes U32 _
  ofInt i := i
  truncate x := if 0 ≤ x then ⌊x⌋ else ⌈x⌉
  lround x := if 0 ≤ x then ⌊x + 1 / 2⌋ else ⌈x - 1 / 2⌉
  literal mantissa digits := mantissa / 10 ^ digits
  div a b := a / b
  ratioGe numerator denominator bound :=
    if denominator = 0 then decide (0 < numerator) else decide (bound ≤ numerator / denominator)
  isFinite _ := true

theorem exactRounding_rat : ExactRounding ℚ where
  ofInt _ := rfl
  div _ _ _ := rfl
  near x := by
    show |x - ((if 0 ≤ x then ⌊x + 1 / 2⌋ else ⌈x - 1 / 2⌉ : ℤ) : ℚ)| ≤ 1 / 2
    rw [abs_le]
    split
    · have hlow := Int.floor_le (x + 1 / 2)
      have hhigh := Int.lt_floor_add_one (x + 1 / 2)
      constructor <;> linarith
    · have hlow := Int.le_ceil (x - 1 / 2)
      have hhigh := Int.ceil_lt_add_one (x - 1 / 2)
      constructor <;> linarith
  away x := by
    show |x - ((if 0 ≤ x then ⌊x + 1 / 2⌋ else ⌈x - 1 / 2⌉ : ℤ) : ℚ)| = 1 / 2 →
      |x| < |((if 0 ≤ x then ⌊x + 1 / 2⌋ else ⌈x - 1 / 2⌉ : ℤ) : ℚ)|
    split
    · rename_i hx
      have hlow := Int.floor_le (x + 1 / 2)
      have hhigh := Int.lt_floor_add_one (x + 1 / 2)
      intro hhalf
      rw [abs_of_nonneg hx]
      rcases abs_eq (by norm_num : (0 : ℚ) ≤ 1 / 2) |>.mp hhalf with h | h
      · linarith
      · exact lt_of_lt_of_le (by linarith) (le_abs_self _)
    · rename_i hx
      have hlow := Int.le_ceil (x - 1 / 2)
      have hhigh := Int.ceil_lt_add_one (x - 1 / 2)
      intro hhalf
      rw [abs_of_neg (not_le.mp hx)]
      rcases abs_eq (by norm_num : (0 : ℚ) ≤ 1 / 2) |>.mp hhalf with h | h
      · exact lt_of_lt_of_le (by linarith) (neg_le_abs _)
      · linarith

/-- Codes of one byte for the numbers from 1 to 256. -/
def offsetQuantizer : ScalarQuantizer ℚ :=
  ⟨.QT_8bit, 1, 256, ⟨rfl, rfl⟩, by decide +kernel, by decide +kernel⟩

/-- Codes of one byte that are their own numbers. -/
def plainQuantizer : ScalarQuantizer ℚ :=
  ⟨.QT_8bit, 0, 255, ⟨rfl, rfl⟩, by decide +kernel, by decide +kernel⟩

namespace ScalarQuantizer

theorem scalar_codec_one_byte :
    offsetQuantizer.encode (7 / 2) = [3] ∧
      |offsetQuantizer.decode (offsetQuantizer.encode (7 / 2)) - 7 / 2|
        ≤ offsetQuantizer.step / 2 :=
  ⟨by decide +kernel, (scalar_codec exactRounding_rat offsetQuantizer).2.2.2.2.1 (7 / 2)
    (by decide +kernel) (by decide +kernel)⟩

theorem decodeDotProduct_iff_one_byte :
    plainQuantizer.DecodesScore plainQuantizer [(0, [1])] [(0, [2])] :=
  (decodeDotProduct_iff exactRounding_rat plainQuantizer plainQuantizer rfl).2.mpr ⟨rfl, rfl⟩
    [(0, [1])] [(0, [2])] (by decide +kernel) (by decide +kernel)

/-- Code 0 stands for 1, and its product with another 1 is decoded as 0. -/
theorem decodeDotProduct_loses_offset :
    ¬ ∀ sq querySq : ScalarQuantizer ℚ, querySq.qtype = sq.qtype → ∀ query row,
      querySq.CodesOf query → sq.CodesOf row → sq.DecodesScore querySq query row := by
  intro hall
  have hscore := hall offsetQuantizer plainQuantizer rfl [(0, [1])] [(0, [0])]
    (by decide +kernel) (by decide +kernel)
  revert hscore
  decide +kernel

end ScalarQuantizer

end Nsparse
