/-
Nsparse/IntegerKernels.lean

The scalar integer kernels with their accumulators.

`dot_product_uint8_dense` adds its products up in an `int`, `dot_product_uint16_dense`
in an `int64_t`; both are `dotProductDense` at the bits of their accumulator, and a
value the accumulator cannot hold is an overflow.  Products are not negative, so a
kernel overflows exactly when the whole sum does (`dotProductDense_eq`).

At 16 bits no document of different 16-bit terms gets there.  At 8 bits one does as
soon as it shares 33026 terms of full codes with the query (`dotProducts_exact_iff`).
A search goes on with what is left of a sum that overflowed
(`computeSimilarity_eq_productSum`); where the kernel does not overflow it scores with the
kernel's sum (`computeSimilarity_eq_of_kernel`).
-/
import Nsparse.DenseQuery

namespace Nsparse

open Wire

/-! ### The kernels -/

inductive KernelFault
  | outOfBuffer
  | overflow
  deriving Repr, DecidableEq

/-- A result of signed arithmetic on `bits` bits; outside of them it is undefined. -/
def signed (bits : ℕ) (x : ℤ) : Except KernelFault ℤ :=
  if -2 ^ (bits - 1) ≤ x ∧ x < 2 ^ (bits - 1) then .ok x else .error .overflow

/-- `result += weights[i] * dense[indices[i]]`. -/
def addProduct (bits : ℕ) (dense : List Code) (result : ℤ) (entry : ℕ × Code) :
    Except KernelFault ℤ :=
  match dense[entry.1]? with
  | none => .error .outOfBuffer
  | some code => do
      let product ← signed bits (leNat entry.2 * leNat code)
      signed bits (result + product)

/-- The loop of a kernel whose accumulator has `bits` bits. -/
def dotProductDense (bits : ℕ) (dense : List Code) (row : SparseRow Code) :
    Except KernelFault ℤ :=
  row.foldlM (addProduct bits dense) 0

variable {F : Type} [FloatFormat F]

/-- `dot_product_uint8_dense`: an `int` accumulator. -/
def dotProductUint8Dense (dense : List Code) (row : SparseRow Code) : Except KernelFault F :=
  (dotProductDense 32 dense row).map FloatFormat.ofInt

/-- `dot_product_uint16_dense`: an `int64_t` accumulator. -/
def dotProductUint16Dense (dense : List Code) (row : SparseRow Code) : Except KernelFault F :=
  (dotProductDense 64 dense row).map FloatFormat.ofInt

/-- The sum of the products. -/
def productSum (dense : List Code) (row : SparseRow Code) : ℕ :=
  (row.map fun entry => leNat entry.2 * leNat (dense.getD entry.1 [])).sum

/-! ### One product and all of them -/

theorem signed_natCast (bits n : ℕ) :
    signed bits (n : ℤ) = if n < 2 ^ (bits - 1) then .ok (n : ℤ) else .error .overflow := by
  have hlow : -2 ^ (bits - 1) ≤ (n : ℤ) := (neg_nonpos.mpr (by positivity)).trans (Nat.cast_nonneg n)
  have hiff : (n : ℤ) < 2 ^ (bits - 1) ↔ n < 2 ^ (bits - 1) := by
    rw [← Nat.cast_ofNat, ← Nat.cast_pow, Nat.cast_lt]
  simp only [signed, hlow, hiff, true_and]

/-- One product is added, unless the sum is too large. -/
theorem addProduct_eq {bits : ℕ} {dense : List Code} {entry : ℕ × Code}
    (hentry : entry.1 < dense.length) (acc : ℕ) :
    addProduct bits dense (acc : ℤ) entry
      = if acc + leNat entry.2 * leNat (dense.getD entry.1 []) < 2 ^ (bits - 1) then
          .ok ((acc + leNat entry.2 * leNat (dense.getD entry.1 []) : ℕ) : ℤ)
        else .error .overflow := by
  have hcode : dense[entry.1]? = some (dense.getD entry.1 []) := by
    rw [List.getElem?_eq_getElem hentry, List.getD_eq_getElem _ _ hentry]
  rw [addProduct, hcode]
  generalize dense.getD entry.1 [] = code
  show ((signed bits (leNat entry.2 * leNat code)).bind fun product => signed bits (acc + product))
    = _
  rw [← Nat.cast_mul, signed_natCast]
  by_cases hproduct : leNat entry.2 * leNat code < 2 ^ (bits - 1)
  · rw [if_pos hproduct]
    show signed bits (acc + (leNat entry.2 * leNat code : ℕ)) = _
    rw [← Nat.cast_add, signed_natCast]
  · -- a product that is too large makes the sum too large
    rw [if_neg hproduct, if_neg (by omega)]
    rfl

theorem foldlM_addProduct {bits : ℕ} {dense : List Code} {row : SparseRow Code}
    (hrow : TermsWithin dense.length row) {acc : ℕ} (hacc : acc < 2 ^ (bits - 1)) :
    row.foldlM (addProduct bits dense) (acc : ℤ)
      = if acc + productSum dense row < 2 ^ (bits - 1) then
          .ok ((acc + productSum dense row : ℕ) : ℤ)
        else .error .overflow := by
  induction row generalizing acc with
  | nil => exact (if_pos hacc).symm
  | cons entry row ih =>
      obtain ⟨hentry, hrest⟩ := List.forall_mem_cons.mp hrow
      have hsum : productSum dense (entry :: row)
          = leNat entry.2 * leNat (dense.getD entry.1 []) + productSum dense row := List.sum_cons
      rw [List.foldlM_cons, addProduct_eq hentry, hsum, ← add_assoc]
      by_cases hstep : acc + leNat entry.2 * leNat (dense.getD entry.1 []) < 2 ^ (bits - 1)
      · rw [if_pos hstep]
        exact ih hrest hstep
      · rw [if_neg hstep, if_neg (by omega)]
        rfl

/-- **A kernel overflows exactly when the whole sum does.** -/
theorem dotProductDense_eq {bits : ℕ} {dense : List Code} {row : SparseRow Code}
    (hrow : TermsWithin dense.length row) :
    dotProductDense bits dense row
      = if productSum dense row < 2 ^ (bits - 1) then .ok (productSum dense row : ℤ)
        else .error .overflow := by
  have hpos : 0 < 2 ^ (bits - 1) := by positivity
  have hrun := foldlM_addProduct hrow hpos
  rwa [Nat.cast_zero, zero_add] at hrun

/-- The search goes on with what the accumulator holds. -/
theorem computeSimilarity_eq_productSum {F : Type} [Zero F] [Add F] [Sub F] [Mul F] [LT F]
    [DecidableLT F] [FloatFormat F] {elementSize : ℕ} (hwidth : elementSize ≠ U32)
    {dense : List Code} {row : SparseRow Code} (hrow : TermsWithin dense.length row) :
    computeSimilarity elementSize dense row
      = some (FloatFormat.ofInt (wrapped (accumulatorBits elementSize) (productSum dense row)) : F)
    := by
  rw [computeSimilarity_eq_ite, if_pos hrow, similarityOf, if_neg hwidth, foldl_mulAdd, zero_add,
    productSum]

/-- **The score of a search is the kernel's sum** wherever the kernel does not overflow. -/
theorem computeSimilarity_eq_of_kernel {F : Type} [Zero F] [Add F] [Sub F] [Mul F] [LT F]
    [DecidableLT F] [FloatFormat F] {elementSize : ℕ} (hwidth : elementSize ≠ U32)
    {dense : List Code} {row : SparseRow Code} (hrow : TermsWithin dense.length row) {sum : ℤ}
    (h : dotProductDense (accumulatorBits elementSize) dense row = .ok sum) :
    computeSimilarity elementSize dense row = some (FloatFormat.ofInt sum : F) := by
  rw [dotProductDense_eq hrow] at h
  split at h
  · rename_i hfits
    rw [computeSimilarity_eq_productSum hwidth hrow,
      wrapped_of_lt (accumulatorBits_pos elementSize) hfits, Except.ok.inj h]
  · cases h

/-! ### How large the sum can be -/

/-- What a search hands to a kernel: different 16-bit terms of the buffer, and codes of one width
on both sides. -/
structure KernelInput (width : ℕ) (dense : List Code) (row : SparseRow Code) : Prop where
  terms : (row.map Prod.fst).Nodup
  sixteenBits : TermsWithin (2 ^ 16) row
  within : TermsWithin dense.length row
  stored : ∀ entry ∈ row, entry.2.length = width
  query : ∀ code ∈ dense, code.length = width

/-- Different 16-bit terms are at most 65536. -/
theorem KernelInput.length_le {width : ℕ} {dense : List Code} {row : SparseRow Code}
    (h : KernelInput width dense row) : row.length ≤ 2 ^ 16 := by
  have hsub : row.map Prod.fst ⊆ List.range (2 ^ 16) := by
    intro term hterm
    obtain ⟨entry, hentry, rfl⟩ := List.mem_map.mp hterm
    exact List.mem_range.mpr (h.sixteenBits entry hentry)
  have hle := (h.terms.subperm hsub).length_le
  rwa [List.length_map, List.length_range] at hle

theorem KernelInput.productSum_le {width : ℕ} {dense : List Code} {row : SparseRow Code}
    (h : KernelInput width dense row) :
    productSum dense row ≤ row.length * (256 ^ width - 1) ^ 2 := by
  rw [productSum, ← List.length_map (f := fun entry : ℕ × Code =>
    leNat entry.2 * leNat (dense.getD entry.1 []))]
  refine List.sum_le_card_nsmul _ _ fun product hproduct => ?_
  obtain ⟨entry, hentry, rfl⟩ := List.mem_map.mp hproduct
  have hstored := leNat_lt entry.2
  rw [h.stored entry hentry] at hstored
  have hquery := leNat_lt (dense.getD entry.1 [])
  have hlt := h.within entry hentry
  rw [List.getD_eq_getElem _ _ hlt] at hquery ⊢
  rw [h.query _ (List.getElem_mem hlt)] at hquery
  rw [sq]
  exact Nat.mul_le_mul (by omega) (by omega)

/-- A document of `n` full codes, against a query of full codes. -/
def fullInput (width n : ℕ) : List Code × SparseRow Code :=
  let code : Code := List.replicate width 255
  (List.replicate n code, (List.range n).map fun term => (term, code))

theorem fullInput_valid {width n : ℕ} (hn : n ≤ 2 ^ 16) :
    KernelInput width (fullInput width n).1 (fullInput width n).2 where
  terms := by
    rw [fullInput, List.map_map]
    exact (List.map_id _).symm ▸ List.nodup_range
  sixteenBits entry hentry := by
    obtain ⟨term, hterm, rfl⟩ := List.mem_map.mp hentry
    exact (List.mem_range.mp hterm).trans_le hn
  within entry hentry := by
    obtain ⟨term, hterm, rfl⟩ := List.mem_map.mp hentry
    rw [fullInput, List.length_replicate]
    exact List.mem_range.mp hterm
  stored entry hentry := by
    obtain ⟨term, -, rfl⟩ := List.mem_map.mp hentry
    exact List.length_replicate
  query code hcode := by
    rw [List.eq_of_mem_replicate hcode]
    exact List.length_replicate

theorem length_fullInput (width n : ℕ) : (fullInput width n).2.length = n := by
  rw [fullInput, List.length_map, List.length_range]

/-- The sum of full codes of one byte. -/
theorem productSum_fullInput (n : ℕ) :
    productSum (fullInput U8 n).1 (fullInput U8 n).2 = n * 65025 := by
  rw [fullInput, productSum, List.map_map]
  have hterm : ∀ term ∈ List.range n,
      ((fun entry : ℕ × Code => leNat entry.2
        * leNat ((List.replicate n (List.replicate U8 255)).getD entry.1 []))
          ∘ fun term => (term, List.replicate U8 255)) term = 65025 := by
    intro term hterm
    have hget : (List.replicate n (List.replicate U8 (255 : UInt8))).getD term []
        = List.replicate U8 255 := by
      rw [List.getD_eq_getElem _ _ (by rw [List.length_replicate]; exact List.mem_range.mp hterm)]
      exact List.getElem_replicate _
    show leNat (List.replicate U8 255) * leNat (List.getD _ term []) = 65025
    rw [hget]
    rfl
  rw [List.map_congr_left hterm, List.map_const', List.sum_replicate, List.length_range,
    smul_eq_mul]

/-! ### The two kernels -/

/-- The kernel returns the mathematical sum. -/
def ReturnsSum (F : Type) [FloatFormat F]
    (kernel : List Code → SparseRow Code → Except KernelFault F) (dense : List Code)
    (row : SparseRow Code) : Prop :=
  kernel dense row = .ok (FloatFormat.ofInt (productSum dense row : ℤ))

theorem returnsSum_uint16 {dense : List Code} {row : SparseRow Code}
    (h : KernelInput U16 dense row) : ReturnsSum F dotProductUint16Dense dense row := by
  have hlength := h.length_le
  have hsum : productSum dense row < 2 ^ (64 - 1) :=
    calc productSum dense row ≤ row.length * (256 ^ U16 - 1) ^ 2 := h.productSum_le
      _ ≤ 2 ^ 16 * (256 ^ U16 - 1) ^ 2 := Nat.mul_le_mul_right _ hlength
      _ < 2 ^ (64 - 1) := by decide
  rw [ReturnsSum, dotProductUint16Dense, dotProductDense_eq h.within, if_pos hsum]
  rfl

theorem returnsSum_uint8_iff {dense : List Code} {row : SparseRow Code}
    (h : TermsWithin dense.length row) :
    ReturnsSum F dotProductUint8Dense dense row ↔ productSum dense row < 2 ^ 31 := by
  rw [ReturnsSum, dotProductUint8Dense, dotProductDense_eq h]
  constructor
  · intro hok
    by_contra hsum
    rw [if_neg hsum] at hok
    cases hok
  · intro hsum
    rw [if_pos hsum]
    rfl

/-- **Integer dot products do not overflow** at 16 bits; at 8 bits they do exactly when the sum
reaches `2 ^ 31`, which takes 33026 terms, and 33026 terms of full codes get there. -/
theorem dotProducts_exact_iff :
    (∀ dense row, KernelInput U16 dense row → ReturnsSum F dotProductUint16Dense dense row) ∧
    (∀ dense row, KernelInput U8 dense row →
      (ReturnsSum F dotProductUint8Dense dense row ↔ productSum dense row < 2 ^ 31)) ∧
    ∀ n ≤ 2 ^ 16,
      (∀ dense row, KernelInput U8 dense row → row.length = n →
        ReturnsSum F dotProductUint8Dense dense row) ↔ n ≤ 33025 := by
  refine ⟨fun dense row => returnsSum_uint16, fun dense row h => returnsSum_uint8_iff h.within,
    fun n hn => ⟨fun hall => ?_, fun hle dense row h hlength => ?_⟩⟩
  · have hfull := hall _ _ (fullInput_valid hn) (length_fullInput U8 n)
    rw [returnsSum_uint8_iff (fullInput_valid hn).within, productSum_fullInput] at hfull
    omega
  · rw [returnsSum_uint8_iff h.within]
    calc productSum dense row ≤ row.length * (256 ^ U8 - 1) ^ 2 := h.productSum_le
      _ ≤ 33025 * (256 ^ U8 - 1) ^ 2 := Nat.mul_le_mul_right _ (hlength.trans_le hle)
      _ < 2 ^ 31 := by decide

/-- 33026 terms of full codes overflow the `int`. -/
theorem dotProductUint8Dense_overflows :
    ¬ ∀ dense row, KernelInput U8 dense row → ReturnsSum ℤ dotProductUint8Dense dense row := by
  intro hall
  have hvalid : KernelInput U8 (fullInput U8 33026).1 (fullInput U8 33026).2 :=
    fullInput_valid (by decide)
  have hfull := hall _ _ hvalid
  rw [returnsSum_uint8_iff hvalid.within, productSum_fullInput] at hfull
  omega

end Nsparse
