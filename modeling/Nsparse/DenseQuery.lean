/-
Nsparse/DenseQuery.lean

The dense query buffer, and the scores computed from it.

A query whose terms are within the dimension is scattered into a buffer of zeros, and
the buffer is back to zeros after `clearBuffer` (`clearBuffer_scatter`), repeated terms
or not.  In between it holds at each term the last code the query has for it, so that
`computeSimilarity` is the inner product of the query and the document
(`similarityOf_eq_exactScore`), provided that the document's terms are within the
dimension too and that the accumulator of the kernel holds the sum; outside of the
dimension it reads outside the buffer (`computeSimilarity_eq_ite`).
-/
import Nsparse.SeismicSearch

namespace Nsparse

variable {F : Type}

/-! ### Scattering -/

/-- Every term is a position of a buffer of this length. -/
def TermsWithin {V : Type} (dimension : ℕ) (row : SparseRow V) : Prop :=
  ∀ entry ∈ row, entry.1 < dimension

instance {V : Type} (dimension : ℕ) (row : SparseRow V) : Decidable (TermsWithin dimension row) :=
  inferInstanceAs (Decidable (∀ entry ∈ row, entry.1 < dimension))

/-- The code a query leaves at a term that had `code` before. -/
def lastCode (query : SparseRow Code) (term : ℕ) (code : Code) : Code :=
  query.foldl (fun code entry => if entry.1 = term then entry.2 else code) code

theorem lastCode_cons (entry : ℕ × Code) (query : SparseRow Code) (term : ℕ) (code : Code) :
    lastCode (entry :: query) term code
      = lastCode query term (if entry.1 = term then entry.2 else code) := rfl

theorem lastCode_of_absent {query : SparseRow Code} {term : ℕ}
    (h : ∀ entry ∈ query, entry.1 ≠ term) (code : Code) : lastCode query term code = code := by
  induction query with
  | nil => rfl
  | cons entry query ih =>
      obtain ⟨hentry, hquery⟩ := List.forall_mem_cons.mp h
      rw [lastCode_cons, if_neg hentry, ih hquery]

/-- The buffer after the writes. -/
def written (dense : List Code) (query : SparseRow Code) : List Code :=
  query.foldl (fun dense entry => dense.set entry.1 entry.2) dense

@[simp] theorem length_written (dense : List Code) (query : SparseRow Code) :
    (written dense query).length = dense.length := by
  induction query generalizing dense with
  | nil => rfl
  | cons entry query ih => exact (ih _).trans (List.length_set ..)

theorem scatter_cons (dense : List Code) (entry : ℕ × Code) (query : SparseRow Code) :
    scatter dense (entry :: query)
      = if entry.1 < dense.length then scatter (dense.set entry.1 entry.2) query
        else .error .outOfBuffer := by
  by_cases h : entry.1 < dense.length
  · rw [scatter, List.foldlM_cons, if_pos h, if_pos h]
    rfl
  · rw [scatter, List.foldlM_cons, if_neg h, if_neg h]
    rfl

theorem scatter_eq {dense : List Code} {query : SparseRow Code}
    (h : TermsWithin dense.length query) : scatter dense query = .ok (written dense query) := by
  induction query generalizing dense with
  | nil => rfl
  | cons entry query ih =>
      obtain ⟨hentry, hquery⟩ := List.forall_mem_cons.mp h
      rw [scatter_cons, if_pos hentry]
      apply ih
      rw [List.length_set]
      exact hquery

theorem scatter_eq_error {dense : List Code} {query : SparseRow Code}
    (h : ¬ TermsWithin dense.length query) : scatter dense query = .error .outOfBuffer := by
  induction query generalizing dense with
  | nil => exact absurd (fun _ => nofun) h
  | cons entry query ih =>
      rw [scatter_cons]
      split
      · rename_i hentry
        apply ih
        rw [List.length_set]
        exact fun hquery => h (List.forall_mem_cons.mpr ⟨hentry, hquery⟩)
      · rfl

theorem getElem?_written (dense : List Code) (query : SparseRow Code) (term : ℕ) :
    (written dense query)[term]? = dense[term]?.map (lastCode query term) := by
  induction query generalizing dense with
  | nil =>
      rcases hterm : dense[term]? with - | code
      · exact hterm
      · exact hterm
  | cons entry query ih =>
      show (written (dense.set entry.1 entry.2) query)[term]? = _
      rw [ih, List.getElem?_set]
      by_cases hterm : entry.1 = term
      · rw [if_pos hterm, hterm]
        by_cases hlt : term < dense.length
        · rw [if_pos hlt, List.getElem?_eq_getElem hlt]
          show _ = some (lastCode query term (if entry.1 = term then entry.2 else _))
          rw [if_pos hterm]
          rfl
        · rw [if_neg hlt, List.getElem?_eq_none (not_lt.mp hlt)]
          rfl
      · have hcons : lastCode (entry :: query) term = lastCode query term := by
          funext code
          rw [lastCode_cons, if_neg hterm]
        rw [if_neg hterm, hcons]

theorem getElem?_zeroBuffer {dimension elementSize term : ℕ} (h : term < dimension) :
    (zeroBuffer dimension elementSize)[term]? = some (zeroCode elementSize) := by
  rw [zeroBuffer, List.getElem?_replicate, if_pos h]

@[simp] theorem length_zeroBuffer (dimension elementSize : ℕ) :
    (zeroBuffer dimension elementSize).length = dimension := List.length_replicate ..

/-- Writing zeros at the terms of a query takes back what the query wrote. -/
theorem lastCode_zero (elementSize : ℕ) (query : SparseRow Code) (term : ℕ) :
    lastCode (query.map fun entry => (entry.1, zeroCode elementSize)) term
      (lastCode query term (zeroCode elementSize)) = zeroCode elementSize := by
  -- for any code that is zero unless the query has the term
  suffices hany : ∀ code, (code = zeroCode elementSize ∨ ∃ entry ∈ query, entry.1 = term) →
      lastCode (query.map fun entry => (entry.1, zeroCode elementSize)) term code
        = zeroCode elementSize by
    apply hany
    by_cases hterm : ∃ entry ∈ query, entry.1 = term
    · exact .inr hterm
    · exact .inl (lastCode_of_absent (fun entry hentry heq => hterm ⟨entry, hentry, heq⟩) _)
  intro code hcode
  induction query generalizing code with
  | nil =>
      rcases hcode with rfl | ⟨entry, hentry, -⟩
      · rfl
      · cases hentry
  | cons entry query ih =>
      rw [List.map_cons, lastCode_cons]
      apply ih
      by_cases hterm : entry.1 = term
      · exact .inl (if_pos hterm)
      · rw [if_neg hterm]
        rcases hcode with hcode | ⟨other, hother, heq⟩
        · exact .inl hcode
        · rcases List.mem_cons.mp hother with rfl | hother
          · exact absurd heq hterm
          · exact .inr ⟨other, hother, heq⟩

/-- **The buffer is clean again** after a query, whatever terms it repeats. -/
theorem clearBuffer_scatter {dimension elementSize : ℕ} {query : SparseRow Code}
    (h : TermsWithin dimension query) :
    scatter (zeroBuffer dimension elementSize) query
        = .ok (written (zeroBuffer dimension elementSize) query) ∧
      clearBuffer elementSize (written (zeroBuffer dimension elementSize) query) query
        = .ok (zeroBuffer dimension elementSize) := by
  have hwithin : TermsWithin (zeroBuffer dimension elementSize).length query := by
    rw [length_zeroBuffer]
    exact h
  refine ⟨scatter_eq hwithin, ?_⟩
  have hback : TermsWithin (written (zeroBuffer dimension elementSize) query).length
      (query.map fun entry => (entry.1, zeroCode elementSize)) := by
    rw [length_written]
    exact List.forall_mem_map.mpr hwithin
  rw [clearBuffer, scatter_eq hback]
  congr 1
  apply List.ext_getElem?
  intro term
  rw [getElem?_written, getElem?_written]
  by_cases hterm : term < dimension
  · rw [getElem?_zeroBuffer hterm, Option.map_some, Option.map_some, lastCode_zero]
  · rw [List.getElem?_eq_none (by simpa using hterm)]
    rfl

/-! ### Batches -/

/-- The queries of a batch, each run by itself. -/
def eachAlone (single : SparseRow Code → Except SearchFault (List F × List ℤ)) :
    List (SparseRow Code) → Except SearchFault (SearchRows F)
  | [] => .ok ([], [])
  | query :: queries => do
      let result ← single query
      let (ds, ls) ← eachAlone single queries
      .ok (result.1 :: ds, result.2 :: ls)

/-- A batch has an answer when every query has, and nothing else decides what the answer is. -/
theorem eachAlone_iff {single : SparseRow Code → Except SearchFault (List F × List ℤ)}
    {P : SparseRow Code → List F × List ℤ → Prop} {queries : List (SparseRow Code)} :
    (∃ results : List (List F × List ℤ), eachAlone single queries
        = .ok (results.map Prod.fst, results.map Prod.snd) ∧ List.Forall₂ P queries results) ↔
      ∀ query ∈ queries, ∃ result, single query = .ok result ∧ P query result := by
  induction queries with
  | nil => exact ⟨fun _ _ => nofun, fun _ => ⟨[], rfl, .nil⟩⟩
  | cons query queries ih =>
      rw [List.forall_mem_cons, ← ih]
      constructor
      · rintro ⟨results, hok, hP⟩
        cases hP with
        | cons hresult hresults =>
            rename_i result results
            rw [eachAlone] at hok
            rcases hsingle : single query with e | alone
            · rw [hsingle] at hok
              cases hok
            · rcases hrest : eachAlone single queries with e | ⟨ds, ls⟩
              · rw [hsingle, hrest] at hok
                cases hok
              · rw [hsingle, hrest] at hok
                obtain ⟨hds, hls⟩ := Prod.mk.inj (Except.ok.inj hok)
                obtain ⟨hd, rfl⟩ := List.cons.inj hds
                obtain ⟨hl, rfl⟩ := List.cons.inj hls
                exact ⟨⟨alone, rfl, Prod.ext hd hl ▸ hresult⟩, results, rfl, hresults⟩
      · rintro ⟨⟨result, hsingle, hresult⟩, results, hrest, hresults⟩
        refine ⟨result :: results, ?_, .cons hresult hresults⟩
        rw [eachAlone, hsingle, hrest]
        rfl

/-! ### Inner products -/

/-- The inner product of a query and a document, from the terms of the document. -/
def rowProduct {R : Type} [AddMonoid R] [Mul R] (query row : SparseRow R) : R :=
  (row.map fun entry =>
    entry.2 * ((query.filter fun q => q.1 = entry.1).map Prod.snd).sum).sum

/-- The same row with its codes read. -/
def decodeRow {R : Type} (decode : Code → R) (row : SparseRow Code) : SparseRow R :=
  row.map fun entry => (entry.1, decode entry.2)

/-- The stored value of a code. -/
def codeValue (vt : ValueType F) (code : Code) : F := vt.toFloat (vt.decode code)

/-- The inner product of two rows of codes, from the terms of the second. -/
def codeProduct [AddMonoid F] [Mul F] (vt : ValueType F) (stored row : SparseRow Code) : F :=
  rowProduct (decodeRow (codeValue vt) stored) (decodeRow (codeValue vt) row)

theorem itemsOf_decodeRow {R : Type} (decode : Code → R) (row : SparseRow Code) (term : ℕ) :
    CountingSort.itemsOf (decodeRow decode row) term
      = (CountingSort.itemsOf row term).map decode := by
  rw [CountingSort.itemsOf, CountingSort.itemsOf, decodeRow, List.filter_map, List.map_map,
    List.map_map]
  rfl

/-- **Products added one by one**, term by term, come to the inner product. -/
theorem foldl_itemsOf_eq_rowProduct {A R : Type} [NonUnitalNonAssocSemiring R] {total : A → R}
    {mulAdd : A → Code → Code → A} {value : Code → R}
    (h : ∀ acc a b, total (mulAdd acc a b) = total acc + value a * value b)
    (stored row : SparseRow Code) (acc : A) :
    total (row.foldl (fun acc entry => (CountingSort.itemsOf stored entry.1).foldl
        (fun acc code => mulAdd acc entry.2 code) acc) acc)
      = total acc + rowProduct (decodeRow value stored) (decodeRow value row) := by
  have hterm : ∀ (a : Code) (codes : List Code) (acc : A),
      total (codes.foldl (fun acc code => mulAdd acc a code) acc)
        = total acc + value a * (codes.map value).sum := by
    intro a codes
    induction codes with
    | nil =>
        intro acc
        rw [List.map_nil, List.sum_nil, mul_zero, add_zero]
        rfl
    | cons code codes ih =>
        intro acc
        rw [List.foldl_cons, ih, h, List.map_cons, List.sum_cons, mul_add, add_assoc]
  induction row generalizing acc with
  | nil => exact (add_zero _).symm
  | cons entry row ih =>
      rw [List.foldl_cons, ih, hterm, ← itemsOf_decodeRow, add_assoc]
      rfl

theorem dotProduct_foldlM (vt : ValueType F) (dense : List Code) (row : SparseRow Code)
    (acc : vt.Acc) :
    row.foldlM (fun acc entry =>
        dense[entry.1]?.map fun code => vt.mulAdd acc (vt.decode entry.2) (vt.decode code)) acc
      = if TermsWithin dense.length row then
          some (row.foldl (fun acc entry =>
            vt.mulAdd acc (vt.decode entry.2) (vt.decode (dense.getD entry.1 []))) acc)
        else none := by
  induction row generalizing acc with
  | nil => exact (if_pos fun _ => nofun).symm
  | cons entry row ih =>
      rw [List.foldlM_cons, List.foldl_cons]
      by_cases hentry : entry.1 < dense.length
      · have hcode : dense[entry.1]? = some (dense.getD entry.1 []) := by
          rw [List.getElem?_eq_getElem hentry, List.getD_eq_getElem _ _ hentry]
        rw [hcode]
        refine (ih _).trans ?_
        have hiff : TermsWithin dense.length (entry :: row) ↔ TermsWithin dense.length row :=
          List.forall_mem_cons.trans (and_iff_right hentry)
        simp only [hiff]
      · have hno : ¬ TermsWithin dense.length (entry :: row) := fun h =>
          hentry (h entry (List.mem_cons_self ..))
        rw [List.getElem?_eq_none (not_lt.mp hentry), if_neg hno]
        rfl

/-- A document is scored unless one of its terms is outside the buffer. -/
theorem dotProduct_eq (vt : ValueType F) (dense : List Code) (row : SparseRow Code) :
    dotProduct vt dense row
      = if TermsWithin dense.length row then
          some (row.foldl (fun acc entry =>
            vt.mulAdd acc (vt.decode entry.2) (vt.decode (dense.getD entry.1 []))) vt.accZero)
        else none :=
  dotProduct_foldlM vt dense row vt.accZero

variable [Zero F] [Add F] [Sub F] [Mul F] [LT F] [DecidableLT F] [FloatFormat F]

/-- What the kernel of a width adds up. -/
def similarityOf (elementSize : ℕ) (dense : List Code) (row : SparseRow Code) : F :=
  if elementSize = U32 then
    row.foldl (fun acc entry =>
      acc + FloatFormat.ofBits entry.2 * FloatFormat.ofBits (dense.getD entry.1 [])) 0
  else
    FloatFormat.ofInt (wrapped (accumulatorBits elementSize) (row.foldl (fun acc entry =>
      acc + Wire.leNat entry.2 * Wire.leNat (dense.getD entry.1 [])) 0))

/-- **A document is scored** exactly when its terms are within the buffer. -/
theorem computeSimilarity_eq_ite (elementSize : ℕ) (dense : List Code) (row : SparseRow Code) :
    computeSimilarity elementSize dense row
      = if TermsWithin dense.length row then some (similarityOf elementSize dense row : F)
        else none := by
  have hfloat : elementSize = U32 → computeSimilarity (F := F) elementSize dense row
      = dotProduct (ValueType.float F) dense row := fun h => if_pos h
  have huint : elementSize ≠ U32 → ∃ width, computeSimilarity (F := F) elementSize dense row
      = (dotProduct (ValueType.uint F width) dense row).map fun sum : ℕ =>
          FloatFormat.ofInt (wrapped (accumulatorBits elementSize) sum) := by
    intro h
    by_cases h16 : elementSize = U16
    · subst h16
      exact ⟨U16, (if_neg h).trans (if_pos rfl)⟩
    · have hbits : accumulatorBits elementSize = accumulatorBits U8 := if_neg h16
      rw [hbits]
      exact ⟨U8, (if_neg h).trans (if_neg h16)⟩
  by_cases hwithin : TermsWithin dense.length row
  · have hdot : ∀ vt : ValueType F, dotProduct vt dense row = some _ := fun vt =>
      (dotProduct_eq vt dense row).trans (if_pos hwithin)
    rw [if_pos hwithin, similarityOf]
    by_cases h32 : elementSize = U32
    · rw [if_pos h32]
      exact (hfloat h32).trans (hdot (ValueType.float F))
    · obtain ⟨width, hwidth⟩ := huint h32
      rw [if_neg h32]
      exact hwidth.trans (congrArg (Option.map fun sum : ℕ =>
        FloatFormat.ofInt (wrapped (accumulatorBits elementSize) sum))
          (hdot (ValueType.uint F width)))
  · have hdot : ∀ vt : ValueType F, dotProduct vt dense row = none := fun vt =>
      (dotProduct_eq vt dense row).trans (if_neg hwithin)
    rw [if_neg hwithin]
    by_cases h32 : elementSize = U32
    · exact (hfloat h32).trans (hdot (ValueType.float F))
    · obtain ⟨width, hwidth⟩ := huint h32
      exact hwidth.trans (congrArg (Option.map fun sum : ℕ =>
        FloatFormat.ofInt (wrapped (accumulatorBits elementSize) sum))
          (hdot (ValueType.uint F width)))

/-! ### Exact scores -/

section Exact

variable {F : Type} [Ring F] [LinearOrder F] [FloatFormat F]

/-- **The exact score**: the inner product of the values, or of the whole numbers the codes are. -/
def exactScore (F : Type) [Ring F] [FloatFormat F] (elementSize : ℕ) (query row : SparseRow Code) :
    F :=
  if elementSize = U32 then
    rowProduct (decodeRow FloatFormat.ofBits query) (decodeRow FloatFormat.ofBits row)
  else FloatFormat.ofInt (rowProduct (decodeRow Wire.leNat query) (decodeRow Wire.leNat row) : ℕ)

/-- The accumulator of the width holds the sum of the products. -/
def SumFits (elementSize : ℕ) (query row : SparseRow Code) : Prop :=
  elementSize = U32 ∨ rowProduct (decodeRow Wire.leNat query) (decodeRow Wire.leNat row)
    < 2 ^ (accumulatorBits elementSize - 1)

instance (elementSize : ℕ) (query row : SparseRow Code) :
    Decidable (SumFits elementSize query row) := inferInstanceAs (Decidable (_ ∨ _))

/-- It holds those of all queries and rows. -/
def SumsFit (elementSize : ℕ) (queries rows : List (SparseRow Code)) : Prop :=
  ∀ query ∈ queries, ∀ row ∈ rows, SumFits elementSize query row

instance (elementSize : ℕ) (queries rows : List (SparseRow Code)) :
    Decidable (SumsFit elementSize queries rows) :=
  inferInstanceAs (Decidable (∀ query ∈ queries, ∀ row ∈ rows, SumFits elementSize query row))

/-- Floats are added up as floats. -/
theorem sumsFit_float (queries rows : List (SparseRow Code)) : SumsFit U32 queries rows :=
  fun _ _ _ _ => .inl rfl

/-- The value of a term in a query of distinct terms is what the buffer holds at it. -/
theorem sum_decodeRow_filter {R : Type} [AddMonoid R] (decode : Code → R) {elementSize : ℕ}
    (hzero : decode (zeroCode elementSize) = 0) {query : SparseRow Code}
    (hdistinct : (query.map Prod.fst).Nodup) (term : ℕ) :
    (((decodeRow decode query).filter fun q => q.1 = term).map Prod.snd).sum
      = decode (lastCode query term (zeroCode elementSize)) := by
  induction query with
  | nil => exact hzero.symm
  | cons entry query ih =>
      obtain ⟨hentry, hquery⟩ := List.nodup_cons.mp hdistinct
      have hrest := ih hquery
      by_cases hterm : entry.1 = term
      · have habsent : ∀ other ∈ query, other.1 ≠ term := fun other hother heq =>
          hentry (hterm ▸ heq ▸ List.mem_map_of_mem hother)
        rw [lastCode_of_absent habsent, hzero] at hrest
        rw [lastCode_cons, if_pos hterm, lastCode_of_absent habsent, decodeRow, List.map_cons,
          List.filter_cons_of_pos (by simpa using hterm), List.map_cons, List.sum_cons]
        show decode entry.2 + _ = _
        rw [← decodeRow, hrest, add_zero]
      · rw [lastCode_cons, if_neg hterm, decodeRow, List.map_cons,
          List.filter_cons_of_neg (by simpa using hterm)]
        exact hrest

theorem foldl_mulAdd {R : Type} [NonAssocSemiring R] (f g : ℕ × Code → R) (row : SparseRow Code)
    (acc : R) :
    row.foldl (fun acc entry => acc + f entry * g entry) acc
      = acc + (row.map fun entry => f entry * g entry).sum := by
  induction row generalizing acc with
  | nil => exact (add_zero acc).symm
  | cons entry row ih =>
      rw [List.foldl_cons, ih, List.map_cons, List.sum_cons, add_assoc]

/-- The accumulated products are the inner product. -/
theorem foldl_mulAdd_eq_rowProduct {R : Type} [NonAssocSemiring R] (decode : Code → R)
    {dimension elementSize : ℕ} (hzero : decode (zeroCode elementSize) = 0)
    {query row : SparseRow Code} (hdistinct : (query.map Prod.fst).Nodup)
    (hrow : TermsWithin dimension row) :
    row.foldl (fun acc entry => acc + decode entry.2
        * decode ((written (zeroBuffer dimension elementSize) query).getD entry.1 [])) 0
      = rowProduct (decodeRow decode query) (decodeRow decode row) := by
  rw [foldl_mulAdd, zero_add, rowProduct, decodeRow, decodeRow, List.map_map]
  congr 1
  refine List.map_congr_left fun entry hentry => ?_
  have hcode : (written (zeroBuffer dimension elementSize) query).getD entry.1 []
      = lastCode query entry.1 (zeroCode elementSize) := by
    rw [List.getD_eq_getElem?_getD, getElem?_written, getElem?_zeroBuffer (hrow entry hentry)]
    rfl
  rw [hcode]
  show _ = decode entry.2 * _
  rw [← sum_decodeRow_filter decode hzero hdistinct entry.1, decodeRow]

omit [LinearOrder F] in
/-- **What is added up** for a document when its terms and the query's are within the dimension and
the query has none twice: the exact score, as the accumulator of the width holds it. -/
theorem similarityOf_eq {dimension elementSize : ℕ}
    (hbits : FloatFormat.ofBits (zeroCode U32) = (0 : F)) {query row : SparseRow Code}
    (hdistinct : (query.map Prod.fst).Nodup) (hrow : TermsWithin dimension row) :
    similarityOf elementSize (written (zeroBuffer dimension elementSize) query) row
      = if elementSize = U32 then exactScore F elementSize query row
        else FloatFormat.ofInt (wrapped (accumulatorBits elementSize)
          (rowProduct (decodeRow Wire.leNat query) (decodeRow Wire.leNat row))) := by
  have hnat : Wire.leNat (zeroCode elementSize) = 0 := Wire.leNat_append_zeros [] elementSize
  rw [similarityOf, exactScore]
  by_cases h32 : elementSize = U32
  · rw [if_pos h32, if_pos h32, if_pos h32,
      foldl_mulAdd_eq_rowProduct FloatFormat.ofBits (h32 ▸ hbits) hdistinct hrow]
  · rw [if_neg h32, if_neg h32, foldl_mulAdd_eq_rowProduct Wire.leNat hnat hdistinct hrow]

/-- A sum that fits is held as it is. -/
theorem wrapped_of_lt {bits sum : ℕ} (hbits : 0 < bits) (h : sum < 2 ^ (bits - 1)) :
    wrapped bits sum = sum := by
  have hdouble : 2 ^ bits = 2 * 2 ^ (bits - 1) := by
    rw [← pow_succ', Nat.sub_add_cancel hbits]
  apply Int.bmod_eq_of_le
  · omega
  · omega

/-- A larger one comes out too small, by the range of the accumulator at least. -/
theorem wrapped_of_le {bits sum : ℕ} (hbits : 0 < bits) (h : 2 ^ (bits - 1) ≤ sum) :
    -2 ^ (bits - 1) ≤ wrapped bits sum ∧ wrapped bits sum < 2 ^ (bits - 1) ∧
      wrapped bits sum + 2 ^ bits ≤ sum := by
  have hdouble : 2 ^ bits = 2 * 2 ^ (bits - 1) := by
    rw [← pow_succ', Nat.sub_add_cancel hbits]
  have hlow := Int.le_bmod (x := sum) (Nat.two_pow_pos bits)
  have hhigh := Int.bmod_lt (x := sum) (Nat.two_pow_pos bits)
  have hquot := Int.bmod_add_bdiv sum (2 ^ bits)
  rw [← wrapped] at hlow hhigh hquot
  have hrange : (-2 ^ (bits - 1) : ℤ) ≤ wrapped bits sum ∧ wrapped bits sum < 2 ^ (bits - 1) := by
    have hcast : ((2 ^ (bits - 1) : ℕ) : ℤ) = 2 ^ (bits - 1) := by push_cast; rfl
    rw [hdouble] at hlow hhigh
    omega
  refine ⟨hrange.1, hrange.2, ?_⟩
  -- something was dropped, so a whole range was
  have hsum : (2 ^ (bits - 1) : ℤ) ≤ sum := by exact_mod_cast h
  have hpos : (0 : ℤ) < ((2 ^ bits : ℕ) : ℤ) * Int.bdiv sum (2 ^ bits) := by linarith
  have hone : 1 ≤ Int.bdiv sum (2 ^ bits) := pos_of_mul_pos_right hpos (Int.natCast_nonneg _)
  have hle := mul_le_mul_of_nonneg_left hone (Int.natCast_nonneg (2 ^ bits))
  rw [mul_one] at hle
  push_cast at hle hquot ⊢
  linarith

theorem accumulatorBits_pos (elementSize : ℕ) : 0 < accumulatorBits elementSize := by
  unfold accumulatorBits
  split
  · decide
  · decide

omit [LinearOrder F] in
/-- **The score of a document is exact** when the accumulator holds the sum. -/
theorem similarityOf_eq_exactScore {dimension elementSize : ℕ}
    (hbits : FloatFormat.ofBits (zeroCode U32) = (0 : F)) {query row : SparseRow Code}
    (hdistinct : (query.map Prod.fst).Nodup) (hrow : TermsWithin dimension row)
    (hfits : SumFits elementSize query row) :
    similarityOf elementSize (written (zeroBuffer dimension elementSize) query) row
      = exactScore F elementSize query row := by
  rw [similarityOf_eq hbits hdistinct hrow]
  by_cases h32 : elementSize = U32
  · rw [if_pos h32]
  · rw [if_neg h32, exactScore, if_neg h32,
      wrapped_of_lt (accumulatorBits_pos elementSize) (hfits.resolve_left h32)]

end Exact

end Nsparse
