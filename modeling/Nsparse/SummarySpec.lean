/-
Nsparse/SummarySpec.lean

What a summary is, in exact arithmetic.

Of a cluster's entries a summary keeps the greatest value of each term (`peak`), for
the heaviest terms that together reach a share `alpha` of all (`IsSummary`).
`summarizeWithCpu` finds it with an accumulator and a mark for every term that are
never cleared.  `Pooled` says what they hold while a cluster is pooled: a term carries
the mark of the cluster exactly when it was met there, so what an earlier cluster left
behind is never read.
-/
import Nsparse.StorableLists

namespace Nsparse

variable {F : Type} [Ring F] [LinearOrder F]

/-! ### Exact arithmetic -/

/-- A float is a number: conversion from integers is exact, and a quotient of sums reaches a bound
unless it is `0 / 0`. -/
structure ExactFloat (F : Type) [Ring F] [LinearOrder F] [FloatFormat F] : Prop where
  ofInt : ∀ i : ℤ, (FloatFormat.ofInt i : F) = i
  ratioGe : ∀ {numerator denominator bound : F}, 0 ≤ numerator → numerator ≤ denominator →
    (FloatFormat.ratioGe numerator denominator bound = true ↔
      0 < denominator ∧ bound * denominator ≤ numerator)

/-- A value type whose order and differences are those of the floats. -/
structure ExactValues (vt : ValueType F) : Prop where
  zero : vt.toFloat vt.zero = 0
  gt : ∀ a b, vt.gt a b = true ↔ vt.toFloat b < vt.toFloat a
  sub : ∀ a b, vt.sub a b = vt.toFloat a - vt.toFloat b

/-- So are those of every width. -/
theorem exactValues_ofWidth [FloatFormat F] [IsStrictOrderedRing F] (hF : ExactFloat F) (elementSize : ℕ) :
    ExactValues (ValueType.ofWidth F elementSize) := by
  have huint : ∀ width, ExactValues (ValueType.uint F width) := fun width =>
    { zero := by
        show (FloatFormat.ofInt ((0 : ℕ) : ℤ) : F) = 0
        rw [hF.ofInt, Nat.cast_zero, Int.cast_zero]
      gt := fun (a b : ℕ) => by
        show decide (b < a) = true ↔ (FloatFormat.ofInt (b : ℤ) : F) < FloatFormat.ofInt (a : ℤ)
        rw [decide_eq_true_iff, hF.ofInt, hF.ofInt, Int.cast_lt, Nat.cast_lt]
      sub := fun (a b : ℕ) => by
        show (FloatFormat.ofInt ((a : ℤ) - b) : F)
          = FloatFormat.ofInt (a : ℤ) - FloatFormat.ofInt (b : ℤ)
        rw [hF.ofInt, hF.ofInt, hF.ofInt, Int.cast_sub] }
  unfold ValueType.ofWidth
  split
  · exact ⟨rfl, fun (a b : F) => decide_eq_true_iff, fun _ _ => rfl⟩
  split
  · exact huint U16
  · exact huint U8

/-! ### The specification -/

section Spec

variable (vt : ValueType F)

/-- The greatest value of a term among the entries of a cluster, and 0 when none is above. -/
def peak (entries : SparseRow Code) (term : ℕ) : F :=
  (entries.filter fun entry => entry.1 = term).foldl
    (fun m entry => max m (vt.toFloat (vt.decode entry.2))) 0

/-- The sum of the peaks of some terms. -/
def mass (entries : SparseRow Code) (terms : List ℕ) : F := (terms.map (peak vt entries)).sum

/-- `kept` is the shortest part of `order` from its begin, and not none of it, that is `enough`; all
of it when none is. -/
structure ShortestPrefix (enough : List ℕ → Prop) (order kept : List ℕ) : Prop where
  part : kept <+: order
  nonempty : order ≠ [] → kept ≠ []
  reaches : kept = order ∨ enough kept
  shortest : ∀ shorter, shorter <+: kept → shorter ≠ kept → shorter ≠ [] → ¬ enough shorter

/-- **The summary** of a cluster with these entries. -/
structure IsSummary (alpha : F) (entries row : SparseRow Code) : Prop where
  ascending : row.Pairwise fun a b => a.1 < b.1
  values : ∀ entry ∈ row, ∃ v, entry.2 = vt.encode v ∧ vt.toFloat v = peak vt entries entry.1
  kept : ∃ order kept : List ℕ, order.Nodup ∧ (∀ term, term ∈ order ↔ term ∈ entries.map Prod.fst) ∧
    order.Pairwise (fun a b => peak vt entries b ≤ peak vt entries a) ∧
    ShortestPrefix (fun terms => 0 < mass vt entries order ∧
      alpha * mass vt entries order ≤ mass vt entries terms) order kept ∧
    (row.map Prod.fst).Perm kept

/-- The same among the stored values. -/
def best (entries : SparseRow Code) (term : ℕ) : vt.T :=
  (entries.filter fun entry => entry.1 = term).foldl
    (fun m entry => if vt.gt (vt.decode entry.2) m then vt.decode entry.2 else m) vt.zero

omit [Ring F] [LinearOrder F] in
theorem best_append (entries : SparseRow Code) (entry : ℕ × Code) (term : ℕ) :
    best vt (entries ++ [entry]) term =
      if entry.1 = term then
        if vt.gt (vt.decode entry.2) (best vt entries term) then vt.decode entry.2
        else best vt entries term
      else best vt entries term := by
  unfold best
  rw [List.filter_append, List.foldl_append]
  by_cases h : entry.1 = term
  · rw [if_pos h, List.filter_cons_of_pos (by simpa using h)]
    rfl
  · rw [if_neg h, List.filter_cons_of_neg (by simpa using h)]
    rfl

theorem peak_append (entries : SparseRow Code) (entry : ℕ × Code) (term : ℕ) :
    peak vt (entries ++ [entry]) term =
      if entry.1 = term then max (peak vt entries term) (vt.toFloat (vt.decode entry.2))
      else peak vt entries term := by
  unfold peak
  rw [List.filter_append, List.foldl_append]
  by_cases h : entry.1 = term
  · rw [if_pos h, List.filter_cons_of_pos (by simpa using h)]
    rfl
  · rw [if_neg h, List.filter_cons_of_neg (by simpa using h)]
    rfl

theorem peak_nonneg (entries : SparseRow Code) (term : ℕ) : 0 ≤ peak vt entries term := by
  induction entries using List.reverseRecOn with
  | nil => exact le_rfl
  | append_singleton entries entry ih =>
      rw [peak_append]
      split
      · exact ih.trans (le_max_left _ _)
      · exact ih

/-- It is the greatest: no value of the term is above. -/
theorem le_peak {entries : SparseRow Code} {entry : ℕ × Code} (h : entry ∈ entries) :
    vt.toFloat (vt.decode entry.2) ≤ peak vt entries entry.1 := by
  induction entries using List.reverseRecOn with
  | nil => cases h
  | append_singleton entries last ih =>
      rw [peak_append]
      rcases List.mem_append.mp h with h | h
      · split
        · exact (ih h).trans (le_max_left _ _)
        · exact ih h
      · obtain rfl := List.mem_singleton.mp h
        rw [if_pos rfl]
        exact le_max_right _ _

omit [Ring F] [LinearOrder F] in
/-- A term that was not met has none. -/
theorem best_of_not_mem {entries : SparseRow Code} {term : ℕ}
    (h : term ∉ entries.map Prod.fst) : best vt entries term = vt.zero := by
  have hnone : entries.filter (fun entry => decide (entry.1 = term)) = [] := by
    rw [List.filter_eq_nil_iff]
    intro entry hentry hterm
    exact h (List.mem_map.mpr ⟨entry, hentry, of_decide_eq_true hterm⟩)
  rw [best, hnone]
  rfl

variable {vt}

/-- The stored value is the peak. -/
theorem toFloat_best (hvt : ExactValues vt) (entries : SparseRow Code) (term : ℕ) :
    vt.toFloat (best vt entries term) = peak vt entries term := by
  induction entries using List.reverseRecOn with
  | nil => exact hvt.zero
  | append_singleton entries entry ih =>
      rw [best_append, peak_append]
      split
      · split
        · rename_i hgt
          rw [hvt.gt, ih] at hgt
          exact (max_eq_right hgt.le).symm
        · rename_i hgt
          rw [hvt.gt, ih, not_lt] at hgt
          rw [ih, max_eq_left hgt]
      · exact ih

end Spec

/-! ### Pooling -/

/-- The terms of some entries, in the order they are met in. -/
def termsMet (entries : SparseRow Code) : List ℕ :=
  entries.foldl (fun terms entry => if entry.1 ∈ terms then terms else terms ++ [entry.1]) []

theorem termsMet_append (entries : SparseRow Code) (entry : ℕ × Code) :
    termsMet (entries ++ [entry]) = if entry.1 ∈ termsMet entries then termsMet entries
      else termsMet entries ++ [entry.1] := by
  rw [termsMet, List.foldl_append]
  rfl

theorem mem_termsMet {entries : SparseRow Code} {term : ℕ} :
    term ∈ termsMet entries ↔ term ∈ entries.map Prod.fst := by
  induction entries using List.reverseRecOn with
  | nil => exact Iff.rfl
  | append_singleton entries entry ih =>
      rw [termsMet_append, List.map_append, List.mem_append, List.map_singleton, List.mem_singleton]
      split
      · rename_i hmem
        rw [ih]
        exact ⟨.inl, fun h => h.elim id fun heq => ih.mp (heq ▸ hmem)⟩
      · rw [List.mem_append, List.mem_singleton, ih]

theorem nodup_termsMet (entries : SparseRow Code) : (termsMet entries).Nodup := by
  induction entries using List.reverseRecOn with
  | nil => exact List.nodup_nil
  | append_singleton entries entry ih =>
      rw [termsMet_append]
      split
      · exact ih
      · rename_i hmem
        exact List.nodup_append.mpr ⟨ih, List.nodup_singleton _, fun a ha b hb hab => by
          rw [List.mem_singleton.mp hb] at hab
          exact hmem (hab ▸ ha)⟩

/-- **What the buffers hold** when a cluster's `entries` were pooled in epoch `cur`: a term has the
mark of this epoch when it was met, and then its best value. -/
structure PooledBest (vt : ValueType F) (dim cur : ℕ) (before : List ℕ) (entries : SparseRow Code)
    (s : MaxPool F vt) : Prop where
  acc_length : s.acc.length = dim
  epoch_length : s.epoch.length = dim
  touched : s.touched = termsMet entries
  marked : ∀ term ∈ termsMet entries, s.epoch.getD term 0 = cur
  unmarked : ∀ term, term ∉ termsMet entries → s.epoch.getD term 0 = before.getD term 0
  values : ∀ term ∈ termsMet entries, s.acc.getD term vt.zero = best vt entries term
  sum : s.sum = ((termsMet entries).map fun term => vt.toFloat (best vt entries term)).sum

/-- The same with the peaks. -/
structure Pooled (vt : ValueType F) (dim cur : ℕ) (before : List ℕ) (entries : SparseRow Code)
    (s : MaxPool F vt) : Prop where
  acc_length : s.acc.length = dim
  epoch_length : s.epoch.length = dim
  touched : s.touched = termsMet entries
  marked : ∀ term ∈ termsMet entries, s.epoch.getD term 0 = cur
  unmarked : ∀ term, term ∉ termsMet entries → s.epoch.getD term 0 = before.getD term 0
  values : ∀ term ∈ termsMet entries, s.acc.getD term vt.zero = best vt entries term
  sum : s.sum = mass vt entries (termsMet entries)

section Pooling

variable {vt : ValueType F} {dim cur : ℕ} {before : List ℕ} {entries : SparseRow Code}
  {s : MaxPool F vt}

theorem getD_set {α : Type} {l : List α} {i j : ℕ} (a d : α) (hi : i < l.length) :
    (l.set i a).getD j d = if i = j then a else l.getD j d := by
  rw [List.getD_eq_getElem?_getD, List.getD_eq_getElem?_getD, List.getElem?_set, if_pos hi]
  split
  · rfl
  · rfl

omit [LinearOrder F] in
/-- A sum changes where one of its summands does. -/
theorem sum_map_change {terms : List ℕ} (hnodup : terms.Nodup) {term : ℕ} (hmem : term ∈ terms)
    {f g : ℕ → F} (hsame : ∀ t, t ≠ term → g t = f t) :
    (terms.map g).sum = (terms.map f).sum + (g term - f term) := by
  obtain ⟨front, back, rfl⟩ := List.append_of_mem hmem
  obtain ⟨hnot, -⟩ := List.nodup_cons.mp (List.nodup_middle.mp hnodup)
  rw [List.mem_append, not_or] at hnot
  have hfront : front.map g = front.map f := List.map_congr_left fun t ht =>
    hsame t fun heq => hnot.1 (heq ▸ ht)
  have hback : back.map g = back.map f := List.map_congr_left fun t ht =>
    hsame t fun heq => hnot.2 (heq ▸ ht)
  rw [List.map_append, List.map_cons, List.map_append, List.map_cons, List.sum_append,
    List.sum_append, List.sum_cons, List.sum_cons, hfront, hback]
  abel

omit [LinearOrder F] in
/-- One entry. -/
theorem PooledBest.step (hsub : ∀ a b, vt.sub a b = vt.toFloat a - vt.toFloat b)
    (hbefore : ∀ term, before.getD term 0 ≠ cur)
    (h : PooledBest vt dim cur before entries s) {entry : ℕ × Code} (hterm : entry.1 < dim) :
    PooledBest vt dim cur before (entries ++ [entry]) (poolEntry vt cur s entry) := by
  obtain ⟨term, code⟩ := entry
  have hmet := termsMet_append entries (term, code)
  have hepoch_lt : term < s.epoch.length := h.epoch_length.symm ▸ hterm
  have hacc_lt : term < s.acc.length := h.acc_length.symm ▸ hterm
  have hbest := best_append vt entries (term, code) term
  have hother : ∀ t, t ≠ term → best vt (entries ++ [(term, code)]) t = best vt entries t :=
    fun t hne => (best_append vt entries (term, code) t).trans (if_neg (Ne.symm hne))
  rw [if_pos rfl] at hbest
  -- the mark tells whether the term was met
  have hmark : s.epoch.getD term 0 ≠ cur ↔ term ∉ termsMet entries := by
    constructor
    · exact fun hne hmem => hne (h.marked term hmem)
    · exact fun hnot => h.unmarked term hnot ▸ hbefore term
  unfold poolEntry
  dsimp only
  by_cases hnew : s.epoch.getD term 0 ≠ cur
  · -- a first occurrence
    have hnot := hmark.mp hnew
    have hzero : best vt entries term = vt.zero :=
      best_of_not_mem vt fun hmem => hnot (mem_termsMet.mpr hmem)
    rw [hzero] at hbest
    rw [if_neg hnot] at hmet
    rw [if_pos hnew, ← hbest]
    refine ⟨?_, ?_, ?_, ?_, ?_, ?_, ?_⟩
    · rw [List.length_set, h.acc_length]
    · rw [List.length_set, h.epoch_length]
    · rw [hmet, h.touched]
    · intro t ht
      rw [getD_set _ _ hepoch_lt]
      split
      · rfl
      · rename_i hne
        rw [hmet, List.mem_append, List.mem_singleton] at ht
        exact h.marked t (ht.resolve_right fun heq => hne heq.symm)
    · intro t ht
      rw [hmet, List.mem_append, List.mem_singleton, not_or] at ht
      rw [getD_set _ _ hepoch_lt, if_neg fun heq => ht.2 heq.symm]
      exact h.unmarked t ht.1
    · intro t ht
      rw [getD_set _ _ hacc_lt]
      split
      · rename_i heq
        rw [heq]
      · rename_i hne
        rw [hmet, List.mem_append, List.mem_singleton] at ht
        rw [hother t fun heq => hne heq.symm]
        exact h.values t (ht.resolve_right fun heq => hne heq.symm)
    · have hsame : (termsMet entries).map (fun t => vt.toFloat (best vt (entries ++ [(term, code)]) t))
          = (termsMet entries).map fun t => vt.toFloat (best vt entries t) :=
        List.map_congr_left fun t ht =>
          congrArg vt.toFloat (hother t fun heq => hnot (heq ▸ ht))
      show s.sum + vt.toFloat (best vt (entries ++ [(term, code)]) term) = _
      rw [hmet, List.map_append, List.sum_append, hsame, ← h.sum, List.map_singleton,
        List.sum_singleton]
  · have hmem : term ∈ termsMet entries := not_not.mp fun hnot => hnew (hmark.mpr hnot)
    have hacc := h.values term hmem
    rw [if_pos hmem] at hmet
    rw [if_neg hnew, hacc]
    split
    · -- a larger value
      rename_i hgt
      rw [if_pos hgt] at hbest
      refine ⟨?_, h.epoch_length, ?_, ?_, ?_, ?_, ?_⟩
      · rw [List.length_set, h.acc_length]
      · rw [hmet, h.touched]
      · exact fun t ht => h.marked t (hmet ▸ ht)
      · exact fun t ht => h.unmarked t (hmet ▸ ht)
      · intro t ht
        rw [getD_set _ _ hacc_lt]
        split
        · rename_i heq
          rw [← heq, hbest]
        · rename_i hne
          rw [hother t fun heq => hne heq.symm]
          exact h.values t (hmet ▸ ht)
      · have hchange := sum_map_change (nodup_termsMet entries) hmem
          (f := fun t => vt.toFloat (best vt entries t))
          (g := fun t => vt.toFloat (best vt (entries ++ [(term, code)]) t))
          fun t hne => congrArg vt.toFloat (hother t hne)
        rw [hmet, hchange, hsub, hbest, h.sum]
    · -- neither
      rename_i hgt
      rw [if_neg hgt] at hbest
      have hsame : ∀ t, best vt (entries ++ [(term, code)]) t = best vt entries t := by
        intro t
        by_cases heq : t = term
        · rw [heq, hbest]
        · exact hother t heq
      refine ⟨h.acc_length, h.epoch_length, ?_, ?_, ?_, ?_, ?_⟩
      · rw [hmet, h.touched]
      · exact fun t ht => h.marked t (hmet ▸ ht)
      · exact fun t ht => h.unmarked t (hmet ▸ ht)
      · intro t ht
        rw [hsame t]
        exact h.values t (hmet ▸ ht)
      · simp only [hmet, hsame]
        exact h.sum

omit [LinearOrder F] in
/-- The entries of a cluster. -/
theorem PooledBest.run (hsub : ∀ a b, vt.sub a b = vt.toFloat a - vt.toFloat b)
    (hbefore : ∀ term, before.getD term 0 ≠ cur)
    (h : PooledBest vt dim cur before entries s) {more : SparseRow Code}
    (hterms : ∀ entry ∈ more, entry.1 < dim) :
    PooledBest vt dim cur before (entries ++ more) (more.foldl (poolEntry vt cur) s) := by
  induction more generalizing entries s with
  | nil => rwa [List.append_nil]
  | cons entry more ih =>
      obtain ⟨hentry, hmore⟩ := List.forall_mem_cons.mp hterms
      have hrest := ih (h.step hsub hbefore hentry) hmore
      rwa [List.append_assoc] at hrest

/-- The best values have the peaks as their numbers. -/
theorem pooled_iff (hvt : ExactValues vt) :
    Pooled vt dim cur before entries s ↔ PooledBest vt dim cur before entries s := by
  have hmass : ((termsMet entries).map fun term => vt.toFloat (best vt entries term)).sum
      = mass vt entries (termsMet entries) :=
    congrArg List.sum (List.map_congr_left fun term _ => toFloat_best hvt entries term)
  constructor
  · rintro ⟨hacc, hepoch, htouched, hmarked, hunmarked, hvalues, hsum⟩
    exact ⟨hacc, hepoch, htouched, hmarked, hunmarked, hvalues, hsum.trans hmass.symm⟩
  · rintro ⟨hacc, hepoch, htouched, hmarked, hunmarked, hvalues, hsum⟩
    exact ⟨hacc, hepoch, htouched, hmarked, hunmarked, hvalues, hsum.trans hmass⟩

/-- Nothing is pooled at the begin of a cluster. -/
theorem Pooled.start {acc : List vt.T} {epoch : List ℕ} (hacc : acc.length = dim)
    (hepoch : epoch.length = dim) : Pooled vt dim cur epoch [] ⟨acc, epoch, [], 0⟩ where
  acc_length := hacc
  epoch_length := hepoch
  touched := rfl
  marked := fun _ h => absurd h List.not_mem_nil
  unmarked := fun _ _ => rfl
  values := fun _ h => absurd h List.not_mem_nil
  sum := rfl

/-- **The entries of a cluster**, one after the other. -/
theorem Pooled.run (hvt : ExactValues vt) (hbefore : ∀ term, before.getD term 0 ≠ cur)
    (h : Pooled vt dim cur before entries s) {more : SparseRow Code}
    (hterms : ∀ entry ∈ more, entry.1 < dim) :
    Pooled vt dim cur before (entries ++ more) (more.foldl (poolEntry vt cur) s) :=
  (pooled_iff hvt).mpr (((pooled_iff hvt).mp h).run hvt.sub hbefore hterms)

/-- The entries of a cluster's documents. -/
def clusterEntries (vectors : SparseVectors Code) (docIds : List ℤ) : SparseRow Code :=
  docIds.flatMap (docRow vectors)

omit [LinearOrder F] in
theorem poolCluster_eq (vectors : SparseVectors Code) (cur : ℕ) (s : MaxPool F vt)
    (docIds : List ℤ) :
    poolCluster vt vectors cur s docIds
      = (clusterEntries vectors docIds).foldl (poolEntry vt cur) s := by
  rw [clusterEntries, List.foldl_flatMap]
  rfl

end Pooling

/-! ### The cut -/

section Cut

variable [FloatFormat F] {vt : ValueType F}

omit [LinearOrder F] in
/-- What is cut off follows what is enough, and nothing shorter was. -/
theorem cutAtMass_shortest (sum alpha addup : F) (pairs : List (ℕ × vt.T)) :
    (cutAtMass vt sum alpha addup pairs = pairs ∨
      FloatFormat.ratioGe (addup + ((cutAtMass vt sum alpha addup pairs).map
        fun pair => vt.toFloat pair.2).sum) sum alpha = true) ∧
    ∀ shorter, shorter <+: cutAtMass vt sum alpha addup pairs →
      shorter ≠ cutAtMass vt sum alpha addup pairs → shorter ≠ [] →
      FloatFormat.ratioGe (addup + (shorter.map fun pair => vt.toFloat pair.2).sum) sum alpha
        = false := by
  induction pairs generalizing addup with
  | nil =>
      refine ⟨.inl rfl, fun shorter hpart hne _ => absurd ?_ hne⟩
      exact List.prefix_nil.mp hpart
  | cons pair pairs ih =>
      rw [cutAtMass]
      by_cases henough : FloatFormat.ratioGe (addup + vt.toFloat pair.2) sum alpha = true
      · rw [if_pos henough]
        refine ⟨.inr (by simpa using henough), fun shorter hpart hne hnil => absurd ?_ hne⟩
        -- what begins with the first pair is not shorter
        refine hpart.eq_of_length_le ?_
        rw [List.length_singleton]
        exact List.length_pos_iff.mpr hnil
      · rw [if_neg henough]
        obtain ⟨hreaches, hshortest⟩ := ih (addup + vt.toFloat pair.2)
        constructor
        · refine hreaches.imp (congrArg _) fun h => ?_
          rwa [List.map_cons, List.sum_cons, ← add_assoc]
        · intro shorter hpart hne hnil
          obtain ⟨first, shorter, rfl⟩ := List.exists_cons_of_ne_nil hnil
          obtain ⟨rfl, hpart⟩ := List.cons_prefix_cons.mp hpart
          rw [List.map_cons, List.sum_cons, ← add_assoc]
          by_cases hrest : shorter = []
          · rw [hrest, List.map_nil, List.sum_nil, add_zero]
            exact Bool.eq_false_iff.mpr henough
          · exact hshortest shorter hpart (fun heq => hne (heq ▸ rfl)) hrest

end Cut

/-! ### One summary -/

section Row

/-- The row that is emitted for a cluster with these entries. -/
def summaryRow [FloatFormat F] (vt : ValueType F) (sort : StdSort) (alpha : F)
    (entries : SparseRow Code) : SparseRow Code :=
  let pairs := (termsMet entries).map fun term => (term, best vt entries term)
  let pairs := sort.sort (fun a b => vt.gt a.2 b.2) pairs
  let pairs := cutAtMass vt (mass vt entries (termsMet entries)) alpha 0 pairs
  let pairs := sort.sort (fun a b => decide (a.1 < b.1)) pairs
  pairs.map fun pair => (pair.1, vt.encode pair.2)

variable {vt : ValueType F} {entries : SparseRow Code}

/-- Some of the pairs: a term and its stored peak. -/
def PeakPairs (vt : ValueType F) (entries : SparseRow Code) (pairs : List (ℕ × vt.T)) : Prop :=
  ∀ pair ∈ pairs, pair.2 = best vt entries pair.1

theorem sum_peakPairs (hvt : ExactValues vt) {pairs : List (ℕ × vt.T)}
    (h : PeakPairs vt entries pairs) :
    (pairs.map fun pair => vt.toFloat pair.2).sum = mass vt entries (pairs.map Prod.fst) := by
  rw [mass, List.map_map]
  refine congrArg List.sum (List.map_congr_left fun pair hpair => ?_)
  show vt.toFloat pair.2 = peak vt entries pair.1
  rw [h pair hpair, toFloat_best hvt]

theorem mass_perm {terms others : List ℕ} (h : terms.Perm others) :
    mass vt entries terms = mass vt entries others :=
  (h.map (peak vt entries)).sum_eq

variable [IsStrictOrderedRing F]

theorem mass_nonneg (terms : List ℕ) : 0 ≤ mass vt entries terms := by
  apply List.sum_nonneg
  intro x hx
  obtain ⟨term, -, rfl⟩ := List.mem_map.mp hx
  exact peak_nonneg vt entries term

/-- A part has no more mass than all. -/
theorem mass_le_of_prefix {front terms : List ℕ} (h : front <+: terms) :
    mass vt entries front ≤ mass vt entries terms := by
  obtain ⟨back, rfl⟩ := h
  have hback : 0 ≤ mass vt entries back := mass_nonneg back
  unfold mass at hback ⊢
  rw [List.map_append, List.sum_append]
  exact le_add_of_nonneg_right hback

/-- **It is the summary** of the cluster. -/
theorem isSummary_summaryRow [FloatFormat F] (hF : ExactFloat F) (hvt : ExactValues vt) (sort : StdSort)
    (alpha : F) (entries : SparseRow Code) :
    IsSummary vt alpha entries (summaryRow vt sort alpha entries) := by
  unfold summaryRow
  dsimp only
  set pairs := (termsMet entries).map fun term => (term, best vt entries term) with hpairs
  set byValue := sort.sort (fun a b => vt.gt a.2 b.2) pairs with hbyValue
  set total := mass vt entries (termsMet entries) with htotal
  set cut := cutAtMass vt total alpha 0 byValue with hcut
  set byTerm := sort.sort (fun a b => decide (a.1 < b.1)) cut with hbyTerm
  -- what is kept are pairs
  have hbest : PeakPairs vt entries pairs := by
    intro pair hpair
    obtain ⟨term, -, rfl⟩ := List.mem_map.mp hpair
    rfl
  have hvalue_perm : byValue.Perm pairs := sort.perm _ _
  have hterm_perm : byTerm.Perm cut := sort.perm _ _
  have hpart : cut <+: byValue := cutAtMass_isPrefix vt total alpha 0 byValue
  have hbest_value : PeakPairs vt entries byValue := fun pair h =>
    hbest pair (hvalue_perm.subset h)
  have hfst : (pairs.map Prod.fst) = termsMet entries := by
    rw [hpairs, List.map_map]
    exact List.map_id _
  have horder_perm : (byValue.map Prod.fst).Perm (termsMet entries) :=
    hfst ▸ hvalue_perm.map Prod.fst
  have horder_nodup : (byValue.map Prod.fst).Nodup :=
    horder_perm.nodup_iff.mpr (nodup_termsMet entries)
  have hmass : mass vt entries (byValue.map Prod.fst) = total := mass_perm horder_perm
  -- enough, by the division and without
  have henough : ∀ front, front <+: byValue →
      (FloatFormat.ratioGe (0 + (front.map fun pair => vt.toFloat pair.2).sum) total alpha = true ↔
        0 < mass vt entries (byValue.map Prod.fst) ∧
          alpha * mass vt entries (byValue.map Prod.fst) ≤ mass vt entries (front.map Prod.fst)) := by
    intro front hfront
    have hpeaks : PeakPairs vt entries front := fun pair h => hbest_value pair (hfront.subset h)
    rw [zero_add, sum_peakPairs hvt hpeaks, hmass]
    apply hF.ratioGe (mass_nonneg _)
    exact hmass ▸ mass_le_of_prefix (hfront.map Prod.fst)
  obtain ⟨hreaches, hshortest⟩ := cutAtMass_shortest total alpha 0 byValue
  refine ⟨?_, ?_, byValue.map Prod.fst, cut.map Prod.fst, horder_nodup, ?_, ?_, ?_, ?_⟩
  · -- ascending
    rw [List.pairwise_map]
    have hsorted := sort.sorted (fun a b : ℕ × vt.T => decide (a.1 < b.1))
      (fun a b h => by
        rw [decide_eq_true_iff] at h
        exact decide_eq_false h.not_gt)
      (fun a b c hab hbc => by
        rw [decide_eq_false_iff_not, not_lt] at hab hbc
        exact decide_eq_false (not_lt.mpr (hbc.trans hab))) cut
    have hdistinct : byTerm.Pairwise fun a b => a.1 ≠ b.1 := by
      rw [← List.pairwise_map]
      refine (hterm_perm.map Prod.fst).nodup_iff.mpr ?_
      exact horder_nodup.sublist (hpart.map Prod.fst).sublist
    refine (hsorted.and hdistinct).imp fun ⟨hle, hne⟩ => ?_
    rw [decide_eq_false_iff_not, not_lt] at hle
    exact lt_of_le_of_ne hle hne
  · -- the values
    intro entry hentry
    obtain ⟨pair, hpair, rfl⟩ := List.mem_map.mp hentry
    refine ⟨pair.2, rfl, ?_⟩
    show vt.toFloat pair.2 = peak vt entries pair.1
    rw [hbest_value pair (hpart.subset (hterm_perm.subset hpair)), toFloat_best hvt]
  · -- the terms
    exact fun term => horder_perm.mem_iff.trans mem_termsMet
  · -- by value
    have hsorted := sort.sorted (fun a b : ℕ × vt.T => vt.gt a.2 b.2)
      (fun a b h => by
        rw [hvt.gt] at h
        exact Bool.eq_false_iff.mpr fun h' => h.not_gt ((hvt.gt _ _).mp h'))
      (fun a b c hab hbc => by
        rw [Bool.eq_false_iff, ne_eq, hvt.gt, not_lt] at hab hbc
        rw [Bool.eq_false_iff, ne_eq, hvt.gt, not_lt]
        exact hab.trans hbc) pairs
    rw [List.pairwise_map]
    refine hsorted.imp_of_mem fun {a b} ha hb h => ?_
    rw [Bool.eq_false_iff, ne_eq, hvt.gt, not_lt, hbest_value a ha, hbest_value b hb,
      toFloat_best hvt, toFloat_best hvt] at h
    exact h
  · -- the cut
    refine ⟨hpart.map Prod.fst, fun hne => ?_, ?_, ?_⟩
    · rw [ne_eq, List.map_eq_nil_iff] at hne ⊢
      exact cutAtMass_ne_nil vt total alpha 0 hne
    · exact hreaches.imp (congrArg (List.map Prod.fst)) (henough cut hpart).mp
    · intro shorter hshorter hne hnil
      obtain ⟨front, hfront, rfl⟩ := List.prefix_map_iff.mp hshorter
      rw [ne_eq, List.map_eq_nil_iff] at hnil
      rw [← henough front (hfront.trans hpart), Bool.not_eq_true]
      exact hshortest front hfront (fun heq => hne (heq ▸ rfl)) hnil
  · rw [List.map_map]
    exact hterm_perm.map Prod.fst

end Row

/-! ### All summaries -/

section Summarize

variable [FloatFormat F] {vt : ValueType F} {vectors : SparseVectors Code}

/-- The row of a cluster is a function of its entries: no mark and no value that was there before
is in it. -/
theorem summarizeEmitCluster_rows (sort : StdSort) (alpha : F)
    {docIds : List ℤ} {cur : ℕ} {acc : List vt.T} {epoch : List ℕ} {out : SparseVectors Code}
    (hout : out.WellFormed)
    (h : Pooled vt vectors.dimension cur epoch (clusterEntries vectors docIds)
      (poolCluster vt vectors cur ⟨acc, epoch, [], 0⟩ docIds)) :
    let s := poolCluster vt vectors cur ⟨acc, epoch, [], 0⟩ docIds
    let pairs := s.touched.map fun term => (term, s.acc.getD term vt.zero)
    (summarizeEmitCluster vt sort pairs s.sum alpha out).WellFormed ∧
      (summarizeEmitCluster vt sort pairs s.sum alpha out).rows
        = out.rows ++ [summaryRow vt sort alpha (clusterEntries vectors docIds)] := by
  intro s pairs
  have hpairs : pairs = (termsMet (clusterEntries vectors docIds)).map fun term =>
      (term, best vt (clusterEntries vectors docIds) term) := by
    show s.touched.map _ = _
    rw [h.touched]
    exact List.map_congr_left fun term hterm => Prod.ext rfl (h.values term hterm)
  unfold summarizeEmitCluster summaryRow
  dsimp only
  rw [hpairs, h.sum]
  set byTerm := sort.sort (fun a b : ℕ × vt.T => decide (a.1 < b.1)) _
  have hlen : (byTerm.map Prod.fst).length = (byTerm.map fun pair => vt.encode pair.2).length := by
    rw [List.length_map, List.length_map]
  obtain ⟨hwf, hrows⟩ := SparseVectors.addVector_spec hout hlen
  refine ⟨hwf, hrows.trans ?_⟩
  rw [List.zip_map']

/-- **Cluster after cluster**: the marks are of epochs that are over. -/
theorem summarizeClusters_rows (hvt : ExactValues vt) (sort : StdSort) (alpha : F)
    {clusters : List (List ℤ)} {i : ℕ} {acc : List vt.T} {epoch : List ℕ}
    {out : SparseVectors Code}
    (hterms : ∀ docIds ∈ clusters, ∀ entry ∈ clusterEntries vectors docIds,
      entry.1 < vectors.dimension)
    (hcount : i + clusters.length < 2 ^ 32) (hacc : acc.length = vectors.dimension)
    (hepoch : epoch.length = vectors.dimension) (hover : ∀ term, epoch.getD term 0 ≤ i)
    (hout : out.WellFormed) :
    (summarizeClusters vt sort vectors alpha i clusters acc epoch out).WellFormed ∧
      (summarizeClusters vt sort vectors alpha i clusters acc epoch out).rows
        = out.rows ++ clusters.map fun docIds =>
            summaryRow vt sort alpha (clusterEntries vectors docIds) := by
  induction clusters generalizing i acc epoch out with
  | nil => exact ⟨hout, (List.append_nil _).symm⟩
  | cons docIds clusters ih =>
      obtain ⟨hfirst, hrest⟩ := List.forall_mem_cons.mp hterms
      rw [List.length_cons] at hcount
      have hcur : (i + 1) % 2 ^ 32 = i + 1 := Nat.mod_eq_of_lt (by omega)
      have hfresh : ∀ term, epoch.getD term 0 ≠ i + 1 := fun term heq =>
        absurd (hover term) (by omega)
      have hstart : Pooled vt vectors.dimension (i + 1) epoch [] ⟨acc, epoch, [], 0⟩ :=
        Pooled.start hacc hepoch
      have hpooled := hstart.run hvt hfresh hfirst
      rw [List.nil_append, ← poolCluster_eq] at hpooled
      obtain ⟨hwf, hrows⟩ := summarizeEmitCluster_rows sort alpha hout hpooled
      rw [summarizeClusters, hcur]
      have hover' : ∀ term,
          (poolCluster vt vectors (i + 1) ⟨acc, epoch, [], 0⟩ docIds).epoch.getD term 0 ≤ i + 1 := by
        intro term
        by_cases hmet : term ∈ termsMet (clusterEntries vectors docIds)
        · exact (hpooled.marked term hmet).le
        · rw [hpooled.unmarked term hmet]
          exact (hover term).trans (Nat.le_succ i)
      obtain ⟨hwf', hrows'⟩ := ih hrest (by omega) hpooled.acc_length hpooled.epoch_length hover' hwf
      refine ⟨hwf', hrows'.trans ?_⟩
      rw [hrows, List.append_assoc]
      rfl

/-- **`summarizeWithCpu` meets its specification**: it emits one row for each cluster, which is the
summary of the cluster and depends on nothing but its entries. -/
theorem summarizeWithCpu_isSummary [IsStrictOrderedRing F] (hF : ExactFloat F) (sort : StdSort)
    (vectors : SparseVectors Code) (clusters : List (List ℤ)) (alpha : F)
    (hterms : ∀ docIds ∈ clusters, ∀ entry ∈ clusterEntries vectors docIds,
      entry.1 < vectors.dimension)
    (hcount : clusters.length < 2 ^ 32) :
    ∃ row : SparseRow Code → SparseRow Code,
      (∀ entries, IsSummary (ValueType.ofWidth F vectors.elementSize) alpha entries (row entries)) ∧
      (summarizeWithCpu (ValueType.ofWidth F vectors.elementSize) sort vectors clusters
        alpha).WellFormed ∧
      (summarizeWithCpu (ValueType.ofWidth F vectors.elementSize) sort vectors clusters alpha).rows
        = clusters.map fun docIds => row (clusterEntries vectors docIds) := by
  have hvt := exactValues_ofWidth hF vectors.elementSize
  refine ⟨summaryRow _ sort alpha, isSummary_summaryRow hF hvt sort alpha, ?_⟩
  have hover : ∀ term, (List.replicate vectors.dimension 0).getD term 0 ≤ 0 := by
    intro term
    rw [List.getD_eq_getElem?_getD, List.getElem?_replicate]
    split
    · exact le_rfl
    · exact le_rfl
  exact summarizeClusters_rows hvt sort alpha hterms (by omega) List.length_replicate
    List.length_replicate hover ⟨rfl, fun _ => rfl, fun h => absurd rfl h⟩

end Summarize

/-- The numbers that whole floats stand for compute exactly. -/
theorem exactFloat_int : ExactFloat ℤ where
  ofInt _ := rfl
  ratioGe _ _ := by
    show (_ && _) = true ↔ _
    rw [Bool.and_eq_true, decide_eq_true_iff, decide_eq_true_iff]

/-- Two documents that share a term, and a cluster without documents. -/
theorem summarizeWithCpu_isSummary_two_documents :
    ∃ row : SparseRow Code → SparseRow Code,
      (∀ entries, IsSummary (ValueType.ofWidth ℤ U8) 1 entries (row entries)) ∧
      (summarizeWithCpu (ValueType.ofWidth ℤ U8) insertionSort
        ⟨U8, 3, [0, 2, 3], [0, 2, 2], [[5], [1], [4]]⟩ [[0, 1], []] 1).WellFormed ∧
      (summarizeWithCpu (ValueType.ofWidth ℤ U8) insertionSort
          ⟨U8, 3, [0, 2, 3], [0, 2, 2], [[5], [1], [4]]⟩ [[0, 1], []] 1).rows
        = [[0, 1], []].map fun docIds =>
            row (clusterEntries ⟨U8, 3, [0, 2, 3], [0, 2, 2], [[5], [1], [4]]⟩ docIds) :=
  summarizeWithCpu_isSummary exactFloat_int insertionSort
    ⟨U8, 3, [0, 2, 3], [0, 2, 2], [[5], [1], [4]]⟩ [[0, 1], []] 1 (by decide) (by decide)

end Nsparse
