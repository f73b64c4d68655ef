/-
Nsparse/SummaryOrder.lean

The order in which a cluster's terms are listed, and what the summary makes of it.

The pairs of a cluster are sorted by value, cut, and sorted by term again.  How many are kept
depends on the values alone (`cutAtMass_eq_take`), and unless the cut is between two pairs of
one value the kept pairs are those above the first value that is left out, however the pairs
were listed.  Otherwise two listings keep different terms (`summarizeEmitCluster_perm_iff`).
-/
import Nsparse.SummarySpec

namespace Nsparse

/-! ### The cut -/

section Cut

variable {F : Type} [Ring F] [FloatFormat F]

/-- How many of the values make up the share. -/
def cutCount (sum alpha : F) : F → List F → ℕ
  | _, [] => 0
  | addup, value :: values =>
      if FloatFormat.ratioGe (addup + value) sum alpha then 1
      else cutCount sum alpha (addup + value) values + 1

/-- `front` and one more value reach the share, and nothing shorter does. -/
def ReachesFirst (sum alpha addup : F) (front : List F) (value : F) : Prop :=
  FloatFormat.ratioGe (addup + (front ++ [value]).sum) sum alpha = true ∧
    ∀ shorter, shorter <+: front → shorter ≠ [] →
      FloatFormat.ratioGe (addup + shorter.sum) sum alpha = false

theorem reachesFirst_nil {sum alpha addup value : F} :
    ReachesFirst sum alpha addup [] value
      ↔ FloatFormat.ratioGe (addup + value) sum alpha = true := by
  rw [ReachesFirst, List.nil_append, List.sum_singleton]
  refine and_iff_left fun shorter hshorter hne => absurd (List.prefix_nil.mp hshorter) hne

theorem reachesFirst_cons {sum alpha addup first value : F} {front : List F} :
    ReachesFirst sum alpha addup (first :: front) value
      ↔ FloatFormat.ratioGe (addup + first) sum alpha = false ∧
        ReachesFirst sum alpha (addup + first) front value := by
  simp only [ReachesFirst, List.cons_append, List.sum_cons, ← add_assoc]
  constructor
  · rintro ⟨hreach, hshort⟩
    refine ⟨?_, hreach, fun shorter hshorter hne => ?_⟩
    · have hone := hshort [first] (List.prefix_append [first] front) (List.cons_ne_nil _ _)
      rwa [List.sum_singleton] at hone
    · have hmore := hshort (first :: shorter) (List.cons_prefix_cons.mpr ⟨rfl, hshorter⟩)
        (List.cons_ne_nil _ _)
      rwa [List.sum_cons, ← add_assoc] at hmore
  · rintro ⟨hone, hreach, hshort⟩
    refine ⟨hreach, fun shorter hshorter hne => ?_⟩
    cases shorter with
    | nil => exact absurd rfl hne
    | cons head shorter =>
        obtain ⟨rfl, htail⟩ := List.cons_prefix_cons.mp hshorter
        rw [List.sum_cons, ← add_assoc]
        by_cases hnil : shorter = []
        · rwa [hnil, List.sum_nil, add_zero]
        · exact hshort shorter htail hnil

theorem cutCount_pos {sum alpha addup : F} {values : List F} (h : values ≠ []) :
    cutCount sum alpha addup values ≠ 0 := by
  cases values with
  | nil => exact absurd rfl h
  | cons value values =>
      rw [cutCount]
      split
      · exact Nat.one_ne_zero
      · exact Nat.succ_ne_zero _

/-- The count stops before the end exactly where the share is reached first. -/
theorem cutCount_eq_iff {sum alpha addup value next : F} {front rest : List F} :
    cutCount sum alpha addup (front ++ value :: next :: rest) = front.length + 1
      ↔ ReachesFirst sum alpha addup front value := by
  induction front generalizing addup with
  | nil =>
      rw [reachesFirst_nil, List.nil_append, cutCount]
      split
      · rename_i h
        simp [h]
      · rename_i h
        simp [h, @cutCount_pos F _ _ sum alpha (addup + value) (next :: rest) (List.cons_ne_nil _ _)]
  | cons first front ih =>
      rw [reachesFirst_cons, ← ih, List.cons_append, cutCount, List.length_cons]
      split
      · rename_i h
        simp [h]
      · rename_i h
        simp [h]

variable {vt : ValueType F}

/-- The value of a pair. -/
def pairValue (vt : ValueType F) (pair : ℕ × vt.T) : F := vt.toFloat pair.2

/-- How many pairs are kept depends on their values only. -/
theorem cutAtMass_eq_take (sum alpha addup : F) (pairs : List (ℕ × vt.T)) :
    cutAtMass vt sum alpha addup pairs
      = pairs.take (cutCount sum alpha addup (pairs.map (pairValue vt))) := by
  induction pairs generalizing addup with
  | nil => rfl
  | cons pair pairs ih =>
      rw [cutAtMass, List.map_cons, cutCount, pairValue]
      split
      · rfl
      · rw [ih]
        rfl

/-- **The cut separates equal values**: what reaches the share first ends with a value that
comes again. -/
def CutsTie (sum alpha : F) (values : List F) : Prop :=
  ∃ front value rest, values = front ++ value :: value :: rest ∧
    ReachesFirst sum alpha 0 front value

end Cut

/-! ### Sorting the pairs -/

section Sorting

variable {F : Type} [Ring F] [LinearOrder F] {vt : ValueType F}

/-- The values of the pairs in descending order. -/
def descendingValues (vt : ValueType F) (pairs : List (ℕ × vt.T)) : List F :=
  (pairs.map (pairValue vt)).insertionSort (· ≥ ·)

/-- Sorted by value the pairs descend. -/
theorem sort_pairs_spec (hvt : ExactValues vt) (sort : StdSort) (pairs : List (ℕ × vt.T)) :
    (sort.sort (fun a b => vt.gt a.2 b.2) pairs).Pairwise
      fun a b => pairValue vt b ≤ pairValue vt a := by
  have hsorted := sort.sorted (fun a b : ℕ × vt.T => vt.gt a.2 b.2)
    (fun a b h => by
      rw [hvt.gt] at h
      exact Bool.eq_false_iff.mpr fun h' => h.not_gt ((hvt.gt _ _).mp h'))
    (fun a b c hab hbc => by
      rw [Bool.eq_false_iff, ne_eq, hvt.gt, not_lt] at hab hbc
      rw [Bool.eq_false_iff, ne_eq, hvt.gt, not_lt]
      exact hab.trans hbc) pairs
  refine hsorted.imp fun {a b} h => ?_
  rwa [Bool.eq_false_iff, ne_eq, hvt.gt, not_lt] at h

/-- Sorted by value the pairs have the values in descending order. -/
theorem map_sort_pairs (hvt : ExactValues vt) (sort : StdSort) {pairs pairs' : List (ℕ × vt.T)}
    (h : pairs'.Perm pairs) :
    (sort.sort (fun a b => vt.gt a.2 b.2) pairs').map (pairValue vt)
      = descendingValues vt pairs := by
  apply List.Perm.eq_of_pairwise' (r := (· ≥ ·))
  · exact List.pairwise_map.mpr (sort_pairs_spec hvt sort pairs')
  · exact List.pairwise_insertionSort _ _
  · exact (((sort.perm _ _).trans h).map _).trans (List.perm_insertionSort _ _).symm

/-- A listing that is in order already is left as it is. -/
theorem insertionSort_pairs (hvt : ExactValues vt) {pairs : List (ℕ × vt.T)}
    (h : (pairs.map (pairValue vt)).Pairwise (· ≥ ·)) :
    insertionSort.sort (fun a b : ℕ × vt.T => vt.gt a.2 b.2) pairs = pairs := by
  apply List.Pairwise.insertionSort_eq
  refine (List.pairwise_map.mp h).imp fun {a b} hle => ?_
  rw [Bool.eq_false_iff, ne_eq, hvt.gt, not_lt]
  exact hle

/-- Pairs of different terms have one order by term. -/
theorem sort_terms_eq {T : Type} (sort sort' : StdSort) {pairs pairs' : List (ℕ × T)}
    (h : pairs'.Perm pairs) (hnodup : (pairs.map Prod.fst).Nodup) :
    sort'.sort (fun a b => decide (a.1 < b.1)) pairs'
      = sort.sort (fun a b => decide (a.1 < b.1)) pairs := by
  have hascending : ∀ (sort : StdSort) (pairs : List (ℕ × T)), (pairs.map Prod.fst).Nodup →
      (sort.sort (fun a b => decide (a.1 < b.1)) pairs).Pairwise fun a b => a.1 < b.1 := by
    intro sort pairs hnodup
    have hsorted := sort.sorted (fun a b : ℕ × T => decide (a.1 < b.1))
      (fun a b h => decide_eq_false (of_decide_eq_true h).not_gt)
      (fun a b c hab hbc => by
        rw [decide_eq_false_iff_not, not_lt] at hab hbc
        exact decide_eq_false (not_lt.mpr (hbc.trans hab))) pairs
    have hdistinct : (sort.sort (fun a b => decide (a.1 < b.1)) pairs).Pairwise
        fun a b => a.1 ≠ b.1 := by
      rw [← List.pairwise_map]
      exact ((sort.perm _ _).map Prod.fst).nodup_iff.mpr hnodup
    refine (hsorted.and hdistinct).imp fun ⟨hle, hne⟩ => ?_
    rw [decide_eq_false_iff_not, not_lt] at hle
    exact lt_of_le_of_ne hle hne
  have irrefl : Std.Irrefl fun a b : ℕ × T => a.1 < b.1 := ⟨fun a => lt_irrefl a.1⟩
  have antisymm : Std.Antisymm fun a b : ℕ × T => a.1 < b.1 :=
    ⟨fun a b hab hba => absurd hba hab.not_gt⟩
  have hperm := ((sort'.perm (fun a b => decide (a.1 < b.1)) pairs').trans h).trans
    (sort.perm (fun a b => decide (a.1 < b.1)) pairs).symm
  exact (hascending sort' pairs' ((h.map Prod.fst).nodup_iff.mpr hnodup)).eq_of_mem_iff
    (hascending sort pairs hnodup) fun a => hperm.mem_iff

end Sorting

/-! ### What is kept -/

section Kept

variable {F : Type} [LinearOrder F] {vt : ValueType F}

/-- What is kept is what lies above a value, when what is left out does not. -/
theorem take_eq_filter {pairs : List (ℕ × vt.T)} {n : ℕ} {value : F}
    (hkept : ∀ pair ∈ pairs.take n, value < pairValue vt pair)
    (hleft : ∀ pair ∈ pairs.drop n, pairValue vt pair ≤ value) :
    pairs.take n = pairs.filter fun pair => value < pairValue vt pair := by
  conv_rhs => rw [← List.take_append_drop n pairs]
  rw [List.filter_append, List.filter_eq_self.mpr fun pair h => by simpa using hkept pair h,
    List.filter_eq_nil_iff.mpr fun pair h => by simpa using hleft pair h, List.append_nil]

variable [Ring F] [FloatFormat F]

/-- **Unless equal values are cut apart**, two listings with the same values in descending
order keep the same pairs. -/
theorem take_cutCount_perm {pairs pairs' : List (ℕ × vt.T)} {values : List F} {sum alpha : F}
    (h : pairs'.Perm pairs) (hvalues : pairs.map (pairValue vt) = values)
    (hvalues' : pairs'.map (pairValue vt) = values) (hdesc : values.Pairwise (· ≥ ·))
    (htie : ¬ CutsTie sum alpha values) :
    (pairs'.take (cutCount sum alpha 0 values)).Perm
      (pairs.take (cutCount sum alpha 0 values)) := by
  rcases Nat.lt_or_ge (cutCount sum alpha 0 values) values.length with hlt | hge
  · -- the first value left out is smaller than the last one kept
    have hne : values ≠ [] := List.ne_nil_of_length_pos (Nat.zero_lt_of_lt hlt)
    obtain ⟨m, hm⟩ := Nat.exists_eq_succ_of_ne_zero (@cutCount_pos F _ _ sum alpha 0 values hne)
    have hm1 : m + 1 < values.length := hm.symm.trans_lt hlt
    have hm0 : m < values.length := Nat.lt_of_succ_lt hm1
    have hsplit : values = values.take m ++ values[m] :: values[m + 1] :: values.drop (m + 2) := by
      rw [← List.drop_eq_getElem_cons, ← List.drop_eq_getElem_cons, List.take_append_drop]
    have hle : ∀ i j (hi : i < values.length) (hj : j < values.length), i ≤ j →
        values[j] ≤ values[i] := by
      intro i j hi hj hij
      rcases Nat.lt_or_eq_of_le hij with hlt | rfl
      · exact List.pairwise_iff_getElem.mp hdesc i j hi hj hlt
      · exact le_rfl
    have hsmaller : values[m + 1] < values[m] := by
      refine lt_of_le_of_ne (hle m (m + 1) hm0 hm1 m.le_succ) fun heq => htie ⟨values.take m, values[m], values.drop (m + 2), ?_, ?_⟩
      · rw [heq] at hsplit
        exact hsplit
      · have hiff := @cutCount_eq_iff F _ _ sum alpha 0 values[m] values[m + 1] (values.take m)
          (values.drop (m + 2))
        apply hiff.mp
        rw [← hsplit, hm, List.length_take, min_eq_left hm0.le]
    have hfilter : ∀ listing : List (ℕ × vt.T), listing.map (pairValue vt) = values →
        listing.take (m + 1) = listing.filter fun pair => values[m + 1] < pairValue vt pair := by
      intro listing hlisting
      apply take_eq_filter
      · intro pair hpair
        have hvalue : pairValue vt pair ∈ values.take (m + 1) := by
          rw [← hlisting, ← List.map_take]
          exact List.mem_map_of_mem hpair
        obtain ⟨j, hj, hget⟩ := List.mem_take_iff_getElem.mp hvalue
        rw [← hget]
        exact hsmaller.trans_le (hle j m _ hm0 (Nat.le_of_lt_succ (hj.trans_le (min_le_left _ _))))
      · intro pair hpair
        have hvalue : pairValue vt pair ∈ values.drop (m + 1) := by
          rw [← hlisting, ← List.map_drop]
          exact List.mem_map_of_mem hpair
        obtain ⟨j, hj, hget⟩ := List.mem_drop_iff_getElem.mp hvalue
        rw [← hget]
        exact hle (m + 1) (m + 1 + j) hm1 _ (Nat.le_add_right _ _)
    rw [hm, Nat.succ_eq_add_one, hfilter pairs hvalues, hfilter pairs' hvalues']
    exact h.filter _
  · have hlen : values.length = pairs.length := by rw [← hvalues, List.length_map]
    rw [List.take_of_length_le (h.length_eq.trans_le (hlen.symm.trans_le hge)),
      List.take_of_length_le (hlen.symm.trans_le hge)]
    exact h

end Kept

/-! ### The summary -/

section Summary

variable {F : Type} [Ring F] [LinearOrder F] [FloatFormat F] {vt : ValueType F}
  {sum alpha : F} {pairs pairs' : List (ℕ × vt.T)}

/-- What is emitted, with the cut as a count. -/
theorem summarizeEmitCluster_eq_take (hvt : ExactValues vt) (sort : StdSort)
    (h : pairs'.Perm pairs) (out : SparseVectors Code) :
    summarizeEmitCluster vt sort pairs' sum alpha out
      = let kept := sort.sort (fun a b => decide (a.1 < b.1))
          ((sort.sort (fun a b => vt.gt a.2 b.2) pairs').take
            (cutCount sum alpha 0 (descendingValues vt pairs)))
        out.addVector (kept.map Prod.fst) (kept.map fun pair => vt.encode pair.2) := by
  rw [summarizeEmitCluster]
  dsimp only
  rw [cutAtMass_eq_take, map_sort_pairs hvt sort h]

/-- **Every listing and every sort emit one summary** unless equal values are cut apart. -/
theorem summarizeEmitCluster_eq_of_perm (hvt : ExactValues vt) (sort sort' : StdSort)
    (h : pairs'.Perm pairs) (hnodup : (pairs.map Prod.fst).Nodup)
    (htie : ¬ CutsTie sum alpha (descendingValues vt pairs)) (out : SparseVectors Code) :
    summarizeEmitCluster vt sort' pairs' sum alpha out
      = summarizeEmitCluster vt sort pairs sum alpha out := by
  have hperm := sort.perm (fun a b : ℕ × vt.T => vt.gt a.2 b.2) pairs
  have hkept := take_cutCount_perm
    (((sort'.perm (fun a b : ℕ × vt.T => vt.gt a.2 b.2) pairs').trans h).trans hperm.symm)
    (map_sort_pairs hvt sort (List.Perm.refl pairs)) (map_sort_pairs hvt sort' h)
    (List.pairwise_insertionSort _ _) htie
  rw [summarizeEmitCluster_eq_take hvt sort' h, summarizeEmitCluster_eq_take hvt sort (.refl _)]
  dsimp only
  rw [sort_terms_eq sort sort' hkept]
  exact ((hperm.map Prod.fst).nodup_iff.mpr hnodup).sublist ((List.take_sublist _ _).map Prod.fst)

/-- Two pairs of one value across the cut may be exchanged, and then another term is kept. -/
theorem not_cutsTie_of_perm (hvt : ExactValues vt) (hnodup : (pairs.map Prod.fst).Nodup)
    (h : ∀ pairs', pairs'.Perm pairs → ∀ out,
      summarizeEmitCluster vt insertionSort pairs' sum alpha out
        = summarizeEmitCluster vt insertionSort pairs sum alpha out) :
    ¬ CutsTie sum alpha (descendingValues vt pairs) := by
  rintro ⟨front, value, rest, hvalues, hreach⟩
  have hcount : cutCount sum alpha 0 (descendingValues vt pairs) = front.length + 1 := by
    rw [hvalues, cutCount_eq_iff]
    exact hreach
  have hdesc : (descendingValues vt pairs).Pairwise (· ≥ ·) := List.pairwise_insertionSort _ _
  have hsorted := map_sort_pairs hvt insertionSort (List.Perm.refl pairs)
  have hperm := insertionSort.perm (fun a b : ℕ × vt.T => vt.gt a.2 b.2) pairs
  rw [hvalues] at hsorted
  obtain ⟨before, behind, hsplit, hbefore, hbehind⟩ := List.map_eq_append_iff.mp hsorted
  obtain ⟨p, behind, rfl, hp, hbehind⟩ := List.map_eq_cons_iff.mp hbehind
  obtain ⟨q, behind, rfl, hq, hbehind⟩ := List.map_eq_cons_iff.mp hbehind
  rw [hsplit] at hperm
  have hswap : (before ++ q :: p :: behind).Perm pairs :=
    ((List.Perm.swap p q behind).append_left before).trans hperm
  -- both orders are sorted, so each is cut where it is
  have hcut : ∀ (a b : ℕ × vt.T), pairValue vt a = value → pairValue vt b = value →
      (before ++ a :: b :: behind).Perm pairs → ∀ out : SparseVectors Code,
        (summarizeEmitCluster vt insertionSort (before ++ a :: b :: behind) sum alpha out).indices
          = out.indices ++ (insertionSort.sort (fun a b => decide (a.1 < b.1))
              (before ++ [a])).map Prod.fst := by
    intro a b ha hb hab out
    have hlen : front.length + 1 = (before ++ [a]).length := by
      rw [List.length_append, List.length_singleton, ← hbefore, List.length_map]
    have hkept : (before ++ a :: b :: behind).take (front.length + 1) = before ++ [a] := by
      rw [hlen, List.append_cons before a (b :: behind), List.take_left]
    rw [summarizeEmitCluster_eq_take hvt insertionSort hab, hcount, insertionSort_pairs hvt, hkept]
    · rfl
    · rw [List.map_append, List.map_cons, List.map_cons, hbefore, ha, hb, hbehind, ← hvalues]
      exact hdesc
  have heq := congrArg SparseVectors.indices
    ((h _ hperm ⟨1, 1, [], [], []⟩).trans (h _ hswap ⟨1, 1, [], [], []⟩).symm)
  rw [hcut p q hp hq hperm, hcut q p hq hp hswap, List.append_cancel_left_eq] at heq
  have hmem : ∀ listing : List (ℕ × vt.T), p.1 ∈ (insertionSort.sort
      (fun a b => decide (a.1 < b.1)) listing).map Prod.fst ↔ p.1 ∈ listing.map Prod.fst :=
    fun listing => ((insertionSort.perm _ listing).map Prod.fst).mem_iff
  have hp' : p.1 ∈ (before ++ [q]).map Prod.fst := by
    rw [← hmem, ← heq, hmem]
    exact List.mem_map_of_mem (List.mem_append_right _ (List.mem_singleton_self p))
  have hdistinct := (hperm.map Prod.fst).nodup_iff.mpr hnodup
  rw [List.map_append, List.nodup_append] at hdistinct
  rw [List.map_append, List.mem_append] at hp'
  obtain ⟨-, hpq, hapart⟩ := hdistinct
  rcases hp' with hbefore' | hq'
  · exact hapart _ hbefore' _ (List.mem_cons_self ..) rfl
  · rw [List.map_singleton, List.mem_singleton] at hq'
    exact (List.nodup_cons.mp hpq).1 (hq' ▸ List.mem_cons_self ..)

/-- **The summary depends on the set of pairs only**, whatever the sort, exactly when the cut is
not between two pairs of one value. -/
theorem summarizeEmitCluster_perm_iff [IsStrictOrderedRing F] (hF : ExactFloat F) (elementSize : ℕ)
    (sum alpha : F) {pairs : List (ℕ × (ValueType.ofWidth F elementSize).T)}
    (hnodup : (pairs.map Prod.fst).Nodup) :
    (∀ (sort : StdSort) (pairs' : List (ℕ × (ValueType.ofWidth F elementSize).T)),
        pairs'.Perm pairs → ∀ out,
          summarizeEmitCluster (ValueType.ofWidth F elementSize) sort pairs' sum alpha out
            = summarizeEmitCluster (ValueType.ofWidth F elementSize) sort pairs sum alpha out) ↔
      ¬ CutsTie sum alpha (descendingValues (ValueType.ofWidth F elementSize) pairs) := by
  have hvt := exactValues_ofWidth hF elementSize
  constructor
  · exact fun h => not_cutsTie_of_perm hvt hnodup (h insertionSort)
  · exact fun htie sort pairs' h => summarizeEmitCluster_eq_of_perm hvt sort sort h hnodup htie

/-- Three terms, the lower two of one weight. -/
def threePairs : List (ℕ × (ValueType.ofWidth ℤ 4).T) := [(3, (3 : ℤ)), (1, (5 : ℤ)), (2, (3 : ℤ))]

/-- The cut comes behind the largest weight, so all six listings leave the same summary. -/
theorem summarizeEmitCluster_perm_iff_three_pairs :
    (∀ (sort : StdSort) (pairs' : List (ℕ × (ValueType.ofWidth ℤ 4).T)), pairs'.Perm threePairs →
      ∀ out, summarizeEmitCluster (ValueType.ofWidth ℤ 4) sort pairs' 11 0 out
        = summarizeEmitCluster (ValueType.ofWidth ℤ 4) sort threePairs 11 0 out) ∧
      ¬ CutsTie 11 0 (descendingValues (ValueType.ofWidth ℤ 4) threePairs) := by
  suffices htie : ¬ CutsTie 11 0 (descendingValues (ValueType.ofWidth ℤ 4) threePairs) from
    ⟨(summarizeEmitCluster_perm_iff exactFloat_int 4 11 0 (by decide)).mpr htie, htie⟩
  have hvalues : descendingValues (ValueType.ofWidth ℤ 4) threePairs = [5, 3, 3] := by decide
  rw [hvalues]
  rintro ⟨front, value, rest, hsplit, hreach⟩
  rcases front with - | ⟨first, - | ⟨second, front⟩⟩
  · -- the largest weight comes once
    obtain ⟨rfl, hrest⟩ := List.cons.inj hsplit
    exact absurd (List.cons.inj hrest).1 (by decide)
  · -- the largest weight reaches the share alone
    obtain ⟨rfl, -⟩ := List.cons.inj hsplit
    exact absurd (hreach.2 [5] (List.prefix_refl _) (List.cons_ne_nil _ _)) (by decide)
  · have hlength := congrArg List.length hsplit
    simp only [List.cons_append, List.length_cons, List.length_append, List.length_nil] at hlength
    omega

/-- Two terms of one weight. -/
def tiedPairs : List (ℕ × (ValueType.ofWidth ℤ 4).T) := [(1, (5 : ℤ)), (2, (5 : ℤ))]

/-- **Two listings of terms of one weight** leave different summaries. -/
theorem summarizeEmitCluster_order_matters :
    ¬ ∀ (sort : StdSort) (pairs' : List (ℕ × (ValueType.ofWidth ℤ 4).T)), pairs'.Perm tiedPairs →
      ∀ out, summarizeEmitCluster (ValueType.ofWidth ℤ 4) sort pairs' 10 0 out
        = summarizeEmitCluster (ValueType.ofWidth ℤ 4) sort tiedPairs 10 0 out := by
  intro h
  have heq := congrArg SparseVectors.indices
    (h insertionSort tiedPairs.reverse (List.reverse_perm _) ⟨4, 3, [], [], []⟩)
  exact absurd heq (by decide)

end Summary

end Nsparse
