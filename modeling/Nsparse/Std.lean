/-
Nsparse/Std.lean

The parts of the C++ standard library the algorithms rest on.

`std::sort` and `std::priority_queue` leave the order of equal elements open, so
each is a structure that carries its documented contract: any function that
permutes its input into order is a `StdSort`, any container whose `top` is least
is a `PriorityQueue`.  Theorems quantify over them and so hold for every standard
library.  `insertionSort` and `sortedQueue` are instances to compute with.
-/
import Mathlib.Data.List.GetD
import Mathlib.Data.List.Sort
import Mathlib.Data.List.TakeWhile
import Mathlib.Data.Multiset.Basic
import Mathlib.Tactic

namespace Nsparse

/-! ### Vectors -/

/-- `std::vector::resize(n, x)`. -/
def resize {α : Type} (l : List α) (n : ℕ) (x : α) : List α :=
  l.take n ++ List.replicate (n - l.length) x

/-! ### Sorting -/

/-- `std::sort`: a fixed function of its input that puts it in order.  `lt` has to
be a strict weak order, as the standard asks. -/
structure StdSort where
  sort : {α : Type} → (α → α → Bool) → List α → List α
  perm : ∀ {α : Type} (lt : α → α → Bool) (l : List α), (sort lt l).Perm l
  sorted : ∀ {α : Type} (lt : α → α → Bool),
    (∀ a b, lt a b = true → lt b a = false) →
    (∀ a b c, lt a b = false → lt b c = false → lt a c = false) →
    ∀ l : List α, (sort lt l).Pairwise fun a b => lt b a = false

/-- Insertion sort meets the contract. -/
def insertionSort : StdSort where
  sort lt l := l.insertionSort fun a b => lt b a = false
  perm lt l := List.perm_insertionSort _ l
  sorted {α} lt hasymm htrans l := by
    have total : Std.Total fun a b : α => lt b a = false := ⟨fun a b => by
      rcases h : lt b a with - | -
      · exact Or.inl rfl
      · exact Or.inr (hasymm b a h)⟩
    have trans : IsTrans α fun a b => lt b a = false :=
      ⟨fun a b c hab hbc => htrans c b a hbc hab⟩
    exact List.pairwise_insertionSort _ l

/-- `std::lower_bound` on an ascending range: the position of the first element not
below `target`. -/
def lowerBound (l : List ℤ) (target : ℤ) : ℕ := (l.takeWhile (· < target)).length

theorem lowerBound_le (l : List ℤ) (target : ℤ) : lowerBound l target ≤ l.length :=
  (List.takeWhile_sublist _).length_le

/-- Below the bound every element is below the target. -/
theorem lt_of_lt_lowerBound {l : List ℤ} {target : ℤ} {i : ℕ} (h : i < lowerBound l target) :
    l.getD i 0 < target := by
  have hpre := List.takeWhile_prefix (fun x => decide (x < target)) (l := l)
  have hmem : (l.takeWhile (· < target)).get ⟨i, h⟩ ∈ l.takeWhile (· < target) :=
    List.getElem_mem h
  have hlt : (l.takeWhile (· < target)).get ⟨i, h⟩ < target := by
    simpa using List.mem_takeWhile_imp hmem
  have hi : i < l.length := h.trans_le (lowerBound_le l target)
  rw [List.getD_eq_getElem _ _ hi, ← hpre.getElem h]
  exact hlt

/-- In an ascending list every element from the bound on is at least the target. -/
theorem le_of_lowerBound_le {l : List ℤ} {target : ℤ} {i : ℕ} (hl : l.Pairwise (· < ·))
    (h : lowerBound l target ≤ i) (hi : i < l.length) : target ≤ l.getD i 0 := by
  induction l generalizing i with
  | nil => simp at hi
  | cons x l ih =>
      obtain ⟨hx, hl⟩ := List.pairwise_cons.mp hl
      by_cases hlt : x < target
      · have hstep : lowerBound (x :: l) target = lowerBound l target + 1 := by
          simp [lowerBound, hlt]
        rw [hstep] at h
        obtain ⟨i, rfl⟩ : ∃ j, i = j + 1 := ⟨i - 1, by omega⟩
        simpa using ih hl (by omega) (by simpa using hi)
      · cases i with
        | zero => simpa using not_lt.mp hlt
        | succ i =>
            have hi' : i < l.length := by simpa using hi
            have hxi : x < l[i] := hx _ (List.getElem_mem hi')
            rw [List.getD_cons_succ, List.getD_eq_getElem _ _ hi']
            exact (not_lt.mp hlt).trans hxi.le

/-- The bound is the only position that separates the two sides. -/
theorem eq_lowerBound {l : List ℤ} {target : ℤ} {i : ℕ} (hl : l.Pairwise (· < ·))
    (hle : i ≤ l.length) (hbelow : ∀ j < i, l.getD j 0 < target)
    (habove : i < l.length → target ≤ l.getD i 0) : i = lowerBound l target := by
  rcases lt_trichotomy i (lowerBound l target) with h | h | h
  · have h1 := lt_of_lt_lowerBound h
    have h2 := habove (h.trans_le (lowerBound_le l target))
    omega
  · exact h
  · have h1 := hbelow _ h
    have h2 := le_of_lowerBound_le hl le_rfl (h.trans_le hle)
    omega

theorem lowerBound_mono {l : List ℤ} {a b : ℤ} (hl : l.Pairwise (· < ·)) (h : a ≤ b) :
    lowerBound l a ≤ lowerBound l b := by
  by_contra hc
  have h1 := lt_of_lt_lowerBound (not_le.mp hc)
  have h2 := le_of_lowerBound_le hl le_rfl ((not_le.mp hc).trans_le (lowerBound_le l a))
  omega

/-- Searching from a position all of whose predecessors are below the target finds the same
place. -/
theorem add_lowerBound_drop {l : List ℤ} {target : ℤ} {i : ℕ} (hl : l.Pairwise (· < ·))
    (h : i ≤ lowerBound l target) : i + lowerBound (l.drop i) target = lowerBound l target := by
  have hi : i ≤ l.length := h.trans (lowerBound_le l target)
  have hdrop := lowerBound_le (l.drop i) target
  rw [List.length_drop] at hdrop
  have hget : ∀ j, (l.drop i).getD j 0 = l.getD (i + j) 0 := fun j => by
    simp [List.getD_eq_getElem?_getD]
  refine eq_lowerBound hl (by omega) (fun j hj => ?_) fun hlt => ?_
  · by_cases hji : j < i
    · exact lt_of_lt_lowerBound (hji.trans_le h)
    · have := lt_of_lt_lowerBound (show j - i < lowerBound (l.drop i) target by omega)
      rwa [hget, Nat.add_sub_cancel' (not_lt.mp hji)] at this
  · rw [← hget]
    exact le_of_lowerBound_le (hl.sublist (List.drop_sublist _ _)) le_rfl (by
      rw [List.length_drop]; omega)

/-! ### Priority queue -/

/-- `std::priority_queue` over items with a score, ordered by `std::greater`, so that
`top` is an item of least score. -/
structure PriorityQueue (Item F : Type) [LE F] (score : Item → F) where
  Carrier : Type
  empty : Carrier
  push : Carrier → Item → Carrier
  pop : Carrier → Carrier
  top : Carrier → Option Item
  /-- What the queue holds. -/
  items : Carrier → Multiset Item
  items_empty : items empty = 0
  items_push : ∀ q x, items (push q x) = x ::ₘ items q
  top_eq_none : ∀ q, top q = none ↔ items q = 0
  items_pop : ∀ q x, top q = some x → items q = x ::ₘ items (pop q)
  top_le : ∀ q x, top q = some x → ∀ y ∈ items q, score x ≤ score y

variable {Item F : Type} [LinearOrder F] {score : Item → F}

/-- A list kept in ascending order of score is a priority queue. -/
def sortedQueue (score : Item → F) : PriorityQueue Item F score where
  Carrier := {l : List Item // l.Pairwise fun a b => score a ≤ score b}
  empty := ⟨[], List.Pairwise.nil⟩
  push q x := ⟨q.1.orderedInsert (fun a b => score a ≤ score b) x, by
    have total : Std.Total fun a b => score a ≤ score b := ⟨fun a b => le_total _ _⟩
    have trans : IsTrans Item fun a b => score a ≤ score b := ⟨fun _ _ _ h h' => h.trans h'⟩
    exact q.2.orderedInsert x q.1⟩
  pop q := ⟨q.1.tail, q.2.tail⟩
  top q := q.1.head?
  items q := (q.1 : Multiset Item)
  items_empty := rfl
  items_push q x := by
    rw [Multiset.cons_coe, Multiset.coe_eq_coe]
    exact List.perm_orderedInsert _ x q.1
  top_eq_none q := by simp
  items_pop q x h := by
    obtain ⟨_ | ⟨y, l⟩, hq⟩ := q
    · simp at h
    · obtain rfl : y = x := by simpa using h
      rfl
  top_le q x h y hy := by
    obtain ⟨_ | ⟨z, l⟩, hq⟩ := q
    · simp at h
    · obtain rfl : z = x := by simpa using h
      rcases List.mem_cons.mp (Multiset.mem_coe.mp hy) with rfl | hy
      · exact le_rfl
      · exact List.rel_of_pairwise_cons hq hy

end Nsparse
