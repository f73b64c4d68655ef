/-
Nsparse/Lib/Buckets.lean

Scattering a sequence into buckets.

A counting or bucketing pass walks a sequence once and appends each element to
the bucket its key names.  `scatter` is that pass over an array of buckets, and
`getElem?_scatter` says what a bucket holds at the end: what it held before,
then the elements with its key in the order of the sequence.  Nothing else is
known or needed of the pass by its users.
-/
import Mathlib.Data.List.Basic
import Mathlib.Tactic

namespace Buckets

variable {α β : Type*}

/-- Append each element's payload to the bucket named by its key. -/
def scatter (key : α → ℕ) (payload : α → β) (buckets : List (List β)) (xs : List α) :
    List (List β) :=
  xs.foldl (fun bs x => bs.modify (key x) (· ++ [payload x])) buckets

variable {key : α → ℕ} {payload : α → β}

@[simp] theorem scatter_nil (buckets : List (List β)) :
    scatter key payload buckets [] = buckets := rfl

theorem scatter_cons (buckets : List (List β)) (x : α) (xs : List α) :
    scatter key payload buckets (x :: xs)
      = scatter key payload (buckets.modify (key x) (· ++ [payload x])) xs := rfl

@[simp] theorem length_scatter (buckets : List (List β)) (xs : List α) :
    (scatter key payload buckets xs).length = buckets.length := by
  induction xs generalizing buckets with
  | nil => rfl
  | cons x xs ih => rw [scatter_cons, ih, List.length_modify]

/-- A bucket ends up with what it held and then the payloads of its own key, in order. -/
theorem getElem?_scatter (buckets : List (List β)) (xs : List α) (t : ℕ) :
    (scatter key payload buckets xs)[t]?
      = buckets[t]?.map (· ++ (xs.filter (fun x => key x = t)).map payload) := by
  induction xs generalizing buckets with
  | nil => simp
  | cons x xs ih =>
      rw [scatter_cons, ih, List.getElem?_modify]
      by_cases hx : key x = t
      · simp [hx, Function.comp_def]
      · simp [hx]

end Buckets
