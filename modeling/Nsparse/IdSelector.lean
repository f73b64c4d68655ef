/-
Nsparse/IdSelector.lean

Selectors: which documents a search may return.

A selector answers `is_member`.  An enumerable one also lists its ids, which the
exact-match paths walk instead of the index; nothing in the interface ties the
listed ids, their number and the membership test to one another.
-/
import Mathlib.Data.List.Dedup
import Mathlib.Data.List.Sort
import Nsparse.Std

namespace Nsparse

/-- An `IDSelector`, or the `IDSelectorEnumerable` a `dynamic_cast` may find it to be. -/
inductive IDSelector
  | plain (isMember : ℤ → Bool)
  | enumerable (isMember : ℤ → Bool) (ids : List ℤ) (size : ℕ)

namespace IDSelector

def isMember : IDSelector → ℤ → Bool
  | plain f, id => f id
  | enumerable f _ _, id => f id

/-- `ArrayIDSelector`. -/
def array (ids : List ℤ) : IDSelector := enumerable (fun id => decide (id ∈ ids)) ids ids.length

/-- The order in which a hash set lists its elements: any. -/
structure HashOrder where
  enumerate : List ℤ → List ℤ
  perm : ∀ ids, (enumerate ids).Perm ids.dedup

/-- `SetIDSelector`. -/
def set (order : HashOrder) (ids : List ℤ) : IDSelector :=
  enumerable (fun id => decide (id ∈ ids)) (order.enumerate ids) (order.enumerate ids).length

/-- `NotIDSelector`. -/
def not (s : IDSelector) : IDSelector := plain fun id => !s.isMember id

/-- `ordered_ids`: the listed ids, sorted. -/
def orderedIds (sort : StdSort) (ids : List ℤ) : List ℤ := sort.sort (fun a b => a < b) ids

/-- A document passes when there is no selector or it is a member. -/
def passes (s : Option IDSelector) (id : ℤ) : Bool :=
  match s with
  | none => true
  | some s => s.isMember id

end IDSelector

end Nsparse
