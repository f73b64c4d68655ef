/-
Nsparse/Index.lean

The interface of an index.

`Index` holds the virtual functions of a class of indexes as functions on its state,
so that what is written against the interface can be read without the classes behind
it.  The public `search` is the same for all of them: it checks the arguments, runs
the protected one and copies its results into the caller's arrays.
-/
import Nsparse.IdSelector
import Nsparse.SparseVectors

namespace Nsparse

variable {σ F P : Type}

/-- What the public `search` receives: the queries and the caller's result arrays. -/
structure SearchArgs (F : Type) where
  n : ℤ
  indptr : Option (List ℕ)
  indices : Option (List ℕ)
  values : Option (List F)
  k : ℤ
  distances : Option (List F)
  labels : Option (List ℤ)

/-- The virtual functions of an `Index` with state `σ`.  The protected `search` reads the
state, the fields `P` of the search parameters and the selector they point to; `none` is a
search that runs out of fuel. -/
structure Index (σ F P : Type) where
  add : σ → CsrArgs F → σ × Except Exception Unit
  build : σ → σ × Except Exception Unit
  numVectors : σ → ℕ
  search : σ → ℤ → List ℕ → List ℕ → List F → ℤ → Option P → Option IDSelector →
    Option (Except Exception (List (List F) × List (List ℤ)))

/-- How a public `search` ends. -/
inductive SearchOutcome (F : Type)
  | returned (distances : List F) (labels : List ℤ)
  | threw (e : Exception)
  /-- A selector object was consulted after its lifetime. -/
  | deadSelector
  /-- A label, the id map or an `int` was used out of its range: undefined behaviour. -/
  | outOfRange
  | outOfFuel
  deriving Repr, DecidableEq

/-- `std::ranges::copy` of the results, one query after the other, over the caller's array. -/
def copyResults {α : Type} (dest : List α) (results : List (List α)) : List α :=
  results.flatten ++ dest.drop results.flatten.length

/-- The public `Index::search`: check the arguments, search, and copy the results out. -/
def Index.publicSearch (I : Index σ F P) (index : σ) (a : SearchArgs F) (params : Option P)
    (idSelector : Option IDSelector) : SearchOutcome F :=
  if a.n ≤ 0 then .threw (.invalidArgument notPositiveMsg)
  else if a.k ≤ 0 then .threw (.invalidArgument notPositiveMsg)
  else
    match a.indptr, a.indices, a.values, a.labels, a.distances with
    | some indptr, some indices, some values, some labels, some distances =>
        match I.search index a.n indptr indices values a.k params idSelector with
        | none => .outOfFuel
        | some (.error e) => .threw e
        | some (.ok (ds, ls)) => .returned (copyResults distances ds) (copyResults labels ls)
    | _, _, _, _, _ => .threw (.invalidArgument nullMsg)

end Nsparse
