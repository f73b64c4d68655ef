/-
Nsparse/BrutalIndex.lean

The brute-force index: every document is scored against every query.

Its heap is a `DedupeTopKHolder` whose items are their own dedupe ids, as the
two-argument `add` makes them.  A search offers every document once, so the heap never
turns one down as a duplicate, and what is kept is a top `k` of all documents.  The
selector of a search is not read.
-/
import Nsparse.InvertedIndex
import Nsparse.SeismicSearch

namespace Nsparse

variable {F : Type}

/-! ### The index -/

/-- The documents of a brute-force index; the first `add` makes room for them. -/
structure BrutalIndex (F : Type) where
  dimension : ℕ
  vectors : Option (SparseVectors F)
  deriving Repr, DecidableEq

/-- `dot_product_float_dense`; `none` is a read outside the buffer. -/
def dotProductFloatDense [Zero F] [Add F] [Mul F] (dense : List F) (row : SparseRow F) :
    Option F :=
  row.foldlM (fun result entry => dense[entry.1]?.map fun weight => result + entry.2 * weight) 0

/-- `get_dense_vector_float` of a row; a term past the dimension is written past the buffer. -/
def getDenseVectorFloat [Zero F] (dimension : ℕ) (row : SparseRow F) :
    Except SearchFault (List F) :=
  row.foldlM
    (fun dense entry =>
      if entry.1 < dense.length then .ok (dense.set entry.1 entry.2) else .error .outOfBuffer)
    (List.replicate dimension 0)

namespace BrutalIndex

def new (dim : ℕ) : BrutalIndex F := ⟨dim, none⟩

/-- Append documents. -/
def add (index : BrutalIndex F) (a : CsrArgs F) : BrutalIndex F × Except Exception Unit :=
  match a.checked with
  | .error e => (index, .error e)
  | .ok (indptr, indices, values) =>
      let nnz := indptr.getD a.n.toNat 0
      match index.vectors.elim (SparseVectors.new kElementSize index.dimension) .ok with
      | .error e => (index, .error e)
      | .ok vectors =>
          match vectors.addVectors indptr (indices.take nnz) (values.take nnz) with
          | .error e => ({ index with vectors := some vectors }, .error e)
          | .ok vectors => ({ index with vectors := some vectors }, .ok ())

/-- `build` of `Index`, which `BrutalIndex` does not override. -/
def build (index : BrutalIndex F) : BrutalIndex F × Except Exception Unit :=
  (index, .error (.runtimeError "not implemented"))

/-- `num_vectors` of `Index` asks the vectors. -/
def numVectors (index : BrutalIndex F) : ℕ := index.vectors.elim 0 SparseVectors.numVectors

variable [Ring F] [LinearOrder F]

/-- Offer the documents from `i` on. -/
def scoreAll {Q : ItemQueue F ℤ} (dense : List F) :
    ℕ → List (SparseRow F) → DedupeTopKHolder Q ℤ → Except SearchFault (DedupeTopKHolder Q ℤ)
  | _, [], holder => .ok holder
  | i, row :: rows, holder =>
      match dotProductFloatDense dense row with
      | none => .error .outOfBuffer
      | some score => scoreAll dense (i + 1) rows (holder.add id score (toIdx i))

/-- `single_query`: scores and labels. -/
def singleQuery (Q : ItemQueue F ℤ) (vectors : SparseVectors F) (dense : List F) (k : ℤ) :
    Except SearchFault (List F × List ℤ) :=
  if vectors.numVectors = 0 then .ok ([], [])
  else
    (scoreAll dense 0 vectors.rows (DedupeTopKHolder.new Q k)).map fun holder =>
      let (labels, scores) := holder.topKDescendingWithScoresAndPadding INVALID_IDX (-1)
      (scores, labels)

/-- The queries of a search.  The terms of the documents are looked up unchecked: `behind` is what the
memory behind a buffer reads as. -/
def searchQueriesOver (Q : ItemQueue F ℤ) (behind : List F) (dimension : ℕ)
    (vectors : SparseVectors F) (k : ℤ) :
    List (SparseRow F) → Except SearchFault (SearchRows F)
  | [] => .ok ([], [])
  | query :: queries => do
      let dense ← getDenseVectorFloat dimension query
      let (distances, labels) ← singleQuery Q vectors (dense ++ behind) k
      let (ds, ls) ← searchQueriesOver Q behind dimension vectors k queries
      .ok (distances :: ds, labels :: ls)

/-- `search`, over such memory; it has no use for the parameters. -/
def searchOver (Q : ItemQueue F ℤ) (behind : List F) (index : BrutalIndex F) (n : ℤ)
    (indptr indices : List ℕ) (values : List F) (k : ℤ) : Except SearchFault (SearchRows F) :=
  match index.vectors with
  | none => .ok (List.replicate n.toNat [], List.replicate n.toNat [])
  | some vectors =>
      if n = 0 then .ok (List.replicate n.toNat [], List.replicate n.toNat [])
      else do
        let nnz := indptr.getD n.toNat 0
        let queries ← SearchFault.lift (SparseVectors.new kElementSize index.dimension)
        let queries ← SearchFault.lift
          (queries.addVectors indptr (indices.take nnz) (values.take nnz))
        searchQueriesOver Q behind index.dimension vectors k queries.rows

/-- `search` with nothing behind its buffers, so that a lookup past one is found out. -/
def search (Q : ItemQueue F ℤ) (index : BrutalIndex F) :
    ℤ → List ℕ → List ℕ → List F → ℤ → Except SearchFault (SearchRows F) :=
  index.searchOver Q []

end BrutalIndex

end Nsparse
