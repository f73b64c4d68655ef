/-
Nsparse/StoredSearch.lean

Searching an index of any type through the interface of `Index`.

`publicSearch` checks the arguments, runs the search of the type and copies the
results out; an index under id maps hands its delegate a selector that translates
ids and translates the labels that come back.  Two indexes that agree in what a file
holds (`Same`) answer every search alike (`Same.search_eq`).
-/
import Nsparse.IndexFile

namespace Nsparse

variable {F : Type}

/-! ### Searching -/

/-- What the model leaves open about a search: how heaps break ties, the sorts of the standard
library, fuel for the loop of the inverted index, and what the memory behind a query buffer of the
brute-force index reads as. -/
structure SearchTools (F : Type) [LinearOrder F] where
  heap : ItemQueue F ℤ
  tokens : ItemQueue F ℕ
  sort : StdSort
  nth : StdNthElement
  fuel : ℕ
  behind : List F

/-- `Index::search`: check the arguments, search, and copy the results out. -/
def publicSearch
    (search : ℤ → List ℕ → List ℕ → List F → ℤ → Except SearchFault (SearchRows F))
    (a : SearchArgs F) : Except SearchFault (SearchOutcome F) :=
  if a.n ≤ 0 then .ok (.threw (.invalidArgument notPositiveMsg))
  else if a.k ≤ 0 then .ok (.threw (.invalidArgument notPositiveMsg))
  else
    match a.indptr, a.indices, a.values, a.labels, a.distances with
    | some indptr, some indices, some values, some labels, some distances =>
        match search a.n indptr indices values a.k with
        | .error .outOfBuffer => .error .outOfBuffer
        | .error (.threw e) => .ok (.threw e)
        | .ok (ds, ls) => .ok (.returned (copyResults distances ds) (copyResults labels ls))
    | _, _, _, _, _ => .ok (.threw (.invalidArgument nullMsg))

namespace StoredIndex

variable [Ring F] [LinearOrder F] [FloatFormat F]

/-- `search` of an index, given the fields of its parameters and the selector they point to. -/
def search (tools : SearchTools F) :
    StoredIndex F → SearchArgs F → Option (SearchFields F) → Option IDSelector →
      Except SearchFault (SearchOutcome F)
  | seismic x, a, params, sel =>
      publicSearch (fun n indptr indices values k =>
        x.search tools.heap tools.tokens tools.sort (floatSearch F) n indptr indices values k params
          sel) a
  | seismicSQ sq x, a, params, sel =>
      publicSearch (fun n indptr indices values k =>
        x.search tools.heap tools.tokens tools.sort (quantizedSearch sq) n indptr indices values k
          params sel) a
  | diskSeismic x, a, params, sel =>
      publicSearch (fun n indptr indices values k =>
        x.search tools.heap tools.tokens tools.sort tools.nth (floatSearch F) n indptr indices values
          k params sel) a
  | diskSeismicSQ sq x, a, params, sel =>
      publicSearch (fun n indptr indices values k =>
        x.search tools.heap tools.tokens tools.sort tools.nth (diskQuantizedSearch sq) n indptr
          indices values k params sel) a
  | inverted x, a, params, sel =>
      .ok ((InvertedIndex.asIndex tools.heap tools.sort tools.fuel).publicSearch x a params sel)
  | idMap internalToExternal externalToInternal delegate, a, params, sel =>
      (delegate.search tools a params
        (sel.map (IDSelector.withIdMap internalToExternal externalToInternal))).map
        (IDMapIndex.translate ⟨(), internalToExternal, externalToInternal⟩ a)

/-- Two indexes of one type that hold the same: dimension, vectors, lists and maxima, quantizer,
and id maps. -/
def Same : StoredIndex F → StoredIndex F → Prop
  | seismic x, seismic y =>
      x.dimension = y.dimension ∧ x.vectors = y.vectors ∧
        x.clusteredInvertedLists = y.clusteredInvertedLists
  | seismicSQ sq x, seismicSQ sq' y =>
      sq = sq' ∧ x.dimension = y.dimension ∧ x.vectors = y.vectors ∧
        x.clusteredInvertedLists = y.clusteredInvertedLists
  | inverted x, inverted y => x = y
  | idMap internal external x, idMap internal' external' y =>
      internal = internal' ∧ external = external' ∧ x.Same y
  | _, _ => False

/-- A seismic search reads nothing else. -/
theorem seismicSearch_congr {x y : SeismicIndex F} (hdim : x.dimension = y.dimension)
    (hvectors : x.vectors = y.vectors)
    (hlists : x.clusteredInvertedLists = y.clusteredInvertedLists) (tools : SearchTools F)
    (queryFormat : Option (SearchFields F) → Except Exception (QueryFormat F)) :
    x.search tools.heap tools.tokens tools.sort queryFormat
      = y.search tools.heap tools.tokens tools.sort queryFormat := by
  obtain ⟨dim, vectors, lists, _, _, _⟩ := x
  obtain ⟨dim', vectors', lists', _, _, _⟩ := y
  obtain rfl : dim = dim' := hdim
  obtain rfl : vectors = vectors' := hvectors
  obtain rfl : lists = lists' := hlists
  rfl

/-- **Indexes that hold the same answer alike**, whatever is searched for. -/
theorem Same.search_eq {x y : StoredIndex F} (h : x.Same y) (tools : SearchTools F)
    (a : SearchArgs F) (params : Option (SearchFields F)) (sel : Option IDSelector) :
    x.search tools a params sel = y.search tools a params sel := by
  induction x generalizing y sel with
  | seismic x =>
      cases y with
      | seismic y =>
          rw [search, search, seismicSearch_congr h.1 h.2.1 h.2.2]
      | _ => exact h.elim
  | seismicSQ sq x =>
      cases y with
      | seismicSQ sq' y =>
          obtain ⟨rfl, hdim, hvectors, hlists⟩ := h
          rw [search, search, seismicSearch_congr hdim hvectors hlists]
      | _ => exact h.elim
  | inverted x =>
      cases y with
      | inverted y =>
          obtain rfl : x = y := h
          rfl
      | _ => exact h.elim
  | idMap internal external x ih =>
      cases y with
      | idMap internal' external' y =>
          obtain ⟨rfl, rfl, hsame⟩ := h
          rw [search, search, ih hsame]
      | _ => exact h.elim
  | diskSeismic x => cases y <;> exact h.elim
  | diskSeismicSQ sq x => cases y <;> exact h.elim

end StoredIndex

end Nsparse
