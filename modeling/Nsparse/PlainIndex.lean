/-
Nsparse/PlainIndex.lean

Every index type behind one interface.

`PlainIndex` is an index of any type but an id map: what it adds, builds, counts and
answers is what its type does.  An id map over one of them is an
`IDMapIndex (PlainIndex F)`.
-/
import Nsparse.BrutalIndex
import Nsparse.StoredSearch

namespace Nsparse

variable {F : Type}

/-- An index of any type but an id map. -/
inductive PlainIndex (F : Type) [LT F] [FloatFormat F]
  | brutal (x : BrutalIndex F)
  | inverted (x : InvertedIndex F)
  | seismic (x : SeismicIndex F)
  | seismicSQ (sq : ScalarQuantizer F) (x : SeismicIndex F)
  | diskSeismic (x : DiskSeismicIndex F)
  | diskSeismicSQ (sq : ScalarQuantizer F) (x : DiskSeismicIndex F)

/-- An `add` that leaves its index alone when it throws. -/
def SeismicIndex.addOrKeep (format : CodeFormat F) (args : CsrArgs F) (x : SeismicIndex F) :
    SeismicIndex F × Except Exception Unit :=
  match x.add format args with
  | .error e => (x, .error e)
  | .ok x' => (x', .ok ())

namespace PlainIndex

variable [Ring F] [LinearOrder F] [FloatFormat F]

def add : PlainIndex F → CsrArgs F → PlainIndex F × Except Exception Unit
  | brutal x, a => (x.add a).map brutal id
  | inverted x, a => (x.add a).map inverted id
  | seismic x, a => (x.addOrKeep (floatFormat F IndexKind.seismic.name) a).map seismic id
  | seismicSQ sq x, a =>
      (x.addOrKeep (quantizedFormat sq IndexKind.seismicSQ.name) a).map (seismicSQ sq) id
  | diskSeismic x, a => (x.add (floatFormat F IndexKind.diskSeismic.name) a).map diskSeismic id
  | diskSeismicSQ sq x, a =>
      (x.add (quantizedFormat sq IndexKind.diskSeismicSQ.name) a).map (diskSeismicSQ sq) id

def build (env : SpillEnv) (rng : Rng) (sort : StdSort) (entropy : ℕ) :
    PlainIndex F → PlainIndex F × Except Exception Unit
  | brutal x => x.build.map brutal id
  | inverted x => x.build.map inverted id
  | seismic x => (x.build env rng sort entropy).map seismic id
  | seismicSQ sq x => (x.build env rng sort entropy).map (seismicSQ sq) id
  | diskSeismic x => (x.build env rng sort entropy).map diskSeismic id
  | diskSeismicSQ sq x => (x.build env rng sort entropy).map (diskSeismicSQ sq) id

/-- `num_vectors`: of the vectors, or the count that the inverted and the disk indexes keep. -/
def numVectors : PlainIndex F → ℕ
  | brutal x => x.numVectors
  | inverted x => x.numVectors
  | seismic x => x.vectors.elim 0 SparseVectors.numVectors
  | seismicSQ _ x => x.vectors.elim 0 SparseVectors.numVectors
  | diskSeismic x => x.numVectors
  | diskSeismicSQ _ x => x.numVectors

/-- The public `search`. -/
def search (tools : SearchTools F) :
    PlainIndex F → SearchArgs F → Option (SearchFields F) → Option IDSelector →
      Except SearchFault (SearchOutcome F)
  | brutal x, a, _, _ => publicSearch (x.searchOver tools.heap tools.behind) a
  | inverted x, a, params, sel => (StoredIndex.inverted x).search tools a params sel
  | seismic x, a, params, sel => (StoredIndex.seismic x).search tools a params sel
  | seismicSQ sq x, a, params, sel => (StoredIndex.seismicSQ sq x).search tools a params sel
  | diskSeismic x, a, params, sel => (StoredIndex.diskSeismic x).search tools a params sel
  | diskSeismicSQ sq x, a, params, sel => (StoredIndex.diskSeismicSQ sq x).search tools a params sel

/-- Any of them as an `Index`, whatever answers the searches. -/
def asIndex {P : Type} (env : SpillEnv) (rng : Rng) (sort : StdSort) (entropy : ℕ)
    (search : PlainIndex F → ℤ → List ℕ → List ℕ → List F → ℤ → Option P → Option IDSelector →
      Option (Except Exception (List (List F) × List (List ℤ)))) : Index (PlainIndex F) F P where
  add := add
  build := build env rng sort entropy
  numVectors := numVectors
  search := search

end PlainIndex

/-- A search through an id map: the delegate's selector and its labels are translated. -/
def IDMapIndex.searchPlain [Ring F] [LinearOrder F] [FloatFormat F] (tools : SearchTools F)
    (m : IDMapIndex (PlainIndex F)) (a : SearchArgs F) (params : Option (SearchFields F))
    (sel : Option IDSelector) : Except SearchFault (SearchOutcome F) :=
  (m.delegate.search tools a params
    (sel.map (IDSelector.withIdMap m.internalToExternal m.externalToInternal))).map (m.translate a)

end Nsparse
