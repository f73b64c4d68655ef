/-
Nsparse/SeismicIndex.lean

The seismic indexes while they add, build and write.

The float index and the quantizing index share this code and differ in their
`CodeFormat`.  `build` replaces the lists only when every step of it succeeded; what it
does to the spill on the way stays done when it fails.
-/
import Nsparse.BatchedBuild
import Nsparse.Quantizer
import Nsparse.VectorStore

namespace Nsparse

open Wire

variable {F : Type}

/-- The members of a seismic index that add, build and write use: the vectors, the lists with the
mapping they borrow from, and the spill. -/
structure SeismicIndex (F : Type) where
  dimension : ℕ
  vectors : Option (SparseVectors Code)
  clusteredInvertedLists : List InvertedListClusters
  borrows : Option ℕ
  batchSpill : ClusteredListsSpill
  clusterParameter : SeismicClusterParameters F

namespace SeismicIndex

def new (dim : ℕ) (parameter : SeismicClusterParameters F) : SeismicIndex F :=
  ⟨dim, none, [], none, .new, parameter⟩

/-- The vectors to add to, which the first `add` creates. -/
def vectorsToAdd (format : CodeFormat F) (x : SeismicIndex F) :
    Except Exception (SparseVectors Code) :=
  match x.vectors with
  | none => SparseVectors.new format.elementSize x.dimension
  | some vectors => .ok vectors

/-- `add`: the values are encoded as the format says. -/
def add (format : CodeFormat F) (args : CsrArgs F) (x : SeismicIndex F) :
    Except Exception (SeismicIndex F) := do
  let (indptr, indices, values) ← args.checked
  let vectors ← x.vectorsToAdd format
  let vectors ← vectors.addVectors indptr indices (values.map format.encode)
  .ok { x with vectors := some vectors }

/-- `add` extends the vectors and changes nothing else. -/
theorem add_eq_ok {format : CodeFormat F} {args : CsrArgs F} {x x' : SeismicIndex F}
    (h : x.add format args = .ok x') :
    ∃ indptr indices values vectors vectors', args.checked = .ok (indptr, indices, values) ∧
      x.vectorsToAdd format = .ok vectors ∧
      vectors.addVectors indptr indices (values.map format.encode) = .ok vectors' ∧
      x' = { x with vectors := some vectors' } := by
  obtain ⟨⟨indptr, indices, values⟩, hargs, h⟩ := bind_eq_ok h
  obtain ⟨vectors, hvectors, h⟩ := bind_eq_ok h
  obtain ⟨vectors', hadd, h⟩ := bind_eq_ok h
  cases h
  exact ⟨indptr, indices, values, vectors, vectors', hargs, hvectors, hadd, rfl⟩

variable [Mul F] [FloatFormat F] [Zero F] [Add F] [Sub F] [LT F] [DecidableLT F]

/-- `build`, and what it threw. -/
def build (env : SpillEnv) (rng : Rng) (sort : StdSort) (entropy : ℕ) (x : SeismicIndex F) :
    SeismicIndex F × Except Exception Unit :=
  match buildClusteredLists env rng sort x.vectors x.dimension x.clusterParameter entropy
    x.batchSpill with
  | (spill, .error e) => ({ x with batchSpill := spill }, .error e)
  | (spill, .ok (lists, region)) =>
      ({ x with
        clusteredInvertedLists := lists
        borrows := region
        batchSpill := spill }, .ok ())

/-- `write_header`: the four characters of the name, the version and the dimension. -/
def writeHeader (name : String) (formatVersion dimension : ℕ) : Writer :=
  (emit name.toUTF8.toList).andThen <|
  (writeScalar (.nat 4) formatVersion).andThen <| writeScalar (.int 4) dimension

/-- `write_index`, the file header included. -/
def writeIndex (format : CodeFormat F) (x : SeismicIndex F) : Writer :=
  (writeHeader format.name format.formatVersion x.dimension).andThen <|
  format.writePayloadHeader.andThen <|
  ((x.vectors.getD .default).serialize).andThen <|
  serializeLists false x.clusteredInvertedLists

end SeismicIndex

end Nsparse
