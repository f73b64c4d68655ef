/-
Nsparse/Kmeans.lean

Random k-means over one posting list: draw centroids, then send every other
document to the centroid it is most similar to.

The random generator is a parameter with the contract of
`std::uniform_int_distribution`.  Similarities are accumulated sparsely over a
term-major index of the centroids; ties go to the lowest cluster.
-/
import Nsparse.Lib.CountingSort
import Nsparse.SparseVectors
import Nsparse.Std
import Nsparse.Values

namespace Nsparse

/-- `std::mt19937` and `std::uniform_int_distribution`: from a 32-bit seed, draws from
`[0, hi]`. -/
structure Rng where
  State : Type
  seed : ℕ → State
  uniform : State → ℕ → ℕ × State
  uniform_le : ∀ s hi, (uniform s hi).1 ≤ hi

/-- A generator to compute with: it counts on from the seed. -/
def countingRng : Rng where
  State := ℕ
  seed := id
  uniform s hi := (s % (hi + 1), s + 1)
  uniform_le s hi := Nat.le_of_lt_succ (Nat.mod_lt s (Nat.succ_pos hi))

/-! ### Initial centroids -/

/-- `std::swap(docs[i], docs[j])`. -/
def swapDocs (docs : List ℤ) (i j : ℕ) : List ℤ :=
  (docs.set i (docs.getD j 0)).set j (docs.getD i 0)

/-- The loop that draws `remaining` more centroids, the `i`-th among the first
`nDocs - i` documents. -/
def drawCentroids (rng : Rng) (nDocs : ℕ) : ℕ → ℕ → rng.State → List ℤ → List (List ℤ)
  | 0, _, _, _ => []
  | remaining + 1, i, gen, docs =>
      let (r, gen) := rng.uniform gen (nDocs - i - 1)
      [docs.getD r 0] :: drawCentroids rng nDocs remaining (i + 1) gen
        (swapDocs docs r (nDocs - 1 - i))

def randomSelectInitialCentroids (rng : Rng) (docs : List ℤ) (nClusters seed : ℕ) :
    List (List ℤ) :=
  if docs.length < nClusters then []
  else if nClusters = 0 then []
  else drawCentroids rng docs.length nClusters 0 (rng.seed seed) docs

/-- A default number of clusters, at least one and at most one for each document. -/
def boundaryCheckNClusters (nDocs nClusters : ℕ) : ℕ :=
  max 1 (min (if nClusters = 0 then nDocs.sqrt else nClusters) nDocs)

/-! ### Assignment -/

variable {F : Type} (vt : ValueType F)

/-- A document's terms and values. -/
def docRow (vectors : SparseVectors Code) (doc : ℤ) : SparseRow Code := vectors.row doc.toNat

/-- The first member of a cluster; every cluster is created with one. -/
def centroidOf (cluster : List ℤ) : ℤ := cluster.headD 0

/-- Term-major index of the centroids; its counters are 32-bit. -/
structure CentroidIndex (T : Type) where
  termPtr : List ℤ
  cluster : List ℕ
  weight : List T
  nCols : ℕ

def buildCentroidIndex (vectors : SparseVectors Code) (clusters : List (List ℤ)) :
    CentroidIndex vt.T :=
  let rows := clusters.map fun cluster => docRow vectors (centroidOf cluster)
  let terms := rows.flatten.map Prod.fst
  let maxTerm := terms.foldl max 0
  let nCols := if terms.length = 0 then 0 else maxTerm + 1
  let termPtr := CountingSort.offsets nCols terms
  let postings := rows.zipIdx.flatMap fun r =>
    r.1.map fun entry => (entry.1, r.2, vt.decode entry.2)
  let placed := CountingSort.place termPtr.dropLast (List.replicate terms.length (0, vt.zero))
    postings
  ⟨termPtr.map fun n : ℕ => toIdx n, placed.map Prod.fst, placed.map Prod.snd, nCols⟩

/-- Add one document value times every centroid weight of its term. -/
def accumulateTerm (index : CentroidIndex vt.T) (similarities : List vt.Acc)
    (entry : ℕ × Code) : List vt.Acc :=
  if index.nCols ≤ entry.1 then similarities
  else
    let start := (index.termPtr.getD entry.1 0).toNat
    let stop := (index.termPtr.getD (entry.1 + 1) 0).toNat
    (List.range' start (stop - start)).foldl
      (fun similarities p =>
        similarities.modify (index.cluster.getD p 0)
          fun acc => vt.mulAdd acc (vt.decode entry.2) (index.weight.getD p vt.zero))
      similarities

/-- The similarity of a document to every centroid. -/
def similaritiesOf (vectors : SparseVectors Code) (index : CentroidIndex vt.T) (nClusters : ℕ)
    (doc : ℤ) : List vt.Acc :=
  (docRow vectors doc).foldl (accumulateTerm vt index) (List.replicate nClusters vt.accZero)

/-- The lowest index of a largest entry. -/
def bestCluster (similarities : List vt.Acc) : ℕ :=
  ((List.range' 1 (similarities.length - 1)).foldl
    (fun best c =>
      let similarity := similarities.getD c vt.accZero
      if vt.accGt similarity best.2 then (c, similarity) else best)
    (0, similarities.getD 0 vt.accZero)).1

def mapDocsToClustersTyped (sort : StdSort) (vectors : SparseVectors Code) (docs : List ℤ)
    (clusters : List (List ℤ)) : List (List ℤ) :=
  let index := buildCentroidIndex vt vectors clusters
  let centroidIds := sort.sort (fun a b => a < b) (clusters.map centroidOf)
  docs.foldl
    (fun clusters doc =>
      if doc ∈ centroidIds then clusters
      else
        clusters.modify (bestCluster vt (similaritiesOf vt vectors index clusters.length doc))
          (· ++ [doc]))
    clusters

variable (F) [Zero F] [Add F] [Sub F] [Mul F] [LT F] [DecidableLT F] [FloatFormat F]

/-- `map_docs_to_clusters`, on the CPU. -/
def mapDocsToClusters (sort : StdSort) (vectors : SparseVectors Code) (docs : List ℤ)
    (clusters : List (List ℤ)) : List (List ℤ) :=
  if clusters = [] ∨ docs = [] then clusters
  else mapDocsToClustersTyped (ValueType.ofWidth F vectors.elementSize) sort vectors docs clusters

/-- `RandomKMeans::train`. -/
def train (rng : Rng) (sort : StdSort) (vectors : SparseVectors Code) (docIds : List ℤ)
    (nClusters seed : ℕ) : List (List ℤ) :=
  if docIds = [] then []
  else
    mapDocsToClusters F sort vectors docIds
      (randomSelectInitialCentroids rng docIds
        (boundaryCheckNClusters docIds.length nClusters) seed)

end Nsparse
