/-
Nsparse/ClusteredBuild.lean

The build every seismic index runs: invert, prune, cluster and summarize, one window
of terms at a time.

`forEachClusteredWindow` hands the clustered lists of every window to a sink, in
ascending term order.  Parameters that depend on the corpus are resolved once, and a
list's seed comes from its own term, so that nothing about a list depends on the
window it is built in.
-/
import Nsparse.Clusters
import Nsparse.Windows

namespace Nsparse

/-! ### Parameters -/

/-- Contiguous term windows, and a directory to spill them into. -/
structure BatchClusteringOption where
  batchSize : ℕ
  batchFileOutputPath : String
  deriving Repr, DecidableEq

/-- The windows to run: one unless there is somewhere to spill them. -/
def BatchClusteringOption.effectiveBatchSize (b : BatchClusteringOption) : ℕ :=
  if b.batchFileOutputPath = "" then 1 else max 1 b.batchSize

/-- The seed that asks for fresh entropy. -/
def kRandomSeed : ℤ := -1

structure SeismicClusterParameters (F : Type) where
  lambda : ℤ
  beta : ℤ
  alpha : F
  batchClustering : BatchClusteringOption
  seed : ℤ

def kDefaultLambda : ℤ := -1
def kDefaultBeta : ℤ := -1
def kDefaultPostingMinimumLength : ℤ := 160

/-- `static_cast<size_t>` of an `int`. -/
def toSize (i : ℤ) : ℕ := (i % 2 ^ 64).toNat

/-- `static_cast<uint32_t>`. -/
def toUint32 (i : ℤ) : ℕ := (i % 2 ^ 32).toNat

variable {F : Type} [Mul F] [FloatFormat F]

/-- Postings to keep in a list: by default a share of the corpus, and no fewer than 160. -/
def calculateLambda (F : Type) [Mul F] [FloatFormat F] (lambda : ℤ) (nVectors : ℕ) : ℤ :=
  if lambda = kDefaultLambda then
    max (FloatFormat.truncate (FloatFormat.literal 5 4 * FloatFormat.ofInt nVectors : F))
      kDefaultPostingMinimumLength
  else lambda

/-- Clusters of a list: by default a share of `lambda`. -/
def calculateBeta (F : Type) [Mul F] [FloatFormat F] (beta lambda : ℤ) : ℤ :=
  if beta = kDefaultBeta then
    FloatFormat.truncate (FloatFormat.ofInt lambda * FloatFormat.literal 1 1 : F)
  else beta

/-- The parameters with the defaults filled in. -/
structure ResolvedParameters (F : Type) where
  lambda : ℤ
  beta : ℤ
  alpha : F
  baseSeed : ℕ

/-- Resolve against the whole corpus; `entropy` is what `std::random_device` would give. -/
def SeismicClusterParameters.resolve (params : SeismicClusterParameters F) (nVectors entropy : ℕ) :
    ResolvedParameters F :=
  let lambda := calculateLambda F params.lambda nVectors
  { lambda
    beta := calculateBeta F params.beta lambda
    alpha := params.alpha
    baseSeed := if params.seed = kRandomSeed then entropy else toUint32 params.seed }

/-! ### One term -/

variable [Zero F] [Add F] [Sub F] [LT F] [DecidableLT F]

/-- `prune_and_keep_doc_ids`: all documents of a list, or the `lambda` with the largest values. -/
def pruneAndKeepDocIds (F : Type) [Zero F] [Add F] [Sub F] [Mul F] [LT F] [DecidableLT F]
    [FloatFormat F] (sort : StdSort) (elementSize : ℕ) (l : InvertedList Code) (lambda : ℕ) :
    List ℤ :=
  if lambda = 0 ∨ l.docIds = [] ∨ l.docIds.length ≤ lambda then l.docIds
  else
    let vt := ValueType.ofWidth F elementSize
    let pairs := (l.codes.map fun code => vt.toFloat (vt.decode code)).zip l.docIds
    ((sort.sort (fun a b => decide (b.1 < a.1)) pairs).take lambda).map Prod.snd

/-- The body of the loop of `cluster_window`: prune, cluster and summarize the list of `term`. -/
def clusterTerm (rng : Rng) (sort : StdSort) (vectors : SparseVectors Code)
    (params : ResolvedParameters F) (term : ℕ) (invlist : InvertedList Code) :
    InvertedListClusters :=
  let docIds := pruneAndKeepDocIds F sort vectors.elementSize invlist (toSize params.lambda)
  let seed := toUint32 (params.baseSeed + term)
  InvertedListClusters.summarize sort vectors params.alpha
    (.ofDocs (train F rng sort vectors docIds (toSize params.beta) seed))

/-! ### One window after the other -/

def clusterWindow (rng : Rng) (sort : StdSort) (vectors : SparseVectors Code)
    (lists : List (InvertedList Code)) (window : TermWindow) (params : ResolvedParameters F) :
    List InvertedListClusters :=
  (List.range window.size).map fun i =>
    clusterTerm rng sort vectors params (window.start + i) (lists.getD i .empty)

variable {σ : Type}

/-- One turn of the loop over the windows. -/
def clusteredWindow (rng : Rng) (sort : StdSort) (vectors : SparseVectors Code)
    (params : ResolvedParameters F) (termCounts : List ℕ)
    (sink : σ → ℕ → List InvertedListClusters → Except Exception σ) (s : σ) (window : TermWindow) :
    Except Exception σ := do
  let lists ← fillFromCorpus vectors window
    (WindowLists.new termCounts window vectors.elementSize)
  let lists ← lists.sealed
  sink s window.start (clusterWindow rng sort vectors lists window params)

/-- `for_each_clustered_window`; the sink passes a state along. -/
def forEachClusteredWindow (rng : Rng) (sort : StdSort) (vectors : Option (SparseVectors Code))
    (dimension : ℕ) (params : SeismicClusterParameters F) (entropy : ℕ)
    (sink : σ → ℕ → List InvertedListClusters → Except Exception σ) (s : σ) :
    Except Exception σ :=
  match vectors with
  | none => .ok s
  | some vectors =>
      if vectors.numVectors = 0 then .ok s
      else do
        let batches := min params.batchClustering.effectiveBatchSize dimension
        let resolved := params.resolve vectors.numVectors entropy
        let termCounts ← countPostingsPerTerm vectors dimension
        (makeWindows termCounts (toSize resolved.lambda) batches).foldlM
          (clusteredWindow rng sort vectors resolved termCounts sink) s

/-- Put the lists of a window at their terms. -/
def placeWindow (clustered : List InvertedListClusters) (termBegin : ℕ)
    (window : List InvertedListClusters) : List InvertedListClusters :=
  clustered.take termBegin ++ window ++ clustered.drop (termBegin + window.length)

/-- `build_inverted_lists_clusters`: the whole corpus in memory. -/
def buildInvertedListsClusters (rng : Rng) (sort : StdSort)
    (vectors : Option (SparseVectors Code)) (dimension : ℕ) (params : SeismicClusterParameters F)
    (entropy : ℕ) : Except Exception (List InvertedListClusters) :=
  forEachClusteredWindow rng sort vectors dimension params entropy
    (fun clustered termBegin window => .ok (placeWindow clustered termBegin window))
    (List.replicate dimension .empty)

end Nsparse
