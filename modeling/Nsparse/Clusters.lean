/-
Nsparse/Clusters.lean

A clustered posting list: the documents of each cluster, and a summary of each
cluster stored term by term.

A summary keeps, for every term of a cluster, the largest value any of its
documents has, and then only the largest of those up to a share `alpha` of their
sum.  `summarizeWithCpu` computes the summaries one cluster after the other with
buffers that are never cleared: an epoch per term tells which entries belong to the
current cluster.  `buildTranspose` turns the summaries into columns.
-/
import Nsparse.Kmeans

namespace Nsparse

/-- The members of the clusters with the offset of each cluster, and the summary store:
distinct terms, their offsets, and a cluster id and a value for every entry. -/
structure InvertedListClusters where
  nClusters : ℕ
  elementSize : ℕ
  docs : List ℤ
  offsets : List ℤ
  termIds : List ℕ
  termPtr : List ℤ
  cscCluster : List ℕ
  cscValue : List UInt8
  deriving Repr, DecidableEq

namespace InvertedListClusters

/-- The default constructor. -/
def empty : InvertedListClusters := ⟨0, U32, [], [], [], [], [], []⟩

/-- Flatten the clusters. -/
def ofDocs (docs : List (List ℤ)) : InvertedListClusters :=
  if docs = [] then empty
  else { empty with
    docs := docs.flatten
    offsets := (Csr.offsets docs).map fun n : ℕ => toIdx n }

/-- The members of cluster `idx`; none when the membership was not loaded. -/
def getDocs (l : InvertedListClusters) (idx : ℕ) : List ℤ :=
  if l.offsets.length < idx + 2 then []
  else
    let start := l.offsets.getD idx 0
    (l.docs.drop start.toNat).take (l.offsets.getD (idx + 1) 0 - start).toNat

end InvertedListClusters

/-! ### Summaries -/

variable {F : Type} [Zero F] [Add F] [FloatFormat F]

/-- What the max-pool over one cluster works on: the largest value and the epoch of every term,
the terms met so far, and the sum of their values. -/
structure MaxPool (F : Type) (vt : ValueType F) where
  acc : List vt.T
  epoch : List ℕ
  touched : List ℕ
  sum : F

/-- Pool one entry: a first occurrence in this cluster, a larger value, or neither. -/
def poolEntry (vt : ValueType F) (curEpoch : ℕ) (s : MaxPool F vt) (entry : ℕ × Code) :
    MaxPool F vt :=
  let term := entry.1
  let v := vt.decode entry.2
  if s.epoch.getD term 0 ≠ curEpoch then
    let value := if vt.gt v vt.zero then v else vt.zero
    { acc := s.acc.set term value
      epoch := s.epoch.set term curEpoch
      touched := s.touched ++ [term]
      sum := s.sum + vt.toFloat value }
  else if vt.gt v (s.acc.getD term vt.zero) then
    { s with
      acc := s.acc.set term v
      sum := s.sum + vt.sub v (s.acc.getD term vt.zero) }
  else s

/-- Pool the documents of one cluster. -/
def poolCluster (vt : ValueType F) (vectors : SparseVectors Code) (curEpoch : ℕ)
    (s : MaxPool F vt) (docIds : List ℤ) : MaxPool F vt :=
  docIds.foldl (fun s doc => (docRow vectors doc).foldl (poolEntry vt curEpoch) s) s

/-- Keep pairs until their values make up a share `alpha` of `sum`. -/
def cutAtMass (vt : ValueType F) (sum alpha : F) : F → List (ℕ × vt.T) → List (ℕ × vt.T)
  | _, [] => []
  | addup, pair :: pairs =>
      let addup := addup + vt.toFloat pair.2
      if FloatFormat.ratioGe addup sum alpha then [pair]
      else pair :: cutAtMass vt sum alpha addup pairs

/-- `summarize_emit_cluster_`: cut the pairs by descending value and append the rest by
ascending term. -/
def summarizeEmitCluster (vt : ValueType F) (sort : StdSort) (pairs : List (ℕ × vt.T))
    (sum alpha : F) (out : SparseVectors Code) : SparseVectors Code :=
  let pairs := sort.sort (fun a b => vt.gt a.2 b.2) pairs
  let pairs := cutAtMass vt sum alpha 0 pairs
  let pairs := sort.sort (fun a b => decide (a.1 < b.1)) pairs
  out.addVector (pairs.map Prod.fst) (pairs.map fun pair => vt.encode pair.2)

/-- The loop over the clusters, from cluster `i` on; the epoch is a `uint32_t`. -/
def summarizeClusters (vt : ValueType F) (sort : StdSort) (vectors : SparseVectors Code)
    (alpha : F) : ℕ → List (List ℤ) → List vt.T → List ℕ → SparseVectors Code →
      SparseVectors Code
  | _, [], _, _, out => out
  | i, docIds :: clusters, acc, epoch, out =>
      let s := poolCluster vt vectors ((i + 1) % 2 ^ 32) ⟨acc, epoch, [], 0⟩ docIds
      let pairs := s.touched.map fun term => (term, s.acc.getD term vt.zero)
      summarizeClusters vt sort vectors alpha (i + 1) clusters s.acc s.epoch
        (summarizeEmitCluster vt sort pairs s.sum alpha out)

/-- `summarize_with_cpu_`: one summary for each cluster. -/
def summarizeWithCpu (vt : ValueType F) (sort : StdSort) (vectors : SparseVectors Code)
    (clusters : List (List ℤ)) (alpha : F) : SparseVectors Code :=
  summarizeClusters vt sort vectors alpha 0 clusters
    (List.replicate vectors.dimension vt.zero) (List.replicate vectors.dimension 0)
    ⟨vectors.elementSize, vectors.dimension, [], [], []⟩

namespace InvertedListClusters

/-- The position of a term among the distinct terms. -/
def termColumn (termIds : List ℕ) (term : ℕ) : ℕ := (termIds.takeWhile (· < term)).length

/-- `build_transpose`: the summaries as columns, by a counting sort over their terms. -/
def buildTranspose (sort : StdSort) (l : InvertedListClusters) (summaries : SparseVectors Code) :
    InvertedListClusters :=
  let l := { l with
    nClusters := summaries.numVectors
    elementSize := summaries.elementSize
    termIds := []
    termPtr := []
    cscCluster := []
    cscValue := [] }
  if summaries.numVectors = 0 then l
  else
    let nnz := summaries.indptr.getD summaries.numVectors 0
    let terms := summaries.indices.take nnz
    let termIds := (sort.sort (fun a b => a < b) terms).destutter (· ≠ ·)
    let termPtr := CountingSort.offsets termIds.length (terms.map (termColumn termIds))
    let entries := (List.range summaries.numVectors).flatMap fun cluster =>
      (summaries.row cluster).map fun entry =>
        (termColumn termIds entry.1, cluster % 2 ^ 16, entry.2)
    let placed := CountingSort.place termPtr.dropLast
      (List.replicate nnz (0, List.replicate summaries.elementSize 0)) entries
    { l with
      termIds
      termPtr := termPtr.map fun n : ℕ => toIdx n
      cscCluster := placed.map Prod.fst
      cscValue := placed.flatMap Prod.snd }

variable [Sub F] [Mul F] [LT F] [DecidableLT F]

/-- `summarize`, on the CPU.  A list without clusters gets an empty store. -/
def summarize (sort : StdSort) (vectors : SparseVectors Code) (alpha : F)
    (l : InvertedListClusters) : InvertedListClusters :=
  if l.offsets.length ≤ 1 then
    l.buildTranspose sort ⟨vectors.elementSize, vectors.dimension, [], [], []⟩
  else
    l.buildTranspose sort
      (summarizeWithCpu (ValueType.ofWidth F vectors.elementSize) sort vectors
        ((List.range (l.offsets.length - 1)).map l.getDocs) alpha)

end InvertedListClusters

end Nsparse
