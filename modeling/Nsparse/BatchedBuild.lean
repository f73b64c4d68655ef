/-
Nsparse/BatchedBuild.lean

The batched build: cluster one window of terms at a time, write its lists to a
scratch file, and map the file once it is complete.

`ClusteredListsSpill` owns the path of the scratch file and the mapping.  Mappings are
numbered as they are made, so that a list can tell which one it borrows from.  What
the file system does during a build is an argument: whether the directory exists, the
drawn token, and what fails.
-/
import Nsparse.ClusteredBuild
import Nsparse.ClusterStore

namespace Nsparse

open Wire

/-! ### The scratch file -/

def kSpillPrefix : String := "nsparse-clustered-lists-"
def kSpillSuffix : String := ".tmp"

/-- `spill_path`. -/
def spillPath (dir : String) (token : ℕ) : String :=
  dir ++ "/" ++ (kSpillPrefix ++ toString token ++ kSpillSuffix)

/-- A mapped file: the number of its mapping and its bytes. -/
structure MmapFile where
  region : ℕ
  data : Bytes
  deriving Repr, DecidableEq

/-- The path is empty unless a removal is still owed; `mapped` counts the mappings made. -/
structure ClusteredListsSpill where
  path : String
  mapping : Option MmapFile
  mapped : ℕ
  deriving Repr, DecidableEq

/-- A spill that was never used. -/
def ClusteredListsSpill.new : ClusteredListsSpill := ⟨"", none, 0⟩

/-- What a build meets: whether the directory is one, the token drawn for the file's name, what
storing and mapping a file of given bytes throws, whether removing it fails, and what reading the
lists back throws for want of memory.  A file has fewer than `2 ^ 64` bytes. -/
structure SpillEnv where
  isDirectory : Bool
  token : Except Exception ℕ
  store : Bytes → Option Exception
  store_size : ∀ bytes, store bytes = none → bytes.length < 2 ^ 64
  removeFails : Bool
  readFault : Option Exception

namespace ClusteredListsSpill

/-- Unmap and remove, when there is a path. -/
def release (s : ClusteredListsSpill) : ClusteredListsSpill :=
  if s.path = "" then s
  else { s with
    path := ""
    mapping := none }

/-- `write_and_map`.  The path is set before the file exists, so that `release` in the handler
always finds one. -/
def writeAndMap (env : SpillEnv) (dir : String) (writeSection : Bytes → Except Exception Bytes)
    (s : ClusteredListsSpill) : ClusteredListsSpill × Except Exception Unit :=
  let s := s.release
  match env.token with
  | .error e => (s, .error e)
  | .ok token =>
      let s := { s with path := spillPath dir token }
      match writeSection [] with
      | .error e => (s.release, .error e)
      | .ok bytes =>
          match env.store bytes with
          | some e => (s.release, .error e)
          | none =>
              let s := { s with
                mapping := some ⟨s.mapped, bytes⟩
                mapped := s.mapped + 1 }
              (if env.removeFails then s else { s with path := "" }, .ok ())

end ClusteredListsSpill

/-! ### The lists -/

variable {F : Type} [Mul F] [FloatFormat F] [Zero F] [Add F] [Sub F] [LT F] [DecidableLT F]

/-- The sink of `stream_clustered_lists`: the bytes written and the next term expected. -/
def streamWindow (s : Bytes × ℕ) (termBegin : ℕ) (clusters : List InvertedListClusters) :
    Except Exception (Bytes × ℕ) :=
  if termBegin ≠ s.2 then
    .error (.runtimeError "spill_clustered_lists: windows arrived out of order")
  else .ok (writeMany InvertedListClusters.serialize clusters s.1, termBegin + clusters.length)

/-- `stream_clustered_lists`. -/
def streamClusteredLists (rng : Rng) (sort : StdSort) (vectors : Option (SparseVectors Code))
    (dimension : ℕ) (params : SeismicClusterParameters F) (entropy : ℕ) (w : Bytes) :
    Except Exception Bytes := do
  let (w, nextTerm) ← forEachClusteredWindow rng sort vectors dimension params entropy
    streamWindow (writeScalar sizeCodec dimension w, 0)
  if nextTerm ≠ dimension then
    .error (.runtimeError
      s!"spill_clustered_lists: spilled {nextTerm} of {dimension} posting lists")
  else .ok w

/-- `spill_clustered_lists`. -/
def spillClusteredLists (env : SpillEnv) (rng : Rng) (sort : StdSort)
    (vectors : Option (SparseVectors Code)) (dimension : ℕ) (params : SeismicClusterParameters F)
    (entropy : ℕ) (scratchDir : String) (into : ClusteredListsSpill) :
    ClusteredListsSpill × Except Exception (List InvertedListClusters) :=
  if env.isDirectory = false then
    (into, .error (.invalidArgument
      ("spill_clustered_lists: batch_file_output_path must be an existing directory to spill " ++
        s!"into, got '{scratchDir}'")))
  else if (vectors.map SparseVectors.numVectors).getD 0 = 0 then
    (into, .error (.invalidArgument
      "spill_clustered_lists: corpus is empty; there is nothing to spill"))
  else
    match into.writeAndMap env scratchDir
      (streamClusteredLists rng sort vectors dimension params entropy) with
    | (into, .error e) => (into, .error e)
    | (into, .ok ()) =>
        match env.readFault with
        | some e => (into, .error e)
        | none =>
            let data := (into.mapping.map MmapFile.data).getD []
            -- the widths just written divide a page, so it is no matter at which one the file is
            (into, (mmapDeserializeLists 0 ⟨data, 0⟩).map Prod.fst)

/-- `build_clustered_lists`, the build of every seismic index: the lists, and the mapping they
borrow from, if any. -/
def buildClusteredLists (env : SpillEnv) (rng : Rng) (sort : StdSort)
    (vectors : Option (SparseVectors Code)) (dimension : ℕ) (params : SeismicClusterParameters F)
    (entropy : ℕ) (spill : ClusteredListsSpill) :
    ClusteredListsSpill × Except Exception (List InvertedListClusters × Option ℕ) :=
  let batch := params.batchClustering
  if batch.effectiveBatchSize ≤ 1 then
    (spill, (buildInvertedListsClusters rng sort vectors dimension params entropy).map fun lists =>
      (lists, none))
  else
    match spillClusteredLists env rng sort vectors dimension params entropy
      batch.batchFileOutputPath spill with
    | (spill, result) =>
        (spill, result.map fun lists => (lists, spill.mapping.map MmapFile.region))

end Nsparse
