/-
Nsparse/DiskSeismicIndex.lean

The disk-resident seismic indexes: state, add, build and search.

An index is fresh, with its vectors in memory, or mapped, with its documents in the
blocks of an inline forward index and, for those in no block, in a remainder.  `search`
takes whichever it finds: blocks when there are any, else vectors.  It scores the
`k_prime` blocks of best summary score; a selector of at most `k` ids is answered
through the vectors, or through the directory of a mapped index.

The float index and the quantizing one share this code, as the seismic indexes do.
-/
import Nsparse.CsrIngest
import Nsparse.InlineForward
import Nsparse.SeismicSearch

namespace Nsparse

open Wire

variable {F : Type}

/-! ### State -/

/-- Where one full copy of a document's vector is: a slot of a block, or row `block` of the
remainder. -/
structure DocLocator where
  postingList : ℕ
  block : ℕ
  slot : ℕ
  deriving Repr, DecidableEq

def DocLocator.kRemainder : ℕ := 2 ^ 32 - 1

/-- The members of a disk index.  No locators stand for a null pointer; `vectorsMapped` says that
the vectors are borrowed from a mapped CSR file. -/
structure DiskSeismicIndex (F : Type) extends SeismicIndex F where
  vectorsMapped : Bool
  fwd : InlineForwardIndex
  docLocators : List DocLocator
  remainder : SparseVectors Code
  numVectors : ℕ

namespace DiskSeismicIndex

def new (dim : ℕ) (parameter : SeismicClusterParameters F) : DiskSeismicIndex F :=
  { SeismicIndex.new dim parameter with
    vectorsMapped := false
    fwd := .empty
    docLocators := []
    remainder := .default
    numVectors := 0 }

/-- `add`.  The vectors it creates start the count afresh. -/
def add (format : CodeFormat F) (args : CsrArgs F) (x : DiskSeismicIndex F) :
    DiskSeismicIndex F × Except Exception Unit :=
  match args.checked with
  | .error e => (x, .error e)
  | .ok (indptr, indices, values) =>
      let x := if x.vectors = none then { x with numVectors := 0 } else x
      match x.vectorsToAdd format with
      | .error e => (x, .error e)
      | .ok vectors =>
          let x := { x with vectors := some vectors }
          if x.vectorsMapped then
            (x, .error (.logicError
              "Buf does not own a vector: borrowed and mapped buffers cannot grow"))
          else
            match vectors.addVectors indptr indices (values.map format.encode) with
            | .error e => (x, .error e)
            | .ok vectors =>
                ({ x with
                    vectors := some vectors
                    numVectors := x.numVectors + args.n.toNat }, .ok ())

/-- `read_csr` in mapped residency, on the bytes of the file. -/
def readMcsr (format : CodeFormat F) (path : String) (file : Bytes) (x : DiskSeismicIndex F) :
    DiskSeismicIndex F × Except Exception Unit :=
  match x.vectors with
  | some _ => (x, .error (.runtimeError "mmap index already has vectors"))
  | none =>
      match Nsparse.readMcsr path x.dimension format.elementSize ⟨file, 0⟩ with
      | .error e => (x, .error e)
      | .ok (vectors, _) =>
          ({ x with
              vectors := some vectors
              vectorsMapped := true
              numVectors := vectors.numVectors }, .ok ())

section Build

variable [Mul F] [FloatFormat F] [Zero F] [Add F] [Sub F] [LT F] [DecidableLT F]

/-- `build`, and what it threw. -/
def build (env : SpillEnv) (rng : Rng) (sort : StdSort) (entropy : ℕ) (x : DiskSeismicIndex F) :
    DiskSeismicIndex F × Except Exception Unit :=
  let (seismic, result) := x.toSeismicIndex.build env rng sort entropy
  ({ x with toSeismicIndex := seismic }, result)

end Build

end DiskSeismicIndex

/-! ### Search parameters -/

def kDefaultBlockBudget : ℤ := 50

/-- `resolve_cut_and_budget`. -/
def SearchFields.cutAndBudget : Option (SearchFields F) → ℤ × ℤ
  | some (.diskSeismic cut kPrime) => (cut, kPrime)
  | some (.diskSeismicSQ _ _ cut kPrime) => (cut, kPrime)
  | some (.seismic cut _) => (cut, kDefaultBlockBudget)
  | some (.seismicSQ _ _ cut _) => (cut, kDefaultBlockBudget)
  | some .plain => (kDefaultCut, kDefaultBlockBudget)
  | none => (kDefaultCut, kDefaultBlockBudget)

/-- `std::nth_element` up to position `n`: a fixed function of its input that puts no element of
the first `n` after one of the rest. -/
structure StdNthElement where
  select : {α : Type} → (α → α → Bool) → ℕ → List α → List α
  perm : ∀ {α : Type} (lt : α → α → Bool) (n : ℕ) (l : List α), (select lt n l).Perm l
  parted : ∀ {α : Type} (lt : α → α → Bool),
    (∀ a b, lt a b = true → lt b a = false) →
    (∀ a b c, lt a b = false → lt b c = false → lt a c = false) →
    ∀ (n : ℕ) (l : List α), ∀ a ∈ (select lt n l).take n, ∀ b ∈ (select lt n l).drop n,
      lt b a = false

/-- Sorting meets the contract. -/
def StdSort.nthElement (sort : StdSort) : StdNthElement where
  select lt _ l := sort.sort lt l
  perm lt _ l := sort.perm lt l
  parted lt hasymm htrans n l a ha b hb := by
    have hsorted := sort.sorted lt hasymm htrans l
    rw [← List.take_append_drop n (sort.sort lt l)] at hsorted
    exact (List.pairwise_append.mp hsorted).2.2 a ha b hb

section Quantized

variable [Zero F] [Sub F] [Mul F] [LinearOrder F] [FloatFormat F]

/-- `query_quantizer` of the disk index: the range of `DiskSeismicSQSearchParameters`, or its
own. -/
def ScalarQuantizer.diskQueryQuantizer (sq : ScalarQuantizer F) :
    Option (SearchFields F) → Except Exception (ScalarQuantizer F)
  | some (.diskSeismicSQ vmin vmax _ _) => ScalarQuantizer.make sq.qtype vmin vmax
  | _ => .ok sq

/-- How the quantizing disk index searches. -/
def diskQuantizedSearch (sq : ScalarQuantizer F) (params : Option (SearchFields F)) :
    Except Exception (QueryFormat F) :=
  (sq.diskQueryQuantizer params).map (quantizedQueries sq)

end Quantized

/-! ### Documents of a mapped index -/

/-- Document `i` of a block. -/
def InlineForwardIndex.rowAt (fwd : InlineForwardIndex) (elementSize : ℕ) (view : BlockView)
    (i : ℕ) : SparseRow Code :=
  (view.docComps fwd.mapping i).zip (view.docVals fwd.mapping elementSize i)

namespace DiskSeismicIndex

variable (x : DiskSeismicIndex F)

/-- Row `i` of the remainder, its values read at a width. -/
def remainderRow (elementSize i : ℕ) : SparseRow Code :=
  (x.remainder.compsOf i).zip <|
    SparseVectors.codesOf elementSize (x.remainder.nnzOf i)
      (x.remainder.values.flatten.drop (x.remainder.indptr.getD i 0 * elementSize))

/-- `get_doc`. -/
def getDoc (doc : ℤ) (elementSize : ℕ) : Except Exception (SparseRow Code) :=
  let loc := x.docLocators.getD doc.toNat ⟨0, 0, 0⟩
  if loc.postingList = DocLocator.kRemainder then
    if x.remainder.numVectors ≤ loc.block then
      .error (.runtimeError "DiskSeismic exact match: remainder locator out of range")
    else .ok (x.remainderRow elementSize loc.block)
  else do
    let view ← x.fwd.block loc.postingList loc.block
    match view with
    | none =>
        .error (.runtimeError
          "DiskSeismic exact match: doc locator does not resolve to its doc")
    | some view =>
        if (view.docIdList x.fwd.mapping)[loc.slot]? = some doc.toNat then
          .ok (x.fwd.rowAt elementSize view loc.slot)
        else
          .error (.runtimeError
            "DiskSeismic exact match: doc locator does not resolve to its doc")

end DiskSeismicIndex

/-! ### The block-budget search -/

variable [Zero F] [One F] [Neg F] [Add F] [Sub F] [Mul F] [LinearOrder F] [FloatFormat F]

/-- A candidate block: its summary score, its list and its number there. -/
structure BlockCandidate (F : Type) where
  score : F
  pl : ℕ
  cid : ℕ
  deriving Repr, DecidableEq

/-- Every block of the lists of the terms kept. -/
def blockCandidates (lists : List InvertedListClusters) (query : SparseRow Code)
    (cuts : List ℕ) : List (BlockCandidate F) :=
  cuts.flatMap fun term =>
    match lists[term]? with
    | none => []
    | some l =>
        let scores := l.scoreSummariesTransposed query
        (List.range l.nClusters).map fun cid => ⟨scores.getD cid 0, term, cid⟩

/-- The `kPrime` candidates of best score, when there are more. -/
def selectBlocks (nth : StdNthElement) (candidates : List (BlockCandidate F)) (kPrime : ℤ) :
    List (BlockCandidate F) :=
  let budget := min kPrime.toNat candidates.length
  if budget < candidates.length then
    (nth.select (fun a b => decide (b.score < a.score)) budget candidates).take budget
  else candidates

variable {Q : ItemQueue F ℤ}

/-- Where the vectors of a search come from. -/
inductive ForwardSource
  | blocks (fwd : InlineForwardIndex)
  | rows (vectors : SparseVectors Code)

/-- `score_block`. -/
def scoreBlock (source : ForwardSource) (lists : List InvertedListClusters) (elementSize : ℕ)
    (dense : List Code) (sel : Option IDSelector) (candidate : BlockCandidate F) (s : Visit Q) :
    Except SearchFault (Visit Q) :=
  match source with
  | .blocks fwd => do
      let view ← SearchFault.lift (fwd.block candidate.pl candidate.cid)
      match view with
      | none => .ok s
      | some view =>
          ((view.docIdList fwd.mapping).zipIdx).foldlM
            (fun s doc =>
              scoreDoc elementSize dense sel (toIdx doc.1) (fwd.rowAt elementSize view doc.2) s)
            s
  | .rows vectors =>
      scoreDocs vectors elementSize dense sel
        ((lists.getD candidate.pl .empty).getDocs candidate.cid) s

/-- What a block-budget search reads besides the queries. -/
structure BlockSetting (F : Type) where
  format : QueryFormat F
  k : ℤ
  cut : ℤ
  kPrime : ℤ
  sel : Option IDSelector

/-- `block_budget_query`: the raw items and the buffer left behind. -/
def blockBudgetQuery (Q : ItemQueue F ℤ) (nth : StdNthElement) (source : ForwardSource)
    (lists : List InvertedListClusters) (c : BlockSetting F) (cuts : List ℕ)
    (query : SparseRow Code) (dense : List Code) :
    Except SearchFault ((List F × List ℤ) × List Code) := do
  let dense ← scatter dense query
  let candidates := selectBlocks nth (blockCandidates lists query cuts) c.kPrime
  let heap ← SearchFault.lift (TopKHolder.new Q c.k)
  let s ← candidates.foldlM
    (fun s candidate => scoreBlock source lists c.format.elementSize dense c.sel candidate s)
    (⟨heap, []⟩ : Visit Q)
  let dense ← clearBuffer c.format.elementSize dense query
  .ok (s.heap.topKItemsDescending, dense)

/-- The queries of a search, one after the other on one thread. -/
def blockQueries (Q : ItemQueue F ℤ) (T : ItemQueue F ℕ) (nth : StdNthElement)
    (source : ForwardSource) (lists : List InvertedListClusters) (c : BlockSetting F) :
    List (SparseRow Code) → List Code → Except SearchFault (SearchRows F)
  | [], _ => .ok ([], [])
  | query :: queries, dense => do
      let cuts ← SearchFault.lift (topKTokens T c.format.elementSize query c.cut)
      let (items, dense) ← blockBudgetQuery Q nth source lists c cuts query dense
      let (ds, ls) ← blockQueries Q T nth source lists c queries dense
      let result := paddedResult c.format.decodeScore c.k items
      .ok (result.1 :: ds, result.2 :: ls)

/-! ### The exact-match path -/

/-- Decode the scores before the first slot that carries no label. -/
def decodeFilled (decodeScore : F → F) (ds : List F) (ls : List ℤ) : List F :=
  let filled := (ls.takeWhile (· ≠ INVALID_IDX)).length
  (ds.take filled).map decodeScore ++ ds.drop filled

namespace DiskSeismicIndex

/-- Score the listed documents that have a locator. -/
def directoryDocs (x : DiskSeismicIndex F) (elementSize : ℕ) (dense : List Code) :
    List ℤ → TopKHolder Q → Except SearchFault (TopKHolder Q)
  | [], heap => .ok heap
  | doc :: ids, heap =>
      if doc < 0 ∨ (x.docLocators.length : ℤ) ≤ doc then
        x.directoryDocs elementSize dense ids heap
      else do
        let row ← SearchFault.lift (x.getDoc doc elementSize)
        match computeSimilarity elementSize dense row with
        | none => .error .outOfBuffer
        | some score => x.directoryDocs elementSize dense ids (heap.add score doc)

/-- The queries of `exact_match_directory`. -/
def exactMatchDirectory (Q : ItemQueue F ℤ) (x : DiskSeismicIndex F) (format : QueryFormat F)
    (k : ℤ) (ids : List ℤ) :
    List (SparseRow Code) → List Code → Except SearchFault (SearchRows F)
  | [], _ => .ok ([], [])
  | query :: queries, dense => do
      let dense ← scatter dense query
      let heap ← SearchFault.lift (TopKHolder.new Q k)
      let heap ← x.directoryDocs format.elementSize dense ids heap
      let result := paddedResult format.decodeScore k heap.topKItemsDescending
      let dense ← clearBuffer format.elementSize dense query
      let (ds, ls) ← x.exactMatchDirectory Q format k ids queries dense
      .ok (result.1 :: ds, result.2 :: ls)

/-- `initialize_padded_results`. -/
def paddedResults (n k : ℤ) : SearchRows F :=
  (List.replicate n.toNat (List.replicate k.toNat (-1)),
    List.replicate n.toNat (List.replicate k.toNat INVALID_IDX))

/-- The vectors a block search scores: the blocks when there are any. -/
def forwardSource (x : DiskSeismicIndex F) : Option ForwardSource :=
  if 0 < x.fwd.numBlocks then some (.blocks x.fwd) else x.vectors.map .rows

/-- The path that scores blocks. -/
def searchBlocks (Q : ItemQueue F ℤ) (T : ItemQueue F ℕ) (nth : StdNthElement)
    (queryFormat : Option (SearchFields F) → Except Exception (QueryFormat F))
    (x : DiskSeismicIndex F) (n : ℤ) (indptr indices : List ℕ) (values : List F) (k : ℤ)
    (params : Option (SearchFields F)) (sel : Option IDSelector) (source : ForwardSource) :
    Except SearchFault (SearchRows F) :=
  let (cut, kPrime) := SearchFields.cutAndBudget params
  if kPrime ≤ 0 then
    .error (.threw (.invalidArgument
      "DiskSeismic index: k_prime (block budget) must be positive"))
  else do
    let format ← SearchFault.lift (queryFormat params)
    let codes := (values.take (indptr.getD n.toNat 0)).map format.encodeQuery
    blockQueries Q T nth source x.clusteredInvertedLists ⟨format, k, cut, kPrime, sel⟩
      ((List.range n.toNat).map (Csr.row indptr (indices.zip codes)))
      (zeroBuffer x.dimension format.elementSize)

/-- The path that scores the selected documents through the vectors. -/
def searchExact (Q : ItemQueue F ℤ) (sort : StdSort)
    (queryFormat : Option (SearchFields F) → Except Exception (QueryFormat F))
    (x : DiskSeismicIndex F) (n : ℤ) (indptr indices : List ℕ) (values : List F) (k : ℤ)
    (params : Option (SearchFields F)) (ids : List ℤ) (vectors : SparseVectors Code) :
    Except SearchFault (SearchRows F) := do
  let nnz := indptr.getD n.toNat 0
  let format ← SearchFault.lift (queryFormat params)
  let codes := (values.take nnz).map format.encodeQuery
  let queries ← SearchFault.lift (SparseVectors.new format.elementSize x.dimension)
  let queries ← SearchFault.lift (queries.addVectors indptr (indices.take nnz) codes)
  let (ds, ls) ← exactMatch Q sort vectors format.elementSize x.dimension k ids queries.rows
  .ok (ds.zipWith (decodeFilled format.decodeScore) ls, ls)

/-- The path that scores them through the directory. -/
def searchDirectory (Q : ItemQueue F ℤ) (sort : StdSort)
    (queryFormat : Option (SearchFields F) → Except Exception (QueryFormat F))
    (x : DiskSeismicIndex F) (n : ℤ) (indptr indices : List ℕ) (values : List F) (k : ℤ)
    (params : Option (SearchFields F)) (ids : List ℤ) : Except SearchFault (SearchRows F) := do
  let format ← SearchFault.lift (queryFormat params)
  let codes := (values.take (indptr.getD n.toNat 0)).map format.encodeQuery
  x.exactMatchDirectory Q format k (IDSelector.orderedIds sort ids)
    ((List.range n.toNat).map (Csr.row indptr (indices.zip codes)))
    (zeroBuffer x.dimension format.elementSize)

/-- `search`: nothing to score, the selected documents, or the best blocks. -/
def search (Q : ItemQueue F ℤ) (T : ItemQueue F ℕ) (sort : StdSort) (nth : StdNthElement)
    (queryFormat : Option (SearchFields F) → Except Exception (QueryFormat F))
    (x : DiskSeismicIndex F) (n : ℤ) (indptr indices : List ℕ) (values : List F) (k : ℤ)
    (params : Option (SearchFields F)) (sel : Option IDSelector) :
    Except SearchFault (SearchRows F) :=
  if x.numVectors = 0 ∨ n = 0 then .ok (paddedResults n k)
  else
    match x.forwardSource with
    | none => .ok (paddedResults n k)
    | some source =>
        match exactMatchIds sel k with
        | none => x.searchBlocks Q T nth queryFormat n indptr indices values k params sel source
        | some ids =>
            match x.vectors with
            | some vectors =>
                x.searchExact Q sort queryFormat n indptr indices values k params ids vectors
            | none =>
                if x.docLocators = [] then
                  x.searchBlocks Q T nth queryFormat n indptr indices values k params sel source
                else x.searchDirectory Q sort queryFormat n indptr indices values k params ids

end DiskSeismicIndex

end Nsparse
