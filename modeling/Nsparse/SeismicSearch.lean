/-
Nsparse/SeismicSearch.lean

How the seismic indexes answer a query.

A query is scattered into a dense buffer as wide as the dimension, the clusters of
its strongest terms are visited in the order of their summary scores, and a cluster
whose score cannot beat the heap is passed over.  A selector of at most `k` ids is
answered by scoring those documents alone.

The float index and the quantizing index share this code and differ in how a query is
encoded and its scores decoded (`QueryFormat`).  Nothing checks a term against the
buffer: a write or a read past its end is the outcome `outOfBuffer`.
-/
import Nsparse.Index
import Nsparse.Ranker
import Nsparse.SeismicIndex

namespace Nsparse

variable {F : Type}

/-! ### Parameters and results -/

/-- What the parameters of a search carry besides the selector: `SearchParameters` itself or one of
the classes derived from it. -/
inductive SearchFields (F : Type)
  | plain
  | seismic (cut : ℤ) (heapFactor : F)
  | seismicSQ (vmin vmax : F) (cut : ℤ) (heapFactor : F)
  | diskSeismic (cut kPrime : ℤ)
  | diskSeismicSQ (vmin vmax : F) (cut kPrime : ℤ)
  deriving Repr, DecidableEq

/-- How a search fails: an exception, or an access outside the dense query buffer. -/
inductive SearchFault
  | threw (e : Exception)
  | outOfBuffer
  deriving Repr, DecidableEq

/-- One list of scores and one of labels for every query. -/
abbrev SearchRows (F : Type) := List (List F) × List (List ℤ)

def SearchFault.lift {α : Type} : Except Exception α → Except SearchFault α
  | .ok a => .ok a
  | .error e => .error (.threw e)

def kDefaultCut : ℤ := 10

/-- `cut` and `heap_factor` of the parameters, or the defaults. -/
def SearchFields.cutAndHeapFactor [One F] : Option (SearchFields F) → ℤ × F
  | some (.seismic cut heapFactor) => (cut, heapFactor)
  | some (.seismicSQ _ _ cut heapFactor) => (cut, heapFactor)
  | some (.diskSeismic cut _) => (cut, 1)
  | some (.diskSeismicSQ _ _ cut _) => (cut, 1)
  | some .plain => (kDefaultCut, 1)
  | none => (kDefaultCut, 1)

/-! ### The dense query buffer -/

/-- A code of zero bytes. -/
def zeroCode (elementSize : ℕ) : Code := List.replicate elementSize 0

/-- `std::vector<uint8_t> dense(dimension * element_size, 0)`, one code for each term. -/
def zeroBuffer (dimension elementSize : ℕ) : List Code :=
  List.replicate dimension (zeroCode elementSize)

/-- Write the codes of a query at their terms. -/
def scatter (dense : List Code) (query : SparseRow Code) : Except SearchFault (List Code) :=
  query.foldlM
    (fun dense entry =>
      if entry.1 < dense.length then .ok (dense.set entry.1 entry.2) else .error .outOfBuffer)
    dense

/-- The same positions, back to zero. -/
def clearBuffer (elementSize : ℕ) (dense : List Code) (query : SparseRow Code) :
    Except SearchFault (List Code) :=
  scatter dense (query.map fun entry => (entry.1, zeroCode elementSize))

/-- `sum of weights[i] * dense[indices[i]]`; `none` is a read outside the buffer. -/
def dotProduct (vt : ValueType F) (dense : List Code) (row : SparseRow Code) : Option vt.Acc :=
  row.foldlM
    (fun acc entry =>
      dense[entry.1]?.map fun code => vt.mulAdd acc (vt.decode entry.2) (vt.decode code))
    vt.accZero

/-- The kernel of two-byte codes adds up in an `int64_t`, the one of one-byte codes in an `int`. -/
def accumulatorBits (elementSize : ℕ) : ℕ := if elementSize = U16 then 64 else 32

/-- A sum in an accumulator of `bits` bits; one that overflows goes on with what two's complement
leaves of it. -/
def wrapped (bits sum : ℕ) : ℤ := Int.bmod sum (2 ^ bits)

section Codes

variable [Zero F] [Add F] [Sub F] [Mul F] [LT F] [DecidableLT F] [FloatFormat F]

/-- `compute_similarity`: the kernel of the element width. -/
def computeSimilarity (elementSize : ℕ) (dense : List Code) (row : SparseRow Code) : Option F :=
  if elementSize = U32 then dotProduct (ValueType.float F) dense row
  else if elementSize = U16 then
    (dotProduct (ValueType.uint F U16) dense row).map fun sum : ℕ =>
      FloatFormat.ofInt (wrapped (accumulatorBits U16) sum)
  else
    (dotProduct (ValueType.uint F U8) dense row).map fun sum : ℕ =>
      FloatFormat.ofInt (wrapped (accumulatorBits U8) sum)

/-! ### Summary scores -/

/-- The width of the type an element width selects. -/
def strideOf (elementSize : ℕ) : ℕ :=
  if elementSize = U32 then U32 else if elementSize = U16 then U16 else U8

namespace InvertedListClusters

/-- Value `j` of the summary store. -/
def summaryValue (l : InvertedListClusters) (j : ℕ) : Code :=
  (l.cscValue.drop (j * strideOf l.elementSize)).take (strideOf l.elementSize)

/-- Add the products of one query term to the scores of the clusters that hold the term. -/
def addTermScores (vt : ValueType F) (l : InvertedListClusters) (out : List F)
    (entry : ℕ × Code) : List F :=
  let col := termColumn l.termIds entry.1
  if l.termIds[col]? = some entry.1 then
    let start := (l.termPtr.getD col 0).toNat
    let stop := (l.termPtr.getD (col + 1) 0).toNat
    (List.range' start (stop - start)).foldl
      (fun out j =>
        out.modify (l.cscCluster.getD j 0)
          fun score =>
            score + vt.toFloat (vt.decode entry.2) * vt.toFloat (vt.decode (l.summaryValue j)))
      out
  else out

/-- `score_summaries_transposed`. -/
def scoreSummariesTransposed (l : InvertedListClusters) (query : SparseRow Code) : List F :=
  let out := List.replicate l.nClusters 0
  if l.nClusters = 0 ∨ l.termIds = [] then out
  else query.foldl (addTermScores (ValueType.ofWidth F l.elementSize) l) out

end InvertedListClusters

end Codes

/-! ### Queries -/

/-- What the indexes differ in while they search: the width and the encoding of a query value, and
the decoding of a score. -/
structure QueryFormat (F : Type) where
  elementSize : ℕ
  encodeQuery : F → Code
  decodeScore : F → F

/-- Floats are searched as they are. -/
def floatQueries (F : Type) [FloatFormat F] : QueryFormat F := ⟨U32, FloatFormat.toBits, id⟩

section Quantized

variable [Zero F] [Sub F] [Mul F] [LinearOrder F] [FloatFormat F]

/-- The constructor of a quantizer.  A float is its bytes, so the last case does not arise. -/
def ScalarQuantizer.make (qtype : QuantizerType) (vmin vmax : F) :
    Except Exception (ScalarQuantizer F) :=
  if finite : FloatFormat.isFinite vmin = true ∧ FloatFormat.isFinite vmax = true then
    if range : vmin < vmax then
      if stored : FloatFormat.ofBits (FloatFormat.toBits vmin) = vmin ∧
          FloatFormat.ofBits (FloatFormat.toBits vmax) = vmax then
        .ok ⟨qtype, vmin, vmax, finite, range, stored⟩
      else .error (.logicError "not a float")
    else .error (.invalidArgument "vmax must be greater than vmin")
  else .error (.invalidArgument "vmin and vmax must be finite")

/-- `query_quantizer`: the range of `SeismicSQSearchParameters`, or the index's own. -/
def ScalarQuantizer.queryQuantizer (sq : ScalarQuantizer F) :
    Option (SearchFields F) → Except Exception (ScalarQuantizer F)
  | some (.seismicSQ vmin vmax _ _) => ScalarQuantizer.make sq.qtype vmin vmax
  | _ => .ok sq

/-- Queries encoded by `query`, their scores decoded back. -/
def quantizedQueries (sq query : ScalarQuantizer F) : QueryFormat F :=
  ⟨sq.bytesPerValue, query.encode, fun score => sq.decodeDotProduct score query⟩

/-- How the float index searches. -/
def floatSearch (F : Type) [FloatFormat F] (_ : Option (SearchFields F)) :
    Except Exception (QueryFormat F) := .ok (floatQueries F)

/-- How a quantizing index searches. -/
def quantizedSearch (sq : ScalarQuantizer F) (params : Option (SearchFields F)) :
    Except Exception (QueryFormat F) :=
  (sq.queryQuantizer params).map (quantizedQueries sq)

end Quantized

variable [Zero F] [One F] [Neg F] [Add F] [Sub F] [Mul F] [LinearOrder F] [FloatFormat F]

/-- `top_k_tokens`: all terms, or the `cut` of largest weight. -/
def topKTokens (T : ItemQueue F ℕ) (elementSize : ℕ) (query : SparseRow Code) (cut : ℤ) :
    Except Exception (List ℕ) :=
  if (query.length : ℤ) ≤ cut then .ok (query.map Prod.fst)
  else
    let vt := ValueType.ofWidth F elementSize
    (TopKHolder.new T cut).map fun holder =>
      (query.foldl (fun (holder : TopKHolder T) entry =>
        holder.add (vt.toFloat (vt.decode entry.2)) entry.1) holder).topKItemsDescending.2

/-! ### One posting list -/

/-- The heap and the documents seen so far. -/
structure Visit (Q : ItemQueue F ℤ) where
  heap : TopKHolder Q
  visited : List ℤ

variable {Q : ItemQueue F ℤ}

/-- Score a document that was not seen before and passes the selector. -/
def scoreDoc (elementSize : ℕ) (dense : List Code) (sel : Option IDSelector) (doc : ℤ)
    (row : SparseRow Code) (s : Visit Q) : Except SearchFault (Visit Q) :=
  if doc ∈ s.visited then .ok s
  else
    let s := { s with visited := doc :: s.visited }
    if IDSelector.passes sel doc = false then .ok s
    else
      match computeSimilarity elementSize dense row with
      | none => .error .outOfBuffer
      | some score => .ok { s with heap := s.heap.add score doc }

/-- The documents of one cluster. -/
def scoreDocs (vectors : SparseVectors Code) (elementSize : ℕ) (dense : List Code)
    (sel : Option IDSelector) (docs : List ℤ) (s : Visit Q) : Except SearchFault (Visit Q) :=
  docs.foldlM (fun s doc => scoreDoc elementSize dense sel doc (docRow vectors doc) s) s

/-- `reorder_clusters`: by descending score, for the first list only. -/
def reorderClusters (sort : StdSort) (scores : List F) (firstList : Bool) : List ℕ :=
  if firstList then
    sort.sort (fun a b => decide (scores.getD b 0 < scores.getD a 0)) (List.range scores.length)
  else List.range scores.length

/-- A full heap passes over a cluster whose scaled score is below its least. -/
def passedOver (heap : TopKHolder Q) (heapFactor score : F) : Bool :=
  heap.full && match heap.peekScore with
    | none => false
    | some least => decide (score * heapFactor < least)

/-- The clusters in order.  In the first list they come by descending score, and the first one
passed over ends the list. -/
def visitClusters (vectors : SparseVectors Code) (elementSize : ℕ) (dense : List Code)
    (sel : Option IDSelector) (l : InvertedListClusters) (scores : List F) (heapFactor : F)
    (firstList : Bool) : List ℕ → Visit Q → Except SearchFault (Visit Q)
  | [], s => .ok s
  | cluster :: order, s =>
      if passedOver s.heap heapFactor (scores.getD cluster 0) then
        if firstList then .ok s
        else visitClusters vectors elementSize dense sel l scores heapFactor firstList order s
      else do
        let s ← scoreDocs vectors elementSize dense sel (l.getDocs cluster) s
        visitClusters vectors elementSize dense sel l scores heapFactor firstList order s

/-- `query_single_inverted_list`. -/
def querySingleInvertedList (sort : StdSort) (vectors : SparseVectors Code) (elementSize : ℕ)
    (dense : List Code) (sel : Option IDSelector) (query : SparseRow Code) (heapFactor : F)
    (firstList : Bool) (l : InvertedListClusters) (s : Visit Q) :
    Except SearchFault (Visit Q) :=
  if l.nClusters = 0 then .ok s
  else
    let scores := l.scoreSummariesTransposed query
    visitClusters vectors elementSize dense sel l scores heapFactor firstList
      (reorderClusters sort scores firstList) s

/-- The lists of the terms kept.  A term beyond the lists is skipped, and the first list is the
first one there is, empty or not. -/
def queryLists (sort : StdSort) (vectors : SparseVectors Code) (elementSize : ℕ)
    (dense : List Code) (sel : Option IDSelector) (query : SparseRow Code) (heapFactor : F)
    (lists : List InvertedListClusters) :
    Bool → List ℕ → Visit Q → Except SearchFault (Visit Q)
  | _, [], s => .ok s
  | firstList, term :: cuts, s =>
      match lists[term]? with
      | none =>
          queryLists sort vectors elementSize dense sel query heapFactor lists firstList cuts s
      | some l => do
          let s ← querySingleInvertedList sort vectors elementSize dense sel query heapFactor
            firstList l s
          queryLists sort vectors elementSize dense sel query heapFactor lists false cuts s

/-! ### A query -/

/-- Decode the scores of a drained heap and pad both lists to `k`. -/
def paddedResult (decodeScore : F → F) (k : ℤ) (items : List F × List ℤ) : List F × List ℤ :=
  (resize (items.1.map decodeScore) k.toNat (-1), resize items.2 k.toNat INVALID_IDX)

/-- What a search reads besides the queries. -/
structure SearchSetting (F : Type) where
  format : QueryFormat F
  k : ℤ
  cut : ℤ
  heapFactor : F
  sel : Option IDSelector

/-- `single_query`: the result and the buffer it leaves behind. -/
def singleQuery (Q : ItemQueue F ℤ) (sort : StdSort) (vectors : SparseVectors Code)
    (lists : List InvertedListClusters) (c : SearchSetting F) (cuts : List ℕ)
    (query : SparseRow Code) (dense : List Code) :
    Except SearchFault ((List F × List ℤ) × List Code) :=
  if vectors.numVectors = 0 then .ok (([], []), dense)
  else do
    let dense ← scatter dense query
    let heap ← SearchFault.lift (TopKHolder.new Q c.k)
    let s ← queryLists sort vectors c.format.elementSize dense c.sel query c.heapFactor lists true
      cuts ⟨heap, []⟩
    let dense ← clearBuffer c.format.elementSize dense query
    .ok (paddedResult c.format.decodeScore c.k s.heap.topKItemsDescending, dense)

/-- The queries of a search, one after the other on one thread. -/
def searchQueries (Q : ItemQueue F ℤ) (T : ItemQueue F ℕ) (sort : StdSort)
    (vectors : SparseVectors Code) (lists : List InvertedListClusters) (c : SearchSetting F) :
    List (SparseRow Code) → List Code → Except SearchFault (SearchRows F)
  | [], _ => .ok ([], [])
  | query :: queries, dense => do
      let cuts ← SearchFault.lift (topKTokens T c.format.elementSize query c.cut)
      let (result, dense) ← singleQuery Q sort vectors lists c cuts query dense
      let (ds, ls) ← searchQueries Q T sort vectors lists c queries dense
      .ok (result.1 :: ds, result.2 :: ls)

/-! ### Exact match -/

/-- `should_run_exact_match`: the ids of an enumerable selector that has at most `k` of them. -/
def exactMatchIds (sel : Option IDSelector) (k : ℤ) : Option (List ℤ) :=
  match sel with
  | some (.enumerable _ ids size) => if (size : ℤ) ≤ k then some ids else none
  | _ => none

/-- Score the listed documents that exist. -/
def exactMatchDocs (vectors : SparseVectors Code) (elementSize : ℕ) (dense : List Code) :
    List ℤ → TopKHolder Q → Except SearchFault (TopKHolder Q)
  | [], heap => .ok heap
  | doc :: ids, heap =>
      if doc < 0 ∨ (vectors.numVectors : ℤ) ≤ doc then
        exactMatchDocs vectors elementSize dense ids heap
      else
        match computeSimilarity elementSize dense (docRow vectors doc) with
        | none => .error .outOfBuffer
        | some score => exactMatchDocs vectors elementSize dense ids (heap.add score doc)

/-- `ExactMatcher::single_query`, with the query made dense. -/
def exactMatchQuery (Q : ItemQueue F ℤ) (sort : StdSort) (vectors : SparseVectors Code)
    (elementSize dimension : ℕ) (k : ℤ) (ids : List ℤ) (query : SparseRow Code) :
    Except SearchFault (List F × List ℤ) := do
  let dense ← scatter (zeroBuffer dimension elementSize) query
  let heap ← SearchFault.lift (TopKHolder.new Q k)
  let heap ← exactMatchDocs vectors elementSize dense (IDSelector.orderedIds sort ids) heap
  .ok (paddedResult id k heap.topKItemsDescending)

/-- `ExactMatcher::search`. -/
def exactMatch (Q : ItemQueue F ℤ) (sort : StdSort) (vectors : SparseVectors Code)
    (elementSize dimension : ℕ) (k : ℤ) (ids : List ℤ) :
    List (SparseRow Code) → Except SearchFault (SearchRows F)
  | [] => .ok ([], [])
  | query :: queries => do
      let result ← exactMatchQuery Q sort vectors elementSize dimension k ids query
      let (ds, ls) ← exactMatch Q sort vectors elementSize dimension k ids queries
      .ok (result.1 :: ds, result.2 :: ls)

/-- Decode the scores that carry a label. -/
def decodeLabelled (decodeScore : F → F) (ds : List F) (ls : List ℤ) : List F :=
  ds.zipWith (fun score label => if label = INVALID_IDX then score else decodeScore score) ls

namespace SeismicIndex

/-- `search` of the float index (`floatSearch`) and of the quantizing one (`quantizedSearch`). -/
def search (Q : ItemQueue F ℤ) (T : ItemQueue F ℕ) (sort : StdSort)
    (queryFormat : Option (SearchFields F) → Except Exception (QueryFormat F))
    (x : SeismicIndex F) (n : ℤ) (indptr indices : List ℕ) (values : List F) (k : ℤ)
    (params : Option (SearchFields F)) (sel : Option IDSelector) : Except SearchFault (SearchRows F) :=
  match x.vectors with
  | none => .ok (List.replicate n.toNat [], List.replicate n.toNat [])
  | some vectors =>
      if n = 0 then .ok ([], [])
      else do
        let format ← SearchFault.lift (queryFormat params)
        let nnz := indptr.getD n.toNat 0
        let codes := (values.take nnz).map format.encodeQuery
        match exactMatchIds sel k with
        | some ids => do
            let queries ← SearchFault.lift (SparseVectors.new format.elementSize x.dimension)
            let queries ← SearchFault.lift (queries.addVectors indptr (indices.take nnz) codes)
            let (ds, ls) ← exactMatch Q sort vectors format.elementSize x.dimension k ids
              queries.rows
            .ok (ds.zipWith (decodeLabelled format.decodeScore) ls, ls)
        | none =>
            let (cut, heapFactor) := SearchFields.cutAndHeapFactor params
            searchQueries Q T sort vectors x.clusteredInvertedLists
              ⟨format, k, cut, heapFactor, sel⟩
              ((List.range n.toNat).map (Csr.row indptr (indices.zip codes)))
              (zeroBuffer x.dimension format.elementSize)

end SeismicIndex

end Nsparse
