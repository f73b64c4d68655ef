/-
Nsparse/InvertedIndex.lean

The inverted index and its windowed MaxScore search.

A query scores documents term by term, in windows of 4096 documents.  Terms are
ordered by the most they can contribute; once the heap is full, the terms whose
contributions together stay below its least score are *non-essential*: they no
longer propose documents and are only looked up for documents another term
proposed.  This module is the search as the source writes it, with its cursors,
its score window, its bitmap and its running threshold.

The score window is a thread-local buffer that outlives a query, so `singleQuery`
takes it and hands it on.  Its main loop runs on fuel.
-/
import Nsparse.Index
import Nsparse.InvertedLists
import Nsparse.Lib.BitSet
import Nsparse.Lib.Loop
import Nsparse.Ranker

namespace Nsparse

/-- Documents in a scoring window. -/
def kScoreWindowSize : ℕ := 4096

/-- 64-bit words of the window's bitmap. -/
def kBitmapWords : ℕ := kScoreWindowSize / 64

/-- The document id of an exhausted scorer: the largest `idx_t`. -/
def kNoMoreDocs : ℤ := 2 ^ 31 - 1

/-- The value width of the inverted index, in bytes. -/
def kElementSize : ℕ := 4

variable {F : Type} [Ring F] [LinearOrder F]

/-! ### Term scorers -/

/-- A cursor over one term's postings. -/
structure DirectTermScorer (F : Type) where
  docIds : List ℤ
  values : List F
  listSize : ℤ
  currentIndex : ℤ
  queryWeight : F
  maxScore : F
  deriving Repr, DecidableEq

namespace DirectTermScorer

/-- `doc_ids[i]`. -/
def docAt (s : DirectTermScorer F) (i : ℤ) : ℤ := s.docIds.getD i.toNat 0

/-- `values[i]`. -/
def valueAt (s : DirectTermScorer F) (i : ℤ) : F := s.values.getD i.toNat 0

def docId (s : DirectTermScorer F) : ℤ :=
  if s.currentIndex < 0 ∨ s.listSize ≤ s.currentIndex then kNoMoreDocs else s.docAt s.currentIndex

def nextDoc (s : DirectTermScorer F) : DirectTermScorer F :=
  { s with currentIndex := s.currentIndex + 1 }

/-- Move to the first document not before `targetDoc`. -/
def advanceTo (s : DirectTermScorer F) (targetDoc : ℤ) : DirectTermScorer F :=
  if s.listSize ≤ s.currentIndex then s
  else if 0 ≤ s.currentIndex ∧ targetDoc ≤ s.docAt s.currentIndex then s
  else
    let start := if s.currentIndex < 0 then 0 else s.currentIndex + 1
    let pos := start + lowerBound (s.docIds.drop start.toNat) targetDoc
    { s with currentIndex := if pos = s.listSize then s.listSize else pos }

end DirectTermScorer

/-- The scorer of one query entry; a term past the dimension gets an exhausted one. -/
def buildScorer (lists : List (InvertedList F)) (maxTermScores : List F) (term : ℕ) (weight : F) :
    DirectTermScorer F :=
  match lists[term]? with
  | none => ⟨[], [], 0, 0, weight, 0⟩
  | some list =>
      DirectTermScorer.nextDoc
        ⟨list.docIds, list.codes, toIdx list.size, -1, weight, weight * maxTermScores.getD term 0⟩

/-- The scorers of a query by ascending maximum, and the prefix sums of the maxima. -/
def buildScorers (sort : StdSort) (indices : List ℕ) (values : List F)
    (lists : List (InvertedList F)) (maxTermScores : List F) :
    List (DirectTermScorer F) × List F :=
  let scorers := sort.sort (fun lhs rhs => decide (lhs.maxScore < rhs.maxScore))
    ((indices.zip values).map fun q => buildScorer lists maxTermScores q.1 q.2)
  (scorers, scorers.scanl (fun sum s => sum + s.maxScore) 0)

/-! ### Scoring a window -/

/-- The score window and the bitmap of touched slots. -/
structure ScoreWindow (F : Type) where
  windowScores : List F
  bitmap : List (BitVec 64)
  deriving Repr, DecidableEq

/-- The inner loop of `score_essential_terms`: add the scorer's postings inside the window,
for at most `fuel` postings. -/
def scorePostings (windowBase windowEnd : ℤ) :
    ℕ → DirectTermScorer F → ScoreWindow F → DirectTermScorer F × ScoreWindow F
  | 0, s, w => (s, w)
  | fuel + 1, s, w =>
      if s.listSize ≤ s.currentIndex then (s, w)
      else
        let doc := s.docAt s.currentIndex
        if windowEnd ≤ doc then (s, w)
        else if doc < windowBase then
          scorePostings windowBase windowEnd fuel s.nextDoc w
        else
          let slot := (doc - windowBase).toNat
          scorePostings windowBase windowEnd fuel s.nextDoc
            { windowScores :=
                w.windowScores.modify slot (· + s.queryWeight * s.valueAt s.currentIndex)
              bitmap := BitSet.mark w.bitmap slot }

/-- The postings a scorer has left bound its inner loop. -/
def scoreTerm (windowBase windowEnd : ℤ) (s : DirectTermScorer F) (w : ScoreWindow F) :
    DirectTermScorer F × ScoreWindow F :=
  scorePostings windowBase windowEnd (s.listSize - s.currentIndex).toNat s w

/-- `score_essential_terms` over the scorers from `first_essential` on. -/
def scoreEssentialTerms (windowBase windowEnd : ℤ) :
    List (DirectTermScorer F) → ScoreWindow F → List (DirectTermScorer F) × ScoreWindow F
  | [], w => ([], w)
  | s :: ss, w =>
      let (s', w) := scoreTerm windowBase windowEnd s w
      let (ss', w) := scoreEssentialTerms windowBase windowEnd ss w
      (s' :: ss', w)

/-- The loop over the non-essential scorers, from the largest maximum down, that completes
a candidate's score or gives it up once the rest cannot lift it over the threshold. -/
def scoreNonEssential (maxScorePrefix : List F) (threshold : F) (doc : ℤ) :
    ℕ → List (DirectTermScorer F) → F → List (DirectTermScorer F) × F
  | 0, scorers, total => (scorers, total)
  | j + 1, scorers, total =>
      match scorers[j]? with
      | none => (scorers, total)
      | some s =>
          let s := s.advanceTo doc
          let scorers := scorers.set j s
          let total :=
            if s.docId = doc then total + s.queryWeight * s.valueAt s.currentIndex else total
          if total + maxScorePrefix.getD j 0 ≤ threshold then (scorers, total)
          else scoreNonEssential maxScorePrefix threshold doc j scorers total

variable {Q : ItemQueue F ℤ}

/-- What the loop over a window's candidates carries. -/
structure CandidateState (Q : ItemQueue F ℤ) where
  scorers : List (DirectTermScorer F)
  windowScores : List F
  heap : TopKHolder Q
  threshold : F

/-- The candidate in one slot: clear the slot, skip it on the score bound or the selector,
or complete its score and offer it. -/
def evaluateSlot (firstEssential : ℕ) (windowBase : ℤ) (maxScorePrefix : List F)
    (idSelector : Option IDSelector) (c : CandidateState Q) (slot : ℕ) : CandidateState Q :=
  let nonEssentialSum := maxScorePrefix.getD firstEssential 0
  let essentialScore := c.windowScores.getD slot 0
  let c := { c with windowScores := c.windowScores.set slot 0 }
  let doc := windowBase + slot
  if essentialScore + nonEssentialSum ≤ c.threshold then c
  else if IDSelector.passes idSelector doc = false then c
  else
    let (scorers, total) :=
      scoreNonEssential maxScorePrefix c.threshold doc firstEssential c.scorers essentialScore
    let heap := c.heap.add total doc
    { c with
      scorers
      heap
      threshold := if heap.full then heap.peekScore.getD 0 else c.threshold }

/-- `evaluate_window_candidates`: the slots marked in the bitmap, ascending. -/
def evaluateWindowCandidates (firstEssential : ℕ) (windowBase : ℤ) (maxScorePrefix : List F)
    (idSelector : Option IDSelector) (bitmap : List (BitVec 64))
    (scorers : List (DirectTermScorer F)) (windowScores : List F) (heap : TopKHolder Q) :
    CandidateState Q :=
  BitSet.foldMarked (evaluateSlot firstEssential windowBase maxScorePrefix idSelector)
    kBitmapWords bitmap
    ⟨scorers, windowScores, heap, if heap.full then heap.peekScore.getD 0 else 0⟩

/-! ### A query -/

/-- What the main loop carries. -/
structure SearchState (Q : ItemQueue F ℤ) where
  scorers : List (DirectTermScorer F)
  windowScores : List F
  heap : TopKHolder Q
  firstEssential : ℕ

/-- The number of leading terms whose maxima together stay below the threshold. -/
def partitionTerms (maxScorePrefix : List F) (threshold : F) : ℕ :=
  (maxScorePrefix.tail.takeWhile fun sum => decide (sum < threshold)).length

/-- The least current document of the scorers. -/
def minDocId (scorers : List (DirectTermScorer F)) : ℤ :=
  scorers.foldl (fun least s => if s.docId < least then s.docId else least) kNoMoreDocs

/-- One round of the main loop; `none` is its `break`. -/
def searchWindow (maxScorePrefix : List F) (idSelector : Option IDSelector)
    (s : SearchState Q) : Option (SearchState Q) :=
  let firstEssential :=
    if s.heap.full then partitionTerms maxScorePrefix (s.heap.peekScore.getD 0)
    else s.firstEssential
  let least := minDocId (s.scorers.drop firstEssential)
  if least = kNoMoreDocs then none
  else
    let windowBase := least.tdiv kScoreWindowSize * kScoreWindowSize
    let windowEnd := toIdx (windowBase + kScoreWindowSize)
    let (essential, w) := scoreEssentialTerms windowBase windowEnd
      (s.scorers.drop firstEssential)
      ⟨s.windowScores, List.replicate kBitmapWords 0⟩
    let c := evaluateWindowCandidates firstEssential windowBase maxScorePrefix idSelector w.bitmap
      (s.scorers.take firstEssential ++ essential) w.windowScores s.heap
    some ⟨c.scorers, c.windowScores, c.heap, firstEssential⟩

/-! ### The index -/

/-- The corpus not yet built, the posting lists, the document count and each term's maximum. -/
structure InvertedIndex (F : Type) where
  dimension : ℕ
  vectors : Option (SparseVectors F)
  invertedLists : Option (List (InvertedList F))
  numVectors : ℕ
  maxTermScores : List F
  deriving Repr, DecidableEq

namespace InvertedIndex

def new (dim : ℕ) : InvertedIndex F := ⟨dim, none, none, 0, []⟩

/-- Append documents to the vectors waiting for `build`. -/
def add (index : InvertedIndex F) (a : CsrArgs F) : InvertedIndex F × Except Exception Unit :=
  match a.checked with
  | .error e => (index, .error e)
  | .ok (indptr, indices, values) =>
      let nnz := indptr.getD a.n.toNat 0
      match index.vectors.elim (SparseVectors.new kElementSize index.dimension) .ok with
      | .error e => (index, .error e)
      | .ok vectors =>
          match vectors.addVectors indptr (indices.take nnz) (values.take nnz) with
          | .error e => ({ index with vectors := some vectors }, .error e)
          | .ok vectors =>
              ({ index with
                  vectors := some vectors
                  numVectors := index.numVectors + a.n.toNat }, .ok ())

/-- Invert the waiting vectors and release them; with none waiting, do nothing. -/
def build (index : InvertedIndex F) : InvertedIndex F × Except Exception Unit :=
  match index.vectors with
  | none => (index, .ok ())
  | some vectors =>
      let index := { index with numVectors := vectors.numVectors }
      match buildInvertedLists index.dimension vectors with
      | .error e => (index, .error e)
      | .ok lists =>
          ({ index with
              vectors := none
              invertedLists := some lists
              maxTermScores := lists.map InvertedList.maxValue }, .ok ())

/-- `single_query`: the answer and the score window it leaves behind, or `none` when the
fuel runs out. -/
def singleQuery (Q : ItemQueue F ℤ) (sort : StdSort) (fuel : ℕ) (lists : List (InvertedList F))
    (maxTermScores : List F) (windowScores : List F) (indices : List ℕ) (values : List F) (k : ℤ)
    (idSelector : Option IDSelector) :
    Option (Except Exception (List F × List ℤ) × List F) :=
  if indices = [] then
    if k < 0 then some (.error (.lengthError "cannot create std::vector larger than max_size()"),
      windowScores)
    else some (.ok (List.replicate k.toNat (-1), List.replicate k.toNat INVALID_IDX), windowScores)
  else
    match TopKHolder.new Q k with
    | .error e => some (.error e, windowScores)
    | .ok heap =>
        let (scorers, maxScorePrefix) := buildScorers sort indices values lists maxTermScores
        match Loop.iterate (searchWindow maxScorePrefix idSelector) fuel
            ⟨scorers, windowScores, heap, 0⟩ with
        | none => none
        | some s =>
            let (scores, ids) := s.heap.topKItemsDescending
            some (.ok (resize scores k.toNat (-1), resize ids k.toNat INVALID_IDX), s.windowScores)

/-- The queries of a search, one after the other on one thread. -/
def searchQueries (Q : ItemQueue F ℤ) (sort : StdSort) (fuel : ℕ) (lists : List (InvertedList F))
    (maxTermScores : List F) (k : ℤ) (idSelector : Option IDSelector) :
    List (SparseRow F) → List F →
      Option (Except Exception (List (List F) × List (List ℤ)) × List F)
  | [], windowScores => some (.ok ([], []), windowScores)
  | query :: queries, windowScores =>
      match singleQuery Q sort fuel lists maxTermScores windowScores (query.map Prod.fst)
          (query.map Prod.snd) k idSelector with
      | none => none
      | some (.error e, windowScores) => some (.error e, windowScores)
      | some (.ok (distances, labels), windowScores) =>
          match searchQueries Q sort fuel lists maxTermScores k idSelector queries windowScores with
          | none => none
          | some (.error e, windowScores) => some (.error e, windowScores)
          | some (.ok (ds, ls), windowScores) =>
              some (.ok (distances :: ds, labels :: ls), windowScores)

/-- `search` without output buffers: one score list and one label list a query, and the
score window it leaves behind.  It only reads the index. -/
def search (Q : ItemQueue F ℤ) (sort : StdSort) (fuel : ℕ) (index : InvertedIndex F)
    (windowScores : List F) (n : ℤ) (indptr indices : List ℕ) (values : List F) (k : ℤ)
    (idSelector : Option IDSelector) :
    Option (Except Exception (List (List F) × List (List ℤ)) × List F) :=
  match index.invertedLists with
  | none => some (.ok (List.replicate n.toNat [], List.replicate n.toNat []), windowScores)
  | some lists =>
      if n = 0 then some (.ok ([], []), windowScores)
      else
        let nnz := indptr.getD n.toNat 0
        match (SparseVectors.new kElementSize index.dimension).bind fun queries =>
            queries.addVectors indptr (indices.take nnz) (values.take nnz) with
        | .error e => some (.error e, windowScores)
        | .ok queries =>
            searchQueries Q sort fuel lists index.maxTermScores k idSelector queries.rows
              windowScores

/-- An `InvertedIndex` as an `Index`.  Every search finds the score window clear. -/
def asIndex {P : Type} (Q : ItemQueue F ℤ) (sort : StdSort) (fuel : ℕ) :
    Index (InvertedIndex F) F P where
  add := add
  build := build
  numVectors := numVectors
  search index n indptr indices values k _ idSelector :=
    (index.search Q sort fuel (List.replicate kScoreWindowSize 0) n indptr indices values k
      idSelector).map Prod.fst

end InvertedIndex

end Nsparse
