/-
Nsparse/Windows.lean

Inverting the corpus one window of terms at a time.

`makeWindows` cuts the terms into contiguous windows of about equal load, and
`WindowLists` collects the postings of one window into arrays whose sizes a
counting pass has found.
-/
import Nsparse.InvertedLists
import Nsparse.Values

namespace Nsparse

/-! ### Cutting the term space -/

/-- The terms from `start` up to `stop`. -/
structure TermWindow where
  start : ℕ
  stop : ℕ
  deriving Repr, DecidableEq

def TermWindow.size (w : TermWindow) : ℕ := w.stop - w.start

/-- What a posting costs once clustered, relative to being filled in. -/
def kClusterCostRatio : ℕ := 16

/-- The estimated cost of a term with `count` postings. -/
def loadOf (lambda count : ℕ) : ℕ := count + kClusterCostRatio * min count lambda

/-- Extend a window by at least one term, up to `target` load or the term `maxEnd`, and by at
most `fuel` terms; returns its end and its load. -/
def growWindow (termCounts : List ℕ) (lambda start maxEnd target : ℕ) : ℕ → ℕ → ℕ → ℕ × ℕ
  | 0, stop, load => (stop, load)
  | fuel + 1, stop, load =>
      if stop < maxEnd ∧ (stop = start ∨ load < target) then
        growWindow termCounts lambda start maxEnd target fuel (stop + 1)
          (load + loadOf lambda (termCounts.getD stop 0))
      else (stop, load)

/-- The windows still to come, from the term `start` on. -/
def makeWindowsFrom (termCounts : List ℕ) (lambda : ℕ) : ℕ → ℕ → ℕ → List TermWindow
  | 0, start, _ => if start < termCounts.length then [⟨start, termCounts.length⟩] else []
  | 1, start, _ => if start < termCounts.length then [⟨start, termCounts.length⟩] else []
  | windowsLeft + 2, start, remainingLoad =>
      if start < termCounts.length then
        let target := (remainingLoad + (windowsLeft + 2) - 1) / (windowsLeft + 2)
        let maxEnd := termCounts.length - (windowsLeft + 1)
        let (stop, load) :=
          growWindow termCounts lambda start maxEnd target (maxEnd - start) start 0
        ⟨start, stop⟩ :: makeWindowsFrom termCounts lambda (windowsLeft + 1) stop
          (remainingLoad - load)
      else []

def makeWindows (termCounts : List ℕ) (lambda batches : ℕ) : List TermWindow :=
  makeWindowsFrom termCounts lambda batches 0 (termCounts.map (loadOf lambda)).sum

/-! ### Counting -/

/-- Postings per term, over the whole corpus. -/
def countPostingsPerTerm (vectors : SparseVectors Code) (dim : ℕ) : Except Exception (List ℕ) :=
  (vectors.indices.take (vectors.indptr.getD vectors.numVectors 0)).foldlM
    (fun counts term =>
      if dim ≤ term then
        .error (.invalidArgument
          s!"for_each_clustered_window: corpus has term {term} outside dimension {dim}")
      else .ok (counts.modify term (· + 1)))
    (List.replicate dim 0)

/-! ### The lists of one window -/

/-- Arrays for the ids and codes of every term of a window, and how far each is filled. -/
structure WindowLists where
  ids : List (List ℤ)
  codes : List (List Code)
  fill : List ℕ
  deriving Repr, DecidableEq

namespace WindowLists

/-- Arrays of the counted sizes. -/
def new (termCounts : List ℕ) (window : TermWindow) (elementSize : ℕ) : WindowLists :=
  let counts := (List.range window.size).map fun i => termCounts.getD (window.start + i) 0
  { ids := counts.map fun count => List.replicate count 0
    codes := counts.map fun count => List.replicate count (List.replicate elementSize 0)
    fill := List.replicate window.size 0 }

/-- Fill the next slot of a term; there has to be one. -/
def add (lists : WindowLists) (localTerm : ℕ) (docId : ℤ) (code : Code) :
    Except Exception WindowLists :=
  let slot := lists.fill.getD localTerm 0
  if (lists.ids.getD localTerm []).length ≤ slot then
    .error (.runtimeError "for_each_clustered_window: corpus changed during the build")
  else
    .ok { ids := lists.ids.modify localTerm (·.set slot docId)
          codes := lists.codes.modify localTerm (·.set slot code)
          fill := lists.fill.modify localTerm (· + 1) }

/-- Hand every term its arrays. -/
def sealed (lists : WindowLists) : Except Exception (List (InvertedList Code)) :=
  (lists.ids.zip lists.codes).mapM fun l => InvertedList.setEntries l.1 l.2

end WindowLists

/-- The entries of one document that fall into the window. -/
def fillRow (window : TermWindow) (docId : ℤ) (lists : WindowLists) (row : SparseRow Code) :
    Except Exception WindowLists :=
  row.foldlM
    (fun lists entry =>
      if entry.1 < window.start ∨ window.stop ≤ entry.1 then .ok lists
      else lists.add (entry.1 - window.start) docId entry.2)
    lists

/-- `fill_from_corpus`: scan the documents in ascending order. -/
def fillFromCorpus (vectors : SparseVectors Code) (window : TermWindow) (lists : WindowLists) :
    Except Exception WindowLists :=
  (List.range (toIdx vectors.numVectors).toNat).foldlM
    (fun lists (doc : ℕ) => fillRow window doc lists (vectors.row doc)) lists

end Nsparse
