/-
Nsparse/ListReaders.lean

The readers of the two kinds of posting-list sections.

Clustered lists come from `SeismicInvertedListsWriter` and plain lists from
`ArrayInvertedLists`; each has a copying reader and one that borrows from a mapping.
A list of either kind ends in values that are bytes in the file and words in the
index.  The width of a word is declared by the file for clustered lists and fixed by
the index for plain ones.
-/
import Nsparse.ClusterStore
import Nsparse.CopyReader
import Nsparse.InvertedLists
import Nsparse.VectorStore

namespace Nsparse

open Wire

/-! ### Clustered lists -/

namespace InvertedListClusters

def readTermColumnsFrom (io : IOReader) (nTerms : ℕ) : Reader Fault (List ℕ × List ℤ) :=
  if nTerms > 0 then
    (io.readPadded termCodec nTerms 2).bind fun termIds =>
    (io.readPadded idxCodec (nTerms + 1) 4).map fun termPtr => (termIds, termPtr)
  else fun cursor => .ok (([], []), cursor)

/-- `deserialize` into `l`, whose members `n_clusters_` and `element_size_` are read in place. -/
def deserialize (io : IOReader) (l : InvertedListClusters) : Reader Fault InvertedListClusters :=
  (io.readScalar sizeCodec 0).bind fun nDocs =>
  (io.readPadded idxCodec nDocs 4).bind fun docs =>
  (io.readScalar sizeCodec 0).bind fun nOffsets =>
  (io.readPadded idxCodec nOffsets 4).bind fun offsets =>
  (io.readScalar sizeCodec l.nClusters).bind fun nClusters =>
  (io.readScalar sizeCodec l.elementSize).bind fun elementSize =>
  (io.readScalar sizeCodec 0).bind fun nTerms =>
  (readTermColumnsFrom io nTerms).bind fun columns =>
  (io.readScalar sizeCodec 0).bind fun nnz =>
  (io.readPadded clusterIdCodec nnz 2).bind fun cscCluster =>
  (io.readWords nnz elementSize).map fun cscValue =>
    ⟨nClusters, elementSize, docs, offsets, columns.1, columns.2, cscCluster, cscValue⟩

end InvertedListClusters

/-- `SeismicInvertedListsWriter::deserialize`. -/
def deserializeLists (io : IOReader) : Reader Fault (List InvertedListClusters) :=
  (io.readScalar sizeCodec 0).bind fun size =>
  readMany (InvertedListClusters.deserialize io .empty) size

/-! ### Plain lists -/

namespace InvertedList

def serialize (elementSize : ℕ) (l : InvertedList Code) : Writer :=
  (writeScalar sizeCodec l.size).andThen <|
  (writePadded idxCodec l.docIds 4).andThen <|
  writePadded .byte l.codes.flatten elementSize

def deserialize (io : IOReader) (elementSize : ℕ) : Reader Fault (InvertedList Code) :=
  (io.readScalar sizeCodec 0).bind fun listSize =>
  (io.readPadded idxCodec listSize 4).bind fun docIds =>
  (io.readWords listSize elementSize).map fun codes =>
    ⟨docIds, SparseVectors.codesOf elementSize listSize codes⟩

def mmapDeserialize (base elementSize : ℕ) : Reader Exception (InvertedList Code) :=
  (readScalar sizeCodec).bind fun listSize =>
  (borrowPadded idxCodec listSize 4).bind fun docIds =>
  (borrowWords base "mmap: posting values are misaligned for the element size" listSize
    elementSize).map fun codes => ⟨docIds, SparseVectors.codesOf elementSize listSize codes⟩

end InvertedList

namespace ArrayInvertedLists

/-- `throw_if_foreign_element_size`. -/
def throwIfForeignElementSize (stored expected : ℕ) : Except Exception Unit :=
  if stored ≠ expected then
    .error (.runtimeError "stored posting element width is not the one this index reads")
  else .ok ()

def serialize (elementSize : ℕ) (lists : List (InvertedList Code)) : Writer :=
  (writeScalar sizeCodec lists.length).andThen <|
  (writeScalar sizeCodec elementSize).andThen <|
  writeMany (InvertedList.serialize elementSize) lists

def read (io : IOReader) (elementSize : ℕ) : Reader Fault (List (InvertedList Code)) :=
  (io.readScalar sizeCodec 0).bind fun nTerm =>
  (io.readScalar sizeCodec 0).bind fun storedElementSize =>
  (IOReader.check (throwIfForeignElementSize storedElementSize elementSize)).bind fun _ =>
  readMany (InvertedList.deserialize io elementSize) nTerm

/-- Every list has at least its entry count, so the rest of the file limits their number. -/
def throwIfTooManyTerms (nTerm : ℕ) : Reader Exception Unit := fun cursor =>
  if cursor.remaining / sizeCodec.width < nTerm then
    .error (.runtimeError "mmap: implausible term count in index file")
  else .ok ((), cursor)

def map (base elementSize : ℕ) : Reader Exception (List (InvertedList Code)) :=
  (readScalar sizeCodec).bind fun nTerm =>
  (readScalar sizeCodec).bind fun storedElementSize =>
  (Reader.lift (throwIfForeignElementSize storedElementSize elementSize)).bind fun _ =>
  (throwIfTooManyTerms nTerm).bind fun _ =>
  readMany (InvertedList.mmapDeserialize base elementSize) nTerm

end ArrayInvertedLists

end Nsparse
