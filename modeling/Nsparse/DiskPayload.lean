/-
Nsparse/DiskPayload.lean

The file of a disk-resident index.

Behind the header come the document count, the summaries of the lists without their
members, the inline forward index made of the same clusters and the vectors, and a
directory that says for every document where one copy of its vector is: in a block,
or, when it is in none, in the remainder.  The file is read by mapping it only.
-/
import Nsparse.DiskSeismicIndex

namespace Nsparse

open Wire

variable {F : Type}

/-! ### Writing -/

/-- A locator in a file: three `uint32_t`. -/
def locatorCodec : Codec DocLocator :=
  ((Codec.nat 4).pair <| (Codec.nat 4).pair (Codec.nat 4)).record
    (fun f => ⟨f.1, f.2.1, f.2.2⟩) fun l => (l.postingList, l.block, l.slot)

def u64Codec : Codec ℕ := .nat 8

/-- `alignof(DocLocator)`. -/
def kLocatorAlign : ℕ := 4

/-- The innermost loop of `write_doc_directory`: a document that was located before keeps its
place. -/
def locateSlot (b : InlineBlock) (locators : List (Option DocLocator)) (doc : ℤ × ℕ) :
    List (Option DocLocator) :=
  if doc.1 < 0 then locators
  else
    match locators[doc.1.toNat]? with
    | some none =>
        locators.set doc.1.toNat (some ⟨b.pl % 2 ^ 32, b.block % 2 ^ 32, doc.2 % 2 ^ 32⟩)
    | _ => locators

/-- The place of every document that is in a block. -/
def locateDocs (numDocs : ℕ) (lists : List InvertedListClusters) : List (Option DocLocator) :=
  (blocksOf lists).foldl (fun locators b => b.docs.zipIdx.foldl (locateSlot b) locators)
    (List.replicate numDocs none)

/-- The loop over the documents from `doc` on: those in no block go to the remainder. -/
def collectRemainder (vectors : SparseVectors Code) :
    ℕ → List (Option DocLocator) → SparseVectors Code →
      Except Exception (List DocLocator × SparseVectors Code)
  | _, [], remainder => .ok ([], remainder)
  | doc, some loc :: locators, remainder => do
      let (locators, remainder) ← collectRemainder vectors (doc + 1) locators remainder
      .ok (loc :: locators, remainder)
  | doc, none :: locators, remainder => do
      let loc : DocLocator := ⟨DocLocator.kRemainder, remainder.numVectors % 2 ^ 32, 0⟩
      let remainder ← remainder.addVectors [0, vectors.nnzOf doc] (vectors.compsOf doc)
        (vectors.valsOf doc)
      let (locators, remainder) ← collectRemainder vectors (doc + 1) locators remainder
      .ok (loc :: locators, remainder)

/-- `write_doc_directory`. -/
def writeDocDirectory (lists : List InvertedListClusters) (vectors : SparseVectors Code)
    (dimension : ℕ) (w : Bytes) : Except Exception Bytes := do
  let remainder ← SparseVectors.new vectors.elementSize dimension
  let (locators, remainder) ← collectRemainder vectors 0
    (locateDocs vectors.numVectors lists) remainder
  let w := padTo kMinBlockAlign w
  let w := writeScalar u64Codec vectors.numVectors w
  let w := writePadded locatorCodec locators kLocatorAlign w
  .ok (remainder.serialize w)

namespace DiskSeismicIndex

/-- `write_index`, without the file header. -/
def writePayload (format : CodeFormat F) (x : DiskSeismicIndex F) (w : Bytes) :
    Except Exception Bytes := do
  let w := format.writePayloadHeader w
  let w := writeScalar u64Codec x.numVectors w
  let w := serializeLists true x.clusteredInvertedLists w
  let emptyVectors ← SparseVectors.new format.elementSize x.dimension
  let vectors := x.vectors.getD emptyVectors
  let forward ← InlineForwardSource.new x.clusteredInvertedLists vectors kDefaultPageSize
    .kPageAligned
  let w ← forward.serialize w
  writeDocDirectory x.clusteredInvertedLists vectors x.dimension w

/-- `write_index`, the file header included. -/
def writeIndex (format : CodeFormat F) (x : DiskSeismicIndex F) (w : Bytes) :
    Except Exception Bytes :=
  x.writePayload format
    (SeismicIndex.writeHeader format.name format.formatVersion x.dimension w)

end DiskSeismicIndex

/-! ### Reading -/

/-- `read_array` of records whose alignment is not their width. -/
def readRecords {α : Type} (c : Codec α) (alignment n : ℕ) : Reader Exception (List α) :=
  fun cursor =>
    if n = 0 then .ok ([], cursor)
    else if cursor.remaining / c.width < n then .error endOfFile
    else if cursor.pos % alignment ≠ 0 then
      .error (.runtimeError "mmap: array is misaligned for its element type")
    else .ok (c.decAll n (cursor.data.drop cursor.pos),
      { cursor with pos := cursor.pos + n * c.width })

/-- What a mapped file holds behind the headers. -/
structure MappedPayload where
  numVectors : ℕ
  lists : List InvertedListClusters
  fwd : InlineForwardIndex
  docLocators : List DocLocator
  remainder : SparseVectors Code

/-- The check of the locator count. -/
def throwIfLocatorsDisagree (numLocators numVectors : ℕ) : Except Exception Unit :=
  if numLocators ≠ numVectors then
    .error (.runtimeError
      "DiskSeismic index: doc-locator count disagrees with vector count")
  else .ok ()

/-- `load_mapped_payload` up to the validation, for a mapping at the address `base`. -/
def loadMappedPayload (base : ℕ) : Reader Exception MappedPayload :=
  (readScalar u64Codec).bind fun numVectors =>
  (mmapDeserializeLists base).bind fun lists =>
  InlineForwardIndex.mmapDeserialize.bind fun fwd =>
  (skipPadding kMinBlockAlign).bind fun _ =>
  (readScalar u64Codec).bind fun numLocators =>
  (Reader.lift (throwIfLocatorsDisagree numLocators numVectors)).bind fun _ =>
  (skipPadding kLocatorAlign).bind fun _ =>
  (readRecords locatorCodec kLocatorAlign numLocators).bind fun docLocators =>
  SparseVectors.mmapDeserialize.map fun remainder =>
    ⟨numVectors, lists, fwd, docLocators, remainder⟩

/-- A width that the file declares and the index does not have is rejected: the forward index's,
then the summaries'. -/
def validateMappedPayload (elementSize : ℕ) (p : MappedPayload) : Except Exception Unit :=
  if 0 < p.fwd.numBlocks ∧ p.fwd.elementSize ≠ elementSize then
    .error (.runtimeError
      "index file's forward element size disagrees with its quantizer type")
  else if p.lists.any fun l => 0 < l.nClusters && l.elementSize != elementSize then
    .error (.runtimeError
      "index file's summary element size disagrees with its quantizer type")
  else .ok ()

namespace DiskSeismicIndex

/-- A fresh index with what was mapped. -/
def ofPayload (dim : ℕ) (parameter : SeismicClusterParameters F) (p : MappedPayload) :
    DiskSeismicIndex F :=
  { new dim parameter with
    clusteredInvertedLists := p.lists
    fwd := p.fwd
    docLocators := p.docLocators
    remainder := p.remainder
    numVectors := p.numVectors }

end DiskSeismicIndex

end Nsparse
