/-
Nsparse/InlineForward.lean

The inline forward index: the documents of every cluster, stored block by block.

Write mode makes a section of the clusters and the vectors: a header, the blocks, a
directory of the blocks and a trailer.  The length of the section goes in front of it
and comes from a pass of its own.  Read mode borrows a section: `loadDirectory` checks
the directory when the file is opened, and `viewBlock` checks a block when it is used.
-/
import Nsparse.ClusterStore
import Nsparse.InlineLayout
import Nsparse.Lib.CountingSort
import Nsparse.VectorStore

namespace Nsparse

open Wire

/-! ### Write mode -/

/-- One block to write: its list, its number there and its documents. -/
structure InlineBlock where
  pl : ℕ
  block : ℕ
  docs : List ℤ
  deriving Repr, DecidableEq

/-- The blocks in the order of the nested loops over the lists and their clusters. -/
def blocksOf (lists : List InvertedListClusters) : List InlineBlock :=
  lists.zipIdx.flatMap fun item =>
    (List.range item.1.nClusters).map fun block => ⟨item.2, block, item.1.getDocs block⟩

namespace SparseVectors

/-- `indptr[doc_id + 1] - indptr[doc_id]`. -/
def nnzOf (v : SparseVectors Code) (doc : ℤ) : ℕ :=
  v.indptr.getD (doc.toNat + 1) 0 - v.indptr.getD doc.toNat 0

/-- The components of a document. -/
def compsOf (v : SparseVectors Code) (doc : ℤ) : List ℕ :=
  (v.indices.drop (v.indptr.getD doc.toNat 0)).take (v.nnzOf doc)

/-- Its values. -/
def valsOf (v : SparseVectors Code) (doc : ℤ) : List Code :=
  (v.values.drop (v.indptr.getD doc.toNat 0)).take (v.nnzOf doc)

end SparseVectors

/-- The loop of `count_block` over the documents. -/
def countDocs (vectors : SparseVectors Code) : ℕ → List ℤ → Except Exception ℕ
  | totalNnz, [] => .ok totalNnz
  | totalNnz, doc :: docs =>
      if doc < 0 ∨ vectors.numVectors ≤ doc.toNat then
        .error (.outOfRange ("InlineForwardIndex: block references doc id " ++ toString doc ++
          " outside [0, " ++ toString vectors.numVectors ++ ")"))
      else
        let totalNnz := totalNnz + vectors.nnzOf doc
        if 2 ^ 31 - 1 < totalNnz then
          .error (.lengthError "InlineForwardIndex: block total nnz exceeds INT32_MAX")
        else countDocs vectors totalNnz docs

/-- `count_block`: the numbers of documents and entries. -/
def countBlock (vectors : SparseVectors Code) (docs : List ℤ) : Except Exception (ℕ × ℕ) :=
  if 2 ^ 32 - 1 < docs.length then
    .error (.lengthError "InlineForwardIndex: block has more than 2^32 docs")
  else do
    let totalNnz ← countDocs vectors 0 docs
    .ok (docs.length, totalNnz)

/-- The bytes of one block: `n_docs`, the ids, the running sums of the entries, the components
and, on a boundary for them, the values. -/
def blockBytes (vectors : SparseVectors Code) (docs : List ℤ) (layout : InlineBlockOffsets)
    (totalNnz : ℕ) : Bytes :=
  u32Codec.enc docs.length ++
  u32Codec.encAll (docs.map Int.toNat) ++
  u32Codec.encAll ((docs.map vectors.nnzOf).scanl (· + ·) 0) ++
  termCodec.encAll (docs.flatMap vectors.compsOf) ++
  List.replicate (layout.vals - (layout.comps + totalNnz * 2)) 0 ++
  (docs.flatMap vectors.valsOf).flatten

/-- An index in write mode, as its constructor accepts it. -/
structure InlineForwardSource where
  lists : List InvertedListClusters
  vectors : SparseVectors Code
  writePageSize : ℕ
  writeLayout : InlineLayout
  pageSize : writeLayout = .kPageAligned →
    writePageSize &&& (writePageSize - 1) = 0 ∧ 24 ≤ writePageSize ∧ writePageSize < 2 ^ 64

namespace InlineForwardSource

/-- The constructor of write mode, for a page size that is a `uint64_t`. -/
def new (lists : List InvertedListClusters) (vectors : SparseVectors Code) (pageSize : ℕ)
    (layout : InlineLayout) : Except Exception InlineForwardSource :=
  if h : layout = .kPageAligned →
      pageSize &&& (pageSize - 1) = 0 ∧ 24 ≤ pageSize ∧ pageSize < 2 ^ 64 then
    .ok ⟨lists, vectors, pageSize, layout, h⟩
  else .error (.invalidArgument ("InlineForwardIndex: page_size must be a power of two and at " ++
    "least sizeof(InlineForwardIndexHeader)"))

/-- `write_alignment`. -/
def writeAlignment (x : InlineForwardSource) : ℕ :=
  match x.writeLayout with
  | .kPageAligned => x.writePageSize
  | .kPacked => kMinBlockAlign

def nBlocks (x : InlineForwardSource) : ℕ := (x.lists.map (·.nClusters)).sum

/-- Widths that a block can have. -/
def checkElementSize (elementSize : ℕ) : Except Exception Unit :=
  if elementSize ≠ 1 ∧ elementSize ≠ 2 ∧ elementSize ≠ 4 then
    .error (.invalidArgument ("InlineForwardIndex: element_size must be 1, 2, or 4, got " ++
      toString elementSize))
  else .ok ()

/-- The loop of the sizing pass: where the next block begins. -/
def sizeBlocks (x : InlineForwardSource) : ℕ → List InlineBlock → Except Exception ℕ
  | curOff, [] => .ok curOff
  | curOff, b :: blocks => do
      let counts ← countBlock x.vectors b.docs
      let layout := inlineBlockOffsets counts.1 counts.2 x.vectors.elementSize
      x.sizeBlocks (inlineAlignUp (u64 (curOff + layout.fin)) x.writeAlignment) blocks

/-- `section_length`. -/
def sectionLength (x : InlineForwardSource) : Except Exception ℕ := do
  checkElementSize x.vectors.elementSize
  let dirOffset ← x.sizeBlocks (inlineAlignUp 24 x.writeAlignment) (blocksOf x.lists)
  .ok (u64 (dirOffset + x.nBlocks * 32 + 24))

/-- The loop of `write_body`: what it writes, where the directory begins, and its entries. -/
def writeBlocks (x : InlineForwardSource) :
    ℕ → List InlineBlock → Except Exception (Bytes × ℕ × List InlineDirEntry)
  | curOff, [] => .ok ([], curOff, [])
  | curOff, b :: blocks => do
      let counts ← countBlock x.vectors b.docs
      let layout := inlineBlockOffsets counts.1 counts.2 x.vectors.elementSize
      let bytes := blockBytes x.vectors b.docs layout counts.2
      let blockEnd := u64 (curOff + layout.fin)
      let padded := inlineAlignUp blockEnd x.writeAlignment
      let next := if blockEnd < padded then padded else blockEnd
      let rest ← x.writeBlocks next blocks
      .ok (bytes ++ List.replicate (next - blockEnd) 0 ++ rest.1, rest.2.1,
        ⟨b.pl % 2 ^ 32, b.block % 2 ^ 32, curOff, layout.fin, counts.1, 0⟩ :: rest.2.2)

/-- `write_body`. -/
def writeBody (x : InlineForwardSource) : Except Exception Bytes := do
  checkElementSize x.vectors.elementSize
  let firstBlockOff := inlineAlignUp 24 x.writeAlignment
  let blocks ← x.writeBlocks firstBlockOff (blocksOf x.lists)
  .ok (headerCodec.enc ⟨x.vectors.elementSize, x.nBlocks, x.writeAlignment⟩ ++
    List.replicate (firstBlockOff - 24) 0 ++ blocks.1 ++
    dirEntryCodec.encAll blocks.2.2 ++
    trailerCodec.enc ⟨blocks.2.1, blocks.2.2.length, x.lists.length⟩)

/-- `serialize`. -/
def serialize (x : InlineForwardSource) (written : Bytes) : Except Exception Bytes := do
  let written := padTo kMinBlockAlign written
  let sectionLen ← x.sectionLength
  let written := writeScalar sizeCodec sectionLen written
  let body ← x.writeBody
  if body.length ≠ sectionLen then
    .error (.logicError ("InlineForwardIndex: serialized body length disagrees with the " ++
      "computed section length"))
  else .ok (emit body written)

end InlineForwardSource

/-! ### Read mode -/

/-- A borrowed section: the mapping and where the section begins in it, what its header says, and
the directory with the start of every list in it. -/
structure InlineForwardIndex where
  mapping : Bytes
  blockBase : ℕ
  elementSize : ℕ
  pageSize : ℕ
  entries : List InlineDirEntry
  listOffset : List ℕ
  deriving Repr, DecidableEq

/-- Where the arrays of a block begin in the mapping. -/
structure BlockView where
  nDocs : ℕ
  docIds : ℕ
  offsets : ℕ
  comps : ℕ
  vals : ℕ
  deriving Repr, DecidableEq

namespace InlineForwardIndex

/-- The default constructor. -/
def empty : InlineForwardIndex := ⟨[], 0, 0, 0, [], []⟩

/-- What is checked of a directory entry alone. -/
def corruptEntry (numLists dirOffset : ℕ) (entry : InlineDirEntry) : Bool :=
  numLists ≤ entry.pl || entry.len < kInlineBlockPrefixSize ||
  entry.byteOff % kMinBlockAlign != 0 || entry.byteOff < 24 || dirOffset < entry.byteOff ||
  dirOffset - entry.byteOff < entry.len

/-- The number of the next block: list after list, each from 0 on. -/
def expectedBlock (prev : Option (ℕ × ℕ)) (pl : ℕ) : ℕ :=
  match prev with
  | none => 0
  | some (prevPl, prevBlock) => if pl ≠ prevPl then 0 else (prevBlock + 1) % 2 ^ 32

/-- The loop over the directory; `prev` is the list and the number of the entry before. -/
def checkEntries (numLists dirOffset : ℕ) : Option (ℕ × ℕ) → List InlineDirEntry →
    Except Exception Unit
  | _, [] => .ok ()
  | prev, entry :: entries =>
      if corruptEntry numLists dirOffset entry then
        .error (.runtimeError "InlineForwardIndex: corrupt directory entry")
      else if prev.any (entry.pl < ·.1) then
        .error (.runtimeError "InlineForwardIndex: directory not ordered by (pl, block)")
      else if entry.block ≠ expectedBlock prev entry.pl then
        .error (.runtimeError "InlineForwardIndex: directory not ordered by (pl, block)")
      else checkEntries numLists dirOffset (some (entry.pl, entry.block)) entries

/-- `load_directory` on the section of `sectionLen` bytes at `base`. -/
def loadDirectory (mapping : Bytes) (base sectionLen : ℕ) : Except Exception InlineForwardIndex :=
  if sectionLen < 24 + 24 then .error (.runtimeError "InlineForwardIndex: section too small")
  else if base % kMinBlockAlign ≠ 0 then
    .error (.runtimeError "InlineForwardIndex: section is under-aligned")
  else
    let header := headerCodec.readAt mapping base
    if header.elementSize ≠ 1 ∧ header.elementSize ≠ 2 ∧ header.elementSize ≠ 4 then
      .error (.runtimeError "InlineForwardIndex: bad element_size")
    else if header.pageSize < kMinBlockAlign ∨ header.pageSize &&& (header.pageSize - 1) ≠ 0 then
      .error (.runtimeError "InlineForwardIndex: bad page_size")
    else
      let trailer := trailerCodec.readAt mapping (base + sectionLen - 24)
      let dirEnd := sectionLen - 24
      if trailer.nEntries ≠ header.nBlocks ∨ trailer.dirOffset < 24 ∨ dirEnd < trailer.dirOffset then
        .error (.runtimeError "InlineForwardIndex: corrupt directory")
      else
        let dirBytes := dirEnd - trailer.dirOffset
        if dirBytes % 32 ≠ 0 ∨ dirBytes / 32 ≠ trailer.nEntries then
          .error (.runtimeError "InlineForwardIndex: corrupt directory")
        else
          let entries := dirEntryCodec.arrayAt mapping (base + trailer.dirOffset) trailer.nEntries
          if 2 ^ 16 < trailer.nLists then
            .error (.runtimeError "InlineForwardIndex: implausible n_lists")
          else
            match checkEntries trailer.nLists trailer.dirOffset none entries with
            | .error e => .error e
            | .ok () => .ok ⟨mapping, base, header.elementSize, header.pageSize, entries,
                CountingSort.offsets trailer.nLists (entries.map (·.pl))⟩

/-- `mmap_deserialize`. -/
def mmapDeserialize : Reader Exception InlineForwardIndex :=
  (skipPadding kMinBlockAlign).bind fun _ =>
  (readScalar sizeCodec).bind fun sectionLen cursor =>
    if cursor.remaining < sectionLen then
      .error (.runtimeError "InlineForwardIndex: section length overruns the mapping")
    else
      match loadDirectory cursor.data cursor.pos sectionLen with
      | .error e => .error e
      | .ok fwd =>
          match skip sectionLen cursor with
          | .error e => .error e
          | .ok ((), cursor) => .ok (fwd, cursor)

def numBlocks (fwd : InlineForwardIndex) : ℕ := fwd.entries.length

/-- `num_blocks_in_list`. -/
def numBlocksInList (fwd : InlineForwardIndex) (pl : ℕ) : ℕ :=
  if fwd.listOffset.length ≤ pl + 1 then 0
  else fwd.listOffset.getD (pl + 1) 0 - fwd.listOffset.getD pl 0

/-- The within-block offsets that begin at `pos`. -/
def offsetsAt (fwd : InlineForwardIndex) (pos nDocs : ℕ) : List ℕ :=
  u32Codec.arrayAt fwd.mapping pos (nDocs + 1)

/-- `view_block`. -/
def viewBlock (fwd : InlineForwardIndex) (entry : InlineDirEntry) : Except Exception BlockView :=
  let base := fwd.blockBase + entry.byteOff
  let nDocs := u32Codec.readAt fwd.mapping base
  if nDocs ≠ entry.nDocs then
    .error (.runtimeError "InlineForwardIndex: block n_docs mismatch")
  else
    let hdr := inlineBlockOffsets nDocs 0 fwd.elementSize
    if entry.len < hdr.comps then
      .error (.runtimeError "InlineForwardIndex: block header overruns block")
    else
      let offsets := fwd.offsetsAt (base + hdr.off) nDocs
      if offsets.headD 0 ≠ 0 then
        .error (.runtimeError "InlineForwardIndex: block offsets must start 0")
      else if ¬ offsets.IsChain (· ≤ ·) then
        .error (.runtimeError "InlineForwardIndex: block offsets not monotonic")
      else
        let totalNnz := offsets.getD nDocs 0
        let layout := inlineBlockOffsets nDocs totalNnz fwd.elementSize
        if layout.fin ≠ entry.len then
          .error (.runtimeError "InlineForwardIndex: block length mismatch")
        else .ok ⟨nDocs, base + hdr.docIds, base + hdr.off, base + layout.comps, base + layout.vals⟩

/-- `block`: absent when there is no such block. -/
def block (fwd : InlineForwardIndex) (pl block : ℕ) : Except Exception (Option BlockView) :=
  if fwd.numBlocksInList pl ≤ block then .ok none
  else
    let entry := fwd.entries.getD (fwd.listOffset.getD pl 0 + block) ⟨0, 0, 0, 0, 0, 0⟩
    if entry.pl ≠ pl ∨ entry.block ≠ block then .ok none
    else (fwd.viewBlock entry).map some

end InlineForwardIndex

/-! ### Reading a view -/

namespace BlockView

variable (mapping : Bytes) (view : BlockView)

/-- `doc_ids[0]` to `doc_ids[n_docs - 1]`. -/
def docIdList : List ℕ := u32Codec.arrayAt mapping view.docIds view.nDocs

/-- `offsets[i]`. -/
def offset (i : ℕ) : ℕ := u32Codec.readAt mapping (view.offsets + 4 * i)

def nnz (i : ℕ) : ℕ := view.offset mapping (i + 1) - view.offset mapping i

def docComps (i : ℕ) : List ℕ :=
  termCodec.arrayAt mapping (view.comps + 2 * view.offset mapping i) (view.nnz mapping i)

/-- The values of a document, each of `elementSize` bytes. -/
def docVals (elementSize i : ℕ) : List Code :=
  SparseVectors.codesOf elementSize (view.nnz mapping i)
    (mapping.drop (view.vals + elementSize * view.offset mapping i))

end BlockView

end Nsparse
