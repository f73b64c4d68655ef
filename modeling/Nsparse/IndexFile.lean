/-
Nsparse/IndexFile.lean

An index in a file: the header and the payload of every index type.

`StoredIndex` is an index of any type that can be written, alone or under id maps.
`writeIndex` puts a header in front of the payload, a nested index included;
`readIndex` makes the index that the header names and reads its payload by copying,
or, when the file is to be mapped, hands the payload to the mapped reader of the type.
-/
import Nsparse.DiskPayload
import Nsparse.IdMapIndex
import Nsparse.InvertedIndex
import Nsparse.ListReaders
import Nsparse.VectorReaders

namespace Nsparse

open Wire

variable {F : Type}

/-! ### Headers -/

/-- `IndexHeader`. -/
structure IndexHeader where
  id : ℕ
  version : ℕ
  dimension : ℤ
  deriving Repr, DecidableEq

/-- `fourcc`. -/
def fourcc (name : String) : ℕ := leNat name.toUTF8.toList

/-- The index types a header can name. -/
inductive IndexKind
  | brutal
  | seismic
  | seismicSQ
  | diskSeismic
  | diskSeismicSQ
  | idMap
  | inverted
  deriving Repr, DecidableEq

def IndexKind.name : IndexKind → String
  | brutal => "BRUT"
  | seismic => "SEIS"
  | seismicSQ => "SESQ"
  | diskSeismic => "DSEI"
  | diskSeismicSQ => "DSSQ"
  | idMap => "IDMP"
  | inverted => "INVT"

/-- `kFormatVersion`, the same number for every type so far. -/
def kFormatVersion : ℕ := 1

/-- The `switch` of `make_index`. -/
def kindOf (id : ℕ) : Except Exception IndexKind :=
  if id = fourcc IndexKind.brutal.name then .ok .brutal
  else if id = fourcc IndexKind.seismic.name then .ok .seismic
  else if id = fourcc IndexKind.seismicSQ.name then .ok .seismicSQ
  else if id = fourcc IndexKind.diskSeismic.name then .ok .diskSeismic
  else if id = fourcc IndexKind.diskSeismicSQ.name then .ok .diskSeismicSQ
  else if id = fourcc IndexKind.idMap.name then .ok .idMap
  else if id = fourcc IndexKind.inverted.name then .ok .inverted
  else .error (.runtimeError "Unknown index type")

/-- A header that names a type that can be read, in a version that can be laid out. -/
def checkHeader (header : IndexHeader) : Except Exception IndexKind := do
  let kind ← kindOf header.id
  if kind = .brutal then
    .error (.runtimeError "Index does not support serialization")
  else if header.version = 0 ∨ kFormatVersion < header.version then
    .error (.runtimeError s!"Unsupported {kind.name} index format version {header.version}; this build reads versions 1 through {kFormatVersion}")
  else .ok kind

def headerIdCodec : Codec ℕ := .nat 4
def headerDimensionCodec : Codec ℤ := .int 4

/-- `read_header`. -/
def readHeader (io : IOReader) : Reader Fault IndexHeader :=
  (io.readScalar headerIdCodec 0).bind fun id =>
  (io.readScalar headerIdCodec 0).bind fun version =>
  (io.readScalar headerDimensionCodec 0).map fun dimension => ⟨id, version, dimension⟩

/-! ### Indexes -/

/-- An index that can be written. -/
inductive StoredIndex (F : Type) [LT F] [FloatFormat F]
  | seismic (x : SeismicIndex F)
  | seismicSQ (sq : ScalarQuantizer F) (x : SeismicIndex F)
  | diskSeismic (x : DiskSeismicIndex F)
  | diskSeismicSQ (sq : ScalarQuantizer F) (x : DiskSeismicIndex F)
  | inverted (x : InvertedIndex F)
  | idMap (internalToExternal : List ℤ) (externalToInternal : ℤ → Option ℤ)
      (delegate : StoredIndex F)

/-- `kDefaultSeismicClusterParams`. -/
def kDefaultSeismicClusterParams (F : Type) [FloatFormat F] : SeismicClusterParameters F where
  lambda := kDefaultLambda
  beta := kDefaultBeta
  alpha := FloatFormat.literal 4 1
  batchClustering := ⟨1, ""⟩
  seed := kRandomSeed

/-- `set_id_map`: of several positions of an id the last one counts. -/
def invertIdMap (internalToExternal : List ℤ) : ℤ → Option ℤ :=
  internalToExternal.zipIdx.foldl
    (fun map entry => Function.update map entry.1 (some (toIdx entry.2))) fun _ => none

/-- A float on the wire. -/
def floatCodec (F : Type) [FloatFormat F] : Codec F where
  width := U32
  enc := FloatFormat.toBits
  dec := FloatFormat.ofBits
  length_enc := FloatFormat.length_toBits

/-- A posting list with the bytes of its values, and back. -/
def InvertedList.encoded [FloatFormat F] (l : InvertedList F) : InvertedList Code :=
  ⟨l.docIds, l.codes.map FloatFormat.toBits⟩

def InvertedList.decoded [FloatFormat F] (l : InvertedList Code) : InvertedList F :=
  ⟨l.docIds, l.codes.map FloatFormat.ofBits⟩

/-! ### Writing -/

/-- `write_index` of the inverted index. -/
def InvertedIndex.writePayload [FloatFormat F] (x : InvertedIndex F) : Writer :=
  (writeScalar sizeCodec x.numVectors).andThen <|
  (ArrayInvertedLists.serialize kElementSize
    ((x.invertedLists.getD []).map InvertedList.encoded)).andThen <|
  (writeScalar sizeCodec x.maxTermScores.length).andThen <|
  writePadded (floatCodec F) x.maxTermScores 4

/-- The id map in front of a nested index. -/
def writeIdMap (internalToExternal : List ℤ) : Writer :=
  (writeScalar sizeCodec internalToExternal.length).andThen
    (emit (idxCodec.encAll internalToExternal))

namespace StoredIndex

variable [LT F] [FloatFormat F] [Zero F] [Sub F] [Mul F] [DecidableLT F]

/-- `write_index`: header and payload, a nested index included. -/
def write : StoredIndex F → Bytes → Except Exception Bytes
  | seismic x, w => .ok (x.writeIndex (floatFormat F IndexKind.seismic.name) w)
  | seismicSQ sq x, w => .ok (x.writeIndex (quantizedFormat sq IndexKind.seismicSQ.name) w)
  | diskSeismic x, w => x.writeIndex (floatFormat F IndexKind.diskSeismic.name) w
  | diskSeismicSQ sq x, w => x.writeIndex (quantizedFormat sq IndexKind.diskSeismicSQ.name) w
  | inverted x, w =>
      .ok (x.writePayload
        (SeismicIndex.writeHeader IndexKind.inverted.name kFormatVersion x.dimension w))
  | idMap internalToExternal _ delegate, w =>
      delegate.write (writeIdMap internalToExternal
        (SeismicIndex.writeHeader IndexKind.idMap.name kFormatVersion 0 w))

end StoredIndex

/-! ### Reading payloads -/

/-- `throw_if_element_size_mismatch`, of the float index or of the quantizing one. -/
def throwIfElementSizeMismatch (msg : String) (elementSize : ℕ) (vectors : SparseVectors Code) :
    Except Exception Unit :=
  if 0 < vectors.numVectors ∧ vectors.elementSize ≠ elementSize then .error (.runtimeError msg)
  else .ok ()

def seismicWidthMsg : String := "index file's element size is not the seismic index's"
def quantizedWidthMsg : String :=
  "index file's element size disagrees with its quantizer type"

/-- `throw_if_scores_are_incomplete`. -/
def throwIfScoresAreIncomplete (nLists scoresSize : ℕ) : Except Exception Unit :=
  if scoresSize ≠ nLists then
    .error (.runtimeError
      "inverted index file's per-term score count does not match its term count")
  else .ok ()

/-- What the mapped reader throws, the copying one throws too. -/
def liftMapped {α : Type} (r : Reader Exception α) : Reader Fault α := fun cursor =>
  match r cursor with
  | .error e => .error (.thrown e)
  | .ok x => .ok x

section Payloads

variable [LinearOrder F] [FloatFormat F] [Zero F] [One F] [Sub F] [Mul F]

/-- A seismic index made of what a file holds. -/
def SeismicIndex.ofFile (dim : ℕ) (vectors : SparseVectors Code)
    (lists : List InvertedListClusters) : SeismicIndex F :=
  { SeismicIndex.new dim (kDefaultSeismicClusterParams F) with
    vectors := if 0 < vectors.numVectors then some vectors else none
    clusteredInvertedLists := lists }

/-- The copying `read_index` of the seismic indexes, behind the quantizer's header. -/
def SeismicIndex.readPayload (io : IOReader) (msg : String) (elementSize dim : ℕ) :
    Reader Fault (SeismicIndex F) :=
  (SparseVectors.deserialize io .default).bind fun vectors =>
  (IOReader.check (throwIfElementSizeMismatch msg elementSize vectors)).bind fun _ =>
  (deserializeLists io).map fun lists => .ofFile dim vectors lists

/-- Their mapped counterpart. -/
def SeismicIndex.mapPayload (base : ℕ) (msg : String) (elementSize dim : ℕ) :
    Reader Exception (SeismicIndex F) :=
  SparseVectors.mmapDeserialize.bind fun vectors =>
  (Reader.lift (throwIfElementSizeMismatch msg elementSize vectors)).bind fun _ =>
  (mmapDeserializeLists base).map fun lists => .ofFile dim vectors lists

/-- `quantizer_from_file`. -/
def quantizerFromFile (qtype : UInt8) (vmin vmax : F) : Except Exception (ScalarQuantizer F) :=
  if qtype = QuantizerType.QT_8bit.toByte then ScalarQuantizer.make .QT_8bit vmin vmax
  else if qtype = QuantizerType.QT_16bit.toByte then ScalarQuantizer.make .QT_16bit vmin vmax
  else .error (.runtimeError "index file declares an unknown quantizer type")

/-- `read_quantization_header`; what is cut off keeps the bytes of the initial values. -/
def readQuantizationHeader (io : IOReader) : Reader Fault (ScalarQuantizer F) :=
  (io.readScalar .byte QuantizerType.QT_8bit.toByte).bind fun qtype =>
  (io.readScalar (floatCodec F) 0).bind fun vmin =>
  (io.readScalar (floatCodec F) 1).bind fun vmax =>
  IOReader.check (quantizerFromFile qtype vmin vmax)

/-- The same from a mapping. -/
def mapQuantizationHeader : Reader Exception (ScalarQuantizer F) :=
  (readScalar .byte).bind fun qtype =>
  (readScalar (floatCodec F)).bind fun vmin =>
  (readScalar (floatCodec F)).bind fun vmax => Reader.lift (quantizerFromFile qtype vmin vmax)

/-- An inverted index made of what a file holds. -/
def InvertedIndex.ofFile (dim numVectors : ℕ) (lists : List (InvertedList Code))
    (scores : List F) : InvertedIndex F where
  dimension := dim
  vectors := none
  invertedLists := if 0 < lists.length then some (lists.map InvertedList.decoded) else none
  numVectors
  maxTermScores := scores

/-- The copying `read_index` of the inverted index. -/
def InvertedIndex.readPayload (io : IOReader) (dim : ℕ) : Reader Fault (InvertedIndex F) :=
  (io.readScalar sizeCodec 0).bind fun numVectors =>
  (ArrayInvertedLists.read io kElementSize).bind fun lists =>
  (io.readScalar sizeCodec 0).bind fun scoresSize =>
  (io.readPadded (floatCodec F) scoresSize 4).bind fun scores =>
  (IOReader.check (throwIfScoresAreIncomplete lists.length scoresSize)).map fun _ =>
    .ofFile dim numVectors lists scores

/-- Its mapped counterpart. -/
def InvertedIndex.mapPayload (base dim : ℕ) : Reader Exception (InvertedIndex F) :=
  (readScalar sizeCodec).bind fun numVectors =>
  (ArrayInvertedLists.map base kElementSize).bind fun lists =>
  (readScalar sizeCodec).bind fun scoresSize =>
  (borrowPadded (floatCodec F) scoresSize 4).bind fun scores =>
  (Reader.lift (throwIfScoresAreIncomplete lists.length scoresSize)).map fun _ =>
    .ofFile dim numVectors lists scores

/-- `mmap_index` of the disk indexes, behind the quantizer's header. -/
def DiskSeismicIndex.mapPayload (base dim : ℕ) : Reader Exception (DiskSeismicIndex F) :=
  (loadMappedPayload base).map fun p => .ofPayload dim (kDefaultSeismicClusterParams F) p

/-- The quantizing one validates what it mapped. -/
def DiskSeismicIndex.mapQuantizedPayload (base dim : ℕ) :
    Reader Exception (ScalarQuantizer F × DiskSeismicIndex F) :=
  mapQuantizationHeader.bind fun sq =>
  (loadMappedPayload base).bind fun p =>
  (Reader.lift (validateMappedPayload sq.bytesPerValue p)).map fun _ =>
    (sq, .ofPayload dim (kDefaultSeismicClusterParams F) p)

/-- The id map: its bytes may come short without notice. -/
def readIdMap (io : IOReader) : Reader Fault (List ℤ) :=
  (io.readScalar sizeCodec 0).bind fun mapSize =>
  if 2 ^ 63 ≤ mapSize * idxCodec.width then fun _ =>
    .error (.thrown (.lengthError "cannot create std::vector larger than max_size()"))
  else
    (io.read (mapSize * idxCodec.width)).map fun bytes =>
      idxCodec.decAll mapSize
        (bytes ++ List.replicate (mapSize * idxCodec.width - bytes.length) 0)

/-! ### Reading an index -/

/-- What the copying reader of a disk index throws. -/
def mmapOnly : Exception :=
  .runtimeError ("DiskSeismic index is mmap-only; load with read_index(file, " ++
    "IndexIoFlag::kUseMmap)")

/-- The payload a header announces; `nested` reads the index under an id map. -/
def readPayload (io : IOReader) (header : IndexHeader) (nested : Reader Fault (StoredIndex F)) :
    IndexKind → Reader Fault (StoredIndex F)
  | .brutal => fun _ =>
      .error (.thrown (.runtimeError "Index does not support serialization"))
  | .seismic =>
      (SeismicIndex.readPayload io seismicWidthMsg U32 header.dimension.toNat).map .seismic
  | .seismicSQ =>
      (readQuantizationHeader io).bind fun sq =>
      (SeismicIndex.readPayload io quantizedWidthMsg sq.bytesPerValue header.dimension.toNat).map
        (.seismicSQ sq)
  | .diskSeismic => fun _ => .error (.thrown mmapOnly)
  | .diskSeismicSQ => fun _ => .error (.thrown mmapOnly)
  | .inverted => (InvertedIndex.readPayload io header.dimension.toNat).map .inverted
  | .idMap =>
      (readIdMap io).bind fun internalToExternal =>
      nested.map fun delegate =>
        .idMap internalToExternal (invertIdMap internalToExternal) delegate

/-- The payload when the file is mapped at `base`: an id map is copied all the same. -/
def mapPayload (base : ℕ) (header : IndexHeader) (nested : Reader Fault (StoredIndex F)) :
    IndexKind → Reader Fault (StoredIndex F)
  | .seismic =>
      (liftMapped (SeismicIndex.mapPayload base seismicWidthMsg U32
        header.dimension.toNat)).map .seismic
  | .seismicSQ =>
      (liftMapped mapQuantizationHeader).bind fun sq =>
      (liftMapped (SeismicIndex.mapPayload base quantizedWidthMsg sq.bytesPerValue
        header.dimension.toNat)).map (.seismicSQ sq)
  | .diskSeismic =>
      (liftMapped (DiskSeismicIndex.mapPayload base header.dimension.toNat)).map .diskSeismic
  | .diskSeismicSQ =>
      (liftMapped (DiskSeismicIndex.mapQuantizedPayload base header.dimension.toNat)).map
        fun x => .diskSeismicSQ x.1 x.2
  | .inverted =>
      (liftMapped (InvertedIndex.mapPayload base header.dimension.toNat)).map .inverted
  | kind => readPayload .buffered header nested kind

/-- `read_index` of an index nested less than `fuel` deep, with a reader for its payload. -/
def readIndexWithin (io : IOReader)
    (payload : IndexHeader → Reader Fault (StoredIndex F) → IndexKind →
      Reader Fault (StoredIndex F)) : ℕ → Reader Fault (StoredIndex F)
  | 0 => fun _ => .error (.thrown (.runtimeError "Unknown index type"))
  | fuel + 1 =>
      (readHeader io).bind fun header =>
      (IOReader.check (checkHeader header)).bind fun kind =>
      payload header (readIndexWithin io payload fuel) kind

/-- The copying `read_index`.  A header takes 12 bytes and none is read from fewer than 4, so that
there are not more than the bytes left. -/
def readIndex (io : IOReader) : Reader Fault (StoredIndex F) := fun cursor =>
  readIndexWithin io (readPayload io) (cursor.remaining + 1) cursor

/-- `read_index` with `kUseMmap`, of a file mapped at `base`. -/
def mapIndex (base : ℕ) : Reader Fault (StoredIndex F) := fun cursor =>
  readIndexWithin .buffered (mapPayload base) (cursor.remaining + 1) cursor

end Payloads

end Nsparse
