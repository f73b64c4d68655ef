/-
Nsparse/Quantizer.lean

How the seismic indexes store a value: as its own bytes, or as the 8 or 16-bit code
of a scalar quantizer.

A `ScalarQuantizer` carries what its constructor checked.  A `CodeFormat` is what the
float index and the quantizing index differ in while they add, build and write.
-/
import Nsparse.Serialize
import Nsparse.Values

namespace Nsparse

open Wire

inductive QuantizerType
  | QT_8bit
  | QT_16bit
  deriving Repr, DecidableEq

variable {F : Type} [Zero F] [Sub F] [Mul F] [LT F] [DecidableLT F] [FloatFormat F]

/-- A range the constructor accepts; its bounds are floats, which their bytes give back. -/
structure ScalarQuantizer (F : Type) [LT F] [FloatFormat F] where
  qtype : QuantizerType
  vmin : F
  vmax : F
  finite : FloatFormat.isFinite vmin = true ∧ FloatFormat.isFinite vmax = true
  range : vmin < vmax
  stored : FloatFormat.ofBits (FloatFormat.toBits vmin) = vmin ∧
    FloatFormat.ofBits (FloatFormat.toBits vmax) = vmax

namespace ScalarQuantizer

def bytesPerValue (sq : ScalarQuantizer F) : ℕ :=
  match sq.qtype with
  | .QT_8bit => U8
  | .QT_16bit => U16

/-- `kMax8bit` and `kMax16bit`. -/
def kMax (qtype : QuantizerType) : F :=
  match qtype with
  | .QT_8bit => FloatFormat.ofInt 255
  | .QT_16bit => FloatFormat.ofInt 65535

/-- `encode_8bit` and `encode_16bit`. -/
def encode (sq : ScalarQuantizer F) (val : F) : Code :=
  let max : F := kMax sq.qtype
  let scaled := (val - sq.vmin) * FloatFormat.div max (sq.vmax - sq.vmin)
  let scaled := if scaled < max then scaled else max
  let scaled := if 0 < scaled then scaled else 0
  leBytes sq.bytesPerValue (FloatFormat.lround scaled).toNat

/-- `decode_dot_product`. -/
def decodeDotProduct (sq : ScalarQuantizer F) (quantizedScore : F) (query : ScalarQuantizer F) : F :=
  let ingestRange := sq.vmax - sq.vmin
  let queryRange := query.vmax - query.vmin
  let max : F := kMax sq.qtype
  quantizedScore * FloatFormat.div (ingestRange * queryRange) (max * max)

end ScalarQuantizer

/-! ### Formats -/

/-- What a class adds to the shared code: its id, the width and the encoding of a value, and the
header of its payload. -/
structure CodeFormat (F : Type) where
  name : String
  formatVersion : ℕ
  elementSize : ℕ
  width : elementSize = U32 ∨ elementSize = U16 ∨ elementSize = U8
  encode : F → Code
  length_encode : ∀ x, (encode x).length = elementSize
  writePayloadHeader : Writer
  writePayloadHeader_appends : Appends writePayloadHeader

/-- `float` and `uint8_t` on the wire. -/
def writeFloat (x : F) : Writer := emit (FloatFormat.toBits x)

def QuantizerType.toByte : QuantizerType → UInt8
  | .QT_8bit => 0
  | .QT_16bit => 1

/-- `write_quantization_header`. -/
def ScalarQuantizer.writeHeader (sq : ScalarQuantizer F) : Writer :=
  (writeScalar .byte sq.qtype.toByte).andThen <|
  (writeFloat sq.vmin).andThen <| writeFloat sq.vmax

/-- Values as they are. -/
def floatFormat (F : Type) [FloatFormat F] (name : String) : CodeFormat F where
  name
  formatVersion := 1
  elementSize := U32
  width := Or.inl rfl
  encode := FloatFormat.toBits
  length_encode := FloatFormat.length_toBits
  writePayloadHeader := id
  writePayloadHeader_appends := Appends.id

/-- Quantized values, behind the quantizer's own header. -/
def quantizedFormat (sq : ScalarQuantizer F) (name : String) : CodeFormat F where
  name
  formatVersion := 1
  elementSize := sq.bytesPerValue
  width := by
    unfold ScalarQuantizer.bytesPerValue
    split
    · exact Or.inr (Or.inr rfl)
    · exact Or.inr (Or.inl rfl)
  encode := sq.encode
  length_encode _ := length_leBytes _ _
  writePayloadHeader := sq.writeHeader
  writePayloadHeader_appends :=
    (writeScalar_appends _ _).andThen ((emit_appends _).andThen (emit_appends _))

end Nsparse
