/-
Nsparse/Values.lean

Stored values and the arithmetic on them.

A seismic index stores a value in 4, 2 or 1 bytes (`Code`) and reads them as a
float, a `uint16_t` or a `uint8_t`.  `ValueType` collects what the templates over
that type use, and `ValueType.ofWidth` is their dispatch on the element width.

Float arithmetic is whatever operations `F` has, and no law about them is assumed:
a fact about the build holds for rounding arithmetic and for exact arithmetic.
-/
import Nsparse.Lib.Wire

namespace Nsparse

/-- The bytes of one stored value. -/
abbrev Code := List UInt8

/-- Element widths in bytes. -/
def U8 : ℕ := 1
def U16 : ℕ := 2
def U32 : ℕ := 4

/-- What `float` has besides its arithmetic: its bytes, conversion from, truncation and rounding
to an integer, the literal `mantissa * 10 ^ -digits`, division, `numerator / denominator >= bound`,
which is false when the quotient is not a number, and `std::isfinite`. -/
class FloatFormat (F : Type) where
  ofBits : Code → F
  toBits : F → Code
  length_toBits : ∀ x, (toBits x).length = U32
  ofInt : ℤ → F
  truncate : F → ℤ
  lround : F → ℤ
  literal : ℕ → ℕ → F
  div : F → F → F
  ratioGe : F → F → F → Bool
  isFinite : F → Bool

/-- The operations of a value type `T` and of its similarity accumulator. -/
structure ValueType (F : Type) where
  T : Type
  decode : Code → T
  encode : T → Code
  zero : T
  /-- `a > b`. -/
  gt : T → T → Bool
  toFloat : T → F
  /-- `a - b` as a float. -/
  sub : T → T → F
  /-- `accumulator_t`: wide enough for the products. -/
  Acc : Type
  accZero : Acc
  /-- `acc += a * b`. -/
  mulAdd : Acc → T → T → Acc
  accGt : Acc → Acc → Bool

namespace ValueType

variable (F : Type) [Zero F] [Add F] [Sub F] [Mul F] [LT F] [DecidableLT F]
  [FloatFormat F]

/-- `float`. -/
def float : ValueType F where
  T := F
  decode := FloatFormat.ofBits
  encode := FloatFormat.toBits
  zero := 0
  gt a b := decide (b < a)
  toFloat := id
  sub a b := a - b
  Acc := F
  accZero := 0
  mulAdd acc a b := acc + a * b
  accGt a b := decide (b < a)

/-- `uint16_t` and `uint8_t`, whose products are summed in 64 bits. -/
def uint (width : ℕ) : ValueType F where
  T := ℕ
  decode := Wire.leNat
  encode := Wire.leBytes width
  zero := 0
  gt a b := decide (b < a)
  toFloat a := FloatFormat.ofInt a
  sub a b := FloatFormat.ofInt ((a : ℤ) - b)
  Acc := ℕ
  accZero := 0
  mulAdd acc a b := acc + a * b
  accGt a b := decide (b < a)

/-- The type the templates are instantiated with at an element width. -/
def ofWidth (elementSize : ℕ) : ValueType F :=
  if elementSize = U32 then float F
  else if elementSize = U16 then uint F U16
  else uint F U8

/-- A value is stored in as many bytes as its type has. -/
theorem length_encode {elementSize : ℕ}
    (h : elementSize = U32 ∨ elementSize = U16 ∨ elementSize = U8)
    (v : (ofWidth F elementSize).T) : ((ofWidth F elementSize).encode v).length = elementSize := by
  rcases h with rfl | rfl | rfl
  · exact FloatFormat.length_toBits (F := F) v
  · exact Wire.length_leBytes U16 v
  · exact Wire.length_leBytes U8 v

end ValueType

/-! ### Whole numbers as floats -/

/-- The exponent and the fraction of a positive whole number below `2 ^ 24`. -/
def wholeBits (n : ℕ) : ℕ := (127 + n.log2) * 2 ^ 23 + (n * 2 ^ (23 - n.log2) - 2 ^ 23)

/-- The float that is a whole number below `2 ^ 24`, to compute with: its bytes are those of
IEEE 754, and what is no whole number is rounded down. -/
instance : FloatFormat ℤ where
  ofBits code :=
    let bits := Wire.leNat code
    let magnitude : ℤ := if bits % 2 ^ 31 = 0 then 0
      else ((bits % 2 ^ 23 + 2 ^ 23) * 2 ^ (bits / 2 ^ 23 % 256) / 2 ^ 150 : ℕ)
    if bits < 2 ^ 31 then magnitude else -magnitude
  toBits x := Wire.leBytes U32
    (if x = 0 then 0 else (if x < 0 then 2 ^ 31 else 0) + wholeBits x.natAbs)
  length_toBits _ := Wire.length_leBytes U32 _
  ofInt := id
  truncate := id
  lround := id
  literal mantissa digits := mantissa / 10 ^ digits
  div a b := a / b
  ratioGe numerator denominator bound := 0 < denominator && bound * denominator ≤ numerator
  isFinite _ := true

example : FloatFormat.toBits (1 : ℤ) = [0, 0, 128, 63] := by decide
example : FloatFormat.ofBits (FloatFormat.toBits (-3 : ℤ)) = (-3 : ℤ) := by decide

end Nsparse
