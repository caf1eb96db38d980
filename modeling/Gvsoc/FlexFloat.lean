import Gvsoc.Rounding
import Gvsoc.CShift

/-! Floating-point numbers with a small exponent and a small fraction. Each is kept in a double that has its value. After an operation on
the doubles the result is rounded to what the small format has. -/
namespace Gvsoc.FlexFloat
open Rounding (Direction roundTo)

/- `uint_t`: the bits of a number, or of the double that keeps it. -/
abbrev Bits := BitVec 64

abbrev Word := BitVec 32

structure Desc where
  expBits : Nat
  fracBits : Nat
  deriving DecidableEq, Repr

inductive Mode where
  | toNearest
  | upward
  | downward
  | towardZero
  deriving DecidableEq, Repr

def Mode.dir : Mode → (sign : Bool) → Direction
  | .toNearest, _ => .nearest
  | .upward, sign => if sign then .zero else .away
  | .downward, sign => if sign then .away else .zero
  | .towardZero, _ => .zero

section Double

def infExp : Int := 0x7FF

def maskFrac : Bits := 0x000FFFFFFFFFFFFF

def maskFracMsb : Bits := 0x0010000000000000

def exponent (a : Bits) : Int := ((a >>> 52) &&& 0x7FF).toNat

def pack (sign : Bool) (exp : Int) (sig : Bits) : Bits :=
  ((BitVec.ofBool sign).setWidth 64 <<< 63) + (BitVec.ofInt 64 exp <<< 52) + sig

def flexfloatSign (a : Bits) : Bool := a.sshiftRight 63 ≠ 0

def magnitude (a : Bits) : Nat :=
  if exponent a = 0 then (a &&& maskFrac).toNat else (2 ^ 52 + (a &&& maskFrac).toNat) * 2 ^ ((exponent a).toNat - 1)

def isNan (a : Bits) : Bool := exponent a = infExp ∧ a &&& maskFrac ≠ 0

def isInf (a : Bits) : Bool := exponent a = infExp ∧ a &&& maskFrac = 0

/- The double with a magnitude that has 53 places. Past the greatest one there is the infinity, but not when the rounding goes to zero. -/
def encode (dir : Direction) (sign : Bool) (n : Nat) : Bits :=
  if n.size ≤ 52 then pack sign 0 (BitVec.ofNat 64 n)
  else if n.size ≤ 2098 then pack sign (n.size - 52) (BitVec.ofNat 64 (n / 2 ^ (n.size - 53) - 2 ^ 52))
  else if dir = .zero then pack sign 2046 maskFrac
  else pack sign infExp 0

def quietNan : Bits := 0x7FF8000000000000

def value (a : Bits) : Int := if flexfloatSign a then -magnitude a else magnitude a

def fpAdd (mode : Mode) (a b : Bits) : Bits :=
  if isNan a || isNan b || (isInf a && isInf b && flexfloatSign a != flexfloatSign b) then quietNan
  else if isInf a then a
  else if isInf b then b
  else
    let sum := value a + value b
    let sign := if sum = 0 then (if flexfloatSign a = flexfloatSign b then flexfloatSign a else mode = .downward) else decide (sum < 0)
    encode (mode.dir sign) sign (roundTo (mode.dir sign) 53 0 sum.natAbs)

def fpSub (mode : Mode) (a b : Bits) : Bits := fpAdd mode a (b ^^^ 0x8000000000000000)

def unitPlace : Nat := 1074

def fpMul (mode : Mode) (a b : Bits) : Bits :=
  let sign := flexfloatSign a != flexfloatSign b
  if isNan a || isNan b || (isInf a && magnitude b = 0) || (isInf b && magnitude a = 0) then quietNan
  else if isInf a || isInf b then pack sign infExp 0
  else encode (mode.dir sign) sign (roundTo (mode.dir sign) 53 unitPlace (magnitude a * magnitude b) / 2 ^ unitPlace)

end Double

section Format

variable (d : Desc)

def flexfloatInfExp : Int := 2 ^ d.expBits - 1

def flexfloatBias : Int := 2 ^ (d.expBits - 1) - 1

def flexfloatExp (a : Bits) : Int :=
  let exp := exponent a
  if exp = 0 ∨ exp = infExp then exp else exp - 1023 + flexfloatBias d

def flexfloatFrac (a : Bits) : Bits := (a &&& maskFrac) >>> (52 - d.fracBits)

/- An `unsigned short`. -/
def denormShift (exp : Int) : Nat := ((52 - (d.fracBits : Int) - exp + 1) % 2 ^ 16).toNat

def flexfloatDenormFrac (a : Bits) (exp : Int) : Bits :=
  if exponent a = 0 then (a &&& maskFrac) >>> (52 - d.fracBits)
  else if 64 ≤ denormShift d exp then 0
  else ((a &&& maskFrac) ||| maskFracMsb) >>> denormShift d exp

def flexfloatPack (sign : Bool) (exp : Int) (frac : Bits) : Bits :=
  let exp := if exp = flexfloatInfExp d then infExp else exp - flexfloatBias d + 1023
  pack sign exp (frac <<< (52 - d.fracBits))

def flexfloatDenormPack (sign : Bool) (frac : Bits) : Bits := pack sign 0 (frac <<< (52 - d.fracBits))

def normalize : Nat → Int → Bits → Option (Int × Bits)
  | 0, _, _ => none
  | fuel + 1, exp, frac =>
      if frac = 0 then some (exp, frac)
      else
        let frac := frac <<< 1
        if frac &&& ((1 : Bits) <<< d.fracBits) ≠ 0 then some (exp, frac) else normalize fuel (exp - 1) frac

def flexfloatPackBits (bits : Bits) : Option Bits :=
  let sign := (bits >>> (d.expBits + d.fracBits)).getLsbD 0
  let exp : Int := ((bits >>> d.fracBits) &&& (((1 : Bits) <<< d.expBits) - 1)).toNat
  let frac := bits &&& (((1 : Bits) <<< d.fracBits) - 1)
  if exp = 0 ∧ frac = 0 then some (pack sign 0 0)
  else if exp ≤ 0 then do
    let (exp, frac) ← normalize d 64 exp frac
    some (flexfloatPack d sign exp (frac &&& (((1 : Bits) <<< d.fracBits) - 1)))
  else some (flexfloatPack d sign exp frac)

def flexfloatSetBits (bits : Bits) : Option Bits := flexfloatPackBits d bits

def oneShifted (n : Int) : Option Bits := if 0 ≤ n ∧ n < 31 then some ((1 : Bits) <<< n.toNat) else none

def bitsFields (a : Bits) : Option (Int × Bits) :=
  let exp := flexfloatExp d a
  let frac := flexfloatFrac d a
  if exp = infExp then some (flexfloatInfExp d, frac)
  else if exp < 0 ∧ frac = 0 then
    if 0 ≤ d.fracBits - exp - 1 then (oneShifted (d.fracBits + exp - 1)).map fun one => (0, one)
    else some (0, 0)
  else if exp ≤ 0 then some (0, flexfloatDenormFrac d a exp)
  else some (exp, frac)

def flexfloatGetBits (a : Bits) : Option Bits := do
  let (exp, frac) ← bitsFields d a
  let sign := flexfloatSign a
  let mask : Bits := if sign then (-1 : Bits) <<< (d.expBits + d.fracBits) else 0
  some ((((BitVec.ofBool sign).setWidth 64 <<< (d.expBits + d.fracBits)) + (BitVec.ofInt 64 exp <<< d.fracBits) + frac) ||| mask)

def flexfloatRoundBit (a : Bits) (exp : Int) : Bool :=
  if exp ≤ 0 ∧ exponent a ≠ 0 then
    if 64 ≤ denormShift d exp then false
    else ((a &&& maskFrac) ||| maskFracMsb) &&& ((1 : Bits) <<< (denormShift d exp - 1)) ≠ 0
  else a &&& ((1 : Bits) <<< (52 - d.fracBits - 1)) ≠ 0

def flexfloatStickyBit (a : Bits) (exp : Int) : Bool :=
  if exp ≤ 0 ∧ exponent a ≠ 0 then
    if 64 ≤ denormShift d exp then false
    else ((a &&& maskFrac) ||| maskFracMsb) &&& (((1 : Bits) <<< (denormShift d exp - 1)) - 1) ≠ 0
  else a &&& (maskFrac >>> (d.fracBits + 1)) ≠ 0

def flexfloatNearestRounding (a : Bits) (exp : Int) : Bool :=
  if flexfloatRoundBit d a exp then
    if flexfloatStickyBit d a exp then true
    else if exp ≤ 0 then (flexfloatDenormFrac d a exp).getLsbD 0
    else (flexfloatFrac d a).getLsbD 0
  else false

def flexfloatInfRounding (a : Bits) (exp : Int) (sign plus : Bool) : Bool :=
  if flexfloatRoundBit d a exp || flexfloatStickyBit d a exp then plus ^^ sign else false

def flexfloatRoundingValue (a : Bits) (exp : Int) (sign : Bool) : Bits :=
  if exponent a = 0 then flexfloatDenormPack d sign 1
  else if exp ≤ 0 then flexfloatPack d sign (-d.fracBits + 1) 0
  else flexfloatPack d sign (exp - d.fracBits) 0

def roundsUp (mode : Mode) (a : Bits) (exp : Int) (sign : Bool) : Bool :=
  match mode with
  | .toNearest => flexfloatNearestRounding d a exp
  | .upward => flexfloatInfRounding d a exp sign true
  | .downward => flexfloatInfRounding d a exp sign false
  | .towardZero => false

def sanitizeRound (mode : Mode) (a : Bits) : Bits :=
  let sign := flexfloatSign a
  let exp := flexfloatExp d a
  if exp = infExp ∨ d.fracBits = 52 then a
  else if roundsUp d mode a exp sign then fpAdd mode a (flexfloatRoundingValue d a exp sign)
  else a

def sanitizeCut (sign : Bool) (a : Bits) : Bits :=
  let exp := flexfloatExp d a
  let frac := flexfloatFrac d a
  if exponent a = 0 then flexfloatDenormPack d sign frac
  else if exp ≤ 0 then
    if flexfloatDenormFrac d a exp = 0 then pack sign 0 0
    else if d.fracBits < 52 then
      let shift := -exp + 1
      flexfloatPack d sign exp (if shift < 52 then (frac >>> shift.toNat) <<< shift.toNat else 0)
    else flexfloatPack d sign exp frac
  else if exp = infExp ∧ a &&& maskFrac ≠ 0 then flexfloatPack d false (flexfloatInfExp d) ((1 : Bits) <<< (d.fracBits - 1))
  else if exp = infExp then flexfloatPack d sign (flexfloatInfExp d) frac
  else if flexfloatInfExp d ≤ exp then flexfloatPack d sign (flexfloatInfExp d) 0
  else flexfloatPack d sign exp frac

def flexfloatSanitize (mode : Mode) (a : Bits) : Bits :=
  if d.expBits = 11 ∧ d.fracBits = 52 then a else sanitizeCut d (flexfloatSign a) (sanitizeRound d mode a)

def ffAdd (mode : Mode) (a b : Bits) : Bits := flexfloatSanitize d mode (fpAdd mode a b)

def ffSub (mode : Mode) (a b : Bits) : Bits := flexfloatSanitize d mode (fpSub mode a b)

def ffMul (mode : Mode) (a b : Bits) : Bits := flexfloatSanitize d mode (fpMul mode a b)

def libFlexfloat (op : Mode → Bits → Bits → Bits) (mode : Mode) (a b : Word) : Option Word := do
  let a ← flexfloatSetBits d (a.setWidth 64)
  let b ← flexfloatSetBits d (b.setWidth 64)
  let bits ← flexfloatGetBits d (op mode a b)
  some (bits.setWidth 32)

def libFlexfloatAdd (mode : Mode) (a b : Word) : Option Word := libFlexfloat d (ffAdd d) mode a b

def libFlexfloatSub (mode : Mode) (a b : Word) : Option Word := libFlexfloat d (ffSub d) mode a b

def libFlexfloatMul (mode : Mode) (a b : Word) : Option Word := libFlexfloat d (ffMul d) mode a b

def ffCast (source : Desc) (mode : Mode) (a : Bits) : Bits :=
  if d.expBits ≠ source.expBits ∨ d.fracBits ≠ source.fracBits then flexfloatSanitize d mode a else a

def libFlexfloatCvtFf (source : Desc) (mode : Mode) (a : Word) : Option Word := do
  let a ← flexfloatSetBits source (a.setWidth 64)
  let bits ← flexfloatGetBits d (ffCast d source mode a)
  some (bits.setWidth 32)

end Format

/- Formats whose subnormal numbers are normal doubles, and whose bits fit in an `int`. -/
structure Desc.Supported (d : Desc) : Prop where
  expLow : 2 ≤ d.expBits
  expHigh : d.expBits ≤ 10
  fracLow : 1 ≤ d.fracBits
  fracHigh : d.fracBits ≤ 31

end Gvsoc.FlexFloat
