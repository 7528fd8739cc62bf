/-!
# Binary floating point numbers as bit patterns

Constants keep a floating point number as the bits of its encoding, so that two of them are equal
exactly when their encodings are. This file relates encodings to exact values: `decode` splits an
encoding into sign, significand and exponent, and `nearest` encodes a quotient of naturals, going
to the nearest representable number and to the even one of two equally near.

## Main definitions

* `BinaryFormat`, `binary32`, `binary64`: the widths of the fields of an encoding.
* `FloatValue`, `BinaryFormat.decode`: what an encoding stands for.
* `BinaryFormat.nearest`, `BinaryFormat.ofFraction`: encodings of exact values.
* `BinaryFormat.ofInt`, `BinaryFormat.product`, `BinaryFormat.convert`: rounded operations.
-/

namespace ClassEdit.Decimal

/-- The widths of the fields of a binary interchange encoding; the sign takes one more bit. -/
structure BinaryFormat where
  /-- Number of stored bits of the significand. -/
  fractionBits : Nat
  /-- Number of bits of the biased exponent. -/
  exponentBits : Nat
deriving DecidableEq

/-- Single precision. -/
def binary32 : BinaryFormat := ⟨23, 8⟩

/-- Double precision. -/
def binary64 : BinaryFormat := ⟨52, 11⟩

/-- What an encoding stands for: `finite` is `significand * 2 ^ exponent` with its sign. -/
inductive FloatValue where
  | undefined
  | infinite (negative : Bool)
  | finite (negative : Bool) (significand : Nat) (exponent : Int)
deriving DecidableEq

namespace BinaryFormat

variable (format : BinaryFormat)

/-- The number of significands below the first normal one. -/
def hidden : Nat := Nat.pow 2 format.fractionBits

/-- The largest biased exponent, which marks infinities and undefined values. -/
def topExponent : Nat := Nat.pow 2 format.exponentBits - 1

/-- The exponent of the smallest numbers, and the least exponent there is. -/
def leastExponent : Int :=
  2 - (Nat.pow 2 (format.exponentBits - 1) : Nat) - format.fractionBits

/-- The encoding of positive infinity. -/
def infinity : Nat := format.topExponent * format.hidden

/-- The bit that holds the sign. -/
def signBit : Nat := Nat.pow 2 (format.fractionBits + format.exponentBits)

/-- The value that an encoding stands for. -/
def decode (bits : Nat) : FloatValue :=
  let negative := decide (bits / format.signBit % 2 = 1)
  let biased := bits / format.hidden % (format.topExponent + 1)
  let fraction := bits % format.hidden
  if biased = format.topExponent then
    if fraction = 0 then .infinite negative else .undefined
  else if biased = 0 then .finite negative fraction format.leastExponent
  else .finite negative (fraction + format.hidden) (format.leastExponent + (biased - 1 : Nat))

/-- Numerator and denominator of `significand * 2 ^ exponent`. -/
def fraction (significand : Nat) (exponent : Int) : Nat × Nat :=
  (significand * Nat.pow 2 exponent.toNat, Nat.pow 2 (-exponent).toNat)

/-- The natural number nearest to a quotient, the even one if there are two. -/
def divNearest (num den : Nat) : Nat :=
  let down := num / den
  let left := num % den
  if 2 * left < den then down
  else if den < 2 * left then down + 1
  else if down % 2 = 0 then down else down + 1

/-- The exponent at which the significand of `num / den` fills its field, or the least one. -/
def exponentFor (num den : Nat) : Int :=
  let lower : Int := (num.log2 : Int) - den.log2 - 1 - format.fractionBits
  let scaled := num * Nat.pow 2 (-lower).toNat / (den * Nat.pow 2 lower.toNat)
  max format.leastExponent (if scaled < 2 * format.hidden then lower else lower + 1)

/-- The encoding nearest to the quotient `num / den`, without sign; values beyond the largest
finite number give infinity. -/
def nearest (num den : Nat) : Nat :=
  if num = 0 then 0
  else
    let exponent := format.exponentFor num den
    let significand :=
      divNearest (num * Nat.pow 2 (-exponent).toNat) (den * Nat.pow 2 exponent.toNat)
    let bits :=
      if significand < format.hidden then significand
      else ((exponent - format.leastExponent).toNat + 1) * format.hidden +
        (significand - format.hidden)
    min bits format.infinity

/-- The encoding nearest to a signed quotient. -/
def ofFraction (negative : Bool) (num den : Nat) : Nat :=
  (if negative then format.signBit else 0) + format.nearest num den

/-- The encoding nearest to an integer. -/
def ofInt (value : Int) : Nat :=
  format.ofFraction (decide (value < 0)) value.natAbs 1

/-- The encoding of an infinity. -/
def ofInfinite (negative : Bool) : Nat :=
  (if negative then format.signBit else 0) + format.infinity

/-- One encoding that stands for no number. -/
def ofUndefined : Nat := format.infinity + format.hidden / 2

/-- The rounded product of two encoded numbers. -/
def product (a b : Nat) : Nat :=
  match format.decode a, format.decode b with
  | .finite s m p, .finite t n q =>
    let exact := fraction (m * n) (p + q)
    format.ofFraction (s != t) exact.1 exact.2
  | .infinite s, .infinite t => format.ofInfinite (s != t)
  | .infinite s, .finite t n _ | .finite t n _, .infinite s =>
    if n = 0 then format.ofUndefined else format.ofInfinite (s != t)
  | .undefined, _ | _, .undefined => format.ofUndefined

/-- The encoding in `target` nearest to a number encoded in `format`. -/
def convert (target : BinaryFormat) (bits : Nat) : Nat :=
  match format.decode bits with
  | .finite s m q =>
    let exact := fraction m q
    target.ofFraction s exact.1 exact.2
  | .infinite s => target.ofInfinite s
  | .undefined => target.ofUndefined

end BinaryFormat

end ClassEdit.Decimal
