import ClassEdit.Decimal.Binary

/-!
# Reading decimal numbers in two roundings

A settings document gives a number as decimal digits with a point and an exponent. Its value is
computed from the digits that fit into a 64 bit word: the word is rounded to a double, and the
double is multiplied or divided by the power of ten, itself rounded, in one more rounding. Powers
beyond `10 ^ 308` have no double; a number that needs one upwards is out of range, and downwards
the division is done in stages.

## Main definitions

* `Scaled`: a significand below `2 ^ 64` and a power of ten.
* `Scaled.ofDigits`: what is kept of the digits before and after the point.
* `Scaled.value`: the double, if the number is in range.
-/

namespace ClassEdit.Decimal

/-- The decimal number `significand * 10 ^ exponent`. -/
structure Scaled where
  significand : Nat
  exponent : Int
deriving DecidableEq

namespace Scaled

/-- The largest significand that is kept. -/
def limit : Nat := Nat.pow 2 64 - 1

/-- Takes up the digits before the point while they fit; each later one raises the exponent. -/
def addInteger (s : Scaled) : List Nat → Scaled
  | [] => s
  | d :: rest =>
    if s.significand * 10 + d ≤ limit then
      addInteger { s with significand := s.significand * 10 + d } rest
    else { s with exponent := s.exponent + (rest.length + 1 : Nat) }

/-- Takes up the digits after the point while they fit, and drops the others. -/
def addFraction (s : Scaled) : List Nat → Scaled
  | [] => s
  | d :: rest =>
    if s.significand * 10 + d ≤ limit then
      addFraction ⟨s.significand * 10 + d, s.exponent - 1⟩ rest
    else s

/-- The number with the given digits before and after the point, times a power of ten. -/
def ofDigits (integer fraction : List Nat) (power : Int) : Scaled :=
  let s := ((⟨0, 0⟩ : Scaled).addInteger integer).addFraction fraction
  { s with exponent := s.exponent + power }

/-- The largest power of ten with a double of its own. -/
def topPower : Nat := 308

/-- The exact value of a finite double without sign. -/
def exact (bits : Nat) : Nat × Nat :=
  match binary64.decode bits with
  | .finite _ m q => BinaryFormat.fraction m q
  | _ => (0, 1)

/-- A double times a power of ten, both rounded before and after. -/
def timesPower (bits power : Nat) : Nat :=
  let a := exact bits
  let b := exact (binary64.nearest (Nat.pow 10 power) 1)
  binary64.nearest (a.1 * b.1) (a.2 * b.2)

/-- A double over a power of ten, both rounded before and after. -/
def overPower (bits power : Nat) : Nat :=
  let a := exact bits
  let b := exact (binary64.nearest (Nat.pow 10 power) 1)
  binary64.nearest (a.1 * b.2) (a.2 * b.1)

/-- Divides by `10 ^ power`, in stages of the largest power that has a double. A value that has
come down to zero stays there. -/
def lowered (bits power : Nat) : Nat :=
  if _h : power ≤ topPower then overPower bits power
  else if bits = 0 then 0
  else lowered (overPower bits topPower) (power - topPower)
termination_by power
decreasing_by simp only [topPower] at *; omega

/-- The encoding of the double, without sign; `none` if the number is too large for one. -/
def value (s : Scaled) : Option Nat :=
  let bits := binary64.nearest s.significand 1
  if s.exponent < 0 then some (lowered bits (-s.exponent).toNat)
  else if bits = 0 then some 0
  else if topPower < s.exponent.toNat then none
  else
    let result := timesPower bits s.exponent.toNat
    if result = binary64.infinity then none else some result

end Scaled

end ClassEdit.Decimal
