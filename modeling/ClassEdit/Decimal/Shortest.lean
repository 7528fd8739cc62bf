import ClassEdit.Decimal.Binary

/-!
# The shortest decimal digits of a binary number

Among the decimal numbers that read back as a given binary number, the text of the number shows
one with the fewest digits, and of these the nearest. The search goes through the decimal grids
from coarse to fine. On each grid only the two neighbours of the exact value have to be looked at:
if any point of the grid reads back, so does one of them.

All arithmetic is exact. The numbers that read back as `m * 2 ^ q` form an interval whose ends
lie half a step away, and the ends belong to it exactly when `m` is even.

## Main definitions

* `Digits`: a decimal number `digits * 10 ^ exponent`.
* `Tie`: what happens to a value midway between two equally short numbers.
* `shortest`: the digits of a positive binary number.
-/

namespace ClassEdit.Decimal

/-- The decimal number `digits * 10 ^ exponent`. -/
structure Digits where
  digits : Nat
  exponent : Int
deriving DecidableEq

/-- Which of two equally near and equally short numbers is written. -/
inductive Tie where
  | up
  | toEven
deriving DecidableEq

/-- The numbers that read back as one binary number, over a common denominator: the exact value,
the ends of the interval around it, and whether the ends belong to it. -/
structure Rounding where
  value : Nat
  low : Nat
  high : Nat
  denominator : Nat
  closed : Bool
deriving DecidableEq

namespace Rounding

/-- The interval of `m * 2 ^ q`. Below a power of two the numbers lie twice as close, unless the
exponent is the least one. -/
def around (format : BinaryFormat) (m : Nat) (q : Int) : Rounding :=
  let unit := Nat.pow 2 (q - 2).toNat
  let below := if m = format.hidden ∧ format.leastExponent < q then 1 else 2
  { value := 4 * m * unit
    low := (4 * m - below) * unit
    high := (4 * m + 2) * unit
    denominator := Nat.pow 2 (2 - q).toNat
    closed := m % 2 == 0 }

/-- Whether the point `n * step` of a grid reads back, everything being scaled by `scale`. -/
def covers (r : Rounding) (scale step n : Nat) : Bool :=
  if r.closed then decide (r.low * scale ≤ n * step) && decide (n * step ≤ r.high * scale)
  else decide (r.low * scale < n * step) && decide (n * step < r.high * scale)

/-- The point nearest to the value on the grid of multiples of `10 ^ e`, if one reads back. -/
def onGrid (r : Rounding) (tie : Tie) (e : Int) : Option Digits :=
  let scale := Nat.pow 10 (-e).toNat
  let step := r.denominator * Nat.pow 10 e.toNat
  let down := r.value * scale / step
  let twice := 2 * (r.value * scale)
  let middle := (2 * down + 1) * step
  match r.covers scale step down, r.covers scale step (down + 1) with
  | false, false => none
  | true, false => some ⟨down, e⟩
  | false, true => some ⟨down + 1, e⟩
  | true, true =>
    if twice < middle then some ⟨down, e⟩
    else if middle < twice then some ⟨down + 1, e⟩
    else
      match tie with
      | .up => some ⟨down + 1, e⟩
      | .toEven => some ⟨if down % 2 = 0 then down else down + 1, e⟩

end Rounding

/-- The number of decimal digits of a natural number, none for zero. -/
def digitCount (n : Nat) : Nat :=
  if n = 0 then 0 else (Nat.toDigits 10 n).length

/-- The least number of places, at most `fuel`, by which a fraction has to be moved to reach
one. -/
def leadingZeros (num den : Nat) : Nat → Nat
  | 0 => 0
  | fuel + 1 => if den ≤ num then 0 else leadingZeros (num * 10) den fuel + 1

/-- The position of the first digit of `num / den`: the value lies below `10` to this power and
not below the next smaller one. -/
def position (num den : Nat) : Int :=
  if den ≤ num then digitCount (num / den)
  else 1 - (leadingZeros num den (digitCount den) : Int)

/-- Digits without zeros at the end, at most `fuel` of which are dropped. -/
def Digits.trimmed (d : Digits) : Nat → Digits
  | 0 => d
  | fuel + 1 =>
    if d.digits % 10 = 0 then (Digits.mk (d.digits / 10) (d.exponent + 1)).trimmed fuel else d

/-- The largest number of digits that a double needs. -/
def mostDigits : Nat := 17

/-- The shortest decimal number that reads back as the positive number `m * 2 ^ q`. -/
def shortest (format : BinaryFormat) (tie : Tie) (m : Nat) (q : Int) : Digits :=
  let interval := Rounding.around format m q
  let first := position interval.value interval.denominator
  let grids := (List.range mostDigits).map fun n => first - (n + 1 : Nat)
  match grids.findSome? (interval.onGrid tie) with
  | some d => d.trimmed (mostDigits + 1)
  | none => ⟨m * Nat.pow 2 q.toNat, 0⟩

end ClassEdit.Decimal
