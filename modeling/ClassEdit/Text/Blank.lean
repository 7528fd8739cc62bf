/-!
# Blanks and whole numbers

Option texts typed by people may carry blanks around a number. This file holds the set of blank
characters, the removal of blanks at both ends, and the reading of a signed whole number.

## Main definitions

* `isBlank`: the characters with the property White_Space.
* `trim`: a text without the blanks at its ends.
* `readSigned`: the value of a decimal text with an optional sign.
-/

namespace ClassEdit.Text

/-- The characters with the property White_Space. -/
def isBlank (c : Char) : Bool :=
  let n := c.toNat
  (decide (9 ≤ n) && decide (n ≤ 13)) || n == 0x20 || n == 0x85 || n == 0xa0 || n == 0x1680 ||
    (decide (0x2000 ≤ n) && decide (n ≤ 0x200a)) || n == 0x2028 || n == 0x2029 || n == 0x202f ||
    n == 0x205f || n == 0x3000

/-- A text without the blanks at its two ends. -/
def trim (cs : List Char) : List Char :=
  ((cs.dropWhile isBlank).reverse.dropWhile isBlank).reverse

/-- The value of a decimal digit. -/
def digitValue (c : Char) : Option Nat :=
  if '0' ≤ c ∧ c ≤ '9' then some (c.toNat - '0'.toNat) else none

/-- The value of a run of decimal digits after what was read before; every character has to be a
digit. -/
def readDigits (value : Nat) : List Char → Option Nat
  | [] => some value
  | c :: rest =>
    match digitValue c with
    | some d => readDigits (value * 10 + d) rest
    | none => none

/-- The value of at least one decimal digit. -/
def readNatural : List Char → Option Nat
  | [] => none
  | c :: rest => readDigits 0 (c :: rest)

/-- The value of a decimal text that may start with one sign. -/
def readSigned : List Char → Option Int
  | '+' :: rest => (readNatural rest).map Int.ofNat
  | '-' :: rest => (readNatural rest).map fun n => -(n : Int)
  | rest => (readNatural rest).map Int.ofNat

end ClassEdit.Text
