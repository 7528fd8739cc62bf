import ClassEdit.Decimal.Shortest

/-!
# How decimal numbers are laid out

A number is written positionally or with an exponent, with or without a fraction that is zero.
The places that write numbers differ in these choices only, and a `Layout` collects them.

## Main definitions

* `Layout`: the choices.
* `Layout.plain`: digits and a point, never an exponent, as numbers appear in messages.
* `Layout.document`: the form of numbers in a settings document.
* `Layout.text`: the text of an encoded number.
-/

namespace ClassEdit.Decimal

/-- The choices in writing a number. -/
structure Layout where
  /-- Which of two equally near shortest numbers is written. -/
  tie : Tie
  /-- The positions of the first digit written without an exponent; `none` if all are. -/
  positional : Option (Int × Int)
  /-- Whether an integer is written with the fraction `.0`. -/
  pointZero : Bool
deriving DecidableEq

namespace Layout

/-- Messages show numbers with all their places. -/
def plain : Layout := ⟨.up, none, false⟩

/-- Documents show numbers from `0.00001` up to sixteen integer digits with all their places and
mark them as numbers with a fraction; the others carry a signed exponent. -/
def document : Layout := ⟨.toEven, some (-4, 16), true⟩

/-- The decimal digits of a natural number. -/
def digitText (n : Nat) : List Char := Nat.toDigits 10 n

/-- Digits with a point `e.natAbs` places from the right for negative `e`, followed by zeros for
positive `e`. -/
def positionalText (layout : Layout) (d : Digits) : List Char :=
  let ds := digitText d.digits
  if 0 ≤ d.exponent then
    ds ++ List.replicate d.exponent.toNat '0' ++ (if layout.pointZero then ['.', '0'] else [])
  else
    let places := (-d.exponent).toNat
    if places < ds.length then
      ds.take (ds.length - places) ++ '.' :: ds.drop (ds.length - places)
    else ['0', '.'] ++ List.replicate (places - ds.length) '0' ++ ds

/-- One digit, a point before the others if there are any, and a signed exponent. -/
def exponentText (d : Digits) : List Char :=
  let ds := digitText d.digits
  let e : Int := d.exponent + (ds.length : Int) - 1
  let mantissa :=
    match ds with
    | first :: second :: rest => first :: '.' :: second :: rest
    | short => short
  mantissa ++ ['e', if e < 0 then '-' else '+'] ++ digitText e.natAbs

/-- The text of a positive decimal number. -/
def digitsText (layout : Layout) (d : Digits) : List Char :=
  match layout.positional with
  | none => layout.positionalText d
  | some (low, high) =>
    let first := d.exponent + ((digitText d.digits).length : Int)
    if low ≤ first ∧ first ≤ high then layout.positionalText d else exponentText d

/-- The text of an encoded number. -/
def text (layout : Layout) (format : BinaryFormat) (bits : Nat) : String :=
  match format.decode bits with
  | .undefined => "NaN"
  | .infinite negative => if negative then "-inf" else "inf"
  | .finite negative m q =>
    let magnitude :=
      if m = 0 then (if layout.pointZero then ['0', '.', '0'] else ['0'])
      else layout.digitsText (shortest format layout.tie m q)
    String.ofList (if negative then '-' :: magnitude else magnitude)

end Layout

end ClassEdit.Decimal
