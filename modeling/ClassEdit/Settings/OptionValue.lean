import ClassEdit.Decimal.Layout
import ClassEdit.Text.Escape

/-!
# Option values

An option of a module is a scalar: a truth value, an integer, a double or a text.

## Main definitions

* `OptionKind`, `OptionValue`, `OptionValue.kind`: scalars and what they are.
* `OptionValue.text`: the form used in messages.
-/

namespace ClassEdit

/-- The kinds of option values. -/
inductive OptionKind where
  | boolean
  | integer
  | float
  | text
deriving DecidableEq

/-- The name of a kind. -/
def OptionKind.name : OptionKind → String
  | .boolean => "boolean"
  | .integer => "integer"
  | .float => "float"
  | .text => "text"

/-- The value of an option. A double is held as its encoding. -/
inductive OptionValue where
  | boolean (value : Bool)
  | integer (value : Int64)
  | float (bits : UInt64)
  | text (value : String)
deriving DecidableEq

namespace OptionValue

/-- What a value is. -/
def kind : OptionValue → OptionKind
  | .boolean _ => .boolean
  | .integer _ => .integer
  | .float _ => .float
  | .text _ => .text

/-- The form used in messages. -/
def shown : OptionValue → String
  | .boolean value => if value then "true" else "false"
  | .integer value => toString value.toInt
  | .float bits => Decimal.Layout.plain.text Decimal.binary64 bits.toNat
  | .text value => Text.quotedValue value

instance : ToString OptionValue := ⟨shown⟩

end OptionValue

end ClassEdit
