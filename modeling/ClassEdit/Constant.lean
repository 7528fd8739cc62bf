import ClassEdit.Decimal.Layout
import ClassEdit.Text.Escape
import ClassEdit.Descriptor.Basic

/-!
# Loadable constants

A constant is a literal that a method can push onto the operand stack. Every constant belongs to
one category, and the width of a value on the stack depends on the category alone, so replacing a
constant by another one of its category never changes the height of the stack.

Floating point constants hold their encodings. Two constants are therefore equal exactly when a
class file could not tell them apart: zero differs from minus zero, and an undefined number equals
itself.

## Main definitions

* `Constant`, `ConstantKind`, `Constant.kind`: constants and their categories.
* `Constant.slots`, `Constant.text`: width on the stack and the form used in messages.
* `TypeDescriptor.accepts`: which constants a type can hold.
-/

namespace ClassEdit

/-- The categories of constants. -/
inductive ConstantKind where
  | int
  | long
  | float
  | double
  | string
  | classLiteral
deriving DecidableEq

/-- The name of a category. -/
def ConstantKind.text : ConstantKind → String
  | .int => "int"
  | .long => "long"
  | .float => "float"
  | .double => "double"
  | .string => "string"
  | .classLiteral => "type"

instance : ToString ConstantKind := ⟨ConstantKind.text⟩

/-- A literal that a method can push. -/
inductive Constant where
  | int (value : Int32)
  | long (value : Int64)
  | float (bits : UInt32)
  | double (bits : UInt64)
  | string (value : String)
  | classLiteral (name : String)
deriving DecidableEq

namespace Constant

/-- The category of a constant. -/
def kind : Constant → ConstantKind
  | .int _ => .int
  | .long _ => .long
  | .float _ => .float
  | .double _ => .double
  | .string _ => .string
  | .classLiteral _ => .classLiteral

/-- Whether the value takes two slots. -/
def isWide : Constant → Bool
  | .long _ | .double _ => true
  | _ => false

/-- The number of slots that the value takes. -/
def slots (c : Constant) : UInt16 := if c.isWide then 2 else 1

/-- The text of a string constant. -/
def string? : Constant → Option String
  | .string value => some value
  | _ => none

/-- The form used in messages. -/
def text : Constant → String
  | .int value => toString value.toInt
  | .long value => toString value.toInt ++ "L"
  | .float bits => Decimal.Layout.plain.text Decimal.binary32 bits.toNat ++ "F"
  | .double bits => Decimal.Layout.plain.text Decimal.binary64 bits.toNat ++ "D"
  | .string value => Text.quotedLiteral value
  | .classLiteral name => name ++ ".class"

instance : ToString Constant := ⟨text⟩

/-- The constant that a truth value is stored as. -/
def ofBool (b : Bool) : Constant := .int (if b then 1 else 0)

theorem slots_eq_of_kind_eq {a b : Constant} (h : a.kind = b.kind) : a.slots = b.slots := by
  cases a <;> cases b <;> simp_all [kind, slots, isWide]

end Constant

/-- Whether a constant may be returned where the type is declared. The types narrower than `int`
hold integers, and the reference types that every string or class literal belongs to hold those. -/
def TypeDescriptor.accepts : TypeDescriptor → Constant → Bool
  | .boolean, .int _ | .byte, .int _ | .char, .int _ | .short, .int _ | .int, .int _ => true
  | .long, .long _ => true
  | .float, .float _ => true
  | .double, .double _ => true
  | .object name, .string _ =>
    name == "java/lang/String" || name == "java/lang/Object" || name == "java/lang/CharSequence"
  | .object name, .classLiteral _ => name == "java/lang/Class" || name == "java/lang/Object"
  | _, _ => false

end ClassEdit
