import ClassEdit.Text.Unprintable
import ClassEdit.Text.Extender
import ClassEdit.Text.Ignorable

/-!
# Escaped text

String literals and option values are shown to people, so characters that cannot be seen, or that
would be mistaken for the closing quote, are written as escapes. Two settings differ between the
places where text is shown, and an `Escaping` holds them.

## Main definitions

* `Escaping`: which of the optional escapes a place uses.
* `Escaping.escape`: the escaped characters of a text.
* `escaped`, `quotedLiteral`, `quotedValue`: the forms used in messages.
-/

namespace ClassEdit.Text

/-- The choices left open by the common escapes. -/
structure Escaping where
  /-- Whether an apostrophe is escaped. -/
  apostrophe : Bool
  /-- Whether a character drawn onto its predecessor is escaped inside the text too. At the start
  it always is, for it would be drawn onto the opening quote. -/
  extenderInside : Bool
deriving DecidableEq

namespace Escaping

/-- String literals escape both kinds of quote, and an extender only where it comes first. -/
def literal : Escaping := ⟨true, false⟩

/-- Option values leave the apostrophe alone and escape every extender. -/
def value : Escaping := ⟨false, true⟩

/-- The code point of a character in lower case hexadecimal digits between braces. -/
def codePoint (c : Char) : List Char :=
  ['\\', 'u', '\x7b'] ++ Nat.toDigits 16 c.toNat ++ ['\x7d']

/-- One character as it is written; `extender` tells whether an extender is escaped here. -/
def escapeChar (rule : Escaping) (extender : Bool) (c : Char) : List Char :=
  if c = '\x00' then ['\\', '0']
  else if c = '\t' then ['\\', 't']
  else if c = '\r' then ['\\', 'r']
  else if c = '\n' then ['\\', 'n']
  else if c = '\\' then ['\\', '\\']
  else if c = '"' then ['\\', '"']
  else if c = '\'' then (if rule.apostrophe then ['\\', '\''] else ['\''])
  else if 32 ≤ c.toNat ∧ c.toNat < 127 then [c]
  else if extender && isExtender c then codePoint c
  else if isUnprintable c || isIgnorable c then codePoint c
  else [c]

/-- The characters of a text as they are written. -/
def escape (rule : Escaping) : List Char → List Char
  | [] => []
  | c :: rest => rule.escapeChar true c ++ rest.flatMap (rule.escapeChar rule.extenderInside)

@[simp] theorem escape_nil (rule : Escaping) : rule.escape [] = [] := rfl

end Escaping

/-- A literal as it stands inside a message, without quotes. -/
def escaped (s : String) : String :=
  String.ofList (Escaping.literal.escape s.toList)

/-- A literal between quotes. -/
def quotedLiteral (s : String) : String :=
  "\"" ++ escaped s ++ "\""

/-- An option value between quotes. -/
def quotedValue (s : String) : String :=
  "\"" ++ String.ofList (Escaping.value.escape s.toList) ++ "\""

end ClassEdit.Text
