/-!
# JSON texts

The notation of settings documents. A text is cut into tokens, and the tokens are put together to
a value. Numbers keep their digits and strings their escapes, because parts of a document that
nobody asks for have to be well formed only, while a number that is asked for has to be in range
and a string has to be made of whole characters.

## Main definitions

* `Token`, `tokens?`: the tokens of a text.
* `Json`, `Json.ofText?`: the value that a text denotes.
* `decodeString?`: the characters of a string.
* `quote`: a text as a string of the notation.
-/

namespace ClassEdit.Settings

/-- A number as it is written: its digits before and after the point, and the power of ten. -/
structure NumberText where
  negative : Bool
  integer : List Nat
  fraction : List Nat
  power : Int
  /-- Whether there is neither a point nor a power. -/
  plain : Bool
deriving DecidableEq

/-- A piece of a string: a character, or a 16 bit unit given by its number. -/
inductive Piece where
  | char (c : Char)
  | unit (n : Nat)
deriving DecidableEq

/-- The smallest parts of a text that mean something. -/
inductive Token where
  | openBrace
  | closeBrace
  | openBracket
  | closeBracket
  | colon
  | comma
  | null
  | bool (value : Bool)
  | number (value : NumberText)
  | string (pieces : List Piece)
deriving DecidableEq

/-- The value of a decimal digit. -/
def decimalDigit? (c : Char) : Option Nat :=
  if '0' ≤ c ∧ c ≤ '9' then some (c.toNat - '0'.toNat) else none

/-- The value of a hexadecimal digit. -/
def hexDigit? (c : Char) : Option Nat :=
  if '0' ≤ c ∧ c ≤ '9' then some (c.toNat - '0'.toNat)
  else if 'a' ≤ c ∧ c ≤ 'f' then some (c.toNat - 'a'.toNat + 10)
  else if 'A' ≤ c ∧ c ≤ 'F' then some (c.toNat - 'A'.toNat + 10)
  else none

/-- The digits at the front of a text, and what follows them. -/
def takeDigits : List Char → List Nat × List Char
  | [] => ([], [])
  | c :: rest =>
    match decimalDigit? c with
    | some d =>
      let (ds, left) := takeDigits rest
      (d :: ds, left)
    | none => ([], c :: rest)

/-- The number that digits denote. -/
def digitsValue (ds : List Nat) : Nat := ds.foldl (fun n d => n * 10 + d) 0

/-- The digits before the point: a single zero, or digits that do not start with one. -/
def takeInteger (cs : List Char) : Option (List Nat × List Char) :=
  match cs with
  | '0' :: rest => some ([0], rest)
  | cs =>
    match takeDigits cs with
    | ([], _) => none
    | (ds, left) => some (ds, left)

/-- The digits after the point, if there is one; then there has to be a digit. -/
def takeFraction : List Char → Option (Option (List Nat) × List Char)
  | '.' :: rest =>
    match takeDigits rest with
    | ([], _) => none
    | (ds, left) => some (some ds, left)
  | cs => some (none, cs)

/-- The digits of a power, at least one. -/
def takePowerDigits (negative : Bool) (cs : List Char) : Option (Option Int × List Char) :=
  match takeDigits cs with
  | ([], _) => none
  | (ds, left) =>
    let n : Int := digitsValue ds
    some (some (if negative then -n else n), left)

/-- The power of ten, if there is one. -/
def takePower : List Char → Option (Option Int × List Char)
  | 'e' :: '-' :: rest | 'E' :: '-' :: rest => takePowerDigits true rest
  | 'e' :: '+' :: rest | 'E' :: '+' :: rest => takePowerDigits false rest
  | 'e' :: rest | 'E' :: rest => takePowerDigits false rest
  | cs => some (none, cs)

/-- A number after its sign. -/
def takeNumber (negative : Bool) (cs : List Char) : Option (NumberText × List Char) := do
  let (integer, cs) ← takeInteger cs
  let (fraction, cs) ← takeFraction cs
  let (power, cs) ← takePower cs
  return (⟨negative, integer, fraction.getD [], power.getD 0, fraction.isNone && power.isNone⟩, cs)

/-- The character that a letter stands for after a backslash. -/
def simpleEscape? (c : Char) : Option Char :=
  if c = '"' ∨ c = '\\' ∨ c = '/' then some c
  else if c = 'b' then some '\x08'
  else if c = 'f' then some '\x0c'
  else if c = 'n' then some '\n'
  else if c = 'r' then some '\r'
  else if c = 't' then some '\t'
  else none

/-- The number written in four hexadecimal digits. -/
def unitValue? (a b c d : Char) : Option Nat := do
  let a ← hexDigit? a
  let b ← hexDigit? b
  let c ← hexDigit? c
  let d ← hexDigit? d
  return ((a * 16 + b) * 16 + c) * 16 + d

/-- A string after its opening quote. Control characters have to be escaped. -/
def takeString : List Char → Option (List Piece × List Char)
  | [] => none
  | '"' :: rest => some ([], rest)
  | '\\' :: 'u' :: a :: b :: c :: d :: rest => do
    let n ← unitValue? a b c d
    let (pieces, left) ← takeString rest
    return (.unit n :: pieces, left)
  | '\\' :: c :: rest => do
    let meant ← simpleEscape? c
    let (pieces, left) ← takeString rest
    return (.char meant :: pieces, left)
  | c :: rest =>
    if c.toNat < 32 ∨ c = '\\' then none
    else do
      let (pieces, left) ← takeString rest
      return (.char c :: pieces, left)

/-- The token at the front of a text that does not start with a blank. -/
def takeToken : List Char → Option (Token × List Char)
  | '\x7b' :: rest => some (.openBrace, rest)
  | '\x7d' :: rest => some (.closeBrace, rest)
  | '[' :: rest => some (.openBracket, rest)
  | ']' :: rest => some (.closeBracket, rest)
  | ':' :: rest => some (.colon, rest)
  | ',' :: rest => some (.comma, rest)
  | 'n' :: 'u' :: 'l' :: 'l' :: rest => some (.null, rest)
  | 't' :: 'r' :: 'u' :: 'e' :: rest => some (.bool true, rest)
  | 'f' :: 'a' :: 'l' :: 's' :: 'e' :: rest => some (.bool false, rest)
  | '"' :: rest => (takeString rest).map fun (pieces, left) => (.string pieces, left)
  | '-' :: rest => (takeNumber true rest).map fun (n, left) => (.number n, left)
  | cs => (takeNumber false cs).map fun (n, left) => (.number n, left)

/-- The blanks between tokens. -/
def isGap (c : Char) : Bool := c == ' ' || c == '\n' || c == '\t' || c == '\r'

/-- The tokens of a text of less than `fuel` characters. -/
def tokensWithin : Nat → List Char → Option (List Token)
  | 0, _ => none
  | fuel + 1, cs =>
    match cs.dropWhile isGap with
    | [] => some []
    | c :: rest => do
      let (token, left) ← takeToken (c :: rest)
      let tokens ← tokensWithin fuel left
      return token :: tokens

/-- The tokens of a text. -/
def tokens? (cs : List Char) : Option (List Token) := tokensWithin (cs.length + 1) cs

/-- The value that a text denotes. An object keeps all its members, also several of one key. -/
inductive Json where
  | null
  | bool (value : Bool)
  | number (value : NumberText)
  | string (pieces : List Piece)
  | array (items : List Json)
  | object (members : List (List Piece × Json))

mutual

/-- A value at the front of a list of tokens. -/
def takeValue : Nat → List Token → Option (Json × List Token)
  | 0, _ => none
  | _ + 1, .null :: rest => some (.null, rest)
  | _ + 1, .bool value :: rest => some (.bool value, rest)
  | _ + 1, .number value :: rest => some (.number value, rest)
  | _ + 1, .string pieces :: rest => some (.string pieces, rest)
  | _ + 1, .openBracket :: .closeBracket :: rest => some (.array [], rest)
  | fuel + 1, .openBracket :: rest =>
    (takeItems fuel rest).map fun (items, left) => (.array items, left)
  | _ + 1, .openBrace :: .closeBrace :: rest => some (.object [], rest)
  | fuel + 1, .openBrace :: rest =>
    (takeMembers fuel rest).map fun (members, left) => (.object members, left)
  | _ + 1, _ => none

/-- The items of an array up to its end, one at least. -/
def takeItems : Nat → List Token → Option (List Json × List Token)
  | 0, _ => none
  | fuel + 1, tokens => do
    let (item, left) ← takeValue fuel tokens
    match left with
    | .closeBracket :: rest => return ([item], rest)
    | .comma :: rest => do
      let (items, left) ← takeItems fuel rest
      return (item :: items, left)
    | _ => none

/-- The members of an object up to its end, one at least. -/
def takeMembers : Nat → List Token → Option (List (List Piece × Json) × List Token)
  | 0, _ => none
  | fuel + 1, .string key :: .colon :: tokens => do
    let (value, left) ← takeValue fuel tokens
    match left with
    | .closeBrace :: rest => return ([(key, value)], rest)
    | .comma :: rest => do
      let (members, left) ← takeMembers fuel rest
      return ((key, value) :: members, left)
    | _ => none
  | _ + 1, _ => none

end

/-- The value that a whole text denotes. Taking a value never goes deeper than twice the number of
tokens. -/
def Json.ofText? (text : String) : Option Json := do
  let tokens ← tokens? text.toList
  match takeValue (2 * tokens.length + 2) tokens with
  | some (value, []) => some value
  | _ => none

/-- The characters of a string, unless it holds half of a surrogate pair. -/
def decodePieces? : List Piece → Option (List Char)
  | [] => some []
  | .char c :: rest => (decodePieces? rest).map (c :: ·)
  | .unit high :: .unit low :: rest =>
    if 0xd800 ≤ high ∧ high < 0xdc00 then
      if 0xdc00 ≤ low ∧ low < 0xe000 then
        (decodePieces? rest).map
          (Char.ofNat (0x10000 + (high - 0xd800) * 0x400 + (low - 0xdc00)) :: ·)
      else none
    else if 0xdc00 ≤ high ∧ high < 0xe000 then none
    else (decodePieces? (.unit low :: rest)).map (Char.ofNat high :: ·)
  | .unit n :: rest =>
    if 0xd800 ≤ n ∧ n < 0xe000 then none else (decodePieces? rest).map (Char.ofNat n :: ·)

/-- The text of a string, unless it holds half of a surrogate pair. -/
def decodeString? (pieces : List Piece) : Option String :=
  (decodePieces? pieces).map String.ofList

/-- A character inside a string of the notation. -/
def quoteChar (c : Char) : List Char :=
  if c = '"' then ['\\', '"']
  else if c = '\\' then ['\\', '\\']
  else if c = '\x08' then ['\\', 'b']
  else if c = '\x0c' then ['\\', 'f']
  else if c = '\n' then ['\\', 'n']
  else if c = '\r' then ['\\', 'r']
  else if c = '\t' then ['\\', 't']
  else if c.toNat < 32 then
    ['\\', 'u', '0', '0'] ++ List.replicate (2 - (Nat.toDigits 16 c.toNat).length) '0' ++
      Nat.toDigits 16 c.toNat
  else [c]

/-- A text as a string of the notation. -/
def quote (s : String) : String :=
  "\"" ++ String.ofList (s.toList.flatMap quoteChar) ++ "\""

end ClassEdit.Settings
