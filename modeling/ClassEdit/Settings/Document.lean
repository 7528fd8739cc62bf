import ClassEdit.Decimal.Scaled
import ClassEdit.Settings.Json
import ClassEdit.Settings.Registry

/-!
# Settings documents

A settings document is an object with the member `modules`, whose members say for each module
whether it takes part and which options it has. Either of the two outer objects may also be
written as the array of its members in their order. Members that are not known are passed over,
members that are missing have their defaults, and a known member may not be given twice.

## Main definitions

* `Snapshot.ofText`: what a document says.
* `Snapshot.text`: the document of a snapshot, with sorted names and two blanks for each level.
-/

namespace ClassEdit

namespace OptionValue

/-- An integer that is written without point and power. One beyond 64 bits, and minus zero, is
taken as a double. -/
def ofPlain? (n : Settings.NumberText) : Option OptionValue :=
  let value := Settings.digitsValue n.integer
  if n.negative = false ∧ value ≤ Int64.maxValue.toInt then some (.integer (.ofNat value))
  else if n.negative ∧ value ≠ 0 ∧ Int64.minValue.toInt ≤ -value then
    some (.integer (.ofInt (-value)))
  else
    (Decimal.Scaled.ofDigits n.integer [] 0).value.map fun bits =>
      .float (.ofNat ((if n.negative then Decimal.binary64.signBit else 0) + bits))

/-- The option value that a number denotes, if it is in range. -/
def ofNumber? (n : Settings.NumberText) : Option OptionValue :=
  if n.plain then ofPlain? n
  else
    (Decimal.Scaled.ofDigits n.integer n.fraction n.power).value.map fun bits =>
      .float (.ofNat ((if n.negative then Decimal.binary64.signBit else 0) + bits))

/-- The option value that a scalar of a document denotes. -/
def ofJson? : Settings.Json → Option OptionValue
  | .bool value => some (.boolean value)
  | .number n => ofNumber? n
  | .string pieces => (Settings.decodeString? pieces).map .text
  | _ => none

end OptionValue

namespace Settings

/-- The table of an object whose values are read in one way. -/
def tableOf? {α : Type} (read : Json → Option α) : Json → Option (Table α)
  | .object members => do
    let entries ← members.mapM fun (key, value) => do
      let key ← decodeString? key
      let value ← read value
      return (key, value)
    return .ofList entries
  | _ => none

/-- The values of known members, in the order of `names`: `none` where one is missing. The whole
fails if one is given twice, or if the array form has more items than there are names. -/
def members? (names : List String) : Json → Option (List (Option Json))
  | .array items =>
    if items.length ≤ names.length then
      some (items.map some ++ List.replicate (names.length - items.length) none)
    else none
  | .object members => do
    let entries ← members.mapM fun (key, value) => (decodeString? key).map fun key => (key, value)
    names.mapM fun name =>
      match entries.filter fun entry => entry.1 == name with
      | [] => some none
      | [entry] => some (some entry.2)
      | _ => none
  | _ => none

/-- A value that may be missing and then has a default. -/
def orDefault? {α : Type} (missing : α) (read : Json → Option α) : Option Json → Option α
  | none => some missing
  | some value => read value

/-- A truth value. -/
def bool? : Json → Option Bool
  | .bool value => some value
  | _ => none

end Settings

/-- What the part of a document about one module says. -/
def ModuleSettings.ofJson? (value : Settings.Json) : Option ModuleSettings := do
  match ← Settings.members? ["enabled", "options"] value with
  | [enabled, options] => do
    let enabled ← Settings.orDefault? false Settings.bool? enabled
    let options ← Settings.orDefault? .empty (Settings.tableOf? OptionValue.ofJson?) options
    return ⟨enabled, options⟩
  | _ => none

namespace Snapshot

/-- The snapshot that says nothing. -/
def empty : Snapshot := ⟨.empty⟩

/-- What the value of a document says. -/
def ofJson? (value : Settings.Json) : Option Snapshot := do
  match ← Settings.members? ["modules"] value with
  | [modules] => do
    let modules ← Settings.orDefault? .empty (Settings.tableOf? ModuleSettings.ofJson?) modules
    return ⟨modules⟩
  | _ => none

/-- What a document says, or the refusal. -/
def ofText (text : String) : Except EditError Snapshot :=
  match (Settings.Json.ofText? text).bind ofJson? with
  | some s => .ok s
  | none => .error .document

end Snapshot

/-- A scalar in a document. -/
def OptionValue.jsonText : OptionValue → String
  | .boolean value => if value then "true" else "false"
  | .integer value => toString value.toInt
  | .float bits => Decimal.Layout.document.text Decimal.binary64 bits.toNat
  | .text value => Settings.quote value

namespace Settings

/-- An object in a document, at a level of indentation. -/
def objectText (level : Nat) (members : List (String × String)) : String :=
  let blanks (n : Nat) := String.ofList (List.replicate (2 * n) ' ')
  if members.isEmpty then "\x7b\x7d"
  else
    let lines := members.map fun (key, value) => blanks (level + 1) ++ quote key ++ ": " ++ value
    "\x7b\n" ++ ",\n".intercalate lines ++ "\n" ++ blanks level ++ "\x7d"

end Settings

/-- The part of a document about one module. -/
def ModuleSettings.jsonText (s : ModuleSettings) : String :=
  let options := s.options.sorted.map fun (key, value) => (key, value.jsonText)
  Settings.objectText 2
    [("enabled", if s.enabled then "true" else "false"),
     ("options", Settings.objectText 3 options)]

/-- The document of a snapshot. -/
def Snapshot.text (s : Snapshot) : String :=
  let modules := s.modules.sorted.map fun (name, settings) => (name, settings.jsonText)
  Settings.objectText 0 [("modules", Settings.objectText 1 modules)]

/-- What a registry is made from when no document is given. -/
def Registry.ofText (text : String) : Except EditError Registry :=
  (Snapshot.ofText text).map Registry.ofSnapshot

end ClassEdit
