import ClassEdit.Class.Decl
import ClassEdit.Cursor
import ClassEdit.Fragment.Assembler

/-!
# What code made for a method can look at

A fragment that is assembled only when it is spliced sees the class and the method under edit, as
the earlier edits have left it. A lookup that finds nothing refuses the edit in the name of the
registration.

## Main definitions

* `Site`: the class, the method and the label of the registration.
* `Site.findString`, `Site.nextFieldAfter`, `Site.fieldReference`, `Site.classField`,
  `Site.instruction`: lookups.
* `FragmentSource`, `FragmentSource.resolve`: fragments known beforehand or assembled at a site.
-/

namespace ClassEdit

/-- The class and the method under edit, and the label of the registration that edits it. -/
structure Site where
  owner : ClassDecl
  method : MethodDecl
  registration : String
deriving DecidableEq

namespace Site

variable (s : Site)

/-- The refusal for something that is missing. -/
def missing (target : String) : EditError := .notFound s.registration target

/-- What a lookup found, or the refusal. -/
def require {α : Type} (target : String) : Option α → Except EditError α
  | some a => .ok a
  | none => .error (s.missing target)

/-- The index of the first load of a string. -/
def findString (value : String) : Except EditError Nat :=
  s.require ("ldc " ++ Text.quotedLiteral value)
    (((Cursor.start s.method.code).findString value).1.map Prod.fst)

/-- The first access to a field satisfying a condition after an index. -/
def nextFieldAfter (index : Nat) (what : String) (condition : FieldRef → Bool) :
    Except EditError FieldRef :=
  s.require what
    (((Cursor.startAt s.method.code index).findField condition).1.bind fun found => found.2.field?)

/-- The first access to a field satisfying a condition. -/
def fieldReference (what : String) (condition : FieldRef → Bool) : Except EditError FieldRef :=
  s.require what (s.method.references.find? condition)

/-- The first field of the class satisfying a condition. -/
def classField (what : String) (condition : FieldDecl → Bool) : Except EditError FieldDecl :=
  s.require what (s.owner.fields.find? condition)

/-- The first instruction satisfying a condition, with its index. -/
def instruction (what : String) (condition : Instruction → Bool) :
    Except EditError (Nat × Instruction) :=
  s.require what ((Cursor.start s.method.code).next condition).1

end Site

/-- Where the code of a fragment comes from. -/
inductive FragmentSource where
  /-- A fragment known when the edit is registered. -/
  | fixed (fragment : Fragment)
  /-- A program run when the edit is made. -/
  | assembled (program : Site → Assembler Unit)

namespace FragmentSource

/-- A list of instructions known when the edit is registered. -/
def ofCode (code : List Instruction) : FragmentSource := .fixed (.ofCode code)

/-- The fragment for a place where `available` slots may be consumed. -/
def resolve (source : FragmentSource) (site : Site) (available : UInt16) :
    Except EditError Fragment :=
  match source with
  | .fixed fragment => .ok fragment
  | .assembled program => (program site).assemble available.toNat

end FragmentSource

end ClassEdit
