import ClassEdit.Pattern.Basic
import ClassEdit.Class.Decl

/-!
# Patterns for members

Called methods, accessed fields and declared fields have an owner, a name and a descriptor in
common, and the first two of them the operation that refers to them. A member pattern looks at
these only.

## Main definitions

* `Member`: the common view.
* `MemberClause`, `MemberPattern`: clauses about members and their conjunctions.
-/

namespace ClassEdit

/-- What called methods, accessed fields and declared fields have in common. -/
structure Member where
  owner : String
  name : String
  descriptor : String
  /-- The operation that refers to the member; a declaration has none. -/
  opcode : Option Opcode
deriving DecidableEq

/-- A called method as a member. -/
def MethodRef.member (m : MethodRef) : Member := ⟨m.owner, m.name, m.descriptor, some m.opcode⟩

/-- An accessed field as a member. -/
def FieldRef.member (f : FieldRef) : Member := ⟨f.owner, f.name, f.descriptor, some f.opcode⟩

/-- A declared field as a member. -/
def FieldDecl.member (f : FieldDecl) : Member := ⟨f.owner, f.name, f.descriptor, none⟩

/-- A clause about a member. -/
inductive MemberClause where
  | named (name : String)
  | owner (name : String)
  | descriptor (descriptor : String)
  | opcode (opcode : Opcode)
  | constructor
  | custom (test : Member → Bool)

namespace MemberClause

/-- Whether a clause holds of a member. -/
def holds : MemberClause → Member → Bool
  | .named value, m => m.name == value
  | .owner value, m => m.owner == value
  | .descriptor value, m => m.descriptor == value
  | .opcode value, m => m.opcode == some value
  | .constructor, m => m.name == constructorName
  | .custom test, m => test m

/-- A clause in words. -/
def text : MemberClause → String
  | .named value => "named " ++ value
  | .owner value => "owned by " ++ value
  | .descriptor value => "described by " ++ value
  | .opcode value => "via " ++ value.mnemonic
  | .constructor => "constructor"
  | .custom _ => "custom"

instance : Clause MemberClause Member := ⟨holds, text, "any member"⟩

/-- The owner is the class of a dotted or internal name. -/
def ownedBy (name : String) : MemberClause := .owner (internalName name)

end MemberClause

/-- A conjunction of clauses about members. -/
abbrev MemberPattern := Pattern MemberClause

namespace MemberPattern

/-- Whether a called method passes the pattern. -/
def acceptsCall (p : MemberPattern) (m : MethodRef) : Bool := p.accepts m.member

/-- Whether an accessed field passes the pattern. -/
def acceptsAccess (p : MemberPattern) (f : FieldRef) : Bool := p.accepts f.member

/-- Whether a declared field passes the pattern. -/
def acceptsField (p : MemberPattern) (f : FieldDecl) : Bool := p.accepts f.member

end MemberPattern

end ClassEdit
