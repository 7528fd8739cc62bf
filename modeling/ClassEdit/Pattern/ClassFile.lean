import ClassEdit.Pattern.Method

/-!
# Patterns for classes

A class is recognised by its place among the packages and in the hierarchy, by its constant pool,
and by the methods and fields that it declares.

## Main definitions

* `ClassClause`, `ClassPattern`: clauses about classes and their conjunctions.
* `ClassClause.host`, `ClassClause.platform`: the two packages that edits are made in.
-/

namespace ClassEdit

/-- The packages of the application that is edited. -/
def hostPackage : String := "com/moonsworth/lunar/"

/-- The packages that the application builds on. -/
def platformPackage : String := "net/minecraft/"

/-- A clause about a class. -/
inductive ClassClause where
  | named (name : String)
  /-- The name starts with a package. -/
  | inPackage (package : String)
  /-- A string of the constant pool passes the comparison. -/
  | hasString (comparison : TextMatch)
  /-- The constant pool holds the constant. -/
  | hasConstant (constant : Constant)
  /-- The superclass or an implemented interface has the name. -/
  | extending (name : String)
  | isEnum
  | isInterface
  /-- A declared method passes the pattern. -/
  | hasMethod (pattern : MethodPattern)
  /-- A declared field passes the pattern. -/
  | hasField (pattern : MemberPattern)
  | custom (test : ClassDecl → Bool)

namespace ClassClause

/-- Whether a clause holds of a class. -/
def holds : ClassClause → ClassDecl → Bool
  | .named name, c => c.name == name
  | .inPackage package, c => package.toList.isPrefixOf c.name.toList
  | .hasString comparison, c => c.strings.any comparison.holds
  | .hasConstant constant, c => c.pool.any fun k => k == constant
  | .extending name, c => c.superName == some name || c.interfaces.any fun i => i == name
  | .isEnum, c => c.isEnum
  | .isInterface, c => c.isInterface
  | .hasMethod pattern, c => c.methods.any pattern.accepts
  | .hasField pattern, c => c.fields.any pattern.acceptsField
  | .custom test, c => test c

/-- A clause in words. -/
def text : ClassClause → String
  | .named name => "named " ++ name
  | .inPackage package => "in " ++ package
  | .hasString comparison => "strings has " ++ comparison.text
  | .hasConstant constant => "constants has " ++ constant.text
  | .extending name => "extends " ++ name
  | .isEnum => "enum"
  | .isInterface => "interface"
  | .hasMethod pattern => "has method (" ++ pattern.text ++ ")"
  | .hasField pattern => "has field (" ++ pattern.text ++ ")"
  | .custom _ => "custom"

instance : Clause ClassClause ClassDecl := ⟨holds, text, "any class"⟩

/-- The class has this dotted or internal name. -/
def ofName (name : String) : ClassClause := .named (internalName name)

/-- The class lies in this package, given with dots or slashes. -/
def within (package : String) : ClassClause := .inPackage (internalName package)

/-- The class belongs to the application. -/
def host : ClassClause := within hostPackage

/-- The class belongs to what the application builds on. -/
def platform : ClassClause := within platformPackage

/-- The constant pool holds exactly this string. -/
def contains (value : String) : ClassClause := .hasString (.exact value)

/-- The constant pool holds a string that contains this text. -/
def containsPart (fragment : String) : ClassClause := .hasString (.partially fragment)

/-- The superclass or an implemented interface has this dotted or internal name. -/
def inherits (name : String) : ClassClause := .extending (internalName name)

end ClassClause

/-- A conjunction of clauses about classes. -/
abbrev ClassPattern := Pattern ClassClause

end ClassEdit
