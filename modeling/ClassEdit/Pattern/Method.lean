import ClassEdit.Pattern.Member

/-!
# Patterns for methods

A method is recognised by its shape, by what its body loads, and by the members its body refers
to.

## Main definitions

* `MethodClause`, `MethodPattern`: clauses about methods and their conjunctions.
-/

namespace ClassEdit

/-- A clause about a method. -/
inductive MethodClause where
  | named (name : String)
  | descriptor (descriptor : String)
  | constructor
  /-- All of the flags are set. -/
  | access (flags : AccessFlags)
  /-- A string loaded by the body passes the comparison. -/
  | hasString (comparison : TextMatch)
  /-- The body pushes the constant. -/
  | hasConstant (constant : Constant)
  /-- The body calls a method that passes the pattern. -/
  | calls (pattern : MemberPattern)
  /-- The body reads or writes a field that passes the pattern. -/
  | references (pattern : MemberPattern)
  /-- An argument, counted from zero without the receiver, has the type. -/
  | argument (index : Nat) (type : TypeDescriptor)
  | argumentCount (count : Nat)
  | returns (type : TypeDescriptor)
  | custom (test : MethodDecl → Bool)

namespace MethodClause

/-- Whether a clause holds of a method. -/
def holds : MethodClause → MethodDecl → Bool
  | .named name, m => m.name == name
  | .descriptor value, m => m.descriptor == value
  | .constructor, m => m.isConstructor
  | .access flags, m => m.access.contains flags
  | .hasString comparison, m => m.strings.any comparison.holds
  | .hasConstant constant, m => m.constants.any fun c => c == constant
  | .calls pattern, m => m.calls.any pattern.acceptsCall
  | .references pattern, m => m.references.any pattern.acceptsAccess
  | .argument index type, m => m.arguments[index]? == some type
  | .argumentCount count, m => m.arguments.length == count
  | .returns type, m => m.result == type
  | .custom test, m => test m

/-- A word in hexadecimal digits, four at least. -/
def hexWord (n : Nat) : String :=
  let digits := Nat.toDigits 16 n
  String.ofList (['0', 'x'] ++ List.replicate (4 - digits.length) '0' ++ digits)

/-- A clause in words. -/
def text : MethodClause → String
  | .named name => "named " ++ name
  | .descriptor value => "described by " ++ value
  | .constructor => "constructor"
  | .access flags => "access " ++ hexWord flags.bits.toNat
  | .hasString comparison => "strings has " ++ comparison.text
  | .hasConstant constant => "constants has " ++ constant.text
  | .calls pattern => "calls (" ++ pattern.text ++ ")"
  | .references pattern => "references (" ++ pattern.text ++ ")"
  | .argument index type => "arguments[" ++ toString index ++ "] = " ++ type.text
  | .argumentCount count => toString count ++ " arguments"
  | .returns type => "returns " ++ type.text
  | .custom _ => "custom"

instance : Clause MethodClause MethodDecl := ⟨holds, text, "any method"⟩

/-- The body loads exactly this string. -/
def loads (value : String) : MethodClause := .hasString (.exact value)

/-- The body loads a string that contains this text. -/
def loadsPart (fragment : String) : MethodClause := .hasString (.partially fragment)

end MethodClause

/-- A conjunction of clauses about methods. -/
abbrev MethodPattern := Pattern MethodClause

end ClassEdit
