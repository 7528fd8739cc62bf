import ClassEdit.Instruction.Effect

/-!
# Declarations of classes, fields and methods

What is kept of a class file: its name, its place in the hierarchy, its fields and methods with
their bodies, and the constants of its pool. Reading and writing the binary form is left to the
program that hands classes over.

## Main definitions

* `AccessFlags`: the access word of a declaration.
* `FieldDecl`, `MethodDecl`, `ClassDecl`: the declarations.
* `FieldDecl.ofDescriptor`, `MethodDecl.ofDescriptor`: declarations whose types are read off their
  descriptors.
* `FieldDecl.getter`, `FieldDecl.setter`: the references that read and write a field.
* `MethodDecl.constants`, `MethodDecl.strings`, `MethodDecl.calls`, `MethodDecl.references`: what a
  body contains.
-/

namespace ClassEdit

/-- The access word of a declaration. -/
structure AccessFlags where
  bits : UInt16
deriving DecidableEq

namespace AccessFlags

/-- No flag set. -/
def none : AccessFlags := ⟨0⟩

def accPublic : AccessFlags := ⟨0x0001⟩
def accPrivate : AccessFlags := ⟨0x0002⟩
def accStatic : AccessFlags := ⟨0x0008⟩
def accFinal : AccessFlags := ⟨0x0010⟩
def accSuper : AccessFlags := ⟨0x0020⟩
def accInterface : AccessFlags := ⟨0x0200⟩
def accEnum : AccessFlags := ⟨0x4000⟩

/-- The flags set in either word. -/
def union (a b : AccessFlags) : AccessFlags := ⟨a.bits ||| b.bits⟩

/-- Whether all flags of the second word are set in the first. -/
def contains (a b : AccessFlags) : Bool := a.bits &&& b.bits == b.bits

end AccessFlags

/-- A field declared by a class. -/
structure FieldDecl where
  owner : String
  name : String
  descriptor : String
  access : AccessFlags
  type : TypeDescriptor
deriving DecidableEq

namespace FieldDecl

/-- The field whose type is written in its descriptor. -/
def ofDescriptor (owner name descriptor : String) (access : AccessFlags) :
    Except EditError FieldDecl := do
  let type ← TypeDescriptor.parsed descriptor
  return { owner, name, descriptor, access, type }

/-- Whether the field belongs to the class rather than to an instance. -/
def isStatic (f : FieldDecl) : Bool := f.access.contains .accStatic

/-- The reference that reads the field. -/
def getter (f : FieldDecl) : FieldRef :=
  ⟨if f.isStatic then Opcode.getstatic else Opcode.getfield, f.owner, f.name, f.descriptor⟩

/-- The reference that writes the field. -/
def setter (f : FieldDecl) : FieldRef :=
  ⟨if f.isStatic then Opcode.putstatic else Opcode.putfield, f.owner, f.name, f.descriptor⟩

end FieldDecl

/-- An entry of an exception table: control goes to `handler` when an exception of the given class,
or any, is raised between `start` and `stop`. -/
structure ExceptionHandler where
  start : Label
  stop : Label
  handler : Label
  catches : Option String
deriving DecidableEq

/-- A method declared by a class. -/
structure MethodDecl where
  name : String
  descriptor : String
  access : AccessFlags
  arguments : List TypeDescriptor
  result : TypeDescriptor
  code : List Instruction
  handlers : List ExceptionHandler
  /-- The declared limit of the height of the operand stack. -/
  maxStack : UInt16
  /-- The declared number of local variable slots. -/
  maxLocals : UInt16
deriving DecidableEq

namespace MethodDecl

/-- The method whose types are written in its descriptor. Its local variables hold the receiver,
unless it is static, and the arguments. -/
def ofDescriptor (name descriptor : String) (access : AccessFlags) (code : List Instruction) :
    Except EditError MethodDecl := do
  let d ← MethodDescriptor.parsed descriptor
  let receiver := if access.contains .accStatic then 0 else 1
  return {
    name, descriptor, access, code
    arguments := d.arguments
    result := d.result
    handlers := []
    maxStack := 0
    maxLocals := receiver + d.argumentSlots }

/-- Whether the method is a constructor. -/
def isConstructor (m : MethodDecl) : Bool := m.name == constructorName

/-- Whether the method has no receiver. -/
def isStatic (m : MethodDecl) : Bool := m.access.contains .accStatic

/-- Name and descriptor, which tell the methods of a class apart. -/
def signature (m : MethodDecl) : String := m.name ++ m.descriptor

/-- The constants pushed by the body, in order. -/
def constants (m : MethodDecl) : List Constant := m.code.filterMap Instruction.constant?

/-- The strings loaded by the body, in order. -/
def strings (m : MethodDecl) : List String := m.code.filterMap Instruction.string?

/-- The methods called by the body, in order. -/
def calls (m : MethodDecl) : List MethodRef := m.code.filterMap Instruction.call?

/-- The fields read or written by the body, in order. -/
def references (m : MethodDecl) : List FieldRef := m.code.filterMap Instruction.field?

end MethodDecl

/-- A class. -/
structure ClassDecl where
  name : String
  superName : Option String
  interfaces : List String
  access : AccessFlags
  fields : List FieldDecl
  methods : List MethodDecl
  pool : List Constant
deriving DecidableEq

namespace ClassDecl

/-- Whether the class is an enumeration, by its flag or by its superclass. -/
def isEnum (c : ClassDecl) : Bool :=
  c.access.contains .accEnum || c.superName == some "java/lang/Enum"

/-- Whether the class is an interface. -/
def isInterface (c : ClassDecl) : Bool := c.access.contains .accInterface

/-- The strings of the constant pool, in order. -/
def strings (c : ClassDecl) : List String := c.pool.filterMap Constant.string?

/-- The first method of a name. -/
def method? (c : ClassDecl) (name : String) : Option MethodDecl :=
  c.methods.find? fun m => m.name == name

/-- The first field with a descriptor. -/
def fieldOfType? (c : ClassDecl) (descriptor : String) : Option FieldDecl :=
  c.fields.find? fun f => f.descriptor == descriptor

/-- The class with one method exchanged. -/
def setMethod (c : ClassDecl) (index : Nat) (m : MethodDecl) : ClassDecl :=
  { c with methods := c.methods.set index m }

end ClassDecl

end ClassEdit
