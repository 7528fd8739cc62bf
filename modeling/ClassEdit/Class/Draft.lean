import ClassEdit.Heights

/-!
# Describing classes by hand

A class can be put together from its parts. What follows from the parts is filled in: the limit of
the operand stack comes from the heights in the body unless it is given, and the constant pool
holds the strings given for it and every constant that a body loads, each once, in the order of
their first occurrence.

## Main definitions

* `MethodDraft`, `MethodDraft.build`: a method before its types are read.
* `ClassDraft`, `ClassDraft.build`: a class before its members are built.
-/

namespace ClassEdit

/-- The elements of a list without repetitions, in the order of their first occurrence. -/
def firstOccurrences {α : Type} [DecidableEq α] : List α → List α
  | [] => []
  | a :: rest => a :: (firstOccurrences rest).filter fun b => b ≠ a

/-- A method before its types are read. -/
structure MethodDraft where
  name : String
  descriptor : String
  access : AccessFlags
  code : List Instruction
  handlers : List ExceptionHandler
  /-- The declared limit of the operand stack, if it is not to be computed. -/
  maxStack : Option UInt16
deriving DecidableEq

/-- The method with its types, whose limit of the operand stack is still to be set. -/
def MethodDraft.typed (d : MethodDraft) : Except EditError MethodDecl := do
  let m ← MethodDecl.ofDescriptor d.name d.descriptor d.access d.code
  return { m with handlers := d.handlers }

/-- The declared method. A body whose heights do not come out is left with the limit zero. -/
def MethodDraft.build (d : MethodDraft) : Except EditError MethodDecl := do
  let m ← d.typed
  let computed :=
    match m.heights with
    | .ok h => h.maxStack
    | .error _ => 0
  return { m with maxStack := d.maxStack.getD computed }

/-- A field before its type is read. -/
structure FieldDraft where
  name : String
  descriptor : String
  access : AccessFlags
deriving DecidableEq

/-- A class before its members are built. -/
structure ClassDraft where
  name : String
  superName : Option String
  interfaces : List String
  access : AccessFlags
  fields : List FieldDraft
  methods : List MethodDraft
  /-- Strings put into the constant pool beside those that a body loads. -/
  strings : List String
deriving DecidableEq

namespace ClassDraft

/-- A public class without members, given by its dotted or internal name. -/
def named (name : String) : ClassDraft :=
  { name := internalName name
    superName := some "java/lang/Object"
    interfaces := []
    access := .union .accPublic .accSuper
    fields := []
    methods := []
    strings := [] }

/-- Makes the class an enumeration. -/
def enumeration (d : ClassDraft) : ClassDraft :=
  { d with
    access := d.access.union (.union .accEnum .accFinal)
    superName := some "java/lang/Enum" }

/-- Sets the superclass. -/
def extending (d : ClassDraft) (superName : String) : ClassDraft :=
  { d with superName := some (internalName superName) }

/-- Adds an interface. -/
def implementing (d : ClassDraft) (interface : String) : ClassDraft :=
  { d with interfaces := d.interfaces ++ [internalName interface] }

/-- Adds access flags. -/
def withAccess (d : ClassDraft) (access : AccessFlags) : ClassDraft :=
  { d with access := d.access.union access }

/-- Adds a field. -/
def withField (d : ClassDraft) (field : FieldDraft) : ClassDraft :=
  { d with fields := d.fields ++ [field] }

/-- Adds a method. -/
def withMethod (d : ClassDraft) (method : MethodDraft) : ClassDraft :=
  { d with methods := d.methods ++ [method] }

/-- Adds a string to the constant pool. -/
def withString (d : ClassDraft) (value : String) : ClassDraft :=
  { d with strings := d.strings ++ [value] }

/-- The constants that a list of methods loads from the pool, in order. -/
def loaded (methods : List MethodDecl) : List Constant :=
  methods.flatMap fun m => m.code.filterMap fun
    | .ldc constant => some constant
    | _ => none

/-- The declared class. The types of fields are read before those of methods. -/
def build (d : ClassDraft) : Except EditError ClassDecl := do
  let fields ← d.fields.mapM fun f => FieldDecl.ofDescriptor d.name f.name f.descriptor f.access
  let methods ← d.methods.mapM MethodDraft.build
  return {
    name := d.name
    superName := d.superName
    interfaces := d.interfaces
    access := d.access
    fields, methods
    pool := firstOccurrences (d.strings.map Constant.string ++ loaded methods) }

end ClassDraft

end ClassEdit
