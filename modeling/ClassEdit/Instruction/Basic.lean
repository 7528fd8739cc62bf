import ClassEdit.Constant
import ClassEdit.Opcode

/-!
# Instructions

A method body is a list of instructions in symbolic form: a branch names a label, a constant is
carried as a value, and a member reference holds owner, name and descriptor. Labels and line
numbers stand in the list as markers and are not executed.

## Main definitions

* `Label`, `FieldRef`, `MethodRef`: what instructions refer to.
* `Instruction`: one element of a body.
* `Instruction.opcode?`, `Instruction.targets`, `Instruction.constant?`: what an instruction is,
  where it may branch, and the constant that it pushes.
* `Instruction.load`: the shortest instruction that pushes a constant.
* `Instruction.text`: the form used in messages.
-/

namespace ClassEdit

namespace TypeDescriptor

/-- The operation that returns a value of the type. -/
def returnOpcode : TypeDescriptor → Opcode
  | .void => Opcode.vreturn
  | .boolean | .byte | .char | .short | .int => Opcode.ireturn
  | .long => Opcode.lreturn
  | .float => Opcode.freturn
  | .double => Opcode.dreturn
  | .object _ | .array _ => Opcode.areturn

/-- The operation that loads a local variable of the type. -/
def loadOpcode : TypeDescriptor → Opcode
  | .long => Opcode.lload
  | .float => Opcode.fload
  | .double => Opcode.dload
  | .object _ | .array _ => Opcode.aload
  | _ => Opcode.iload

/-- The operation that stores into a local variable of the type. -/
def storeOpcode : TypeDescriptor → Opcode
  | .long => Opcode.lstore
  | .float => Opcode.fstore
  | .double => Opcode.dstore
  | .object _ | .array _ => Opcode.astore
  | _ => Opcode.istore

end TypeDescriptor

/-- A symbolic branch target. Its number has to be unique within one method only. -/
structure Label where
  number : UInt32
deriving DecidableEq

namespace Label

/-- The form used in messages. -/
def text (l : Label) : String := "L" ++ toString l.number

instance : ToString Label := ⟨text⟩

/-- The label whose number lies `offset` higher, counted in 32 bits. -/
def shift (offset : UInt32) (l : Label) : Label := ⟨l.number + offset⟩

@[simp] theorem shift_zero (l : Label) : l.shift 0 = l := by simp [shift]

theorem shift_injective {offset : UInt32} {a b : Label} (h : a.shift offset = b.shift offset) :
    a = b := by
  cases a
  cases b
  simpa [shift] using h

end Label

/-- A reference to a field by an instruction that reads or writes it. -/
structure FieldRef where
  opcode : Opcode
  owner : String
  name : String
  descriptor : String
deriving DecidableEq

namespace FieldRef

/-- Whether the field belongs to the class rather than to an instance. -/
def isStatic (f : FieldRef) : Bool := f.opcode == Opcode.getstatic || f.opcode == Opcode.putstatic

/-- Whether the field is read. -/
def isRead (f : FieldRef) : Bool := f.opcode == Opcode.getfield || f.opcode == Opcode.getstatic

end FieldRef

/-- A reference to a method by an instruction that calls it. -/
structure MethodRef where
  opcode : Opcode
  owner : String
  name : String
  descriptor : String
  /-- Whether the owner is an interface. -/
  interface : Bool
deriving DecidableEq

/-- The name under which constructors are declared. -/
def constructorName : String := "<init>"

namespace MethodRef

/-- The reference whose operation tells whether the owner is an interface. -/
def of (opcode : Opcode) (owner name descriptor : String) : MethodRef :=
  ⟨opcode, owner, name, descriptor, opcode == Opcode.invokeinterface⟩

/-- Whether a constructor is called. -/
def isConstructor (m : MethodRef) : Bool := m.name == constructorName

/-- Whether the call has no receiver. -/
def isStatic (m : MethodRef) : Bool := m.opcode == Opcode.invokestatic

/-- The form used in messages. -/
def text (m : MethodRef) : String := m.owner ++ "." ++ m.name ++ m.descriptor

instance : ToString MethodRef := ⟨text⟩

end MethodRef

/-- One element of a method body. -/
inductive Instruction where
  /-- An operation without operands. -/
  | simple (opcode : Opcode)
  /-- An operation with a number in the instruction. -/
  | immediate (opcode : Opcode) (operand : Int32)
  /-- A load or store of a local variable. -/
  | localVar (opcode : Opcode) (index : UInt16)
  /-- An operation on a class or array type. -/
  | typed (opcode : Opcode) (descriptor : String)
  | field (reference : FieldRef)
  | invoke (reference : MethodRef)
  | invokeDynamic (name : String) (descriptor : String)
  | jump (opcode : Opcode) (target : Label)
  /-- The place of a label. -/
  | label (label : Label)
  /-- A load from the constant pool. -/
  | ldc (constant : Constant)
  | iinc (index : UInt16) (delta : Int16)
  | tableSwitch (min max : Int32) (otherwise : Label) (targets : List Label)
  | lookupSwitch (otherwise : Label) (keys : List Int32) (targets : List Label)
  | multiNewArray (descriptor : String) (dimensions : UInt8)
  /-- The source line of the instructions after a label. -/
  | line (number : UInt16) (start : Label)
deriving DecidableEq

namespace Instruction

/-- A call of an instance method. -/
def invokeVirtual (owner name descriptor : String) : Instruction :=
  .invoke (.of Opcode.invokevirtual owner name descriptor)

/-- A call of a static method. -/
def invokeStatic (owner name descriptor : String) : Instruction :=
  .invoke (.of Opcode.invokestatic owner name descriptor)

/-- A call through an interface. -/
def invokeInterface (owner name descriptor : String) : Instruction :=
  .invoke (.of Opcode.invokeinterface owner name descriptor)

/-- The operation of an instruction; markers have none. -/
def opcode? : Instruction → Option Opcode
  | .simple opcode | .immediate opcode _ | .localVar opcode _ | .typed opcode _
  | .jump opcode _ => some opcode
  | .field reference => some reference.opcode
  | .invoke reference => some reference.opcode
  | .invokeDynamic _ _ => some Opcode.invokedynamic
  | .ldc _ => some Opcode.ldc
  | .iinc _ _ => some Opcode.iinc
  | .tableSwitch _ _ _ _ => some Opcode.tableswitch
  | .lookupSwitch _ _ _ => some Opcode.lookupswitch
  | .multiNewArray _ _ => some Opcode.multianewarray
  | .label _ | .line _ _ => none

/-- Whether the instruction is a marker. -/
def isMarker : Instruction → Bool
  | .label _ | .line _ _ => true
  | _ => false

/-- Whether the instruction returns from the method. -/
def isReturn : Instruction → Bool
  | .simple opcode => opcode.isReturn
  | _ => false

/-- The labels that the instruction may branch to, the fall-back of a switch first. -/
def targets : Instruction → List Label
  | .jump _ target => [target]
  | .tableSwitch _ _ otherwise targets => otherwise :: targets
  | .lookupSwitch otherwise _ targets => otherwise :: targets
  | _ => []

/-- The label that the instruction places. -/
def placed? : Instruction → Option Label
  | .label l => some l
  | _ => none

/-- Every label that the instruction mentions. -/
def labels : Instruction → List Label
  | .label l | .line _ l => [l]
  | insn => insn.targets

/-- The method that the instruction calls. -/
def call? : Instruction → Option MethodRef
  | .invoke reference => some reference
  | _ => none

/-- The field that the instruction reads or writes. -/
def field? : Instruction → Option FieldRef
  | .field reference => some reference
  | _ => none

/-- The string that the instruction loads from the constant pool. -/
def string? : Instruction → Option String
  | .ldc (.string value) => some value
  | _ => none

/-- The constant that an operation without operands pushes. The null reference is no constant. -/
def simpleConstant? (opcode : Opcode) : Option Constant :=
  if Opcode.iconstM1 ≤ opcode ∧ opcode ≤ Opcode.iconst5 then
    some (.int (Int32.ofInt ((opcode : Int) - 3)))
  else if opcode = Opcode.lconst0 then some (.long 0)
  else if opcode = Opcode.lconst1 then some (.long 1)
  else if opcode = Opcode.fconst0 then some (.float 0)
  else if opcode = Opcode.fconst1 then some (.float 0x3f800000)
  else if opcode = Opcode.fconst2 then some (.float 0x40000000)
  else if opcode = Opcode.dconst0 then some (.double 0)
  else if opcode = Opcode.dconst1 then some (.double 0x3ff0000000000000)
  else none

/-- The constant that the instruction pushes, whichever form it has. -/
def constant? : Instruction → Option Constant
  | .simple opcode => simpleConstant? opcode
  | .immediate opcode operand =>
    if opcode = Opcode.bipush ∨ opcode = Opcode.sipush then some (.int operand) else none
  | .ldc constant => some constant
  | _ => none

/-- The shortest instruction that pushes an integer. -/
def loadInt (value : Int32) : Instruction :=
  let v := value.toInt
  if -1 ≤ v ∧ v ≤ 5 then .simple (v + 3).toNat
  else if -128 ≤ v ∧ v ≤ 127 then .immediate Opcode.bipush value
  else if -32768 ≤ v ∧ v ≤ 32767 then .immediate Opcode.sipush value
  else .ldc (.int value)

/-- The shortest instruction that pushes a constant. -/
def load : Constant → Instruction
  | .int value => loadInt value
  | .long value =>
    if value = 0 then .simple Opcode.lconst0
    else if value = 1 then .simple Opcode.lconst1
    else .ldc (.long value)
  | .float bits =>
    if bits = 0 then .simple Opcode.fconst0
    else if bits = 0x3f800000 then .simple Opcode.fconst1
    else if bits = 0x40000000 then .simple Opcode.fconst2
    else .ldc (.float bits)
  | .double bits =>
    if bits = 0 then .simple Opcode.dconst0
    else if bits = 0x3ff0000000000000 then .simple Opcode.dconst1
    else .ldc (.double bits)
  | .string value => .ldc (.string value)
  | .classLiteral name => .ldc (.classLiteral name)

/-- The form used in messages. -/
def text : Instruction → String
  | .simple opcode => opcode.mnemonic
  | .immediate opcode operand => opcode.mnemonic ++ " " ++ toString operand.toInt
  | .localVar opcode index => opcode.mnemonic ++ " " ++ toString index
  | .typed opcode descriptor => opcode.mnemonic ++ " " ++ descriptor
  | .field f => f.opcode.mnemonic ++ " " ++ f.owner ++ "." ++ f.name ++ ":" ++ f.descriptor
  | .invoke reference => reference.opcode.mnemonic ++ " " ++ reference.text
  | .invokeDynamic name descriptor => "invokedynamic " ++ name ++ descriptor
  | .jump opcode target => opcode.mnemonic ++ " " ++ target.text
  | .label l => l.text ++ ":"
  | .ldc constant => "ldc " ++ constant.text
  | .iinc index delta => "iinc " ++ toString index ++ " " ++ toString delta.toInt
  | .tableSwitch min max _ _ =>
    "tableswitch " ++ toString min.toInt ++ ".." ++ toString max.toInt
  | .lookupSwitch _ keys _ => "lookupswitch (" ++ toString keys.length ++ " keys)"
  | .multiNewArray descriptor dimensions =>
    "multianewarray " ++ descriptor ++ " " ++ toString dimensions
  | .line number start => "line " ++ toString number ++ " " ++ start.text

instance : ToString Instruction := ⟨text⟩

end Instruction

end ClassEdit
