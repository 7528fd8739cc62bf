import ClassEdit.Error

/-!
# What instructions do to control flow and to the operand stack

The height of the operand stack is counted in slots. How an instruction changes it follows from
the operation, and for member references from the descriptor. Control goes on, branches or ends
according to the operation.

## Main definitions

* `Flow`, `Instruction.flow`: where control goes after an instruction.
* `StackEffect`, `Instruction.effect`: slots popped and pushed, or why the instruction has no
  meaning.
* `netEffect`: the change of height over code without branches.
-/

namespace ClassEdit

/-- Where control goes after an instruction. -/
inductive Flow where
  /-- To the next instruction. -/
  | sequential
  /-- To the target or to the next instruction. -/
  | conditional
  /-- To the target. -/
  | unconditional
  /-- Through a call to the next instruction. -/
  | call
  /-- Out of the method. -/
  | exit
  /-- To one of several targets. -/
  | switch
  /-- To a handler or out of the method. -/
  | throwing
  /-- Into or out of a subroutine within the method, which is not supported. -/
  | subroutine
  /-- Nowhere: a marker is passed over. -/
  | marker
deriving DecidableEq

/-- Whether the next instruction may be executed after one of this kind. -/
def Flow.fallsThrough : Flow → Bool
  | .sequential | .call | .marker | .conditional => true
  | _ => false

/-- The slots that an instruction pops and then pushes. -/
structure StackEffect where
  pops : UInt16
  pushes : UInt16
deriving DecidableEq

/-- The change of the height of the stack. -/
def StackEffect.net (e : StackEffect) : Int := e.pushes.toNat - e.pops.toNat

namespace Instruction

/-- Where control goes after the instruction. -/
def flow : Instruction → Flow
  | .label _ | .line _ _ => .marker
  | .simple opcode =>
    if opcode.isReturn then .exit
    else if opcode = Opcode.athrow then .throwing
    else .sequential
  | .localVar opcode _ => if opcode = Opcode.ret then .subroutine else .sequential
  | .jump opcode _ =>
    if opcode = Opcode.goto ∨ opcode = Opcode.gotoW then .unconditional
    else if opcode = Opcode.jsr ∨ opcode = Opcode.jsrW then .subroutine
    else .conditional
  | .tableSwitch _ _ _ _ | .lookupSwitch _ _ _ => .switch
  | .invoke _ | .invokeDynamic _ _ => .call
  | _ => .sequential

end Instruction

/-- The effect of the operations without operands, in the order of their codes; operations that
need an operand have none. -/
def simpleEffect? (opcode : Opcode) : Option StackEffect :=
  match opcode with
  | 0 => some ⟨0, 0⟩
  | 1 | 2 | 3 | 4 | 5 | 6 | 7 | 8 => some ⟨0, 1⟩
  | 9 | 10 => some ⟨0, 2⟩
  | 11 | 12 | 13 => some ⟨0, 1⟩
  | 14 | 15 => some ⟨0, 2⟩
  -- loads from arrays
  | 46 | 48 | 50 | 51 | 52 | 53 => some ⟨2, 1⟩
  | 47 | 49 => some ⟨2, 2⟩
  -- stores into arrays
  | 79 | 81 | 83 | 84 | 85 | 86 => some ⟨3, 0⟩
  | 80 | 82 => some ⟨4, 0⟩
  -- rearrangements of the stack
  | 87 => some ⟨1, 0⟩
  | 88 => some ⟨2, 0⟩
  | 89 => some ⟨1, 2⟩
  | 90 => some ⟨2, 3⟩
  | 91 => some ⟨3, 4⟩
  | 92 => some ⟨2, 4⟩
  | 93 => some ⟨3, 5⟩
  | 94 => some ⟨4, 6⟩
  | 95 => some ⟨2, 2⟩
  -- sums, differences, products, quotients and remainders of int, long, float and double
  | 96 | 98 | 100 | 102 | 104 | 106 | 108 | 110 | 112 | 114 => some ⟨2, 1⟩
  | 97 | 99 | 101 | 103 | 105 | 107 | 109 | 111 | 113 | 115 => some ⟨4, 2⟩
  -- negations
  | 116 | 118 => some ⟨1, 1⟩
  | 117 | 119 => some ⟨2, 2⟩
  -- shifts, whose distance is always an int
  | 120 | 122 | 124 => some ⟨2, 1⟩
  | 121 | 123 | 125 => some ⟨3, 2⟩
  -- bitwise operations
  | 126 | 128 | 130 => some ⟨2, 1⟩
  | 127 | 129 | 131 => some ⟨4, 2⟩
  -- conversions
  | 133 | 135 | 140 | 141 => some ⟨1, 2⟩
  | 134 | 139 | 145 | 146 | 147 => some ⟨1, 1⟩
  | 136 | 137 | 142 | 144 => some ⟨2, 1⟩
  | 138 | 143 => some ⟨2, 2⟩
  -- comparisons
  | 148 | 151 | 152 => some ⟨4, 1⟩
  | 149 | 150 => some ⟨2, 1⟩
  -- returns
  | 172 | 174 | 176 => some ⟨1, 0⟩
  | 173 | 175 => some ⟨2, 0⟩
  | 177 => some ⟨0, 0⟩
  -- length of an array, throw, monitors
  | 190 => some ⟨1, 1⟩
  | 191 | 194 | 195 => some ⟨1, 0⟩
  | _ => none

/-- The effect of an operation with a number in the instruction. -/
def immediateEffect? (opcode : Opcode) : Option StackEffect :=
  if opcode = Opcode.bipush ∨ opcode = Opcode.sipush then some ⟨0, 1⟩
  else if opcode = Opcode.newarray then some ⟨1, 1⟩
  else none

/-- The effect of a load or store of a local variable. -/
def localVarEffect? (opcode : Opcode) : Option StackEffect :=
  if opcode = Opcode.iload ∨ opcode = Opcode.fload ∨ opcode = Opcode.aload then some ⟨0, 1⟩
  else if opcode = Opcode.lload ∨ opcode = Opcode.dload then some ⟨0, 2⟩
  else if opcode = Opcode.istore ∨ opcode = Opcode.fstore ∨ opcode = Opcode.astore then
    some ⟨1, 0⟩
  else if opcode = Opcode.lstore ∨ opcode = Opcode.dstore then some ⟨2, 0⟩
  else if opcode = Opcode.ret then some ⟨0, 0⟩
  else none

/-- The effect of an operation on a class or array type. -/
def typedEffect? (opcode : Opcode) : Option StackEffect :=
  if opcode = Opcode.new then some ⟨0, 1⟩
  else if opcode = Opcode.anewarray ∨ opcode = Opcode.checkcast ∨ opcode = Opcode.instanceOf then
    some ⟨1, 1⟩
  else none

/-- The effect of an access to a field whose type takes the given slots. -/
def fieldEffect? (opcode : Opcode) (slots : UInt16) : Option StackEffect :=
  if opcode = Opcode.getstatic then some ⟨0, slots⟩
  else if opcode = Opcode.putstatic then some ⟨slots, 0⟩
  else if opcode = Opcode.getfield then some ⟨1, slots⟩
  else if opcode = Opcode.putfield then some ⟨1 + slots, 0⟩
  else none

/-- The effect of a branch. -/
def jumpEffect? (opcode : Opcode) : Option StackEffect :=
  if (Opcode.ifeq ≤ opcode ∧ opcode ≤ Opcode.ifle) ∨ opcode = Opcode.ifnull ∨
      opcode = Opcode.ifnonnull then some ⟨1, 0⟩
  else if Opcode.ifIcmpeq ≤ opcode ∧ opcode ≤ Opcode.ifAcmpne then some ⟨2, 0⟩
  else if opcode = Opcode.goto ∨ opcode = Opcode.gotoW then some ⟨0, 0⟩
  else if opcode = Opcode.jsr ∨ opcode = Opcode.jsrW then some ⟨0, 1⟩
  else none

/-- The effect of an operation in a form, or the complaint that the form is not its own. -/
def inForm (form : OperandForm) (opcode : Opcode) :
    Option StackEffect → Except EditError StackEffect
  | some e => .ok e
  | none => .error (.malformed (.wrongForm opcode form))

/-- A refusal in other words is a refusal. -/
theorem mapError_eq_ok_iff {ε ε' α : Type} {result : Except ε α} {f : ε → ε'} {a : α} :
    result.mapError f = .ok a ↔ result = .ok a := by
  cases result with
  | ok b =>
    constructor
    · rintro ⟨⟩
      rfl
    · rintro ⟨⟩
      rfl
  | error e => exact iff_of_false nofun nofun

namespace TypeDescriptor

/-- The type written as the whole of a text, or the refusal. -/
def parsed (descriptor : String) : Except EditError TypeDescriptor :=
  (TypeDescriptor.parse descriptor).mapError .descriptor

theorem parsed_eq_ok_iff {s : String} {t : TypeDescriptor} :
    parsed s = .ok t ↔ parse s = .ok t :=
  mapError_eq_ok_iff

end TypeDescriptor

namespace MethodDescriptor

/-- The method descriptor written as the whole of a text, or the refusal. -/
def parsed (descriptor : String) : Except EditError MethodDescriptor :=
  (MethodDescriptor.parse descriptor).mapError .descriptor

theorem parsed_eq_ok_iff {s : String} {d : MethodDescriptor} :
    parsed s = .ok d ↔ parse s = .ok d :=
  mapError_eq_ok_iff

end MethodDescriptor

namespace MethodRef

/-- The slots that a call takes off the stack, the receiver among them. -/
def consumed (m : MethodRef) : Except EditError UInt16 := do
  let d ← MethodDescriptor.parsed m.descriptor
  return d.argumentSlots + (if m.isStatic then 0 else 1)

/-- The slots that a call leaves on the stack. -/
def produced (m : MethodRef) : Except EditError UInt16 := do
  let d ← MethodDescriptor.parsed m.descriptor
  return d.result.slots

end MethodRef

namespace Instruction

/-- The slots that the instruction pops and pushes, or why it has no meaning. -/
def effect : Instruction → Except EditError StackEffect
  | .simple opcode =>
    match simpleEffect? opcode with
    | some e => .ok e
    | none => .error (.malformed (.needsOperand opcode))
  | .immediate opcode _ => inForm .immediate opcode (immediateEffect? opcode)
  | .localVar opcode _ => inForm .localVar opcode (localVarEffect? opcode)
  | .typed opcode _ => inForm .typed opcode (typedEffect? opcode)
  | .field f => do
    let t ← TypeDescriptor.parsed f.descriptor
    inForm .field f.opcode (fieldEffect? f.opcode t.slots)
  | .invoke m => do
    if m.opcode.isInvoke then
      let pops ← m.consumed
      let pushes ← m.produced
      return ⟨pops, pushes⟩
    else throw (.malformed (.wrongForm m.opcode .invoke))
  | .invokeDynamic _ descriptor => do
    let d ← MethodDescriptor.parsed descriptor
    return ⟨d.argumentSlots, d.result.slots⟩
  | .jump opcode _ => inForm .jump opcode (jumpEffect? opcode)
  | .ldc constant => .ok ⟨0, constant.slots⟩
  | .tableSwitch _ _ _ _ | .lookupSwitch _ _ _ => .ok ⟨1, 0⟩
  | .multiNewArray _ dimensions => .ok ⟨dimensions.toUInt16, 1⟩
  | .iinc _ _ | .label _ | .line _ _ => .ok ⟨0, 0⟩

end Instruction

/-- The change of height over a list of instructions executed one after the other. The height may
fall below where it started: code spliced into a body consumes what the body has pushed. -/
def netEffect : List Instruction → Except EditError Int
  | [] => .ok 0
  | insn :: rest => do
    let e ← insn.effect
    let after ← netEffect rest
    return e.net + after

end ClassEdit
