import ClassEdit.Fragment.Basic

/-!
# Assembling fragments

An assembler appends instructions one by one and follows the height of the operand stack while it
does. Heights are counted from the point where the fragment is spliced in, so they are negative
where the fragment consumes what the body has pushed; how much it may consume is given. At every
label the height of the first arrival is recorded, and later arrivals have to agree with it.

After an instruction that never goes on, the assembler is in dead code until a label is marked to
which a jump is known, or until the next instruction that goes on is appended.

Assembling can fail, and what had been changed before the failure stays changed.

## Main definitions

* `Assembly`: the state of an assembler.
* `Assembly.mark`, `Assembly.emit`, `Assembly.build`: its operations.
* `Assembler`: programs made of these operations.
-/

namespace ClassEdit

/-- The state of an assembler. -/
structure Assembly where
  code : List Instruction
  /-- The number of slots below the fragment that it may consume. -/
  available : Nat
  height : Int
  highest : Int
  /-- The declared change of height. -/
  delta : Int
  /-- The height with which each label was reached first. -/
  labelHeights : List (Label × Int)
  /-- The labels that were marked. -/
  placed : List Label
  nextLabel : UInt32
  /-- Whether the end of the code cannot be reached from the instruction before it. -/
  dead : Bool
deriving DecidableEq

namespace Assembly

/-- An assembler that has appended nothing. -/
def start (available : Nat) : Assembly :=
  { code := [], available, height := 0, highest := 0, delta := 0
    labelHeights := [], placed := [], nextLabel := 0, dead := false }

/-- Declares the change of height. -/
def declare (a : Assembly) (delta : Int) : Assembly := { a with delta }

/-- A label that was not handed out before. -/
def newLabel (a : Assembly) : Label × Assembly :=
  (⟨a.nextLabel⟩, { a with nextLabel := a.nextLabel + 1 })

/-- The height recorded for a label. -/
def heightAt? (a : Assembly) (label : Label) : Option Int := a.labelHeights.lookup label

/-- Records an arrival at a label with the present height. -/
def record (a : Assembly) (label : Label) : Except EditError Assembly :=
  match a.heightAt? label with
  | some known =>
    if known = a.height then .ok a
    else .error (.imbalance "fragment" (.labelHeights label known a.height))
  | none => .ok { a with labelHeights := a.labelHeights ++ [(label, a.height)] }

/-- Records arrivals at several labels, up to the first that disagrees. -/
def recordAll (a : Assembly) : List Label → Except EditError Unit × Assembly
  | [] => (.ok (), a)
  | label :: rest =>
    match a.record label with
    | .ok next => next.recordAll rest
    | .error e => (.error e, a)

/-- Places a label. In dead code the height recorded by the jumps to it is taken up, if one is. -/
def mark (a : Assembly) (label : Label) : Except EditError Unit × Assembly :=
  if label ∈ a.placed then (.error (.malformed (.placedTwice label)), a)
  else
    let a := { a with placed := a.placed ++ [label] }
    let arrived :=
      if a.dead then
        match a.heightAt? label with
        | some height => .ok { a with height, dead := false }
        | none => .ok a
      else a.record label
    match arrived with
    | .error e => (.error e, a)
    | .ok a => (.ok (), { a with code := a.code ++ [.label label] })

/-- Whether the next instruction is never reached from one of this flow. -/
def endsPath : Flow → Bool
  | .unconditional | .switch | .exit | .throwing => true
  | _ => false

/-- Follows the effect of an instruction on the height, outside dead code. -/
def follow (a : Assembly) (insn : Instruction) (effect : StackEffect) :
    Except EditError Unit × Assembly :=
  let a := { a with height := a.height - effect.pops.toNat }
  if a.height < -a.available then
    (.error (.imbalance "fragment" (.fragmentUnderflow insn a.available)), a)
  else
    let height := a.height + effect.pushes.toNat
    { a with height, highest := max a.highest height }.recordAll insn.targets

/-- Appends an instruction. -/
def emit (a : Assembly) (insn : Instruction) : Except EditError Unit × Assembly :=
  match insn.effect with
  | .error e => (.error e, a)
  | .ok effect =>
    match if a.dead then (.ok (), a) else a.follow insn effect with
    | (.error e, a) => (.error e, a)
    | (.ok (), a) =>
      (.ok (), { a with dead := endsPath insn.flow, code := a.code ++ [insn] })

/-- The largest height that a fragment may have. -/
def heightLimit : Int := 65535

/-- The labels that were reached but not placed, in the order in which they were reached. -/
def unplaced (a : Assembly) : List Label :=
  (a.labelHeights.map Prod.fst).filter fun label => label ∉ a.placed

/-- Completes the fragment. All labels that were reached have to be placed. A fragment whose end is
not reached never continues behind the splice point, so it is taken at its word. The code is handed
over and the assembler goes on with none. -/
def build (a : Assembly) : Except EditError Fragment × Assembly :=
  match a.unplaced with
  | label :: others => (.error (.malformed (.neverPlaced label others)), a)
  | [] =>
    let rest := { a with code := [] }
    if heightLimit < a.highest then (.error (.malformed .fragmentTooHigh), rest)
    else
      (.ok {
        code := a.code
        delta := a.delta
        maxStack := .ofNat a.highest.toNat
        exitHeight := some (if a.dead then a.delta else a.height) }, rest)

end Assembly

/-- A program that appends to a fragment and may fail. -/
abbrev Assembler := ExceptT EditError (StateM Assembly)

namespace Assembler

/-- Appends an instruction. -/
def emit (insn : Instruction) : Assembler Unit := fun a => a.emit insn

/-- Places a label. -/
def mark (label : Label) : Assembler Unit := fun a => a.mark label

/-- A label that was not handed out before. -/
def newLabel : Assembler Label := fun a => (.ok a.newLabel.1, a.newLabel.2)

/-- Declares the change of height. -/
def declare (delta : Int) : Assembler Unit := fun a => (.ok (), a.declare delta)

/-- Appends an operation without operands. -/
def simple (opcode : Opcode) : Assembler Unit := emit (.simple opcode)

/-- Loads the receiver. -/
def loadThis : Assembler Unit := emit (.localVar Opcode.aload 0)

/-- Loads a constant in the shortest way. -/
def constant (c : Constant) : Assembler Unit := emit (.load c)

/-- Accesses a field. -/
def field (reference : FieldRef) : Assembler Unit := emit (.field reference)

/-- Reads a field of the object on top of the stack. -/
def getField (owner name descriptor : String) : Assembler Unit :=
  field ⟨Opcode.getfield, owner, name, descriptor⟩

/-- Reads a static field. -/
def getStatic (owner name descriptor : String) : Assembler Unit :=
  field ⟨Opcode.getstatic, owner, name, descriptor⟩

/-- Calls a method. -/
def invoke (reference : MethodRef) : Assembler Unit := emit (.invoke reference)

/-- Calls an instance method. -/
def invokeVirtual (owner name descriptor : String) : Assembler Unit :=
  emit (.invokeVirtual owner name descriptor)

/-- Calls a static method. -/
def invokeStatic (owner name descriptor : String) : Assembler Unit :=
  emit (.invokeStatic owner name descriptor)

/-- Calls a method through an interface. -/
def invokeInterface (owner name descriptor : String) : Assembler Unit :=
  emit (.invokeInterface owner name descriptor)

/-- Loads a local variable of a type. -/
def loadVar (type : TypeDescriptor) (index : UInt16) : Assembler Unit :=
  emit (.localVar type.loadOpcode index)

/-- Stores into a local variable of a type. -/
def storeVar (type : TypeDescriptor) (index : UInt16) : Assembler Unit :=
  emit (.localVar type.storeOpcode index)

/-- Discards a value of a type. -/
def discard (type : TypeDescriptor) : Assembler Unit :=
  match type.slots with
  | 0 => pure ()
  | 2 => simple Opcode.pop2
  | _ => simple Opcode.pop

/-- Checks that the object on top of the stack belongs to a class. -/
def cast (name : String) : Assembler Unit := emit (.typed Opcode.checkcast name)

/-- Branches. -/
def jump (opcode : Opcode) (target : Label) : Assembler Unit := emit (.jump opcode target)

/-- Returns a value of a type. -/
def returnValue (type : TypeDescriptor) : Assembler Unit := simple type.returnOpcode

/-- The fragment that a program assembles, consuming at most `available` slots. -/
def assemble (program : Assembler Unit) (available : Nat) : Except EditError Fragment :=
  match program.run (Assembly.start available) with
  | (.error e, _) => .error e
  | (.ok (), a) => a.build.1

end Assembler

end ClassEdit
