import ClassEdit.Edit.Operation
import ClassEdit.Heights

/-!
# Blocks of edits

A block applies its operations one after the other to a copy of a method. Only if all of them
succeed, and the heights of the operand stack in the edited body come out, does the copy take the
place of the method; otherwise the method is left alone. A method whose own body was not sound to
begin with is not held to more than it was.

## Main definitions

* `Block`, `Outcome`: operations to be applied together, and what they did.
* `Block.run`: the edited method, or the refusal.
* `Block.events`: what is written down about a committed block.
-/

namespace ClassEdit

/-- Operations that are applied together. -/
structure Block where
  operations : List Operation
  /-- Whether the stack maps of the class have to be computed anew. -/
  computeFrames : Bool

/-- What a committed block did. -/
structure Outcome where
  applied : List Applied
  /-- Whether the body or its exception handlers differ from before. -/
  changed : Bool
deriving DecidableEq

/-- The number of local variable slots that an instruction needs. -/
def Instruction.localsNeeded : Instruction → UInt16
  | .localVar opcode index =>
    if opcode = Opcode.lload ∨ opcode = Opcode.dload ∨ opcode = Opcode.lstore ∨
        opcode = Opcode.dstore then index + 2
    else index + 1
  | .iinc index _ => index + 1
  | _ => 0

/-- The number of local variable slots that a body needs. -/
def localsNeeded (code : List Instruction) : UInt16 :=
  code.foldr (fun insn bound => max insn.localsNeeded bound) 0

namespace Block

/-- A block of operations after which the stack maps are computed anew. -/
def ofOperations (operations : List Operation) : Block := ⟨operations, true⟩

/-- Whether the block has nothing to apply. -/
def isEmpty (b : Block) : Bool := b.operations.isEmpty

/-- Applies operations one after the other. -/
def applyAll (owner : ClassDecl) (registration : String) :
    List Operation → MethodDecl → Except EditError (MethodDecl × List Applied)
  | [], m => .ok (m, [])
  | op :: rest, m => do
    let (m, applied) ← op.apply ⟨owner, m, registration⟩
    let (m, others) ← applyAll owner registration rest m
    return (m, applied :: others)

/-- Checks an edited body and adjusts the limits that the method declares. -/
def finalize (before edited : MethodDecl) : Except EditError MethodDecl := do
  let maxStack ←
    match before.heights with
    | .ok _ => do
      let h ← edited.heights
      pure h.maxStack
    | .error _ => pure edited.maxStack
  return { edited with maxStack, maxLocals := max edited.maxLocals (localsNeeded edited.code) }

/-- The edited method and what was done to it, or the refusal. -/
def run (b : Block) (owner : ClassDecl) (m : MethodDecl) (registration : String) :
    Except EditError (MethodDecl × Outcome) := do
  let (edited, applied) ← applyAll owner registration b.operations m
  if edited.code ≠ m.code ∨ edited.handlers ≠ m.handlers then
    let final ← finalize m edited
    return (final, ⟨applied, true⟩)
  else return (m, ⟨applied, false⟩)

/-- The event about one operation of a committed block; an operation that edited nothing is worth a
warning. -/
def event (owner : ClassDecl) (m : MethodDecl) (registration : String) (op : Operation)
    (done : Applied) : Event :=
  let about (e : Event) : Event :=
    ((e.inClass owner.name).inMethod m.signature).causedBy registration
  if done.sites = 0 then
    (about (.ofKind .warning)).saying (op.name ++ " had no effect: " ++ done.detail)
  else
    (about (.ofKind done.kind)).saying
      (done.detail ++ " (" ++ toString done.sites ++ " sites)")

/-- The events about a committed block, one for each operation. -/
def events (b : Block) (owner : ClassDecl) (m : MethodDecl) (registration : String)
    (outcome : Outcome) : List Event :=
  (b.operations.zip outcome.applied).map fun (op, done) => event owner m registration op done

end Block

end ClassEdit
