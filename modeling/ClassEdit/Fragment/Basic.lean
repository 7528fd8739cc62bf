import ClassEdit.Instruction.Effect

/-!
# Fragments

A fragment is a short piece of code that an edit splices into a body. Its author declares by how
much it changes the height of the operand stack, and the declaration is compared with the effect of
the code before it is spliced. A fragment that was assembled knows the height at which control
leaves it, whatever branches it contains; for a plain list of instructions the effect is added up,
which is possible only without branches.

## Main definitions

* `Fragment`, `Fragment.ofCode`: fragments.
* `Fragment.netEffect`: the effect of a fragment.
* `Fragment.relabeled`: the code with all labels moved into another range.
-/

namespace ClassEdit

/-- A piece of code to be spliced into a body. -/
structure Fragment where
  code : List Instruction
  /-- The declared change of the height of the operand stack. -/
  delta : Int
  /-- The largest height inside an assembled fragment. -/
  maxStack : UInt16
  /-- The height at which control leaves an assembled fragment. -/
  exitHeight : Option Int
deriving DecidableEq

namespace Instruction

/-- The instruction with all labels that it mentions moved. -/
def relabeled (offset : UInt32) : Instruction → Instruction
  | .label l => .label (l.shift offset)
  | .jump opcode target => .jump opcode (target.shift offset)
  | .tableSwitch min max otherwise targets =>
    .tableSwitch min max (otherwise.shift offset) (targets.map (Label.shift offset))
  | .lookupSwitch otherwise keys targets =>
    .lookupSwitch (otherwise.shift offset) keys (targets.map (Label.shift offset))
  | .line number start => .line number (start.shift offset)
  | insn => insn

end Instruction

namespace Fragment

/-- A plain list of instructions that is declared to keep the height. -/
def ofCode (code : List Instruction) : Fragment := ⟨code, 0, 0, none⟩

/-- The fragment with another declared change of height. -/
def withDelta (f : Fragment) (delta : Int) : Fragment := { f with delta }

/-- Whether the fragment has no code. -/
def isEmpty (f : Fragment) : Bool := f.code.isEmpty

/-- The change of the height of the stack. The effects of the instructions of a plain list are added
up in 32 bits. -/
def netEffect (f : Fragment) : Except EditError Int :=
  match f.exitHeight with
  | some height => .ok height
  | none =>
    if f.code.any fun insn => !insn.targets.isEmpty then .error (.malformed .branchesUnfollowed)
    else (ClassEdit.netEffect f.code).map fun sum => sum.bmod 4294967296

/-- The code with all labels moved. -/
def relabeled (f : Fragment) (offset : UInt32) : List Instruction :=
  f.code.map (Instruction.relabeled offset)

end Fragment

end ClassEdit
