import ClassEdit.Instruction.Basic

/-!
# Searching through a body

An edit seldom changes the instruction that it can recognise. It finds something recognisable, a
string or a call, and looks from there for the instruction it needs. A cursor stands on an
instruction, or before or behind all of them, and moves to what a search finds; a search that finds
nothing leaves it where it stands.

## Main definitions

* `Cursor`, `Cursor.start`, `Cursor.startAt`: a body with a position in it.
* `Cursor.next`, `Cursor.previous`: the nearest instruction after or before the position that
  satisfies a condition, together with the moved cursor.
* `Cursor.findConstant`, `Cursor.findString`, `Cursor.findCall`, `Cursor.findField`: searches for
  particular instructions.
-/

namespace ClassEdit

/-- A body with a position. Without a position the cursor has not been moved yet: it stands before
the first instruction for a search forwards and behind the last one for a search backwards. -/
structure Cursor where
  code : List Instruction
  position : Option Nat
deriving DecidableEq

namespace Cursor

/-- A cursor that has not been moved yet. -/
def start (code : List Instruction) : Cursor := ⟨code, none⟩

/-- A cursor at an index, which is cut down to the length of the body. -/
def startAt (code : List Instruction) (index : Nat) : Cursor :=
  ⟨code, some (min index code.length)⟩

/-- The instruction at the position. -/
def current? (c : Cursor) : Option Instruction := c.position.bind fun index => c.code[index]?

/-- The constant pushed by the instruction at the position. -/
def constant? (c : Cursor) : Option Constant := c.current?.bind Instruction.constant?

/-- An instruction and its index. -/
abbrev Found := Nat × Instruction

/-- The first instruction satisfying a condition in a stretch of code that starts at an index. -/
def firstFrom (condition : Instruction → Bool) (index : Nat) : List Instruction → Option Found
  | [] => none
  | insn :: rest =>
    if condition insn then some (index, insn) else firstFrom condition (index + 1) rest

/-- The last instruction satisfying a condition in a stretch of code that starts at an index. -/
def lastFrom (condition : Instruction → Bool) (index : Nat) : List Instruction → Option Found
  | [] => none
  | insn :: rest =>
    match lastFrom condition (index + 1) rest with
    | some found => some found
    | none => if condition insn then some (index, insn) else none

/-- The index at which a search forwards starts. -/
def ahead (c : Cursor) : Nat :=
  match c.position with
  | some index => index + 1
  | none => 0

/-- The index before which a search backwards starts. -/
def behind (c : Cursor) : Nat := c.position.getD c.code.length

/-- The cursor after a search. -/
def moved (c : Cursor) : Option Found → Cursor
  | some (index, _) => { c with position := some index }
  | none => c

/-- The nearest instruction after the position that satisfies a condition. -/
def next (condition : Instruction → Bool) (c : Cursor) : Option Found × Cursor :=
  let found := firstFrom condition c.ahead (c.code.drop c.ahead)
  (found, c.moved found)

/-- The nearest instruction before the position that satisfies a condition. -/
def previous (condition : Instruction → Bool) (c : Cursor) : Option Found × Cursor :=
  let found := lastFrom condition 0 (c.code.take c.behind)
  (found, c.moved found)

/-- The next instruction that is not a marker. -/
def nextInstruction (c : Cursor) : Option Found × Cursor := c.next fun insn => !insn.isMarker

/-- The previous instruction that is not a marker. -/
def previousInstruction (c : Cursor) : Option Found × Cursor :=
  c.previous fun insn => !insn.isMarker

/-- The next instruction that pushes a constant, whichever form it has. -/
def findConstant (constant : Constant) (c : Cursor) : Option Found × Cursor :=
  c.next fun insn => insn.constant? == some constant

/-- The next load of a string from the constant pool. -/
def findString (value : String) (c : Cursor) : Option Found × Cursor :=
  c.next fun insn => insn.string? == some value

/-- The next call of a method satisfying a condition. -/
def findCall (condition : MethodRef → Bool) (c : Cursor) : Option Found × Cursor :=
  c.next fun insn => insn.call?.any condition

/-- The next access to a field satisfying a condition. -/
def findField (condition : FieldRef → Bool) (c : Cursor) : Option Found × Cursor :=
  c.next fun insn => insn.field?.any condition

end Cursor

end ClassEdit
