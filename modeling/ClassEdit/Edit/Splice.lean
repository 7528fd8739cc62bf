import ClassEdit.Fragment.Basic

/-!
# Splicing fragments into a body

A plan says for every instruction of a body what takes its place: the instruction itself, possibly
between fragments, or fragments alone. Each copy of a fragment gets labels of its own, numbered
above all labels that the body mentions and above those of the copies before it.

## Main definitions

* `Replacement`, `Plan`: what takes the place of instructions.
* `freshLabel`: the first number above all labels that a body mentions.
* `Fragment.labelSpan`: how many numbers a copy of a fragment takes up.
* `Plan.weave`: the spliced body.
-/

namespace ClassEdit

/-- What takes the place of an instruction: copies of fragments before and after it, and whether
it stays itself. -/
structure Replacement where
  before : List Fragment
  keeps : Bool
  after : List Fragment
deriving DecidableEq

/-- The instructions of a body, each with what takes its place if that is not the instruction
alone. -/
abbrev Plan := List (Instruction × Option Replacement)

/-- The least number above those of a list of labels. -/
def labelBound (labels : List Label) : UInt32 :=
  labels.foldr (fun label bound => max (label.number + 1) bound) 0

/-- The first number above all labels that a body mentions. -/
def freshLabel (code : List Instruction) : UInt32 := labelBound (code.flatMap Instruction.labels)

/-- How many label numbers a copy of a fragment takes up. -/
def Fragment.labelSpan (f : Fragment) : UInt32 := labelBound (f.code.filterMap Instruction.placed?)

/-- Copies of fragments one after the other, and the first label number left over. -/
def copies (next : UInt32) : List Fragment → List Instruction × UInt32
  | [] => ([], next)
  | f :: rest =>
    let (code, last) := copies (next + f.labelSpan) rest
    (f.relabeled next ++ code, last)

namespace Plan

/-- The spliced body, with labels numbered from `next` on. -/
def weave (next : UInt32) : Plan → List Instruction
  | [] => []
  | (insn, none) :: rest => insn :: weave next rest
  | (insn, some r) :: rest =>
    let (before, middle) := copies next r.before
    let (after, last) := copies middle r.after
    before ++ (if r.keeps then [insn] else []) ++ after ++ weave last rest

/-- The number of instructions that something else takes the place of. -/
def sites (plan : Plan) : Nat := plan.countP fun entry => entry.2.isSome

end Plan

end ClassEdit
