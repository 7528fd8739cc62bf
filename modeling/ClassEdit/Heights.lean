import ClassEdit.Class.Decl

/-!
# Heights of the operand stack

In a sound body every instruction is reached with one height of the operand stack, whichever path
leads there, and never pops more than there is. The search follows all paths: it starts at the
first instruction with an empty stack and at every exception handler with the exception alone, and
keeps a list of arrivals still to be followed. An instruction is expanded when an arrival reaches
it for the first time; a later arrival has to bring the same height.

Only heights are followed, not types. Subroutines are refused.

## Main definitions

* `labelPosition?`: where a label is placed; the last of several places counts.
* `Search`: the state of a search, `Search.step` its step.
* `Heights`: the result, the height before each reached instruction and the largest height.
* `MethodDecl.heights`: the search carried to its end.

## Main results

* `Search.step_decreasing`: every step settles an arrival without adding any, or expands an
  instruction that was not expanded before; this is why the search ends.
-/

namespace ClassEdit

/-- The position at which a label is placed, the last one if there are several. -/
def labelPosition? (label : Label) : List Instruction → Option Nat
  | [] => none
  | insn :: rest =>
    match labelPosition? label rest with
    | some position => some (position + 1)
    | none => if insn.placed? = some label then some 0 else none

/-- The height before each reached instruction, and the largest height anywhere. -/
structure Heights where
  maxStack : UInt16
  before : List (Option UInt16)
deriving DecidableEq

/-- The height before an instruction, if it is reached. -/
def Heights.at? (h : Heights) (index : Nat) : Option UInt16 := h.before.getD index none

/-- An instruction about to be reached with a height. -/
structure Arrival where
  index : Nat
  height : UInt16
deriving DecidableEq

namespace MethodDecl

variable (m : MethodDecl)

/-- The position of a label that the body mentions. -/
def resolve (label : Label) : Except EditError Nat :=
  match labelPosition? label m.code with
  | some position => .ok position
  | none => .error (.malformed (.unknownLabel m.signature label))

/-- The positions of labels, in their order. -/
def resolveAll : List Label → Except EditError (List Nat)
  | [] => .ok []
  | label :: rest =>
    match m.resolve label with
    | .error e => .error e
    | .ok position =>
      match resolveAll rest with
      | .error e => .error e
      | .ok positions => .ok (position :: positions)

/-- The next instruction, which has to exist. -/
def following (index : Nat) : Except EditError (List Nat) :=
  if index + 1 < m.code.length then .ok [index + 1]
  else .error (.malformed (.fallsOff m.signature))

/-- The instructions that control may go to after one that pops `pops` slots, branch targets
first. A return has to pop exactly a value of the declared type. -/
def successors (index : Nat) (insn : Instruction) (pops : UInt16) : Except EditError (List Nat) :=
  match insn.flow with
  | .sequential | .call | .marker => m.following index
  | .conditional =>
    match m.resolveAll insn.targets with
    | .error e => .error e
    | .ok positions =>
      match m.following index with
      | .error e => .error e
      | .ok next => .ok (positions ++ next)
  | .unconditional | .switch => m.resolveAll insn.targets
  | .exit =>
    if pops = m.result.slots then .ok []
    else .error (.imbalance m.signature (.wrongReturn insn index m.result))
  | .throwing => .ok []
  | .subroutine => .error (.malformed (.subroutine m.signature))

/-- What follows from reaching an instruction with a height: the arrivals it leads to and the
height after it. -/
def expand (index : Nat) (height : UInt16) (insn : Instruction) :
    Except EditError (List Arrival × UInt16) :=
  match insn.effect with
  | .error e => .error e
  | .ok effect =>
    if height < effect.pops then
      .error (.imbalance m.signature (.underflow insn index effect.pops height))
    else
      let after := height - effect.pops + effect.pushes
      match m.successors index insn effect.pops with
      | .error e => .error e
      | .ok next => .ok (next.map fun position => ⟨position, after⟩, after)

end MethodDecl

/-- The state of a search through a body. -/
structure Search where
  /-- The height before each instruction expanded so far. -/
  before : List (Option UInt16)
  /-- The arrivals still to be followed; the next one comes first. -/
  pending : List Arrival
  /-- The largest height so far. -/
  highest : UInt16
deriving DecidableEq

namespace Search

/-- The number of instructions that were not expanded yet. -/
def unexpanded (s : Search) : Nat := s.before.count none

/-- The outcome of a step. -/
inductive Outcome where
  | finished (result : Heights)
  | refused (error : EditError)
  | continued (next : Search)
deriving DecidableEq

/-- Follows one arrival. -/
def step (m : MethodDecl) (s : Search) : Outcome :=
  match s.pending with
  | [] => .finished ⟨s.highest, s.before⟩
  | arrival :: rest =>
    match m.code[arrival.index]?, s.before[arrival.index]? with
    | some insn, some none =>
      match m.expand arrival.index arrival.height insn with
      | .error e => .refused e
      | .ok (next, after) =>
        .continued {
          before := s.before.set arrival.index (some arrival.height)
          pending := next.reverse ++ rest
          highest := max (max s.highest after) arrival.height }
    | some insn, some (some known) =>
      if known = arrival.height then .continued { s with pending := rest }
      else
        .refused (.imbalance m.signature (.meeting known arrival.height arrival.index insn))
    | _, _ => .continued { s with pending := rest }

/-- Every step settles an arrival without adding any, or expands an instruction that was not
expanded before. -/
theorem step_decreasing {m : MethodDecl} {s next : Search} (h : step m s = .continued next) :
    next.unexpanded < s.unexpanded ∨
      next.unexpanded = s.unexpanded ∧ next.pending.length < s.pending.length := by
  unfold step at h
  split at h
  · cases h
  · rename_i arrival rest hpending
    have hlength : rest.length < s.pending.length := by simp [hpending]
    split at h
    · rename_i hbefore
      split at h
      · cases h
      · cases h
        left
        obtain ⟨hindex, hnone⟩ := List.getElem?_eq_some_iff.1 hbefore
        have hpos : 0 < s.before.count none :=
          List.count_pos_iff.2 (hnone ▸ List.getElem_mem hindex)
        have hsame : (s.before[arrival.index] == none) = true := beq_iff_eq.2 hnone
        have hother : ¬(some arrival.height == none) = true := fun h => nomatch beq_iff_eq.1 h
        show (s.before.set arrival.index (some arrival.height)).count none < s.before.count none
        rw [List.count_set hindex, if_pos hsame, if_neg hother]
        omega
    · split at h
      · cases h
        exact .inr ⟨rfl, hlength⟩
      · cases h
    · cases h
      exact .inr ⟨rfl, hlength⟩

/-- Carries a search to its end. -/
def run (m : MethodDecl) (s : Search) : Except EditError Heights :=
  match _h : step m s with
  | .finished result => .ok result
  | .refused e => .error e
  | .continued next => run m next
termination_by (s.unexpanded, s.pending.length)
decreasing_by
  rcases step_decreasing _h with hless | ⟨hsame, hless⟩
  · exact Prod.Lex.left _ _ hless
  · rw [hsame]
    exact Prod.Lex.right _ hless

end Search

namespace MethodDecl

variable (m : MethodDecl)

/-- The arrivals at the exception handlers, in the order of the table. -/
def handlerArrivals : Except EditError (List Arrival) :=
  match m.resolveAll (m.handlers.map ExceptionHandler.handler) with
  | .error e => .error e
  | .ok positions => .ok (positions.map fun position => ⟨position, 1⟩)

/-- The arrivals from which a search starts. -/
def entries : List Arrival := if m.code.isEmpty then [] else [⟨0, 0⟩]

/-- The heights of the operand stack in the body, or why they do not come out. -/
def heights : Except EditError Heights :=
  match m.handlerArrivals with
  | .error e => .error e
  | .ok arrivals =>
    Search.run m {
      before := List.replicate m.code.length none
      pending := arrivals.reverse ++ m.entries
      highest := 0 }

end MethodDecl

end ClassEdit
