import ClassEdit.Descriptor.Parser
import ClassEdit.Instruction.Basic
import ClassEdit.Settings.ModuleName
import ClassEdit.Settings.OptionValue

/-!
# Why an edit is refused

Each refusal names its cause, and the wording of all messages stands in this file. The causes
about heights of the operand stack are kept apart from those about the shape of the code, because
statements about accepted bodies speak of them separately.

## Main definitions

* `Imbalance`: the operand stack does not come out.
* `Malformation`: the code has no meaning, or one that is not supported.
* `ModuleProblem`: the settings of a module do not allow what was registered for it.
* `EditError`, `EditError.message`: every refusal and its text.
* `EditError.named`: a refusal as it is reported, which names one label.
-/

namespace ClassEdit

/-- Where a fragment is inserted. -/
inductive SpliceSite where
  | before (call : MethodRef)
  | after (call : MethodRef)
  | methodExit
deriving DecidableEq

/-- The site as messages name it. -/
def SpliceSite.text : SpliceSite → String
  | .before call => "before " ++ call.text
  | .after call => "after " ++ call.text
  | .methodExit => "at method exit"

/-- How the heights of the operand stack contradict each other. -/
inductive Imbalance where
  /-- An instruction is reached with two heights. -/
  | meeting (known arriving : UInt16) (index : Nat) (insn : Instruction)
  /-- An instruction of a body pops more than there is. -/
  | underflow (insn : Instruction) (index : Nat) (pops height : UInt16)
  /-- A return pops something else than a value of the declared type. -/
  | wrongReturn (insn : Instruction) (index : Nat) (result : TypeDescriptor)
  /-- An instruction of a fragment pops more than the fragment may consume. -/
  | fragmentUnderflow (insn : Instruction) (available : Nat)
  /-- A label of a fragment is reached with two heights. -/
  | labelHeights (label : Label) (known arriving : Int)
  /-- A fragment changes the height by another amount than declared. -/
  | undeclaredEffect (site : SpliceSite) (effect declared : Int)
deriving DecidableEq

/-- The wording of a cause. -/
def Imbalance.message : Imbalance → String
  | .meeting known arriving index insn =>
    "height " ++ toString known ++ " and " ++ toString arriving ++ " meet at instruction " ++
      toString index ++ " (" ++ insn.text ++ ")"
  | .underflow insn index pops height =>
    insn.text ++ " at " ++ toString index ++ " pops " ++ toString pops ++ " slots with " ++
      toString height ++ " on the stack"
  | .wrongReturn insn index result =>
    insn.text ++ " at " ++ toString index ++ " does not match return type " ++ result.text
  | .fragmentUnderflow insn available =>
    insn.text ++ " underflows the stack (" ++ toString available ++ " slots available)"
  | .labelHeights label known arriving =>
    label.text ++ " reached with heights " ++ toString known ++ " and " ++ toString arriving
  | .undeclaredEffect site effect declared =>
    "fragment " ++ site.text ++ " has net effect " ++ toString effect ++ ", declared " ++
      toString declared

/-- The forms of instructions that admit certain operations only. -/
inductive OperandForm where
  | immediate
  | localVar
  | typed
  | field
  | invoke
  | jump
deriving DecidableEq

/-- The form as messages name it. -/
def OperandForm.text : OperandForm → String
  | .immediate => "int"
  | .localVar => "local variable"
  | .typed => "type"
  | .field => "field"
  | .invoke => "method"
  | .jump => "jump"

/-- How code fails to have a meaning. A body is named by its signature. -/
inductive Malformation where
  /-- An operation that needs an operand stands without one. -/
  | needsOperand (opcode : Opcode)
  /-- An operation stands in a form that is not its own. -/
  | wrongForm (opcode : Opcode) (form : OperandForm)
  | unknownLabel (method : String) (label : Label)
  | fallsOff (method : String)
  | subroutine (method : String)
  | placedTwice (label : Label)
  /-- Labels are used but never placed, one at least. -/
  | neverPlaced (label : Label) (others : List Label)
  /-- The effect of a fragment with branches was asked for without following them. -/
  | branchesUnfollowed
  | fragmentTooHigh
  /-- A constant is no value of the type that the method returns. -/
  | cannotReturn (method : String) (constant : Constant)
deriving DecidableEq

/-- The wording of a cause. Where in the program's own text the cause was found is left out. -/
def Malformation.message : Malformation → String
  | .needsOperand opcode => opcode.mnemonic ++ " takes an operand"
  | .wrongForm opcode form => opcode.mnemonic ++ " is not a " ++ form.text ++ " instruction"
  | .unknownLabel method label => method ++ " references unknown label " ++ label.text
  | .fallsOff method => method ++ " falls off the end of its code"
  | .subroutine method => method ++ " uses subroutines, which are not supported"
  | .placedTwice label => label.text ++ " placed twice"
  | .neverPlaced label _ => label.text ++ " is used but never placed"
  | .branchesUnfollowed =>
    "static fragment contains branches, build it with a FragmentBuilder"
  | .fragmentTooHigh => "fragment stack height exceeds u16 range"
  | .cannotReturn method constant => method ++ " cannot return " ++ constant.text

/-- Why the registrations of a module are dropped. -/
inductive ModuleProblem where
  | missingOption (key : String)
  | wrongOption (key : String) (expected : OptionKind) (found : OptionValue)
  /-- The texts of what was raised while the registrations were made. -/
  | raised (problems : List String)
deriving DecidableEq

/-- The wording of a problem. -/
def ModuleProblem.message : ModuleProblem → String
  | .missingOption key => "missing option '" ++ key ++ "'"
  | .wrongOption key expected found =>
    "option '" ++ key ++ "' must be " ++ expected.name ++ ", found " ++ found.kind.name ++ " " ++
      found.shown
  | .raised problems => "; ".intercalate problems

/-- Why an edit, a registration or a settings document is refused. -/
inductive EditError where
  /-- A registration matched nothing. -/
  | unmatched (registration : String)
  /-- Something that an edit looks for is missing. -/
  | notFound (registration target : String)
  | imbalance (method : String) (cause : Imbalance)
  | kindMismatch (source target : ConstantKind)
  | descriptor (cause : DescriptorError)
  /-- The registrations of a module are dropped. -/
  | module (name : ModuleName) (problem : ModuleProblem)
  /-- A settings document cannot be read. -/
  | document
  | malformed (cause : Malformation)
deriving DecidableEq

/-- The text of a refusal. -/
def EditError.message : EditError → String
  | .unmatched registration => "Registration '" ++ registration ++ "' did not match anything"
  | .notFound registration target => registration ++ ": could not find " ++ target
  | .imbalance method cause => "Stack imbalance in " ++ method ++ ": " ++ cause.message
  | .kindMismatch source target =>
    "Constant category mismatch - cannot replace a " ++ source.text ++ " with a " ++ target.text
  | .descriptor cause => "Invalid descriptor - " ++ cause.message
  | .module name problem => "Module " ++ name.text ++ ": " ++ problem.message
  | .document => "unreadable settings document"
  | .malformed cause => "Malformed - " ++ cause.message

instance : ToString EditError := ⟨EditError.message⟩

/-- The refusal as it is reported. The labels that are never placed stand in a hash map without an
order, and the report names the one that comes first there, which `pick` tells. -/
def EditError.named (pick : Nat) : EditError → EditError
  | .malformed (.neverPlaced label others) =>
    .malformed (.neverPlaced ((label :: others)[pick]?.getD label) [])
  | e => e

end ClassEdit
