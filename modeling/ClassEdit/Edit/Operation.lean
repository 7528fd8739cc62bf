import ClassEdit.Edit.Site
import ClassEdit.Edit.Splice
import ClassEdit.Journal
import ClassEdit.Pattern.Member

/-!
# Edits of a body

An operation edits the body of a method in one way. Constants and texts are replaced where they
are loaded; a body is replaced as a whole; and fragments are spliced in around calls, in place of
calls, or before returns. Fragments are resolved before anything is spliced, so they see the body
without the copies of the same operation, and a spliced call is not edited again.

## Main definitions

* `Operation`: the seven ways.
* `Applied`: what an operation did.
* `Operation.apply`: the edited method and what was done, or the refusal.
-/

namespace ClassEdit

/-- One edit of a body. -/
inductive Operation where
  /-- Every load of a constant becomes the load of another one of its kind. -/
  | replaceConstant (source target : Constant)
  /-- A text is replaced inside every string that is loaded from the pool. -/
  | replaceString (source target : String)
  /-- The body becomes a return of the value, or of the default of the declared type. -/
  | stub (value : Option Constant)
  /-- The body becomes the fragment. -/
  | overwrite (body : FragmentSource)
  /-- Fragments are inserted around the calls that pass the pattern. One before a call may consume
  its arguments, one after it its result. -/
  | callAdvice (calls : MemberPattern) (before after : Option FragmentSource)
  /-- Calls that pass the pattern are replaced by the fragment, or removed with their arguments. -/
  | replaceCall (calls : MemberPattern) (replacement : Option FragmentSource)
  /-- The fragment is inserted before every return. -/
  | methodExit (fragment : FragmentSource)

/-- What an operation did. -/
structure Applied where
  kind : EventKind
  /-- The number of places that were edited. -/
  sites : Nat
  detail : String
deriving DecidableEq

/-- The first place at which one list of characters occurs in another: what comes before it, and
what comes after it. -/
def splitAtFirst (pattern : List Char) : List Char → Option (List Char × List Char)
  | [] => if pattern.isEmpty then some ([], []) else none
  | c :: rest =>
    if pattern.isPrefixOf (c :: rest) then some ([], (c :: rest).drop pattern.length)
    else (splitAtFirst pattern rest).map fun (before, after) => (c :: before, after)

/-- Replaces the occurrences of a nonempty list of characters from left to right; each step leaves
less than `fuel` characters. -/
def substituteWithin (pattern replacement : List Char) : Nat → List Char → List Char
  | 0, cs => cs
  | fuel + 1, cs =>
    match splitAtFirst pattern cs with
    | none => cs
    | some (before, after) =>
      before ++ replacement ++ substituteWithin pattern replacement fuel after

/-- The text in which every occurrence of a nonempty text is replaced. -/
def substitute (source target : String) (s : String) : String :=
  String.ofList (substituteWithin source.toList target.toList (s.toList.length + 1) s.toList)

namespace Instruction

/-- The instruction after a constant was exchanged for another one. -/
def replacingConstant (source target : Constant) (insn : Instruction) : Instruction :=
  if insn.constant? = some source then .load target else insn

/-- Whether the instruction loads a string that contains a text. -/
def loadsPart (fragment : String) (insn : Instruction) : Bool :=
  insn.string?.any fun value => occursIn fragment.toList value.toList

/-- The instruction after a text was exchanged inside the string that it loads. -/
def replacingString (source target : String) : Instruction → Instruction
  | .ldc (.string value) =>
    if occursIn source.toList value.toList then .ldc (.string (substitute source target value))
    else .ldc (.string value)
  | insn => insn

end Instruction

namespace MethodDecl

variable (m : MethodDecl)

/-- Replaces the loads of a constant. A constant is no replacement for itself: nothing is edited
then. -/
def replaceConstant (source target : Constant) : Except EditError (MethodDecl × Applied) :=
  if source.kind ≠ target.kind then .error (.kindMismatch source.kind target.kind)
  else if source = target then
    .ok (m, ⟨.constantReplaced, 0, source.text ++ " is unchanged"⟩)
  else
    .ok ({ m with code := m.code.map (Instruction.replacingConstant source target) },
      ⟨.constantReplaced, m.code.countP fun insn => insn.constant? == some source,
        source.text ++ " -> " ++ target.text⟩)

/-- Replaces a text inside the strings that are loaded from the pool. -/
def replaceString (source target : String) : MethodDecl × Applied :=
  let detail :=
    Text.quotedLiteral source ++ " -> " ++ Text.quotedLiteral target ++ " in string literals"
  if source = target ∨ source.isEmpty then (m, ⟨.constantReplaced, 0, detail⟩)
  else
    ({ m with code := m.code.map (Instruction.replacingString source target) },
      ⟨.constantReplaced, m.code.countP (Instruction.loadsPart source), detail⟩)

/-- The load of the default value of a type. -/
def defaultLoad : TypeDescriptor → List Instruction
  | .void => []
  | .long => [.simple Opcode.lconst0]
  | .float => [.simple Opcode.fconst0]
  | .double => [.simple Opcode.dconst0]
  | .object _ | .array _ => [.simple Opcode.aconstNull]
  | _ => [.simple Opcode.iconst0]

/-- The method with another body and no exception handlers. -/
def withBody (code : List Instruction) : MethodDecl := { m with code, handlers := [] }

/-- Replaces the body by a return of a value, or of the default of the declared type. -/
def stub : Option Constant → Except EditError (MethodDecl × Applied)
  | some value =>
    if m.result.accepts value then
      .ok (m.withBody [.load value, .simple m.result.returnOpcode],
        ⟨.methodStubbed, 1, "returns " ++ value.text⟩)
    else .error (.malformed (.cannotReturn m.signature value))
  | none =>
    .ok (m.withBody (defaultLoad m.result ++ [.simple m.result.returnOpcode]),
      ⟨.methodStubbed, 1,
        if m.result = .void then "returns immediately" else "returns default " ++ m.result.text⟩)

/-- The first call of the body that passes a pattern. -/
def firstCall? (calls : MemberPattern) : Option MethodRef :=
  m.calls.find? calls.acceptsCall

end MethodDecl

/-- Compares the effect of a fragment with its declaration. -/
def checkEffect (signature : String) (fragment : Fragment) (site : SpliceSite) :
    Except EditError Unit := do
  let effect ← fragment.netEffect
  if effect = fragment.delta then .ok ()
  else .error (.imbalance signature (.undeclaredEffect site effect fragment.delta))

/-- The fragment of an optional source; the slots it may consume are asked for only if there is
one. -/
def resolveOptional (source : Option FragmentSource) (site : Site)
    (available : Except EditError UInt16) : Except EditError (List Fragment) :=
  match source with
  | none => .ok []
  | some source => do
    let slots ← available
    let fragment ← source.resolve site slots
    return [fragment]

/-- The fragments around a call. -/
def adviceAt (site : Site) (before after : Option FragmentSource) (call : MethodRef) :
    Except EditError Replacement := do
  let before ← resolveOptional before site call.consumed
  let after ← resolveOptional after site call.produced
  before.forM fun fragment => checkEffect site.method.signature fragment (.before call)
  after.forM fun fragment => checkEffect site.method.signature fragment (.after call)
  return ⟨before, true, after⟩

/-- Discards the arguments of a call from the last to the first, and then the receiver. -/
def discardArguments (call : MethodRef) : Except EditError (List Instruction) := do
  let d ← MethodDescriptor.parsed call.descriptor
  let pops := d.arguments.reverse.map fun t =>
    Instruction.simple (if t.slots = 2 then Opcode.pop2 else Opcode.pop)
  return pops ++ (if call.isStatic then [] else [.simple Opcode.pop])

/-- The fragment in place of a call. It answers for the whole effect of the call, so its own effect
is not compared with a declaration. -/
def substituteAt (site : Site) (replacement : Option FragmentSource) (call : MethodRef) :
    Except EditError Replacement := do
  match replacement with
  | some source =>
    let slots ← call.consumed
    let fragment ← source.resolve site slots
    return ⟨[fragment], false, []⟩
  | none =>
    let pops ← discardArguments call
    return ⟨[.ofCode pops], false, []⟩

/-- The plan that replaces the calls passing a pattern. -/
def planCalls (calls : MemberPattern) (replace : MethodRef → Except EditError Replacement) :
    List Instruction → Except EditError Plan
  | [] => .ok []
  | insn :: rest =>
    match insn.call?.filter calls.acceptsCall with
    | none => do
      let plan ← planCalls calls replace rest
      return (insn, none) :: plan
    | some call => do
      let replacement ← replace call
      let plan ← planCalls calls replace rest
      return (insn, some replacement) :: plan

/-- The plan that puts a fragment before every return. -/
def planReturns (fragment : Fragment) (code : List Instruction) : Plan :=
  code.map fun insn => (insn, if insn.isReturn then some ⟨[fragment], true, []⟩ else none)

namespace Operation

/-- The name of the operation. -/
def name : Operation → String
  | .replaceConstant _ _ => "replaceConstant"
  | .replaceString _ _ => "replaceString"
  | .stub _ => "stub"
  | .overwrite _ => "overwrite"
  | .callAdvice _ _ _ => "callAdvice"
  | .replaceCall _ _ => "replaceCall"
  | .methodExit _ => "methodExit"

/-- The replacement of a constant by one of the same kind, or the refusal. -/
def replacingConstant (source target : Constant) : Except EditError Operation :=
  if source.kind = target.kind then .ok (.replaceConstant source target)
  else .error (.kindMismatch source.kind target.kind)

/-- Splices the calls of a body according to what takes the place of each. -/
def spliceCalls (site : Site) (calls : MemberPattern) (kind : EventKind)
    (detail : MethodRef → String) (replace : MethodRef → Except EditError Replacement) :
    Except EditError (MethodDecl × Applied) :=
  let m := site.method
  match m.firstCall? calls with
  | none => .error (site.missing ("call (" ++ calls.text ++ ")"))
  | some first => do
    let plan ← planCalls calls replace m.code
    return ({ m with code := plan.weave (freshLabel m.code) }, ⟨kind, plan.sites, detail first⟩)

/-- Splices a fragment before every return of a body. -/
def spliceReturns (site : Site) (source : FragmentSource) :
    Except EditError (MethodDecl × Applied) :=
  let m := site.method
  if m.code.any Instruction.isReturn then do
    let fragment ← source.resolve site 0
    checkEffect m.signature fragment .methodExit
    let plan := planReturns fragment m.code
    return ({ m with code := plan.weave (freshLabel m.code) },
      ⟨.exitInjected, plan.sites, toString fragment.code.length ++ " instructions per exit"⟩)
  else .error (site.missing "return instruction")

/-- The edited method and what was done, or the refusal. -/
def apply (op : Operation) (site : Site) : Except EditError (MethodDecl × Applied) :=
  let m := site.method
  match op with
  | .replaceConstant source target => m.replaceConstant source target
  | .replaceString source target => .ok (m.replaceString source target)
  | .stub value => m.stub value
  | .overwrite source => do
    let fragment ← source.resolve site 0
    let code := fragment.relabeled 0
    return (m.withBody code,
      ⟨.bodyOverwritten, 1, toString code.length ++ " instructions"⟩)
  | .callAdvice calls before after =>
    spliceCalls site calls .adviceInserted (fun call => "around " ++ call.text)
      (adviceAt site before after)
  | .replaceCall calls replacement =>
    spliceCalls site calls .callReplaced MethodRef.text (substituteAt site replacement)
  | .methodExit source => spliceReturns site source

end Operation

end ClassEdit
