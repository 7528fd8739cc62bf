import ClassEdit.Scan.Rule
import ClassEdit.Scan.Section

/-!
# Making rules

Rules are made by programs on drafts, one kind of draft for each level: blocks of operations,
patterns and block of a method rule, method rules, the parts of a class rule, and class rules. Each
level but that of a single method rule can have sections of modules. Nothing here fails: an
operation that cannot be made is left out and raises an issue, and method rules without edits that
were meant to have some, and class rules with nothing to apply, are dropped.

## Main definitions

* `BlockDraft`, `MethodRuleDraft`, `MethodsDraft`, `ClassRuleDraft`, `RulesDraft`: the drafts, with
  the programs on them in their namespaces.
* `RuleSet`, `RulesDraft.build`: the finished rules with what was raised while they were made.
-/

namespace ClassEdit

/-- Operations of a block under construction. -/
structure BlockDraft where
  registry : Registry
  operations : List Operation
  computeFrames : Bool
  issues : List EditError

namespace BlockDraft

/-- A block without operations. -/
def start (registry : Registry) : BlockDraft := ⟨registry, [], true, []⟩

instance : Draft BlockDraft where
  registry s := s.registry
  issues s := s.issues
  setIssues s issues := { s with issues }
  Mark := Nat × Bool
  mark s := (s.operations.length, s.computeFrames)
  rollback mark s := { s with operations := s.operations.take mark.1, computeFrames := mark.2 }
  enter _ s := s
  leave _ after := after

/-- Appends an operation. -/
def add (op : Operation) : Drafting BlockDraft Unit :=
  modify fun s => { s with operations := s.operations ++ [op] }

/-- Raises an issue. -/
def raise (issue : EditError) : Drafting BlockDraft Unit :=
  modify fun s => { s with issues := s.issues ++ [issue] }

/-- Replaces the loads of a constant; a constant of another kind raises an issue. -/
def replaceConstant (source target : Constant) : Drafting BlockDraft Unit :=
  match Operation.replacingConstant source target with
  | .ok op => add op
  | .error issue => raise issue

/-- Replaces a text inside loaded strings. -/
def replaceString (source target : String) : Drafting BlockDraft Unit :=
  add (.replaceString source target)

/-- Makes the body return the default value. -/
def stub : Drafting BlockDraft Unit := add (.stub none)

/-- Makes the body return a value. -/
def fixedValue (value : Constant) : Drafting BlockDraft Unit := add (.stub (some value))

/-- Replaces the body. -/
def overwrite (body : FragmentSource) : Drafting BlockDraft Unit := add (.overwrite body)

/-- Inserts fragments around calls. -/
def callAdvice (calls : MemberPattern) (before after : Option FragmentSource) :
    Drafting BlockDraft Unit :=
  add (.callAdvice calls before after)

/-- Inserts a fragment before calls. -/
def adviceBefore (calls : MemberPattern) (program : Site → Assembler Unit) :
    Drafting BlockDraft Unit :=
  callAdvice calls (some (.assembled program)) none

/-- Inserts a fragment after calls. -/
def adviceAfter (calls : MemberPattern) (program : Site → Assembler Unit) :
    Drafting BlockDraft Unit :=
  callAdvice calls none (some (.assembled program))

/-- Replaces calls by a fragment, or removes them. -/
def replaceCall (calls : MemberPattern) (replacement : Option FragmentSource) :
    Drafting BlockDraft Unit :=
  add (.replaceCall calls replacement)

/-- Inserts a fragment before returns. -/
def methodExit (fragment : FragmentSource) : Drafting BlockDraft Unit := add (.methodExit fragment)

/-- Leaves the stack maps of the class alone. -/
def disableFrames : Drafting BlockDraft Unit := modify fun s => { s with computeFrames := false }

/-- The finished block. -/
def block (s : BlockDraft) : Block := ⟨s.operations, s.computeFrames⟩

end BlockDraft

/-- A method rule under construction. -/
structure MethodRuleDraft where
  registry : Registry
  pattern : MethodPattern
  block : Option BlockDraft

namespace MethodRuleDraft

/-- Adds a clause to the pattern. -/
def require (clause : MethodClause) : Drafting MethodRuleDraft Unit :=
  modify fun s => { s with pattern := s.pattern.add clause }

/-- Adds operations to the block, which exists from then on. -/
def transform (program : Drafting BlockDraft Unit) : Drafting MethodRuleDraft Unit :=
  modify fun s =>
    let block := s.block.getD (.start s.registry)
    { s with block := some (program.run block).2 }

end MethodRuleDraft

/-- Method rules under construction. -/
structure MethodsDraft where
  registry : Registry
  methods : List MethodRule
  issues : List EditError
  /-- The innermost section. -/
  module : Option ModuleName
  /-- How many rules without a name were made for the class. -/
  unnamed : Nat

namespace MethodsDraft

instance : Draft MethodsDraft where
  registry s := s.registry
  issues s := s.issues
  setIssues s issues := { s with issues }
  Mark := Nat
  mark s := s.methods.length
  rollback mark s := { s with methods := s.methods.take mark }
  enter name s := { s with module := some name }
  leave before after := { after with module := before.module }

/-- Makes a method rule. -/
def register (label : String) (program : Drafting MethodRuleDraft Unit) :
    Drafting MethodsDraft Unit :=
  modify fun s =>
    let finder := (program.run ⟨s.registry, .empty, none⟩).2
    { s with
      methods := s.methods ++ [⟨label, finder.pattern, finder.block.map BlockDraft.block, s.module⟩]
      issues := s.issues ++ (finder.block.map BlockDraft.issues).getD [] }

/-- Makes a method rule with a name. The name is shown only; the method is found by the pattern. -/
def method (label : String) (program : Drafting MethodRuleDraft Unit) :
    Drafting MethodsDraft Unit :=
  register label program

/-- The label of the rules without a name. -/
def unnamedLabel (n : Nat) : String := "<unnamed " ++ toString n ++ ">"

/-- Makes a method rule without a name. -/
def unnamedMethod (program : Drafting MethodRuleDraft Unit) : Drafting MethodsDraft Unit := do
  modify fun s => { s with unnamed := s.unnamed + 1 }
  let s ← get
  register (unnamedLabel s.unnamed) program

/-- Edits the method that really has a name. -/
def namedTransform (name : String) (program : Drafting BlockDraft Unit) :
    Drafting MethodsDraft Unit :=
  register name do
    MethodRuleDraft.require (.named name)
    MethodRuleDraft.transform program

/-- Replaces a constant in the first method that pushes it. -/
def constantReplacement (source target : Constant) : Drafting MethodsDraft Unit :=
  unnamedMethod do
    MethodRuleDraft.require (.hasConstant source)
    MethodRuleDraft.transform (BlockDraft.replaceConstant source target)

/-- Replaces constants, each in the first method that pushes it. -/
def constantReplacements (pairs : List (Constant × Constant)) : Drafting MethodsDraft Unit :=
  pairs.forM fun (source, target) => constantReplacement source target

end MethodsDraft

/-- A class rule under construction. -/
structure ClassRuleDraft where
  registry : Registry
  pattern : ClassPattern
  label : Option String
  methods : List MethodRule
  issues : List EditError
  /-- The innermost section. -/
  module : Option ModuleName
  /-- The section in which the rule was begun. -/
  outerModule : Option ModuleName
  /-- How many method rules without a name were made. -/
  unnamed : Nat

namespace ClassRuleDraft

/-- A class rule begun in a section. -/
def start (registry : Registry) (module : Option ModuleName) : ClassRuleDraft :=
  { registry, pattern := .empty, label := none, methods := [], issues := [], module
    outerModule := module, unnamed := 0 }

instance : Draft ClassRuleDraft where
  registry s := s.registry
  issues s := s.issues
  setIssues s issues := { s with issues }
  Mark := Nat × Nat × Option String
  mark s := (s.methods.length, s.pattern.clauses.length, s.label)
  rollback mark s :=
    { s with
      methods := s.methods.take mark.1
      pattern := s.pattern.truncate mark.2.1
      label := mark.2.2 }
  enter name s := { s with module := some name }
  leave before after := { after with module := before.module }

/-- Names the rule. -/
def setLabel (label : String) : Drafting ClassRuleDraft Unit :=
  modify fun s => { s with label := some label }

/-- Adds a clause to the pattern. -/
def require (clause : ClassClause) : Drafting ClassRuleDraft Unit :=
  modify fun s => { s with pattern := s.pattern.add clause }

/-- Makes method rules. -/
def inMethods (program : Drafting MethodsDraft Unit) : Drafting ClassRuleDraft Unit :=
  modify fun s =>
    let made := (program.run ⟨s.registry, [], [], s.module, s.unnamed⟩).2
    { s with
      methods := s.methods ++ made.methods
      issues := s.issues ++ made.issues
      unnamed := made.unnamed }

/-- Replaces a constant in the first method that pushes it. -/
def constantReplacement (source target : Constant) : Drafting ClassRuleDraft Unit :=
  inMethods (MethodsDraft.constantReplacement source target)

/-- Replaces constants, each in the first method that pushes it. -/
def constantReplacements (pairs : List (Constant × Constant)) : Drafting ClassRuleDraft Unit :=
  pairs.forM fun (source, target) => constantReplacement source target

/-- The label of the finished rule: its name, or its pattern in words. -/
def finalLabel (s : ClassRuleDraft) : String := s.label.getD s.pattern.text

/-- The finished rule. Its method rules have labels qualified by its own. -/
def rule (s : ClassRuleDraft) : ClassRule :=
  let kept := s.methods.filter MethodRule.isKept
  { label := s.finalLabel
    pattern := s.pattern
    methods := kept.map fun m => { m with label := s.finalLabel ++ "::" ++ m.label }
    module := s.outerModule }

end ClassRuleDraft

/-- Class rules under construction. -/
structure RulesDraft where
  registry : Registry
  rules : List ClassRule
  issues : List EditError
  /-- The innermost section. -/
  module : Option ModuleName

/-- Finished rules, with what was raised while they were made. -/
structure RuleSet where
  rules : List ClassRule
  issues : List EditError
  journal : Journal

namespace RulesDraft

/-- No rules. -/
def start (registry : Registry) : RulesDraft := ⟨registry, [], [], none⟩

instance : Draft RulesDraft where
  registry s := s.registry
  issues s := s.issues
  setIssues s issues := { s with issues }
  Mark := Nat
  mark s := s.rules.length
  rollback mark s := { s with rules := s.rules.take mark }
  enter name s := { s with module := some name }
  leave before after := { after with module := before.module }

/-- Makes a class rule, which is dropped if it has nothing to apply. -/
def findClass (program : Drafting ClassRuleDraft Unit) : Drafting RulesDraft Unit :=
  modify fun s =>
    let made := (program.run (.start s.registry s.module)).2
    { s with
      rules := s.rules ++ (if made.rule.hasWork then [made.rule] else [])
      issues := s.issues ++ made.issues }

/-- Makes a rule about a class of the application. -/
def findHostClass (program : Drafting ClassRuleDraft Unit) : Drafting RulesDraft Unit :=
  findClass do
    ClassRuleDraft.require .host
    program

/-- Makes a rule about a class that the application builds on. -/
def findPlatformClass (program : Drafting ClassRuleDraft Unit) : Drafting RulesDraft Unit :=
  findClass do
    ClassRuleDraft.require .platform
    program

/-- Makes a rule about the class of a dotted or internal name. -/
def findNamedClass (name : String) (program : Drafting ClassRuleDraft Unit) :
    Drafting RulesDraft Unit :=
  findClass do
    ClassRuleDraft.require (.ofName name)
    program

/-- What is written down about an issue. -/
def issueEvent : EditError → Event
  | .module name problem =>
    (Event.ofKind .moduleDisabled).saying (name.text ++ ": " ++ problem.message)
  | issue => (Event.ofKind .error).saying issue.message

/-- The finished rules. -/
def build (s : RulesDraft) : RuleSet := ⟨s.rules, s.issues, ⟨s.issues.map issueEvent⟩⟩

/-- The rules that a program makes. -/
def rulesOf (registry : Registry) (program : Drafting RulesDraft Unit) : RuleSet :=
  (program.run (start registry)).2.build

end RulesDraft

end ClassEdit
