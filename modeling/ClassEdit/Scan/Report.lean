import ClassEdit.Scan.Rule

/-!
# Scanning a class

A scan takes a class through all rules in their order. At its turn a rule looks at the class as the
rules before have left it. If it is about the class, its method rules are bound first, all of them
to methods of the class as it stands, and then the blocks are applied one after the other. A block
that fails is reported and leaves its method alone, and the scan goes on.

## Main definitions

* `Failure`, `Report`: what a scan did to a class.
* `Firing`: what a scan tells about one rule.
* `Naming`: which labels the failures of a scan name.
* `Scan`, `Scan.ofClass`: the scan of a class.
-/

namespace ClassEdit

/-- A block that failed. -/
structure Failure where
  /-- The label of the method rule. -/
  registration : String
  /-- The signature of the method that was left alone. -/
  method : String
  error : EditError
deriving DecidableEq

/-- What a scan did to a class. -/
structure Report where
  className : String
  /-- The labels of the rules that fired. -/
  matched : List String
  /-- The signatures of the methods that were edited, each once. -/
  transformed : List String
  failures : List Failure
  journal : Journal
  /-- Whether the stack maps of the class have to be computed anew. -/
  computeFrames : Bool
deriving DecidableEq

namespace Report

/-- The report about a class to which nothing was done. -/
def start (className : String) : Report := ⟨className, [], [], [], .empty, true⟩

/-- Whether some method was edited. -/
def isModified (r : Report) : Bool := !r.transformed.isEmpty

/-- Whether some rule fired. -/
def isMatched (r : Report) : Bool := !r.matched.isEmpty

/-- Writes down an event. -/
def record (r : Report) (e : Event) : Report := { r with journal := r.journal.record e }

/-- Notes that a method was edited. -/
def edited (r : Report) (signature : String) (computeFrames : Bool) : Report :=
  { r with
    transformed :=
      if signature ∈ r.transformed then r.transformed else r.transformed ++ [signature]
    computeFrames := r.computeFrames && computeFrames }

end Report

/-- What a scan tells about a rule: nothing if it did not fire, and otherwise which of its method
rules were bound. -/
abbrev Firing := Option (List Bool)

/-- Which label each failure of a scan names, when its block leaves several labels unplaced. -/
abbrev Naming := Nat → Nat

/-- A class in the course of a scan. -/
structure Scan where
  owner : ClassDecl
  report : Report
deriving DecidableEq

namespace Scan

/-- The event about the class. -/
def event (s : Scan) (kind : EventKind) (registration : String) : Event :=
  ((Event.ofKind kind).inClass s.owner.name).causedBy registration

/-- Applies a block to a method of the class. -/
def applyBlock (s : Scan) (naming : Naming) (label : String) (index : Nat) (m : MethodDecl)
    (b : Block) : Scan :=
  match b.run s.owner m label with
  | .ok (edited, outcome) =>
    let journal := s.report.journal.append ⟨b.events s.owner m label outcome⟩
    let report := { s.report with journal }
    if outcome.changed then
      ⟨s.owner.setMethod index edited, report.edited m.signature b.computeFrames⟩
    else ⟨s.owner, report⟩
  | .error refusal =>
    let error := refusal.named (naming s.report.failures.length)
    let failed := ((s.event .transformFailed label).inMethod m.signature).saying error.message
    let report := s.report.record failed
    ⟨s.owner, { report with failures := report.failures ++ [⟨label, m.signature, error⟩] }⟩

/-- Takes a method rule to the method that it is bound to. -/
def applyMethod (s : Scan) (naming : Naming) (rule : MethodRule) (binding : Option Nat) : Scan :=
  match binding.bind fun index => (s.owner.methods[index]?).map fun m => (index, m) with
  | none => { s with report := s.report.record (s.event .registrationUnmatched rule.label) }
  | some (index, m) =>
    let matched := (s.event .methodMatched rule.label).inMethod m.signature
    let s := { s with report := s.report.record matched }
    match rule.block with
    | none => s
    | some b => s.applyBlock naming rule.label index m b

/-- Takes method rules to the methods that they are bound to, one after the other. -/
def applyMethods (s : Scan) (naming : Naming) : List (MethodRule × Option Nat) → Scan
  | [] => s
  | (rule, binding) :: rest => (s.applyMethod naming rule binding).applyMethods naming rest

/-- Takes a rule to the class. -/
def applyRule (s : Scan) (naming : Naming) (rule : ClassRule) : Scan × Firing :=
  if rule.fires s.owner then
    let bindings := rule.bindings s.owner
    let report := s.report.record (s.event .classMatched rule.label)
    let s := { s with report := { report with matched := report.matched ++ [rule.label] } }
    (s.applyMethods naming (rule.methods.zip bindings), some (bindings.map Option.isSome))
  else (s, none)

/-- Takes rules to the class, one after the other. -/
def applyRules (s : Scan) (naming : Naming) : List ClassRule → Scan × List Firing
  | [] => (s, [])
  | rule :: rest =>
    let (s, firing) := s.applyRule naming rule
    let (s, firings) := s.applyRules naming rest
    (s, firing :: firings)

/-- A class before its scan. -/
def start (owner : ClassDecl) : Scan := ⟨owner, .start owner.name⟩

/-- The scan of a class with some rules. -/
def ofClass (naming : Naming) (rules : List ClassRule) (owner : ClassDecl) : Scan × List Firing :=
  (start owner).applyRules naming rules

end Scan

end ClassEdit
