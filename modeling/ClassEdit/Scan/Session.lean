import ClassEdit.Scan.Plan
import ClassEdit.Scan.Report

/-!
# Scanning many classes

Scans of different classes do not touch each other. What they share are the counts of how often
each rule fired and each method rule was bound, from which an audit tells the rules that never
matched.

## Main definitions

* `RuleCount`, `Session`: the counts, and finished rules in use.
* `Session.scan`, `Session.scanAll`: scans that are counted.
* `Session.audit`, `Session.unmatched`: what the counts say.
-/

namespace ClassEdit

/-- How often a rule fired, and how often its method rules were bound. -/
structure RuleCount where
  fired : Nat
  bound : List Nat
deriving DecidableEq

namespace RuleCount

/-- The counts of a rule before any scan. -/
def start (rule : ClassRule) : RuleCount := ⟨0, rule.methods.map fun _ => 0⟩

/-- The counts after one more scan. -/
def add (count : RuleCount) : Firing → RuleCount
  | none => count
  | some bound =>
    ⟨count.fired + 1, count.bound.zipWith (fun n (b : Bool) => n + b.toNat) bound⟩

end RuleCount

/-- Finished rules in use. -/
structure Session where
  ruleSet : RuleSet
  /-- Which labels the failures of each scan name. -/
  naming : Nat → Naming
  /-- The number of scans. -/
  scanned : Nat
  /-- The counts, one for each rule. -/
  counts : List RuleCount

/-- A line of an audit. -/
structure AuditLine where
  label : String
  module : Option ModuleName
  /-- How often the rule fired, or the method rule was bound. -/
  count : Nat
deriving DecidableEq

namespace Session

/-- Rules before any scan. -/
def start (ruleSet : RuleSet) (naming : Nat → Naming) : Session :=
  ⟨ruleSet, naming, 0, ruleSet.rules.map RuleCount.start⟩

/-- Scans a class. -/
def scan (s : Session) (owner : ClassDecl) : Scan × Session :=
  let (done, firings) := Scan.ofClass (s.naming s.scanned) s.ruleSet.rules owner
  (done, { s with scanned := s.scanned + 1, counts := s.counts.zipWith RuleCount.add firings })

/-- Scans classes one after the other. -/
def scanAll (s : Session) : List ClassDecl → List Scan × Session
  | [] => ([], s)
  | owner :: rest =>
    let (done, s) := s.scan owner
    let (others, s) := s.scanAll rest
    (done :: others, s)

/-- The lines about a rule: its own, and those of its method rules. A method rule that was made
for no module of its own belongs to that of the class rule. -/
def auditRule (rule : ClassRule) (count : RuleCount) : List AuditLine :=
  ⟨rule.label, rule.module, count.fired⟩ ::
    (rule.methods.zip count.bound).map fun (m, n) => ⟨m.label, m.module.or rule.module, n⟩

/-- How often each rule and method rule matched. -/
def audit (s : Session) : List AuditLine :=
  (s.ruleSet.rules.zip s.counts).flatMap fun (rule, count) => auditRule rule count

/-- The rules and method rules that never matched. -/
def unmatched (s : Session) : List EditError :=
  (s.audit.filter fun line => line.count == 0).map fun line => .unmatched line.label

end Session

end ClassEdit
