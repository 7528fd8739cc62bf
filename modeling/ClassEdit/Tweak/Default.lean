import ClassEdit.Scan.Session
import ClassEdit.Tweak.Connections
import ClassEdit.Tweak.Play

/-!
# The default tweaks

All rules that come with the library, in a fixed order. Each belongs to a module, so with no module
taking part there are no rules.

## Main definitions

* `Tweak.all`, `Tweak.defaultRules`: the program that makes the rules, and the rules.
-/

namespace ClassEdit.Tweak

/-- Makes all rules. -/
def all : Drafting RulesDraft Unit := do
  texts
  connections
  play

/-- The rules for a choice of modules and options. -/
def defaultRules (registry : Registry) : RuleSet := RulesDraft.rulesOf registry all

end ClassEdit.Tweak
