import ClassEdit.Edit.Block
import ClassEdit.Pattern.ClassFile

/-!
# Rules

A rule says which classes it is about and what is done to their methods. It contains method rules.
A method rule is bound to the first method of a class that passes its pattern. One with a block
edits the method it is bound to; one without is a condition on the class, which has to have such a
method.

## Main definitions

* `MethodRule`, `ClassRule`: rules and the module they were made for.
* `MethodRule.bind?`, `ClassRule.fires`: binding, and whether a rule is about a class.
-/

namespace ClassEdit

/-- A rule about a method. -/
structure MethodRule where
  label : String
  pattern : MethodPattern
  /-- The edits; without them the rule is a condition on the class. -/
  block : Option Block
  /-- The module that the rule was made for. -/
  module : Option ModuleName

/-- A rule about a class. -/
structure ClassRule where
  label : String
  pattern : ClassPattern
  methods : List MethodRule
  /-- The module that the rule was made for. -/
  module : Option ModuleName

namespace MethodRule

/-- The index of the first method of a class that passes the pattern. -/
def bind? (r : MethodRule) (c : ClassDecl) : Option Nat :=
  c.methods.findIdx? r.pattern.accepts

/-- Whether the rule may be kept: it is a condition, or it has something to apply. -/
def isKept (r : MethodRule) : Bool := r.block.all fun b => !b.isEmpty

/-- Whether the rule has something to apply. -/
def hasWork (r : MethodRule) : Bool := r.block.any fun b => !b.isEmpty

end MethodRule

namespace ClassRule

/-- Whether some method rule has something to apply. -/
def hasWork (r : ClassRule) : Bool := r.methods.any MethodRule.hasWork

/-- The indices that the method rules are bound to, in order. -/
def bindings (r : ClassRule) (c : ClassDecl) : List (Option Nat) :=
  r.methods.map fun m => m.bind? c

/-- Whether the rule is about a class: its pattern accepts the class, and every condition is bound
to some method. -/
def fires (r : ClassRule) (c : ClassDecl) : Bool :=
  r.pattern.accepts c && r.methods.all fun m => m.block.isSome || (m.bind? c).isSome

end ClassRule

end ClassEdit
