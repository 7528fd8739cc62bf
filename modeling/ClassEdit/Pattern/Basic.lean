import ClassEdit.Text.Escape

/-!
# Patterns

Names in an obfuscated program change between its versions, so code is located by its content. A
pattern is a list of clauses that all have to hold. Clauses are data, so that a pattern can be
shown; a test that no clause expresses is given as a function and shown as `custom`.

## Main definitions

* `Clause`: what a type of clauses has to provide.
* `Pattern`, `Pattern.accepts`, `Pattern.text`: conjunctions of clauses.
* `TextMatch`: comparison with a string literal, as a whole or in part.
-/

namespace ClassEdit

/-- Clauses of type `P` about things of type `α`. -/
class Clause (P : Type) (α : outParam Type) where
  /-- Whether the clause holds of a thing. -/
  holds : P → α → Bool
  /-- The clause in words. -/
  text : P → String
  /-- The words for a pattern without clauses. -/
  anything : String

/-- A conjunction of clauses, in the order in which they were added. -/
structure Pattern (P : Type) where
  clauses : List P

namespace Pattern

variable {P α : Type}

/-- The pattern without clauses. -/
def empty : Pattern P := ⟨[]⟩

/-- The pattern with one more clause. -/
def add (p : Pattern P) (clause : P) : Pattern P := ⟨p.clauses ++ [clause]⟩

/-- The pattern without the clauses that were added after the first ones. -/
def truncate (p : Pattern P) (length : Nat) : Pattern P := ⟨p.clauses.take length⟩

/-- Whether all clauses hold. -/
def accepts [Clause P α] (p : Pattern P) (a : α) : Bool :=
  p.clauses.all fun clause => Clause.holds clause a

/-- The pattern in words. -/
def text [Clause P α] (p : Pattern P) : String :=
  if p.clauses.isEmpty then Clause.anything P
  else " and ".intercalate (p.clauses.map Clause.text)

theorem accepts_iff [Clause P α] {p : Pattern P} {a : α} :
    p.accepts a = true ↔ ∀ clause ∈ p.clauses, Clause.holds clause a = true :=
  List.all_eq_true

@[simp] theorem accepts_empty [Clause P α] (a : α) : (empty : Pattern P).accepts a = true := rfl

@[simp] theorem accepts_add [Clause P α] (p : Pattern P) (clause : P) (a : α) :
    (p.add clause).accepts a = (p.accepts a && Clause.holds clause a) := by
  simp [accepts, add]

end Pattern

/-- A comparison with a string literal. -/
inductive TextMatch where
  /-- The literal is the text. -/
  | exact (value : String)
  /-- The literal contains the text. -/
  | partially (fragment : String)
deriving DecidableEq

/-- Whether one list of characters occurs within another. -/
def occursIn (fragment : List Char) : List Char → Bool
  | [] => fragment.isEmpty
  | c :: rest => fragment.isPrefixOf (c :: rest) || occursIn fragment rest

namespace TextMatch

/-- Whether a literal passes the comparison. -/
def holds : TextMatch → String → Bool
  | .exact value, literal => literal == value
  | .partially fragment, literal => occursIn fragment.toList literal.toList

/-- The comparison in words. -/
def text : TextMatch → String
  | .exact value => Text.quotedLiteral value
  | .partially fragment => "partial " ++ Text.quotedLiteral fragment

end TextMatch

end ClassEdit
