/-!
# The journal of a scan

A scan writes down what happens to a class: which registrations matched, which methods were edited
and how, and what failed. The journal is a list of events in the order in which they happened, and
the queries look at kinds, labels and counts.

## Main definitions

* `EventKind`, `Event`: what happened.
* `Journal`: events in order, with `record`, `append` and the queries.
* `Journal.summary`: the counts of edits in one line.
-/

namespace ClassEdit

/-- What happened. -/
inductive EventKind where
  | classMatched
  | methodMatched
  /-- Loads of a constant were replaced. -/
  | constantReplaced
  /-- A body was replaced by an immediate return. -/
  | methodStubbed
  /-- A body was replaced by other code. -/
  | bodyOverwritten
  /-- Code was inserted around calls. -/
  | adviceInserted
  /-- Calls were removed or replaced. -/
  | callReplaced
  /-- Code was inserted before returns. -/
  | exitInjected
  /-- The edits of a method failed, and the method was left alone. -/
  | transformFailed
  | registrationUnmatched
  /-- The registrations of a module were dropped. -/
  | moduleDisabled
  | info
  | warning
  | error
deriving DecidableEq

namespace EventKind

/-- All kinds in their order. -/
def all : List EventKind :=
  [.classMatched, .methodMatched, .constantReplaced, .methodStubbed, .bodyOverwritten,
   .adviceInserted, .callReplaced, .exitInjected, .transformFailed, .registrationUnmatched,
   .moduleDisabled, .info, .warning, .error]

/-- The kind in words. -/
def description : EventKind → String
  | .classMatched => "class matched"
  | .methodMatched => "method matched"
  | .constantReplaced => "constant replaced"
  | .methodStubbed => "method stubbed"
  | .bodyOverwritten => "body overwritten"
  | .adviceInserted => "advice inserted"
  | .callReplaced => "call replaced"
  | .exitInjected => "exit injected"
  | .transformFailed => "transform failed"
  | .registrationUnmatched => "registration unmatched"
  | .moduleDisabled => "module disabled"
  | .info => "info"
  | .warning => "warning"
  | .error => "error"

/-- The kind of a description, if it is one of the known ones. -/
def ofDescription? (description : String) : Option EventKind :=
  all.find? fun kind => kind.description == description

/-- Whether a body was edited. -/
def isTransformation : EventKind → Bool
  | .constantReplaced | .methodStubbed | .bodyOverwritten | .adviceInserted | .callReplaced
  | .exitInjected => true
  | _ => false

/-- Whether something failed or is worth a remark. -/
def isDiagnostic : EventKind → Bool
  | .transformFailed | .registrationUnmatched | .moduleDisabled | .info | .warning
  | .error => true
  | _ => false

end EventKind

/-- An entry of a journal. What is not known of an event is left out. -/
structure Event where
  kind : EventKind
  className : Option String
  /-- The signature of the method. -/
  method : Option String
  /-- The index of the instruction. -/
  location : Option Nat
  message : String
  /-- The label of the registration that caused the event. -/
  registration : Option String
deriving DecidableEq

namespace Event

/-- An event of which only the kind is known; its message says no more than the kind. -/
def ofKind (kind : EventKind) : Event :=
  ⟨kind, none, none, none, kind.description, none⟩

/-- The event about a class. -/
def inClass (e : Event) (className : String) : Event := { e with className := some className }

/-- The event about a method. -/
def inMethod (e : Event) (method : String) : Event := { e with method := some method }

/-- The event about an instruction of a method. -/
def atInstruction (e : Event) (method : String) (location : Nat) : Event :=
  { e with method := some method, location := some location }

/-- The event with a message of its own. -/
def saying (e : Event) (message : String) : Event := { e with message }

/-- The event caused by a registration. -/
def causedBy (e : Event) (registration : String) : Event :=
  { e with registration := some registration }

/-- The event in one line. -/
def text (e : Event) : String :=
  let place :=
    match e.className, e.method with
    | some className, some method => " " ++ className ++ "." ++ method
    | some className, none => " " ++ className
    | none, _ => ""
  "[" ++ e.kind.description ++ "]" ++ place ++ " " ++ e.message

end Event

/-- Events in the order in which they happened. -/
structure Journal where
  events : List Event
deriving DecidableEq

namespace Journal

/-- A journal without events. -/
def empty : Journal := ⟨[]⟩

/-- Writes down an event. -/
def record (j : Journal) (e : Event) : Journal := ⟨j.events ++ [e]⟩

/-- Writes down the events of another journal after its own. -/
def append (j other : Journal) : Journal := ⟨j.events ++ other.events⟩

/-- Writes down a remark of a kind. -/
def remark (j : Journal) (kind : EventKind) (message : String) : Journal :=
  j.record ((Event.ofKind kind).saying message)

/-- The number of events. -/
def length (j : Journal) : Nat := j.events.length

/-- The events of a kind, in order. -/
def ofKind (j : Journal) (kind : EventKind) : List Event :=
  j.events.filter fun e => e.kind == kind

/-- Whether there is an event of a kind. -/
def has (j : Journal) (kind : EventKind) : Bool := j.events.any fun e => e.kind == kind

/-- The number of events of a kind. -/
def count (j : Journal) (kind : EventKind) : Nat := (j.ofKind kind).length

/-- The events caused by a registration, in order. -/
def ofRegistration (j : Journal) (label : String) : List Event :=
  j.events.filter fun e => e.registration == some label

/-- The edits, in order. -/
def transformations (j : Journal) : List Event := j.events.filter fun e => e.kind.isTransformation

/-- The failures and remarks, in order. -/
def diagnostics (j : Journal) : List Event := j.events.filter fun e => e.kind.isDiagnostic

/-- Class and method of an event that knows both. -/
def editedMethod? (e : Event) : Option (String × String) :=
  match e.className, e.method with
  | some className, some method => some (className, method)
  | _, _ => none

/-- The number of different methods with an edit. -/
def methodsAffected (j : Journal) : Nat :=
  (j.transformations.filterMap editedMethod?).eraseDups.length

/-- The kinds that occur, with their counts, in the order of the kinds. -/
def counts (j : Journal) : List (EventKind × Nat) :=
  (EventKind.all.map fun kind => (kind, j.count kind)).filter fun entry => entry.2 ≠ 0

/-- The counts of edits in one line, sorted as text; a journal without edits tells only how many
events it holds. -/
def summary (j : Journal) : String :=
  if j.events.isEmpty then "no events"
  else
    let parts := (j.counts.filter fun entry => entry.1.isTransformation).map fun entry =>
      toString entry.2 ++ " " ++ entry.1.description
    if parts.isEmpty then toString j.length ++ " events"
    else ", ".intercalate (parts.mergeSort fun a b => decide (a ≤ b))

@[simp] theorem events_record (j : Journal) (e : Event) : (j.record e).events = j.events ++ [e] :=
  rfl

@[simp] theorem events_append (j other : Journal) :
    (j.append other).events = j.events ++ other.events := rfl

end Journal

end ClassEdit
