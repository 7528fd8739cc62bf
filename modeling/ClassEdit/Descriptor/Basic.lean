/-!
# Type and method descriptors

Descriptors are the only type information that a class file carries for its members. A type
descriptor is one letter for a primitive type, a class name between `L` and `;`, or an opening
bracket before the descriptor of the elements of an array. A method descriptor lists the arguments
between parentheses and ends with the result. `void` is kept among the types because a result may
be void.

## Main definitions

* `TypeDescriptor`: what a type descriptor denotes, with the operand stack slots it takes.
* `MethodDescriptor`: what a method descriptor denotes.
* `TypeDescriptor.text`, `MethodDescriptor.text`: the written forms.
-/

namespace ClassEdit

/-- What a type descriptor denotes. -/
inductive TypeDescriptor where
  | void
  | boolean
  | byte
  | char
  | short
  | int
  | long
  | float
  | double
  | object (name : String)
  | array (element : TypeDescriptor)
deriving DecidableEq

/-- The name of a class with slashes between its parts, whichever way it was given. -/
def internalName (name : String) : String :=
  String.ofList (name.toList.map fun c => if c = '.' then '/' else c)

namespace TypeDescriptor

/-- The type of a class given by its dotted or internal name. -/
def ofClass (name : String) : TypeDescriptor := .object (internalName name)

/-- The type of strings. -/
def string : TypeDescriptor := .object "java/lang/String"

/-- The characters of the written form. -/
def chars : TypeDescriptor → List Char
  | .void => ['V']
  | .boolean => ['Z']
  | .byte => ['B']
  | .char => ['C']
  | .short => ['S']
  | .int => ['I']
  | .long => ['J']
  | .float => ['F']
  | .double => ['D']
  | .object name => 'L' :: name.toList ++ [';']
  | .array element => '[' :: element.chars

/-- The written form. -/
def text (t : TypeDescriptor) : String := String.ofList t.chars

instance : ToString TypeDescriptor := ⟨text⟩

/-- The number of slots that a value of the type takes: two for `long` and `double`. -/
def slots : TypeDescriptor → UInt16
  | .void => 0
  | .long | .double => 2
  | _ => 1

/-- Whether values of the type are references. -/
def isReference : TypeDescriptor → Bool
  | .object _ | .array _ => true
  | _ => false

/-- The number of array levels around the innermost element type. -/
def dimensions : TypeDescriptor → Nat
  | .array element => element.dimensions + 1
  | _ => 0

/-- The innermost element type of an array, and any other type itself. -/
def innermost : TypeDescriptor → TypeDescriptor
  | .array element => element.innermost
  | t => t

end TypeDescriptor

/-- What a method descriptor denotes. -/
structure MethodDescriptor where
  arguments : List TypeDescriptor
  result : TypeDescriptor
deriving DecidableEq

/-- The number of slots that values of several types take, counted in 16 bits. -/
def totalSlots : List TypeDescriptor → UInt16
  | [] => 0
  | t :: rest => t.slots + totalSlots rest

namespace MethodDescriptor

/-- The number of slots that the arguments take, the receiver not counted. -/
def argumentSlots (d : MethodDescriptor) : UInt16 := totalSlots d.arguments

/-- The characters of the written form. -/
def chars (d : MethodDescriptor) : List Char :=
  '(' :: d.arguments.flatMap TypeDescriptor.chars ++ ')' :: d.result.chars

/-- The written form. -/
def text (d : MethodDescriptor) : String := String.ofList d.chars

instance : ToString MethodDescriptor := ⟨text⟩

end MethodDescriptor

end ClassEdit
