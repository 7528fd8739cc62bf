import ClassEdit.Descriptor.Basic

/-!
# Reading descriptors

A type descriptor is recognised by its first letter, so it can be read off the front of a text;
what is left is strictly shorter, which ends the reading of an argument list. A bare `V` is read
as a type as well: where no value can be void, the caller has to look at what was read.

## Main definitions

* `DescriptorError`: why a text is no descriptor.
* `TypeDescriptor.read`: one type off the front of a text.
* `TypeDescriptor.parse`, `MethodDescriptor.parse`: whole texts.

## Main results

* `TypeDescriptor.length_of_read`: reading a type leaves less than there was.
-/

namespace ClassEdit

/-- Why a text is no descriptor. The text kept with a cause starts at the type it is about, or is
the whole descriptor. -/
inductive DescriptorError where
  | nothing
  | trailing (whole : String)
  | unterminated (input : String)
  | emptyName (input : String)
  | arrayOfVoid (input : String)
  | unknownTag (tag : Char) (input : String)
  | noParenthesis (whole : String)
  | voidArgument (whole : String)
deriving DecidableEq

/-- The wording of a cause. -/
def DescriptorError.message : DescriptorError → String
  | .nothing => "empty descriptor"
  | .trailing whole => "trailing characters in '" ++ whole ++ "'"
  | .unterminated input => "unterminated object type in '" ++ input ++ "'"
  | .emptyName input => "empty class name in '" ++ input ++ "'"
  | .arrayOfVoid input => "array of void in '" ++ input ++ "'"
  | .unknownTag tag input => "unknown type tag '" ++ tag.toString ++ "' in '" ++ input ++ "'"
  | .noParenthesis whole => "method descriptor '" ++ whole ++ "' lacks '('"
  | .voidArgument whole => "void argument in '" ++ whole ++ "'"

namespace TypeDescriptor

/-- The class name before the first `;` and what follows it. -/
def splitName : List Char → Option (List Char × List Char)
  | [] => none
  | c :: rest =>
    if c = ';' then some ([], rest)
    else (splitName rest).map fun (name, left) => (c :: name, left)

/-- The type that a letter alone denotes. -/
def ofTag? : Char → Option TypeDescriptor
  | 'V' => some .void
  | 'Z' => some .boolean
  | 'B' => some .byte
  | 'C' => some .char
  | 'S' => some .short
  | 'I' => some .int
  | 'J' => some .long
  | 'F' => some .float
  | 'D' => some .double
  | _ => none

/-- Reads a class name and its closing `;`; `input` is the text from the `L` on. -/
def readObject (input : List Char) (rest : List Char) :
    Except DescriptorError (TypeDescriptor × List Char) :=
  match splitName rest with
  | none => .error (.unterminated (String.ofList input))
  | some ([], _) => .error (.emptyName (String.ofList input))
  | some (c :: name, left) => .ok (.object (String.ofList (c :: name)), left)

/-- Reads one type off the front of a text. -/
def read : List Char → Except DescriptorError (TypeDescriptor × List Char)
  | [] => .error .nothing
  | tag :: rest =>
    match ofTag? tag with
    | some t => .ok (t, rest)
    | none =>
      if tag = 'L' then readObject (tag :: rest) rest
      else if tag = '[' then
        match read rest with
        | .error e => .error e
        | .ok (element, left) =>
          if element = .void then .error (.arrayOfVoid (String.ofList (tag :: rest)))
          else .ok (.array element, left)
      else .error (.unknownTag tag (String.ofList (tag :: rest)))

theorem length_of_splitName {cs name left : List Char}
    (h : splitName cs = some (name, left)) : left.length < cs.length := by
  induction cs generalizing name with
  | nil => simp [splitName] at h
  | cons c rest ih =>
    unfold splitName at h
    split at h
    · cases h
      simp
    · obtain ⟨⟨n, l⟩, hrest, heq⟩ := Option.map_eq_some_iff.1 h
      cases heq
      exact Nat.lt_succ_of_lt (ih hrest)

theorem length_of_readObject {input cs left : List Char} {t : TypeDescriptor}
    (h : readObject input cs = .ok (t, left)) : left.length < cs.length := by
  unfold readObject at h
  split at h
  · cases h
  · cases h
  · rename_i hsplit
    cases h
    exact length_of_splitName hsplit

/-- Reading a type leaves less than there was. -/
theorem length_of_read {cs left : List Char} {t : TypeDescriptor}
    (h : read cs = .ok (t, left)) : left.length < cs.length := by
  induction cs generalizing t left with
  | nil => simp [read] at h
  | cons tag rest ih =>
    unfold read at h
    split at h
    · cases h
      simp
    · split at h
      · exact Nat.lt_succ_of_lt (length_of_readObject h)
      · split at h
        · split at h
          · cases h
          · rename_i hrest
            split at h
            · cases h
            · cases h
              exact Nat.lt_succ_of_lt (ih hrest)
        · cases h

/-- The type written as the whole of a text. -/
def parse (descriptor : String) : Except DescriptorError TypeDescriptor :=
  match read descriptor.toList with
  | .error e => .error e
  | .ok (t, []) => .ok t
  | .ok (_, _ :: _) => .error (.trailing descriptor)

end TypeDescriptor

namespace MethodDescriptor

/-- Reads argument types up to the closing parenthesis; `whole` is named in the error about a void
argument. -/
def readArguments (whole : String) (cs : List Char) :
    Except DescriptorError (List TypeDescriptor × List Char) :=
  match cs with
  | ')' :: rest => .ok ([], rest)
  | cs =>
    match _h : TypeDescriptor.read cs with
    | .error e => .error e
    | .ok (t, left) =>
      if t = .void then .error (.voidArgument whole)
      else
        match readArguments whole left with
        | .error e => .error e
        | .ok (ts, rest) => .ok (t :: ts, rest)
termination_by cs.length
decreasing_by exact TypeDescriptor.length_of_read _h

/-- The method descriptor written as the whole of a text. -/
def parse (descriptor : String) : Except DescriptorError MethodDescriptor :=
  match descriptor.toList with
  | '(' :: rest =>
    match readArguments descriptor rest with
    | .error e => .error e
    | .ok (arguments, left) =>
      match TypeDescriptor.parse (String.ofList left) with
      | .error e => .error e
      | .ok result => .ok ⟨arguments, result⟩
  | _ => .error (.noParenthesis descriptor)

end MethodDescriptor

end ClassEdit
