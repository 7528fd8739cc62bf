import ClassEdit.Descriptor.Parser

/-!
# Reading descriptors decides their grammar

A field type is written as one letter, as a nonempty class name between `L` and the first `;` behind
it, or as an opening bracket before another field type. A method descriptor writes any number of
field types between parentheses, and then a field type or `V`. No field type begins another one and
none begins with a closing parenthesis, so there is one way to take a text apart, and the reader
finds it from left to right.

The reader is compared with the printer: what it takes off the front of a text is the written form
of the type that it returns, and of well-formed types it gives back every one. The grammar describes
just the written forms of well-formed types.

## Main definitions

* `FieldText`, `ArgumentsText`, `MethodText`: the grammar.
* `TypeDescriptor.WellFormed`, `MethodDescriptor.WellFormed`: the values that can be written.

## Main results

* `TypeDescriptor.read_eq_ok_iff`, `MethodDescriptor.readArguments_eq_ok_iff`: what is taken off the
  front of a text.
* `descriptor_parse_exact`: reading succeeds on the grammar and inverts writing.
-/

namespace ClassEdit

/-! ### The grammar -/

/-- The written forms of field types. -/
inductive FieldText : List Char → Prop
  | letter {tag : Char} (htag : tag ∈ ['Z', 'B', 'C', 'S', 'I', 'J', 'F', 'D']) : FieldText [tag]
  | object {name : List Char} (hname : name ≠ []) (hclosed : ';' ∉ name) :
      FieldText ('L' :: name ++ [';'])
  | array {element : List Char} (helement : FieldText element) : FieldText ('[' :: element)

/-- Any number of field types, one behind the other. -/
inductive ArgumentsText : List Char → Prop
  | nil : ArgumentsText []
  | cons {first rest : List Char} (hfirst : FieldText first) (hrest : ArgumentsText rest) :
      ArgumentsText (first ++ rest)

/-- The written forms of method descriptors. -/
inductive MethodText : List Char → Prop
  | intro {arguments result : List Char} (harguments : ArgumentsText arguments)
      (hresult : FieldText result ∨ result = ['V']) :
      MethodText ('(' :: arguments ++ ')' :: result)

/-! ### Types -/

namespace TypeDescriptor

variable {t : TypeDescriptor} {cs left name : List Char} {s : String}

/-- Class names are not empty and hold no `;`, and no array has void elements. -/
def WellFormed : TypeDescriptor → Prop
  | .object name => name ≠ "" ∧ ';' ∉ name.toList
  | .array element => element ≠ .void ∧ element.WellFormed
  | _ => True

/-- A name is split off at the first `;`. -/
theorem splitName_eq_some_iff :
    splitName cs = some (name, left) ↔ ';' ∉ name ∧ cs = name ++ ';' :: left := by
  induction cs generalizing name with
  | nil => simp [splitName]
  | cons c cs ih =>
    rw [splitName]
    by_cases hc : c = ';'
    · -- the name ends here, so a longer one would begin with the `;`
      cases name with
      | nil => simp [hc, eq_comm]
      | cons c' name => grind
    · cases name with
      | nil => simp [hc]
      | cons c' name =>
        simp only [hc, if_false, Option.map_eq_some_iff, Prod.exists, Prod.mk.injEq]
        grind

/-- A letter that denotes a type is its written form. -/
theorem chars_of_ofTag? {tag : Char} (h : ofTag? tag = some t) :
    t.WellFormed ∧ t.chars = [tag] := by
  unfold ofTag? at h
  split at h <;> cases h <;> exact ⟨trivial, rfl⟩

theorem chars_of_readObject {input : List Char} (h : readObject input cs = .ok (t, left)) :
    t.WellFormed ∧ 'L' :: cs = t.chars ++ left := by
  unfold readObject at h
  split at h
  · cases h
  · cases h
  · rename_i c name left' hsplit
    obtain ⟨hclosed, rfl⟩ := splitName_eq_some_iff.1 hsplit
    cases h
    refine ⟨⟨?_, by simpa using hclosed⟩, by simp [chars]⟩
    intro hempty
    simpa using congrArg String.toList hempty

/-- What is read off the front of a text is the written form of what is returned. -/
theorem chars_of_read (h : read cs = .ok (t, left)) : t.WellFormed ∧ cs = t.chars ++ left := by
  induction cs generalizing t left with
  | nil => simp [read] at h
  | cons tag rest ih =>
    unfold read at h
    split at h
    · rename_i t' htag
      cases h
      obtain ⟨hwell, hchars⟩ := chars_of_ofTag? htag
      exact ⟨hwell, by simp [hchars]⟩
    · split at h
      · rename_i htag
        rw [htag]
        exact chars_of_readObject h
      · split at h
        · rename_i htag
          -- the elements of an array are read in the same way, one character further on
          split at h
          · cases h
          · rename_i element left' hrest
            split at h
            · cases h
            · rename_i hvoid
              cases h
              obtain ⟨hwell, hchars⟩ := ih hrest
              exact ⟨⟨hvoid, hwell⟩, by rw [htag, hchars, chars, List.cons_append]⟩
        · cases h

/-- The written form of a well-formed type is read back, whatever follows it. -/
theorem read_chars_append (ht : t.WellFormed) : read (t.chars ++ left) = .ok (t, left) := by
  induction t with
  | object name =>
    obtain ⟨hname, hclosed⟩ := ht
    have hsplit : splitName (name.toList ++ ';' :: left) = some (name.toList, left) :=
      splitName_eq_some_iff.2 ⟨hclosed, rfl⟩
    cases hchars : name.toList with
    | nil => exact absurd (String.toList_eq_nil_iff.1 hchars) hname
    | cons c rest =>
      rw [hchars, List.cons_append] at hsplit
      have hback : String.ofList (c :: rest) = name := by rw [← hchars, String.ofList_toList]
      simp [chars, read, ofTag?, readObject, hchars, hsplit, hback]
  | array element ih =>
    obtain ⟨hvoid, hwell⟩ := ht
    simp [chars, read, ofTag?, ih hwell, hvoid]
  | _ => rfl

theorem read_eq_ok_iff : read cs = .ok (t, left) ↔ t.WellFormed ∧ cs = t.chars ++ left := by
  constructor
  · exact chars_of_read
  · rintro ⟨ht, rfl⟩
    exact read_chars_append ht

/-- Types are parsed from their written forms, and from nothing else. -/
theorem parse_eq_ok_iff : parse s = .ok t ↔ t.WellFormed ∧ t.text = s := by
  have hread : parse s = .ok t ↔ read s.toList = .ok (t, []) := by
    unfold parse
    split <;> simp_all
  rw [hread, read_eq_ok_iff, List.append_nil, ← String.toList_inj, text, String.toList_ofList,
    eq_comm (a := s.toList)]

/-- The field types of the grammar are the written forms of well-formed types other than `void`. -/
theorem fieldText_iff : FieldText cs ↔ ∃ t : TypeDescriptor, t ≠ .void ∧ t.WellFormed ∧
    t.chars = cs := by
  constructor
  · -- a text of the grammar is read off letter by letter
    intro h
    induction h with
    | letter htag =>
      simp only [List.mem_cons, List.not_mem_nil, or_false] at htag
      rcases htag with rfl | rfl | rfl | rfl | rfl | rfl | rfl | rfl
      · exact ⟨.boolean, nofun, trivial, rfl⟩
      · exact ⟨.byte, nofun, trivial, rfl⟩
      · exact ⟨.char, nofun, trivial, rfl⟩
      · exact ⟨.short, nofun, trivial, rfl⟩
      · exact ⟨.int, nofun, trivial, rfl⟩
      · exact ⟨.long, nofun, trivial, rfl⟩
      · exact ⟨.float, nofun, trivial, rfl⟩
      · exact ⟨.double, nofun, trivial, rfl⟩
    | @object name hname hclosed =>
      refine ⟨.object (String.ofList name), nofun, ⟨?_, by simpa using hclosed⟩, by simp [chars]⟩
      intro hempty
      exact hname (by simpa using congrArg String.toList hempty)
    | array _ ih =>
      obtain ⟨element, hvoid, hwell, rfl⟩ := ih
      exact ⟨.array element, nofun, ⟨hvoid, hwell⟩, rfl⟩
  · rintro ⟨t, hvoid, hwell, rfl⟩
    -- and a type writes down the letter or the brackets that it was read from
    induction t with
    | void => exact absurd rfl hvoid
    | object name =>
      obtain ⟨hname, hclosed⟩ := hwell
      exact .object (by simpa using hname) hclosed
    | array element ih => exact .array (ih hwell.1 hwell.2)
    | _ => exact .letter (by simp)

/-- No written form begins with a closing parenthesis. -/
theorem chars_ne_close {rest : List Char} : t.chars ++ left ≠ ')' :: rest := by
  cases t <;> simp [chars]

end TypeDescriptor

/-! ### Methods -/

namespace MethodDescriptor

variable {d : MethodDescriptor} {ts : List TypeDescriptor} {cs left : List Char} {s whole : String}

/-- Types that arguments may have. -/
def AreArguments (ts : List TypeDescriptor) : Prop := ∀ t ∈ ts, t ≠ .void ∧ t.WellFormed

/-- No argument is void, and all types are well formed. -/
structure WellFormed (d : MethodDescriptor) : Prop where
  arguments : AreArguments d.arguments
  result : d.result.WellFormed

theorem areArguments_cons {t : TypeDescriptor} :
    AreArguments (t :: ts) ↔ (t ≠ .void ∧ t.WellFormed) ∧ AreArguments ts :=
  List.forall_mem_cons

/-- Arguments are read up to the first closing parenthesis that does not belong to a class name. -/
theorem readArguments_eq_ok_iff :
    readArguments whole cs = .ok (ts, left) ↔
      AreArguments ts ∧ cs = ts.flatMap TypeDescriptor.chars ++ ')' :: left := by
  constructor
  · intro h
    -- along the reader, which stops at the closing bracket or fails
    fun_induction readArguments whole cs generalizing ts left with
    | case1 rest =>
      cases h
      simp [AreArguments]
    | case2 | case3 | case4 => cases h
    | case5 cs _ t left' hread hvoid others rest hrest ih =>
      cases h
      obtain ⟨hwell, rfl⟩ := TypeDescriptor.chars_of_read hread
      obtain ⟨hothers, rfl⟩ := ih hrest
      exact ⟨areArguments_cons.2 ⟨⟨hvoid, hwell⟩, hothers⟩, by simp⟩
  · rintro ⟨hts, rfl⟩
    -- along the types, with what is left behind them fixed
    induction ts with
    | nil => simp [readArguments]
    | cons t ts ih =>
      obtain ⟨⟨hvoid, hwell⟩, hothers⟩ := areArguments_cons.1 hts
      have hread : ∀ left, TypeDescriptor.read (t.chars ++ left) = .ok (t, left) :=
        fun _ => TypeDescriptor.read_chars_append hwell
      rw [List.flatMap_cons, List.append_assoc, readArguments]
      · split <;> simp_all
      · -- a type comes first here, and not the end of the arguments
        intro rest
        exact TypeDescriptor.chars_ne_close

/-- The name of a class runs to the next semicolon, over whatever would end the arguments. -/
example : parse "(La)b;)V" = .ok ⟨[.object "a)b"], .void⟩ := by cbv

/-- What is parsed is well formed, and was its written form. -/
theorem text_of_parse (h : parse s = .ok d) : d.WellFormed ∧ d.text = s := by
  unfold parse at h
  split at h
  · rename_i rest hs
    split at h
    · cases h
    · rename_i arguments left hread
      split at h
      · cases h
      · rename_i result hresult
        cases h
        obtain ⟨harguments, rfl⟩ := readArguments_eq_ok_iff.1 hread
        obtain ⟨hwell, htext⟩ := TypeDescriptor.parse_eq_ok_iff.1 hresult
        have hleft : result.chars = left := String.ofList_injective htext
        refine ⟨⟨harguments, hwell⟩, ?_⟩
        rw [← String.toList_inj, hs, text, String.toList_ofList, chars, hleft, List.cons_append]
  · cases h

/-- The written form of a well-formed descriptor is parsed back. -/
theorem parse_text (h : d.WellFormed) : parse d.text = .ok d := by
  have harguments : readArguments d.text (d.arguments.flatMap TypeDescriptor.chars ++
      ')' :: d.result.chars) = .ok (d.arguments, d.result.chars) :=
    readArguments_eq_ok_iff.2 ⟨h.arguments, rfl⟩
  have hresult : TypeDescriptor.parse (String.ofList d.result.chars) = .ok d.result :=
    TypeDescriptor.parse_eq_ok_iff.2 ⟨h.result, rfl⟩
  have hchars : d.text.toList = '(' :: (d.arguments.flatMap TypeDescriptor.chars ++
      ')' :: d.result.chars) := by
    rw [text, String.toList_ofList, chars, List.cons_append]
  simp [parse, hchars, harguments, hresult]

/-- Method descriptors are parsed from their written forms, and from nothing else. -/
theorem parse_eq_ok_iff : parse s = .ok d ↔ d.WellFormed ∧ d.text = s := by
  constructor
  · exact text_of_parse
  · rintro ⟨hd, rfl⟩
    exact parse_text hd

/-- Arguments of the grammar are the written forms of types that arguments may have. -/
theorem argumentsText_iff :
    ArgumentsText cs ↔ ∃ ts, AreArguments ts ∧ ts.flatMap TypeDescriptor.chars = cs := by
  constructor
  · intro h
    induction h with
    | nil => exact ⟨[], nofun, rfl⟩
    | cons hfirst _ ih =>
      obtain ⟨t, hvoid, hwell, rfl⟩ := TypeDescriptor.fieldText_iff.1 hfirst
      obtain ⟨ts, hts, rfl⟩ := ih
      exact ⟨t :: ts, areArguments_cons.2 ⟨⟨hvoid, hwell⟩, hts⟩, List.flatMap_cons⟩
  · rintro ⟨ts, hts, rfl⟩
    induction ts with
    | nil => exact .nil
    | cons t ts ih =>
      obtain ⟨⟨hvoid, hwell⟩, hothers⟩ := areArguments_cons.1 hts
      exact .cons (TypeDescriptor.fieldText_iff.2 ⟨t, hvoid, hwell, rfl⟩) (ih hothers)

/-- The method descriptors of the grammar are the written forms of well-formed ones. -/
theorem methodText_iff : MethodText cs ↔ ∃ d : MethodDescriptor, d.WellFormed ∧ d.chars = cs := by
  constructor
  · rintro ⟨harguments, hresult⟩
    obtain ⟨ts, hts, rfl⟩ := argumentsText_iff.1 harguments
    rcases hresult with hresult | rfl
    · obtain ⟨t, -, hwell, rfl⟩ := TypeDescriptor.fieldText_iff.1 hresult
      exact ⟨⟨ts, t⟩, ⟨hts, hwell⟩, rfl⟩
    · exact ⟨⟨ts, .void⟩, ⟨hts, trivial⟩, rfl⟩
  · rintro ⟨⟨ts, result⟩, ⟨hts, hwell⟩, rfl⟩
    refine .intro (argumentsText_iff.2 ⟨ts, hts, rfl⟩) ?_
    by_cases hvoid : result = .void
    · exact .inr (by rw [hvoid]; rfl)
    · exact .inl (TypeDescriptor.fieldText_iff.2 ⟨result, hvoid, hwell, rfl⟩)

end MethodDescriptor

/-- Descriptors are parsed exactly if they belong to the grammar. Parsing and writing are inverse to
each other: what is parsed from a text is well formed and written as this text, and every
well-formed value is parsed from its written form. -/
theorem descriptor_parse_exact :
    (∀ s, (∃ t, TypeDescriptor.parse s = .ok t) ↔ FieldText s.toList ∨ s = "V") ∧
      (∀ s, (∃ d, MethodDescriptor.parse s = .ok d) ↔ MethodText s.toList) ∧
        (∀ s t, TypeDescriptor.parse s = .ok t ↔ t.WellFormed ∧ t.text = s) ∧
          ∀ s d, MethodDescriptor.parse s = .ok d ↔ d.WellFormed ∧ d.text = s := by
  refine ⟨fun s => ?_, fun s => ?_, fun _ _ => TypeDescriptor.parse_eq_ok_iff,
    fun _ _ => MethodDescriptor.parse_eq_ok_iff⟩
  · simp only [TypeDescriptor.parse_eq_ok_iff, TypeDescriptor.fieldText_iff]
    constructor
    · rintro ⟨t, hwell, rfl⟩
      by_cases hvoid : t = .void
      · exact .inr (by rw [hvoid]; rfl)
      · exact .inl ⟨t, hvoid, hwell, by simp [TypeDescriptor.text]⟩
    · rintro (⟨t, -, hwell, hchars⟩ | rfl)
      · exact ⟨t, hwell, by rw [TypeDescriptor.text, hchars, String.ofList_toList]⟩
      · exact ⟨.void, trivial, rfl⟩
  · simp only [MethodDescriptor.parse_eq_ok_iff, MethodDescriptor.methodText_iff]
    refine exists_congr fun d => and_congr_right fun _ => ?_
    rw [← String.toList_inj, MethodDescriptor.text, String.toList_ofList]

end ClassEdit
