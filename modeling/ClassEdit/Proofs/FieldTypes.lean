import Mathlib.Data.List.Forall2
import ClassEdit.Class.Draft
import ClassEdit.Proofs.DescriptorGrammar
import ClassEdit.Proofs.Edit

/-!
# Types of fields

The type of a field is read like that of a result, so `V` is taken for one. Every other text is
refused unless the grammar has it as a field type: where a field is declared, where a class is put
together, and where an instruction reads or writes a field. An access to a field of type `V` moves
no slot, apart from the reference to an instance that it may pop, and all other accesses do.

## Main results

* `TypeDescriptor.exists_parse_iff`: the texts that are read as types.
* `ClassDraft.exists_build_iff`: the classes that can be put together.
* `FieldRef.effect_refused_iff`, `FieldRef.exists_effect_without_value_iff`: the accesses that are
  refused over their descriptor, and those that move no value.
* `fieldTypes_exact`: void is the one type that fields have without being field types.
-/

namespace ClassEdit

/-! ### Texts that are read as types -/

namespace TypeDescriptor

variable {t : TypeDescriptor} {s : String}

theorem slots_eq_zero_iff : t.slots = 0 ↔ t = .void := by
  cases t <;> simp [slots]

theorem chars_eq_void_iff : t.chars = ['V'] ↔ t = .void := by
  cases t <;> simp [chars]

/-- Only `V` is read as void. -/
theorem eq_void_iff_of_parse (h : parse s = .ok t) : t = .void ↔ s = "V" := by
  obtain ⟨-, rfl⟩ := parse_eq_ok_iff.1 h
  rw [← chars_eq_void_iff, text, ← String.toList_inj, String.toList_ofList]
  rfl

/-- Apart from `V`, just the field types of the grammar are read. -/
theorem exists_parse_iff : (∃ t, parse s = .ok t) ↔ FieldText s.toList ∨ s = "V" := by
  rw [fieldText_iff]
  constructor
  · rintro ⟨t, h⟩
    obtain ⟨hwell, rfl⟩ := parse_eq_ok_iff.1 h
    by_cases hvoid : t = .void
    · exact .inr ((eq_void_iff_of_parse h).1 hvoid)
    · exact .inl ⟨t, hvoid, hwell, (String.toList_ofList).symm⟩
  · rintro (⟨t, -, hwell, hchars⟩ | rfl)
    · exact ⟨t, parse_eq_ok_iff.2 ⟨hwell, by rw [text, hchars, String.ofList_toList]⟩⟩
    · exact ⟨.void, rfl⟩

end TypeDescriptor

/-! ### Declarations -/

theorem FieldDecl.ofDescriptor_eq_ok_iff {owner name descriptor : String} {access : AccessFlags}
    {f : FieldDecl} : ofDescriptor owner name descriptor access = .ok f ↔
      ∃ t, TypeDescriptor.parse descriptor = .ok t ∧ f = ⟨owner, name, descriptor, access, t⟩ := by
  rw [ofDescriptor, bind_eq_ok_iff]
  refine exists_congr fun t => and_congr TypeDescriptor.parsed_eq_ok_iff ?_
  exact ⟨fun h => by cases h; rfl, fun h => by rw [h]; rfl⟩

/-- A field is declared if its descriptor is read as a type. -/
theorem FieldDecl.exists_ofDescriptor_iff {owner name descriptor : String} {access : AccessFlags} :
    (∃ f, ofDescriptor owner name descriptor access = .ok f) ↔
      FieldText descriptor.toList ∨ descriptor = "V" := by
  simp only [ofDescriptor_eq_ok_iff, ← TypeDescriptor.exists_parse_iff]
  exact ⟨fun ⟨_, t, ht, _⟩ => ⟨t, ht⟩, fun ⟨t, ht⟩ => ⟨_, t, ht, rfl⟩⟩

/-- Its type is void if the descriptor is `V`. -/
theorem FieldDecl.exists_void_iff {owner name descriptor : String} {access : AccessFlags} :
    (∃ f, ofDescriptor owner name descriptor access = .ok f ∧ f.type = .void) ↔
      descriptor = "V" := by
  simp only [ofDescriptor_eq_ok_iff]
  constructor
  · rintro ⟨_, ⟨t, ht, rfl⟩, hvoid⟩
    exact (TypeDescriptor.eq_void_iff_of_parse ht).1 hvoid
  · rintro rfl
    exact ⟨_, ⟨.void, rfl, rfl⟩, rfl⟩

/-- A method is declared if its descriptor is read as one of a method. -/
theorem MethodDraft.exists_build_iff {d : MethodDraft} :
    (∃ m, d.build = .ok m) ↔ MethodText d.descriptor.toList := by
  have hparsed : (∃ m, d.build = .ok m) ↔ ∃ t, MethodDescriptor.parse d.descriptor = .ok t := by
    simp only [build, typed, MethodDecl.ofDescriptor, bind_eq_ok_iff,
      MethodDescriptor.parsed_eq_ok_iff]
    constructor
    · rintro ⟨_, _, ⟨_, ⟨t, ht, -⟩, -⟩, -⟩
      exact ⟨t, ht⟩
    · rintro ⟨t, ht⟩
      exact ⟨_, _, ⟨_, ⟨t, ht, rfl⟩, rfl⟩, rfl⟩
  rw [hparsed, MethodDescriptor.methodText_iff]
  refine exists_congr fun t => MethodDescriptor.parse_eq_ok_iff.trans (and_congr_right fun _ => ?_)
  rw [MethodDescriptor.text, ← String.toList_inj, String.toList_ofList]

/-- Members are built one after the other, and all of them have to be. -/
theorem exists_mapM_eq_ok_iff {ε α β : Type} {f : α → Except ε β} {as : List α} :
    (∃ bs, as.mapM f = .ok bs) ↔ ∀ a ∈ as, ∃ b, f a = .ok b := by
  induction as with
  | nil => exact iff_of_true ⟨[], rfl⟩ nofun
  | cons a as ih =>
    rw [List.forall_mem_cons, ← ih, List.mapM_cons]
    simp only [bind_eq_ok_iff]
    constructor
    · rintro ⟨_, b, hb, bs, hbs, -⟩
      exact ⟨⟨b, hb⟩, bs, hbs⟩
    · rintro ⟨⟨b, hb⟩, bs, hbs⟩
      exact ⟨_, b, hb, bs, hbs, rfl⟩

/-- A class is put together if the descriptors of all its members are read. -/
theorem ClassDraft.exists_build_iff {d : ClassDraft} : (∃ c, d.build = .ok c) ↔
    (∀ f ∈ d.fields, FieldText f.descriptor.toList ∨ f.descriptor = "V") ∧
      ∀ m ∈ d.methods, MethodText m.descriptor.toList := by
  have hfields : (∃ fields, d.fields.mapM (fun f =>
      FieldDecl.ofDescriptor d.name f.name f.descriptor f.access) = .ok fields) ↔ _ :=
    exists_mapM_eq_ok_iff
  have hmethods : (∃ methods, d.methods.mapM MethodDraft.build = .ok methods) ↔ _ :=
    exists_mapM_eq_ok_iff
  simp only [FieldDecl.exists_ofDescriptor_iff] at hfields
  simp only [MethodDraft.exists_build_iff] at hmethods
  rw [← hfields, ← hmethods]
  simp only [build, bind_eq_ok_iff]
  constructor
  · rintro ⟨_, fields, hfields, methods, hmethods, -⟩
    exact ⟨⟨fields, hfields⟩, methods, hmethods⟩
  · rintro ⟨⟨fields, hfields⟩, methods, hmethods⟩
    exact ⟨_, fields, hfields, methods, hmethods, rfl⟩

/-! ### Accesses to fields -/

namespace FieldRef

variable {f : FieldRef} {e : StackEffect}

/-- The operations that read or write a field. -/
def accessOpcodes : List Opcode :=
  [Opcode.getstatic, Opcode.putstatic, Opcode.getfield, Opcode.putfield]

/-- The slots of the reference to an instance, which an access to one of its fields pops. -/
def instanceSlots (f : FieldRef) : UInt16 := if f.isStatic then 0 else 1

theorem exists_fieldEffect?_iff {opcode : Opcode} {slots : UInt16} :
    (∃ e, fieldEffect? opcode slots = some e) ↔ opcode ∈ accessOpcodes := by
  simp only [accessOpcodes, List.mem_cons, List.not_mem_nil, or_false]
  unfold fieldEffect?
  split
  · simp [*]
  · split
    · simp [*]
    · split
      · simp [*]
      · split <;> simp [*]

/-- An access moves the reference to the instance and the value of the field. -/
theorem moved_of_fieldEffect? {slots : UInt16} (h : fieldEffect? f.opcode slots = some e) :
    e.pops + e.pushes = f.instanceSlots + slots := by
  unfold fieldEffect? at h
  split at h
  · rename_i hopcode
    cases h
    simp [instanceSlots, isStatic, hopcode]
  · split at h
    · rename_i hopcode
      cases h
      simp [instanceSlots, isStatic, hopcode]
    · rename_i hget hput
      -- neither operation on statics, so there is an object below the value
      have hinstance : f.instanceSlots = 1 := by simp [instanceSlots, isStatic, hget, hput]
      rw [hinstance]
      split at h
      · cases h
        rfl
      · split at h <;> cases h
        exact UInt16.add_zero _

theorem effect_eq_ok_iff : (Instruction.field f).effect = .ok e ↔
    ∃ t, TypeDescriptor.parse f.descriptor = .ok t ∧ fieldEffect? f.opcode t.slots = some e := by
  rw [Instruction.effect, bind_eq_ok_iff]
  refine exists_congr fun t => and_congr TypeDescriptor.parsed_eq_ok_iff ?_
  cases fieldEffect? f.opcode t.slots <;> simp [inForm]

/-- An access is refused over its descriptor if this is not read as a type. -/
theorem effect_refused_iff : (∃ cause, (Instruction.field f).effect = .error (.descriptor cause)) ↔
    ¬ (FieldText f.descriptor.toList ∨ f.descriptor = "V") := by
  rw [← TypeDescriptor.exists_parse_iff, Instruction.effect, TypeDescriptor.parsed]
  cases TypeDescriptor.parse f.descriptor with
  | error cause => exact iff_of_true ⟨cause, rfl⟩ nofun
  | ok t =>
    refine iff_of_false ?_ (not_not.2 ⟨t, rfl⟩)
    rintro ⟨cause, h⟩
    -- a refusal of the operation is another one
    cases hform : fieldEffect? f.opcode t.slots with
    | none => cases (congrArg (inForm .field f.opcode) hform).symm.trans h
    | some e => cases (congrArg (inForm .field f.opcode) hform).symm.trans h

/-- The accesses that have an effect and move no value. -/
theorem exists_effect_without_value_iff :
    (∃ e, (Instruction.field f).effect = .ok e ∧ e.pops + e.pushes = f.instanceSlots) ↔
      f.descriptor = "V" ∧ f.opcode ∈ accessOpcodes := by
  constructor
  · rintro ⟨e, heffect, hnothing⟩
    obtain ⟨t, hparse, haccess⟩ := effect_eq_ok_iff.1 heffect
    have hmoved := moved_of_fieldEffect? haccess
    have hvoid : t = .void := TypeDescriptor.slots_eq_zero_iff.1
      (by simpa using hmoved.symm.trans hnothing)
    exact ⟨(TypeDescriptor.eq_void_iff_of_parse hparse).1 hvoid,
      exists_fieldEffect?_iff.1 ⟨e, haccess⟩⟩
  · rintro ⟨hdescriptor, hopcode⟩
    obtain ⟨e, haccess⟩ := exists_fieldEffect?_iff.2 hopcode
    refine ⟨e, effect_eq_ok_iff.2 ⟨.void, by rw [hdescriptor]; rfl, haccess⟩, ?_⟩
    exact (moved_of_fieldEffect? haccess).trans (UInt16.add_zero _)

end FieldRef

/-! ### Fields and their types -/

/-- Fields are declared, and accessed, with the field types of the grammar and with `V`. Every other
descriptor is refused, and an access moves no value exactly if it is one to a field of type `V`. -/
theorem fieldTypes_exact (owner name descriptor : String) (access : AccessFlags) (d : ClassDraft)
    (f : FieldRef) :
    ((∃ field, FieldDecl.ofDescriptor owner name descriptor access = .ok field) ↔
      FieldText descriptor.toList ∨ descriptor = "V") ∧
    ((∃ field, FieldDecl.ofDescriptor owner name descriptor access = .ok field ∧
      field.type = .void) ↔ descriptor = "V") ∧
    ((∃ c, d.build = .ok c) ↔
      (∀ field ∈ d.fields, FieldText field.descriptor.toList ∨ field.descriptor = "V") ∧
        ∀ m ∈ d.methods, MethodText m.descriptor.toList) ∧
    ((∃ cause, (Instruction.field f).effect = .error (.descriptor cause)) ↔
      ¬ (FieldText f.descriptor.toList ∨ f.descriptor = "V")) ∧
    ((∃ e, (Instruction.field f).effect = .ok e ∧ e.pops + e.pushes = f.instanceSlots) ↔
      f.descriptor = "V" ∧ f.opcode ∈ FieldRef.accessOpcodes) :=
  ⟨FieldDecl.exists_ofDescriptor_iff, FieldDecl.exists_void_iff, ClassDraft.exists_build_iff,
    FieldRef.effect_refused_iff, FieldRef.exists_effect_without_value_iff⟩

/-- A field of type void is declared, alone and in a class, and an access to it moves no slot at
all, although `V` is no field type. -/
theorem fieldTypes_with_void :
    ¬ FieldText "V".toList ∧
      FieldDecl.ofDescriptor "a/A" "x" "V" .none = .ok ⟨"a/A", "x", "V", .none, .void⟩ ∧
        (∃ c, ((ClassDraft.named "a/A").withField ⟨"x", "V", .none⟩).build = .ok c) ∧
          (Instruction.field ⟨Opcode.getstatic, "a/A", "x", "V"⟩).effect = .ok ⟨0, 0⟩ := by
  refine ⟨fun h => ?_, rfl, ⟨_, rfl⟩, rfl⟩
  obtain ⟨t, hne, -, hchars⟩ := TypeDescriptor.fieldText_iff.1 h
  exact hne (TypeDescriptor.chars_eq_void_iff.1 hchars)

end ClassEdit
