import ClassEdit.Proofs.Edit
import ClassEdit.Proofs.Loading

/-!
# Methods that only return a value

A stub leaves a body of at most two instructions: one that pushes the value to be returned, unless
nothing is returned, and the return. Four tables have to agree for this body to be sound, for every
type and every constant. A type accepts only constants that are as wide as its own values, the load
of a constant and that of a default value push as many slots as the type takes, and the return pops
as many. The search for heights then goes straight through the body, and the largest height is the
width of the type.

Nothing of the body before is left, so what earlier operations of a block have made of it does not
matter. A block that ends with a stub is refused only if one of its operations is.

## Main definitions

* `TypeDescriptor.Provides`: code that leaves a value of a type on the stack.
* `MethodDecl.stubLoad`: the code by which a stub does so.

## Main results

* `MethodDecl.heights_of_provides`: the heights of a body that returns what it has pushed.
* `MethodDecl.exists_stub_iff`, `MethodDecl.edited_of_stub`: when a stub is made, and what it
  leaves.
* `Block.stub_sound`: stubs, and blocks that end with one.
-/

namespace ClassEdit

/-! ### The tables for one type -/

namespace TypeDescriptor

variable {t : TypeDescriptor} {c : Constant}

/-- A type accepts only constants that are as wide as its values. -/
theorem slots_of_accepts (h : t.accepts c = true) : c.slots = t.slots := by
  cases t <;> cases c <;> first | rfl | cases h

/-- The return of a type pops a value of the type. -/
theorem effect_returnOpcode (t : TypeDescriptor) :
    (Instruction.simple t.returnOpcode).effect = .ok ⟨t.slots, 0⟩ := by
  cases t <;> rfl

theorem flow_returnOpcode (t : TypeDescriptor) :
    (Instruction.simple t.returnOpcode).flow = .exit := by
  cases t <;> rfl

/-- Code that leaves a value of a type on the stack: nothing if the type has no values, and else one
instruction that pushes a value. -/
inductive Provides (t : TypeDescriptor) : List Instruction → Prop
  | nothing (h : t.slots = 0) : Provides t []
  | value {insn : Instruction} (heffect : insn.effect = .ok ⟨0, t.slots⟩)
    (hflow : insn.flow = .sequential) : Provides t [insn]

theorem provides_load (h : t.accepts c = true) : t.Provides [.load c] := by
  have hconstant := Instruction.constant?_load c
  refine .value ?_ (Instruction.flow_of_constant? hconstant)
  rw [Instruction.effect_of_constant? hconstant, slots_of_accepts h]

theorem provides_defaultLoad (t : TypeDescriptor) : t.Provides (MethodDecl.defaultLoad t) := by
  cases t with
  | void => exact .nothing rfl
  | _ => exact .value rfl rfl

end TypeDescriptor

/-! ### Bodies that return what they have pushed -/

namespace Search

variable {m : MethodDecl} {a : Arrival} {rest next : List Arrival} {insn : Instruction}
variable {before : List (Option UInt16)} {highest after : UInt16}

/-- A run from an arrival at an instruction that was not expanded yet, and that is not refused. -/
theorem run_of_expand (hinsn : m.code[a.index]? = some insn)
    (hbefore : before[a.index]? = some none)
    (hexpand : m.expand a.index a.height insn = .ok (next, after)) :
    run m ⟨before, a :: rest, highest⟩ =
      run m ⟨before.set a.index (some a.height), next.reverse ++ rest,
        max (max highest after) a.height⟩ := by
  rw [run_eq, step]
  simp only [hinsn, hbefore, hexpand]

theorem run_nil : run m ⟨before, [], highest⟩ = .ok ⟨highest, before⟩ := by
  rw [run_eq, step]

end Search

namespace MethodDecl

variable {m edited : MethodDecl} {done : Applied} {value : Option Constant}

/-- A return at the height that its type takes ends the method. -/
theorem expand_return (m : MethodDecl) (i : Nat) :
    m.expand i m.result.slots (.simple m.result.returnOpcode) = .ok ([], 0) := by
  rw [expand, m.result.effect_returnOpcode]
  simp [successors, m.result.flow_returnOpcode]

/-- A body that returns what it has pushed has heights, and the largest one is the width of what is
returned. -/
theorem heights_of_provides {pushes : List Instruction} (hpushes : m.result.Provides pushes)
    (hcode : m.code = pushes ++ [.simple m.result.returnOpcode]) (hhandlers : m.handlers = []) :
    ∃ r, m.heights = .ok r ∧ r.maxStack = m.result.slots := by
  have harrivals : m.handlerArrivals = .ok [] := by rw [handlerArrivals, hhandlers]; rfl
  have hentries : m.entries = [⟨0, 0⟩] := by simp [entries, hcode]
  rw [heights, harrivals]
  dsimp only
  rw [hentries]
  cases hpushes with
  | nothing hnone =>
    have hreturn : m.expand 0 0 (.simple m.result.returnOpcode) = .ok ([], 0) := by
      have h := m.expand_return 0
      rwa [hnone] at h
    refine ⟨⟨0, [some 0]⟩, ?_, hnone.symm⟩
    rw [hcode]
    exact (Search.run_of_expand (by rw [hcode]; rfl) rfl hreturn).trans Search.run_nil
  | @value insn heffect hflow =>
    have hpush : m.expand 0 0 insn = .ok ([⟨1, m.result.slots⟩], m.result.slots) := by
      rw [expand, heffect]
      simp [successors, hflow, following, hcode]
    refine ⟨⟨m.result.slots, [some 0, some m.result.slots]⟩, ?_, rfl⟩
    rw [hcode]
    -- first the instruction that pushes, then the return
    refine (Search.run_of_expand (by rw [hcode]; rfl) rfl hpush).trans ?_
    refine (Search.run_of_expand (by rw [hcode]; rfl) rfl (m.expand_return 1)).trans ?_
    refine Search.run_nil.trans ?_
    have hmax : max (max (max (max 0 m.result.slots) 0) 0) m.result.slots = m.result.slots := by
      cases m.result <;> rfl
    simp [hmax]

/-! ### Stubs -/

theorem provides_stubLoad (h : value.all m.result.accepts = true) :
    m.result.Provides (m.stubLoad value) := by
  cases value with
  | none => exact m.result.provides_defaultLoad
  | some c => exact TypeDescriptor.provides_load h

/-- A stub is made exactly if the value is left out or accepted by the declared type. -/
theorem exists_stub_iff :
    (∃ edited done, m.stub value = .ok (edited, done)) ↔ value.all m.result.accepts = true := by
  constructor
  · rintro ⟨edited, done, h⟩
    exact (stub_eq_ok h).1
  · intro haccepts
    cases value with
    | none => exact ⟨_, _, rfl⟩
    | some c => exact ⟨_, _, if_pos haccepts⟩

theorem heights_of_stub (h : m.stub value = .ok (edited, done)) :
    ∃ r, edited.heights = .ok r ∧ r.maxStack = m.result.slots := by
  obtain ⟨haccepts, rfl, -⟩ := stub_eq_ok h
  exact heights_of_provides (m := m.withBody _) (provides_stubLoad haccepts) rfl rfl

end MethodDecl

namespace Block

variable {owner : ClassDecl} {m : MethodDecl} {registration : String} {value : Option Constant}

/-- A block that ends with a stub is not refused after its operations, whatever those before the
stub have left. -/
theorem exists_run_of_stub {b : Block} {ops : List Operation}
    (hb : b.operations = ops ++ [.stub value]) (haccepts : value.all m.result.accepts = true)
    {before : MethodDecl} {applied : List Applied}
    (hops : applyAll owner registration ops m = .ok (before, applied)) :
    ∃ final outcome, b.run owner m registration = .ok (final, outcome) ∧ final.handlers = [] ∧
      ∃ r, final.heights = .ok r ∧ r.maxStack = m.result.slots := by
  -- operations keep the declared type, so the value is accepted after them too
  have hresult : before.result = m.result := by rw [applyAll_eq hops]
  obtain ⟨edited, done, hstub⟩ := MethodDecl.exists_stub_iff.2 (hresult ▸ haccepts)
  have hall : applyAll owner registration b.operations m = .ok (edited, applied ++ [done]) := by
    rw [hb, applyAll_concat hops]
    exact bind_eq_ok_iff.2 ⟨_, hstub, rfl⟩
  obtain ⟨r, hr, hmax⟩ := MethodDecl.heights_of_stub hstub
  obtain ⟨final, outcome, hrun, -, -, hheights⟩ := exists_run_of_applyAll hall fun _ => ⟨r, hr⟩
  obtain ⟨_, hall', -, hhandlers, -⟩ := run_applyAll hrun
  obtain rfl := applyAll_unique hall hall'
  refine ⟨final, outcome, hrun, ?_, r, hheights.trans hr, hmax.trans (congrArg _ hresult)⟩
  rw [hhandlers, (MethodDecl.stub_eq_ok hstub).2.1]
  rfl

/-- A stub is made exactly if its value is left out or accepted by the declared type. Its body has
no handlers and has heights, the largest of which is the width of the type; and a block that ends
with it is committed with such a body as soon as the operations before it can be applied. -/
theorem stub_sound (owner : ClassDecl) (m : MethodDecl) (registration : String)
    (value : Option Constant) :
    ((∃ edited done, (Operation.stub value).apply ⟨owner, m, registration⟩ = .ok (edited, done)) ↔
        value.all m.result.accepts = true) ∧
      (∀ edited done, (Operation.stub value).apply ⟨owner, m, registration⟩ = .ok (edited, done) →
        edited.handlers = [] ∧ ∃ r, edited.heights = .ok r ∧ r.maxStack = m.result.slots) ∧
      ∀ (b : Block) (ops : List Operation), b.operations = ops ++ [.stub value] →
        value.all m.result.accepts = true →
          (∃ before applied, applyAll owner registration ops m = .ok (before, applied)) →
            ∃ final outcome, b.run owner m registration = .ok (final, outcome) ∧
              final.handlers = [] ∧ ∃ r, final.heights = .ok r ∧ r.maxStack = m.result.slots := by
  refine ⟨MethodDecl.exists_stub_iff, fun edited done hstub => ⟨?_, ?_⟩, ?_⟩
  · rw [(MethodDecl.stub_eq_ok hstub).2.1]
    rfl
  · exact MethodDecl.heights_of_stub hstub
  · rintro b ops hb haccepts ⟨before, applied, hops⟩
    exact exists_run_of_stub hb haccepts hops

/-- A body that pops what is not there is replaced by the return of a wide constant. -/
theorem stub_sound_of_unsound_body :
    let m : MethodDecl := ⟨"f", "()J", ⟨8⟩, [], .long, [.simple Opcode.pop], [], 0, 0⟩
    let owner : ClassDecl := ⟨"a", none, [], .none, [], [m], []⟩
    let b : Block := .ofOperations [.replaceString "x" "y", .stub (some (.long 5))]
    m.result.accepts (.long 5) = true ∧
      (∃ before applied, applyAll owner "r" [.replaceString "x" "y"] m = .ok (before, applied)) ∧
      ∃ final outcome, b.run owner m "r" = .ok (final, outcome) ∧ final.handlers = [] ∧
        ∃ r, final.heights = .ok r ∧ r.maxStack = 2 := by
  intro m owner b
  have hops : ∃ before applied,
      applyAll owner "r" [.replaceString "x" "y"] m = .ok (before, applied) := ⟨_, _, rfl⟩
  have hblock := (stub_sound owner m "r" (some (.long 5))).2.2 b [.replaceString "x" "y"] rfl rfl
  exact ⟨rfl, hops, hblock hops⟩

end Block

end ClassEdit
