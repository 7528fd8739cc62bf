import ClassEdit.Proofs.ControlFlow
import ClassEdit.Proofs.Encodings
import Mathlib.Tactic.IntervalCases
import Mathlib.Tactic.SplitIfs

/-!
# Instructions that push constants

Constants are pushed in many forms: by operations without operands, by operations with a number in
the instruction, and by loads from the pool. Three tables deal with these forms. One tells which
constant an instruction pushes, one chooses the shortest form for a constant, and one says what each
form does to the stack. They agree: the form that is chosen pushes the constant that it was chosen
for, and every form pops nothing, pushes a value of the width of its constant, and goes on.

The short forms for floating point numbers are chosen by comparing numbers, except the one for zero.
Minus zero is equal to zero, and would be loaded as zero if zeros were compared as numbers too. The
other numbers with a short form have one encoding each, so nothing is lost by comparing them.

## Main results

* `Instruction.constant?_load`: the load of a constant pushes this constant.
* `Instruction.effect_of_constant?`, `Instruction.flow_of_constant?`: what pushing a constant does,
  whichever form is used.
* `Instruction.load_float`, `Instruction.load_double`: the loads of numbers, with the numbers that
  have a short form compared as numbers.
* `Instruction.load_faithful`: a load keeps its constant, and does what every push of it does.
-/

namespace ClassEdit

namespace Instruction

variable {insn : Instruction} {c : Constant}

/-! ### Forms of operations without operands -/

/-- The operations without operands that push a constant come one after the other. -/
theorem opcode_of_simpleConstant? {opcode : Opcode} (h : simpleConstant? opcode = some c) :
    Opcode.iconstM1 ≤ opcode ∧ opcode ≤ Opcode.dconst1 := by
  unfold simpleConstant? at h
  split at h
  · rename_i hint
    exact ⟨hint.1, hint.2.trans (by decide)⟩
  · -- the other operations are told apart one by one
    have hother : opcode = Opcode.lconst0 ∨ opcode = Opcode.lconst1 ∨ opcode = Opcode.fconst0 ∨
        opcode = Opcode.fconst1 ∨ opcode = Opcode.fconst2 ∨ opcode = Opcode.dconst0 ∨
          opcode = Opcode.dconst1 := by
      by_contra hnone
      simp only [not_or] at hnone
      obtain ⟨hl0, hl1, hf0, hf1, hf2, hd0, hd1⟩ := hnone
      simp only [if_neg hl0, if_neg hl1, if_neg hf0, if_neg hf1, if_neg hf2, if_neg hd0, if_neg hd1]
        at h
      cases h
    rcases hother with rfl | rfl | rfl | rfl | rfl | rfl | rfl <;> decide

theorem simpleEffect?_of_constant {opcode : Opcode} (h : simpleConstant? opcode = some c) :
    simpleEffect? opcode = some ⟨0, c.slots⟩ := by
  obtain ⟨hlow, hhigh⟩ := opcode_of_simpleConstant? h
  interval_cases opcode <;> cases h <;> rfl

/-! ### The load of a constant -/

theorem constant?_loadInt (value : Int32) : (loadInt value).constant? = some (.int value) := by
  unfold loadInt
  dsimp only
  split_ifs with hshort hbyte hword
  · -- the operation lies as far above that for zero as the value above zero
    have hopcode : (((value.toInt + 3).toNat : Nat) : Int) = value.toInt + 3 :=
      Int.toNat_of_nonneg (by omega)
    have hrange : Opcode.iconstM1 ≤ (value.toInt + 3).toNat ∧
        (value.toInt + 3).toNat ≤ Opcode.iconst5 := by
      show 2 ≤ (value.toInt + 3).toNat ∧ (value.toInt + 3).toNat ≤ 8
      omega
    rw [constant?, simpleConstant?, if_pos hrange, hopcode, Int.add_sub_cancel, Int32.ofInt_toInt]
  · rfl
  · rfl
  · rfl

/-- The load of a constant pushes this constant. -/
theorem constant?_load (c : Constant) : (load c).constant? = some c := by
  cases c with
  | int value => exact constant?_loadInt value
  | long value =>
    unfold load
    dsimp only
    split_ifs with hzero hone
    · rw [hzero]
      rfl
    · rw [hone]
      rfl
    · rfl
  | float bits =>
    unfold load
    dsimp only
    split_ifs with hzero hone htwo
    · rw [hzero]
      rfl
    · rw [hone]
      rfl
    · rw [htwo]
      rfl
    · rfl
  | double bits =>
    unfold load
    dsimp only
    split_ifs with hzero hone
    · rw [hzero]
      rfl
    · rw [hone]
      rfl
    · rfl
  | string value => rfl
  | classLiteral name => rfl

/-! ### The short forms of numbers -/

/-- The short forms for numbers of single precision push the numbers in order. -/
theorem simpleConstant?_fconst {n : Nat} (h : n ≤ 2) :
    simpleConstant? (Opcode.fconst0 + n) = some (.float (Float32.ofNat n).toBits) := by
  interval_cases n <;> decide +kernel

/-- The short forms for numbers of double precision push the numbers in order. -/
theorem simpleConstant?_dconst {n : Nat} (h : n ≤ 1) :
    simpleConstant? (Opcode.dconst0 + n) = some (.double (Float.ofNat n).toBits) := by
  interval_cases n <;> decide +kernel

/-- One and two can be compared as numbers, but zero cannot. -/
theorem load_float (bits : UInt32) : load (.float bits) =
    if bits = Float32.toBits 0 then .simple Opcode.fconst0
    else if Float32.ofBits bits == 1 then .simple Opcode.fconst1
    else if Float32.ofBits bits == 2 then .simple Opcode.fconst2
    else .ldc (.float bits) := by
  have hzero : Float32.toBits 0 = 0 := by decide +kernel
  have hone : (1 : Float32) = .ofBits 0x3f800000 := by decide +kernel
  have htwo : (2 : Float32) = .ofBits 0x40000000 := by decide +kernel
  have hequalOne := ofBits_beq_iff32 bits 0x3f800000 rfl
  have hequalTwo := ofBits_beq_iff32 bits 0x40000000 rfl
  simp only [load, hzero, hone, htwo, hequalOne, hequalTwo]

example : (Float32.ofBits 0x80000000 == 0) = true ∧
    load (.float 0x80000000) = .ldc (.float 0x80000000) := by
  decide +kernel

/-- One can be compared as a number in double precision too. -/
theorem load_double (bits : UInt64) : load (.double bits) =
    if bits = Float.toBits 0 then .simple Opcode.dconst0
    else if Float.ofBits bits == 1 then .simple Opcode.dconst1
    else .ldc (.double bits) := by
  have hzero : Float.toBits 0 = 0 := by decide +kernel
  have hone : (1 : Float) = .ofBits 0x3ff0000000000000 := by decide +kernel
  have hequalOne := ofBits_beq_iff64 bits 0x3ff0000000000000 rfl
  simp only [load, hzero, hone, hequalOne]

/-! ### What pushing a constant does -/

/-- An instruction that pushes a constant pops nothing. -/
theorem effect_of_constant? (h : insn.constant? = some c) : insn.effect = .ok ⟨0, c.slots⟩ := by
  cases insn with
  | simple opcode =>
    rw [effect, simpleEffect?_of_constant h]
  | immediate opcode operand =>
    simp only [constant?] at h
    split at h
    · rename_i hopcode
      cases h
      rw [effect, immediateEffect?, if_pos hopcode]
      rfl
    · cases h
  | ldc constant =>
    cases h
    rfl
  | _ => cases h

/-- An instruction that pushes a constant is followed by the next one. -/
theorem flow_of_constant? (h : insn.constant? = some c) : insn.flow = .sequential := by
  cases insn with
  | simple opcode =>
    obtain ⟨hlow, hhigh⟩ := opcode_of_simpleConstant? h
    interval_cases opcode <;> rfl
  | immediate | ldc => rfl
  | _ => cases h

/-- The load of a constant pushes this constant, pops nothing and pushes as many slots as the
constant takes. Every instruction that pushes the constant has the effect of its load, and is
followed by the next instruction if the load is. -/
theorem load_faithful (c : Constant) :
    (load c).constant? = some c ∧ (load c).effect = .ok ⟨0, c.slots⟩ ∧
      ∀ insn : Instruction, insn.constant? = some c →
        insn.effect = (load c).effect ∧ insn.flow = (load c).flow := by
  have hload := constant?_load c
  refine ⟨hload, effect_of_constant? hload, fun insn hinsn => ⟨?_, ?_⟩⟩
  · rw [effect_of_constant? hinsn, effect_of_constant? hload]
  · rw [flow_of_constant? hinsn, flow_of_constant? hload]

theorem targets_of_constant? (h : insn.constant? = some c) : insn.targets = [] :=
  targets_eq_nil (by rw [flow_of_constant? h]; rfl)

theorem placed?_of_constant? (h : insn.constant? = some c) : insn.placed? = none := by
  cases insn with
  | label => cases h
  | _ => rfl

end Instruction

end ClassEdit
