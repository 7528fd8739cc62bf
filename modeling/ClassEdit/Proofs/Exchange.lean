import ClassEdit.Proofs.Heights
import Mathlib.Data.List.Forall2

/-!
# Instructions exchanged where they stand

The search for heights looks at an instruction in four ways: what it does to the stack, where
control goes after it, where it branches to, and which label it places. Two bodies whose
instructions agree in these four, one by one, are searched step by step in the same way. They have
the same heights, or neither of them has heights; only the complaint about the second kind may name
another instruction.

## Main definitions

* `Instruction.Interchangeable`: instructions that the search does not tell apart.
* `MethodDecl.Exchanged`: methods with such instructions in the same places.

## Main results

* `Search.step_exchanged`, `Search.run_exchanged`: a step and a run in both methods.
* `MethodDecl.Exchanged.heights_iff`: the heights of both methods.
-/

namespace ClassEdit

/-- Two instructions that the search for heights does not tell apart. -/
structure Instruction.Interchangeable (insn insn' : Instruction) : Prop where
  effect_eq : insn'.effect = insn.effect
  flow_eq : insn'.flow = insn.flow
  targets_eq : insn'.targets = insn.targets
  placed_eq : insn'.placed? = insn.placed?

namespace Instruction.Interchangeable

variable {insn insn' : Instruction}

theorem refl (insn : Instruction) : Interchangeable insn insn := ⟨rfl, rfl, rfl, rfl⟩

theorem symm (h : Interchangeable insn insn') : Interchangeable insn' insn :=
  ⟨h.effect_eq.symm, h.flow_eq.symm, h.targets_eq.symm, h.placed_eq.symm⟩

end Instruction.Interchangeable

/-- Two methods with interchangeable instructions, the same result and the same handlers. -/
structure MethodDecl.Exchanged (m m' : MethodDecl) : Prop where
  result_eq : m'.result = m.result
  handlers_eq : m'.handlers = m.handlers
  code : List.Forall₂ Instruction.Interchangeable m.code m'.code

namespace MethodDecl.Exchanged

variable {m m' : MethodDecl} {insn insn' : Instruction} {i : Nat} {height : UInt16}

theorem symm (h : m.Exchanged m') : m'.Exchanged m :=
  ⟨h.result_eq.symm, h.handlers_eq.symm,
    h.code.flip.imp fun _ _ => Instruction.Interchangeable.symm⟩

/-- Labels stand in the same places. -/
theorem labelPosition?_eq (h : m.Exchanged m') (l : Label) :
    labelPosition? l m'.code = labelPosition? l m.code := by
  have hcode := h.code
  generalize m.code = code at hcode ⊢
  generalize m'.code = code' at hcode ⊢
  induction hcode with
  | nil => rfl
  | cons hinsn _ ih => rw [labelPosition?_cons, labelPosition?_cons, ih, hinsn.placed_eq]

theorem getElem?_code (h : m.Exchanged m') (hinsn : m.code[i]? = some insn) :
    ∃ insn', m'.code[i]? = some insn' ∧ insn.Interchangeable insn' := by
  obtain ⟨hlt, hget⟩ := List.getElem?_eq_some_iff.1 hinsn
  have hlt' : i < m'.code.length := h.code.length_eq ▸ hlt
  refine ⟨m'.code[i], List.getElem?_eq_getElem hlt', ?_⟩
  rw [← hget]
  exact h.code.get hlt hlt'

theorem resolveAll_ok (h : m.Exchanged m') {ls : List Label} {ps : List Nat}
    (hresolve : m.resolveAll ls = .ok ps) : m'.resolveAll ls = .ok ps := by
  rw [resolveAll_eq_ok_iff] at hresolve ⊢
  rw [← hresolve]
  exact List.map_congr_left fun l _ => h.labelPosition?_eq l

/-- Control goes to the same places. -/
theorem successors_ok (h : m.Exchanged m') (hinsn : insn.Interchangeable insn') {pops : UInt16}
    {ps : List Nat} (hnext : m.successors i insn pops = .ok ps) :
    m'.successors i insn' pops = .ok ps := by
  -- a refusal may name the instruction, so only results are carried over
  obtain ⟨hadmits, positions, hpositions, rfl⟩ := successors_eq_ok_iff.1 hnext
  refine successors_eq_ok_iff.2 ⟨⟨?_, ?_, ?_, ?_⟩, positions, ?_, by rw [hinsn.flow_eq]⟩
  · simpa only [hinsn.targets_eq, h.labelPosition?_eq] using hadmits.targets_placed
  · simpa only [hinsn.flow_eq, h.code.length_eq] using hadmits.next_exists
  · simpa only [hinsn.flow_eq, h.result_eq] using hadmits.returns_result
  · simpa only [hinsn.flow_eq] using hadmits.no_subroutine
  · rw [hinsn.targets_eq]
    exact h.resolveAll_ok hpositions

/-- An expansion that is not refused in one method does the same in the other one. -/
theorem expand_ok (h : m.Exchanged m') (hinsn : insn.Interchangeable insn')
    {result : List Arrival × UInt16} (hexpand : m.expand i height insn = .ok result) :
    m'.expand i height insn' = .ok result := by
  obtain ⟨next, after⟩ := result
  obtain ⟨e, ps, heffect, hpops, hafter, hps, hmap⟩ := expand_eq_ok_iff.1 hexpand
  exact expand_eq_ok_iff.2
    ⟨e, ps, hinsn.effect_eq.trans heffect, hpops, hafter, h.successors_ok hinsn hps, hmap⟩

end MethodDecl.Exchanged

/-! ### Searches in both methods -/

namespace Search

variable {m m' : MethodDecl} {s next : Search} {r : Heights}

/-- A step that is not refused in one method is taken in the other one. -/
theorem step_exchanged {outcome : Outcome} (h : m.Exchanged m') (hstep : step m s = outcome)
    (haccepted : ∀ e, outcome ≠ .refused e) : step m' s = outcome := by
  rw [step_eq_iff] at hstep ⊢
  cases hstep with
  | done hpending => exact .done hpending
  | rejected => exact absurd rfl (haccepted _)
  | expanded hpending hinsn hbefore hexpand =>
    obtain ⟨insn', hinsn', hsame⟩ := h.getElem?_code hinsn
    exact .expanded hpending hinsn' hbefore (h.expand_ok hsame hexpand)
  | known hpending hinsn hbefore =>
    obtain ⟨insn', hinsn', -⟩ := h.getElem?_code hinsn
    exact .known hpending hinsn' hbefore
  | meeting => exact absurd rfl (haccepted _)
  | outside hpending hnone =>
    refine .outside hpending (hnone.imp_left fun hinsn => ?_)
    rw [List.getElem?_eq_none_iff] at hinsn ⊢
    exact h.code.length_eq ▸ hinsn

/-- A run that comes to a result in one method comes to the same result in the other one. -/
theorem run_exchanged (h : m.Exchanged m') (hrun : run m s = .ok r) : run m' s = .ok r := by
  -- along the first run no step is refused, so the second one takes the same steps
  fun_induction run m s with
  | case1 s result hstep =>
    rw [run_eq, step_exchanged h hstep fun e => by simp]
    exact hrun
  | case2 s e hstep => cases hrun
  | case3 s next hstep ih =>
    rw [run_eq, step_exchanged h hstep fun e => by simp]
    exact ih hrun

end Search

namespace MethodDecl

variable {m m' : MethodDecl} {r : Heights}

theorem Exchanged.heights_ok (h : m.Exchanged m') (hr : m.heights = .ok r) :
    m'.heights = .ok r := by
  obtain ⟨arrivals, harrivals, hrun⟩ := heights_eq_ok_iff.1 hr
  have hentries : m'.entries = m.entries := by
    have hempty : m'.code.isEmpty = m.code.isEmpty := by
      rw [Bool.eq_iff_iff, List.isEmpty_iff_length_eq_zero, List.isEmpty_iff_length_eq_zero,
        h.code.length_eq]
    rw [entries, entries, hempty]
  obtain ⟨places, hplaces, hmap⟩ := handlerArrivals_eq_ok_iff.1 harrivals
  have hplaces' := h.resolveAll_ok hplaces
  rw [← h.handlers_eq] at hplaces'
  refine heights_eq_ok_iff.2
    ⟨arrivals, handlerArrivals_eq_ok_iff.2 ⟨places, hplaces', hmap⟩, ?_⟩
  rw [hentries, ← h.code.length_eq]
  exact Search.run_exchanged h hrun

/-- Methods with interchangeable instructions have the same heights, if one of them has any. -/
theorem Exchanged.heights_iff (h : m.Exchanged m') : m'.heights = .ok r ↔ m.heights = .ok r :=
  ⟨h.symm.heights_ok, h.heights_ok⟩

end MethodDecl

end ClassEdit
