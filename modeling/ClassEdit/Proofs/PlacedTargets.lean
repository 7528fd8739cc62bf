import ClassEdit.Proofs.AssembledBody

/-!
# Where the branches of an assembled fragment lead

An assembler completes a fragment only if every label that it has recorded was marked. It records
the labels to which an instruction branches while it follows the instruction, and in dead code it
follows nothing. So a branch that is appended in dead code may name a label that is never marked,
and the fragment is completed all the same.

Nothing else can go wrong. An instruction that was followed branches to labels of the fragment, and
no label is placed twice, so all branches lead to one place in the fragment exactly if those do that
were appended in dead code.

## Main definitions

* `Fragment.TargetsPlaced`: every branch leads to one place in the fragment.
* `Assembly.Written`: the states reached by successful calls, with notes beside the code.

## Main results

* `Assembly.Written.tracked`, `Assembly.Written.markedOnce`: what is kept through a run.
* `Assembly.build_targets_placed_iff`: when the branches of a fragment that is built lead to places
  in it.
* `Assembly.build_targets_not_placed`: a fragment with a branch that leads nowhere.
-/

namespace ClassEdit

/-- Every label to which an instruction of the fragment branches is placed in it once, whether
control gets to the instruction or not. -/
def Fragment.TargetsPlaced (f : Fragment) : Prop :=
  ∀ insn ∈ f.code, ∀ l ∈ insn.targets, (placedLabels f.code).count l = 1

namespace Assembly

variable {available : Nat} {a rest : Assembly} {A : AnnotatedCode} {f : Fragment}

/-- The states that successful calls reach. Beside each instruction stands the height at which the
assembler followed it, or nothing if it was appended in dead code, and beside each label the height
behind it. An attempt to build may be refused in between. -/
inductive Written (available : Nat) : Assembly → AnnotatedCode → Prop
  | start : Written available (start available) []
  | declare {a : Assembly} {A : AnnotatedCode} (h : Written available a A) (delta : Int) :
      Written available (a.declare delta) A
  | newLabel {a : Assembly} {A : AnnotatedCode} (h : Written available a A) :
      Written available a.newLabel.2 A
  | emit {a b : Assembly} {A : AnnotatedCode} (h : Written available a A) (insn : Instruction)
      (hinsn : insn.placed? = none) (hemit : a.emit insn = (.ok (), b)) :
      Written available b (A ++ [(insn, a.leaving?)])
  | mark {a b : Assembly} {A : AnnotatedCode} (h : Written available a A) (l : Label)
      (hmark : a.mark l = (.ok (), b)) : Written available b (A ++ [(.label l, b.leaving?)])
  | refused {a b : Assembly} {A : AnnotatedCode} {e : EditError} (h : Written available a A)
      (hbuild : a.build = (.error e, b)) : Written available b A

/-- The notes are those of a run, with the labels that were marked in dead code as strays. After a
refusal for its height nothing is known about an assembly, and then nothing is built any more. -/
theorem Written.tracked (h : Written available a A) :
    heightLimit < a.highest ∨ ∃ strays, Tracked available a strays A := by
  induction h with
  | start => exact .inr ⟨[], .start⟩
  | declare _ delta ih =>
    exact ih.imp id fun ⟨strays, hA⟩ => ⟨strays, hA.congr rfl rfl rfl rfl rfl rfl rfl⟩
  | newLabel _ ih =>
    exact ih.imp id fun ⟨strays, hA⟩ => ⟨strays, hA.congr rfl rfl rfl rfl rfl rfl rfl⟩
  | emit _ insn hinsn hemit ih =>
    rcases ih with hhigh | ⟨strays, hA⟩
    · exact .inl (Int.lt_of_lt_of_le hhigh (highest_le_of_emit hemit))
    · exact .inr ⟨strays, hA.emit hinsn hemit⟩
  | mark _ l hmark ih =>
    rcases ih with hhigh | ⟨strays, hA⟩
    · exact .inl (highest_of_mark hmark ▸ hhigh)
    · -- the new label may be a stray one, so it is listed as one
      exact .inr ⟨l :: strays, hA.mark hmark (List.subset_cons_self _ _)
        fun _ _ => List.mem_cons_self⟩
  | refused _ hbuild ih =>
    rcases build_eq_error hbuild with rfl | hhigh
    · exact ih
    · exact .inl hhigh

/-- No label is placed twice, whether it was marked in dead code or not. -/
theorem Written.markedOnce (h : Written available a A) :
    heightLimit < a.highest ∨ a.MarkedOnce := by
  induction h with
  | start => exact .inr ⟨rfl, List.nodup_nil⟩
  | declare _ _ ih => exact ih
  | newLabel _ ih => exact ih
  | emit _ insn hinsn hemit ih =>
    rcases ih with hhigh | honce
    · exact .inl (Int.lt_of_lt_of_le hhigh (highest_le_of_emit hemit))
    · exact .inr (honce.emit hinsn hemit)
  | mark _ l hmark ih =>
    rcases ih with hhigh | honce
    · exact .inl (highest_of_mark hmark ▸ hhigh)
    · exact .inr (honce.mark hmark)
  | refused _ hbuild ih =>
    rcases build_eq_error hbuild with rfl | hhigh
    · exact ih
    · exact .inl hhigh

/-- In a fragment that was built no label is placed twice, and the instructions that were followed
branch to labels of the fragment. All instructions do exactly if those do that were appended in dead
code. -/
theorem build_targets_placed_iff (hrun : Written available a A) (hbuild : a.build = (.ok f, rest)) :
    A.code = f.code ∧ (placedLabels f.code).Nodup ∧
      (∀ insn k, (insn, some k) ∈ A → ∀ l ∈ insn.targets, (placedLabels f.code).count l = 1) ∧
        (f.TargetsPlaced ↔ ∀ insn, (insn, none) ∈ A → ∀ l ∈ insn.targets, .label l ∈ f.code) := by
  obtain ⟨hrecorded, hhighest, hf⟩ := build_eq_ok hbuild
  have hcode : f.code = a.code := by rw [hf]
  obtain ⟨strays, hA⟩ := hrun.tracked.resolve_left (Int.not_lt.2 hhighest)
  obtain ⟨hmarked, honce⟩ := hrun.markedOnce.resolve_left (Int.not_lt.2 hhighest)
  have hnodup : (placedLabels f.code).Nodup := by rwa [hcode, hmarked]
  have hcount {l : Label} (hl : .label l ∈ f.code) : (placedLabels f.code).count l = 1 :=
    List.count_eq_one_of_mem hnodup (mem_placedLabels.2 hl)
  -- what is followed is recorded, and what is recorded has to be marked before the end
  have hfollowed : ∀ insn k, (insn, some k) ∈ A → ∀ l ∈ insn.targets,
      (placedLabels f.code).count l = 1 := by
    intro insn k hmem l hl
    obtain ⟨i, hi⟩ := List.getElem?_of_mem hmem
    obtain ⟨e, -, -, htargets, -⟩ := hA.linked.at_reached hi
    exact hcount (hcode ▸ hA.placed l (hrecorded l _ (htargets l hl)))
  refine ⟨hA.code_eq.trans hcode.symm, hnodup, hfollowed, ?_, ?_⟩
  · intro hplaced insn hmem l hl
    have hinsn : insn ∈ f.code := by
      rw [hcode, ← hA.code_eq]
      exact List.mem_map_of_mem hmem
    have hone := hplaced insn hinsn l hl
    exact mem_placedLabels.1 (List.count_pos_iff.1 (hone ▸ Nat.one_pos))
  · intro hdead insn hinsn l hl
    rw [hcode, ← hA.code_eq] at hinsn
    obtain ⟨⟨_, note⟩, hmem, rfl⟩ := List.mem_map.1 hinsn
    cases note with
    | some k => exact hfollowed _ k hmem l hl
    | none => exact hcount (hdead _ hmem l hl)

/-- A loop, a jump over dead code, and in the dead code a jump back into the loop. -/
theorem build_targets_placed_of_loop :
    let f : Fragment := ⟨[.label ⟨0⟩, .simple Opcode.iconst0, .jump Opcode.ifeq ⟨0⟩,
      .jump Opcode.goto ⟨1⟩, .jump Opcode.goto ⟨0⟩, .label ⟨1⟩], 0, 1, some 0⟩
    let A : AnnotatedCode := [(.label ⟨0⟩, some 0), (.simple Opcode.iconst0, some 0),
      (.jump Opcode.ifeq ⟨0⟩, some 1), (.jump Opcode.goto ⟨1⟩, some 0),
      (.jump Opcode.goto ⟨0⟩, none), (.label ⟨1⟩, some 0)]
    ∃ a rest, Written 0 a A ∧ a.build = (.ok f, rest) ∧ A.code = f.code ∧
      (placedLabels f.code).Nodup ∧ f.TargetsPlaced := by
  intro f A
  have hrun := (Written.start : Written 0 _ _).newLabel.newLabel
  have hrun := hrun.mark ⟨0⟩ rfl
  have hrun := hrun.emit (.simple Opcode.iconst0) rfl rfl
  have hrun := hrun.emit (.jump Opcode.ifeq ⟨0⟩) rfl rfl
  have hrun := hrun.emit (.jump Opcode.goto ⟨1⟩) rfl rfl
  have hrun := hrun.emit (.jump Opcode.goto ⟨0⟩) rfl rfl
  have hrun := hrun.mark ⟨1⟩ rfl
  have hnoted : Written 0 _ A := hrun
  obtain ⟨hcode, honce, -, hplaced⟩ := build_targets_placed_iff hnoted (f := f) rfl
  refine ⟨_, _, hnoted, rfl, hcode, honce, hplaced.2 ?_⟩
  -- the only instruction in dead code jumps to a label of the loop
  intro insn hmem l hl
  obtain rfl : insn = .jump Opcode.goto ⟨0⟩ := by simpa [A] using hmem
  obtain rfl := List.mem_singleton.1 hl
  exact List.mem_cons_self

/-- Behind a jump a second one is appended, to a label that is never marked. -/
theorem build_targets_not_placed :
    let f : Fragment :=
      ⟨[.jump Opcode.goto ⟨0⟩, .jump Opcode.goto ⟨1⟩, .label ⟨0⟩], 0, 0, some 0⟩
    ∃ a A rest, Written 0 a A ∧ a.build = (.ok f, rest) ∧ ¬ f.TargetsPlaced := by
  intro f
  have hrun := (Written.start : Written 0 _ _).newLabel.newLabel
  have hrun := hrun.emit (.jump Opcode.goto ⟨0⟩) rfl rfl
  have hrun := hrun.emit (.jump Opcode.goto ⟨1⟩) rfl rfl
  have hrun := hrun.mark ⟨0⟩ rfl
  refine ⟨_, _, _, hrun, rfl, fun hplaced => ?_⟩
  have hone := hplaced (.jump Opcode.goto ⟨1⟩) (by decide) ⟨1⟩ List.mem_cons_self
  exact absurd hone (by decide)

end Assembly

end ClassEdit
