import ClassEdit.Edit.Operation
import ClassEdit.Proofs.Assembly
import ClassEdit.Proofs.SplicedHeights

/-!
# Copies before returns

A fragment that is spliced in before the returns of a body gets one copy for each of them. Inside a
copy control moves as it does in the fragment, since the labels of the copy have numbers of their
own: a path through the fragment is one through the copy, and a step that begins in the copy is one
of the fragment, unless the fragment branches to a label that it does not place.

## Main definitions

* `PathWithin`: paths of control that stay in a part of the code.
* `Fragment.CopiedAt`: code holds a copy of a fragment, with labels of its own.
* `exitStart`, `exitOffset`, `exitNumber`: where the copy before a return begins, and its labels.

## Main results

* `Fragment.CopiedAt.path`, `Fragment.CopiedAt.reaches_of_pathWithin`: paths of the fragment are
  paths of the copy, and paths in the copy are paths of the fragment.
* `copiedAt_exit`: the copies before the returns.
* `weave_planReturns_cases`: every instruction is one of the body or belongs to one of the copies.
-/

namespace ClassEdit

/-! ### Paths through a part of the code -/

/-- A path of control that does not leave a part of the code. -/
def PathWithin (code : List Instruction) (start length : Nat) : Point → Point → Prop :=
  Relation.ReflTransGen fun p q =>
    FlowStep code p q ∧ start ≤ q.index ∧ q.index < start + length

theorem MethodDecl.Reaches.pathWithin {m : MethodDecl} {start length : Nat} {p q : Point}
    (h : m.Reaches p) (hpath : PathWithin m.code start length p q) : m.Reaches q := by
  induction hpath with
  | refl => exact h
  | tail _ hstep ih => exact ih.step hstep.1

/-! ### Copies in code -/

theorem labelPosition?_relabeled {code : List Instruction} {offset : UInt32} {l : Label} :
    labelPosition? (l.shift offset) (code.map (Instruction.relabeled offset)) =
      labelPosition? l code := by
  induction code with
  | nil => rfl
  | cons insn code ih =>
    have hplaced : (insn.relabeled offset).placed? = some (l.shift offset) ↔
        insn.placed? = some l := by
      rw [Instruction.placed?_relabeled, Option.map_eq_some_iff]
      constructor
      · rintro ⟨l', hl', hshift⟩
        rw [hl', Label.shift_injective hshift]
      · exact fun h => ⟨l, h, rfl⟩
    simp only [List.map_cons, labelPosition?_cons, ih, hplaced]

namespace Fragment

/-- The code holds a copy of the fragment from a place on, and no label of the copy is placed
outside of it as well. -/
def CopiedAt (f : Fragment) (code : List Instruction) (start : Nat) (offset : UInt32) : Prop :=
  ∃ before after, code = before ++ f.relabeled offset ++ after ∧ before.length = start ∧
    ∀ l, .label l ∈ before ∨ .label l ∈ after → .label l ∉ f.relabeled offset

namespace CopiedAt

variable {f : Fragment} {code : List Instruction} {start j : Nat} {offset : UInt32} {l : Label}
variable {p q : Point} {k : Int}

theorem getElem?_eq (h : f.CopiedAt code start offset) (hj : j < f.code.length) :
    code[start + j]? = f.code[j]?.map (Instruction.relabeled offset) := by
  obtain ⟨before, after, rfl, rfl, -⟩ := h
  rw [List.append_assoc, List.getElem?_append_right (Nat.le_add_right _ _), Nat.add_sub_cancel_left,
    List.getElem?_append_left (by simpa [relabeled] using hj), relabeled, List.getElem?_map]

/-- An instruction of the copy is one of the fragment. -/
theorem exists_insn (h : f.CopiedAt code start offset) (hj : j < f.code.length)
    {insn : Instruction} (hinsn : code[start + j]? = some insn) :
    ∃ insn', f.code[j]? = some insn' ∧ insn = insn'.relabeled offset := by
  rw [h.getElem?_eq hj, Option.map_eq_some_iff] at hinsn
  obtain ⟨insn', hinsn', rfl⟩ := hinsn
  exact ⟨insn', hinsn', rfl⟩

/-- A label of the fragment is placed in the copy where it is placed in the fragment. -/
theorem labelPosition?_eq (h : f.CopiedAt code start offset) (hl : .label l ∈ f.code) :
    labelPosition? (l.shift offset) code = (labelPosition? l f.code).map (start + ·) := by
  obtain ⟨before, after, rfl, rfl, hother⟩ := h
  have hcopy : Instruction.label (l.shift offset) ∈ f.relabeled offset :=
    List.mem_map.2 ⟨_, hl, rfl⟩
  have hnone : labelPosition? (l.shift offset) after = none := by
    rw [Option.eq_none_iff_forall_ne_some]
    intro p hp
    exact hother _ (.inr (List.mem_of_getElem? (getElem?_of_labelPosition? hp))) hcopy
  obtain ⟨p, hp⟩ := exists_labelPosition?_iff.2 hl
  rw [labelPosition?_append, hnone, Option.map_none, Option.none_or, labelPosition?_append,
    relabeled, labelPosition?_relabeled, hp]
  rfl

/-- A label at a place of the copy is one of the fragment. -/
theorem exists_label (h : f.CopiedAt code start offset) (hj : j < f.code.length)
    (hlabel : code[start + j]? = some (.label l)) :
    ∃ l', l = l'.shift offset ∧ f.code[j]? = some (.label l') := by
  obtain ⟨insn', hinsn', heq⟩ := h.exists_insn hj hlabel
  have hplaced := Instruction.placed?_relabeled offset insn'
  rw [← heq, Instruction.placed?, eq_comm, Option.map_eq_some_iff] at hplaced
  obtain ⟨l', hl', rfl⟩ := hplaced
  rw [Instruction.placed?_eq_some_iff.1 hl'] at hinsn'
  exact ⟨l', rfl, hinsn'⟩

/-! ### Control in copies -/

/-- A step of the fragment is one of the copy. -/
theorem step (h : f.CopiedAt code start offset) (hstep : FlowStep f.code p q) (base : Int) :
    FlowStep code ⟨start + p.index, base + p.height⟩ ⟨start + q.index, base + q.height⟩ := by
  obtain ⟨insn, e, hinsn, heffect, hheight, hwhere⟩ := flowStep_iff.1 hstep
  have hlt := (List.getElem?_eq_some_iff.1 hinsn).1
  refine flowStep_iff.2 ⟨insn.relabeled offset, e, ?_, ?_, ?_, ?_⟩
  · rw [h.getElem?_eq hlt, hinsn]
    rfl
  · rw [Instruction.effect_relabeled, heffect]
  · show base + q.height = base + p.height + e.net
    omega
  · rw [Instruction.flow_relabeled, Instruction.targets_relabeled]
    rcases hwhere with ⟨hflow, hnext⟩ | ⟨l, hl, hplace⟩
    · exact .inl ⟨hflow, congrArg (start + ·) hnext⟩
    · refine .inr ⟨_, List.mem_map_of_mem hl, ?_⟩
      rw [h.labelPosition?_eq (List.mem_of_getElem? (getElem?_of_labelPosition? hplace)), hplace]
      rfl

/-- A path through the fragment is one through the copy. -/
theorem path (h : f.CopiedAt code start offset) (hp : f.Reaches p) (hlt : p.index < f.code.length)
    (base : Int) : PathWithin code start f.code.length ⟨start, base⟩
      ⟨start + p.index, base + p.height⟩ := by
  induction hp with
  | refl =>
    rw [Nat.add_zero, Int.add_zero]
    exact .refl
  | tail _ hstep ih =>
    -- a step begins at an instruction of the fragment
    obtain ⟨_, _, hinsn, -⟩ := flowStep_iff.1 hstep
    exact (ih (List.getElem?_eq_some_iff.1 hinsn).1).tail
      ⟨h.step hstep base, Nat.le_add_right _ _, Nat.add_lt_add_left hlt _⟩

/-- A step that begins in the copy is one of the fragment, if its branches stay there. -/
theorem step_inside (h : f.CopiedAt code start offset) (hj : j < f.code.length)
    (hplaced : ∀ insn, f.code[j]? = some insn → ∀ l ∈ insn.targets, .label l ∈ f.code)
    (hstep : FlowStep code ⟨start + j, k⟩ q) (base : Int) :
    ∃ j', q.index = start + j' ∧ FlowStep f.code ⟨j, k - base⟩ ⟨j', q.height - base⟩ := by
  obtain ⟨insn, e, hinsn, heffect, hheight, hwhere⟩ := flowStep_iff.1 hstep
  obtain ⟨insn', hinsn', rfl⟩ := h.exists_insn hj hinsn
  rw [Instruction.effect_relabeled] at heffect
  rw [Instruction.flow_relabeled, Instruction.targets_relabeled] at hwhere
  have hheight' : q.height - base = k - base + e.net := by
    dsimp only at hheight
    omega
  -- a jump out of the copy would need a label that the fragment does not place
  rcases hwhere with ⟨hflow, hnext⟩ | ⟨l, hl, hplace⟩
  · refine ⟨j + 1, hnext, flowStep_iff.2 ⟨insn', e, hinsn', heffect, hheight', ?_⟩⟩
    exact .inl ⟨hflow, rfl⟩
  · obtain ⟨l', hl', rfl⟩ := List.mem_map.1 hl
    rw [h.labelPosition?_eq (hplaced insn' hinsn' l' hl'), Option.map_eq_some_iff] at hplace
    obtain ⟨j', hj', hindex⟩ := hplace
    refine ⟨j', hindex.symm, flowStep_iff.2 ⟨insn', e, hinsn', heffect, hheight', ?_⟩⟩
    exact .inr ⟨l', hl', hj'⟩

/-- A path that stays in the copy is one through the fragment, if its branches stay there. -/
theorem reaches_of_pathWithin (h : f.CopiedAt code start offset) (hplaced : ∀ p insn, f.Reaches p →
      f.code[p.index]? = some insn → ∀ l ∈ insn.targets, .label l ∈ f.code) {base : Int}
    (hpath : PathWithin code start f.code.length ⟨start, base⟩ p) :
    ∃ j, p.index = start + j ∧ f.Reaches ⟨j, p.height - base⟩ := by
  induction hpath with
  | refl =>
    refine ⟨0, rfl, ?_⟩
    rw [Int.sub_self]
    exact .refl
  | @tail q r hpath hstep ih =>
    obtain ⟨j, hindex, hreached⟩ := ih
    obtain ⟨hstep, hstart, hend⟩ := hstep
    -- the path has not left the copy, where it was before the last step
    have hj : j < f.code.length := by
      rcases hpath.cases_tail with hq | ⟨_, -, -, -, hend'⟩
      · obtain rfl := hq
        dsimp only at hindex
        omega
      · omega
    have hq : q = ⟨start + j, q.height⟩ := Point.ext hindex rfl
    rw [hq] at hstep
    obtain ⟨j', hindex', hflow⟩ :=
      h.step_inside hj (fun insn hinsn => hplaced _ insn hreached hinsn) hstep base
    exact ⟨j', hindex', hreached.tail hflow⟩

end CopiedAt

end Fragment

/-! ### The copies before returns -/

section Exits

variable {f : Fragment} {code : List Instruction} {insn : Instruction} {i p first : Nat} {l : Label}
variable {next : UInt32}

/-- The number of returns before a place. -/
def returnsBefore (code : List Instruction) (i : Nat) : Nat :=
  (code.take i).countP Instruction.isReturn

/-- Where the copy before the return at a place of the body begins. -/
def exitStart (f : Fragment) (code : List Instruction) (i : Nat) : Nat :=
  i + returnsBefore code i * f.code.length

/-- How far the labels of the copy before the return at a place of the body are moved. -/
def exitOffset (f : Fragment) (code : List Instruction) (i : Nat) : UInt32 :=
  freshLabel code + .ofNat (returnsBefore code i) * f.labelSpan

/-- The first label number of the copy before the return at a place of the body. -/
def exitNumber (f : Fragment) (code : List Instruction) (i : Nat) : Nat :=
  numberBound (code.flatMap Instruction.labels) + returnsBefore code i * f.numbers

/-- A return comes before the later ones. -/
theorem returnsBefore_lt {i' : Nat} (hinsn : code[i]? = some insn) (hreturn : insn.isReturn = true)
    (hlt : i < i') : returnsBefore code i < returnsBefore code i' := by
  obtain ⟨hi, hget⟩ := List.getElem?_eq_some_iff.1 hinsn
  have hmore : returnsBefore code (i + 1) = returnsBefore code i + 1 := by
    rw [returnsBefore, List.take_succ_eq_append_getElem hi, hget, List.countP_append,
      List.countP_singleton, if_pos hreturn]
    rfl
  have hsub : returnsBefore code (i + 1) ≤ returnsBefore code i' :=
    ((List.take_sublist_take_left hlt).countP_le)
  omega

theorem weave_planReturns_cons :
    (planReturns f (insn :: code)).weave next =
      if insn.isReturn then
        f.relabeled next ++ insn :: (planReturns f code).weave (next + f.labelSpan)
      else insn :: (planReturns f code).weave next := by
  rw [planReturns, List.map_cons]
  split
  · simp [Plan.weave, copies, planReturns]
  · rfl

theorem length_weave_planReturns :
    ((planReturns f code).weave next).length =
      code.length + code.countP Instruction.isReturn * f.code.length := by
  induction code generalizing next with
  | nil => simp [planReturns, Plan.weave]
  | cons insn code ih =>
    rw [weave_planReturns_cons]
    split
    · rename_i hreturn
      rw [List.length_append, List.length_cons, ih, Fragment.relabeled, List.length_map,
        List.length_cons, List.countP_cons_of_pos hreturn, Nat.succ_mul]
      omega
    · rename_i hother
      rw [List.length_cons, ih, List.length_cons, List.countP_cons_of_neg hother]
      omega

/-- Labels that are moved behind one more copy. -/
theorem offset_succ {n : Nat} : next + UInt32.ofNat (n + 1) * f.labelSpan =
    next + f.labelSpan + UInt32.ofNat n * f.labelSpan := by
  have hsucc : UInt32.ofNat (n + 1) = 1 + UInt32.ofNat n := by
    rw [Nat.add_comm, UInt32.ofNat_add]
    rfl
  rw [hsucc, UInt32.add_mul, UInt32.one_mul, UInt32.add_assoc]

/-- What stands before an instruction of the body, and what comes from it on. -/
theorem weave_planReturns_append {before : List Instruction} :
    (planReturns f (before ++ code)).weave next = (planReturns f before).weave next ++
      (planReturns f code).weave
        (next + .ofNat (before.countP Instruction.isReturn) * f.labelSpan) := by
  induction before generalizing next with
  | nil => simp [planReturns, Plan.weave]
  | cons insn before ih =>
    rw [List.cons_append, weave_planReturns_cons, weave_planReturns_cons]
    split
    · rename_i hreturn
      rw [ih, List.countP_cons_of_pos hreturn, List.append_assoc, List.cons_append, offset_succ]
    · rename_i hother
      rw [ih, List.countP_cons_of_neg hother, List.cons_append]

theorem numbers_planReturns_cons : (planReturns f (insn :: code)).numbers =
    (if insn.isReturn then f.numbers else 0) + (planReturns f code).numbers := by
  rw [planReturns, List.map_cons, Plan.numbers]
  split
  · rfl
  · rfl

theorem numbers_planReturns :
    (planReturns f code).numbers = code.countP Instruction.isReturn * f.numbers := by
  induction code with
  | nil => simp [planReturns, Plan.numbers]
  | cons insn code ih =>
    rw [numbers_planReturns_cons, ih]
    split
    · rename_i hreturn
      rw [List.countP_cons_of_pos hreturn, Nat.succ_mul, Nat.add_comm]
    · rename_i hother
      rw [List.countP_cons_of_neg hother, Nat.zero_add]

/-- A label is one of the body, or numbered as the labels of the copies are. -/
theorem label_of_mem_weave_planReturns (hroom : NumbersFrom next first (planReturns f code).numbers)
    (h : .label l ∈ (planReturns f code).weave next) :
    .label l ∈ code ∨ first ≤ l.number.toNat ∧
      l.number.toNat < first + (planReturns f code).numbers := by
  induction code generalizing next first with
  | nil => cases h
  | cons insn code ih =>
    rw [numbers_planReturns_cons] at hroom ⊢
    rw [weave_planReturns_cons] at h
    split at h
    · rename_i hreturn
      rw [if_pos hreturn] at hroom ⊢
      -- labels of a copy lie in the block of numbers that the copy has taken
      rcases List.mem_append.1 h with hcopy | hrest
      · have hnumber := f.number_of_mem_relabeled hroom.left hcopy
        exact .inr (by omega)
      · rcases List.mem_cons.1 hrest with rfl | hrest
        · exact .inl List.mem_cons_self
        · rcases ih hroom.behind hrest with hbody | hnumber
          · exact .inl (List.mem_cons_of_mem _ hbody)
          · exact .inr (by omega)
    · rename_i hother
      rw [if_neg hother, Nat.zero_add] at hroom ⊢
      rcases List.mem_cons.1 h with rfl | hrest
      · exact .inl List.mem_cons_self
      · exact (ih hroom hrest).imp_left (List.mem_cons_of_mem _)

/-- Behind the copies in a part of the body, there are the numbers that they do not take up. -/
theorem NumbersFrom.exits {others : Nat}
    (h : NumbersFrom next first ((planReturns f code).numbers + others)) :
    NumbersFrom (next + .ofNat (code.countP Instruction.isReturn) * f.labelSpan)
      (first + (planReturns f code).numbers) others := by
  induction code generalizing next first with
  | nil => simpa [planReturns, Plan.numbers] using h
  | cons insn code ih =>
    rw [numbers_planReturns_cons] at h ⊢
    cases hreturn : insn.isReturn with
    | true =>
      rw [hreturn, if_pos rfl, Nat.add_assoc] at h
      rw [if_pos rfl, List.countP_cons_of_pos hreturn, offset_succ, ← Nat.add_assoc]
      exact ih h.behind
    | false =>
      rw [hreturn, if_neg Bool.false_ne_true, Nat.zero_add] at h
      rw [if_neg Bool.false_ne_true, Nat.zero_add,
        List.countP_cons_of_neg (Bool.not_eq_true _ ▸ hreturn)]
      exact ih h

theorem number_add_exits : numberBound (code.flatMap Instruction.labels) +
    (planReturns f (code.take i)).numbers = exitNumber f code i := by
  rw [numbers_planReturns]
  rfl

/-- The numbers for the copies before those of a return, and for its own copy and the later ones. -/
theorem numbersFrom_exit (hnumbers : (planReturns f code).NumbersFit code)
    (hinsn : code[i]? = some insn) (hreturn : insn.isReturn = true) :
    NumbersFrom (freshLabel code) (numberBound (code.flatMap Instruction.labels))
        (planReturns f (code.take i)).numbers ∧
      NumbersFrom (exitOffset f code i) (exitNumber f code i)
        (f.numbers + (planReturns f (code.drop (i + 1))).numbers) := by
  obtain ⟨hi, hget⟩ := List.getElem?_eq_some_iff.1 hinsn
  have hcode : code = code.take i ++ insn :: code.drop (i + 1) := by
    rw [← hget, List.getElem_cons_drop, List.take_append_drop]
  have hsum : (planReturns f code).numbers = (planReturns f (code.take i)).numbers +
      (f.numbers + (planReturns f (code.drop (i + 1))).numbers) := by
    conv_lhs => rw [hcode]
    rw [numbers_planReturns, numbers_planReturns, numbers_planReturns, List.countP_append,
      List.countP_cons_of_pos hreturn, Nat.add_mul, Nat.succ_mul, Nat.add_comm f.numbers]
  have hroom := hnumbers.numbersFrom
  rw [hsum] at hroom
  exact ⟨hroom.left, number_add_exits (f := f) ▸ hroom.exits⟩

/-- The copy before a return, followed by the return. -/
theorem copiedAt_exit (hnumbers : (planReturns f code).NumbersFit code)
    (hinsn : code[i]? = some insn) (hreturn : insn.isReturn = true) :
    f.CopiedAt ((planReturns f code).weave (freshLabel code)) (exitStart f code i)
        (exitOffset f code i) ∧
      ((planReturns f code).weave (freshLabel code))[exitStart f code i + f.code.length]? =
        some insn := by
  obtain ⟨hi, hget⟩ := List.getElem?_eq_some_iff.1 hinsn
  have hcode : code = code.take i ++ insn :: code.drop (i + 1) := by
    rw [← hget, List.getElem_cons_drop, List.take_append_drop]
  have hbefore : ((planReturns f (code.take i)).weave (freshLabel code)).length =
      exitStart f code i := by
    rw [length_weave_planReturns, List.length_take_of_le hi.le]
    rfl
  have hweave : (planReturns f code).weave (freshLabel code) =
      (planReturns f (code.take i)).weave (freshLabel code) ++ f.relabeled (exitOffset f code i) ++
        insn :: (planReturns f (code.drop (i + 1))).weave (exitOffset f code i + f.labelSpan) := by
    conv_lhs => rw [hcode]
    rw [weave_planReturns_append, weave_planReturns_cons, if_pos hreturn, List.append_assoc,
      ← hcode]
    rfl
  -- the labels of the body are numbered below those of all copies
  obtain ⟨hearlier, hlater⟩ := numbersFrom_exit hnumbers hinsn hreturn
  have hbody {l : Label} (hl : .label l ∈ code) :
      l.number.toNat < numberBound (code.flatMap Instruction.labels) :=
    MethodDecl.number_lt_numberBound hl List.mem_cons_self
  have hfresh : numberBound (code.flatMap Instruction.labels) ≤ exitNumber f code i :=
    Nat.le_add_right _ _
  constructor
  · refine ⟨_, _, hweave, hbefore, fun l hl hcopy => ?_⟩
    obtain ⟨hle, hlt⟩ := f.number_of_mem_relabeled hlater.left hcopy
    rcases hl with hl | hl
    · rcases label_of_mem_weave_planReturns hearlier hl with hl | ⟨-, hlt'⟩
      · have hlt' := hbody (List.mem_of_mem_take hl)
        omega
      · rw [number_add_exits] at hlt'
        omega
    · rcases List.mem_cons.1 hl with rfl | hl
      · have hlt' := hbody (List.mem_of_getElem? hinsn)
        omega
      · rcases label_of_mem_weave_planReturns hlater.behind hl with hl | ⟨hle', -⟩
        · have hlt' := hbody (List.mem_of_mem_drop hl)
          omega
        · omega
  · rw [hweave, List.getElem?_append_right (by simp [hbefore, Fragment.relabeled])]
    simp [hbefore, Fragment.relabeled]

/-- Every instruction is one of the body or belongs to the copy before one of its returns. -/
theorem weave_planReturns_cases (hinsn : ((planReturns f code).weave next)[p]? = some insn) :
    insn ∈ code ∨ ∃ i ret j, code[i]? = some ret ∧ ret.isReturn = true ∧ j < f.code.length ∧
      p = exitStart f code i + j := by
  induction code generalizing next p with
  | nil => cases hinsn
  | cons first code ih =>
    -- places in the rest of the code are moved by what takes the place of the first instruction
    have hlater {n : Nat} (hn : n = if first.isReturn then f.code.length + 1 else 1)
        {p' : Nat} {next' : UInt32} (hp : p = n + p')
        (hrest : ((planReturns f code).weave next')[p']? = some insn) :
        insn ∈ first :: code ∨ ∃ i ret j, (first :: code)[i]? = some ret ∧ ret.isReturn = true ∧
          j < f.code.length ∧ p = exitStart f (first :: code) i + j := by
      rcases ih hrest with hmem | ⟨i, ret, j, hret, hreturn, hj, hp'⟩
      · exact .inl (List.mem_cons_of_mem _ hmem)
      · refine .inr ⟨i + 1, ret, j, hret, hreturn, hj, ?_⟩
        rw [hp, hp', hn, exitStart, exitStart, returnsBefore, returnsBefore, List.take_succ_cons,
          List.countP_cons]
        split
        · rw [Nat.succ_mul]
          omega
        · simp only [Nat.add_zero]
          omega
    rw [weave_planReturns_cons] at hinsn
    split at hinsn
    · rename_i hreturn
      have hlength : (f.relabeled next).length = f.code.length := List.length_map _
      rcases Nat.lt_trichotomy p f.code.length with hp | hp | hp
      · -- the copy before the first instruction
        refine .inr ⟨0, first, p, rfl, hreturn, hp, ?_⟩
        simp [exitStart, returnsBefore]
      · rw [List.getElem?_append_right (by omega), hlength, hp, Nat.sub_self] at hinsn
        cases hinsn
        exact .inl List.mem_cons_self
      · obtain ⟨p', rfl⟩ := Nat.exists_eq_add_of_lt hp
        rw [List.getElem?_append_right (by omega), hlength] at hinsn
        have hp' : f.code.length + p' + 1 - f.code.length = p' + 1 := by omega
        rw [hp', List.getElem?_cons_succ] at hinsn
        exact hlater (by rw [if_pos hreturn]) (by omega) hinsn
    · rename_i hother
      cases p with
      | zero =>
        cases hinsn
        exact .inl List.mem_cons_self
      | succ p' =>
        rw [List.getElem?_cons_succ] at hinsn
        exact hlater (by rw [if_neg hother]) (Nat.add_comm _ _) hinsn

end Exits

end ClassEdit
