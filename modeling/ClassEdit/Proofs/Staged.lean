import ClassEdit.Proofs.ExitCopies
import ClassEdit.Proofs.Neutral

/-!
# What is staged for return

Before a return the value to be returned lies on the stack, and whatever is below it. A fragment
that is spliced in there leaves both alone if it never pops what it has not pushed itself. An
assembler with nothing available sees to this on all paths that it follows. For a fragment that is
known beforehand only its effect as a whole is looked at, and so it may take the value and put
another one in its place.

## Main definitions

* `Fragment.Spares`: the fragment pops nothing but what it has pushed.
* `Fragment.Confined`: branches of the fragment stay inside.
* `MethodDecl.SparedBy`: a part of a body pops nothing that was there when control entered it.

## Main results

* `MethodDecl.WithExits.inside_of_reaches`: how control gets into a copy before a return.
* `Assembly.confined_and_spares`: what an assembler sees to.
* `Block.exits_spare_iff`: when copies before returns leave alone what is staged.
-/

namespace ClassEdit

namespace Fragment

/-- On no path does the fragment pop anything that it has not pushed. -/
def Spares (f : Fragment) : Prop :=
  ∀ p insn e, f.Reaches p → f.code[p.index]? = some insn → insn.effect = .ok e →
    (e.pops.toNat : Int) ≤ p.height

/-- Wherever control gets in the fragment, it does not branch to labels that the fragment does not
place. -/
def Confined (f : Fragment) : Prop :=
  ∀ p insn, f.Reaches p → f.code[p.index]? = some insn → ∀ l ∈ insn.targets, .label l ∈ f.code

/-- A plain list of instructions whose effect can be added up has no branches. -/
theorem confined_of_plain {f : Fragment} {k : Int} (hplain : f.exitHeight = none)
    (h : f.netEffect = .ok k) : f.Confined := by
  intro p insn _ hinsn l hl
  simp only [netEffect, hplain] at h
  split at h
  · cases h
  · rename_i hunbranched
    refine absurd (List.any_eq_true.2 ⟨insn, List.mem_of_getElem? hinsn, ?_⟩) hunbranched
    cases htargets : insn.targets with
    | nil => simp [htargets] at hl
    | cons l' rest => rfl

end Fragment

/-- Wherever control gets in a part of the body, it has entered the part at its beginning, and on no
way through the part anything is popped that was on the stack when control entered it. -/
def MethodDecl.SparedBy (m : MethodDecl) (start length : Nat) : Prop :=
  ∀ p insn e, m.Reaches p → start ≤ p.index → p.index < start + length →
    m.code[p.index]? = some insn → insn.effect = .ok e →
      (∃ h, m.Reaches ⟨start, h⟩ ∧ PathWithin m.code start length ⟨start, h⟩ p) ∧
        ∀ h, PathWithin m.code start length ⟨start, h⟩ p → h ≤ p.height - e.pops.toNat

/-! ### How control gets into a copy -/

/-- A body with a copy of a fragment before each of its returns, and label numbers for all of these
copies. -/
structure MethodDecl.WithExits (m : MethodDecl) (f : Fragment) (final : MethodDecl) : Prop where
  code_eq : final.code = (planReturns f m.code).weave (freshLabel m.code)
  handlers_eq : final.handlers = m.handlers
  handlers_placed : ∀ b ∈ m.handlers, .label b.handler ∈ m.code
  numbers_fit : (planReturns f m.code).NumbersFit m.code

/-- There is a return at a place of the body. -/
def MethodDecl.ReturnsAt (m : MethodDecl) (i : Nat) : Prop :=
  ∃ ret, m.code[i]? = some ret ∧ ret.isReturn = true

namespace MethodDecl.WithExits

variable {m final : MethodDecl} {f : Fragment} {i i' j : Nat} {l : Label} {p q : Point}

theorem copiedAt (h : m.WithExits f final) (hi : m.ReturnsAt i) :
    f.CopiedAt final.code (exitStart f m.code i) (exitOffset f m.code i) := by
  obtain ⟨ret, hret, hreturn⟩ := hi
  rw [h.code_eq]
  exact (copiedAt_exit h.numbers_fit hret hreturn).1

/-- The return comes right after the copy. -/
theorem getElem?_return (h : m.WithExits f final) (hi : m.ReturnsAt i) :
    final.code[exitStart f m.code i + f.code.length]? = m.code[i]? := by
  obtain ⟨ret, hret, hreturn⟩ := hi
  rw [h.code_eq, hret]
  exact (copiedAt_exit h.numbers_fit hret hreturn).2

/-- The numbers that a label of the copy before a return has. -/
def Numbers (f : Fragment) (m : MethodDecl) (i : Nat) (l : Label) : Prop :=
  exitNumber f m.code i ≤ l.number.toNat ∧ l.number.toNat < exitNumber f m.code i + f.numbers

theorem numbers_shift (h : m.WithExits f final) (hi : m.ReturnsAt i) (hl : .label l ∈ f.code) :
    Numbers f m i (l.shift (exitOffset f m.code i)) := by
  obtain ⟨ret, hret, hreturn⟩ := hi
  have hroom := (numbersFrom_exit h.numbers_fit hret hreturn).2.left
  exact f.number_of_mem_relabeled hroom (List.mem_map.2 ⟨_, hl, rfl⟩)

/-- A label at a place of a copy is numbered as its labels are. -/
theorem numbers_of_label (h : m.WithExits f final) (hi : m.ReturnsAt i) (hj : j < f.code.length)
    (hlabel : final.code[exitStart f m.code i + j]? = some (.label l)) : Numbers f m i l := by
  obtain ⟨l', rfl, hl'⟩ := (h.copiedAt hi).exists_label hj hlabel
  exact h.numbers_shift hi (List.mem_of_getElem? hl')

/-- The labels of the body are numbered differently. -/
theorem Numbers.fresh (h : Numbers f m i l) {insn : Instruction} (hinsn : insn ∈ m.code) :
    l ∉ insn.labels := by
  intro hl
  have hlt := number_lt_numberBound hinsn hl
  have hfresh : numberBound (m.code.flatMap Instruction.labels) ≤ exitNumber f m.code i :=
    Nat.le_add_right _ _
  have hlow := h.1
  omega

/-- The labels of the copies before different returns are numbered differently. -/
theorem Numbers.inj (h : Numbers f m i l) (h' : Numbers f m i' l) (hi : m.ReturnsAt i)
    (hi' : m.ReturnsAt i') : i = i' := by
  obtain ⟨ret, hret, hreturn⟩ := hi
  obtain ⟨ret', hret', hreturn'⟩ := hi'
  obtain ⟨hlow, hhigh⟩ := h
  obtain ⟨hlow', hhigh'⟩ := h'
  -- of two returns the earlier one has its labels below those of the later one
  have hbelow {a b : Nat} (hlt : returnsBefore m.code a < returnsBefore m.code b) :
      exitNumber f m.code a + f.numbers ≤ exitNumber f m.code b := by
    have hmul := Nat.mul_le_mul_right f.numbers (Nat.succ_le_of_lt hlt)
    rw [Nat.succ_mul] at hmul
    rw [exitNumber, exitNumber]
    omega
  rcases Nat.lt_trichotomy i i' with hlt | hsame | hlt
  · have hle := hbelow (returnsBefore_lt hret hreturn hlt)
    omega
  · exact hsame
  · have hle := hbelow (returnsBefore_lt hret' hreturn' hlt)
    omega

/-- At a point of a copy, control has entered the copy at its beginning and has gone on from there
as it goes in the fragment. -/
def Inside (f : Fragment) (m final : MethodDecl) (p : Point) : Prop :=
  ∀ i j, m.ReturnsAt i → j < f.code.length → p.index = exitStart f m.code i + j →
    ∃ h, final.Reaches ⟨exitStart f m.code i, h⟩ ∧ f.Reaches ⟨j, p.height - h⟩

/-- What comes to the beginning of a copy enters it there. -/
theorem entered (hreached : final.Reaches p) (hindex : p.index = exitStart f m.code i) :
    ∃ h, final.Reaches ⟨exitStart f m.code i, h⟩ ∧ f.Reaches ⟨0, p.height - h⟩ := by
  have hpoint : p = ⟨exitStart f m.code i, p.height⟩ := Point.ext hindex rfl
  refine ⟨p.height, hpoint ▸ hreached, ?_⟩
  rw [Int.sub_self]
  exact .refl

theorem inside_of_entry (h : m.WithExits f final) (hentry : final.Entry p) :
    Inside f m final p := by
  intro i j hi hj hindex
  rcases hentry with hnonempty | ⟨hb, hplace⟩
  · -- the body begins with a copy
    obtain ⟨hstart, rfl⟩ : 0 = exitStart f m.code i ∧ j = 0 := by
      dsimp only at hindex
      omega
    exact entered (MethodDecl.Entry.start hnonempty).reaches hstart
  · -- a handler is placed in the body, and so in no copy
    rw [h.handlers_eq] at hb
    have hlabel := getElem?_of_labelPosition? hplace
    dsimp only at hindex
    rw [hindex] at hlabel
    exact absurd List.mem_cons_self
      ((h.numbers_of_label hi hj hlabel).fresh (h.handlers_placed _ hb))

/-- An instruction that branches into a copy belongs to the same copy, if the copies do not branch
to labels that the fragment does not place. -/
theorem branch_inside (h : m.WithExits f final) {n : Nat} {insn : Instruction}
    (hplaced : ∀ i j insn, m.ReturnsAt i → j < f.code.length → n = exitStart f m.code i + j →
      f.code[j]? = some insn → ∀ l ∈ insn.targets, .label l ∈ f.code)
    (hi : m.ReturnsAt i) (hl : Numbers f m i l) (hinsn : final.code[n]? = some insn)
    (hmem : l ∈ insn.targets) : ∃ j < f.code.length, n = exitStart f m.code i + j := by
  have hcases := hinsn
  rw [h.code_eq] at hcases
  rcases weave_planReturns_cases hcases with hbody | ⟨i', ret, j, hret, hreturn, hj, rfl⟩
  · exact absurd (Instruction.mem_labels_of_mem_targets hmem) (hl.fresh hbody)
  · -- the labels that another copy branches to are its own
    have hi' : m.ReturnsAt i' := ⟨ret, hret, hreturn⟩
    obtain ⟨insn', hinsn', rfl⟩ := (h.copiedAt hi').exists_insn hj hinsn
    rw [Instruction.targets_relabeled] at hmem
    obtain ⟨l', hl', rfl⟩ := List.mem_map.1 hmem
    have hnumbers := h.numbers_shift hi' (hplaced i' j insn' hi' hj rfl hinsn' l' hl')
    obtain rfl := hl.inj hnumbers hi hi'
    exact ⟨j, hj, rfl⟩

theorem inside_of_step (h : m.WithExits f final) (hconfined : f.Confined)
    (hreached : final.Reaches p) (hinside : Inside f m final p)
    (hstep : FlowStep final.code p q) : Inside f m final q := by
  intro i j hi hj hindex
  by_cases hsame : ∃ j' < f.code.length, p.index = exitStart f m.code i + j'
  · -- the step begins in the same copy, so it is one of the fragment
    obtain ⟨j', hj', hp⟩ := hsame
    obtain ⟨k, hstart, hthere⟩ := hinside i j' hi hj' hp
    have hpoint : p = ⟨exitStart f m.code i + j', p.height⟩ := Point.ext hp rfl
    rw [hpoint] at hstep
    obtain ⟨j'', hq, hflow⟩ := (h.copiedAt hi).step_inside hj'
      (fun insn hinsn l hl => hconfined _ insn hthere hinsn l hl) hstep k
    obtain rfl : j = j'' := by omega
    exact ⟨k, hstart, hthere.tail hflow⟩
  · obtain ⟨insn, e, hinsn, -, -, ⟨-, hnext⟩ | ⟨l, hl, hplace⟩⟩ := flowStep_iff.1 hstep
    · -- what goes on into the copy comes to its beginning
      have hzero : j = 0 := by
        by_contra hne
        exact hsame ⟨j - 1, by omega, by omega⟩
      subst hzero
      exact entered (hreached.step hstep) hindex
    · -- a jump into the middle would need a label of the copy, which nothing outside of it mentions
      have hlabel := getElem?_of_labelPosition? hplace
      rw [hindex] at hlabel
      have hnumbers := h.numbers_of_label hi hj hlabel
      refine absurd (h.branch_inside ?_ hi hnumbers hinsn hl) hsame
      intro i' j' insn' hi' hj' hp hinsn'
      obtain ⟨k, -, hthere⟩ := hinside i' j' hi' hj' hp
      exact hconfined _ insn' hthere hinsn'

/-- Control gets into the copy before a return by entering it at its beginning, and there it goes
where it goes in the fragment. -/
theorem inside_of_reaches (h : m.WithExits f final) (hconfined : f.Confined)
    (hp : final.Reaches p) : Inside f m final p := by
  have hboth : final.Reaches p ∧ Inside f m final p := by
    refine hp.of_closed (P := fun p => final.Reaches p ∧ Inside f m final p) ?_ ?_
    · exact fun p hentry => ⟨hentry.reaches, h.inside_of_entry hentry⟩
    · rintro p q ⟨hreached, hinside⟩ hstep
      exact ⟨hreached.step hstep, h.inside_of_step hconfined hreached hinside hstep⟩
  exact hboth.2

end MethodDecl.WithExits

/-! ### What an assembler sees to -/

namespace Assembly

/-- An assembler lets a fragment branch to its own labels only, and with nothing available it lets
it pop nothing but what it has pushed, unless a jump to a stray was recorded. -/
theorem confined_and_spares {a rest : Assembly} {f : Fragment} {available : Nat}
    {strays : List Label} (hrun : Assembled available a strays) (hbuild : a.build = (.ok f, rest))
    (hunknown : ∀ l ∈ strays, a.heightAt? l = none) :
    f.Confined ∧ (available = 0 → f.Spares) := by
  obtain ⟨hplaced, hhighest, hf⟩ := build_eq_ok hbuild
  have hcode : f.code = a.code := by rw [hf]
  obtain ⟨A, hA⟩ := hrun.tracked.resolve_left (Int.not_lt.2 hhighest)
  -- all points are noted, since no path comes to a stray
  have hnoted {p : Point} (hp : f.Reaches p) {insn : Instruction}
      (hinsn : f.code[p.index]? = some insn) : A[p.index]? = some (insn, some p.height) := by
    rw [hcode] at hinsn
    exact hA.note (hA.holds_of_clear hcode (hA.reachesClear hcode hunknown hp)) hinsn
  constructor
  · intro p insn hp hinsn l hl
    obtain ⟨e, -, -, htargets, -⟩ := hA.linked.at_reached (hnoted hp hinsn)
    rw [hcode]
    exact hA.placed l (hplaced l _ (htargets l hl))
  · rintro rfl p insn e hp hinsn heffect
    obtain ⟨e', heffect', hwithin, -⟩ := hA.linked.at_reached (hnoted hp hinsn)
    rw [heffect] at heffect'
    cases heffect'
    have hlow := hwithin.1
    omega

end Assembly

/-! ### Blocks with one fragment before the returns -/

namespace MethodDecl.WithExits

variable {m final : MethodDecl} {f : Fragment} {i : Nat}

/-- A fragment that pops nothing but what it has pushed does not do so in a copy either. -/
theorem sparedBy (h : m.WithExits f final) (hconfined : f.Confined) (hi : m.ReturnsAt i)
    (hspares : (∃ k, final.Reaches ⟨exitStart f m.code i, k⟩) → f.Spares) :
    final.SparedBy (exitStart f m.code i) f.code.length := by
  intro p insn e hp hstart hend hinsn heffect
  obtain ⟨j, hindex⟩ := Nat.exists_eq_add_of_le hstart
  have hj : j < f.code.length := by omega
  have hcopied := h.copiedAt hi
  obtain ⟨k, hentered, hreached⟩ := h.inside_of_reaches hconfined hp i j hi hj hindex
  refine ⟨⟨k, hentered, ?_⟩, fun k' hpath => ?_⟩
  · have hpath := hcopied.path hreached hj k
    have hpoint : p = ⟨exitStart f m.code i + j, k + (p.height - k)⟩ :=
      Point.ext hindex (by dsimp only; omega)
    rwa [← hpoint] at hpath
  · obtain ⟨j', hindex', hreached'⟩ := hcopied.reaches_of_pathWithin hconfined hpath
    obtain rfl : j = j' := by omega
    rw [hindex] at hinsn
    obtain ⟨insn', hinsn', rfl⟩ := hcopied.exists_insn hj hinsn
    rw [Instruction.effect_relabeled] at heffect
    have hpops : (e.pops.toNat : Int) ≤ p.height - k' :=
      hspares ⟨k, hentered⟩ _ insn' e hreached' hinsn' heffect
    omega

/-- A copy that control enters shows what the fragment does. -/
theorem spares_of_sparedBy (h : m.WithExits f final) (hi : m.ReturnsAt i) {k : Int}
    (hentered : final.Reaches ⟨exitStart f m.code i, k⟩)
    (hspared : final.SparedBy (exitStart f m.code i) f.code.length) : f.Spares := by
  intro p insn e hp hinsn heffect
  have hlt := (List.getElem?_eq_some_iff.1 hinsn).1
  have hcopied := h.copiedAt hi
  -- the path through the fragment is one through the copy
  have hpath := hcopied.path hp hlt k
  have hinsn' : final.code[exitStart f m.code i + p.index]? =
      some (insn.relabeled (exitOffset f m.code i)) := by
    rw [hcopied.getElem?_eq hlt, hinsn]
    rfl
  rw [← Instruction.effect_relabeled (exitOffset f m.code i)] at heffect
  have hle := (hspared _ _ e (hentered.pathWithin hpath) (Nat.le_add_right _ _)
    (Nat.add_lt_add_left hlt _) hinsn' heffect).2 k hpath
  dsimp only at hle
  omega

end MethodDecl.WithExits

namespace Block

variable {owner : ClassDecl} {m final : MethodDecl} {registration : String}
variable {source : FragmentSource} {f : Fragment} {outcome : Outcome}

/-- What a block that splices a fragment in before the returns leaves. -/
theorem withExits_of_run (hm : ∃ r, m.heights = .ok r)
    (hnumbers : (planReturns f m.code).NumbersFit m.code)
    (hresolve : source.resolve ⟨owner, m, registration⟩ 0 = .ok f)
    (hrun : (ofOperations [.methodExit source]).run owner m registration = .ok (final, outcome)) :
    m.WithExits f final ∧ f.netEffect = .ok f.delta := by
  obtain ⟨edited, happly, hcode, hhandlers, -⟩ := run_applyAll hrun
  obtain ⟨⟨next, done⟩, hexit, hrest⟩ := bind_eq_ok_iff.1 happly
  obtain ⟨f', hf', hcheck, hnext⟩ := Operation.spliceReturns_eq hexit
  obtain rfl : f = f' := Except.ok.inj (hresolve.symm.trans hf')
  obtain rfl : next = edited := congrArg Prod.fst (Except.ok.inj hrest)
  refine ⟨⟨?_, ?_, fun b hb => ?_, hnumbers⟩, checkEffect_eq_ok_iff.1 hcheck⟩
  · rw [hcode, hnext]
  · rw [hhandlers, hnext]
  · obtain ⟨p, hp⟩ := (MethodDecl.exists_heights_iff.1 hm).handlers_placed b hb
    exact List.mem_of_getElem? (getElem?_of_labelPosition? hp)

/-- Copies of a fragment before the returns of a body, with label numbers for all of them. If the
fragment branches to its own labels only, the copies leave alone what is staged for return, on all
paths, exactly if the fragment pops nothing that it has not pushed or none of the copies is ever
entered. A plain list of instructions branches nowhere. A fragment that was assembled branches to
its own labels, and with nothing available it leaves alone what is staged, unless it jumps back to a
label that was marked in dead code before any jump to it was recorded. Nothing is available if it is
assembled when the block is applied. -/
theorem exits_spare_iff (hm : ∃ r, m.heights = .ok r)
    (hnumbers : (planReturns f m.code).NumbersFit m.code)
    (hresolve : source.resolve ⟨owner, m, registration⟩ 0 = .ok f)
    (hrun : (ofOperations [.methodExit source]).run owner m registration = .ok (final, outcome)) :
    (∀ i, m.ReturnsAt i →
        f.CopiedAt final.code (exitStart f m.code i) (exitOffset f m.code i) ∧
          final.code[exitStart f m.code i + f.code.length]? = m.code[i]?) ∧
      (f.Confined →
        ((∀ i, m.ReturnsAt i → final.SparedBy (exitStart f m.code i) f.code.length) ↔
          ∀ i k, m.ReturnsAt i → final.Reaches ⟨exitStart f m.code i, k⟩ → f.Spares)) ∧
      (f.exitHeight = none → f.Confined) ∧
      (∀ available a rest strays, Assembly.Assembled available a strays →
        a.build = (.ok f, rest) → (∀ l ∈ strays, a.heightAt? l = none) →
          f.Confined ∧ (available = 0 →
            ∀ i, m.ReturnsAt i → final.SparedBy (exitStart f m.code i) f.code.length)) ∧
        ∀ program, source = .assembled program → ∃ a rest,
          (program ⟨owner, m, registration⟩).run (.start 0) = (.ok (), a) ∧
            a.build = (.ok f, rest) := by
  obtain ⟨hexits, heffect⟩ := withExits_of_run hm hnumbers hresolve hrun
  refine ⟨fun i hi => ⟨hexits.copiedAt hi, hexits.getElem?_return hi⟩, fun hconfined => ⟨?_, ?_⟩,
    fun hplain => Fragment.confined_of_plain hplain heffect, ?_, ?_⟩
  · exact fun h i k hi hentered => hexits.spares_of_sparedBy hi hentered (h i hi)
  · exact fun h i hi => hexits.sparedBy hconfined hi fun ⟨k, hentered⟩ => h i k hi hentered
  · intro available a rest strays hassembled hbuild hunknown
    obtain ⟨hconfined, hspares⟩ := Assembly.confined_and_spares hassembled hbuild hunknown
    exact ⟨hconfined, fun hnothing i hi => hexits.sparedBy hconfined hi fun _ => hspares hnothing⟩
  · rintro program rfl
    exact Assembler.assemble_eq_ok_iff.1 hresolve

/-- A fragment with a branch before two returns. It pushes over the value to be returned, and pops
what it has pushed on both paths. -/
theorem exits_spare_of_branch :
    let m : MethodDecl := ⟨"f", "()I", ⟨9⟩, [], .int, [.simple Opcode.iconst0,
      .jump Opcode.ifeq ⟨0⟩, .simple Opcode.iconst5, .simple Opcode.ireturn, .label ⟨0⟩,
      .simple Opcode.iconstM1, .simple Opcode.ireturn], [], 1, 0⟩
    let owner : ClassDecl := ⟨"a", none, [], .none, [], [m], []⟩
    let program : Assembler Unit := do
      let last ← Assembler.newLabel
      Assembler.simple Opcode.iconst0
      Assembler.jump Opcode.ifeq last
      Assembler.simple Opcode.iconst5
      Assembler.simple Opcode.pop
      Assembler.mark last
    let f : Fragment := ⟨[.simple Opcode.iconst0, .jump Opcode.ifeq ⟨0⟩, .simple Opcode.iconst5,
      .simple Opcode.pop, .label ⟨0⟩], 0, 1, some 0⟩
    let final : MethodDecl := { m with
      code := [.simple Opcode.iconst0, .jump Opcode.ifeq ⟨0⟩, .simple Opcode.iconst5,
        .simple Opcode.iconst0, .jump Opcode.ifeq ⟨1⟩, .simple Opcode.iconst5, .simple Opcode.pop,
        .label ⟨1⟩, .simple Opcode.ireturn, .label ⟨0⟩, .simple Opcode.iconstM1,
        .simple Opcode.iconst0, .jump Opcode.ifeq ⟨2⟩, .simple Opcode.iconst5, .simple Opcode.pop,
        .label ⟨2⟩, .simple Opcode.ireturn]
      maxStack := 2 }
    let source : FragmentSource := .assembled fun _ => program
    let outcome : Outcome := ⟨[⟨.exitInjected, 2, "5 instructions per exit"⟩], true⟩
    (∃ r, m.heights = .ok r) ∧ (planReturns f m.code).NumbersFit m.code ∧
      source.resolve ⟨owner, m, "r"⟩ 0 = .ok f ∧
      (ofOperations [.methodExit source]).run owner m "r" = .ok (final, outcome) ∧
        (∃ a, program.run (.start 0) = (.ok (), a) ∧ Assembly.Assembled 0 a []) ∧
          f.Confined ∧ m.ReturnsAt 6 ∧ final.SparedBy (exitStart f m.code 6) 5 := by
  intro m owner program f final source outcome
  let edited : MethodDecl := { final with maxStack := 1 }
  have hr : m.heights = .ok ⟨1, [some 0, some 1, some 0, some 1, some 0, some 0, some 1]⟩ :=
    m.heights_of_runWithin 8 rfl (by decide +kernel)
  have hedited : edited.heights = .ok ⟨2, [some 0, some 1, some 0, some 1, some 2, some 1, some 2,
      some 1, some 1, some 0, some 0, some 1, some 2, some 1, some 2, some 1, some 1]⟩ :=
    edited.heights_of_runWithin 20 rfl (by decide +kernel)
  have hm : ∃ r, m.heights = .ok r := ⟨_, hr⟩
  have hnumbers : (planReturns f m.code).NumbersFit m.code := by decide
  have hresolve : source.resolve ⟨owner, m, "r"⟩ 0 = .ok f := rfl
  have hrun : (ofOperations [.methodExit source]).run owner m "r" = .ok (final, outcome) :=
    run_of_heights rfl (by decide : edited ≠ m) hr hedited
  have hassembled := (Assembly.Assembled.start : Assembly.Assembled 0 _ _).newLabel
  have hassembled := hassembled.emit (.simple Opcode.iconst0) rfl rfl
  have hassembled := hassembled.emit (.jump Opcode.ifeq ⟨0⟩) rfl rfl
  have hassembled := hassembled.emit (.simple Opcode.iconst5) rfl rfl
  have hassembled := hassembled.emit (.simple Opcode.pop) rfl rfl
  have hassembled := hassembled.mark ⟨0⟩ (fun hdead => absurd hdead (by decide)) rfl
  have hreturn : m.ReturnsAt 6 := ⟨_, rfl, rfl⟩
  obtain ⟨-, -, -, hspared, -⟩ := exits_spare_iff hm hnumbers hresolve hrun
  obtain ⟨hconfined, hcopies⟩ := hspared _ _ _ _ hassembled rfl (List.forall_mem_nil _)
  exact ⟨hm, hnumbers, hresolve, hrun, ⟨_, rfl, hassembled⟩, hconfined, hreturn,
    hcopies rfl 6 hreturn⟩

/-- A list of instructions that discards the value to be returned and puts another one in its place.
Its effect is nothing, so the block is committed. -/
theorem exits_spare_not_of_replaced_value :
    let m : MethodDecl := ⟨"f", "()I", ⟨9⟩, [], .int,
      [.simple Opcode.iconst5, .simple Opcode.ireturn], [], 1, 0⟩
    let owner : ClassDecl := ⟨"a/A", none, [], .none, [], [m], []⟩
    let f : Fragment := .ofCode [.simple Opcode.pop, .simple Opcode.iconst0]
    ∃ final outcome, (∃ r, m.heights = .ok r) ∧
      (ofOperations [.methodExit (.fixed f)]).run owner m "r" = .ok (final, outcome) ∧
        m.ReturnsAt 1 ∧ f.CopiedAt final.code (exitStart f m.code 1) (exitOffset f m.code 1) ∧
          final.Reaches ⟨exitStart f m.code 1, 1⟩ ∧
            ¬ final.SparedBy (exitStart f m.code 1) f.code.length := by
  intro m owner f
  let final : MethodDecl := { m with code := [.simple Opcode.iconst5, .simple Opcode.pop,
    .simple Opcode.iconst0, .simple Opcode.ireturn] }
  have hr : m.heights = .ok ⟨1, [some 0, some 1]⟩ :=
    m.heights_of_runWithin 3 rfl (by decide +kernel)
  have hfinal : final.heights = .ok ⟨1, [some 0, some 1, some 0, some 1]⟩ :=
    final.heights_of_runWithin 5 rfl (by decide +kernel)
  have hm : ∃ r, m.heights = .ok r := ⟨_, hr⟩
  have hrun : (ofOperations [.methodExit (.fixed f)]).run owner m "r" =
      .ok (final, ⟨[⟨.exitInjected, 1, "2 instructions per exit"⟩], true⟩) :=
    run_of_heights (by decide +kernel) (by decide : final ≠ m) hr hfinal
  obtain ⟨hexits, -⟩ := withExits_of_run hm (by decide) rfl hrun
  have hreturn : m.ReturnsAt 1 := ⟨_, rfl, rfl⟩
  have hentered : final.Reaches ⟨1, 1⟩ := by
    have hstart : final.Entry ⟨0, 0⟩ := .start (List.cons_ne_nil _ _)
    exact hstart.reaches.step (flowStep_iff.2 ⟨_, _, rfl, rfl, rfl, .inl ⟨rfl, rfl⟩⟩)
  refine ⟨final, _, hm, hrun, hreturn, hexits.copiedAt hreturn, hentered, fun hspared => ?_⟩
  -- the first instruction of the copy pops the value to be returned
  obtain ⟨-, hle⟩ := hspared ⟨1, 1⟩ (.simple Opcode.pop) ⟨1, 0⟩ hentered le_rfl (by decide) rfl rfl
  exact absurd (hle 1 .refl) (by decide)

end Block

end ClassEdit
