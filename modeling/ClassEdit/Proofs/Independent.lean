import ClassEdit.Proofs.Replacement

/-!
# Replacements that do not meet

Constants that are replaced one after the other can get in each other's way. What one operation puts
in is replaced again if it is the source of a later one, and of two operations with the same source
only the first finds it. Nothing of the kind happens if the sources differ and no operation puts in
what another one replaces. Then every instruction is the business of one operation at most. Those
before this one leave the instruction alone, since it pushes none of their sources, and those after
it leave alone what was put in, for the same reason. So the new body can be told from the pairs of
constants, without their order.

## Main definitions

* `Replacements`: the constants to be replaced, each with the one that is put in for it.
* `Replacements.Independent`: replacements that do not meet.
* `Replacements.exchange`: an instruction, with its own replacement made.

## Main results

* `exchangeInTurn_of_pushes`, `exchangeInTurn_of_not_pushes`: what becomes of an instruction if the
  replacements are made one after the other.
* `Block.independent_replacements`: the body, in whatever order the replacements are made.
-/

namespace ClassEdit

/-- Constants to be replaced, each with the one that is put in for it. -/
abbrev Replacements := List (Constant × Constant)

namespace Replacements

variable {pairs : Replacements} {pair : Constant × Constant} {insn : Instruction}

/-- The operations that make the replacements. -/
def operations (pairs : Replacements) : List Operation :=
  pairs.map fun pair => .replaceConstant pair.1 pair.2

/-- An instruction, with the replacement made of the constant that it pushes. -/
def exchange (pairs : Replacements) (insn : Instruction) : Instruction :=
  match pairs.find? fun pair => insn.constant? == some pair.1 with
  | some (source, target) => if source = target then insn else .load target
  | none => insn

/-- Replacements that do not meet: every constant is replaced by one of its kind, no constant is
replaced twice, and none that is put in is replaced by another operation. -/
structure Independent (pairs : Replacements) : Prop where
  kind_eq : ∀ pair ∈ pairs, pair.1.kind = pair.2.kind
  nodup : (pairs.map Prod.fst).Nodup
  apart : ∀ pair ∈ pairs, ∀ other ∈ pairs, pair ≠ other → pair.2 ≠ other.1

namespace Independent

theorem perm {pairs' : Replacements} (h : pairs.Independent) (hperm : pairs'.Perm pairs) :
    pairs'.Independent where
  kind_eq pair hmem := h.kind_eq pair (hperm.mem_iff.1 hmem)
  nodup := ((hperm.map Prod.fst).nodup_iff).2 h.nodup
  apart pair hmem other hother :=
    h.apart pair (hperm.mem_iff.1 hmem) other (hperm.mem_iff.1 hother)

/-- Each constant is replaced by one operation only. -/
theorem eq_of_source_eq (h : pairs.Independent) {other : Constant × Constant} (hmem : pair ∈ pairs)
    (hother : other ∈ pairs) (hsource : pair.1 = other.1) : pair = other :=
  List.inj_on_of_nodup_map h.nodup hmem hother hsource

theorem isReplacement (h : pairs.Independent) : ∀ op ∈ pairs.operations, op.IsReplacement := by
  intro op hop
  obtain ⟨pair, hmem, rfl⟩ := List.mem_map.1 hop
  exact .constant (h.kind_eq pair hmem)

end Independent

/-! ### One instruction -/

theorem exchange_of_pushes (h : pairs.Independent) (hmem : pair ∈ pairs)
    (hpushes : insn.constant? = some pair.1) :
    pairs.exchange insn = if pair.1 = pair.2 then insn else .load pair.2 := by
  unfold exchange
  split
  · rename_i source target hfind
    have hfound := List.find?_some hfind
    rw [beq_iff_eq, hpushes, Option.some.injEq] at hfound
    rw [h.eq_of_source_eq hmem (List.mem_of_find?_eq_some hfind) hfound]
  · rename_i hfind
    exact absurd (beq_iff_eq.2 hpushes) (List.find?_eq_none.1 hfind pair hmem)

theorem exchange_of_not_pushes (hnone : ∀ pair ∈ pairs, insn.constant? ≠ some pair.1) :
    pairs.exchange insn = insn := by
  have hfind : (pairs.find? fun pair => insn.constant? == some pair.1) = none :=
    List.find?_eq_none.2 fun pair hmem hpushes => hnone pair hmem (beq_iff_eq.1 hpushes)
  rw [exchange, hfind]

end Replacements

/-- What becomes of an instruction if operations are applied one after the other. -/
def Operation.rewriteInTurn (ops : List Operation) (insn : Instruction) : Instruction :=
  ops.foldl (fun insn op => op.rewrite insn) insn

namespace Replacements

variable {pairs : Replacements} {pair : Constant × Constant} {insn : Instruction}

/-- What becomes of an instruction if the replacements are made one after the other. -/
def exchangeInTurn (pairs : Replacements) (insn : Instruction) : Instruction :=
  Operation.rewriteInTurn pairs.operations insn

theorem rewrite_of_not_pushes {source target : Constant} (hne : insn.constant? ≠ some source) :
    (Operation.replaceConstant source target).rewrite insn = insn := by
  rw [Operation.rewrite, Instruction.replacingConstant, if_neg hne, ite_self]

theorem rewrite_of_pushes {source target : Constant} (hpushes : insn.constant? = some source) :
    (Operation.replaceConstant source target).rewrite insn =
      if source = target then insn else .load target := by
  rw [Operation.rewrite, Instruction.replacingConstant, if_pos hpushes]

/-- An instruction that pushes no source is left alone. -/
theorem exchangeInTurn_of_not_pushes (hnone : ∀ pair ∈ pairs, insn.constant? ≠ some pair.1) :
    pairs.exchangeInTurn insn = insn := by
  induction pairs with
  | nil => rfl
  | cons first rest ih =>
    rw [List.forall_mem_cons] at hnone
    calc exchangeInTurn (first :: rest) insn
        = exchangeInTurn rest ((Operation.replaceConstant first.1 first.2).rewrite insn) := rfl
      _ = exchangeInTurn rest insn := by rw [rewrite_of_not_pushes hnone.1]
      _ = insn := ih hnone.2

theorem exchangeInTurn_append (earlier later : Replacements) (insn : Instruction) :
    exchangeInTurn (earlier ++ later) insn =
      later.exchangeInTurn (earlier.exchangeInTurn insn) := by
  simp only [exchangeInTurn, Operation.rewriteInTurn, operations, List.map_append,
    List.foldl_append]

/-- An instruction that pushes a source is exchanged by the operation with this source. The
operations before it leave the instruction alone, and those after it what was put in. -/
theorem exchangeInTurn_of_pushes (h : pairs.Independent) (hmem : pair ∈ pairs)
    (hpushes : insn.constant? = some pair.1) :
    pairs.exchangeInTurn insn = if pair.1 = pair.2 then insn else .load pair.2 := by
  obtain ⟨earlier, later, rfl⟩ := List.append_of_mem hmem
  have hnodup := h.nodup
  rw [List.map_append, List.map_cons, List.nodup_append, List.nodup_cons] at hnodup
  obtain ⟨-, ⟨hafter, -⟩, hbefore⟩ := hnodup
  -- no source is there twice, so those before do not find theirs
  have hearlier : exchangeInTurn earlier insn = insn := by
    refine exchangeInTurn_of_not_pushes fun other hother hsame => ?_
    rw [hpushes, Option.some.injEq] at hsame
    exact hbefore other.1 (List.mem_map_of_mem hother) pair.1 List.mem_cons_self hsame.symm
  -- neither the source nor what is put in for it is a source of those after
  have hlater (c : Constant) (hc : c = pair.1 ∨ c = pair.2) :
      ∀ other ∈ later, c ≠ other.1 := by
    intro other hother
    have hne : pair ≠ other := by
      rintro rfl
      exact hafter (List.mem_map_of_mem hother)
    rcases hc with rfl | rfl
    · exact fun hsame => hafter (hsame ▸ List.mem_map_of_mem hother)
    · exact h.apart pair hmem other (by simp [hother]) hne
  calc exchangeInTurn (earlier ++ pair :: later) insn
      = exchangeInTurn later ((Operation.replaceConstant pair.1 pair.2).rewrite
          (exchangeInTurn earlier insn)) := exchangeInTurn_append _ _ _
    _ = exchangeInTurn later (if pair.1 = pair.2 then insn else .load pair.2) := by
      rw [hearlier, rewrite_of_pushes hpushes]
    _ = if pair.1 = pair.2 then insn else .load pair.2 := by
      refine exchangeInTurn_of_not_pushes fun other hother => ?_
      split
      · rw [hpushes, ne_eq, Option.some.injEq]
        exact hlater _ (.inl rfl) other hother
      · rw [Instruction.constant?_load, ne_eq, Option.some.injEq]
        exact hlater _ (.inr rfl) other hother

/-- Replacements that do not meet are made at once, in whatever order they are made. -/
theorem exchangeInTurn_of_perm {pairs' : Replacements} (h : pairs.Independent)
    (hperm : pairs'.Perm pairs) : pairs'.exchangeInTurn = pairs.exchange := by
  funext insn
  by_cases hpushes : ∃ pair ∈ pairs, insn.constant? = some pair.1
  · obtain ⟨pair, hmem, hpushes⟩ := hpushes
    rw [exchangeInTurn_of_pushes (h.perm hperm) (hperm.mem_iff.2 hmem) hpushes,
      exchange_of_pushes h hmem hpushes]
  · have hnone : ∀ pair ∈ pairs, insn.constant? ≠ some pair.1 :=
      fun pair hmem hsame => hpushes ⟨pair, hmem, hsame⟩
    rw [exchangeInTurn_of_not_pushes fun pair hmem => hnone pair (hperm.mem_iff.1 hmem),
      exchange_of_not_pushes hnone]

end Replacements

/-! ### Bodies -/

namespace Block

variable {owner : ClassDecl} {m : MethodDecl} {registration : String} {ops : List Operation}

/-- Replacements rewrite every instruction, each what the ones before it have left. -/
theorem exists_applyAll_rewrites (hops : ∀ op ∈ ops, op.IsReplacement) (owner : ClassDecl)
    (m : MethodDecl) (registration : String) :
    ∃ applied, applyAll owner registration ops m =
      .ok ({ m with code := m.code.map (Operation.rewriteInTurn ops) }, applied) := by
  induction ops generalizing m with
  | nil =>
    refine ⟨[], ?_⟩
    rw [show Operation.rewriteInTurn [] = id from rfl, List.map_id]
    rfl
  | cons first rest ih =>
    rw [List.forall_mem_cons] at hops
    obtain ⟨done, happly, -⟩ := hops.1.exists_apply ⟨owner, m, registration⟩
    obtain ⟨others, hrest⟩ := ih hops.2 { m with code := m.code.map first.rewrite }
    rw [List.map_map] at hrest
    exact ⟨done :: others, bind_eq_ok_iff.2 ⟨_, happly, bind_eq_ok_iff.2 ⟨_, hrest, rfl⟩⟩⟩

/-- Blocks that edit a method alike leave it alike. -/
theorem exists_run_of_same_edit {b b' : Block} {edited final : MethodDecl} {outcome : Outcome}
    {applied applied' : List Applied}
    (happly : applyAll owner registration b.operations m = .ok (edited, applied))
    (happly' : applyAll owner registration b'.operations m = .ok (edited, applied'))
    (hrun : b.run owner m registration = .ok (final, outcome)) :
    ∃ outcome', b'.run owner m registration = .ok (final, outcome') := by
  obtain ⟨_, hall, hfinal⟩ := run_eq_ok_iff.1 hrun
  obtain rfl := applyAll_unique happly hall
  refine ⟨⟨applied', outcome.changed⟩, run_eq_ok_iff.2 ⟨edited, happly', hfinal⟩⟩

/-- Runs a block for each of several operations, one after the other. -/
def runEach (owner : ClassDecl) (registration : String) (ops : List Operation) (m : MethodDecl) :
    Except EditError MethodDecl :=
  ops.foldlM (fun m op => Prod.fst <$> (ofOperations [op]).run owner m registration) m

theorem exists_runEach_rewrites (hops : ∀ op ∈ ops, op.IsReplacement) (owner : ClassDecl)
    (m : MethodDecl) (registration : String) :
    ∃ final, runEach owner registration ops m = .ok final ∧
      final.code = m.code.map (Operation.rewriteInTurn ops) := by
  induction ops generalizing m with
  | nil => exact ⟨m, rfl, (List.map_id _).symm⟩
  | cons first rest ih =>
    rw [List.forall_mem_cons] at hops
    have hfirst : ∀ op ∈ (ofOperations [first]).operations, op.IsReplacement := by
      intro op hop
      rw [List.mem_singleton.1 hop]
      exact hops.1
    -- the first replacement is committed, and the others find its code
    obtain ⟨edited, left, outcome, hrun, hall, hcode, -⟩ :=
      exists_run_of_isReplacement hfirst owner m registration
    obtain ⟨_, hall'⟩ := exists_applyAll_rewrites hfirst owner m registration
    obtain rfl := applyAll_unique hall hall'
    obtain ⟨final, hrest, hfinal⟩ := ih hops.2 left
    refine ⟨final, ?_, ?_⟩
    · rw [runEach, List.foldlM_cons, hrun]
      exact hrest
    · rw [hfinal, hcode, List.map_map]
      rfl

/-- Replacements that do not meet leave the same body in whatever order they are made: that in which
each instruction has its own replacement made. This is so for the operations themselves, for a block
of them, which is never refused, and for blocks of one operation each. -/
theorem independent_replacements (owner : ClassDecl) (m : MethodDecl) (registration : String)
    (pairs : Replacements) (h : pairs.Independent) :
    ∃ final : MethodDecl, final.code = m.code.map pairs.exchange ∧ final.handlers = m.handlers ∧
      ∀ pairs' : Replacements, pairs'.Perm pairs →
        (∃ applied, applyAll owner registration pairs'.operations m =
            .ok ({ m with code := m.code.map pairs.exchange }, applied)) ∧
          (∃ outcome, (ofOperations pairs'.operations).run owner m registration =
            .ok (final, outcome)) ∧
          ∃ last, runEach owner registration pairs'.operations m = .ok last ∧
            last.code = m.code.map pairs.exchange := by
  -- in any order, the exchanges in turn come to the one exchange
  have hall (pairs' : Replacements) (hperm : pairs'.Perm pairs) :
      ∃ applied, applyAll owner registration pairs'.operations m =
        .ok ({ m with code := m.code.map pairs.exchange }, applied) := by
    rw [← Replacements.exchangeInTurn_of_perm h hperm]
    exact exists_applyAll_rewrites (h.perm hperm).isReplacement owner m registration
  obtain ⟨applied, happly⟩ := hall pairs (.refl pairs)
  obtain ⟨-, final, outcome, hrun, -⟩ := exists_run_of_isReplacement
    (b := ofOperations pairs.operations) h.isReplacement owner m registration
  obtain ⟨_, happly', hcode, hhandlers, -⟩ := run_applyAll hrun
  obtain rfl := applyAll_unique happly happly'
  refine ⟨final, hcode, hhandlers, fun pairs' hperm => ⟨hall pairs' hperm, ?_, ?_⟩⟩
  · obtain ⟨_, hothers⟩ := hall pairs' hperm
    exact exists_run_of_same_edit happly hothers hrun
  · obtain ⟨last, hlast, hcode⟩ :=
      exists_runEach_rewrites (h.perm hperm).isReplacement owner m registration
    refine ⟨last, hlast, hcode.trans ?_⟩
    rw [← Replacements.exchangeInTurn_of_perm h hperm]
    rfl

/-- A number that is pushed in two forms, a number that stays, and a text that becomes another one
that is loaded too. -/
theorem independent_replacements_of_three :
    let m : MethodDecl := ⟨"f", "()I", ⟨8⟩, [], .int, [.simple Opcode.iconst5, .simple Opcode.pop,
      .ldc (.int 5), .simple Opcode.pop, .ldc (.string "a"), .simple Opcode.pop,
      .ldc (.string "b"), .simple Opcode.pop, .simple Opcode.iconst0, .simple Opcode.ireturn],
      [], 1, 0⟩
    let code : List Instruction := [.ldc (.int 70000), .simple Opcode.pop,
      .ldc (.int 70000), .simple Opcode.pop, .ldc (.string "b"), .simple Opcode.pop,
      .ldc (.string "b"), .simple Opcode.pop, .simple Opcode.iconst0, .simple Opcode.ireturn]
    let owner : ClassDecl := ⟨"a", none, [], .none, [], [m], []⟩
    let pairs : Replacements :=
      [(.int 0, .int 0), (.int 5, .int 70000), (.string "a", .string "b")]
    pairs.Independent ∧ ∃ final : MethodDecl, final.code = code ∧ final.handlers = m.handlers ∧
      ∀ pairs' : Replacements, pairs'.Perm pairs →
        (∃ applied, applyAll owner "r" pairs'.operations m =
            .ok ({ m with code := code }, applied)) ∧
          (∃ outcome, (ofOperations pairs'.operations).run owner m "r" =
            .ok (final, outcome)) ∧
          ∃ last, runEach owner "r" pairs'.operations m = .ok last ∧ last.code = code := by
  intro m code owner pairs
  have hindependent : pairs.Independent := ⟨by decide, by decide, by decide⟩
  have hcode : m.code.map pairs.exchange = code := by decide
  exact ⟨hindependent, hcode ▸ independent_replacements owner m "r" pairs hindependent⟩

end Block

end ClassEdit
