import ClassEdit.Proofs.ScanFrame

/-!
# Scans keep methods sound

A scan takes a class through any number of rules, and a rule may edit any method of it again. No
order of edits breaks a method whose operand stack came out: each block is checked before it is
committed, and it is the method as the blocks before have left it that is checked against. A method
that was edited declares the limits of its last body. Where no operand stack came out there is
nothing to check against, and the height that was declared before stays, whatever the new body
needs.

A report names edited methods by their signature, so the statement about limits is for classes whose
methods have different signatures.

## Main definitions

* `MethodDecl.KeptAs`: what a scan keeps of one method.
* `Scan.Keeps`: the methods of a class before a scan, kept by the class in the course of it.

## Main results

* `Block.run_maxStack`: the height that a committed edit declares.
* `Scan.Keeps.applyBlock`, `Scan.Keeps.applyRules`: one block, and all rules.
* `Session.scan_keeps_heights`: no scan breaks a sound method.
-/

namespace ClassEdit

/-! ### The height that a block declares -/

namespace Block

variable {owner : ClassDecl} {m edited final : MethodDecl} {registration : String}

/-- The height that a committed edit declares. If the method had heights before, it is the largest
height of the new body. Otherwise there is nothing to compare the new body with, and what was
declared before stays; it is enough exactly if it happens to cover the new body. -/
theorem run_maxStack {b : Block} {outcome : Outcome} {r : Heights}
    (h : b.run owner m registration = .ok (final, outcome)) (hchanged : outcome.changed = true)
    (hr : final.heights = .ok r) :
    ((∃ r', m.heights = .ok r') → final.maxStack = r.maxStack) ∧
      ((¬∃ r', m.heights = .ok r') → final.maxStack = m.maxStack) ∧
        (r.maxStack ≤ final.maxStack ↔ (∃ r', m.heights = .ok r') ∨ r.maxStack ≤ m.maxStack) := by
  obtain ⟨edited, happly, ⟨-, hsame, -⟩ | ⟨-, -, hfinal⟩⟩ := run_eq_ok_iff.1 h
  · rw [hsame] at hchanged
    cases hchanged
  rw [heights_finalize hfinal] at hr
  obtain ⟨maxStack, rfl, hheights, hdeclared⟩ := finalize_eq_ok_iff.1 hfinal
  -- the body had heights, and the check has found those of the new one
  have hsound (hm : ∃ r', m.heights = .ok r') : maxStack = r.maxStack := by
    obtain ⟨r', hr', rfl⟩ := hheights hm
    rw [Except.ok.inj (hr.symm.trans hr')]
  -- it had none, and nothing was adjusted
  have hunsound (hm : ¬∃ r', m.heights = .ok r') : maxStack = m.maxStack := by
    rw [hdeclared hm, applyAll_eq happly]
  refine ⟨hsound, hunsound, ?_⟩
  by_cases hm : ∃ r', m.heights = .ok r'
  · refine iff_of_true ?_ (.inl hm)
    rw [hsound hm]
    exact UInt16.le_refl _
  · rw [hunsound hm]
    exact ⟨.inr, fun hcovers => hcovers.resolve_left hm⟩

/-- A body with a subroutine, which is not supported, becomes a constant. It declared more than the
constant needs, and goes on to declare it. -/
theorem run_maxStack_of_subroutine :
    let m : MethodDecl := ⟨"f", "()I", ⟨9⟩, [], .int, [.jump Opcode.jsr ⟨0⟩, .label ⟨0⟩,
      .simple Opcode.iconst0, .simple Opcode.ireturn], [], 2, 0⟩
    let final : MethodDecl :=
      { m with code := [.simple Opcode.iconst0, .simple Opcode.ireturn] }
    let owner : ClassDecl := ⟨"a", none, [], .none, [], [m], []⟩
    let outcome : Outcome := ⟨[⟨.methodStubbed, 1, "returns default I"⟩], true⟩
    let r : Heights := ⟨1, [some 0, some 1]⟩
    (ofOperations [.stub none]).run owner m "r" = .ok (final, outcome) ∧
      outcome.changed = true ∧ final.heights = .ok r ∧
        ((∃ r', m.heights = .ok r') → final.maxStack = r.maxStack) ∧
          ((¬∃ r', m.heights = .ok r') → final.maxStack = m.maxStack) ∧
            (r.maxStack ≤ final.maxStack ↔
              (∃ r', m.heights = .ok r') ∨ r.maxStack ≤ m.maxStack) := by
  intro m final owner outcome r
  have hm : m.heights = .error (.malformed (.subroutine "f()I")) :=
    m.heights_of_runWithin 1 rfl (by decide +kernel)
  have hr : final.heights = .ok r := final.heights_of_runWithin 3 rfl (by decide +kernel)
  have hrun : (ofOperations [.stub none]).run owner m "r" = .ok (final, outcome) :=
    run_of_unsound rfl (by decide : final ≠ m) hm
  exact ⟨hrun, rfl, hr, run_maxStack hrun rfl hr⟩

/-- The same body, but without a declared height. What is committed declares none either, and its
constant does not fit. -/
theorem run_maxStack_too_small :
    let m : MethodDecl := ⟨"f", "()I", ⟨9⟩, [], .int, [.jump Opcode.jsr ⟨0⟩, .label ⟨0⟩,
      .simple Opcode.iconst0, .simple Opcode.ireturn], [], 0, 0⟩
    let owner : ClassDecl := ⟨"a/A", none, [], .none, [], [m], []⟩
    ∃ final outcome r, (ofOperations [.stub none]).run owner m "r" = .ok (final, outcome) ∧
      outcome.changed = true ∧ final.heights = .ok r ∧ final.maxStack < r.maxStack := by
  intro m owner
  let final : MethodDecl := { m with code := [.simple Opcode.iconst0, .simple Opcode.ireturn] }
  have hm : m.heights = .error (.malformed (.subroutine "f()I")) :=
    m.heights_of_runWithin 1 rfl (by decide +kernel)
  have hr : final.heights = .ok ⟨1, [some 0, some 1]⟩ :=
    final.heights_of_runWithin 3 rfl (by decide +kernel)
  have hrun : (ofOperations [.stub none]).run owner m "r" =
      .ok (final, ⟨[⟨.methodStubbed, 1, "returns default I"⟩], true⟩) :=
    run_of_unsound rfl (by decide : final ≠ m) hm
  exact ⟨final, _, _, hrun, rfl, hr, by decide⟩

end Block

/-! ### Scans -/

/-- The slots that one instruction needs are among those that its body needs. -/
theorem Instruction.localsNeeded_le {code : List Instruction} {insn : Instruction}
    (h : insn ∈ code) : insn.localsNeeded ≤ ClassEdit.localsNeeded code := by
  induction code with
  | nil => simp at h
  | cons first rest ih =>
    rcases List.mem_cons.1 h with rfl | h
    · exact slots_le_max_left _ _
    · exact UInt16.le_trans (ih h) (slots_le_max_right _ _)

/-- The slots that a variable needs, where 16 bits can tell their number. -/
theorem Instruction.le_localsNeeded_localVar (opcode : Opcode) (index : UInt16) :
    let slots :=
      if opcode ∈ [Opcode.lload, Opcode.dload, Opcode.lstore, Opcode.dstore] then 2 else 1
    index.toNat + slots < 65536 →
      index.toNat + slots ≤ (localVar opcode index).localsNeeded.toNat := by
  intro slots hfits
  have hslots : slots = if opcode = Opcode.lload ∨ opcode = Opcode.dload ∨
      opcode = Opcode.lstore ∨ opcode = Opcode.dstore then 2 else 1 := by simp [slots]
  rw [hslots] at hfits ⊢
  rw [localsNeeded]
  split at hfits
  · rw [if_pos ‹_›, if_pos ‹_›, UInt16.toNat_add]
    exact (Nat.mod_eq_of_lt hfits).ge
  · rw [if_neg ‹_›, if_neg ‹_›, UInt16.toNat_add]
    exact (Nat.mod_eq_of_lt hfits).ge

theorem Instruction.le_localsNeeded_iinc {index : UInt16} (delta : Int16)
    (hfits : index.toNat + 1 < 65536) :
    index.toNat + 1 ≤ (iinc index delta).localsNeeded.toNat := by
  rw [localsNeeded, UInt16.toNat_add]
  exact (Nat.mod_eq_of_lt hfits).ge

/-- What a scan keeps of a method, when it has edited the methods with the given signatures. -/
structure MethodDecl.KeptAs (m m' : MethodDecl) (transformed : List String) : Prop
    extends FramedBy m m' transformed where
  heights : (∃ r, m.heights = .ok r) → ∃ r, m'.heights = .ok r
  fits : (∃ r, m.heights = .ok r) → m.signature ∈ transformed → m'.Fits

namespace Scan

variable {before : ClassDecl} {s : Scan}

/-- The methods that a class had before the scan are kept by the class as the scan has left it. -/
structure Keeps (before : ClassDecl) (s : Scan) : Prop where
  length_eq : s.owner.methods.length = before.methods.length
  kept : ∀ (i : Nat) (m : MethodDecl), before.methods[i]? = some m →
    ∃ m', s.owner.methods[i]? = some m' ∧ m.KeptAs m' s.report.transformed

theorem Keeps.start (before : ClassDecl) : Keeps before (start before) :=
  ⟨rfl, fun _ m hm => ⟨m, hm, .refl m _, id, fun _ h => (nomatch h)⟩⟩

/-- What is written down in the report, apart from the edited methods, does not matter. -/
theorem Keeps.congr {s' : Scan} (h : Keeps before s) (howner : s'.owner = s.owner)
    (htransformed : s'.report.transformed = s.report.transformed) : Keeps before s' := by
  refine ⟨howner ▸ h.length_eq, ?_⟩
  intro i m hm
  rw [howner, htransformed]
  exact h.kept i m hm

/-- A method in the course of a scan is one that the class had before. -/
theorem Keeps.exists_before (h : Keeps before s) {i : Nat} {m : MethodDecl}
    (hm : s.owner.methods[i]? = some m) :
    ∃ original, before.methods[i]? = some original ∧ original.KeptAs m s.report.transformed := by
  have hlt : i < before.methods.length := h.length_eq ▸ (List.getElem?_eq_some_iff.1 hm).1
  have horiginal := List.getElem?_eq_getElem hlt
  obtain ⟨m', hm', hkept⟩ := h.kept i _ horiginal
  obtain rfl : m = m' := Option.some.inj (hm.symm.trans hm')
  exact ⟨_, horiginal, hkept⟩

theorem index_eq_of_signature_eq {methods : List MethodDecl} {i j : Nat} {m m' : MethodDecl}
    (hdistinct : (methods.map MethodDecl.signature).Nodup) (hm : methods[i]? = some m)
    (hm' : methods[j]? = some m') (hsame : m.signature = m'.signature) : i = j := by
  have hlt : i < methods.length := (List.getElem?_eq_some_iff.1 hm).1
  refine (List.getElem?_inj (by simpa using hlt) hdistinct).1 ?_
  rw [List.getElem?_map, List.getElem?_map, hm, hm', Option.map_some, Option.map_some, hsame]

/-- A block keeps the methods of the class. -/
theorem Keeps.applyBlock (hdistinct : (before.methods.map MethodDecl.signature).Nodup)
    (h : Keeps before s) (naming : Naming) {index : Nat} {m : MethodDecl}
    (hm : s.owner.methods[index]? = some m)
    (label : String) (b : Block) : Keeps before (s.applyBlock naming label index m b) := by
  obtain ⟨e, -, heq⟩ | ⟨edited, outcome, hrun, ⟨-, heq⟩ | ⟨hother, heq⟩⟩ :=
    s.applyBlock_cases naming label index m b
  · exact h.congr (by rw [heq]; rfl) (by rw [heq]; rfl)
  · exact h.congr (by rw [heq]; rfl) (by rw [heq]; rfl)
  · -- the block has changed something, so it was committed after a check
    obtain ⟨-, -, hfits⟩ := (Block.run_cases hrun).resolve_left fun hsame => hother hsame.2
    obtain ⟨edits, hedits, hkept⟩ := h.exists_before hm
    rw [heq]
    refine ⟨by simpa [replaced, written, ClassDecl.setMethod] using h.length_eq, ?_⟩
    intro i original horiginal
    obtain ⟨m', hm', hkept'⟩ := h.kept i original horiginal
    have hframed := hkept'.toFramedBy.mono
      (s.report.subset_transformed_edited m.signature b.computeFrames)
    by_cases hindex : index = i
    · -- the method that the block has edited
      subst hindex
      obtain rfl : m = m' := Option.some.inj (hm.symm.trans hm')
      have hlt := (List.getElem?_eq_some_iff.1 hm).1
      refine ⟨edited, by simp [replaced, written, ClassDecl.setMethod, hlt], hframed.run ?_ hrun,
        fun hr => ?_, fun hr _ => hfits (hkept'.heights hr)⟩
      · exact Report.mem_transformed_edited.2 (.inr hkept'.signature_eq.symm)
      · obtain ⟨r, hr, -⟩ := (hfits (hkept'.heights hr)).stack
        exact ⟨r, hr⟩
    · -- any other method, whose signature is another one
      refine ⟨m', by simpa [replaced, written, ClassDecl.setMethod, hindex] using hm', hframed,
        hkept'.heights, fun hr hmem => hkept'.fits hr ?_⟩
      refine (Report.mem_transformed_edited.1 hmem).resolve_right fun hsame => hindex ?_
      exact index_eq_of_signature_eq hdistinct hedits horiginal
        (hkept.signature_eq.symm.trans hsame.symm)

/-- All rules together keep the methods of the class. -/
theorem Keeps.applyRules (hdistinct : (before.methods.map MethodDecl.signature).Nodup)
    (h : Keeps before s) (naming : Naming) (rules : List ClassRule) :
    Keeps before (s.applyRules naming rules).1 :=
  applyRules_induction (fun _ _ hsame hs => hs.congr hsame.owner_eq hsame.transformed_eq)
    (fun _ label _ _ b hm hs => hs.applyBlock hdistinct naming hm label b) rules h

end Scan

/-- Scans break no method whose operand stack comes out. If the report names such a method, it
declares the stack that its last body needs, and locals for every variable in it whose slots can be
counted in 16 bits. -/
theorem Session.scan_keeps_heights (session : Session) {owner : ClassDecl}
    (hdistinct : (owner.methods.map MethodDecl.signature).Nodup) {i : Nat} {m : MethodDecl}
    (hm : owner.methods[i]? = some m) {r : Heights} (hr : m.heights = .ok r) :
    ∃ m' r', (session.scan owner).1.owner.methods[i]? = some m' ∧ m'.signature = m.signature ∧
      m'.heights = .ok r' ∧
        (m.signature ∈ (session.scan owner).1.report.transformed →
          m'.maxStack = r'.maxStack ∧ m.maxLocals ≤ m'.maxLocals ∧
            (∀ opcode index, .localVar opcode index ∈ m'.code →
              let slots := if opcode ∈ [Opcode.lload, Opcode.dload, Opcode.lstore, Opcode.dstore]
                then 2 else 1
              index.toNat + slots < 65536 → index.toNat + slots ≤ m'.maxLocals.toNat) ∧
              ∀ index delta, .iinc index delta ∈ m'.code →
                index.toNat + 1 < 65536 → index.toNat + 1 ≤ m'.maxLocals.toNat) := by
  have hkeeps : Scan.Keeps owner (session.scan owner).1 :=
    (Scan.Keeps.start owner).applyRules hdistinct (session.naming session.scanned)
      session.ruleSet.rules
  obtain ⟨m', hm', hkept⟩ := hkeeps.kept i m hm
  obtain ⟨r', hr'⟩ := hkept.heights ⟨r, hr⟩
  refine ⟨m', r', hm', hkept.signature_eq, hr', ?_⟩
  intro hmem
  obtain ⟨⟨r'', hr'', hmax⟩, hlocals⟩ := hkept.fits ⟨r, hr⟩ hmem
  obtain rfl : r' = r'' := Except.ok.inj (hr'.symm.trans hr'')
  have hneeded {insn : Instruction} (hinsn : insn ∈ m'.code) :
      insn.localsNeeded.toNat ≤ m'.maxLocals.toNat :=
    UInt16.le_trans (Instruction.localsNeeded_le hinsn) hlocals
  refine ⟨hmax, hkept.maxLocals_le, ?_, ?_⟩
  · intro opcode index hvar slots hfits
    exact (Instruction.le_localsNeeded_localVar opcode index hfits).trans (hneeded hvar)
  · intro index delta hinc hfits
    exact (Instruction.le_localsNeeded_iinc delta hfits).trans (hneeded hinc)

/-- A method that loops until an empty stack returns zero, and a rule that spills a long before the
return, which deepens the stack and needs two more locals. -/
theorem Session.scan_keeps_heights_of_retry :
    let m : MethodDecl := ⟨"f", "()I", ⟨8⟩, [], .int, [.label ⟨0⟩, .simple Opcode.iconst0,
      .jump Opcode.ifeq ⟨0⟩, .simple Opcode.iconst0, .simple Opcode.ireturn], [], 1, 0⟩
    let owner : ClassDecl := ⟨"a", none, [], .none, [], [m], []⟩
    let spill : Block := .ofOperations
      [.methodExit (.ofCode [.simple Opcode.lconst0, .localVar Opcode.lstore 2])]
    let session : Session := .start ⟨[⟨"a", .empty, [⟨"m", .empty, some spill, none⟩], none⟩], [],
      .empty⟩ fun _ _ => 0
    (owner.methods.map MethodDecl.signature).Nodup ∧ owner.methods[0]? = some m ∧
      m.heights = .ok ⟨1, [some 0, some 0, some 1, some 0, some 1]⟩ ∧
        m.signature ∈ (session.scan owner).1.report.transformed ∧
          ∃ m' r', (session.scan owner).1.owner.methods[0]? = some m' ∧
            m'.heights = .ok r' ∧ m'.maxStack = r'.maxStack ∧
              .localVar Opcode.lstore 2 ∈ m'.code ∧ 4 ≤ m'.maxLocals.toNat := by
  intro m owner spill session
  let edited : MethodDecl := { m with
    code := [.label ⟨0⟩, .simple Opcode.iconst0, .jump Opcode.ifeq ⟨0⟩, .simple Opcode.iconst0,
      .simple Opcode.lconst0, .localVar Opcode.lstore 2, .simple Opcode.ireturn] }
  have hdistinct : (owner.methods.map MethodDecl.signature).Nodup := by decide
  have hm : owner.methods[0]? = some m := rfl
  have hr : m.heights = .ok ⟨1, [some 0, some 0, some 1, some 0, some 1]⟩ :=
    m.heights_of_runWithin 7 rfl (by decide +kernel)
  have hsound : edited.heights =
      .ok ⟨3, [some 0, some 0, some 1, some 0, some 1, some 3, some 1]⟩ :=
    edited.heights_of_runWithin 9 rfl (by decide +kernel)
  have hrun : spill.run owner m "m" = .ok (_, _) :=
    Block.run_of_heights rfl (by decide : edited ≠ m) hr hsound
  have hedited : m.signature ∈ (session.scan owner).1.report.transformed := by
    change _ ∈ (Scan.applyBlock _ _ "m" 0 m spill).report.transformed
    dsimp only [Scan.applyBlock, Scan.start]
    rw [hrun]
    decide
  have hcode : ((session.scan owner).1.owner.methods[0]?).map MethodDecl.code =
      some edited.code := by
    change ((Scan.applyBlock _ _ "m" 0 m spill).owner.methods[0]?).map MethodDecl.code = _
    dsimp only [Scan.applyBlock, Scan.start]
    rw [hrun]
    rfl
  obtain ⟨m', r', hm', -, hr', hdeclared⟩ := session.scan_keeps_heights hdistinct hm hr
  obtain ⟨hmax, -, hvars, -⟩ := hdeclared hedited
  rw [hm', Option.map_some, Option.some.injEq] at hcode
  have hstore : .localVar Opcode.lstore 2 ∈ m'.code := by
    rw [hcode]
    decide
  exact ⟨hdistinct, hm, hr, hedited, m', r', hm', hr', hmax, hstore,
    hvars _ _ hstore (by decide)⟩

/-- A rule that counts the last variable that an instruction can name. Its number and one more is
not a number of 16 bits, and no locals are declared. -/
theorem Session.scan_keeps_heights_not_of_last :
    let m : MethodDecl := ⟨"f", "()V", ⟨8⟩, [], .void, [.simple Opcode.vreturn], [], 0, 0⟩
    let owner : ClassDecl := ⟨"a", none, [], .none, [], [m], []⟩
    let count : Block := .ofOperations [.methodExit (.ofCode [.iinc 65535 1])]
    let session : Session := .start ⟨[⟨"a", .empty, [⟨"m", .empty, some count, none⟩], none⟩], [],
      .empty⟩ fun _ _ => 0
    m.heights = .ok ⟨0, [some 0]⟩ ∧
      (session.scan owner).1.report.transformed = [m.signature] ∧
        (session.scan owner).1.owner.methods =
          [{ m with code := [.iinc 65535 1, .simple Opcode.vreturn], maxLocals := 0 }] := by
  intro m owner count session
  let edited : MethodDecl := { m with code := [.iinc 65535 1, .simple Opcode.vreturn] }
  have hr : m.heights = .ok ⟨0, [some 0]⟩ := m.heights_of_runWithin 2 rfl (by decide +kernel)
  have hsound : edited.heights = .ok ⟨0, [some 0, some 0]⟩ :=
    edited.heights_of_runWithin 3 rfl (by decide +kernel)
  have hrun : count.run owner m "m" = .ok (_, _) :=
    Block.run_of_heights rfl (by decide : edited ≠ m) hr hsound
  refine ⟨hr, ?_, ?_⟩
  · change (Scan.applyBlock _ _ "m" 0 m count).report.transformed = _
    dsimp only [Scan.applyBlock, Scan.start]
    rw [hrun]
    rfl
  · change (Scan.applyBlock _ _ "m" 0 m count).owner.methods = _
    dsimp only [Scan.applyBlock, Scan.start]
    rw [hrun]
    rfl

end ClassEdit
