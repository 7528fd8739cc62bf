import ClassEdit.Proofs.Edit
import ClassEdit.Proofs.Exchange
import ClassEdit.Proofs.Loading

/-!
# Replacing constants and texts

A replacement goes through a body and exchanges instructions where they stand. One that pushes a
constant is exchanged for one that pushes a constant of the same width, so the search for heights
does not tell the body from what it was, and a block of replacements is never refused.

The instructions that come out changed are exactly those that the replacement is about. For a
constant this is so because the instruction that is put in pushes another constant. For a text it
rests on the occurrences not overlapping: were the text the same as before, its length would tell
that source and target are equally long, and its first occurrence that they are equal.

## Main definitions

* `Operation.IsReplacement`: replacements of constants by others of their kind, and of texts.
* `Operation.Selects`: the instructions that a replacement is about.
* `Operation.Replaced`: what a replacement does to a body.

## Main results

* `substitute_ne`: a text in which another one is replaced becomes another text.
* `Operation.IsReplacement.exists_apply`: a replacement is never refused.
* `Block.run_replacements`: blocks of replacements.
-/

namespace ClassEdit

/-! ### Texts -/

section Text

variable {pattern replacement before after cs : List Char}

theorem eq_of_splitAtFirst (h : splitAtFirst pattern cs = some (before, after)) :
    cs = before ++ pattern ++ after := by
  induction cs generalizing before with
  | nil =>
    unfold splitAtFirst at h
    split at h
    · rename_i hempty
      cases h
      rw [List.isEmpty_iff.1 hempty]
      rfl
    · cases h
  | cons c rest ih =>
    unfold splitAtFirst at h
    split at h
    · rename_i hstarts
      -- the pattern stands here, and what is left of the text is what follows it
      obtain ⟨later, hlater⟩ := List.isPrefixOf_iff_prefix.1 hstarts
      cases h
      rw [← hlater, List.drop_left, List.nil_append]
    · obtain ⟨⟨before', after'⟩, hsplit, hpair⟩ := Option.map_eq_some_iff.1 h
      cases hpair
      rw [ih hsplit]
      rfl

theorem isSome_splitAtFirst (pattern cs : List Char) :
    (splitAtFirst pattern cs).isSome = occursIn pattern cs := by
  induction cs with
  | nil =>
    rw [splitAtFirst, occursIn]
    cases pattern <;> rfl
  | cons c rest ih =>
    rw [splitAtFirst, occursIn]
    by_cases hstarts : pattern.isPrefixOf (c :: rest) = true
    · rw [if_pos hstarts, hstarts]
      rfl
    · rw [if_neg hstarts, Option.isSome_map, ih]
      simp [hstarts]

/-- Each of the occurrences that are replaced changes the length by the same amount. -/
theorem exists_length_substituteWithin (pattern replacement : List Char) (fuel : Nat)
    (cs : List Char) :
    ∃ k, (substituteWithin pattern replacement fuel cs).length + k * pattern.length =
      cs.length + k * replacement.length := by
  induction fuel generalizing cs with
  | zero => exact ⟨0, by rw [substituteWithin, Nat.zero_mul, Nat.zero_mul]⟩
  | succ fuel ih =>
    unfold substituteWithin
    split
    · exact ⟨0, by rw [Nat.zero_mul, Nat.zero_mul]⟩
    · -- one occurrence more than behind it
      rename_i before after hsplit
      obtain ⟨k, hk⟩ := ih after
      refine ⟨k + 1, ?_⟩
      rw [eq_of_splitAtFirst hsplit]
      simp only [List.length_append, Nat.succ_mul]
      omega

/-- A text in which another one occurs becomes another text if the occurrences are replaced. -/
theorem substitute_ne {source target value : String} (hne : source ≠ target)
    (hoccurs : occursIn source.toList value.toList = true) :
    substitute source target value ≠ value := by
  intro hsame
  rw [← isSome_splitAtFirst, Option.isSome_iff_exists] at hoccurs
  obtain ⟨⟨before, after⟩, hsplit⟩ := hoccurs
  have hvalue := eq_of_splitAtFirst hsplit
  obtain ⟨k, hlater⟩ := exists_length_substituteWithin source.toList target.toList
    value.toList.length after
  -- behind the first occurrence both texts go on alike
  have hrest : target.toList ++ substituteWithin source.toList target.toList value.toList.length
      after = source.toList ++ after := by
    have hlists := congrArg String.toList hsame
    rw [substitute, String.toList_ofList, substituteWithin, hsplit] at hlists
    dsimp only at hlists
    rw [List.append_assoc] at hlists
    refine List.append_cancel_left (hlists.trans ?_)
    rw [hvalue, List.append_assoc]
  have hlengths := congrArg List.length hrest
  rw [List.length_append, List.length_append] at hlengths
  have hequal : (k + 1) * target.toList.length = (k + 1) * source.toList.length := by
    rw [Nat.succ_mul, Nat.succ_mul]
    omega
  have hlength := Nat.eq_of_mul_eq_mul_left k.succ_pos hequal
  exact hne (String.toList_inj.1 (List.append_inj_left hrest hlength).symm)

end Text

/-! ### Single replacements -/

/-- The number of places at which two bodies of the same length differ. -/
def changes (before after : List Instruction) : Nat :=
  (before.zip after).countP fun pair => pair.2 ≠ pair.1

theorem changes_map (code : List Instruction) (g : Instruction → Instruction) :
    changes code (code.map g) = code.countP fun insn => g insn ≠ insn := by
  induction code with
  | nil => rfl
  | cons insn code ih =>
    rw [changes] at ih ⊢
    rw [List.map_cons, List.zip_cons_cons, List.countP_cons, List.countP_cons, ih]

/-- Instructions that push constants of one kind are interchangeable. -/
theorem Instruction.interchangeable_of_constant? {insn insn' : Instruction} {c c' : Constant}
    (h : insn.constant? = some c) (h' : insn'.constant? = some c') (hkind : c.kind = c'.kind) :
    insn.Interchangeable insn' where
  effect_eq := by
    rw [effect_of_constant? h, effect_of_constant? h',
      Constant.slots_eq_of_kind_eq hkind]
  flow_eq := by rw [flow_of_constant? h, flow_of_constant? h']
  targets_eq := by rw [targets_of_constant? h, targets_of_constant? h']
  placed_eq := by rw [placed?_of_constant? h, placed?_of_constant? h']

namespace Operation

/-- Replacements of constants by others of their kind, and of texts inside strings. -/
inductive IsReplacement : Operation → Prop
  | constant {source target : Constant} (h : source.kind = target.kind) :
    IsReplacement (.replaceConstant source target)
  | text (source target : String) : IsReplacement (.replaceString source target)

/-- The instructions that a replacement is about: those that push the source, or load a string that
contains it. There are none if source and target are the same, or the source is empty. -/
def Selects (op : Operation) (insn : Instruction) : Prop :=
  match op with
  | .replaceConstant source target => source ≠ target ∧ insn.constant? = some source
  | .replaceString source target => source ≠ target ∧ source ≠ "" ∧
      ∃ value, insn = .ldc (.string value) ∧ occursIn source.toList value.toList = true
  | _ => False

/-- What a replacement does to a body: no instruction is put in or left out, those that it is about
become others and are counted, and no other one does. No instruction pushes a constant that was
replaced by another one. -/
structure Replaced (op : Operation) (before after : List Instruction) (done : Applied) : Prop where
  length_eq : after.length = before.length
  changed_iff : ∀ (i : Nat) (insn insn' : Instruction), before[i]? = some insn →
    after[i]? = some insn' → (insn' ≠ insn ↔ op.Selects insn)
  sites_eq : done.sites = changes before after
  gone : ∀ source target, op = .replaceConstant source target → source ≠ target →
    ∀ insn ∈ after, insn.constant? ≠ some source

/-- What a replacement makes of an instruction. -/
def rewrite (op : Operation) (insn : Instruction) : Instruction :=
  match op with
  | .replaceConstant source target =>
    if source = target then insn else insn.replacingConstant source target
  | .replaceString source target =>
    if source = target ∨ source.isEmpty then insn else insn.replacingString source target
  | _ => insn

section Rewrite

variable {op : Operation} {insn : Instruction}

theorem rewrite_ne_iff (op : Operation) (insn : Instruction) :
    op.rewrite insn ≠ insn ↔ op.Selects insn := by
  cases op with
  | replaceConstant source target =>
    by_cases hsame : source = target
    · simp [rewrite, Selects, hsame]
    · by_cases hpushes : insn.constant? = some source
      · -- what is put in pushes the target
        have hne : Instruction.load target ≠ insn := by
          rintro rfl
          rw [Instruction.constant?_load] at hpushes
          exact hsame (Option.some.inj hpushes).symm
        simp [rewrite, Selects, Instruction.replacingConstant, hsame, hpushes, hne]
      · simp [rewrite, Selects, Instruction.replacingConstant, hsame, hpushes]
  | replaceString source target =>
    by_cases hsame : source = target ∨ source.isEmpty = true
    · rw [rewrite, if_pos hsame]
      refine ⟨fun h => absurd rfl h, fun ⟨hne, hempty, _⟩ => ?_⟩
      rcases hsame with hsame | hsame
      · exact absurd hsame hne
      · exact absurd (String.isEmpty_iff.1 hsame) hempty
    · rw [rewrite, if_neg hsame, Selects]
      rw [not_or, String.isEmpty_iff] at hsame
      obtain ⟨hloads, heq⟩ | ⟨value, rfl, hoccurs, heq⟩ :=
        Instruction.replacingString_cases source target insn
      · rw [heq]
        refine iff_of_false (fun h => h rfl) fun ⟨_, _, hvalue⟩ => ?_
        rw [Instruction.loadsPart_iff.2 hvalue] at hloads
        cases hloads
      · rw [heq]
        refine iff_of_true (fun h => ?_) ⟨hsame.1, hsame.2, value, rfl, hoccurs⟩
        exact substitute_ne hsame.1 hoccurs (by simpa using h)
  | _ => simp [rewrite, Selects]

theorem IsReplacement.interchangeable (h : op.IsReplacement) (insn : Instruction) :
    insn.Interchangeable (op.rewrite insn) := by
  cases h with
  | @constant source target hkind =>
    unfold rewrite Instruction.replacingConstant
    dsimp only
    split
    · exact .refl insn
    · split
      · rename_i hpushes
        exact Instruction.interchangeable_of_constant? hpushes (Instruction.constant?_load target)
          hkind
      · exact .refl insn
  | text source target =>
    unfold rewrite
    dsimp only
    split
    · exact .refl insn
    · obtain ⟨-, heq⟩ | ⟨value, rfl, -, heq⟩ :=
        Instruction.replacingString_cases source target insn
      · rw [heq]
        exact .refl insn
      · rw [heq]
        exact Instruction.interchangeable_of_constant? rfl rfl rfl

end Rewrite

variable {op : Operation} {site : Site}

/-- A replacement is never refused. It rewrites every instruction and counts those that change. -/
theorem IsReplacement.exists_apply (h : op.IsReplacement) (site : Site) :
    ∃ done, op.apply site =
        .ok ({ site.method with code := site.method.code.map op.rewrite }, done) ∧
      done.sites = site.method.code.countP fun insn => op.rewrite insn ≠ insn := by
  -- whatever is counted is counted where the rewriting makes a difference
  have hsites (p : Instruction → Bool) (hp : ∀ insn, p insn = true ↔ op.Selects insn) :
      site.method.code.countP p =
        site.method.code.countP fun insn => op.rewrite insn ≠ insn := by
    congr 1
    funext insn
    rw [Bool.eq_iff_iff, hp, decide_eq_true_iff, rewrite_ne_iff]
  have hid (hnone : ∀ insn, op.rewrite insn = insn) : op.rewrite = id := funext hnone
  cases h with
  | @constant source target hkind =>
    by_cases hsame : source = target
    · have hnone := hid fun insn => if_pos hsame
      simp only [apply, MethodDecl.replaceConstant, hkind, ne_eq, not_true, if_false, if_pos hsame,
        hnone, List.map_id]
      exact ⟨_, rfl, by simp⟩
    · have hrewrite : (replaceConstant source target).rewrite =
          Instruction.replacingConstant source target := funext fun insn => if_neg hsame
      simp only [apply, MethodDecl.replaceConstant, hkind, ne_eq, not_true, if_false,
        if_neg hsame]
      refine ⟨_, by rw [hrewrite], hsites _ fun insn => ?_⟩
      rw [beq_iff_eq, Selects]
      exact ⟨fun hpushes => ⟨hsame, hpushes⟩, fun hselects => hselects.2⟩
  | text source target =>
    by_cases hsame : source = target ∨ source.isEmpty = true
    · have hnone := hid fun insn => if_pos hsame
      simp only [apply, MethodDecl.replaceString, if_pos hsame, hnone, List.map_id]
      exact ⟨_, rfl, by simp⟩
    · have hrewrite : (replaceString source target).rewrite =
          Instruction.replacingString source target := funext fun insn => if_neg hsame
      simp only [apply, MethodDecl.replaceString, if_neg hsame]
      refine ⟨_, by rw [hrewrite], hsites _ fun insn => ?_⟩
      rw [not_or, String.isEmpty_iff] at hsame
      rw [Instruction.loadsPart_iff, Selects]
      exact ⟨fun hloads => ⟨hsame.1, hsame.2, hloads⟩, fun hselects => hselects.2.2⟩

theorem replaced_map {code : List Instruction} {done : Applied}
    (hsites : done.sites = code.countP fun insn => op.rewrite insn ≠ insn) :
    op.Replaced code (code.map op.rewrite) done where
  length_eq := List.length_map _
  changed_iff := by
    intro i insn insn' hinsn hinsn'
    rw [List.getElem?_map, hinsn] at hinsn'
    cases hinsn'
    exact op.rewrite_ne_iff insn
  sites_eq := hsites.trans (changes_map code op.rewrite).symm
  gone := by
    rintro source target rfl hne insn' hinsn' hpushes
    obtain ⟨insn, -, rfl⟩ := List.mem_map.1 hinsn'
    -- an instruction that was left alone did not push the source, and a new one pushes the target
    simp only [rewrite, if_neg hne, Instruction.replacingConstant] at hpushes
    split at hpushes
    · rw [Instruction.constant?_load] at hpushes
      exact hne (Option.some.inj hpushes).symm
    · rename_i hother
      exact hother hpushes

end Operation

/-! ### Blocks of replacements -/

namespace MethodDecl

/-- A body that is rewritten into interchangeable instructions. -/
theorem exchanged_map {m : MethodDecl} {g : Instruction → Instruction}
    (h : ∀ insn : Instruction, insn.Interchangeable (g insn)) :
    m.Exchanged { m with code := m.code.map g } where
  result_eq := rfl
  handlers_eq := rfl
  code := List.forall₂_map_right_iff.2 (List.forall₂_same.2 fun insn _ => h insn)

end MethodDecl

namespace Block

variable {owner : ClassDecl} {m edited : MethodDecl} {registration : String}

/-- Replacements, one after the other. -/
theorem exists_applyAll_replacements {ops : List Operation} (hops : ∀ op ∈ ops, op.IsReplacement)
    (owner : ClassDecl) (m : MethodDecl) (registration : String) :
    ∃ edited applied, applyAll owner registration ops m = .ok (edited, applied) ∧
      (∀ earlier op later, ops = earlier ++ op :: later →
        ∃ before others after done,
          applyAll owner registration earlier m = .ok (before, others) ∧
            op.apply ⟨owner, before, registration⟩ = .ok (after, done) ∧
              applied[earlier.length]? = some done ∧
                op.Replaced before.code after.code done) ∧
        ∀ r, edited.heights = .ok r ↔ m.heights = .ok r := by
  -- the later operations are applied to what the first one leaves
  induction ops generalizing m with
  | nil =>
    refine ⟨m, [], rfl, fun earlier op later hsplit => ?_, fun r => .rfl⟩
    exact absurd hsplit.symm (List.append_ne_nil_of_right_ne_nil _ (List.cons_ne_nil _ _))
  | cons first ops ih =>
    rw [List.forall_mem_cons] at hops
    obtain ⟨done, happly, hsites⟩ := hops.1.exists_apply ⟨owner, m, registration⟩
    obtain ⟨edited, applied, hall, hturns, hheights⟩ :=
      ih hops.2 { m with code := m.code.map first.rewrite }
    refine ⟨edited, done :: applied,
      bind_eq_ok_iff.2 ⟨_, happly, bind_eq_ok_iff.2 ⟨_, hall, rfl⟩⟩, ?_, fun r => ?_⟩
    · rintro (_ | ⟨head, earlier⟩) op later hsplit
      · cases hsplit
        exact ⟨m, [], _, done, rfl, happly, rfl, Operation.replaced_map hsites⟩
      · cases hsplit
        obtain ⟨before, others, after, last, hearlier, hop, hlast, hreplaced⟩ :=
          hturns earlier op later rfl
        exact ⟨before, done :: others, after, last,
          bind_eq_ok_iff.2 ⟨_, happly, bind_eq_ok_iff.2 ⟨_, hearlier, rfl⟩⟩, hop, hlast, hreplaced⟩
    · exact (hheights r).trans
        (MethodDecl.exchanged_map (m := m) hops.1.interchangeable).heights_iff

/-- A block of them is committed with the code that they leave. -/
theorem exists_run_of_isReplacement {b : Block} (hb : ∀ op ∈ b.operations, op.IsReplacement)
    (owner : ClassDecl) (m : MethodDecl) (registration : String) :
    ∃ edited final outcome, b.run owner m registration = .ok (final, outcome) ∧
      applyAll owner registration b.operations m = .ok (edited, outcome.applied) ∧
        final.code = edited.code ∧ final.heights = edited.heights := by
  obtain ⟨edited, applied, hall, -, hheights⟩ :=
    exists_applyAll_replacements hb owner m registration
  obtain ⟨final, outcome, hrun, rfl, hcode, hkept⟩ :=
    exists_run_of_applyAll hall fun ⟨r, hr⟩ => ⟨r, (hheights r).2 hr⟩
  exact ⟨edited, final, outcome, hrun, hall, hcode, hkept⟩

/-- A block of replacements of constants by others of their kind and of texts is always committed.
Each of them keeps the number of instructions, changes those that it is about and no others, and
reports how many it has changed; and the new body has the heights of the old one, or both have
none. -/
theorem run_replacements {b : Block} (hb : ∀ op ∈ b.operations, op.IsReplacement)
    (owner : ClassDecl) (m : MethodDecl) (registration : String) :
    ∃ edited final outcome, b.run owner m registration = .ok (final, outcome) ∧
      applyAll owner registration b.operations m = .ok (edited, outcome.applied) ∧
        final.code = edited.code ∧
          (∀ earlier op later, b.operations = earlier ++ op :: later →
            ∃ before others after done,
              applyAll owner registration earlier m = .ok (before, others) ∧
                op.apply ⟨owner, before, registration⟩ = .ok (after, done) ∧
                  outcome.applied[earlier.length]? = some done ∧
                    op.Replaced before.code after.code done) ∧
            ∀ r, final.heights = .ok r ↔ m.heights = .ok r := by
  obtain ⟨edited, final, outcome, hrun, hall, hcode, hkept⟩ :=
    exists_run_of_isReplacement hb owner m registration
  obtain ⟨_, _, hall', hturns, hheights⟩ := exists_applyAll_replacements hb owner m registration
  obtain ⟨rfl, rfl⟩ := Prod.mk.inj (Except.ok.inj (hall.symm.trans hall'))
  exact ⟨edited, final, outcome, hrun, hall, hcode, hturns, fun r => hkept ▸ hheights r⟩

/-- A number that is pushed in two forms, one of them short, and a text that occurs twice. The
number becomes one that has to be loaded from the pool. -/
theorem run_replacements_of_two_forms :
    let m : MethodDecl := ⟨"f", "()I", ⟨8⟩, [], .int, [.ldc (.string "60 FPS, FPS"),
      .simple Opcode.pop, .simple Opcode.iconst5, .ldc (.int 5), .simple Opcode.pop,
      .simple Opcode.ireturn], [], 2, 0⟩
    let edited : MethodDecl := { m with code := [.ldc (.string "60 CPS, CPS"),
      .simple Opcode.pop, .ldc (.int 70000), .ldc (.int 70000), .simple Opcode.pop,
      .simple Opcode.ireturn] }
    let owner : ClassDecl := ⟨"a", none, [], .none, [], [m], []⟩
    let b : Block := .ofOperations
      [.replaceConstant (.int 5) (.int 70000), .replaceString "FPS" "CPS"]
    (∀ op ∈ b.operations, op.IsReplacement) ∧
      (∃ applied, applyAll owner "r" b.operations m = .ok (edited, applied) ∧
        applied.map Applied.sites = [2, 1]) ∧
      ∃ edited final outcome, b.run owner m "r" = .ok (final, outcome) ∧
        applyAll owner "r" b.operations m = .ok (edited, outcome.applied) ∧
          final.code = edited.code ∧
            (∀ earlier op later, b.operations = earlier ++ op :: later →
              ∃ before others after done,
                applyAll owner "r" earlier m = .ok (before, others) ∧
                  op.apply ⟨owner, before, "r"⟩ = .ok (after, done) ∧
                    outcome.applied[earlier.length]? = some done ∧
                      op.Replaced before.code after.code done) ∧
              ∀ r, final.heights = .ok r ↔ m.heights = .ok r := by
  intro m edited owner b
  have hb : ∀ op ∈ b.operations, op.IsReplacement := by
    intro op hop
    rcases List.mem_cons.1 hop with rfl | hop
    · exact .constant rfl
    · obtain rfl := List.mem_singleton.1 hop
      exact .text "FPS" "CPS"
  have hall : applyAll owner "r" b.operations m = .ok (edited,
      [⟨.constantReplaced, 2, "5 -> 70000"⟩,
        ⟨.constantReplaced, 1, "\"FPS\" -> \"CPS\" in string literals"⟩]) := by
    cbv
  exact ⟨hb, ⟨_, hall, rfl⟩, run_replacements hb owner m "r"⟩

end Block

end ClassEdit
