import Mathlib.Order.Basic
import Mathlib.Data.Nat.Basic
import ClassEdit.Proofs.Numbering

/-!
# Finished rules and what was declared

A script declares rules, and not all that it declares is there in the end: sections of modules that
do not take part are passed over, and those that fail are taken back. What counts are the other
calls, each of them in the section that stands closest around it. From these calls it can be read
off what the finished rules are: the patterns and blocks of the method rules, their order and the
modules that they belong to. Of what counts, a method rule is dropped if it was to have edits and
has none, and then a class rule in which no method rule has edits.

Only the numbers of the rules without a name cannot be read off the calls that count, since those
that are taken back use up numbers, too. But the numbers never go down, so no two rules of a class
have the same one.

## Main definitions

* `Script.effective`: the calls of a script that count, with the modules of their sections.
* `DeclaredMethod`, `DeclaredClass`: what is declared by calls that count.
* `Numbered`: method rules that were made as declared, one after the other.
* `Collecting`: drafts that can be compared with the calls that were made on them.

## Main results

* `Script.collected_run`: a script makes what its calls that count declare.
* `Script.rules_exact`: the finished rules are those that were declared, apart from the ones without
  anything to apply.
-/

namespace ClassEdit

/-! ### The calls that count -/

/-- The calls of a script that count, each with the module of the section that stands closest around
it. Those in sections of modules that do not take part do not count, nor do those in sections that
fail. -/
def Script.effective {κ σ : Type} [Draft σ] [Calls κ σ] (registry : Registry)
    (module : Option ModuleName) : Script κ → List (κ × Option ModuleName)
  | nothing => []
  | call first rest => (first, module) :: rest.effective registry module
  | within name body ending rest =>
    (if registry.isEnabled name && !sectionFails registry name body ending then
      (body (registry.state name)).effective registry (some name) else []) ++
        rest.effective registry module

/-- Drafts that can be compared with the calls that were made on them. -/
class Collecting (κ σ : Type) [Draft σ] [Growing σ] where
  /-- The draft is in a section of a module, or in none. -/
  InScope : σ → Option ModuleName → Prop
  /-- The second draft is the first one with what the calls declare. -/
  Collected : σ → List (κ × Option ModuleName) → σ → Prop
  inScope_enter (name : ModuleName) (s : σ) : InScope (Draft.enter name s) (some name)
  inScope_of_grown {module : Option ModuleName} {s t : σ} : InScope s module →
    Growing.Grown s t → InScope t module
  nil (s : σ) : Collected s [] s
  append {s t u : σ} {calls calls' : List (κ × Option ModuleName)} : Collected s calls t →
    Collected t calls' u → Collected s (calls ++ calls') u
  leave {name : ModuleName} {s t : σ} {calls : List (κ × Option ModuleName)} :
    Collected (Draft.enter name s) calls t → Collected s calls (Draft.leave s t)
  rolledBack {name : ModuleName} {s t : σ} {calls : List (κ × Option ModuleName)}
    (issues : List EditError) : Collected (Draft.enter name s) calls t →
      Growing.Grown (Draft.enter name s) t →
        Collected s [] (Draft.setIssues (Draft.rollback (Draft.mark s) (Draft.leave s t)) issues)

/-- Calls that do what they declare. -/
class LawfulCollecting (κ σ : Type) [Draft σ] [Growing σ] [Calls κ σ] [Collecting κ σ] : Prop where
  collected (call : κ) {s : σ} {module : Option ModuleName} : Collecting.InScope κ s module →
    Collecting.Collected s [(call, module)] (made (Calls.perform call) s)

/-- A script makes what its calls that count declare. -/
theorem Script.collected_run {κ σ : Type} [Draft σ] [Growing σ] [Calls κ σ] [LawfulCalls κ σ]
    [Collecting κ σ] [LawfulCollecting κ σ] (t : Script κ) {s : σ} {module : Option ModuleName}
    (h : Collecting.InScope κ s module) :
    Collecting.Collected s (t.effective (Draft.registry s) module) (made t.run s) := by
  induction t generalizing s module with
  | nothing => exact Collecting.nil s
  | call first rest ih =>
    have hgrown := LawfulCalls.grown first s
    have hrest := ih (Collecting.inScope_of_grown h hgrown)
    rw [Growing.registry_eq hgrown] at hrest
    exact Collecting.append (LawfulCollecting.collected first h) hrest
  | within name body ending rest ihbody ih =>
    have hgrown := grown_inModule name body ending s
    have hrest := ih (Collecting.inScope_of_grown h hgrown)
    rw [Growing.registry_eq hgrown] at hrest
    refine Collecting.append ?_ hrest
    have hbody := ihbody ((Draft.registry s).state name) (Collecting.inScope_enter name s)
    rw [Growing.registry_enter] at hbody
    cases henabled : (Draft.registry s).isEnabled name with
    | false =>
      rw [inModule, made_withModule_of_disabled henabled]
      exact Collecting.nil s
    | true =>
      cases hfails : sectionFails (Draft.registry s) name body ending with
      | true =>
        -- nothing is left of what the body has made, but it may have used up numbers
        obtain ⟨owner, problem, -, hmade⟩ := made_inModule_of_fails henabled hfails
        rw [hmade]
        exact Collecting.rolledBack _ hbody (grown_run _ _)
      | false =>
        rw [made_inModule_of_keeps henabled hfails]
        exact Collecting.leave hbody

/-! ### Blocks -/

namespace BlockCall

/-- The operation that a call adds. A constant is not replaced by one of another kind. -/
def operation? : BlockCall → Option Operation
  | add op => some op
  | replaceConstant source target =>
    if source.kind = target.kind then some (.replaceConstant source target) else none
  | disableFrames => none

/-- Whether the stack maps are still computed anew after a call. -/
def keepsFrames : BlockCall → Bool
  | disableFrames => false
  | _ => true

end BlockCall

/-- A block with what calls add to it. -/
def Block.extended (b : Block) (calls : List BlockCall) : Block :=
  ⟨b.operations ++ calls.filterMap BlockCall.operation?,
    b.computeFrames && calls.all BlockCall.keepsFrames⟩

/-- The block that calls declare. -/
def Block.declared (calls : List BlockCall) : Block :=
  ⟨calls.filterMap BlockCall.operation?, calls.all BlockCall.keepsFrames⟩

namespace Block

variable {b : Block} {calls calls' : List BlockCall}

theorem extended_nil : b.extended [] = b := by
  rw [extended, List.filterMap_nil, List.append_nil, List.all_nil, Bool.and_true]

theorem extended_append : b.extended (calls ++ calls') = (b.extended calls).extended calls' := by
  simp only [extended, List.filterMap_append, List.all_append, List.append_assoc, Bool.and_assoc]

end Block

instance : Collecting BlockCall BlockDraft where
  InScope _ _ := True
  Collected s calls t := t.block = s.block.extended (calls.map Prod.fst)
  inScope_enter _ _ := trivial
  inScope_of_grown _ _ := trivial
  nil _ := Block.extended_nil.symm
  append h h' := by rw [h', h, List.map_append, Block.extended_append]
  leave := id
  rolledBack issues _ hgrown := by
    rw [BlockDraft.Grown.rolledBack issues hgrown]
    exact Block.extended_nil.symm

instance : LawfulCollecting BlockCall BlockDraft where
  collected call s module _ := by
    cases call with
    | add op =>
      show Block.mk (s.operations ++ [op]) s.computeFrames = Block.mk _ (s.computeFrames && true)
      rw [Bool.and_true]
      rfl
    | replaceConstant source target =>
      show (made (BlockDraft.replaceConstant source target) s).block = _
      rw [BlockDraft.made_replaceConstant]
      unfold Block.extended
      by_cases h : source.kind = target.kind
      · simp [h, BlockCall.operation?, BlockCall.keepsFrames]
        rfl
      · simp [h, BlockCall.operation?, BlockCall.keepsFrames]
        rfl
    | disableFrames =>
      show Block.mk s.operations false = Block.mk (s.operations ++ []) (s.computeFrames && false)
      rw [List.append_nil, Bool.and_false]

/-! ### Method rules -/

namespace MethodRuleCall

/-- The clause that a call adds. -/
def clause? : MethodRuleCall → Option MethodClause
  | require clause => some clause
  | transform _ => none

/-- Whether a call is about the block. -/
def isTransform : MethodRuleCall → Bool
  | require _ => false
  | transform _ => true

/-- The calls on the block that count. -/
def blockCalls (registry : Registry) : MethodRuleCall → List BlockCall
  | require _ => []
  | transform program => (program.effective registry none).map Prod.fst

variable {s : MethodRuleDraft}

theorem clauses_perform (call : MethodRuleCall) :
    (made call.perform s).pattern.clauses = s.pattern.clauses ++ call.clause?.toList := by
  cases call with
  | require clause => rfl
  | transform program => exact (List.append_nil s.pattern.clauses).symm

theorem clauses_performAll (calls : List MethodRuleCall) :
    (made (performAll calls) s).pattern.clauses =
      s.pattern.clauses ++ calls.filterMap clause? := by
  induction calls generalizing s with
  | nil => exact (List.append_nil s.pattern.clauses).symm
  | cons first rest ih =>
    refine (ih (s := made first.perform s)).trans ?_
    rw [clauses_perform, List.append_assoc, List.filterMap_cons]
    cases first <;> rfl

theorem block_perform (call : MethodRuleCall) (hregistry : s.opened.registry = s.registry) :
    (made call.perform s).block.isSome = (s.block.isSome || call.isTransform) ∧
      (made call.perform s).opened.block =
        s.opened.block.extended (call.blockCalls s.registry) := by
  cases call with
  | require clause => exact ⟨(Bool.or_false _).symm, Block.extended_nil.symm⟩
  | transform program =>
    have hmade : Collecting.Collected s.opened
        (program.effective s.opened.registry none) (made program.run s.opened) :=
      Script.collected_run program trivial
    rw [hregistry] at hmade
    exact ⟨(Bool.or_true _).symm, hmade⟩

/-- The block has what all calls declare, and it is there from the first call about it on. -/
theorem block_performAll (calls : List MethodRuleCall)
    (hregistry : s.opened.registry = s.registry) :
    (made (performAll calls) s).block.isSome = (s.block.isSome || calls.any isTransform) ∧
      (made (performAll calls) s).opened.block =
        s.opened.block.extended (calls.flatMap (blockCalls s.registry)) := by
  induction calls generalizing s with
  | nil => exact ⟨(Bool.or_false _).symm, Block.extended_nil.symm⟩
  | cons first rest ih =>
    obtain ⟨hsame, hgrown⟩ := first.grown_perform s
    obtain ⟨hsome, hblock⟩ := block_perform first hregistry
    obtain ⟨hsomes, hblocks⟩ := ih (s := made first.perform s)
      ((Growing.registry_eq hgrown).trans (hregistry.trans hsame.symm))
    refine ⟨hsomes.trans ?_, hblocks.trans ?_⟩
    · rw [hsome, List.any_cons, Bool.or_assoc]
    · rw [hblock, hsame, List.flatMap_cons, Block.extended_append]

/-- The block that calls on a method rule declare, if one of them is about the block. -/
def declaredBlock (registry : Registry) (calls : List MethodRuleCall) : Option Block :=
  if calls.any isTransform then some (.declared (calls.flatMap (blockCalls registry))) else none

/-- The finished block is the declared one. -/
theorem map_block_performAll (registry : Registry) (calls : List MethodRuleCall) :
    (made (performAll calls) ⟨registry, .empty, none⟩).block.map BlockDraft.block =
      declaredBlock registry calls := by
  obtain ⟨hsome, hblock⟩ := block_performAll (s := ⟨registry, .empty, none⟩) calls rfl
  unfold declaredBlock
  rw [Option.isSome_none, Bool.false_or] at hsome
  rw [← hsome]
  revert hblock
  unfold MethodRuleDraft.opened
  cases (made (performAll calls) ⟨registry, .empty, none⟩).block with
  | none => exact fun _ => rfl
  | some block => exact fun hblock => congrArg some hblock

end MethodRuleCall

/-- A method rule as it is declared. -/
structure DeclaredMethod where
  /-- The name that the rule is given, if there is one. -/
  name : Option String
  pattern : MethodPattern
  block : Option Block
  /-- The module of the section that stands closest around the declaration. -/
  module : Option ModuleName

namespace DeclaredMethod

/-- The method rule that is declared, if it has the given number. -/
def rule (d : DeclaredMethod) (n : Nat) : MethodRule :=
  ⟨d.name.getD (MethodsDraft.unnamedLabel n), d.pattern, d.block, d.module⟩

theorem label_rule_of_unnamed (d : DeclaredMethod) {n : Nat} (h : d.name = none) :
    (d.rule n).label = MethodsDraft.unnamedLabel n := by
  rw [rule, h, Option.getD_none]

/-- Whether the rule is a condition, or has something to apply. -/
def isKept (d : DeclaredMethod) : Bool := d.block.all fun b => !b.operations.isEmpty

/-- Whether the rule has something to apply. -/
def hasWork (d : DeclaredMethod) : Bool := d.block.any fun b => !b.operations.isEmpty

end DeclaredMethod

/-- Method rules that were made as declared, one after the other, between two states of the counter
of those without a name. The counter may go up in between. -/
inductive Numbered : Nat → List DeclaredMethod → List MethodRule → Nat → Prop
  | nil {n n' : Nat} : n ≤ n' → Numbered n [] [] n'
  | cons {n k n' : Nat} {d : DeclaredMethod} {ds : List DeclaredMethod} {rules : List MethodRule} :
    n ≤ k → (d.name = none → n < k) → Numbered k ds rules n' →
      Numbered n (d :: ds) (d.rule k :: rules) n'

namespace Numbered

variable {m n n' n'' : Nat} {ds ds' : List DeclaredMethod} {rules rules' : List MethodRule}

theorem le (h : Numbered n ds rules n') : n ≤ n' := by
  induction h with
  | nil hle => exact hle
  | cons hle _ _ ih => exact hle.trans ih

/-- Numbers may be used up before. -/
theorem skip (h : Numbered n ds rules n') (hle : m ≤ n) : Numbered m ds rules n' := by
  cases h with
  | nil hle' => exact .nil (hle.trans hle')
  | cons hle' hlt hrest =>
    exact .cons (hle.trans hle') (fun hname => hle.trans_lt (hlt hname)) hrest

theorem append (h : Numbered n ds rules n') (h' : Numbered n' ds' rules' n'') :
    Numbered n (ds ++ ds') (rules ++ rules') n'' := by
  induction h with
  | nil hle => exact h'.skip hle
  | cons hle hlt _ ih => exact .cons hle hlt (ih h')

/-- Of the rules that were declared those are kept that should be. -/
theorem kept (h : Numbered n ds rules n') :
    Numbered n (ds.filter DeclaredMethod.isKept) (rules.filter MethodRule.isKept) n' := by
  induction h with
  | nil hle => exact .nil hle
  | @cons n k n' d ds rules hle hlt _ ih =>
    have hkept : (d.rule k).isKept = d.isKept := rfl
    rw [List.filter_cons, List.filter_cons, hkept]
    split
    · exact .cons hle hlt ih
    · exact ih.skip hle

theorem any_hasWork (h : Numbered n ds rules n') :
    rules.any MethodRule.hasWork = ds.any DeclaredMethod.hasWork := by
  induction h with
  | nil => rfl
  | cons _ _ _ ih =>
    rw [List.any_cons, List.any_cons, ih]
    rfl

/-- Each rule is what was declared, with some number. -/
theorem forall₂ (h : Numbered n ds rules n') :
    List.Forall₂ (fun d r => ∃ k, r = d.rule k) ds rules := by
  induction h with
  | nil => exact .nil
  | cons _ _ _ ih => exact .cons ⟨_, rfl⟩ ih

/-- The numbers of rules without a name are used after the counter was read. -/
theorem lt_of_unnamed (h : Numbered n ds rules n') :
    ∀ p ∈ ds.zip rules, p.1.name = none → ∃ k, n < k ∧ p.2.label = MethodsDraft.unnamedLabel k := by
  induction h with
  | nil => exact List.forall_mem_nil _
  | @cons n k n' d ds rules hle hlt _ ih =>
    rw [List.zip_cons_cons, List.forall_mem_cons]
    refine ⟨fun hname => ⟨k, hlt hname, d.label_rule_of_unnamed hname⟩, fun p hp hname => ?_⟩
    obtain ⟨k', hlt', hlabel⟩ := ih p hp hname
    exact ⟨k', hle.trans_lt hlt', hlabel⟩

/-- Rules without a name are told apart by their labels. -/
theorem pairwise_label (h : Numbered n ds rules n') :
    (ds.zip rules).Pairwise fun p q =>
      p.1.name = none → q.1.name = none → p.2.label ≠ q.2.label := by
  induction h with
  | nil => exact .nil
  | @cons n k n' d ds rules _ _ hrest ih =>
    refine .cons (fun q hq hname hname' hlabel => ?_) ih
    obtain ⟨k', hlt, hlabel'⟩ := hrest.lt_of_unnamed q hq hname'
    have hfirst : (d.rule k).label = MethodsDraft.unnamedLabel k := d.label_rule_of_unnamed hname
    rw [hfirst, hlabel', Registration.unnamedLabel_inj] at hlabel
    exact absurd hlabel hlt.ne

end Numbered

/-- The method rule that a call declares. -/
def MethodsCall.declared (registry : Registry) :
    MethodsCall × Option ModuleName → DeclaredMethod
  | (register name program, module) =>
    ⟨name, ⟨program.filterMap MethodRuleCall.clause?⟩,
      MethodRuleCall.declaredBlock registry program, module⟩

/-- The second draft is the first one with the method rules that the calls declare. -/
structure MethodsDraft.Collected (s : MethodsDraft) (calls : List (MethodsCall × Option ModuleName))
    (t : MethodsDraft) : Prop where
  registry_eq : t.registry = s.registry
  methods : ∃ rules, t.methods = s.methods ++ rules ∧
    Numbered s.unnamed (calls.map (MethodsCall.declared s.registry)) rules t.unnamed

instance : Collecting MethodsCall MethodsDraft where
  InScope s module := s.module = module
  Collected := MethodsDraft.Collected
  inScope_enter _ _ := rfl
  inScope_of_grown h hgrown := by
    obtain ⟨_, _, _, rfl⟩ := hgrown
    exact h
  nil s := ⟨rfl, [], (List.append_nil _).symm, .nil le_rfl⟩
  append h h' := by
    obtain ⟨hregistry, rules, hmethods, hnumbered⟩ := h
    obtain ⟨hregistry', rules', hmethods', hnumbered'⟩ := h'
    rw [hregistry] at hnumbered'
    refine ⟨hregistry'.trans hregistry, rules ++ rules', ?_, ?_⟩
    · rw [hmethods', hmethods, List.append_assoc]
    · rw [List.map_append]
      exact hnumbered.append hnumbered'
  leave h := ⟨h.registry_eq, h.methods⟩
  rolledBack issues h hgrown := by
    obtain ⟨_, _, _, hnumbered⟩ := h
    rw [MethodsDraft.Grown.rolledBack issues hgrown]
    exact ⟨rfl, [], (List.append_nil _).symm, .nil hnumbered.le⟩

/-- A new method rule is the declared one, with the label that it is made under. -/
theorem MethodsDraft.methods_register (label : String) (program : List MethodRuleCall)
    (s : MethodsDraft) :
    (made (register label (MethodRuleCall.performAll program)) s).methods =
      s.methods ++ [⟨label, ⟨program.filterMap MethodRuleCall.clause?⟩,
        MethodRuleCall.declaredBlock s.registry program, s.module⟩] := by
  have hpattern : (made (MethodRuleCall.performAll program) ⟨s.registry, .empty, none⟩).pattern =
      ⟨program.filterMap MethodRuleCall.clause?⟩ :=
    congrArg Pattern.mk (MethodRuleCall.clauses_performAll program)
  rw [← hpattern, ← MethodRuleCall.map_block_performAll]
  rfl

instance : LawfulCollecting MethodsCall MethodsDraft where
  collected call s module h := by
    obtain ⟨name, program⟩ := call
    obtain rfl : s.module = module := h
    cases name with
    | some name =>
      refine ⟨rfl, _, MethodsDraft.methods_register name program s, ?_⟩
      exact .cons le_rfl nofun (.nil le_rfl)
    | none =>
      refine ⟨rfl, _, MethodsDraft.methods_register _ program _, ?_⟩
      exact .cons (Nat.le_succ s.unnamed) (fun _ => Nat.lt_succ_self s.unnamed) (.nil le_rfl)

/-! ### Class rules -/

namespace ClassRuleCall

/-- The name that a call gives to the rule. -/
def label? : ClassRuleCall × Option ModuleName → Option String
  | (setLabel label, _) => some label
  | _ => none

/-- The clause that a call adds. -/
def clause? : ClassRuleCall × Option ModuleName → Option ClassClause
  | (require clause, _) => some clause
  | _ => none

/-- The method rules that a call declares. -/
def methods (registry : Registry) : ClassRuleCall × Option ModuleName → List DeclaredMethod
  | (inMethods program, module) =>
    (program.effective registry module).map (MethodsCall.declared registry)
  | _ => []

end ClassRuleCall

/-- The second draft is the first one with what the calls declare. -/
structure ClassRuleDraft.Collected (s : ClassRuleDraft)
    (calls : List (ClassRuleCall × Option ModuleName)) (t : ClassRuleDraft) : Prop where
  registry_eq : t.registry = s.registry
  outerModule_eq : t.outerModule = s.outerModule
  label_eq : t.label = (calls.filterMap ClassRuleCall.label?).getLast?.or s.label
  clauses_eq : t.pattern.clauses = s.pattern.clauses ++ calls.filterMap ClassRuleCall.clause?
  methods : ∃ rules, t.methods = s.methods ++ rules ∧
    Numbered s.unnamed (calls.flatMap (ClassRuleCall.methods s.registry)) rules t.unnamed

instance : Collecting ClassRuleCall ClassRuleDraft where
  InScope s module := s.module = module
  Collected := ClassRuleDraft.Collected
  inScope_enter _ _ := rfl
  inScope_of_grown h hgrown := by
    obtain ⟨_, _, _, _, _, rfl⟩ := hgrown
    exact h
  nil s := ⟨rfl, rfl, rfl, (List.append_nil _).symm, [], (List.append_nil _).symm, .nil le_rfl⟩
  append h h' := by
    obtain ⟨rules, hmethods, hnumbered⟩ := h.methods
    obtain ⟨rules', hmethods', hnumbered'⟩ := h'.methods
    rw [h.registry_eq] at hnumbered'
    refine ⟨h'.registry_eq.trans h.registry_eq, h'.outerModule_eq.trans h.outerModule_eq, ?_, ?_,
      rules ++ rules', ?_, ?_⟩
    · rw [h'.label_eq, h.label_eq, List.filterMap_append, List.getLast?_append, Option.or_assoc]
    · rw [h'.clauses_eq, h.clauses_eq, List.filterMap_append, List.append_assoc]
    · rw [hmethods', hmethods, List.append_assoc]
    · rw [List.flatMap_append]
      exact hnumbered.append hnumbered'
  leave h := ⟨h.registry_eq, h.outerModule_eq, h.label_eq, h.clauses_eq, h.methods⟩
  rolledBack issues h hgrown := by
    obtain ⟨_, _, hnumbered⟩ := h.methods
    rw [ClassRuleDraft.Grown.rolledBack issues hgrown]
    exact ⟨rfl, rfl, rfl, (List.append_nil _).symm, [], (List.append_nil _).symm,
      .nil hnumbered.le⟩

instance : LawfulCollecting ClassRuleCall ClassRuleDraft where
  collected call s module h := by
    obtain rfl : s.module = module := h
    cases call with
    | setLabel label =>
      exact ⟨rfl, rfl, rfl, (List.append_nil _).symm, [], (List.append_nil _).symm, .nil le_rfl⟩
    | require clause => exact ⟨rfl, rfl, rfl, rfl, [], (List.append_nil _).symm, .nil le_rfl⟩
    | inMethods program =>
      -- the section of the class rule is handed to its method rules
      have hmade : MethodsDraft.Collected ⟨s.registry, [], [], s.module, s.unnamed⟩
          (program.effective s.registry s.module) _ := Script.collected_run program rfl
      obtain ⟨-, rules, hmethods, hnumbered⟩ := hmade
      refine ⟨rfl, rfl, rfl, (List.append_nil _).symm, rules, ?_, ?_⟩
      · exact congrArg (s.methods ++ ·) (hmethods.trans (List.nil_append rules))
      · rw [List.flatMap_singleton]
        exact hnumbered

/-- A class rule as it is declared. -/
structure DeclaredClass where
  /-- The name that the rule is given last, if there is one. -/
  name : Option String
  pattern : ClassPattern
  methods : List DeclaredMethod
  /-- The module of the section that stands closest around the declaration. -/
  module : Option ModuleName

namespace DeclaredClass

/-- The name of the rule, or its pattern in words. -/
def label (d : DeclaredClass) : String := d.name.getD d.pattern.text

/-- Whether some method rule has something to apply. -/
def hasWork (d : DeclaredClass) : Bool := d.methods.any DeclaredMethod.hasWork

end DeclaredClass

/-- The class rule that a call declares. -/
def RulesCall.declared (registry : Registry) : RulesCall × Option ModuleName → DeclaredClass
  | (findClass program, module) =>
    let calls := program.effective registry module
    ⟨(calls.filterMap ClassRuleCall.label?).getLast?, ⟨calls.filterMap ClassRuleCall.clause?⟩,
      calls.flatMap (ClassRuleCall.methods registry), module⟩

/-- The rule is the declared one, and its label is qualified. -/
structure DeclaredMethod.RealizedBy (qualifier : String) (d : DeclaredMethod) (r : MethodRule) :
    Prop where
  label : match d.name with
    | some name => r.label = qualifier ++ "::" ++ name
    | none => ∃ n, r.label = qualifier ++ "::" ++ MethodsDraft.unnamedLabel n
  pattern_eq : r.pattern = d.pattern
  block_eq : r.block = d.block
  module_eq : r.module = d.module

/-- The finished rule is the declared one without the method rules that were meant to have edits and
have none. -/
structure DeclaredClass.RealizedBy (d : DeclaredClass) (r : ClassRule) : Prop where
  label_eq : r.label = d.label
  pattern_eq : r.pattern = d.pattern
  module_eq : r.module = d.module
  methods : List.Forall₂ (DeclaredMethod.RealizedBy r.label)
    (d.methods.filter DeclaredMethod.isKept) r.methods
  /-- Method rules without a name are told apart by their labels. -/
  pairwise_label : ((d.methods.filter DeclaredMethod.isKept).zip r.methods).Pairwise fun p q =>
    p.1.name = none → q.1.name = none → p.2.label ≠ q.2.label
  /-- Something is applied. -/
  exists_edit : ∃ m ∈ r.methods, ∃ b, m.block = some b ∧ b.operations ≠ []
  /-- No block is empty. -/
  operations_ne_nil : ∀ m ∈ r.methods, ∀ b, m.block = some b → b.operations ≠ []

namespace MethodRule

variable {r : MethodRule}

theorem isKept_iff : r.isKept = true ↔ ∀ b, r.block = some b → b.operations ≠ [] := by
  unfold isKept Block.isEmpty
  cases r.block <;> simp

theorem hasWork_iff : r.hasWork = true ↔ ∃ b, r.block = some b ∧ b.operations ≠ [] := by
  unfold hasWork Block.isEmpty
  cases r.block <;> simp

/-- A rule that has something to apply is kept. -/
theorem isKept_of_hasWork (h : r.hasWork = true) : r.isKept = true := by
  obtain ⟨b, hblock, hne⟩ := hasWork_iff.1 h
  refine isKept_iff.2 fun b' hblock' => ?_
  cases hblock.symm.trans hblock'
  exact hne

end MethodRule

namespace ClassRuleDraft

/-- A class rule has something to apply if one of its method rules does. -/
theorem hasWork_rule (s : ClassRuleDraft) :
    s.rule.hasWork = s.methods.any MethodRule.hasWork := by
  show ((s.methods.filter MethodRule.isKept).map fun m => { m with
    label := s.finalLabel ++ "::" ++ m.label }).any MethodRule.hasWork = _
  rw [List.any_map, List.any_filter]
  refine congrArg (s.methods.any ·) (funext fun m => ?_)
  show (m.isKept && m.hasWork) = m.hasWork
  cases h : m.hasWork with
  | false => exact Bool.and_false _
  | true => rw [MethodRule.isKept_of_hasWork h, Bool.true_and]

namespace Collected

variable {registry : Registry} {module : Option ModuleName} {t : ClassRuleDraft}
variable {program : Script ClassRuleCall}

theorem hasWork_eq (h : Collected (.start registry module) (program.effective registry module) t) :
    t.rule.hasWork = (RulesCall.declared registry (.findClass program, module)).hasWork := by
  obtain ⟨rules, hmethods, hnumbered⟩ := h.methods
  rw [hasWork_rule, hmethods]
  exact hnumbered.any_hasWork

/-- A finished rule that has something to apply is the declared one. -/
theorem realizes (h : Collected (.start registry module) (program.effective registry module) t)
    (hwork : t.rule.hasWork = true) :
    DeclaredClass.RealizedBy (RulesCall.declared registry (.findClass program, module)) t.rule := by
  obtain ⟨rules, hmethods, hnumbered⟩ := h.methods
  obtain rfl : t.methods = rules := hmethods
  have hkept := hnumbered.kept
  have hpattern : t.pattern = ⟨(program.effective registry module).filterMap
      ClassRuleCall.clause?⟩ := congrArg Pattern.mk h.clauses_eq
  refine ⟨?_, hpattern, h.outerModule_eq, ?_, ?_, ?_, ?_⟩
  · show t.label.getD t.pattern.text = _
    rw [hpattern, h.label_eq]
    exact congrArg (Option.getD · _) Option.or_none
  · show List.Forall₂ _ _ ((t.methods.filter MethodRule.isKept).map _)
    rw [List.forall₂_map_right_iff]
    refine hkept.forall₂.imp fun d r ⟨k, hr⟩ => ?_
    subst hr
    refine ⟨?_, rfl, rfl, rfl⟩
    show match d.name with
      | some name => t.finalLabel ++ "::" ++ d.name.getD _ = _
      | none => ∃ n, t.finalLabel ++ "::" ++ d.name.getD _ = _
    -- an unnamed rule is called by its number, which is what its label was made from
    cases d.name with
    | some name => rfl
    | none => exact ⟨k, rfl⟩
  · show (List.zip _ ((t.methods.filter MethodRule.isKept).map _)).Pairwise _
    rw [List.zip_map_right, List.pairwise_map]
    refine hkept.pairwise_label.imp fun {p q} hne hname hname' hlabel => ?_
    exact hne hname hname' ((String.append_right_inj _).1 hlabel)
  · obtain ⟨m, hm, hm'⟩ := List.any_eq_true.1 hwork
    exact ⟨m, hm, MethodRule.hasWork_iff.1 hm'⟩
  · intro m hm
    obtain ⟨m', hm', rfl⟩ := List.mem_map.1 hm
    have hkept : m'.isKept = true := List.of_mem_filter hm'
    exact MethodRule.isKept_iff.1 hkept

end Collected

end ClassRuleDraft

/-! ### All rules -/

/-- The second draft is the first one with those class rules that the calls declare and that have
something to apply. -/
structure RulesDraft.Collected (s : RulesDraft) (calls : List (RulesCall × Option ModuleName))
    (t : RulesDraft) : Prop where
  registry_eq : t.registry = s.registry
  rules : ∃ rules, t.rules = s.rules ++ rules ∧ List.Forall₂ DeclaredClass.RealizedBy
    ((calls.map (RulesCall.declared s.registry)).filter DeclaredClass.hasWork) rules

instance : Collecting RulesCall RulesDraft where
  InScope s module := s.module = module
  Collected := RulesDraft.Collected
  inScope_enter _ _ := rfl
  inScope_of_grown h hgrown := by
    obtain ⟨_, _, rfl⟩ := hgrown
    exact h
  nil s := ⟨rfl, [], (List.append_nil _).symm, .nil⟩
  append h h' := by
    obtain ⟨hregistry, rules, hrules, hrealized⟩ := h
    obtain ⟨hregistry', rules', hrules', hrealized'⟩ := h'
    rw [hregistry] at hrealized'
    refine ⟨hregistry'.trans hregistry, rules ++ rules', ?_, ?_⟩
    · rw [hrules', hrules, List.append_assoc]
    · rw [List.map_append, List.filter_append]
      exact List.rel_append hrealized hrealized'
  leave h := ⟨h.registry_eq, h.rules⟩
  rolledBack issues _ hgrown := by
    rw [RulesDraft.Grown.rolledBack issues hgrown]
    exact ⟨rfl, [], (List.append_nil _).symm, .nil⟩

instance : LawfulCollecting RulesCall RulesDraft where
  collected call s module h := by
    obtain ⟨program⟩ := call
    obtain rfl : s.module = module := h
    let draft := made program.run (ClassRuleDraft.start s.registry s.module)
    have hmade : ClassRuleDraft.Collected (.start s.registry s.module)
        (program.effective s.registry s.module) draft := Script.collected_run program rfl
    refine ⟨rfl, if draft.rule.hasWork then [draft.rule] else [], rfl, ?_⟩
    rw [List.map_singleton, List.filter_cons, ← hmade.hasWork_eq]
    split
    · rename_i hwork
      exact .cons (hmade.realizes hwork) .nil
    · exact .nil

/-- The class rules that a script declares. -/
def Script.declared (registry : Registry) (t : Script RulesCall) : List DeclaredClass :=
  (t.effective registry none).map (RulesCall.declared registry)

/-- The finished rules are those that the script declares, in this order and apart from those
without anything to apply. -/
theorem Script.rules_exact (registry : Registry) (t : Script RulesCall) :
    List.Forall₂ DeclaredClass.RealizedBy ((t.declared registry).filter DeclaredClass.hasWork)
      (RulesDraft.rulesOf registry t.run).rules := by
  have hmade : RulesDraft.Collected (.start registry) (t.effective registry none) _ :=
    Script.collected_run t rfl
  obtain ⟨-, rules, hrules, hrealized⟩ := hmade
  have hfinished : (RulesDraft.rulesOf registry t.run).rules = rules := hrules
  rw [hfinished]
  exact hrealized

end ClassEdit
