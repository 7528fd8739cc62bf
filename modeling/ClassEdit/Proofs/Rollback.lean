import ClassEdit.Proofs.Script
import Mathlib.Data.List.Forall2

/-!
# Sections that fail leave nothing behind

A section of a script fails exactly if its body gives up or raises an issue, at whatever depth. If
it fails, the draft is what it was before with one issue more, which is a problem of the module. A
problem of another module is the issue only if the body gave up over it and raised nothing. If the
section does not fail, what its body has added is there and no issue is. The one thing that a failed
section does leave is a gap in the numbers of the rules without a name.

So the sections that fail, and those of modules that do not take part, can be struck out of a script
beforehand, inside of calls and of other sections too. The rules come out the same, apart from the
numbers in the labels of those without a name.

## Main definitions

* `SectionSpec`: what a section makes of a draft.
* `Script.pruned`: a script without the sections that contribute nothing.
* `ClassRule.Alike`: class rules that differ at most in the numbers of their unnamed method rules.

## Main results

* `made_inModule_of_fails`, `made_inModule_of_keeps`: a section that fails, and one that does not.
* `Script.alike_pruned`: a script and its pruned form make alike drafts.
* `Script.section_all_or_nothing`: the specification of sections on all levels, with the rules that
  come of a script in which some fail.
* `Script.section_reported_for_other`: a section that is reported as a problem of another module.
-/

namespace ClassEdit

/-! ### One section -/

namespace Script

variable {κ σ : Type} [Draft σ] [Growing σ] [Calls κ σ] [LawfulCalls κ σ]
variable {name : ModuleName} {body : ModuleState → Script κ}
variable {ending : ModuleState → Except EditError Unit} {s : σ}

open Growing

/-- A section does not fail if its body comes to a good end and leaves the issues alone. -/
theorem sectionFails_eq_false_iff :
    sectionFails (Draft.registry s) name body ending = false ↔
      ending ((Draft.registry s).state name) = .ok () ∧
        Draft.issues (made (body ((Draft.registry s).state name)).run (Draft.enter name s)) =
          Draft.issues s := by
  have hbody := issues_run_eq_iff (body ((Draft.registry s).state name)) (Draft.enter name s)
  rw [issues_enter, registry_enter] at hbody
  rw [sectionFails, Bool.or_eq_false_iff, Bool.not_eq_false', isOk_iff, hbody]

/-- A section that fails is taken back, and one issue says so. -/
theorem made_inModule_of_fails (henabled : (Draft.registry s).isEnabled name = true)
    (hfails : sectionFails (Draft.registry s) name body ending = true) :
    ∃ owner problem,
      ReportedAs name ((body ((Draft.registry s).state name)).raises (Draft.registry s) = false)
        (ending ((Draft.registry s).state name)) owner problem ∧
      made (inModule name body ending) s =
        Draft.setIssues
          (Draft.rollback (Draft.mark s) (Draft.leave s
            (made (body ((Draft.registry s).state name)).run (Draft.enter name s))))
          (Draft.issues s ++ [.module owner problem]) := by
  -- the body is quiet if it leaves the issues alone
  have hquiet := issues_run_eq_iff (body ((Draft.registry s).state name)) (Draft.enter name s)
  rw [issues_enter, registry_enter] at hquiet
  obtain ⟨owner, problem, hreported, hmade⟩ : ∃ owner problem,
      ReportedAs name (Draft.issues _ = Draft.issues s) (ending _) owner problem ∧
        made (inModule name body ending) s = _ := by
    refine made_sectionBody_of_fails henabled rfl (grown_run _ _) fun h => ?_
    rw [sectionFails_eq_false_iff.2 h] at hfails
    cases hfails
  exact ⟨owner, problem, hreported.congr hquiet, hmade⟩

/-- A section that does not fail is kept. -/
theorem made_inModule_of_keeps (henabled : (Draft.registry s).isEnabled name = true)
    (hkeeps : sectionFails (Draft.registry s) name body ending = false) :
    made (inModule name body ending) s =
      Draft.leave s (made (body ((Draft.registry s).state name)).run (Draft.enter name s)) := by
  obtain ⟨hending, hissues⟩ := sectionFails_eq_false_iff.1 hkeeps
  exact made_sectionBody_of_ok henabled rfl hending hissues

/-- A section leaves the issues alone exactly if its module does not take part or it does not
fail. -/
theorem issues_inModule_eq_iff :
    Draft.issues (made (inModule name body ending) s) = Draft.issues s ↔
      ((Draft.registry s).isEnabled name && sectionFails (Draft.registry s) name body ending) =
        false := by
  have h := issues_run_eq_iff (within name body ending nothing) s
  rw [raises, raises, Bool.or_false] at h
  exact h

end Script

/-- What a section makes of a draft. `Restored s t` says that `t` is the draft `s` again, apart from
its issues. -/
structure SectionSpec {κ σ : Type} [Draft σ] [Growing σ] [Calls κ σ] (Restored : σ → σ → Prop)
    (name : ModuleName) (body : ModuleState → Script κ)
    (ending : ModuleState → Except EditError Unit) (s : σ) : Prop where
  disabled : (Draft.registry s).isEnabled name = false →
    made (Script.inModule name body ending) s = s
  /-- The section is taken back, and one issue is there that was not there before: a problem of the
  module. Only if the body raised nothing and gave up over a problem of some module is this problem
  reported as it is. -/
  failed : (Draft.registry s).isEnabled name = true →
    Script.sectionFails (Draft.registry s) name body ending = true →
      ∃ t owner problem, Restored s t ∧
        ReportedAs name ((body ((Draft.registry s).state name)).raises (Draft.registry s) = false)
          (ending ((Draft.registry s).state name)) owner problem ∧
        made (Script.inModule name body ending) s =
          Draft.setIssues t (Draft.issues s ++ [.module owner problem])
  /-- What the body of the section adds is there, and no issue is. -/
  kept : (Draft.registry s).isEnabled name = true →
    Script.sectionFails (Draft.registry s) name body ending = false →
      made (Script.inModule name body ending) s =
        Draft.leave s
          (made (body ((Draft.registry s).state name)).run (Draft.enter name s)) ∧
      Growing.Grown s (made (Script.inModule name body ending) s) ∧
      Draft.issues (made (Script.inModule name body ending) s) = Draft.issues s

/-- Sections do what they should on every level on which what was added can be taken back. -/
theorem SectionSpec.of_restored {κ σ : Type} [Draft σ] [Growing σ] [Calls κ σ] [LawfulCalls κ σ]
    {Restored : σ → σ → Prop} {name : ModuleName} {body : ModuleState → Script κ}
    {ending : ModuleState → Except EditError Unit} {s : σ}
    (hrestored : ∀ t issues, Growing.Grown (Draft.enter name s) t → ∃ t', Restored s t' ∧
      Draft.setIssues (Draft.rollback (Draft.mark s) (Draft.leave s t)) issues =
        Draft.setIssues t' issues) :
    SectionSpec Restored name body ending s := by
  refine ⟨made_withModule_of_disabled, fun henabled hfails => ?_, fun henabled hkeeps => ?_⟩
  · obtain ⟨owner, problem, hreported, hmade⟩ := Script.made_inModule_of_fails henabled hfails
    obtain ⟨t, ht, hrolled⟩ := hrestored _ (Draft.issues s ++ [.module owner problem])
      (Script.grown_run (body ((Draft.registry s).state name)) (Draft.enter name s))
    exact ⟨t, owner, problem, ht, hreported, hmade.trans hrolled⟩
  · refine ⟨Script.made_inModule_of_keeps henabled hkeeps,
      Script.grown_inModule name body ending s, Script.issues_inModule_eq_iff.2 ?_⟩
    rw [hkeeps, Bool.and_false]

/-! ### Drafts and rules that are alike -/

/-- Method rules that differ at most in the numbers of their labels, which follow a qualifier. -/
structure MethodRule.Alike (qualifier : String) (r r' : MethodRule) : Prop where
  pattern_eq : r.pattern = r'.pattern
  block_eq : r.block = r'.block
  module_eq : r.module = r'.module
  label : r.label = r'.label ∨ ∃ n n', r.label = qualifier ++ MethodsDraft.unnamedLabel n ∧
    r'.label = qualifier ++ MethodsDraft.unnamedLabel n'

/-- Class rules that differ at most in the numbers of their method rules without a name. -/
structure ClassRule.Alike (r r' : ClassRule) : Prop where
  label_eq : r.label = r'.label
  pattern_eq : r.pattern = r'.pattern
  module_eq : r.module = r'.module
  methods : List.Forall₂ (MethodRule.Alike (r.label ++ "::")) r.methods r'.methods

/-- Blocks that differ at most in what was raised. -/
structure BlockDraft.Alike (s s' : BlockDraft) : Prop where
  registry_eq : s.registry = s'.registry
  operations_eq : s.operations = s'.operations
  computeFrames_eq : s.computeFrames = s'.computeFrames

/-- Method rules under construction that differ at most in what was raised. -/
structure MethodRuleDraft.Alike (s s' : MethodRuleDraft) : Prop where
  registry_eq : s.registry = s'.registry
  pattern_eq : s.pattern = s'.pattern
  block : Option.Rel BlockDraft.Alike s.block s'.block

/-- Drafts of method rules that are alike. -/
structure MethodsDraft.Alike (s s' : MethodsDraft) : Prop where
  registry_eq : s.registry = s'.registry
  module_eq : s.module = s'.module
  methods : List.Forall₂ (MethodRule.Alike "") s.methods s'.methods

/-- Class rules under construction that are alike. -/
structure ClassRuleDraft.Alike (s s' : ClassRuleDraft) : Prop where
  registry_eq : s.registry = s'.registry
  pattern_eq : s.pattern = s'.pattern
  label_eq : s.label = s'.label
  module_eq : s.module = s'.module
  outerModule_eq : s.outerModule = s'.outerModule
  methods : List.Forall₂ (MethodRule.Alike "") s.methods s'.methods

/-- Drafts of class rules that are alike. -/
structure RulesDraft.Alike (s s' : RulesDraft) : Prop where
  registry_eq : s.registry = s'.registry
  module_eq : s.module = s'.module
  rules : List.Forall₂ ClassRule.Alike s.rules s'.rules

/-- Drafts that can be compared apart from what a failed section leaves behind. -/
class Comparable (σ : Type) [Draft σ] [Growing σ] where
  Alike : σ → σ → Prop
  registry_eq {s s' : σ} : Alike s s' → Draft.registry s = Draft.registry s'
  enter {s s' : σ} (name : ModuleName) : Alike s s' →
    Alike (Draft.enter name s) (Draft.enter name s')
  leave {s s' t t' : σ} : Alike s s' → Alike t t' → Alike (Draft.leave s t) (Draft.leave s' t')
  rolledBack {s s' t : σ} {name : ModuleName} (issues : List EditError) : Alike s s' →
    Growing.Grown (Draft.enter name s) t →
      Alike (Draft.setIssues (Draft.rollback (Draft.mark s) (Draft.leave s t)) issues) s'

instance : Comparable BlockDraft where
  Alike := BlockDraft.Alike
  registry_eq h := h.registry_eq
  enter _ h := h
  leave _ h := h
  rolledBack issues h hgrown := by
    rw [BlockDraft.Grown.rolledBack issues hgrown]
    exact ⟨h.registry_eq, h.operations_eq, h.computeFrames_eq⟩

instance : Comparable MethodsDraft where
  Alike := MethodsDraft.Alike
  registry_eq h := h.registry_eq
  enter _ h := ⟨h.registry_eq, rfl, h.methods⟩
  leave hbefore h := ⟨h.registry_eq, hbefore.module_eq, h.methods⟩
  rolledBack issues h hgrown := by
    rw [MethodsDraft.Grown.rolledBack issues hgrown]
    exact ⟨h.registry_eq, h.module_eq, h.methods⟩

instance : Comparable ClassRuleDraft where
  Alike := ClassRuleDraft.Alike
  registry_eq h := h.registry_eq
  enter _ h := ⟨h.registry_eq, h.pattern_eq, h.label_eq, rfl, h.outerModule_eq, h.methods⟩
  leave hbefore h :=
    ⟨h.registry_eq, h.pattern_eq, h.label_eq, hbefore.module_eq, h.outerModule_eq, h.methods⟩
  rolledBack issues h hgrown := by
    rw [ClassRuleDraft.Grown.rolledBack issues hgrown]
    exact ⟨h.registry_eq, h.pattern_eq, h.label_eq, h.module_eq, h.outerModule_eq, h.methods⟩

instance : Comparable RulesDraft where
  Alike := RulesDraft.Alike
  registry_eq h := h.registry_eq
  enter _ h := ⟨h.registry_eq, rfl, h.rules⟩
  leave hbefore h := ⟨h.registry_eq, hbefore.module_eq, h.rules⟩
  rolledBack issues h hgrown := by
    rw [RulesDraft.Grown.rolledBack issues hgrown]
    exact ⟨h.registry_eq, h.module_eq, h.rules⟩

/-! ### Scripts without the sections that contribute nothing -/

/-- Calls in which sections can be struck out. -/
class Prunable (κ : Type) where
  prune : Registry → κ → κ

namespace Script

/-- A script without the sections of modules that do not take part and the sections that fail. -/
def pruned {κ σ : Type} [Draft σ] [Calls κ σ] [Prunable κ] (registry : Registry) :
    Script κ → Script κ
  | nothing => nothing
  | call first rest => call (Prunable.prune registry first) (rest.pruned registry)
  | within name body ending rest =>
    if registry.isEnabled name && !sectionFails registry name body ending then
      within name (fun _ => (body (registry.state name)).pruned registry) ending
        (rest.pruned registry)
    else rest.pruned registry

end Script

/-- Calls that do the same without the sections that contribute nothing. -/
class LawfulPruning (κ σ : Type) [Draft σ] [Growing σ] [Comparable σ] [Calls κ σ] [Prunable κ] :
    Prop where
  raises_prune {registry : Registry} {call : κ} : Calls.raises registry call = false →
    Calls.raises registry (Prunable.prune registry call) = false
  alike (call : κ) {s s' : σ} : Comparable.Alike s s' →
    Comparable.Alike (made (Calls.perform call) s)
      (made (Calls.perform (Prunable.prune (Draft.registry s) call)) s')

namespace Script

variable {κ σ : Type} [Draft σ] [Growing σ] [Calls κ σ] [LawfulCalls κ σ]
variable [Comparable σ] [Prunable κ] [LawfulPruning κ σ]

open Growing

omit [LawfulCalls κ σ] in
/-- A script that raises nothing raises nothing without the sections that contribute nothing. -/
theorem raises_pruned {registry : Registry} {t : Script κ} (h : t.raises registry = false) :
    (t.pruned registry).raises registry = false := by
  induction t with
  | nothing => rfl
  | call first rest ih =>
    obtain ⟨hfirst, hrest⟩ := Bool.or_eq_false_iff.1 h
    exact Bool.or_eq_false_iff.2 ⟨LawfulPruning.raises_prune hfirst, ih hrest⟩
  | within name body ending rest ihbody ih =>
    obtain ⟨hsection, hrest⟩ := Bool.or_eq_false_iff.1 h
    rw [pruned]
    split
    · rename_i hkept
      obtain ⟨henabled, hkeeps⟩ := Bool.and_eq_true_iff.1 hkept
      rw [Bool.not_eq_true', sectionFails, Bool.or_eq_false_iff] at hkeeps
      rw [raises, hkeeps.1, ihbody _ hkeeps.2, Bool.or_false, Bool.and_false, Bool.false_or]
      exact ih hrest
    · exact ih hrest

/-- A script and its pruned form make alike drafts of alike drafts. -/
theorem alike_pruned (t : Script κ) {s s' : σ} (h : Comparable.Alike s s') :
    Comparable.Alike (made t.run s) (made (t.pruned (Draft.registry s)).run s') := by
  induction t generalizing s s' with
  | nothing => exact h
  | call first rest ih =>
    have hrest := ih (LawfulPruning.alike first h)
    rw [registry_eq (LawfulCalls.grown first s)] at hrest
    exact hrest
  | within name body ending rest ihbody ih =>
    have hsame : Draft.registry (made (inModule name body ending) s) = Draft.registry s :=
      registry_eq (grown_inModule name body ending s)
    -- what is left of a section that contributes nothing is alike to what was there before it
    have hgone (hgone : Comparable.Alike (made (inModule name body ending) s) s') :
        Comparable.Alike (made rest.run (made (inModule name body ending) s))
          (made (rest.pruned (Draft.registry s)).run s') := by
      have hrest := ih hgone
      rwa [hsame] at hrest
    show Comparable.Alike (made rest.run (made (inModule name body ending) s)) _
    rw [pruned]
    cases henabled : (Draft.registry s).isEnabled name with
    | false =>
      refine hgone ?_
      rw [inModule, made_withModule_of_disabled henabled]
      exact h
    | true =>
      cases hfails : sectionFails (Draft.registry s) name body ending with
      | true =>
        refine hgone ?_
        obtain ⟨owner, problem, -, hmade⟩ := made_inModule_of_fails henabled hfails
        rw [hmade]
        exact Comparable.rolledBack _ h (grown_run _ _)
      | false =>
        have hregistry : Draft.registry s = Draft.registry s' := Comparable.registry_eq h
        let body' (_ : ModuleState) : Script κ :=
          (body ((Draft.registry s).state name)).pruned (Draft.registry s)
        have hkeeps : sectionFails (Draft.registry s') name body' ending = false := by
          rw [sectionFails, Bool.or_eq_false_iff] at hfails
          rw [← hregistry, sectionFails, hfails.1, raises_pruned hfails.2]
          rfl
        -- both sections are kept, with bodies that are alike by induction
        have hbody := ihbody ((Draft.registry s).state name) (Comparable.enter name h)
        rw [registry_enter] at hbody
        have hsection := Comparable.leave h hbody
        rw [← made_inModule_of_keeps henabled hfails] at hsection
        have hrest := ih hsection
        rw [hsame] at hrest
        have hpruned := made_inModule_of_keeps (hregistry ▸ henabled) hkeeps
        show Comparable.Alike _
          (made (rest.pruned (Draft.registry s)).run (made (inModule name body' ending) s'))
        rw [hpruned]
        exact hrest

end Script

/-! ### The calls of each level -/

instance : Prunable BlockCall where
  prune _ call := call

instance : LawfulPruning BlockCall BlockDraft where
  raises_prune := id
  alike call s s' h := by
    have hadd (op : Operation) :
        BlockDraft.Alike (made (BlockDraft.add op) s) (made (BlockDraft.add op) s') :=
      ⟨h.registry_eq, congrArg (· ++ [op]) h.operations_eq, h.computeFrames_eq⟩
    cases call with
    | add op => exact hadd op
    | replaceConstant source target =>
      show BlockDraft.Alike (made (BlockDraft.replaceConstant source target) s)
        (made (BlockDraft.replaceConstant source target) s')
      rw [BlockDraft.made_replaceConstant, BlockDraft.made_replaceConstant]
      split
      · exact hadd _
      · exact ⟨h.registry_eq, h.operations_eq, h.computeFrames_eq⟩
    | disableFrames => exact ⟨h.registry_eq, h.operations_eq, rfl⟩

namespace MethodRuleCall

/-- A call without the sections that contribute nothing. -/
def pruned (registry : Registry) : MethodRuleCall → MethodRuleCall
  | require clause => require clause
  | transform program => transform (program.pruned registry)

theorem raises_pruned {registry : Registry} {call : MethodRuleCall}
    (h : call.raises registry = false) : (call.pruned registry).raises registry = false := by
  cases call with
  | require clause => rfl
  | transform program => exact Script.raises_pruned h

theorem alike_perform (call : MethodRuleCall) {s s' : MethodRuleDraft} (h : s.Alike s')
    (hregistry : s.opened.registry = s.registry) :
    (made call.perform s).Alike (made (call.pruned s.registry).perform s') := by
  cases call with
  | require clause =>
    exact ⟨h.registry_eq, congrArg (·.add clause) h.pattern_eq, h.block⟩
  | transform program =>
    have hopened : s.opened.Alike s'.opened :=
      MethodRuleDraft.rel_opened h.block ⟨h.registry_eq, rfl, rfl⟩
    have hprogram := Script.alike_pruned program hopened
    rw [show Draft.registry s.opened = s.registry from hregistry] at hprogram
    exact ⟨h.registry_eq, h.pattern_eq, .some hprogram⟩

theorem alike_performAll (calls : List MethodRuleCall) {s s' : MethodRuleDraft} (h : s.Alike s')
    (hregistry : s.opened.registry = s.registry) :
    (made (performAll calls) s).Alike
      (made (performAll (calls.map (pruned s.registry))) s') := by
  induction calls generalizing s s' with
  | nil => exact h
  | cons first rest ih =>
    obtain ⟨hsame, hgrown⟩ := first.grown_perform s
    have hrest := ih (alike_perform first h hregistry)
      ((Growing.registry_eq hgrown).trans (hregistry.trans hsame.symm))
    rw [hsame] at hrest
    exact hrest

end MethodRuleCall

theorem BlockDraft.Alike.map_block {b b' : Option BlockDraft}
    (h : Option.Rel BlockDraft.Alike b b') : b.map BlockDraft.block = b'.map BlockDraft.block := by
  cases h with
  | none => rfl
  | some h => exact congrArg some (congrArg₂ Block.mk h.operations_eq h.computeFrames_eq)

/-- Method rules made of alike drafts are alike, whatever numbers their labels have. -/
theorem MethodsDraft.Alike.register {s s' : MethodsDraft} (h : s.Alike s')
    (program : List MethodRuleCall) {label label' : String}
    (hlabel : label = label' ∨ ∃ n n', label = unnamedLabel n ∧ label' = unnamedLabel n') :
    (made (MethodsDraft.register label (MethodRuleCall.performAll program)) s).Alike
      (made (MethodsDraft.register label'
        (MethodRuleCall.performAll (program.map (MethodRuleCall.pruned s.registry)))) s') := by
  have hempty : MethodRuleDraft.Alike ⟨s.registry, .empty, none⟩ ⟨s'.registry, .empty, none⟩ :=
    ⟨h.registry_eq, rfl, .none⟩
  obtain ⟨-, hpattern, hblock⟩ := MethodRuleCall.alike_performAll program hempty rfl
  -- the rules differ at most in their labels
  have hrule : MethodRule.Alike "" ⟨label, _, _, s.module⟩ ⟨label', _, _, s'.module⟩ :=
    ⟨hpattern, BlockDraft.Alike.map_block hblock, h.module_eq, by simpa using hlabel⟩
  exact ⟨h.registry_eq, h.module_eq, List.rel_append h.methods (.cons hrule .nil)⟩

instance : Prunable MethodsCall where
  prune registry
    | .register label program => .register label (program.map (MethodRuleCall.pruned registry))

instance : LawfulPruning MethodsCall MethodsDraft where
  raises_prune {registry call} h := by
    obtain ⟨label, program⟩ := call
    have hprogram : program.any (MethodRuleCall.raises registry) = false := h
    show (program.map (MethodRuleCall.pruned registry)).any (MethodRuleCall.raises registry) = false
    rw [List.any_eq_false] at hprogram ⊢
    intro call hcall
    obtain ⟨call', hcall', rfl⟩ := List.mem_map.1 hcall
    have hraises := Bool.eq_false_iff.2 (hprogram call' hcall')
    exact Bool.eq_false_iff.1 (MethodRuleCall.raises_pruned hraises)
  alike call s s' h := by
    obtain ⟨label, program⟩ := call
    cases label with
    | some label => exact MethodsDraft.Alike.register h program (.inl rfl)
    | none =>
      have hcounted : MethodsDraft.Alike { s with unnamed := s.unnamed + 1 }
          { s' with unnamed := s'.unnamed + 1 } := ⟨h.registry_eq, h.module_eq, h.methods⟩
      exact hcounted.register program (.inr ⟨_, _, rfl, rfl⟩)

instance : Prunable ClassRuleCall where
  prune registry
    | .inMethods program => .inMethods (program.pruned registry)
    | call => call

instance : LawfulPruning ClassRuleCall ClassRuleDraft where
  raises_prune {registry call} h := by
    cases call with
    | setLabel | require => rfl
    | inMethods program => exact Script.raises_pruned h
  alike call s s' h := by
    cases call with
    | setLabel label =>
      exact ⟨h.registry_eq, h.pattern_eq, rfl, h.module_eq, h.outerModule_eq, h.methods⟩
    | require clause =>
      exact ⟨h.registry_eq, congrArg (·.add clause) h.pattern_eq, h.label_eq,
        h.module_eq, h.outerModule_eq, h.methods⟩
    | inMethods program =>
      have hempty : MethodsDraft.Alike ⟨s.registry, [], [], s.module, s.unnamed⟩
          ⟨s'.registry, [], [], s'.module, s'.unnamed⟩ := ⟨h.registry_eq, h.module_eq, .nil⟩
      have hprogram : MethodsDraft.Alike _ _ := Script.alike_pruned program hempty
      exact ⟨h.registry_eq, h.pattern_eq, h.label_eq, h.module_eq, h.outerModule_eq,
        List.rel_append h.methods hprogram.methods⟩

theorem MethodRule.Alike.isKept_eq {qualifier : String} {r r' : MethodRule}
    (h : r.Alike qualifier r') : r.isKept = r'.isKept := by
  unfold MethodRule.isKept
  rw [h.block_eq]

/-- Finished rules of alike drafts are alike. -/
theorem ClassRuleDraft.Alike.rule {s s' : ClassRuleDraft} (h : s.Alike s') :
    s.rule.Alike s'.rule := by
  have hlabel : s.finalLabel = s'.finalLabel := by
    rw [finalLabel, finalLabel, h.label_eq, h.pattern_eq]
  refine ⟨hlabel, h.pattern_eq, h.outerModule_eq, ?_⟩
  show List.Forall₂ _ ((s.methods.filter MethodRule.isKept).map _)
    ((s'.methods.filter MethodRule.isKept).map _)
  rw [List.forall₂_map_left_iff, List.forall₂_map_right_iff]
  -- of two alike rules both are kept or none
  have hkept : List.Forall₂ (MethodRule.Alike "") (s.methods.filter MethodRule.isKept)
      (s'.methods.filter MethodRule.isKept) :=
    List.rel_filter (fun _ _ hr => iff_of_eq (congrArg (· = true) hr.isKept_eq)) h.methods
  refine hkept.imp fun r r' hr => ⟨hr.pattern_eq, hr.block_eq, hr.module_eq, ?_⟩
  rw [← hlabel]
  refine hr.label.imp (fun hsame => ?_) fun ⟨n, n', hn, hn'⟩ => ⟨n, n', ?_, ?_⟩
  · rw [hsame]
  · rw [hn]
    simp
    rfl
  · rw [hn']
    simp
    rfl

theorem MethodRule.Alike.any_hasWork_eq {qualifier : String} {rs rs' : List MethodRule}
    (h : List.Forall₂ (MethodRule.Alike qualifier) rs rs') :
    rs.any MethodRule.hasWork = rs'.any MethodRule.hasWork := by
  induction h with
  | nil => rfl
  | cons hfirst _ ih =>
    rw [List.any_cons, List.any_cons, ih, MethodRule.hasWork, MethodRule.hasWork, hfirst.block_eq]

/-- Of alike rules both are dropped or none. -/
theorem ClassRule.Alike.worked {r r' : ClassRule} (h : r.Alike r') :
    List.Forall₂ ClassRule.Alike (if r.hasWork then [r] else [])
      (if r'.hasWork then [r'] else []) := by
  have hwork : r.hasWork = r'.hasWork := MethodRule.Alike.any_hasWork_eq h.methods
  rw [hwork]
  split
  · exact .cons h .nil
  · exact .nil

instance : Prunable RulesCall where
  prune registry
    | .findClass program => .findClass (program.pruned registry)

instance : LawfulPruning RulesCall RulesDraft where
  raises_prune {registry call} h := by
    obtain ⟨program⟩ := call
    exact Script.raises_pruned h
  alike call s s' h := by
    obtain ⟨program⟩ := call
    have hempty :
        ClassRuleDraft.Alike (.start s.registry s.module) (.start s'.registry s'.module) :=
      ⟨h.registry_eq, rfl, rfl, h.module_eq, h.module_eq, .nil⟩
    have hprogram : ClassRuleDraft.Alike _ _ := Script.alike_pruned program hempty
    exact ⟨h.registry_eq, h.module_eq, List.rel_append h.rules hprogram.rule.worked⟩

/-! ### All levels -/

/-- On all levels a section that fails is taken back and reported once, one that does not fail is
kept, and one of a module that does not take part does nothing. The rules that come of a script are
those of the script without the sections that fail, apart from the numbers in labels. -/
theorem Script.section_all_or_nothing :
    (∀ name (body : ModuleState → Script BlockCall) ending s,
      SectionSpec (fun s t => t = s) name body ending s) ∧
    (∀ name (body : ModuleState → Script MethodsCall) ending s,
      SectionSpec (fun s t => ∃ n, t = { s with unnamed := n }) name body ending s) ∧
    (∀ name (body : ModuleState → Script ClassRuleCall) ending s,
      SectionSpec (fun s t => ∃ n, t = { s with unnamed := n }) name body ending s) ∧
    (∀ name (body : ModuleState → Script RulesCall) ending s,
      SectionSpec (fun s t => t = s) name body ending s) ∧
    ∀ (registry : Registry) (t : Script RulesCall),
      List.Forall₂ ClassRule.Alike (RulesDraft.rulesOf registry t.run).rules
        (RulesDraft.rulesOf registry (t.pruned registry).run).rules := by
  refine ⟨fun name body ending s => ?_, fun name body ending s => ?_, fun name body ending s => ?_,
    fun name body ending s => ?_, fun registry t => ?_⟩
  · exact .of_restored fun t issues h => ⟨s, rfl, BlockDraft.Grown.rolledBack issues h⟩
  · exact .of_restored fun t issues h =>
      ⟨_, ⟨t.unnamed, rfl⟩, MethodsDraft.Grown.rolledBack issues h⟩
  · exact .of_restored fun t issues h =>
      ⟨_, ⟨t.unnamed, rfl⟩, ClassRuleDraft.Grown.rolledBack issues h⟩
  · exact .of_restored fun t issues h => ⟨s, rfl, RulesDraft.Grown.rolledBack issues h⟩
  · -- a script and what is left of it without the sections that fail
    have hstart : RulesDraft.Alike (.start registry) (.start registry) := ⟨rfl, rfl, .nil⟩
    have hmade : RulesDraft.Alike _ _ := Script.alike_pruned t hstart
    exact hmade.rules

/-- A section that raises nothing and gives up over an option of another module is reported as a
problem of that module, and not as one of its own. -/
theorem Script.section_reported_for_other :
    let s : RulesDraft := .start (Registry.initial.setEnabled .clothCapes true)
    let ending (_ : ModuleState) : Except EditError Unit := do
      let _ ← (s.registry.state .fpsSpoof).text "multiplier"
    let body (_ : ModuleState) : Script RulesCall := .nothing
    let left := made (inModule .clothCapes body ending) s
    s.registry.isEnabled .clothCapes = true ∧
      sectionFails s.registry .clothCapes body ending = true ∧
        (∃ problem, left.issues = s.issues ++ [.module .fpsSpoof problem]) ∧
          ¬∃ problem, left.issues = s.issues ++ [.module .clothCapes problem] := by
  refine ⟨rfl, rfl, ⟨_, rfl⟩, ?_⟩
  rintro ⟨problem, h⟩
  cases h

end ClassEdit
