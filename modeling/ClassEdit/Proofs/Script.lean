import ClassEdit.Proofs.Section

/-!
# Scripts

A script is a program on a draft written down: a sequence of calls and sections, where the body of a
section is a script again and a call can have scripts for the drafts that it works with inside. The
calls of each level are given by what they do to a draft and by whether they raise an issue, which
for a call with scripts inside is the case if something in them does. A section raises an issue if
its module takes part and its body either gives up or raises one.

## Main definitions

* `Script`, `Calls`: scripts, and the calls that they are made of.
* `Script.run`, `Script.raises`: the program that a script is, and whether it raises an issue.
* `Script.sectionFails`: whether a section fails, as its body gives up or raises an issue.
* `BlockCall`, `MethodRuleCall`, `MethodsCall`, `ClassRuleCall`, `RulesCall`: the calls of each
  level.

## Main results

* `Script.made_sectionBody_of_ok`, `Script.made_sectionBody_of_fails`: what a section with a given
  ending makes of a draft.
* `Script.grown_run`: scripts only add.
* `Script.issues_run_eq_iff`: a script leaves the issues alone exactly if it raises none.
-/

namespace ClassEdit

/-- A sequence of calls and of sections, each with its module, its body, and how the body ends. -/
inductive Script (κ : Type) where
  | nothing
  | call (first : κ) (rest : Script κ)
  | within (name : ModuleName) (body : ModuleState → Script κ)
      (ending : ModuleState → Except EditError Unit) (rest : Script κ)

/-- Calls that a draft answers to. -/
class Calls (κ : Type) (σ : outParam Type) [Draft σ] where
  perform : κ → Drafting σ Unit
  /-- Whether the call raises an issue. -/
  raises : Registry → κ → Bool

namespace Script

variable {κ σ : Type} [Draft σ] [Calls κ σ]

/-- The body of a section: it runs a program and comes to an end. -/
def sectionBody (body : ModuleState → Drafting σ Unit)
    (ending : ModuleState → Except EditError Unit) (m : ModuleState) : SectionBody σ Unit :=
  fun s => (ending m, made (body m) s)

/-- The program that a script is. -/
def run : Script κ → Drafting σ Unit
  | nothing => pure ()
  | call first rest => do
    Calls.perform first
    rest.run
  | within name body ending rest => do
    withModule name (sectionBody (fun m => (body m).run) ending)
    rest.run

/-- Whether a script raises an issue. -/
def raises (registry : Registry) : Script κ → Bool
  | nothing => false
  | call first rest => Calls.raises registry first || rest.raises registry
  | within name body ending rest =>
    registry.isEnabled name && (!(ending (registry.state name)).isOk ||
      (body (registry.state name)).raises registry) || rest.raises registry

/-- Whether a section fails when its module takes part. -/
def sectionFails (registry : Registry) (name : ModuleName) (body : ModuleState → Script κ)
    (ending : ModuleState → Except EditError Unit) : Bool :=
  !(ending (registry.state name)).isOk || (body (registry.state name)).raises registry

/-- The section of a module with a script as its body. -/
def inModule (name : ModuleName) (body : ModuleState → Script κ)
    (ending : ModuleState → Except EditError Unit) : Drafting σ Unit :=
  withModule name (sectionBody (fun m => (body m).run) ending)

end Script

/-- Calls that only add, and that raise issues as they say. -/
class LawfulCalls (κ σ : Type) [Draft σ] [Growing σ] [Calls κ σ] : Prop where
  grown (call : κ) (s : σ) : Growing.Grown s (made (Calls.perform call) s)
  issues_eq_iff (call : κ) (s : σ) :
    Draft.issues (made (Calls.perform call) s) = Draft.issues s ↔
      Calls.raises (Draft.registry s) call = false

/-! ### Sections with a program and an ending -/

/-- An ending that does not give up over a problem of another module. -/
def OwnEnding (name : ModuleName) (ending : Except EditError Unit) : Prop :=
  ∀ other problem, ending = .error (.module other problem) → other = name

/-- A section that gives up over problems of its own module only is reported as such a problem. -/
theorem ReportedAs.owner_eq {name owner : ModuleName} {quiet : Prop}
    {ending : Except EditError Unit} {problem : ModuleProblem}
    (h : ReportedAs name quiet ending owner problem) (hown : OwnEnding name ending) :
    owner = name := by
  by_cases hpassed : quiet ∧ ∃ other problem', ending = .error (.module other problem')
  · obtain ⟨hquiet, other, problem', hending⟩ := hpassed
    rw [(h.passed_on hquiet other problem' hending).1, hown other problem' hending]
  · exact h.own hpassed

theorem isOk_iff {ε : Type} {result : Except ε Unit} : result.isOk = true ↔ result = .ok () := by
  cases result with
  | ok => exact iff_of_true rfl rfl
  | error e => exact iff_of_false (fun h => nomatch h) (fun h => nomatch h)

namespace Script

variable {σ : Type} [Draft σ] [Growing σ] {name : ModuleName} {s after : σ}
variable {program : ModuleState → Drafting σ Unit} {ending : ModuleState → Except EditError Unit}

open Growing

/-- A section whose body comes to a good end and raises nothing is kept. -/
theorem made_sectionBody_of_ok (henabled : (Draft.registry s).isEnabled name = true)
    (hafter : made (program ((Draft.registry s).state name)) (Draft.enter name s) = after)
    (hending : ending ((Draft.registry s).state name) = .ok ())
    (hissues : Draft.issues after = Draft.issues s) :
    made (withModule name (sectionBody program ending)) s = Draft.leave s after := by
  have hrun : (sectionBody program ending ((Draft.registry s).state name)).run
      (Draft.enter name s) = (.ok (), after) := by
    show (_, _) = _
    rw [hending, hafter]
  have hraised : Draft.issues after = Draft.issues s ++ [] := by rw [hissues, List.append_nil]
  rw [made_withModule henabled hrun hraised]
  rfl

/-- A section whose body gives up or raises something is taken back and reported. -/
theorem made_sectionBody_of_fails (henabled : (Draft.registry s).isEnabled name = true)
    (hafter : made (program ((Draft.registry s).state name)) (Draft.enter name s) = after)
    (hgrown : Growing.Grown (Draft.enter name s) after)
    (hfails : ¬ (ending ((Draft.registry s).state name) = .ok () ∧
      Draft.issues after = Draft.issues s)) :
    ∃ owner problem,
      ReportedAs name (Draft.issues after = Draft.issues s)
        (ending ((Draft.registry s).state name)) owner problem ∧
      made (withModule name (sectionBody program ending)) s =
        Draft.setIssues (Draft.rollback (Draft.mark s) (Draft.leave s after))
          (Draft.issues s ++ [.module owner problem]) := by
  obtain ⟨raised, hraised⟩ := exists_raised hgrown
  rw [issues_enter] at hraised
  -- the program comes first and raises what it raises; the ending is the result of the section
  have hrun : (sectionBody program ending ((Draft.registry s).state name)).run
      (Draft.enter name s) = (ending ((Draft.registry s).state name), after) := by
    rw [← hafter]
    rfl
  have hmade := made_withModule henabled hrun hraised
  cases hissue : sectionFailure? name (ending ((Draft.registry s).state name)) raised with
  | none =>
    obtain ⟨hok, rfl⟩ := sectionFailure?_eq_none_iff.1 hissue
    exact absurd ⟨hok, by rw [hraised, List.append_nil]⟩ hfails
  | some issue =>
    obtain ⟨owner, problem, rfl, hreported⟩ := exists_problem_of_sectionFailure? hissue
    rw [hissue] at hmade
    refine ⟨owner, problem, hreported.congr ?_, hmade⟩
    rw [hraised, List.append_right_eq_self]

/-- A section leaves the issues alone exactly if its body comes to a good end and raises none. -/
theorem issues_sectionBody_eq_iff (henabled : (Draft.registry s).isEnabled name = true)
    (hafter : made (program ((Draft.registry s).state name)) (Draft.enter name s) = after)
    (hgrown : Growing.Grown (Draft.enter name s) after) :
    Draft.issues (made (withModule name (sectionBody program ending)) s) = Draft.issues s ↔
      ending ((Draft.registry s).state name) = .ok () ∧ Draft.issues after = Draft.issues s := by
  by_cases h : ending ((Draft.registry s).state name) = .ok () ∧ Draft.issues after = Draft.issues s
  · rw [made_sectionBody_of_ok henabled hafter h.1 h.2, issues_leave]
    exact iff_of_true h.2 h
  · obtain ⟨owner, problem, -, hmade⟩ := made_sectionBody_of_fails henabled hafter hgrown h
    rw [hmade, issues_setIssues]
    exact iff_of_false (by simp) h

end Script

/-! ### What scripts do in general -/

namespace Script

variable {κ σ : Type} [Draft σ] [Growing σ] [Calls κ σ] [LawfulCalls κ σ]

open Growing

/-- Scripts only add. -/
theorem grown_run (t : Script κ) (s : σ) : Growing.Grown s (made t.run s) := by
  induction t generalizing s with
  | nothing => exact Growing.refl s
  | call first rest ih =>
    exact Growing.trans (LawfulCalls.grown first s) (ih (made (Calls.perform first) s))
  | within name body ending rest ihbody ih =>
    have hsection : Growing.Grown s (made (inModule name body ending) s) :=
      Growing.withModule ihbody s
    exact Growing.trans hsection (ih (made (inModule name body ending) s))

theorem grown_inModule (name : ModuleName) (body : ModuleState → Script κ)
    (ending : ModuleState → Except EditError Unit) (s : σ) :
    Growing.Grown s (made (inModule name body ending) s) :=
  Growing.withModule (fun m => grown_run (body m)) s

/-- Issues that grow twice are the same as before only if they grew neither time. -/
theorem issues_eq_iff_of_grown {s t u : σ} (hst : Growing.Grown s t) (htu : Growing.Grown t u) :
    Draft.issues u = Draft.issues s ↔
      Draft.issues t = Draft.issues s ∧ Draft.issues u = Draft.issues t := by
  obtain ⟨raised, hraised⟩ := exists_raised hst
  obtain ⟨raised', hraised'⟩ := exists_raised htu
  rw [hraised', hraised]
  simp

/-- A script leaves the issues alone exactly if it raises none. -/
theorem issues_run_eq_iff (t : Script κ) (s : σ) :
    Draft.issues (made t.run s) = Draft.issues s ↔ t.raises (Draft.registry s) = false := by
  -- along the script; issues are never taken back, so each part answers for itself
  induction t generalizing s with
  | nothing => exact iff_of_true rfl rfl
  | call first rest ih =>
    have hfirst := LawfulCalls.grown first s
    have hrest := grown_run rest (made (Calls.perform first) s)
    show Draft.issues (made rest.run (made (Calls.perform first) s)) = Draft.issues s ↔ _
    rw [issues_eq_iff_of_grown hfirst hrest, LawfulCalls.issues_eq_iff, ih, registry_eq hfirst,
      raises, Bool.or_eq_false_iff]
  | within name body ending rest ihbody ih =>
    have hfirst := grown_inModule name body ending s
    have hrest := grown_run rest (made (inModule name body ending) s)
    show Draft.issues (made rest.run (made (inModule name body ending) s)) = Draft.issues s ↔ _
    rw [issues_eq_iff_of_grown hfirst hrest, ih, registry_eq hfirst, raises, Bool.or_eq_false_iff]
    refine and_congr_left' ?_
    cases henabled : (Draft.registry s).isEnabled name with
    | false =>
      rw [inModule, made_withModule_of_disabled henabled]
      exact iff_of_true rfl rfl
    | true =>
      have hbody := ihbody ((Draft.registry s).state name) (Draft.enter name s)
      rw [issues_enter, registry_enter] at hbody
      rw [inModule, issues_sectionBody_eq_iff henabled rfl (grown_run _ _), hbody, Bool.true_and,
        Bool.or_eq_false_iff, Bool.not_eq_false', isOk_iff]

end Script

/-! ### The calls of a block -/

/-- Calls on a block. All operations but the replacement of a constant are added as they are. -/
inductive BlockCall where
  | add (op : Operation)
  | replaceConstant (source target : Constant)
  | disableFrames

/-- A constant of another kind raises an issue, and one of the same kind gives an operation. -/
theorem BlockDraft.made_replaceConstant (source target : Constant) (s : BlockDraft) :
    made (BlockDraft.replaceConstant source target) s =
      if source.kind = target.kind then made (BlockDraft.add (.replaceConstant source target)) s
      else { s with issues := s.issues ++ [.kindMismatch source.kind target.kind] } := by
  unfold BlockDraft.replaceConstant Operation.replacingConstant
  by_cases h : source.kind = target.kind
  · rw [if_pos h, if_pos h]
  · rw [if_neg h, if_neg h]
    rfl

instance : Calls BlockCall BlockDraft where
  perform
    | .add op => BlockDraft.add op
    | .replaceConstant source target => BlockDraft.replaceConstant source target
    | .disableFrames => BlockDraft.disableFrames
  raises
    | _, .replaceConstant source target => source.kind ≠ target.kind
    | _, _ => false

instance : LawfulCalls BlockCall BlockDraft where
  grown call s := by
    cases call with
    | add op => exact ⟨[op], s.computeFrames, [], by rw [List.append_nil]; rfl⟩
    | replaceConstant source target =>
      show BlockDraft.Grown s (made (BlockDraft.replaceConstant source target) s)
      rw [BlockDraft.made_replaceConstant]
      split
      · exact ⟨[.replaceConstant source target], s.computeFrames, [], by rw [List.append_nil]; rfl⟩
      · exact ⟨[], s.computeFrames, [_], by rw [List.append_nil]⟩
    | disableFrames =>
      exact ⟨[], false, [], by rw [List.append_nil, List.append_nil]; rfl⟩
  issues_eq_iff call s := by
    cases call with
    | add op => exact iff_of_true rfl rfl
    | replaceConstant source target =>
      show Draft.issues (made (BlockDraft.replaceConstant source target) s) = _ ↔
        decide (source.kind ≠ target.kind) = false
      rw [BlockDraft.made_replaceConstant]
      by_cases h : source.kind = target.kind
      · rw [if_pos h]
        exact iff_of_true rfl (decide_eq_false (not_not.2 h))
      · rw [if_neg h]
        refine iff_of_false (fun hissues => ?_) (by simpa using h)
        have hgrown : s.issues ++ [.kindMismatch source.kind target.kind] = s.issues := hissues
        simp at hgrown
    | disableFrames => exact iff_of_true rfl rfl

/-! ### The calls of a method rule -/

/-- Calls on a method rule. -/
inductive MethodRuleCall where
  | require (clause : MethodClause)
  | transform (program : Script BlockCall)

/-- The block of a method rule, which is empty until the rule gets operations. -/
def MethodRuleDraft.opened (s : MethodRuleDraft) : BlockDraft := s.block.getD (.start s.registry)

/-- Blocks are opened alike if they are alike once they are there, and so are empty ones. -/
theorem MethodRuleDraft.rel_opened {R : BlockDraft → BlockDraft → Prop} {s s' : MethodRuleDraft}
    (h : Option.Rel R s.block s'.block) (hstart : R (.start s.registry) (.start s'.registry)) :
    R s.opened s'.opened := by
  unfold opened
  generalize s.block = block at h ⊢
  generalize s'.block = block' at h ⊢
  cases h with
  | some h => exact h
  | none => exact hstart

namespace MethodRuleCall

/-- What a call does to a method rule. -/
def perform : MethodRuleCall → Drafting MethodRuleDraft Unit
  | require clause => MethodRuleDraft.require clause
  | transform program => MethodRuleDraft.transform program.run

/-- Whether a call raises an issue. -/
def raises (registry : Registry) : MethodRuleCall → Bool
  | require _ => false
  | transform program => program.raises registry

/-- Calls one after the other. -/
def performAll : List MethodRuleCall → Drafting MethodRuleDraft Unit
  | [] => pure ()
  | first :: rest => do
    first.perform
    performAll rest

theorem grown_perform (call : MethodRuleCall) (s : MethodRuleDraft) :
    (made call.perform s).registry = s.registry ∧
      Growing.Grown s.opened (made call.perform s).opened := by
  cases call with
  | require clause => exact ⟨rfl, Growing.refl s.opened⟩
  | transform program => exact ⟨rfl, Script.grown_run program s.opened⟩

theorem grown_performAll (calls : List MethodRuleCall) (s : MethodRuleDraft) :
    Growing.Grown s.opened (made (performAll calls) s).opened := by
  induction calls generalizing s with
  | nil => exact Growing.refl s.opened
  | cons first rest ih => exact Growing.trans (first.grown_perform s).2 (ih (made first.perform s))

/-- Calls on a method rule raise what the scripts of its block raise. -/
theorem issues_performAll_eq_iff (calls : List MethodRuleCall) {s : MethodRuleDraft}
    (hregistry : s.opened.registry = s.registry) :
    (made (performAll calls) s).opened.issues = s.opened.issues ↔
      calls.any (raises s.registry) = false := by
  induction calls generalizing s with
  | nil => exact iff_of_true rfl rfl
  | cons first rest ih =>
    obtain ⟨hsame, hfirst⟩ := first.grown_perform s
    have hrest := grown_performAll rest (made first.perform s)
    -- the block that is opened belongs to the registry of the rule from the first call on
    have hopened : (made first.perform s).opened.registry = (made first.perform s).registry :=
      (Growing.registry_eq hfirst).trans (hregistry.trans hsame.symm)
    have hissues : (made first.perform s).opened.issues = s.opened.issues ↔
        first.raises s.registry = false := by
      cases first with
      | require clause => exact iff_of_true rfl rfl
      | transform program =>
        rw [← hregistry]
        exact Script.issues_run_eq_iff program s.opened
    show (made (performAll rest) (made first.perform s)).opened.issues = s.opened.issues ↔ _
    rw [List.any_cons, Bool.or_eq_false_iff, ← hissues, ← hsame, ← ih hopened]
    exact Script.issues_eq_iff_of_grown hfirst hrest

end MethodRuleCall

/-! ### The calls on method rules, class rules and all rules -/

/-- Calls on the method rules of a class. -/
inductive MethodsCall where
  /-- A method rule, under a label if it has one. -/
  | register (label : Option String) (program : List MethodRuleCall)

instance : Calls MethodsCall MethodsDraft where
  perform
    | .register (some label) program =>
      MethodsDraft.method label (MethodRuleCall.performAll program)
    | .register none program => MethodsDraft.unnamedMethod (MethodRuleCall.performAll program)
  raises registry
    | .register _ program => program.any (MethodRuleCall.raises registry)

/-- What a new method rule adds. -/
theorem MethodsDraft.made_register (label : String) (program : List MethodRuleCall)
    (s : MethodsDraft) :
    ∃ rule raised, made (register label (MethodRuleCall.performAll program)) s =
        { s with methods := s.methods ++ [rule], issues := s.issues ++ raised } ∧
      (raised = [] ↔ program.any (MethodRuleCall.raises s.registry) = false) := by
  refine ⟨_, _, rfl, ?_⟩
  rw [← MethodRuleCall.issues_performAll_eq_iff program
    (rfl : (MethodRuleDraft.mk s.registry .empty none).opened.registry = s.registry)]
  show ((made (MethodRuleCall.performAll program) ⟨s.registry, .empty, none⟩).block.map
    BlockDraft.issues).getD [] = [] ↔ _
  cases h : (made (MethodRuleCall.performAll program) ⟨s.registry, .empty, none⟩).block with
  | none => exact iff_of_true rfl (by rw [MethodRuleDraft.opened, h]; rfl)
  | some block =>
    rw [MethodRuleDraft.opened, h]
    exact Iff.rfl

/-- A method rule without a name is counted and then made with its number. -/
theorem MethodsDraft.made_unnamedMethod {program : Drafting MethodRuleDraft Unit}
    {s : MethodsDraft} : made (unnamedMethod program) s =
      made (register (unnamedLabel (s.unnamed + 1)) program) { s with unnamed := s.unnamed + 1 } :=
  rfl

instance : LawfulCalls MethodsCall MethodsDraft where
  grown call s := by
    obtain ⟨label, program⟩ := call
    cases label with
    | some label =>
      obtain ⟨rule, raised, hmade, -⟩ := MethodsDraft.made_register label program s
      exact ⟨[rule], raised, s.unnamed, hmade⟩
    | none =>
      obtain ⟨rule, raised, hmade, -⟩ := MethodsDraft.made_register
        (MethodsDraft.unnamedLabel (s.unnamed + 1)) program { s with unnamed := s.unnamed + 1 }
      exact ⟨[rule], raised, s.unnamed + 1, hmade⟩
  issues_eq_iff call s := by
    obtain ⟨label, program⟩ := call
    cases label with
    | some label =>
      obtain ⟨rule, raised, hmade, hraised⟩ := MethodsDraft.made_register label program s
      refine Iff.trans ?_ hraised
      show Draft.issues (made (MethodsDraft.register label _) s) = _ ↔ _
      rw [hmade]
      exact List.append_right_eq_self
    | none =>
      obtain ⟨rule, raised, hmade, hraised⟩ := MethodsDraft.made_register
        (MethodsDraft.unnamedLabel (s.unnamed + 1)) program { s with unnamed := s.unnamed + 1 }
      refine Iff.trans ?_ hraised
      show Draft.issues
        (made (MethodsDraft.register _ _) { s with unnamed := s.unnamed + 1 }) = _ ↔ _
      rw [hmade]
      exact List.append_right_eq_self

/-- Calls on a class rule. -/
inductive ClassRuleCall where
  | setLabel (label : String)
  | require (clause : ClassClause)
  | inMethods (program : Script MethodsCall)

instance : Calls ClassRuleCall ClassRuleDraft where
  perform
    | .setLabel label => ClassRuleDraft.setLabel label
    | .require clause => ClassRuleDraft.require clause
    | .inMethods program => ClassRuleDraft.inMethods program.run
  raises
    | registry, .inMethods program => program.raises registry
    | _, _ => false

instance : LawfulCalls ClassRuleCall ClassRuleDraft where
  grown call s := by
    cases call with
    | setLabel label => exact ⟨[], some label, [], [], s.unnamed, by simp; rfl⟩
    | require clause => exact ⟨[clause], s.label, [], [], s.unnamed, by simp; rfl⟩
    | inMethods program =>
      obtain ⟨methods, raised, unnamed, hmade⟩ :=
        Script.grown_run program (MethodsDraft.mk s.registry [] [] s.module s.unnamed)
      refine ⟨[], s.label, methods, raised, unnamed, ?_⟩
      show ({ s with methods := s.methods ++ (made program.run _).methods
                     issues := s.issues ++ (made program.run _).issues
                     unnamed := (made program.run _).unnamed } : ClassRuleDraft) = _
      rw [hmade, List.append_nil]
      rfl
  issues_eq_iff call s := by
    cases call with
    | setLabel label => exact iff_of_true rfl rfl
    | require clause => exact iff_of_true rfl rfl
    | inMethods program =>
      refine Iff.trans ?_ (Script.issues_run_eq_iff program
        (MethodsDraft.mk s.registry [] [] s.module s.unnamed))
      exact List.append_right_eq_self

/-- Calls on all rules. -/
inductive RulesCall where
  | findClass (program : Script ClassRuleCall)

instance : Calls RulesCall RulesDraft where
  perform
    | .findClass program => RulesDraft.findClass program.run
  raises registry
    | .findClass program => program.raises registry

instance : LawfulCalls RulesCall RulesDraft where
  grown call s := by
    obtain ⟨program⟩ := call
    exact ⟨_, _, rfl⟩
  issues_eq_iff call s := by
    obtain ⟨program⟩ := call
    refine Iff.trans ?_
      (Script.issues_run_eq_iff program (ClassRuleDraft.start s.registry s.module))
    exact List.append_right_eq_self

end ClassEdit
