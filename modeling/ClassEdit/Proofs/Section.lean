import ClassEdit.Scan.Plan
import Mathlib.Data.List.Basic

/-!
# Sections are made completely or not at all

Programs on drafts only add at the ends: to the operations of a block, the method rules, the clauses
of a pattern, the class rules, and the issues. This is why a section that fails can be taken back by
cutting each list down to the length that it had before. What is left is the draft before the
section with one issue more, apart from the number of rules without a name, which goes on counting.

## Main definitions

* `made`: the draft that a program leaves.
* `Growing`: drafts that programs only add to, with `Growing.Grown` between a draft and what became
  of it.

## Main results

* `made_withModule`: what a section makes of a draft.
* `Growing.withModule`: sections only add, whatever their body does, as long as the body only adds.
-/

namespace ClassEdit

/-- The draft that a program leaves. -/
def made {σ : Type} (program : Drafting σ Unit) (s : σ) : σ := (program.run s).2

/-- Drafts that programs only add to. -/
class Growing (σ : Type) [Draft σ] where
  /-- The second draft is the first one with more at its ends. -/
  Grown : σ → σ → Prop
  refl (s : σ) : Grown s s
  trans {s t u : σ} : Grown s t → Grown t u → Grown s u
  registry_eq {s t : σ} : Grown s t → Draft.registry t = Draft.registry s
  exists_raised {s t : σ} : Grown s t → ∃ raised, Draft.issues t = Draft.issues s ++ raised
  setIssues_self (s : σ) : Draft.setIssues s (Draft.issues s) = s
  issues_setIssues (s : σ) (issues : List EditError) :
    Draft.issues (Draft.setIssues s issues) = issues
  registry_enter (name : ModuleName) (s : σ) :
    Draft.registry (Draft.enter name s) = Draft.registry s
  issues_enter (name : ModuleName) (s : σ) : Draft.issues (Draft.enter name s) = Draft.issues s
  issues_leave (s t : σ) : Draft.issues (Draft.leave s t) = Draft.issues t
  leave {name : ModuleName} {s t : σ} : Grown (Draft.enter name s) t → Grown s (Draft.leave s t)
  rollback {name : ModuleName} {s t : σ} (raised : List EditError) : Grown (Draft.enter name s) t →
    Grown s (Draft.setIssues (Draft.rollback (Draft.mark s) (Draft.leave s t))
      (Draft.issues s ++ raised))

/-! ### When a section fails -/

section Failure

variable {name : ModuleName} {result : Except EditError Unit} {raised : List EditError}

theorem sectionFailure?_eq_none_iff :
    sectionFailure? name result raised = none ↔ result = .ok () ∧ raised = [] := by
  cases result with
  | ok => cases raised <;> simp [sectionFailure?]
  | error e => cases e <;> cases raised <;> simp [sectionFailure?]

/-- How a section that fails is reported: if its body was quiet and gave up over a problem of some
module, as this problem, and otherwise as a problem of its own module. -/
structure ReportedAs (name : ModuleName) (quiet : Prop) (result : Except EditError Unit)
    (owner : ModuleName) (problem : ModuleProblem) : Prop where
  passed_on : quiet → ∀ other problem', result = .error (.module other problem') →
    owner = other ∧ problem = problem'
  own : ¬(quiet ∧ ∃ other problem', result = .error (.module other problem')) → owner = name

theorem ReportedAs.congr {quiet quiet' : Prop} {owner : ModuleName} {problem : ModuleProblem}
    (h : ReportedAs name quiet result owner problem) (hquiet : quiet ↔ quiet') :
    ReportedAs name quiet' result owner problem :=
  ⟨fun hq => h.passed_on (hquiet.2 hq), fun hq => h.own (by rwa [hquiet])⟩

/-- A section is reported as one problem of a module. -/
theorem exists_problem_of_sectionFailure? {issue : EditError}
    (h : sectionFailure? name result raised = some issue) : ∃ owner problem,
      issue = .module owner problem ∧ ReportedAs name (raised = []) result owner problem := by
  unfold sectionFailure? at h
  split at h
  · cases h
  · -- the body gave up over a problem of a module, which is passed on
    cases h
    refine ⟨_, _, rfl, fun _ other problem' hresult => ?_, fun hother => ?_⟩
    · cases hresult
      exact ⟨rfl, rfl⟩
    · exact absurd ⟨rfl, _, _, rfl⟩ hother
  · rename_i hnot
    cases h
    refine ⟨_, _, rfl, fun hquiet other problem' hresult => ?_, fun _ => rfl⟩
    exact (hnot other problem' hquiet (Except.error.inj hresult)).elim
  · cases h
    exact ⟨_, _, rfl, fun _ _ _ hresult => (nomatch hresult), fun _ => rfl⟩

end Failure

/-! ### What a section makes of a draft -/

section Section

variable {σ : Type} [Draft σ] [Growing σ] {name : ModuleName} {s : σ}
variable {body : ModuleState → SectionBody σ Unit}

open Growing

omit [Growing σ] in
/-- A section of a module that does not take part makes nothing. -/
theorem made_withModule_of_disabled (h : (Draft.registry s).isEnabled name = false) :
    made (withModule name body) s = s := by
  show (withModule name body s).2 = s
  unfold withModule
  rw [h]
  rfl

/-- The body of a section is kept, or taken back with one issue in the place of what it raised. -/
theorem made_withModule {result : Except EditError Unit} {after : σ} {raised : List EditError}
    (h : (Draft.registry s).isEnabled name = true)
    (hrun : (body ((Draft.registry s).state name)).run (Draft.enter name s) = (result, after))
    (hraised : Draft.issues after = Draft.issues s ++ raised) :
    made (withModule name body) s =
      match sectionFailure? name result raised with
      | none => Draft.leave s after
      | some issue => Draft.setIssues (Draft.rollback (Draft.mark s) (Draft.leave s after))
          (Draft.issues s ++ [issue]) := by
  show (withModule name body s).2 = _
  unfold withModule
  rw [if_pos h, hrun]
  dsimp only
  rw [issues_leave, hraised, List.drop_left, List.take_left]
  cases hfailure : sectionFailure? name result raised with
  | none =>
    obtain ⟨-, rfl⟩ := sectionFailure?_eq_none_iff.1 hfailure
    -- nothing was raised, so setting the issues back changes nothing
    have hissues : Draft.issues (Draft.leave s after) = Draft.issues s := by
      rw [issues_leave, hraised, List.append_nil]
    dsimp only
    rw [← hissues, setIssues_self]
  | some issue => rfl

/-- A section only adds if its body only adds. -/
theorem Growing.withModule (h : ∀ m s, Growing.Grown s ((body m).run s).2) (s : σ) :
    Growing.Grown s (made (withModule name body) s) := by
  cases henabled : (Draft.registry s).isEnabled name with
  | false =>
    rw [made_withModule_of_disabled henabled]
    exact Growing.refl s
  | true =>
    have hbody := h ((Draft.registry s).state name) (Draft.enter name s)
    obtain ⟨raised, hraised⟩ := exists_raised hbody
    rw [issues_enter] at hraised
    rw [made_withModule henabled rfl hraised]
    split
    · exact Growing.leave hbody
    · exact Growing.rollback _ hbody

end Section

/-! ### The four levels -/

/-- The second block has more operations and issues. -/
def BlockDraft.Grown (s t : BlockDraft) : Prop :=
  ∃ operations computeFrames raised,
    t = { s with operations := s.operations ++ operations, computeFrames,
                 issues := s.issues ++ raised }

/-- The second draft has more method rules and issues. -/
def MethodsDraft.Grown (s t : MethodsDraft) : Prop :=
  ∃ methods raised unnamed,
    t = { s with methods := s.methods ++ methods, issues := s.issues ++ raised, unnamed }

/-- The second class rule has more clauses, method rules and issues. -/
def ClassRuleDraft.Grown (s t : ClassRuleDraft) : Prop :=
  ∃ clauses label methods raised unnamed,
    t = { s with pattern := ⟨s.pattern.clauses ++ clauses⟩, label, methods := s.methods ++ methods,
                 issues := s.issues ++ raised, unnamed }

/-- The second draft has more class rules and issues. -/
def RulesDraft.Grown (s t : RulesDraft) : Prop :=
  ∃ rules raised, t = { s with rules := s.rules ++ rules, issues := s.issues ++ raised }

section RolledBack

variable {name : ModuleName} (issues : List EditError)

theorem BlockDraft.Grown.rolledBack {s t : BlockDraft} (h : (Draft.enter name s).Grown t) :
    Draft.setIssues (Draft.rollback (Draft.mark s) (Draft.leave s t)) issues =
      { s with issues } := by
  obtain ⟨operations, computeFrames, raised, rfl⟩ := h
  show ({ s with operations := (s.operations ++ operations).take s.operations.length
                 issues } : BlockDraft) = _
  rw [List.take_left]

/-- The number of rules without a name is not taken back. -/
theorem MethodsDraft.Grown.rolledBack {s t : MethodsDraft} (h : (Draft.enter name s).Grown t) :
    Draft.setIssues (Draft.rollback (Draft.mark s) (Draft.leave s t)) issues =
      { s with issues, unnamed := t.unnamed } := by
  obtain ⟨methods, raised, unnamed, rfl⟩ := h
  show ({ s with methods := (s.methods ++ methods).take s.methods.length
                 issues, unnamed } : MethodsDraft) = _
  rw [List.take_left]

/-- The number of method rules without a name is not taken back. -/
theorem ClassRuleDraft.Grown.rolledBack {s t : ClassRuleDraft} (h : (Draft.enter name s).Grown t) :
    Draft.setIssues (Draft.rollback (Draft.mark s) (Draft.leave s t)) issues =
      { s with issues, unnamed := t.unnamed } := by
  obtain ⟨clauses, label, methods, raised, unnamed, rfl⟩ := h
  show ({ s with pattern := ⟨(s.pattern.clauses ++ clauses).take s.pattern.clauses.length⟩
                 methods := (s.methods ++ methods).take s.methods.length
                 issues, unnamed } : ClassRuleDraft) = _
  rw [List.take_left, List.take_left]

theorem RulesDraft.Grown.rolledBack {s t : RulesDraft} (h : (Draft.enter name s).Grown t) :
    Draft.setIssues (Draft.rollback (Draft.mark s) (Draft.leave s t)) issues =
      { s with issues } := by
  obtain ⟨rules, raised, rfl⟩ := h
  show ({ s with rules := (s.rules ++ rules).take s.rules.length, issues } : RulesDraft) = _
  rw [List.take_left]

end RolledBack

instance : Growing BlockDraft where
  Grown := BlockDraft.Grown
  refl s := ⟨[], s.computeFrames, [], by simp⟩
  trans := by
    rintro s _ _ ⟨operations, _, raised, rfl⟩ ⟨operations', computeFrames, raised', rfl⟩
    exact ⟨operations ++ operations', computeFrames, raised ++ raised', by simp⟩
  registry_eq := by rintro s _ ⟨_, _, _, rfl⟩; rfl
  exists_raised := by rintro s _ ⟨_, _, raised, rfl⟩; exact ⟨raised, rfl⟩
  setIssues_self _ := rfl
  issues_setIssues _ _ := rfl
  registry_enter _ _ := rfl
  issues_enter _ _ := rfl
  issues_leave _ _ := rfl
  leave := id
  rollback raised h := by
    rw [h.rolledBack]
    exact ⟨[], _, raised, by rw [List.append_nil]; rfl⟩

instance : Growing MethodsDraft where
  Grown := MethodsDraft.Grown
  refl s := ⟨[], [], s.unnamed, by simp⟩
  trans := by
    rintro s _ _ ⟨methods, raised, _, rfl⟩ ⟨methods', raised', unnamed, rfl⟩
    exact ⟨methods ++ methods', raised ++ raised', unnamed, by simp⟩
  registry_eq := by rintro s _ ⟨_, _, _, rfl⟩; rfl
  exists_raised := by rintro s _ ⟨_, raised, _, rfl⟩; exact ⟨raised, rfl⟩
  setIssues_self _ := rfl
  issues_setIssues _ _ := rfl
  registry_enter _ _ := rfl
  issues_enter _ _ := rfl
  issues_leave _ _ := rfl
  leave := by
    rintro name s _ ⟨methods, raised, unnamed, rfl⟩
    exact ⟨methods, raised, unnamed, rfl⟩
  rollback raised h := by
    rw [h.rolledBack]
    exact ⟨[], raised, _, by rw [List.append_nil]; rfl⟩

instance : Growing ClassRuleDraft where
  Grown := ClassRuleDraft.Grown
  refl s := ⟨[], s.label, [], [], s.unnamed, by simp⟩
  trans := by
    rintro s _ _ ⟨clauses, _, methods, raised, _, rfl⟩
      ⟨clauses', label, methods', raised', unnamed, rfl⟩
    exact ⟨clauses ++ clauses', label, methods ++ methods', raised ++ raised', unnamed, by simp⟩
  registry_eq := by rintro s _ ⟨_, _, _, _, _, rfl⟩; rfl
  exists_raised := by rintro s _ ⟨_, _, _, raised, _, rfl⟩; exact ⟨raised, rfl⟩
  setIssues_self _ := rfl
  issues_setIssues _ _ := rfl
  registry_enter _ _ := rfl
  issues_enter _ _ := rfl
  issues_leave _ _ := rfl
  leave := by
    rintro name s _ ⟨clauses, label, methods, raised, unnamed, rfl⟩
    exact ⟨clauses, label, methods, raised, unnamed, rfl⟩
  rollback raised h := by
    rw [h.rolledBack]
    exact ⟨[], _, [], raised, _, by rw [List.append_nil, List.append_nil]; rfl⟩

instance : Growing RulesDraft where
  Grown := RulesDraft.Grown
  refl s := ⟨[], [], by simp⟩
  trans := by
    rintro s _ _ ⟨rules, raised, rfl⟩ ⟨rules', raised', rfl⟩
    exact ⟨rules ++ rules', raised ++ raised', by simp⟩
  registry_eq := by rintro s _ ⟨_, _, rfl⟩; rfl
  exists_raised := by rintro s _ ⟨_, raised, rfl⟩; exact ⟨raised, rfl⟩
  setIssues_self _ := rfl
  issues_setIssues _ _ := rfl
  registry_enter _ _ := rfl
  issues_enter _ _ := rfl
  issues_leave _ _ := rfl
  leave := by
    rintro name s _ ⟨rules, raised, rfl⟩
    exact ⟨rules, raised, rfl⟩
  rollback raised h := by
    rw [h.rolledBack]
    exact ⟨[], raised, by rw [List.append_nil]; rfl⟩

end ClassEdit
