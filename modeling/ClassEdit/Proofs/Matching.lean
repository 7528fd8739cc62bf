import ClassEdit.Proofs.Script

/-!
# What a script depends on

A script looks at a registry only where its sections read the states of their modules. So two
registries that agree about these modules make the same drafts, and nothing gets into a draft but
what the calls of the script put there. Both are shown at once: drafts match if they are the same
but for the registry, and everything in them keeps to a style, which says what operations and
clauses there may be and of which modules there may be sections.

At the level of all rules, what is there before a script runs plays no part in what it adds.

## Main definitions

* `Style`: what there may be in a script.
* `Script.Keeps`: scripts that keep to a style.
* `Registry.Agree`: registries that differ at most in modules of which there are no sections.
* `Matching`: drafts that match, with `Matching.Matched` between them.
* `RulesDraft.onto`: the additions of one draft, put behind what another one has.

## Main results

* `Script.matched_run`: a script takes matching drafts to matching drafts.
* `RulesDraft.made_run_onto`: a script on all rules adds the same whatever is there.
-/

namespace ClassEdit

/-- What operations and clauses there may be in a script, and of which modules it may have
sections. -/
structure Style where
  module : ModuleName → Prop
  classClause : ClassClause → Prop
  methodClause : MethodClause → Prop
  operation : Operation → Prop

namespace Style

variable (style : Style)

/-- An issue that is no problem of a module without sections. -/
def Issue (issue : EditError) : Prop :=
  ∀ name problem, issue = .module name problem → style.module name

/-- A method rule whose clauses and operations keep to the style. -/
structure MethodRule (r : ClassEdit.MethodRule) : Prop where
  clauses : ∀ clause ∈ r.pattern.clauses, style.methodClause clause
  operations : ∀ b ∈ r.block, ∀ op ∈ b.operations, style.operation op

/-- A class rule whose clauses and method rules keep to the style. -/
structure ClassRule (r : ClassEdit.ClassRule) : Prop where
  clauses : ∀ clause ∈ r.pattern.clauses, style.classClause clause
  methods : ∀ m ∈ r.methods, style.MethodRule m

end Style

/-- Registries that agree on which modules take part and on the states of those that do, as far as
there may be sections of them. -/
def Registry.Agree (style : Style) (r r' : Registry) : Prop :=
  ∀ name, style.module name → r.isEnabled name = r'.isEnabled name ∧
    (r.isEnabled name = true → r.state name = r'.state name)

theorem Registry.Agree.refl (style : Style) (registry : Registry) : registry.Agree style registry :=
  fun _ _ => ⟨rfl, fun _ => rfl⟩

/-- Calls that can keep to a style. -/
class Styled (κ : Type) where
  Keeps : Style → κ → Prop

/-- A script that keeps to a style. A section gives up over the problems of its own module only. -/
def Script.Keeps {κ : Type} [Styled κ] (style : Style) : Script κ → Prop
  | nothing => True
  | call first rest => Styled.Keeps style first ∧ rest.Keeps style
  | within name body ending rest =>
    style.module name ∧ (∀ m, (body m).Keeps style) ∧ (∀ m, OwnEnding m.name (ending m)) ∧
      rest.Keeps style

/-! ### Drafts that match -/

/-- Blocks that match. -/
structure BlockDraft.Matched (style : Style) (s s' : BlockDraft) : Prop where
  agree : s.registry.Agree style s'.registry
  same : ∃ registry, s' = { s with registry }
  issues : ∀ issue ∈ s.issues, style.Issue issue
  operations : ∀ op ∈ s.operations, style.operation op

/-- Method rules under construction that match. -/
structure MethodRuleDraft.Matched (style : Style) (s s' : MethodRuleDraft) : Prop where
  agree : s.registry.Agree style s'.registry
  pattern_eq : s'.pattern = s.pattern
  clauses : ∀ clause ∈ s.pattern.clauses, style.methodClause clause
  block : Option.Rel (BlockDraft.Matched style) s.block s'.block

/-- Drafts of method rules that match. -/
structure MethodsDraft.Matched (style : Style) (s s' : MethodsDraft) : Prop where
  agree : s.registry.Agree style s'.registry
  same : ∃ registry, s' = { s with registry }
  issues : ∀ issue ∈ s.issues, style.Issue issue
  methods : ∀ r ∈ s.methods, style.MethodRule r

/-- Class rules under construction that match. -/
structure ClassRuleDraft.Matched (style : Style) (s s' : ClassRuleDraft) : Prop where
  agree : s.registry.Agree style s'.registry
  same : ∃ registry, s' = { s with registry }
  issues : ∀ issue ∈ s.issues, style.Issue issue
  clauses : ∀ clause ∈ s.pattern.clauses, style.classClause clause
  methods : ∀ r ∈ s.methods, style.MethodRule r

/-- Drafts of class rules that match. -/
structure RulesDraft.Matched (style : Style) (s s' : RulesDraft) : Prop where
  agree : s.registry.Agree style s'.registry
  same : ∃ registry, s' = { s with registry }
  issues : ∀ issue ∈ s.issues, style.Issue issue
  rules : ∀ r ∈ s.rules, style.ClassRule r

/-- Drafts that can match. What is added in a section can be taken back from both. -/
class Matching (σ : Type) [Draft σ] [Growing σ] where
  Matched : Style → σ → σ → Prop
  agree {style : Style} {s s' : σ} : Matched style s s' →
    (Draft.registry s).Agree style (Draft.registry s')
  issues_eq {style : Style} {s s' : σ} : Matched style s s' → Draft.issues s' = Draft.issues s
  issues {style : Style} {s s' : σ} : Matched style s s' →
    ∀ issue ∈ Draft.issues s, style.Issue issue
  enter {style : Style} {s s' : σ} (name : ModuleName) : Matched style s s' →
    Matched style (Draft.enter name s) (Draft.enter name s')
  leave {style : Style} {s s' t t' : σ} : Matched style s s' → Matched style t t' →
    Matched style (Draft.leave s t) (Draft.leave s' t')
  rolledBack {style : Style} {s s' t t' : σ} {name : ModuleName} {issues : List EditError} :
    Matched style s s' → Matched style t t' → Growing.Grown (Draft.enter name s) t →
      Growing.Grown (Draft.enter name s') t' → (∀ issue ∈ issues, style.Issue issue) →
        Matched style
          (Draft.setIssues (Draft.rollback (Draft.mark s) (Draft.leave s t)) issues)
          (Draft.setIssues (Draft.rollback (Draft.mark s') (Draft.leave s' t')) issues)

section Instances

variable {style : Style}

instance : Matching BlockDraft where
  Matched := BlockDraft.Matched
  agree h := h.agree
  issues_eq h := by obtain ⟨_, rfl⟩ := h.same; rfl
  issues h := h.issues
  enter _ h := h
  leave _ h := h
  rolledBack h _ hgrown hgrown' hissues := by
    rw [BlockDraft.Grown.rolledBack _ hgrown, BlockDraft.Grown.rolledBack _ hgrown']
    obtain ⟨registry, rfl⟩ := h.same
    exact ⟨h.agree, ⟨registry, rfl⟩, hissues, h.operations⟩

instance : Matching MethodsDraft where
  Matched := MethodsDraft.Matched
  agree h := h.agree
  issues_eq h := by obtain ⟨_, rfl⟩ := h.same; rfl
  issues h := h.issues
  enter _ h := by
    obtain ⟨registry, rfl⟩ := h.same
    exact ⟨h.agree, ⟨registry, rfl⟩, h.issues, h.methods⟩
  leave hbefore h := by
    obtain ⟨_, rfl⟩ := hbefore.same
    obtain ⟨registry, rfl⟩ := h.same
    exact ⟨h.agree, ⟨registry, rfl⟩, h.issues, h.methods⟩
  rolledBack h ht hgrown hgrown' hissues := by
    rw [MethodsDraft.Grown.rolledBack _ hgrown, MethodsDraft.Grown.rolledBack _ hgrown']
    obtain ⟨_, rfl⟩ := ht.same
    obtain ⟨registry, rfl⟩ := h.same
    exact ⟨h.agree, ⟨registry, rfl⟩, hissues, h.methods⟩

instance : Matching ClassRuleDraft where
  Matched := ClassRuleDraft.Matched
  agree h := h.agree
  issues_eq h := by obtain ⟨_, rfl⟩ := h.same; rfl
  issues h := h.issues
  enter _ h := by
    obtain ⟨registry, rfl⟩ := h.same
    exact ⟨h.agree, ⟨registry, rfl⟩, h.issues, h.clauses, h.methods⟩
  leave hbefore h := by
    obtain ⟨_, rfl⟩ := hbefore.same
    obtain ⟨registry, rfl⟩ := h.same
    exact ⟨h.agree, ⟨registry, rfl⟩, h.issues, h.clauses, h.methods⟩
  rolledBack h ht hgrown hgrown' hissues := by
    rw [ClassRuleDraft.Grown.rolledBack _ hgrown, ClassRuleDraft.Grown.rolledBack _ hgrown']
    obtain ⟨_, rfl⟩ := ht.same
    obtain ⟨registry, rfl⟩ := h.same
    exact ⟨h.agree, ⟨registry, rfl⟩, hissues, h.clauses, h.methods⟩

instance : Matching RulesDraft where
  Matched := RulesDraft.Matched
  agree h := h.agree
  issues_eq h := by obtain ⟨_, rfl⟩ := h.same; rfl
  issues h := h.issues
  enter _ h := by
    obtain ⟨registry, rfl⟩ := h.same
    exact ⟨h.agree, ⟨registry, rfl⟩, h.issues, h.rules⟩
  leave hbefore h := by
    obtain ⟨_, rfl⟩ := hbefore.same
    obtain ⟨registry, rfl⟩ := h.same
    exact ⟨h.agree, ⟨registry, rfl⟩, h.issues, h.rules⟩
  rolledBack h _ hgrown hgrown' hissues := by
    rw [RulesDraft.Grown.rolledBack _ hgrown, RulesDraft.Grown.rolledBack _ hgrown']
    obtain ⟨registry, rfl⟩ := h.same
    exact ⟨h.agree, ⟨registry, rfl⟩, hissues, h.rules⟩

end Instances

/-! ### Scripts that keep to a style -/

/-- Calls that take matching drafts to matching drafts, if they keep to the style. -/
class StyledCalls (κ σ : Type) [Draft σ] [Growing σ] [Matching σ] [Calls κ σ] [Styled κ] :
    Prop where
  matched {style : Style} {call : κ} {s s' : σ} : Styled.Keeps style call →
    Matching.Matched style s s' →
      Matching.Matched style (made (Calls.perform call) s) (made (Calls.perform call) s')

namespace Script

variable {κ σ : Type} [Draft σ] [Growing σ] [Calls κ σ] [LawfulCalls κ σ]
variable [Matching σ] [Styled κ] [StyledCalls κ σ] {style : Style}

open Growing

omit [Growing σ] [LawfulCalls κ σ] [Matching σ] [StyledCalls κ σ] [Calls κ σ] [Draft σ] in
/-- The issue about a section is a problem of its module, if its body gives up over nothing else. -/
theorem issue_of_sectionFailure? {name : ModuleName} {result : Except EditError Unit}
    {raised : List EditError} {issue : EditError} (hown : OwnEnding name result)
    (h : sectionFailure? name result raised = some issue) :
    ∃ problem, issue = .module name problem := by
  obtain ⟨owner, problem, rfl, hreported⟩ := exists_problem_of_sectionFailure? h
  exact ⟨problem, by rw [hreported.owner_eq hown]⟩

omit [LawfulCalls κ σ] [Matching σ] [Styled κ] [StyledCalls κ σ] in
/-- What a section makes of a draft, if what its body raises is known. -/
theorem made_inModule {name : ModuleName} {body : ModuleState → Script κ}
    {ending : ModuleState → Except EditError Unit} {s : σ} {raised : List EditError}
    (henabled : (Draft.registry s).isEnabled name = true)
    (hraised : Draft.issues (made (body ((Draft.registry s).state name)).run (Draft.enter name s)) =
      Draft.issues s ++ raised) :
    made (inModule name body ending) s =
      match sectionFailure? name (ending ((Draft.registry s).state name)) raised with
      | none => Draft.leave s
          (made (body ((Draft.registry s).state name)).run (Draft.enter name s))
      | some issue => Draft.setIssues
          (Draft.rollback (Draft.mark s) (Draft.leave s
            (made (body ((Draft.registry s).state name)).run (Draft.enter name s))))
          (Draft.issues s ++ [issue]) :=
  made_withModule henabled rfl hraised

/-- A script that keeps to a style takes matching drafts to matching drafts. -/
theorem matched_run {t : Script κ} (ht : t.Keeps style) {s s' : σ}
    (h : Matching.Matched style s s') : Matching.Matched style (made t.run s) (made t.run s') := by
  induction t generalizing s s' with
  | nothing => exact h
  | call first rest ih => exact ih ht.2 (StyledCalls.matched ht.1 h)
  | within name body ending rest ihbody ih =>
    obtain ⟨hname, hbody, hending, hrest⟩ := ht
    suffices hwithin : Matching.Matched style (made (inModule name body ending) s)
        (made (inModule name body ending) s') from ih hrest hwithin
    obtain ⟨henabled, hstate⟩ := Matching.agree h name hname
    -- the registries agree about the module, so the section is entered in both drafts or in none
    cases htakes : (Draft.registry s).isEnabled name with
    | false =>
      rw [inModule, made_withModule_of_disabled htakes,
        made_withModule_of_disabled (henabled ▸ htakes)]
      exact h
    | true =>
      have hstate := hstate htakes
      have hinside := ihbody ((Draft.registry s).state name) (hbody _) (Matching.enter name h)
      have hgrown := grown_run (body ((Draft.registry s).state name)) (Draft.enter name s)
      have hgrown' := grown_run (body ((Draft.registry s).state name)) (Draft.enter name s')
      obtain ⟨raised, hraised⟩ := exists_raised hgrown
      rw [issues_enter] at hraised
      -- the same is raised in both drafts, so the section fails in both or in none
      have hraised' := Matching.issues_eq hinside
      rw [hraised, ← Matching.issues_eq h] at hraised'
      rw [made_inModule htakes hraised,
        made_inModule (henabled ▸ htakes) (hstate ▸ hraised'), ← hstate]
      cases hfailure : sectionFailure? name (ending ((Draft.registry s).state name)) raised with
      | none => exact Matching.leave h hinside
      | some issue =>
        have hown := hending ((Draft.registry s).state name)
        rw [(Draft.registry s).name_state] at hown
        obtain ⟨problem, rfl⟩ := issue_of_sectionFailure? hown hfailure
        dsimp only
        rw [Matching.issues_eq h]
        refine Matching.rolledBack h hinside hgrown hgrown' fun issue hissue => ?_
        rcases List.mem_append.1 hissue with hissue | hissue
        · exact Matching.issues h issue hissue
        · rw [List.mem_singleton.1 hissue]
          rintro _ _ ⟨⟩
          exact hname

end Script

/-! ### The calls of each level -/

section Calls

variable {style : Style}

instance : Styled BlockCall where
  Keeps style
    | .add op => style.operation op
    | .replaceConstant source target => style.operation (.replaceConstant source target)
    | .disableFrames => True

theorem BlockDraft.Matched.add {s s' : BlockDraft} (h : s.Matched style s') {op : Operation}
    (hop : style.operation op) :
    BlockDraft.Matched style (made (BlockDraft.add op) s) (made (BlockDraft.add op) s') := by
  obtain ⟨registry, rfl⟩ := h.same
  refine ⟨h.agree, ⟨registry, rfl⟩, h.issues, fun op' hop' => ?_⟩
  rcases List.mem_append.1 hop' with hop' | hop'
  · exact h.operations op' hop'
  · rw [List.mem_singleton.1 hop']
    exact hop

instance : StyledCalls BlockCall BlockDraft where
  matched {style call s s'} hcall h := by
    cases call with
    | add op => exact h.add hcall
    | replaceConstant source target =>
      show BlockDraft.Matched style (made (BlockDraft.replaceConstant source target) s)
        (made (BlockDraft.replaceConstant source target) s')
      rw [BlockDraft.made_replaceConstant, BlockDraft.made_replaceConstant]
      split
      · exact h.add hcall
      · obtain ⟨registry, rfl⟩ := h.same
        refine ⟨h.agree, ⟨registry, rfl⟩, fun issue hissue => ?_, h.operations⟩
        rcases List.mem_append.1 hissue with hissue | hissue
        · exact h.issues issue hissue
        · rw [List.mem_singleton.1 hissue]
          exact nofun
    | disableFrames =>
      obtain ⟨registry, rfl⟩ := h.same
      exact ⟨h.agree, ⟨registry, rfl⟩, h.issues, h.operations⟩

namespace MethodRuleCall

/-- A call on a method rule that keeps to a style. -/
def Keeps (style : Style) : MethodRuleCall → Prop
  | require clause => style.methodClause clause
  | transform program => program.Keeps style

theorem matched_perform {call : MethodRuleCall} (hcall : call.Keeps style)
    {s s' : MethodRuleDraft} (h : s.Matched style s') :
    (made call.perform s).Matched style (made call.perform s') := by
  cases call with
  | require clause =>
    refine ⟨h.agree, congrArg (·.add clause) h.pattern_eq, fun clause' hclause => ?_, h.block⟩
    rcases List.mem_append.1 hclause with hclause | hclause
    · exact h.clauses clause' hclause
    · rw [List.mem_singleton.1 hclause]
      exact hcall
  | transform program =>
    have hopened : s.opened.Matched style s'.opened := MethodRuleDraft.rel_opened h.block
      ⟨h.agree, ⟨s'.registry, rfl⟩, List.forall_mem_nil _, List.forall_mem_nil _⟩
    exact ⟨h.agree, h.pattern_eq, h.clauses, .some (Script.matched_run hcall hopened)⟩

theorem matched_performAll {calls : List MethodRuleCall} (hcalls : ∀ call ∈ calls, call.Keeps style)
    {s s' : MethodRuleDraft} (h : s.Matched style s') :
    (made (performAll calls) s).Matched style (made (performAll calls) s') := by
  induction calls generalizing s s' with
  | nil => exact h
  | cons first rest ih =>
    exact ih (fun call hcall => hcalls call (List.mem_cons_of_mem _ hcall))
      (matched_perform (hcalls first List.mem_cons_self) h)

end MethodRuleCall

/-- What is taken over from a block that matches another one. -/
theorem BlockDraft.Matched.taken {b b' : Option BlockDraft}
    (h : Option.Rel (BlockDraft.Matched style) b b') :
    b'.map BlockDraft.block = b.map BlockDraft.block ∧
      b'.map BlockDraft.issues = b.map BlockDraft.issues ∧
      (∀ block ∈ b.map BlockDraft.block, ∀ op ∈ block.operations, style.operation op) ∧
      ∀ issue ∈ (b.map BlockDraft.issues).getD [], style.Issue issue := by
  cases h with
  | none => exact ⟨rfl, rfl, nofun, List.forall_mem_nil _⟩
  | some h =>
    obtain ⟨registry, rfl⟩ := h.same
    refine ⟨rfl, rfl, fun block hblock => ?_, h.issues⟩
    obtain rfl := Option.some.inj hblock
    exact h.operations

theorem MethodsDraft.Matched.register {s s' : MethodsDraft} (h : s.Matched style s')
    {program : List MethodRuleCall} (hprogram : ∀ call ∈ program, call.Keeps style)
    (label : String) :
    (made (MethodsDraft.register label (MethodRuleCall.performAll program)) s).Matched style
      (made (MethodsDraft.register label (MethodRuleCall.performAll program)) s') := by
  have hempty : MethodRuleDraft.Matched style ⟨s.registry, .empty, none⟩
      ⟨s'.registry, .empty, none⟩ := ⟨h.agree, rfl, List.forall_mem_nil _, .none⟩
  obtain ⟨registry, rfl⟩ := h.same
  -- both rules are begun empty, so they match when they are finished
  obtain ⟨-, hpattern, hclauses, hblock⟩ := MethodRuleCall.matched_performAll hprogram hempty
  obtain ⟨hblock, hraised, hoperations, hissues⟩ := BlockDraft.Matched.taken hblock
  refine ⟨h.agree, ⟨registry, ?_⟩, fun issue hissue => ?_, fun r hr => ?_⟩
  · show ({ s with
      registry := registry
      methods := s.methods ++ [⟨label,
        (made (MethodRuleCall.performAll program) ⟨registry, .empty, none⟩).pattern,
        (made (MethodRuleCall.performAll program) ⟨registry, .empty, none⟩).block.map
          BlockDraft.block, s.module⟩]
      issues := s.issues ++ ((made (MethodRuleCall.performAll program)
        ⟨registry, .empty, none⟩).block.map BlockDraft.issues).getD [] } : MethodsDraft) = _
    rw [hpattern, hblock, hraised]
    rfl
  · rcases List.mem_append.1 hissue with hissue | hissue
    · exact h.issues issue hissue
    · exact hissues issue hissue
  · rcases List.mem_append.1 hr with hr | hr
    · exact h.methods r hr
    · rw [List.mem_singleton.1 hr]
      exact ⟨hclauses, hoperations⟩

instance : Styled MethodsCall where
  Keeps style
    | .register _ program => ∀ call ∈ program, call.Keeps style

instance : StyledCalls MethodsCall MethodsDraft where
  matched {style call s s'} hcall h := by
    obtain ⟨label, program⟩ := call
    cases label with
    | some label => exact MethodsDraft.Matched.register h hcall label
    | none =>
      have hunnamed : s'.unnamed = s.unnamed := by
        obtain ⟨_, rfl⟩ := h.same
        rfl
      have hcounted : MethodsDraft.Matched style { s with unnamed := s.unnamed + 1 }
          { s' with unnamed := s.unnamed + 1 } := by
        obtain ⟨registry, rfl⟩ := h.same
        exact ⟨h.agree, ⟨registry, rfl⟩, h.issues, h.methods⟩
      have hmade := hcounted.register hcall (MethodsDraft.unnamedLabel (s.unnamed + 1))
      show MethodsDraft.Matched style
        (made (MethodsDraft.unnamedMethod (MethodRuleCall.performAll program)) s)
        (made (MethodsDraft.unnamedMethod (MethodRuleCall.performAll program)) s')
      rw [MethodsDraft.made_unnamedMethod, MethodsDraft.made_unnamedMethod, hunnamed]
      exact hmade

instance : Styled ClassRuleCall where
  Keeps style
    | .setLabel _ => True
    | .require clause => style.classClause clause
    | .inMethods program => program.Keeps style

instance : StyledCalls ClassRuleCall ClassRuleDraft where
  matched {style call s s'} hcall h := by
    obtain ⟨registry, rfl⟩ := h.same
    cases call with
    | setLabel label => exact ⟨h.agree, ⟨registry, rfl⟩, h.issues, h.clauses, h.methods⟩
    | require clause =>
      refine ⟨h.agree, ⟨registry, rfl⟩, h.issues, fun clause' hclause => ?_, h.methods⟩
      rcases List.mem_append.1 hclause with hclause | hclause
      · exact h.clauses clause' hclause
      · rw [List.mem_singleton.1 hclause]
        exact hcall
    | inMethods program =>
      have hempty : MethodsDraft.Matched style ⟨s.registry, [], [], s.module, s.unnamed⟩
          ⟨registry, [], [], s.module, s.unnamed⟩ :=
        ⟨h.agree, ⟨registry, rfl⟩, List.forall_mem_nil _, List.forall_mem_nil _⟩
      obtain ⟨-, ⟨_, hsame⟩, hissues, hmethods⟩ :
        MethodsDraft.Matched style _ _ := Script.matched_run hcall hempty
      refine ⟨h.agree, ⟨registry, ?_⟩, fun issue hissue => ?_, h.clauses, fun r hr => ?_⟩
      · show ({ s with
          registry := registry
          methods := s.methods ++
            (made program.run ⟨registry, [], [], s.module, s.unnamed⟩).methods
          issues := s.issues ++ (made program.run ⟨registry, [], [], s.module, s.unnamed⟩).issues
          unnamed := (made program.run ⟨registry, [], [], s.module, s.unnamed⟩).unnamed } :
            ClassRuleDraft) = _
        rw [hsame]
        rfl
      · exact (List.mem_append.1 hissue).elim (h.issues issue) (hissues issue)
      · exact (List.mem_append.1 hr).elim (h.methods r) (hmethods r)

/-- A finished rule keeps to the style of its draft. -/
theorem ClassRuleDraft.Matched.rule {s s' : ClassRuleDraft} (h : s.Matched style s') :
    s'.rule = s.rule ∧ style.ClassRule s.rule := by
  obtain ⟨registry, rfl⟩ := h.same
  refine ⟨rfl, h.clauses, fun r hr => ?_⟩
  obtain ⟨r', hr', rfl⟩ := List.mem_map.1 hr
  have hfits := h.methods r' (List.mem_of_mem_filter hr')
  exact ⟨hfits.clauses, hfits.operations⟩

instance : Styled RulesCall where
  Keeps style
    | .findClass program => program.Keeps style

instance : StyledCalls RulesCall RulesDraft where
  matched {style call s s'} hcall h := by
    obtain ⟨program⟩ := call
    obtain ⟨registry, rfl⟩ := h.same
    have hempty : ClassRuleDraft.Matched style (.start s.registry s.module)
        (.start registry s.module) := ⟨h.agree, ⟨registry, rfl⟩, List.forall_mem_nil _,
          List.forall_mem_nil _, List.forall_mem_nil _⟩
    have hmade : ClassRuleDraft.Matched style _ _ := Script.matched_run hcall hempty
    obtain ⟨hrule, hfits⟩ := hmade.rule
    have hissues := Matching.issues_eq (σ := ClassRuleDraft) hmade
    refine ⟨h.agree, ⟨registry, ?_⟩, fun issue hissue => ?_, fun r hr => ?_⟩
    · show ({ s with
        registry := registry
        rules := s.rules ++ (if (made program.run (.start registry s.module)).rule.hasWork then
          [(made program.run (.start registry s.module)).rule] else [])
        issues := s.issues ++ (made program.run (.start registry s.module)).issues } :
          RulesDraft) = _
      rw [hrule, show (made program.run (.start registry s.module)).issues = _ from hissues]
      rfl
    · exact (List.mem_append.1 hissue).elim (h.issues issue) (hmade.issues issue)
    · rcases List.mem_append.1 hr with hr | hr
      · exact h.rules r hr
      · split at hr
        · rw [List.mem_singleton.1 hr]
          exact hfits
        · cases hr

end Calls

/-- Where no rules are made yet, everything keeps to any style. -/
theorem RulesDraft.Matched.start {style : Style} {registry registry' : Registry}
    (h : registry.Agree style registry') :
    RulesDraft.Matched style (.start registry) (.start registry') :=
  ⟨h, ⟨registry', rfl⟩, List.forall_mem_nil _, List.forall_mem_nil _⟩

/-! ### What all rules have gained -/

namespace RulesDraft

/-- A draft with the rules and issues of another one in front of its own. -/
def onto (s base : RulesDraft) : RulesDraft :=
  { s with rules := base.rules ++ s.rules, issues := base.issues ++ s.issues }

/-- A draft with the same registry in the same section, where nothing was made. -/
def blank (s : RulesDraft) : RulesDraft := { s with rules := [], issues := [] }

theorem onto_blank (s : RulesDraft) : s.blank.onto s = s := by
  rw [onto, blank, List.append_nil, List.append_nil]

theorem made_inModule_onto {name : ModuleName} {body : ModuleState → Script RulesCall}
    {ending : ModuleState → Except EditError Unit} {s base : RulesDraft}
    (hbody : ∀ m, made (body m).run ((Draft.enter name s).onto base) =
      (made (body m).run (Draft.enter name s)).onto base) :
    made (Script.inModule name body ending) (s.onto base) =
      (made (Script.inModule name body ending) s).onto base := by
  cases henabled : s.registry.isEnabled name with
  | false =>
    rw [Script.inModule, made_withModule_of_disabled (s := s.onto base) henabled,
      made_withModule_of_disabled (s := s) henabled]
  | true =>
    have hgrown := Script.grown_run (body (s.registry.state name)) (Draft.enter name s)
    have hgrown' := Script.grown_run (body (s.registry.state name))
      (Draft.enter name (s.onto base))
    obtain ⟨raised, hraised⟩ := Growing.exists_raised hgrown
    -- the same is raised in front of other issues, so the section ends in the same way
    have hraised' : Draft.issues (made (body (s.registry.state name)).run
        (Draft.enter name (s.onto base))) = Draft.issues (s.onto base) ++ raised := by
      show (made (body (s.registry.state name)).run ((Draft.enter name s).onto base)).issues = _
      rw [hbody]
      show base.issues ++
        Draft.issues (made (body (s.registry.state name)).run (Draft.enter name s)) = _
      rw [hraised, ← List.append_assoc]
      rfl
    rw [Script.made_inModule (s := s.onto base) henabled hraised',
      Script.made_inModule (s := s) henabled hraised]
    show (match sectionFailure? name (ending (s.registry.state name)) raised with
      | none => _
      | some issue => _) = _
    cases sectionFailure? name (ending (s.registry.state name)) raised with
    | none =>
      show Draft.leave (s.onto base)
        (made (body (s.registry.state name)).run ((Draft.enter name s).onto base)) = _
      rw [hbody]
      rfl
    | some issue =>
      have hgone := congrArg (onto · base) (Grown.rolledBack (s.issues ++ [issue]) hgrown)
      refine (Grown.rolledBack _ hgrown').trans (Eq.trans ?_ hgone.symm)
      show ({ s with
        rules := base.rules ++ s.rules
        issues := (base.issues ++ s.issues) ++ [issue] } : RulesDraft) = _
      rw [List.append_assoc]
      rfl

/-- A script on all rules adds the same whatever rules and issues are there. -/
theorem made_run_onto (t : Script RulesCall) (s base : RulesDraft) :
    made t.run (s.onto base) = (made t.run s).onto base := by
  induction t generalizing s with
  | nothing => rfl
  | call first rest ih =>
    obtain ⟨program⟩ := first
    have hfirst : made (findClass program.run) (s.onto base) =
        (made (findClass program.run) s).onto base := by
      show ({ s with
        rules := (base.rules ++ s.rules) ++ _
        issues := (base.issues ++ s.issues) ++ _ } : RulesDraft) = _
      rw [List.append_assoc, List.append_assoc]
      rfl
    show made rest.run (made (findClass program.run) (s.onto base)) = _
    rw [hfirst, ih]
    rfl
  | within name body ending rest ihbody ih =>
    show made rest.run (made (Script.inModule name body ending) (s.onto base)) = _
    rw [made_inModule_onto fun m => ihbody m (Draft.enter name s), ih]
    rfl

end RulesDraft

end ClassEdit
