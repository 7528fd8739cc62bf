import ClassEdit.Proofs.Matching
import ClassEdit.Proofs.Rollback

/-!
# Programs that are scripts

Rules are made by programs written in the calls of the drafts. To show that such a program is a
script that keeps to a style, one goes through it call by call: every call is a script, programs one
after the other are one, and so is a section whose body reads options of its module and then makes
something.

## Main definitions

* `Scripted`, `ScriptedMethod`: programs that are scripts.
* `ScriptedBody`: bodies of sections that run a script and come to an end.
* `InSection`: programs that are one section.

## Main results

* `Scripted.withModule`: sections are scripts if their bodies are.
* `InSection.rules_of_issue`: a section that raised an issue has made no rules.
* `made_withModule_reading`: a section that reads an option and then raises nothing.
-/

namespace ClassEdit

/-! ### Scripts in a row -/

namespace Script

variable {κ σ : Type}

/-- A script after another one. -/
def append (t u : Script κ) : Script κ :=
  match t with
  | nothing => u
  | call first rest => call first (rest.append u)
  | within name body ending rest => within name body ending (rest.append u)

theorem run_append [Draft σ] [Calls κ σ] (t u : Script κ) :
    (t.append u).run = (do t.run; u.run : Drafting σ Unit) := by
  induction t with
  | nothing => rfl
  | call first rest ih => rw [append, run, ih, run, bind_assoc]
  | within name body ending rest _ ih => rw [append, run, ih, run, bind_assoc]

theorem keeps_append [Styled κ] {style : Style} {t u : Script κ} (ht : t.Keeps style)
    (hu : u.Keeps style) : (t.append u).Keeps style := by
  induction t with
  | nothing => exact hu
  | call first rest ih => exact ⟨ht.1, ih ht.2⟩
  | within name body ending rest _ ih => exact ⟨ht.1, ht.2.1, ht.2.2.1, ih ht.2.2.2⟩

end Script

/-! ### Programs in general -/

/-- A program that is a script and keeps to a style. -/
def Scripted (κ : Type) {σ : Type} [Draft σ] [Calls κ σ] [Styled κ] (style : Style)
    (program : Drafting σ Unit) : Prop :=
  ∃ t : Script κ, t.Keeps style ∧ t.run = program

/-- The body of a section that runs a script which keeps to a style, and comes to an end. -/
def ScriptedBody (κ : Type) {σ : Type} [Draft σ] [Calls κ σ] [Styled κ] (style : Style)
    (m : ModuleState) (body : SectionBody σ Unit) : Prop :=
  ∃ (t : Script κ) (ending : Except EditError Unit), t.Keeps style ∧ OwnEnding m.name ending ∧
    body = fun s => (ending, made t.run s)

/-- What is read from a module, which fails over problems of this module only. -/
def ReadsOwn {α : Type} (m : ModuleState) (read : Except EditError α) : Prop :=
  ∀ e, read = .error e → ∃ problem, e = .module m.name problem

section Programs

variable {κ σ : Type} [Draft σ] [Calls κ σ] [Styled κ] {style : Style} {m : ModuleState}

theorem Scripted.call (first : κ) (h : Styled.Keeps style first) :
    Scripted κ style (Calls.perform first) :=
  ⟨.call first .nothing, ⟨h, trivial⟩, bind_pure_unit⟩

theorem Scripted.nothing : Scripted κ style (pure () : Drafting σ Unit) :=
  ⟨.nothing, trivial, rfl⟩

theorem Scripted.bind {p : Drafting σ Unit} {q : Unit → Drafting σ Unit}
    (hp : Scripted κ style p) (hq : Scripted κ style (q ())) : Scripted κ style (p >>= q) := by
  obtain ⟨t, ht, rfl⟩ := hp
  obtain ⟨u, hu, hrun⟩ := hq
  exact ⟨t.append u, Script.keeps_append ht hu, by rw [Script.run_append, hrun]⟩

theorem Scripted.forM {α : Type} {as : List α} {f : α → Drafting σ Unit}
    (h : ∀ a ∈ as, Scripted κ style (f a)) : Scripted κ style (as.forM f) := by
  induction as with
  | nil => exact .nothing
  | cons a as ih =>
    exact .bind (h a List.mem_cons_self) (ih fun a ha => h a (List.mem_cons_of_mem _ ha))

theorem Scripted.withModule {name : ModuleName} {body : ModuleState → SectionBody σ Unit}
    (hname : style.module name) (hbody : ∀ m, ScriptedBody κ style m (body m)) :
    Scripted κ style (withModule name body) := by
  -- a script for each state that the body may be given
  choose t ending ht hending hrun using hbody
  refine ⟨.within name t ending .nothing, ⟨hname, ht, hending, trivial⟩, ?_⟩
  rw [show body = Script.sectionBody (fun m => (t m).run) ending from funext hrun]
  exact bind_pure_unit

theorem ScriptedBody.lift {p : Drafting σ Unit} (hp : Scripted κ style p) :
    ScriptedBody κ style m (liftM p) := by
  obtain ⟨t, ht, rfl⟩ := hp
  exact ⟨t, .ok (), ht, nofun, rfl⟩

theorem ScriptedBody.bind_lift {p : Drafting σ Unit} {f : Unit → SectionBody σ Unit}
    (hp : Scripted κ style p) (hf : ScriptedBody κ style m (f ())) :
    ScriptedBody κ style m (liftM p >>= f) := by
  obtain ⟨t, ht, rfl⟩ := hp
  obtain ⟨u, ending, hu, hending, hrun⟩ := hf
  refine ⟨t.append u, ending, Script.keeps_append ht hu, hending, ?_⟩
  funext s
  show f () (made t.run s) = _
  rw [hrun, Script.run_append]
  rfl

theorem ScriptedBody.bind_read_ok {α : Type} {read : Except EditError α}
    {f : α → SectionBody σ Unit} (hread : ReadsOwn m read)
    (hf : ∀ a, read = .ok a → ScriptedBody κ style m (f a)) :
    ScriptedBody κ style m (liftM read >>= f) := by
  cases h : read with
  | ok a => exact hf a h
  | error e =>
    refine ⟨.nothing, .error e, trivial, ?_, rfl⟩
    obtain ⟨problem, rfl⟩ := hread e h
    rintro _ _ ⟨⟩
    rfl

theorem ScriptedBody.bind_read {α : Type} {read : Except EditError α}
    {f : α → SectionBody σ Unit} (hread : ReadsOwn m read)
    (hf : ∀ a, ScriptedBody κ style m (f a)) : ScriptedBody κ style m (liftM read >>= f) :=
  .bind_read_ok hread fun a _ => hf a

end Programs

/-! ### Reading options -/

section Reading

variable {m : ModuleState} {key : String}

theorem readsOwn_required : ReadsOwn m (m.required key) := by
  intro e h
  unfold ModuleState.required at h
  split at h <;> cases h
  exact ⟨_, rfl⟩

theorem readsOwn_text : ReadsOwn m (m.text key) := by
  intro e h
  unfold ModuleState.text at h
  split at h <;> cases h
  · rename_i hrequired
    exact readsOwn_required e hrequired
  · exact ⟨_, rfl⟩

theorem readsOwn_float : ReadsOwn m (m.float key) := by
  intro e h
  unfold ModuleState.float at h
  split at h <;> cases h
  · rename_i hrequired
    exact readsOwn_required e hrequired
  · exact ⟨_, rfl⟩

theorem readsOwn_boolean : ReadsOwn m (m.boolean key) := by
  intro e h
  unfold ModuleState.boolean at h
  split at h <;> cases h
  · rename_i hrequired
    exact readsOwn_required e hrequired
  · exact ⟨_, rfl⟩

theorem ReadsOwn.pure {α : Type} {a : α} : ReadsOwn m (.ok a) := nofun

theorem ReadsOwn.bind {α β : Type} {read : Except EditError α} {f : α → Except EditError β}
    (hread : ReadsOwn m read) (hf : ∀ a, ReadsOwn m (f a)) : ReadsOwn m (read >>= f) := by
  cases h : read with
  | ok a => exact hf a
  | error e =>
    rintro _ ⟨⟩
    exact hread e h

end Reading

/-! ### What options say -/

/-- States of a module under which the same is found for every option, whatever else is there. -/
structure ModuleState.Alike (m m' : ModuleState) : Prop where
  name_eq : m'.name = m.name
  option_eq : ∀ key, m'.option? key = m.option? key

namespace ModuleState.Alike

variable {m m' : ModuleState}

theorem required_eq (h : m.Alike m') (key : String) : m'.required key = m.required key := by
  rw [ModuleState.required, ModuleState.required, h.option_eq, h.name_eq]

theorem mistyped_eq (h : m.Alike m') : m'.mistyped = m.mistyped := by
  funext key expected found
  rw [ModuleState.mistyped, ModuleState.mistyped, h.name_eq]

theorem text_eq (h : m.Alike m') (key : String) : m'.text key = m.text key := by
  rw [ModuleState.text, ModuleState.text, h.required_eq, h.mistyped_eq]

theorem float_eq (h : m.Alike m') (key : String) : m'.float key = m.float key := by
  rw [ModuleState.float, ModuleState.float, h.required_eq, h.mistyped_eq]

theorem boolean_eq (h : m.Alike m') (key : String) : m'.boolean key = m.boolean key := by
  rw [ModuleState.boolean, ModuleState.boolean, h.required_eq, h.mistyped_eq]

end ModuleState.Alike

/-! ### Calls of blocks -/

section Blocks

variable {style : Style}

theorem scripted_add {op : Operation} (h : style.operation op) :
    Scripted BlockCall style (BlockDraft.add op) :=
  Scripted.call (BlockCall.add op) h

theorem scripted_replaceConstant {source target : Constant}
    (h : style.operation (.replaceConstant source target)) :
    Scripted BlockCall style (BlockDraft.replaceConstant source target) :=
  Scripted.call (BlockCall.replaceConstant source target) h

theorem scripted_replaceString {source target : String}
    (h : style.operation (.replaceString source target)) :
    Scripted BlockCall style (BlockDraft.replaceString source target) := scripted_add h

theorem scripted_stub (h : style.operation (.stub none)) :
    Scripted BlockCall style BlockDraft.stub := scripted_add h

theorem scripted_fixedValue {value : Constant} (h : style.operation (.stub (some value))) :
    Scripted BlockCall style (BlockDraft.fixedValue value) := scripted_add h

theorem scripted_overwrite {body : FragmentSource} (h : style.operation (.overwrite body)) :
    Scripted BlockCall style (BlockDraft.overwrite body) := scripted_add h

theorem scripted_adviceBefore {calls : MemberPattern} {program : Site → Assembler Unit}
    (h : style.operation (.callAdvice calls (some (.assembled program)) none)) :
    Scripted BlockCall style (BlockDraft.adviceBefore calls program) := scripted_add h

theorem scripted_adviceAfter {calls : MemberPattern} {program : Site → Assembler Unit}
    (h : style.operation (.callAdvice calls none (some (.assembled program)))) :
    Scripted BlockCall style (BlockDraft.adviceAfter calls program) := scripted_add h

theorem scripted_replaceCall {calls : MemberPattern} {replacement : Option FragmentSource}
    (h : style.operation (.replaceCall calls replacement)) :
    Scripted BlockCall style (BlockDraft.replaceCall calls replacement) := scripted_add h

theorem scripted_methodExit {fragment : FragmentSource}
    (h : style.operation (.methodExit fragment)) :
    Scripted BlockCall style (BlockDraft.methodExit fragment) := scripted_add h

theorem scripted_disableFrames : Scripted BlockCall style BlockDraft.disableFrames :=
  Scripted.call (BlockCall.disableFrames) trivial

end Blocks

/-! ### Calls of method rules -/

/-- A program on a method rule that is a sequence of calls and keeps to a style. -/
def ScriptedMethod (style : Style) (program : Drafting MethodRuleDraft Unit) : Prop :=
  ∃ calls : List MethodRuleCall, (∀ call ∈ calls, call.Keeps style) ∧
    MethodRuleCall.performAll calls = program

section Methods

variable {style : Style} {program : Drafting MethodRuleDraft Unit}

theorem ScriptedMethod.call (first : MethodRuleCall) (h : first.Keeps style) :
    ScriptedMethod style first.perform :=
  ⟨[first], by simpa using h, bind_pure_unit⟩

theorem ScriptedMethod.require {clause : MethodClause} (h : style.methodClause clause) :
    ScriptedMethod style (MethodRuleDraft.require clause) :=
  ScriptedMethod.call (.require clause) h

theorem ScriptedMethod.transform {block : Drafting BlockDraft Unit}
    (h : Scripted BlockCall style block) :
    ScriptedMethod style (MethodRuleDraft.transform block) := by
  obtain ⟨t, ht, rfl⟩ := h
  exact ScriptedMethod.call (.transform t) ht

theorem ScriptedMethod.bind {q : Unit → Drafting MethodRuleDraft Unit}
    (hp : ScriptedMethod style program) (hq : ScriptedMethod style (q ())) :
    ScriptedMethod style (program >>= q) := by
  obtain ⟨calls, hcalls, rfl⟩ := hp
  obtain ⟨calls', hcalls', hrun⟩ := hq
  refine ⟨calls ++ calls', fun call hcall => ?_, ?_⟩
  · exact (List.mem_append.1 hcall).elim (hcalls call) (hcalls' call)
  · rw [show q = fun _ => q () from rfl, ← hrun]
    induction calls with
    | nil => rfl
    | cons first rest ih =>
      rw [List.cons_append, MethodRuleCall.performAll, MethodRuleCall.performAll, bind_assoc,
        ih fun call hcall => hcalls call (List.mem_cons_of_mem _ hcall)]

theorem ScriptedMethod.forM {α : Type} {as : List α}
    {f : α → Drafting MethodRuleDraft Unit} (h : ∀ a ∈ as, ScriptedMethod style (f a)) :
    ScriptedMethod style (as.forM f) := by
  induction as with
  | nil => exact ⟨[], nofun, rfl⟩
  | cons a as ih =>
    exact .bind (h a List.mem_cons_self) (ih fun a ha => h a (List.mem_cons_of_mem _ ha))

theorem scripted_method {label : String} (h : ScriptedMethod style program) :
    Scripted MethodsCall style (MethodsDraft.method label program) := by
  obtain ⟨calls, hcalls, rfl⟩ := h
  exact Scripted.call (MethodsCall.register (some label) calls) hcalls

theorem scripted_unnamedMethod (h : ScriptedMethod style program) :
    Scripted MethodsCall style (MethodsDraft.unnamedMethod program) := by
  obtain ⟨calls, hcalls, rfl⟩ := h
  exact Scripted.call (MethodsCall.register none calls) hcalls

theorem scripted_namedTransform {name : String} {block : Drafting BlockDraft Unit}
    (hname : style.methodClause (.named name)) (hblock : Scripted BlockCall style block) :
    Scripted MethodsCall style (MethodsDraft.namedTransform name block) :=
  scripted_method (.bind (.require hname) (.transform hblock))

end Methods

/-! ### Calls of class rules and all rules -/

section Classes

variable {style : Style}

theorem scripted_setLabel {label : String} :
    Scripted ClassRuleCall style (ClassRuleDraft.setLabel label) :=
  Scripted.call (ClassRuleCall.setLabel label) trivial

theorem scripted_require {clause : ClassClause} (h : style.classClause clause) :
    Scripted ClassRuleCall style (ClassRuleDraft.require clause) :=
  Scripted.call (ClassRuleCall.require clause) h

theorem scripted_inMethods {program : Drafting MethodsDraft Unit}
    (h : Scripted MethodsCall style program) :
    Scripted ClassRuleCall style (ClassRuleDraft.inMethods program) := by
  obtain ⟨t, ht, rfl⟩ := h
  exact Scripted.call (ClassRuleCall.inMethods t) ht

theorem scripted_constantReplacement {source target : Constant}
    (hclause : style.methodClause (.hasConstant source))
    (hop : style.operation (.replaceConstant source target)) :
    Scripted ClassRuleCall style (ClassRuleDraft.constantReplacement source target) :=
  scripted_inMethods (scripted_unnamedMethod
    (.bind (.require hclause) (.transform (scripted_replaceConstant hop))))

theorem scripted_constantReplacements {pairs : List (Constant × Constant)}
    (h : ∀ pair ∈ pairs, style.methodClause (.hasConstant pair.1) ∧
      style.operation (.replaceConstant pair.1 pair.2)) :
    Scripted ClassRuleCall style (ClassRuleDraft.constantReplacements pairs) :=
  Scripted.forM fun pair hpair => scripted_constantReplacement (h pair hpair).1 (h pair hpair).2

variable {program : Drafting ClassRuleDraft Unit}

theorem scripted_findClass (h : Scripted ClassRuleCall style program) :
    Scripted RulesCall style (RulesDraft.findClass program) := by
  obtain ⟨t, ht, rfl⟩ := h
  exact Scripted.call (RulesCall.findClass t) ht

theorem scripted_findHostClass (hclause : style.classClause .host)
    (h : Scripted ClassRuleCall style program) :
    Scripted RulesCall style (RulesDraft.findHostClass program) :=
  scripted_findClass (.bind (scripted_require hclause) h)

theorem scripted_findPlatformClass (hclause : style.classClause .platform)
    (h : Scripted ClassRuleCall style program) :
    Scripted RulesCall style (RulesDraft.findPlatformClass program) :=
  scripted_findClass (.bind (scripted_require hclause) h)

theorem scripted_findNamedClass {name : String}
    (hclause : style.classClause (.ofName name)) (h : Scripted ClassRuleCall style program) :
    Scripted RulesCall style (RulesDraft.findNamedClass name program) :=
  scripted_findClass (.bind (scripted_require hclause) h)

end Classes

/-! ### Programs that are one section -/

/-- A program on all rules that is one section of a module, and sees no more of the module than what
its options say. -/
def InSection (style : Style) (name : ModuleName) (program : Drafting RulesDraft Unit) : Prop :=
  ∃ body, program = withModule name body ∧ (∀ m, ScriptedBody RulesCall style m (body m)) ∧
    ∀ m m', m.Alike m' → body m' = body m

namespace InSection

variable {style : Style} {name : ModuleName} {program : Drafting RulesDraft Unit} {s : RulesDraft}

theorem scripted (h : InSection style name program) (hname : style.module name) :
    Scripted RulesCall style program := by
  obtain ⟨body, rfl, hbody, -⟩ := h
  exact .withModule hname hbody

/-- A section of a module that does not take part makes no rules. -/
theorem rules_of_disabled (h : InSection style name program)
    (hdisabled : s.registry.isEnabled name = false) : (made program s).rules = s.rules := by
  obtain ⟨body, rfl, -⟩ := h
  rw [made_withModule_of_disabled hdisabled]

/-- A section that raises an issue makes no rules. -/
theorem rules_of_issue (h : InSection style name program)
    (hissue : (made program s).issues ≠ s.issues) : (made program s).rules = s.rules := by
  cases henabled : s.registry.isEnabled name with
  | false => exact h.rules_of_disabled henabled
  | true =>
    obtain ⟨body, rfl, hbody, -⟩ := h
    choose t ending _ _ hrun using hbody
    obtain rfl : body = Script.sectionBody (fun m => (t m).run) ending := funext hrun
    cases hfails : Script.sectionFails s.registry name t ending with
    | false =>
      -- a section that does not fail raises nothing
      refine absurd ((Script.issues_inModule_eq_iff (s := s)).2 ?_) hissue
      show (s.registry.isEnabled name && Script.sectionFails s.registry name t ending) = false
      rw [hfails, Bool.and_false]
    | true =>
      obtain ⟨owner, problem, -, hmade⟩ := Script.made_inModule_of_fails (s := s) henabled hfails
      have hgrown := Script.grown_run (t (s.registry.state name)) (Draft.enter name s)
      have hrolled := hmade.trans (RulesDraft.Grown.rolledBack _ hgrown)
      show (made (Script.inModule name t ending) s).rules = s.rules
      rw [hrolled]

end InSection

/-! ### Sections that read options first -/

namespace Registry

variable {α : Type}

/-- What is read from a module that takes part. -/
def given (r : Registry) (name : ModuleName) (read : ModuleState → Except EditError α) : Option α :=
  if r.isEnabled name then (read (r.state name)).toOption else none

/-- The refusal of a module that takes part. -/
def refused (r : Registry) (name : ModuleName) (read : ModuleState → Except EditError α) :
    List EditError :=
  if r.isEnabled name then
    match read (r.state name) with
    | .ok _ => []
    | .error e => [e]
  else []

theorem refused_of_given {r : Registry} {name : ModuleName}
    {read : ModuleState → Except EditError α} {a : α} (h : r.given name read = some a) :
    r.refused name read = [] := by
  unfold given at h
  unfold refused
  cases henabled : r.isEnabled name with
  | false => rfl
  | true =>
    rw [henabled] at h
    cases hread : read (r.state name) with
    | ok a => rfl
    | error e =>
      rw [hread] at h
      cases h

end Registry

/-- A section that reads an option and then raises nothing: it makes what the option says, or is
refused. -/
theorem made_withModule_reading {σ α : Type} [Draft σ] [Growing σ] {s : σ} {name : ModuleName}
    {read : ModuleState → Except EditError α} {program : α → Drafting σ Unit}
    (hread : ∀ m, ReadsOwn m (read m))
    (hquiet : ∀ a, Draft.issues (made (program a) (Draft.enter name s)) = Draft.issues s)
    (hback : ∀ issues, Draft.setIssues (Draft.rollback (Draft.mark s)
      (Draft.leave s (Draft.enter name s))) issues = Draft.setIssues s issues) :
    made (withModule name fun m => do
        let a ← liftM (read m)
        liftM (program a)) s =
      match (Draft.registry s).given name read with
      | some a => Draft.leave s (made (program a) (Draft.enter name s))
      | none => Draft.setIssues s (Draft.issues s ++ (Draft.registry s).refused name read) := by
  unfold Registry.given Registry.refused
  cases henabled : (Draft.registry s).isEnabled name with
  | false =>
    rw [made_withModule_of_disabled henabled, if_neg Bool.false_ne_true, if_neg Bool.false_ne_true,
      List.append_nil]
    exact (Growing.setIssues_self s).symm
  | true =>
    rw [if_pos rfl, if_pos rfl]
    cases h : read ((Draft.registry s).state name) with
    | ok a =>
      have hrun : (do
          let a ← liftM (read ((Draft.registry s).state name))
          liftM (program a) : SectionBody σ Unit).run (Draft.enter name s) =
            (.ok (), made (program a) (Draft.enter name s)) := by
        rw [h]
        rfl
      have hraised :
          Draft.issues (made (program a) (Draft.enter name s)) = Draft.issues s ++ [] := by
        rw [hquiet, List.append_nil]
      rw [made_withModule henabled hrun hraised]
      rfl
    | error e =>
      -- the option is refused before the section has drafted anything, so only the problem is left
      obtain ⟨problem, rfl⟩ := hread _ e h
      have hrun : (do
          let a ← liftM (read ((Draft.registry s).state name))
          liftM (program a) : SectionBody σ Unit).run (Draft.enter name s) =
            (.error (.module ((Draft.registry s).state name).name problem),
              Draft.enter name s) := by
        rw [h]
        rfl
      have hraised : Draft.issues (Draft.enter name s) = Draft.issues s ++ [] := by
        rw [Growing.issues_enter, List.append_nil]
      rw [made_withModule henabled hrun hraised]
      exact hback _

end ClassEdit
