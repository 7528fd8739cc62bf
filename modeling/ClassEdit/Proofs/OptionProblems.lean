import Mathlib.Data.List.Forall2
import ClassEdit.Proofs.SharedRules

/-!
# What is reported about options

The default rules are made in sections that read the options of their modules first. A section in
which an option is missing, or is of another kind than expected, gives up before it has made
anything, and one issue names its module and the first such option. With options that can be used no
section raises anything: texts take the place of texts and numbers that of numbers of the same kind,
whatever is configured. So the issues tell which sections of the modules that take part cannot be
made, and nothing else.

## Main definitions

* `OptionNeed`, `OptionNeed.isMet`: an option that a section reads, and whether it can be used.
* `GuardedSection`, `Tweak.guardedParts`: the sections of the default rules with what they read.
* `Style.quiet`, `Reads`, `Reports`: programs that raise nothing, reading options, and bodies of
  sections that fail over an option only.

## Main results

* `issues_made_withModule`: what a section raises that reads its options first.
* `Tweak.issues_exact`: what is reported about the options of the default rules.
-/

namespace ClassEdit

/-! ### Options that are needed -/

/-- Whether a value can be used where a kind is expected. An integer can be used as a double. -/
def OptionKind.admits (expected : OptionKind) (value : OptionValue) : Bool :=
  value.kind = expected ∨ expected = .float ∧ value.kind = .integer

/-- An option that is read, and what it has to be. -/
structure OptionNeed where
  key : String
  kind : OptionKind

/-- Whether an option is there and can be used. -/
def OptionNeed.isMet (m : ModuleState) (need : OptionNeed) : Bool :=
  (m.option? need.key).any need.kind.admits

/-- What is wrong with an option. -/
def OptionNeed.problem? (m : ModuleState) (need : OptionNeed) : Option ModuleProblem :=
  match m.option? need.key with
  | none => some (.missingOption need.key)
  | some value =>
    if need.kind.admits value then none else some (.wrongOption need.key need.kind value)

theorem OptionNeed.isSome_problem? {m : ModuleState} {need : OptionNeed} :
    (need.problem? m).isSome = !need.isMet m := by
  unfold problem? isMet
  cases m.option? need.key with
  | none => rfl
  | some value => cases h : need.kind.admits value <;> simp [h]

/-- What is wrong with the first of several options that cannot be used. -/
def ModuleState.problem? (m : ModuleState) (needs : List OptionNeed) : Option ModuleProblem :=
  needs.findSome? fun need => need.problem? m

theorem ModuleState.problem?_append {m : ModuleState} {needs needs' : List OptionNeed} :
    m.problem? (needs ++ needs') = (m.problem? needs).or (m.problem? needs') :=
  List.findSome?_append

theorem ModuleState.isSome_problem? {m : ModuleState} {needs : List OptionNeed} :
    (m.problem? needs).isSome = needs.any fun need => !need.isMet m := by
  simp only [problem?, List.isSome_findSome?, OptionNeed.isSome_problem?]

/-! ### Reading options -/

/-- What is read from some options: a value if all of them can be used, and otherwise the problem
with the first one that cannot. -/
def Reads {α : Type} (m : ModuleState) (needs : List OptionNeed)
    (read : Except EditError α) : Prop :=
  match m.problem? needs with
  | none => ∃ a, read = .ok a
  | some problem => read = .error (.module m.name problem)

namespace Reads

variable {α β : Type} {m : ModuleState} {key : String} {needs needs' : List OptionNeed}

theorem nothing {a : α} : Reads m [] (.ok a) := ⟨a, rfl⟩

theorem bind {read : Except EditError α} {f : α → Except EditError β} (hread : Reads m needs read)
    (hf : ∀ a, Reads m needs' (f a)) : Reads m (needs ++ needs') (read >>= f) := by
  unfold Reads at hread ⊢
  rw [ModuleState.problem?_append]
  cases h : m.problem? needs with
  | none =>
    rw [h] at hread
    obtain ⟨a, rfl⟩ := hread
    exact hf a
  | some problem =>
    rw [h] at hread
    rw [hread]
    rfl

theorem map {read : Except EditError α} (hread : Reads m needs read) (f : α → β) :
    Reads m needs (read >>= fun a => .ok (f a)) := by
  rw [← List.append_nil needs]
  exact hread.bind fun _ => nothing

/-- One option is read: it is missing, or its value can be used or not. -/
theorem one {kind : OptionKind} {read : Except EditError α}
    (hmissing : m.option? key = none → read = .error (.module m.name (.missingOption key)))
    (hfound : ∀ value, m.option? key = some value → if kind.admits value then ∃ a, read = .ok a
      else read = .error (.module m.name (.wrongOption key kind value))) :
    Reads m [⟨key, kind⟩] read := by
  unfold Reads ModuleState.problem?
  rw [List.findSome?_singleton, OptionNeed.problem?]
  cases h : m.option? key with
  | none => exact hmissing h
  | some value =>
    have hvalue := hfound value h
    dsimp only
    by_cases hadmits : kind.admits value = true
    · rw [if_pos hadmits] at hvalue ⊢
      exact hvalue
    · rw [if_neg hadmits] at hvalue ⊢
      exact hvalue

theorem text : Reads m [⟨key, .text⟩] (m.text key) :=
  one (fun h => by rw [ModuleState.text, ModuleState.required, h]) fun value h => by
    rw [ModuleState.text, ModuleState.required, h]
    cases value with
    | text value => exact ⟨value, rfl⟩
    | boolean | integer | float => rfl

/-- An integer is read as a double, too. -/
theorem float : Reads m [⟨key, .float⟩] (m.float key) :=
  one (fun h => by rw [ModuleState.float, ModuleState.required, h]) fun value h => by
    rw [ModuleState.float, ModuleState.required, h]
    cases value with
    | float bits => exact ⟨bits, rfl⟩
    | integer value => exact ⟨_, rfl⟩
    | boolean | text => rfl

theorem boolean : Reads m [⟨key, .boolean⟩] (m.boolean key) :=
  one (fun h => by rw [ModuleState.boolean, ModuleState.required, h]) fun value h => by
    rw [ModuleState.boolean, ModuleState.required, h]
    cases value with
    | boolean value => exact ⟨value, rfl⟩
    | integer | float | text => rfl

/-- A table of options is read row by row. -/
theorem hiddenSections (sections : List (String × String)) :
    Reads m (sections.map fun entry => ⟨entry.1, .boolean⟩)
      (Tweak.hiddenSections m sections) := by
  induction sections with
  | nil => exact nothing
  | cons entry rest ih => exact boolean.bind fun _ => ih.map _

theorem stateReplacements (states : List (String × String)) :
    Reads m (states.map fun entry => ⟨entry.1, .text⟩) (Tweak.stateReplacements m states) := by
  induction states with
  | nil => exact nothing
  | cons entry rest ih => exact text.bind fun _ => ih.map _

end Reads

/-! ### Programs that raise nothing -/

/-- The style of programs without sections that replace constants by others of the same kind. -/
def Style.quiet : Style where
  module _ := False
  classClause _ := True
  methodClause _ := True
  operation
    | .replaceConstant source target => source.kind = target.kind
    | _ => True

/-- Calls that raise nothing if they keep to the quiet style. -/
class QuietCalls (κ σ : Type) [Draft σ] [Calls κ σ] [Styled κ] : Prop where
  raises_eq_false (registry : Registry) {call : κ} : Styled.Keeps .quiet call →
    Calls.raises registry call = false

/-- Nor does a script of such calls. -/
theorem Script.raises_eq_false {κ σ : Type} [Draft σ] [Calls κ σ] [Styled κ] [QuietCalls κ σ]
    {t : Script κ} (ht : t.Keeps .quiet) (registry : Registry) : t.raises registry = false := by
  induction t with
  | nothing => rfl
  | call first rest ih =>
    exact Bool.or_eq_false_iff.2 ⟨QuietCalls.raises_eq_false registry ht.1, ih ht.2⟩
  | within name body ending rest => exact ht.1.elim

instance : QuietCalls BlockCall BlockDraft where
  raises_eq_false registry call hcall := by
    cases call with
    | add | disableFrames => rfl
    | replaceConstant source target => exact decide_eq_false (not_not.2 hcall)

theorem MethodRuleCall.raises_eq_false {call : MethodRuleCall} (hcall : call.Keeps .quiet)
    (registry : Registry) : call.raises registry = false := by
  cases call with
  | require clause => rfl
  | transform program => exact Script.raises_eq_false hcall registry

instance : QuietCalls MethodsCall MethodsDraft where
  raises_eq_false registry call hcall := by
    obtain ⟨label, program⟩ := call
    exact List.any_eq_false.2 fun call hmem =>
      Bool.eq_false_iff.1 (MethodRuleCall.raises_eq_false (hcall call hmem) registry)

instance : QuietCalls ClassRuleCall ClassRuleDraft where
  raises_eq_false registry call hcall := by
    cases call with
    | setLabel | require => rfl
    | inMethods program => exact Script.raises_eq_false hcall registry

instance : QuietCalls RulesCall RulesDraft where
  raises_eq_false registry call hcall := by
    obtain ⟨program⟩ := call
    exact Script.raises_eq_false hcall registry

theorem Scripted.issues_made {κ σ : Type} [Draft σ] [Growing σ] [Calls κ σ] [LawfulCalls κ σ]
    [Styled κ] [QuietCalls κ σ] {program : Drafting σ Unit}
    (h : Scripted κ .quiet program) (s : σ) :
    Draft.issues (made program s) = Draft.issues s := by
  obtain ⟨t, ht, rfl⟩ := h
  exact (Script.issues_run_eq_iff t s).2 (Script.raises_eq_false ht _)

/-! ### Bodies of sections that fail over an option only -/

section Reports

variable {κ σ : Type} [Draft σ] {m : ModuleState} {needs needs' : List OptionNeed}

/-- The body of a section that reads options first. It gives up over the first of them that cannot
be used, before anything is made, and otherwise it raises nothing. -/
def Reports (m : ModuleState) (needs : List OptionNeed) (body : SectionBody σ Unit) : Prop :=
  ∀ s, match m.problem? needs with
    | none => ∃ t, body.run s = (.ok (), t) ∧ Draft.issues t = Draft.issues s
    | some problem => body.run s = (.error (.module m.name problem), s)

namespace Reports

theorem bind_read {α : Type} {read : Except EditError α} {f : α → SectionBody σ Unit}
    (hread : Reads m needs read) (hf : ∀ a, read = .ok a → Reports m needs' (f a)) :
    Reports m (needs ++ needs') (liftM read >>= f) := by
  intro s
  unfold Reads at hread
  -- the problem with what is read later is only met if there is none with what is read first
  rw [ModuleState.problem?_append]
  cases h : m.problem? needs with
  | none =>
    rw [h] at hread
    obtain ⟨a, ha⟩ := hread
    rw [ha]
    exact hf a ha s
  | some problem =>
    rw [h] at hread
    rw [hread]
    rfl

theorem bind_text {key : String} {f : String → SectionBody σ Unit}
    (hf : ∀ a, Reports m needs (f a)) :
    Reports m (⟨key, .text⟩ :: needs) (liftM (m.text key) >>= f) :=
  bind_read .text fun a _ => hf a

theorem bind_float {key : String} {f : UInt64 → SectionBody σ Unit}
    (hf : ∀ a, Reports m needs (f a)) :
    Reports m (⟨key, .float⟩ :: needs) (liftM (m.float key) >>= f) :=
  bind_read .float fun a _ => hf a

variable [Growing σ] [Calls κ σ] [LawfulCalls κ σ] [Styled κ] [QuietCalls κ σ]

theorem lift {program : Drafting σ Unit} (h : Scripted κ .quiet program) :
    Reports m [] (liftM program : SectionBody σ Unit) :=
  fun s => ⟨made program s, rfl, h.issues_made s⟩

theorem read_lift {α : Type} {read : Except EditError α} {program : α → Drafting σ Unit}
    (hread : Reads m needs read) (h : ∀ a, read = .ok a → Scripted κ .quiet (program a)) :
    Reports m needs (liftM read >>= fun a => liftM (program a) : SectionBody σ Unit) := by
  rw [← List.append_nil needs]
  exact bind_read hread fun a ha => lift (h a ha)

theorem bind_lift {program : Drafting σ Unit} {f : Unit → SectionBody σ Unit}
    (h : Scripted κ .quiet program) (hf : Reports m [] (f ())) :
    Reports m [] (liftM program >>= f) := by
  intro s
  obtain ⟨t, hrun, hissues⟩ := hf (made program s)
  exact ⟨t, hrun, hissues.trans (h.issues_made s)⟩

end Reports

end Reports

/-! ### Sections that read options -/

/-- A section of a module, with the options that it reads in their order. -/
structure GuardedSection where
  module : ModuleName
  needs : List OptionNeed

namespace GuardedSection

/-- Whether the module takes part, but the section reads an option that cannot be used. -/
def isTroubled (registry : Registry) (part : GuardedSection) : Bool :=
  registry.isEnabled part.module &&
    part.needs.any fun need => !need.isMet (registry.state part.module)

/-- What is raised about the section. -/
def issue? (registry : Registry) (part : GuardedSection) : Option EditError :=
  if registry.isEnabled part.module then
    ((registry.state part.module).problem? part.needs).map (.module part.module)
  else none

theorem isSome_issue? {registry : Registry} {part : GuardedSection} :
    (part.issue? registry).isSome = part.isTroubled registry := by
  unfold issue? isTroubled
  cases registry.isEnabled part.module with
  | false => rfl
  | true => rw [if_pos rfl, Option.isSome_map, ModuleState.isSome_problem?, Bool.true_and]

end GuardedSection

/-- What is raised by a section that reads its options first. -/
theorem issues_made_withModule {σ : Type} [Draft σ] [Growing σ] {name : ModuleName}
    {needs : List OptionNeed} {body : ModuleState → SectionBody σ Unit}
    (hbody : ∀ m, Reports m needs (body m)) (s : σ) :
    Draft.issues (made (withModule name body) s) = Draft.issues s ++
      (GuardedSection.issue? (Draft.registry s) ⟨name, needs⟩).toList := by
  unfold GuardedSection.issue?
  cases henabled : (Draft.registry s).isEnabled name with
  | false =>
    rw [made_withModule_of_disabled henabled]
    exact (List.append_nil _).symm
  | true =>
    have hrun := hbody ((Draft.registry s).state name) (Draft.enter name s)
    rw [if_pos rfl]
    cases hproblem : ((Draft.registry s).state name).problem? needs with
    | none =>
      -- all options can be read, and the section raises nothing itself
      rw [hproblem] at hrun
      obtain ⟨t, hrun, hissues⟩ := hrun
      rw [Growing.issues_enter] at hissues
      have hraised : Draft.issues t = Draft.issues s ++ [] := by rw [hissues, List.append_nil]
      rw [made_withModule henabled hrun hraised]
      exact (Growing.issues_leave s t).trans hraised
    | some problem =>
      -- the first option that cannot be read ends the section before it has done anything
      rw [hproblem, (Draft.registry s).name_state] at hrun
      have hraised : Draft.issues (Draft.enter name s) = Draft.issues s ++ [] := by
        rw [Growing.issues_enter, List.append_nil]
      rw [made_withModule henabled hrun hraised]
      exact Growing.issues_setIssues _ _

/-- What is refused is what is raised about the section that reads it. -/
theorem Registry.refused_eq {α : Type} {registry : Registry} {name : ModuleName}
    {needs : List OptionNeed} {read : ModuleState → Except EditError α}
    (hread : ∀ m, Reads m needs (read m)) :
    registry.refused name read = (GuardedSection.issue? registry ⟨name, needs⟩).toList := by
  unfold refused GuardedSection.issue?
  cases registry.isEnabled name with
  | false => rfl
  | true =>
    have hstate := hread (registry.state name)
    unfold Reads at hstate
    dsimp only
    rw [if_pos rfl, if_pos rfl]
    cases hproblem : (registry.state name).problem? needs with
    | none =>
      rw [hproblem] at hstate
      obtain ⟨a, ha⟩ := hstate
      rw [ha]
      rfl
    | some problem =>
      rw [hproblem, registry.name_state] at hstate
      rw [hstate]
      rfl

namespace Tweak

open BlockDraft MethodRuleDraft MethodsDraft ClassRuleDraft RulesDraft

/-! ### The sections of the default rules -/

/-- A program on all rules that is one section, with the options that it reads. -/
def Guarded (program : Drafting RulesDraft Unit) (part : GuardedSection) : Prop :=
  ∃ body, program = withModule part.module body ∧ ∀ m, Reports m part.needs (body m)

theorem Guarded.issues_alone {program : Drafting RulesDraft Unit} {part : GuardedSection}
    (h : Guarded program part) (registry : Registry) :
    (alone registry program).issues = (part.issue? registry).toList := by
  obtain ⟨body, rfl, hbody⟩ := h
  exact issues_made_withModule hbody (RulesDraft.start registry)

section Sections

/-- A rule about a class of the application, under a label. -/
theorem quiet_hostRule {label : String} {program : Unit → Drafting ClassRuleDraft Unit}
    (h : Scripted ClassRuleCall .quiet (program ())) :
    Scripted RulesCall .quiet (findHostClass (setLabel label >>= program)) :=
  scripted_findHostClass trivial (.bind scripted_setLabel h)

/-- A rule about the edit of one method. -/
theorem quiet_oneMethod {label : String} {program : Drafting MethodRuleDraft Unit}
    (h : ScriptedMethod .quiet program) :
    Scripted ClassRuleCall .quiet (inMethods (method label program)) :=
  scripted_inMethods (scripted_method h)

theorem quiet_replaceInHost {label : String} {strings : List String}
    {pairs : List (Constant × Constant)} (hkind : ∀ pair ∈ pairs, pair.1.kind = pair.2.kind) :
    Scripted RulesCall .quiet (replaceInHost label strings pairs) :=
  quiet_hostRule <|
    .bind (.forM fun _ _ => scripted_require trivial) <|
    scripted_constantReplacements fun pair hpair => ⟨trivial, hkind pair hpair⟩

theorem quiet_keystrokes {clicks : String} : Scripted RulesCall .quiet (keystrokes clicks) :=
  quiet_hostRule <|
    scripted_inMethods <|
    .bind (scripted_method <| .bind (.require trivial) (.require trivial))
      (scripted_unnamedMethod <|
        .bind (.require trivial) <|
        .bind (.require trivial) <|
        .transform (scripted_replaceString trivial))

/-- Texts take the place of the states of the sprint toggle. -/
theorem sameKind_stateReplacements {m : ModuleState} {states : List (String × String)}
    {replacements : List (Constant × Constant)}
    (h : stateReplacements m states = .ok replacements) :
    ∀ pair ∈ replacements, pair.1.kind = pair.2.kind := by
  induction states generalizing replacements with
  | nil =>
    cases h
    exact nofun
  | cons entry rest ih =>
    obtain ⟨text, -, h⟩ := bind_eq_ok_iff.1 h
    obtain ⟨others, hothers, h⟩ := bind_eq_ok_iff.1 h
    cases h
    exact List.forall_mem_cons.2 ⟨rfl, ih hothers⟩

theorem guarded_modTexts : Guarded modTexts ⟨.changeModStrings,
    [⟨"nickhider_text", .text⟩, ⟨"cps_text", .text⟩, ⟨"auto_gg_command", .text⟩,
     ⟨"level_head_text", .text⟩, ⟨"reach_text", .text⟩]⟩ :=
  ⟨_, rfl, fun _ =>
    .bind_text fun _ => .bind_text fun _ => .bind_text fun _ => .bind_text fun _ =>
    .bind_text fun _ =>
    .bind_lift (quiet_replaceInHost (by simp [Constant.kind])) <|
    .bind_lift (quiet_replaceInHost (by simp [Constant.kind])) <|
    .bind_lift quiet_keystrokes <|
    .bind_lift (quiet_replaceInHost (by simp [Constant.kind])) <|
    .lift (quiet_replaceInHost (by simp [labeled, Constant.kind]))⟩

theorem guarded_sprintTexts : Guarded sprintTexts ⟨.toggleSprintText,
    sprintStates.map fun state => ⟨state.1, .text⟩⟩ :=
  ⟨_, rfl, fun _ =>
    .read_lift (.stateReplacements _) fun _ hreplacements => quiet_hostRule <|
      .bind (scripted_require trivial) <|
      .bind (scripted_require trivial) <|
      .bind (scripted_require trivial) <|
      scripted_constantReplacements fun pair hpair =>
        ⟨trivial, sameKind_stateReplacements hreplacements pair hpair⟩⟩

theorem guarded_presence : Guarded presence ⟨.discordRichPresence,
    [⟨"hook_owner", .text⟩, ⟨"hook_name", .text⟩, ⟨"client_id", .text⟩]⟩ :=
  ⟨_, rfl, fun _ =>
    .bind_text fun _ => .bind_text fun _ => .bind_text fun _ =>
    .lift <| quiet_hostRule <|
      .bind (scripted_require trivial) <|
      scripted_inMethods <|
      .bind
        (scripted_method <|
          .bind (.require trivial) <| .transform (scripted_overwrite trivial))
        (scripted_method <|
          .bind (.require trivial) <| .transform (scripted_replaceConstant rfl))⟩

theorem guarded_privacy : Guarded privacy ⟨.privacy, []⟩ :=
  ⟨_, rfl, fun _ =>
    .lift <| .forM fun _ _ => quiet_hostRule <| quiet_oneMethod <|
      .bind (.require trivial) <| .transform (scripted_stub trivial)⟩

theorem guarded_assetSocket : Guarded assetSocket ⟨.websocketUrl, [⟨"url", .text⟩]⟩ :=
  ⟨_, rfl, fun _ =>
    .bind_text fun _ =>
    .lift <| quiet_hostRule <|
      .bind (scripted_require trivial) <|
      quiet_oneMethod <|
        .bind (.require trivial) <|
        .bind (.require trivial) <| .transform (scripted_adviceBefore trivial)⟩

theorem guarded_levelHead : Guarded levelHead ⟨.removeFakeLevelHead, []⟩ :=
  ⟨_, rfl, fun _ =>
    .lift <| quiet_hostRule <| quiet_oneMethod <|
      .bind (.require trivial) <|
      .transform <| .bind (scripted_replaceCall trivial) (scripted_replaceCall trivial)⟩

theorem guarded_storeButton : Guarded storeButton ⟨.removeStoreButton, []⟩ :=
  ⟨_, rfl, fun _ =>
    .lift <| quiet_hostRule <| quiet_oneMethod <|
      .bind (.require trivial) <|
      .bind (.forM fun _ _ => .require trivial) <| .transform (scripted_methodExit trivial)⟩

theorem guarded_clothCapes : Guarded clothCapes ⟨.clothCapes, []⟩ :=
  ⟨_, rfl, fun _ =>
    .lift <| quiet_hostRule <|
      .bind (scripted_require trivial) <|
      quiet_oneMethod <|
        .bind (.require trivial) <|
        .bind (.require trivial) <| .transform (scripted_fixedValue trivial)⟩

theorem guarded_cameraShake : Guarded cameraShake ⟨.hurtCamShake, [⟨"multiplier", .float⟩]⟩ :=
  ⟨_, rfl, fun _ =>
    .bind_float fun _ =>
    .lift <| scripted_findPlatformClass trivial <|
      .bind scripted_setLabel <|
      .bind (scripted_require trivial) <|
      scripted_constantReplacement trivial rfl⟩

theorem guarded_mousePopup : Guarded mousePopup ⟨.removeMousePopup, []⟩ :=
  ⟨_, rfl, fun _ =>
    .lift <| quiet_hostRule <|
      .bind (scripted_require trivial) <|
      scripted_inMethods <| scripted_namedTransform trivial (scripted_stub trivial)⟩

theorem guarded_profilesCap : Guarded profilesCap ⟨.removeProfilesCap, []⟩ :=
  ⟨_, rfl, fun _ =>
    .lift <| quiet_hostRule <|
      .bind (scripted_require trivial) <|
      quiet_oneMethod <|
        .bind (.require trivial) <| .transform (scripted_replaceConstant rfl)⟩

theorem guarded_crackedAccounts : Guarded crackedAccounts ⟨.allowCrackedAccounts, []⟩ :=
  ⟨_, rfl, fun _ =>
    .lift <| quiet_hostRule <|
      .bind (scripted_require trivial) <|
      quiet_oneMethod <|
        .bind (.require trivial) <| .transform (scripted_fixedValue trivial)⟩

theorem guarded_hitDelay : Guarded hitDelay ⟨.noHitDelay, []⟩ :=
  ⟨_, rfl, fun _ =>
    .lift <| scripted_findPlatformClass trivial <|
      .bind scripted_setLabel <|
      quiet_oneMethod <|
        .bind (.require trivial) <|
        .transform <| .bind scripted_disableFrames (scripted_overwrite trivial)⟩

theorem guarded_emotes : Guarded emotes ⟨.infiniteEmotes, []⟩ :=
  ⟨_, rfl, fun _ =>
    .lift <| scripted_findNamedClass trivial <|
      .bind scripted_setLabel <|
      scripted_inMethods <| scripted_namedTransform trivial (scripted_stub trivial)⟩

end Sections

/-- The programs that make the default rules, each with its sections in their order and what they
read. -/
def guardedParts : List (Drafting RulesDraft Unit × List GuardedSection) :=
  [(frameCounter,
    [⟨.changeModStrings, [⟨"fps_text", .text⟩]⟩, ⟨.fpsSpoof, [⟨"multiplier", .float⟩]⟩]),
   (modTexts, [⟨.changeModStrings, [⟨"nickhider_text", .text⟩, ⟨"cps_text", .text⟩,
    ⟨"auto_gg_command", .text⟩, ⟨"level_head_text", .text⟩, ⟨"reach_text", .text⟩]⟩]),
   (sprintTexts, [⟨.toggleSprintText, sprintStates.map fun state => ⟨state.1, .text⟩⟩]),
   (metadata, [⟨.metadata, metadataSections.map fun entry => ⟨entry.1, .boolean⟩⟩,
    ⟨.metadataUrl, [⟨"metadata_url", .text⟩]⟩]),
   (presence, [⟨.discordRichPresence,
    [⟨"hook_owner", .text⟩, ⟨"hook_name", .text⟩, ⟨"client_id", .text⟩]⟩]),
   (privacy, [⟨.privacy, []⟩]),
   (assetSocket, [⟨.websocketUrl, [⟨"url", .text⟩]⟩]),
   (levelHead, [⟨.removeFakeLevelHead, []⟩]),
   (storeButton, [⟨.removeStoreButton, []⟩]),
   (clothCapes, [⟨.clothCapes, []⟩]),
   (cameraShake, [⟨.hurtCamShake, [⟨"multiplier", .float⟩]⟩]),
   (mousePopup, [⟨.removeMousePopup, []⟩]),
   (profilesCap, [⟨.removeProfilesCap, []⟩]),
   (crackedAccounts, [⟨.allowCrackedAccounts, []⟩]),
   (hitDelay, [⟨.noHitDelay, []⟩]),
   (emotes, [⟨.infiniteEmotes, []⟩])]

theorem parts_eq : parts = guardedParts.map fun part => (part.1, part.2.map (·.module)) := rfl

/-- The sections of the default rules in their order. -/
def guardedSections : List GuardedSection := guardedParts.flatMap Prod.snd

theorem issues_frameCounter (registry : Registry) :
    (alone registry frameCounter).issues =
      (GuardedSection.issue? registry ⟨.changeModStrings, [⟨"fps_text", .text⟩]⟩).toList ++
        (GuardedSection.issue? registry ⟨.fpsSpoof, [⟨"multiplier", .float⟩]⟩).toList := by
  rw [alone_frameCounter, frameCounterIssues, Registry.refused_eq fun _ => .text,
    Registry.refused_eq fun _ => .float]

theorem issues_metadata (registry : Registry) :
    (alone registry metadata).issues =
      (GuardedSection.issue? registry
        ⟨.metadata, metadataSections.map fun entry => ⟨entry.1, .boolean⟩⟩).toList ++
        (GuardedSection.issue? registry ⟨.metadataUrl, [⟨"metadata_url", .text⟩]⟩).toList := by
  rw [alone_metadata, metadataIssues, Registry.refused_eq fun _ => .hiddenSections _,
    Registry.refused_eq fun _ => .text]

/-- What a part raises is what is raised about its sections. -/
theorem issues_alone (registry : Registry) : ∀ part ∈ guardedParts,
    (alone registry part.1).issues =
      part.2.flatMap fun sec => (sec.issue? registry).toList := by
  have hsection {program : Drafting RulesDraft Unit} {sec : GuardedSection}
      (h : Guarded program sec) : (alone registry program).issues =
        [sec].flatMap fun sec => (sec.issue? registry).toList := by
    rw [List.flatMap_singleton, h.issues_alone]
  simp only [guardedParts, List.forall_mem_cons]
  refine ⟨?_, hsection guarded_modTexts, hsection guarded_sprintTexts, ?_,
    hsection guarded_presence, hsection guarded_privacy, hsection guarded_assetSocket,
    hsection guarded_levelHead, hsection guarded_storeButton, hsection guarded_clothCapes,
    hsection guarded_cameraShake, hsection guarded_mousePopup, hsection guarded_profilesCap,
    hsection guarded_crackedAccounts, hsection guarded_hitDelay, hsection guarded_emotes, nofun⟩
  · rw [issues_frameCounter, List.flatMap_cons, List.flatMap_singleton]
  · rw [issues_metadata, List.flatMap_cons, List.flatMap_singleton]

/-- What is raised while the default rules are made, section by section. -/
theorem issues_defaultRules_eq (registry : Registry) : (defaultRules registry).issues =
    guardedSections.flatMap fun sec => (sec.issue? registry).toList := by
  rw [issues_defaultRules, parts_eq, List.flatMap_map, guardedSections, List.flatMap_assoc]
  exact List.flatMap_congr fun part hpart => issues_alone registry part hpart

/-- Entries for which there is a value, and the values, in their order. -/
theorem forall₂_filter_flatMap {α β : Type} {p : α → Bool} {f : α → Option β} {R : α → β → Prop}
    (hp : ∀ a, (f a).isSome = p a) (hR : ∀ a b, f a = some b → R a b) (as : List α) :
    List.Forall₂ R (as.filter p) (as.flatMap fun a => (f a).toList) := by
  induction as with
  | nil => exact .nil
  | cons a as ih =>
    rw [List.filter_cons, List.flatMap_cons, ← hp]
    cases hvalue : f a with
    | none => exact ih
    | some b => exact .cons (hR a b hvalue) ih

/-- What is reported about the options of the default rules: in the order of the sections, the
problem with the first option that cannot be used, for each section of a module that takes part
which reads such an option. Nothing else is raised, and each issue is written down as a module that
is disabled. -/
theorem issues_exact (registry : Registry) :
    List.Forall₂ (fun sec issue => ∃ problem,
        (registry.state sec.module).problem? sec.needs = some problem ∧
          issue = .module sec.module problem)
      (guardedSections.filter (GuardedSection.isTroubled registry))
      (defaultRules registry).issues ∧
    (∀ issue ∈ (defaultRules registry).issues, ∃ name problem,
      issue = .module name problem ∧ registry.isEnabled name = true) ∧
    List.Forall₂ (fun issue event => ∃ name problem, issue = .module name problem ∧
        event = (Event.ofKind .moduleDisabled).saying (name.text ++ ": " ++ problem.message))
      (defaultRules registry).issues (defaultRules registry).journal.events := by
  -- an issue about a section is the problem of a module that takes part
  have hissue {sec : GuardedSection} {issue : EditError} (h : sec.issue? registry = some issue) :
      registry.isEnabled sec.module = true ∧ ∃ problem,
        (registry.state sec.module).problem? sec.needs = some problem ∧
          issue = .module sec.module problem := by
    unfold GuardedSection.issue? at h
    split at h
    · rename_i henabled
      obtain ⟨problem, hproblem, rfl⟩ := Option.map_eq_some_iff.1 h
      exact ⟨henabled, problem, hproblem, rfl⟩
    · cases h
  have howned : ∀ issue ∈ (defaultRules registry).issues, ∃ name problem,
      issue = .module name problem ∧ registry.isEnabled name = true := by
    intro issue hmem
    rw [issues_defaultRules_eq] at hmem
    obtain ⟨sec, -, hsec⟩ := List.mem_flatMap.1 hmem
    obtain ⟨henabled, problem, -, rfl⟩ := hissue (Option.mem_toList.1 hsec)
    exact ⟨sec.module, problem, rfl, henabled⟩
  refine ⟨?_, howned, ?_⟩
  · rw [issues_defaultRules_eq]
    exact forall₂_filter_flatMap (fun _ => GuardedSection.isSome_issue?)
      (fun _ _ h => (hissue h).2) guardedSections
  · -- the journal holds an event for each issue
    show List.Forall₂ _ _ ((defaultRules registry).issues.map issueEvent)
    rw [List.forall₂_map_right_iff, List.forall₂_same]
    intro issue hmem
    obtain ⟨name, problem, rfl, -⟩ := howned issue hmem
    exact ⟨name, problem, rfl, rfl⟩

/-- Of these three modules one has an option without a value from the start. -/
example :
    let registry := ((Registry.initial.setEnabled .fpsSpoof true).setEnabled .websocketUrl
      true).setEnabled .privacy true
    guardedSections.findIdxs (GuardedSection.isTroubled registry) = [8] ∧
      (guardedSections[8]?.map GuardedSection.module) = some .websocketUrl := by
  decide

end Tweak

end ClassEdit
