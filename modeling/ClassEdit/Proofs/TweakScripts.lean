import ClassEdit.Proofs.ScaledScan
import ClassEdit.Proofs.Scripted
import ClassEdit.Tweak.Default

/-!
# The default rules as scripts

The default rules are made by sixteen programs, one after the other. All but two of them are one
section of one module. Each is a script, and apart from the frame counter and the camera shake they
only make rules that do not see whether the frame rate is scaled.

## Main definitions

* `Tweak.parts`: the programs, with the modules of their sections.
* `Tweak.alone`: what a program makes by itself.

## Main results

* `Tweak.scripted_part`: every part is a script with sections of its modules only.
* `Tweak.rules_defaultRules`, `Tweak.issues_defaultRules`: the default rules and what was raised,
  part by part.
* `Tweak.ofClass_defaultRules_eq`: what the default rules do does not depend on how labels are
  picked.
-/

namespace ClassEdit

/-! ### Calls that do not ask for the frame rate -/

section Rejects

variable {calls : MemberPattern}

theorem name_of_frameRateCalls {call : MethodRef} (h : frameRateCalls.acceptsCall call = true) :
    call.name = "bridge$getDebugFPS" := by
  simpa [frameRateCalls, MemberPattern.acceptsCall, Pattern.accepts, Clause.holds,
    MemberClause.holds, MethodRef.member] using h

/-- A pattern for calls of another name accepts no call that asks for the frame rate. -/
theorem rejects_of_named {name : String} (hname : name ≠ "bridge$getDebugFPS")
    (hmem : MemberClause.named name ∈ calls.clauses) (call : MethodRef)
    (h : frameRateCalls.acceptsCall call = true) : calls.acceptsCall call = false := by
  rw [Bool.eq_false_iff]
  intro haccepts
  have hholds : (call.name == name) = true := Pattern.accepts_iff.1 haccepts _ hmem
  rw [name_of_frameRateCalls h, beq_iff_eq] at hholds
  exact hname hholds.symm

/-- Nor does a pattern for constructors. -/
theorem rejects_of_constructor (hmem : MemberClause.constructor ∈ calls.clauses) (call : MethodRef)
    (h : frameRateCalls.acceptsCall call = true) : calls.acceptsCall call = false := by
  rw [Bool.eq_false_iff]
  intro haccepts
  have hholds : (call.name == constructorName) = true := Pattern.accepts_iff.1 haccepts _ hmem
  rw [name_of_frameRateCalls h] at hholds
  exact absurd hholds (by decide)

end Rejects

namespace Tweak

open BlockDraft MethodRuleDraft MethodsDraft ClassRuleDraft RulesDraft

/-! ### Programs that look at the site -/

section Sources

variable {w : UInt32}

theorem blind_sendHookedUpdate {hookOwner hookName : String} :
    (FragmentSource.assembled (sendHookedUpdate hookOwner hookName)).Blind w := by
  intro s s' n h
  have hfield {what : String} {condition : FieldDecl → Bool} :
      s'.classField what condition = s.classField what condition := h.classField_eq
  simp only [FragmentSource.resolve, sendHookedUpdate, hfield]

theorem blind_removeButton : (FragmentSource.assembled removeButton).Blind w := by
  intro s s' n h
  have hreference {what : String} {condition : FieldRef → Bool} :
      s'.fieldReference what condition = s.fieldReference what condition := h.fieldReference_eq
  simp only [FragmentSource.resolve, removeButton, hreference]
  -- the text may stand at different places in the two bodies, but it has the same field behind it
  rcases h.findString_cases "store" with ⟨e, hstring, hstring'⟩ | ⟨i, i', hstring, hstring', hafter⟩
  · rw [hstring, hstring']
    rfl
  · have hfound (i : Nat) (f : Nat → Assembler Unit) :
        (liftM (Except.ok i : Except EditError Nat) >>= f : Assembler Unit) = f i := rfl
    rw [hstring, hstring', hfound, hfound, hafter]

/-! None of the programs jumps to more than one label. -/

theorem definite_source {program : Assembler Unit} (h : program.Definite) :
    ∀ s ∈ some (FragmentSource.assembled fun _ => program), s.Definite := by
  rintro _ ⟨⟩
  exact .assembled fun _ => h

theorem definite_exchange {calls : MemberPattern} {text : String} :
    (Operation.callAdvice calls (some (.assembled fun _ => exchangeText text)) none).Definite :=
  Operation.definite_callAdvice
    (definite_source <| .of_aimsAt (l := ⟨0⟩) <| .bind (.emit nofun) fun _ => .emit nofun) nofun

theorem definite_scaling {calls : MemberPattern} {multiplier : UInt32} :
    (Operation.callAdvice calls none
      (some (.assembled fun _ => scaleInteger multiplier))).Definite :=
  Operation.definite_callAdvice nofun <| definite_source <| .of_aimsAt (l := ⟨0⟩) <|
    .bind (.emit nofun) fun _ =>
    .bind .constant fun _ =>
    .bind (.emit nofun) fun _ => .emit nofun

theorem definite_cancelCallback : cancelCallback.Definite :=
  .of_aimsAt (l := ⟨0⟩) <|
    .bind (.emit nofun) fun _ =>
    .bind (.emit nofun) fun _ => .emit nofun

theorem definite_removeButton {site : Site} : (removeButton site).Definite :=
  .read (site.definite_require _ _) fun _ =>
  .read (site.definite_require _ _) fun _ =>
  .read (site.definite_require _ _) fun _ =>
    .of_aimsAt (l := ⟨0⟩) <|
      .bind (.emit nofun) fun _ =>
      .bind (.emit nofun) fun _ =>
      .bind (.emit nofun) fun _ =>
      .bind (.emit nofun) fun _ =>
      .bind (.emit nofun) fun _ => .emit nofun

theorem definite_sendHookedUpdate {hookOwner hookName : String} {site : Site} :
    (sendHookedUpdate hookOwner hookName site).Definite :=
  .read (site.definite_require _ _) fun _ =>
    .of_newLabel fun _ =>
      .bind (.emit nofun) fun _ =>
      .bind (.emit nofun) fun _ =>
      .bind (.emit nofun) fun _ =>
      .bind (.emit nofun) fun _ =>
      .bind (.emit fun _ => List.mem_singleton.1) fun _ =>
      .bind (.emit nofun) fun _ =>
      .bind .mark fun _ =>
      .bind (.emit nofun) fun _ =>
      .bind (.emit nofun) fun _ =>
      .bind (.emit nofun) fun _ =>
      .bind (.emit nofun) fun _ =>
      .bind (.emit nofun) fun _ => .emit nofun

end Sources

/-! ### What the sections read -/

section Reading

variable {m : ModuleState}

theorem readsOwn_hiddenSections {sections : List (String × String)} :
    ReadsOwn m (hiddenSections m sections) := by
  induction sections with
  | nil => exact .pure
  | cons entry rest ih => exact .bind readsOwn_boolean fun _ => .bind ih fun _ => .pure

theorem readsOwn_stateReplacements {states : List (String × String)} :
    ReadsOwn m (stateReplacements m states) := by
  induction states with
  | nil => exact .pure
  | cons entry rest ih => exact .bind readsOwn_text fun _ => .bind ih fun _ => .pure

/-- The states of the sprint toggle are texts. -/
theorem kind_stateReplacements {states : List (String × String)}
    {replacements : List (Constant × Constant)}
    (h : stateReplacements m states = .ok replacements) :
    ∀ pair ∈ replacements, pair.1.kind ≠ .float := by
  induction states generalizing replacements with
  | nil =>
    cases h
    exact nofun
  | cons entry rest ih =>
    obtain ⟨text, -, h⟩ := bind_eq_ok_iff.1 h
    obtain ⟨others, hothers, h⟩ := bind_eq_ok_iff.1 h
    cases h
    exact List.forall_mem_cons.2 ⟨nofun, ih hothers⟩

theorem hiddenSections_eq {m' : ModuleState} (h : m.Alike m') (sections : List (String × String)) :
    hiddenSections m' sections = hiddenSections m sections := by
  induction sections with
  | nil => rfl
  | cons entry rest ih => rw [hiddenSections, hiddenSections, h.boolean_eq, ih]

theorem stateReplacements_eq {m' : ModuleState} (h : m.Alike m') (states : List (String × String)) :
    stateReplacements m' states = stateReplacements m states := by
  induction states with
  | nil => rfl
  | cons entry rest ih => rw [stateReplacements, stateReplacements, h.text_eq, ih]

end Reading

/-! ### Programs that are one section -/

section Sections

variable {w : UInt32} {modules : List ModuleName}

/-- A rule about a class of the application, under a label. -/
theorem scripted_hostRule {label : String} {program : Unit → Drafting ClassRuleDraft Unit}
    (h : Scripted ClassRuleCall (Style.blind w modules) (program ())) :
    Scripted RulesCall (Style.blind w modules) (findHostClass (setLabel label >>= program)) :=
  scripted_findHostClass ClassClause.blind_host (.bind scripted_setLabel h)

/-- A rule about the edit of one method. -/
theorem scripted_oneMethod {label : String} {program : Drafting MethodRuleDraft Unit}
    (h : ScriptedMethod (Style.blind w modules) program) :
    Scripted ClassRuleCall (Style.blind w modules) (inMethods (method label program)) :=
  scripted_inMethods (scripted_method h)

/-- Replacing constants that are no numbers in single precision. -/
theorem scripted_replaceInHost {label : String} {strings : List String}
    {pairs : List (Constant × Constant)} (hkind : ∀ pair ∈ pairs, pair.1.kind ≠ .float) :
    Scripted RulesCall (Style.blind w modules) (replaceInHost label strings pairs) :=
  scripted_hostRule <|
    .bind (.forM fun _ _ => scripted_require ClassClause.blind_contains) <|
    scripted_constantReplacements fun pair hpair =>
      ⟨MethodClause.blind_hasConstant (hkind pair hpair),
        Operation.blind_replaceConstant (hkind pair hpair), Operation.definite_replaceConstant⟩

theorem scripted_keystrokes {clicks : String} :
    Scripted RulesCall (Style.blind w modules) (keystrokes clicks) :=
  scripted_hostRule <|
    scripted_inMethods <|
    .bind
      (scripted_method <|
        .bind (.require MethodClause.blind_constructor) (.require MethodClause.blind_argument))
      (scripted_unnamedMethod <|
        .bind (.require MethodClause.blind_loadsPart) <|
        .bind (.require MethodClause.blind_calls) <|
        .transform <| scripted_replaceString
          ⟨Operation.blind_replaceString, Operation.definite_replaceString⟩)

theorem inSection_modTexts : InSection (Style.blind w modules) .changeModStrings modTexts :=
  ⟨_, rfl, fun _ =>
    .bind_read readsOwn_text fun _ =>
    .bind_read readsOwn_text fun _ =>
    .bind_read readsOwn_text fun _ =>
    .bind_read readsOwn_text fun _ =>
    .bind_read readsOwn_text fun _ =>
    .bind_lift (scripted_replaceInHost (by simp [Constant.kind])) <|
    .bind_lift (scripted_replaceInHost (by simp [Constant.kind])) <|
    .bind_lift scripted_keystrokes <|
    .bind_lift (scripted_replaceInHost (by simp [Constant.kind])) <|
    .lift (scripted_replaceInHost (by simp [labeled, Constant.kind])),
    fun _ _ h => by simp only [h.text_eq]⟩

theorem inSection_sprintTexts : InSection (Style.blind w modules) .toggleSprintText sprintTexts :=
  ⟨_, rfl, fun _ =>
    .bind_read_ok readsOwn_stateReplacements fun _ hreplacements =>
    .lift <| scripted_hostRule <|
      .bind (scripted_require ClassClause.blind_isEnum) <|
      .bind (scripted_require ClassClause.blind_contains) <|
      .bind (scripted_require ClassClause.blind_contains) <|
      scripted_constantReplacements fun pair hpair =>
        have hkind := kind_stateReplacements hreplacements pair hpair
        ⟨MethodClause.blind_hasConstant hkind, Operation.blind_replaceConstant hkind,
          Operation.definite_replaceConstant⟩,
    fun _ _ h => by simp only [stateReplacements_eq h]⟩

/-- Names are exchanged where no number in single precision is. -/
theorem scripted_metadata (hmetadata : .metadata ∈ modules) (hurl : .metadataUrl ∈ modules) :
    Scripted RulesCall (Style.blind w modules) metadata :=
  scripted_hostRule <|
    .bind (scripted_require ClassClause.blind_contains) <|
    scripted_inMethods <|
    .bind
      (.withModule hmetadata fun _ =>
        .bind_read readsOwn_hiddenSections fun _ =>
        .lift <| scripted_method <|
          .bind (.require MethodClause.blind_loads) <|
          .transform <| .forM fun _ _ =>
            scripted_replaceConstant
              ⟨Operation.blind_replaceConstant nofun, Operation.definite_replaceConstant⟩)
      (.withModule hurl fun _ =>
        .bind_read readsOwn_text fun _ =>
        .lift <| scripted_method <|
          .bind (.require MethodClause.blind_loads) <|
          .transform <| scripted_adviceBefore
            ⟨Operation.blind_callAdvice (rejects_of_named (by decide) (.head _)) (by simp)
              (by simp),
              definite_exchange⟩)

theorem inSection_presence : InSection (Style.blind w modules) .discordRichPresence presence :=
  ⟨_, rfl, fun _ =>
    .bind_read readsOwn_text fun _ =>
    .bind_read readsOwn_text fun _ =>
    .bind_read readsOwn_text fun _ =>
    .lift <| scripted_hostRule <|
      .bind (scripted_require ClassClause.blind_contains) <|
      scripted_inMethods <|
      .bind
        (scripted_method <|
          .bind (.require MethodClause.blind_loads) <|
          .transform <| scripted_overwrite
            ⟨Operation.blind_overwrite blind_sendHookedUpdate,
              Operation.definite_overwrite <| .assembled fun _ =>
                definite_sendHookedUpdate⟩)
        (scripted_method <|
          .bind (.require MethodClause.blind_constructor) <|
          .transform <| scripted_replaceConstant
            ⟨Operation.blind_replaceConstant nofun, Operation.definite_replaceConstant⟩),
    fun _ _ h => by simp only [h.text_eq]⟩

theorem inSection_privacy : InSection (Style.blind w modules) .privacy privacy :=
  ⟨_, rfl, fun _ =>
    .lift <| .forM fun _ _ => scripted_hostRule <|
      scripted_oneMethod <|
        .bind (.require MethodClause.blind_loads) <|
        .transform (scripted_stub ⟨Operation.blind_stub, Operation.definite_stub⟩),
    fun _ _ _ => rfl⟩

theorem inSection_assetSocket : InSection (Style.blind w modules) .websocketUrl assetSocket :=
  ⟨_, rfl, fun _ =>
    .bind_read readsOwn_text fun _ =>
    .lift <| scripted_hostRule <|
      .bind (scripted_require ClassClause.blind_inherits) <|
      scripted_oneMethod <|
        .bind (.require MethodClause.blind_constructor) <|
        .bind (.require MethodClause.blind_loads) <|
        .transform <| scripted_adviceBefore
          ⟨Operation.blind_callAdvice (rejects_of_constructor (.head _)) (by simp) (by simp),
            definite_exchange⟩,
    fun _ _ h => by simp only [h.text_eq]⟩

theorem inSection_levelHead : InSection (Style.blind w modules) .removeFakeLevelHead levelHead :=
  ⟨_, rfl, fun _ =>
    .lift <| scripted_hostRule <|
      scripted_oneMethod <|
        .bind (.require MethodClause.blind_loads) <|
        .transform <|
        .bind
          (scripted_replaceCall
            ⟨Operation.blind_replaceCall (rejects_of_named (by decide) (.head _)) nofun,
              Operation.definite_replaceCall nofun⟩)
          (scripted_replaceCall
            ⟨Operation.blind_replaceCall (rejects_of_named (by decide) (.head _)) (by simp),
              Operation.definite_replaceCall <| definite_source <| .of_aimsAt (l := ⟨0⟩) <|
                .bind (.emit nofun) fun _ => .emit nofun⟩),
    fun _ _ _ => rfl⟩

theorem inSection_storeButton : InSection (Style.blind w modules) .removeStoreButton storeButton :=
  ⟨_, rfl, fun _ =>
    .lift <| scripted_hostRule <|
      scripted_oneMethod <|
        .bind (.require MethodClause.blind_constructor) <|
        .bind (.forM fun _ _ => .require MethodClause.blind_loads) <|
        .transform <| scripted_methodExit
          ⟨Operation.blind_methodExit blind_removeButton,
            Operation.definite_methodExit <| .assembled fun _ => definite_removeButton⟩,
    fun _ _ _ => rfl⟩

theorem inSection_clothCapes : InSection (Style.blind w modules) .clothCapes clothCapes :=
  ⟨_, rfl, fun _ =>
    .lift <| scripted_hostRule <|
      .bind (scripted_require ClassClause.blind_contains) <|
      scripted_oneMethod <|
        .bind (.require MethodClause.blind_returns) <|
        .bind (.require MethodClause.blind_loads) <|
        .transform (scripted_fixedValue ⟨Operation.blind_stub, Operation.definite_stub⟩),
    fun _ _ _ => rfl⟩

theorem inSection_mousePopup : InSection (Style.blind w modules) .removeMousePopup mousePopup :=
  ⟨_, rfl, fun _ =>
    .lift <| scripted_hostRule <|
      .bind (scripted_require ClassClause.blind_contains) <|
      scripted_inMethods <|
        scripted_namedTransform MethodClause.blind_named <|
          scripted_stub ⟨Operation.blind_stub, Operation.definite_stub⟩,
    fun _ _ _ => rfl⟩

theorem inSection_profilesCap : InSection (Style.blind w modules) .removeProfilesCap profilesCap :=
  ⟨_, rfl, fun _ =>
    .lift <| scripted_hostRule <|
      .bind (scripted_require ClassClause.blind_contains) <|
      scripted_oneMethod <|
        .bind (.require MethodClause.blind_loads) <|
        .transform <| scripted_replaceConstant
          ⟨Operation.blind_replaceConstant nofun, Operation.definite_replaceConstant⟩,
    fun _ _ _ => rfl⟩

theorem inSection_crackedAccounts :
    InSection (Style.blind w modules) .allowCrackedAccounts crackedAccounts :=
  ⟨_, rfl, fun _ =>
    .lift <| scripted_hostRule <|
      .bind (scripted_require ClassClause.blind_contains) <|
      scripted_oneMethod <|
        .bind (.require MethodClause.blind_calls) <|
        .transform (scripted_fixedValue ⟨Operation.blind_stub, Operation.definite_stub⟩),
    fun _ _ _ => rfl⟩

theorem inSection_hitDelay : InSection (Style.blind w modules) .noHitDelay hitDelay :=
  ⟨_, rfl, fun _ =>
    .lift <| scripted_findPlatformClass ClassClause.blind_platform <|
      .bind scripted_setLabel <|
      scripted_oneMethod <|
        .bind (.require MethodClause.blind_references) <|
        .transform <|
        .bind scripted_disableFrames <|
        scripted_overwrite
          ⟨Operation.blind_overwrite FragmentSource.blind_assembled,
            Operation.definite_overwrite <| .assembled fun _ => definite_cancelCallback⟩,
    fun _ _ _ => rfl⟩

theorem inSection_emotes : InSection (Style.blind w modules) .infiniteEmotes emotes :=
  ⟨_, rfl, fun _ =>
    .lift <| scripted_findNamedClass ClassClause.blind_ofName <|
      .bind scripted_setLabel <|
      scripted_inMethods <|
        scripted_namedTransform MethodClause.blind_named <|
          scripted_stub ⟨Operation.blind_stub, Operation.definite_stub⟩,
    fun _ _ _ => rfl⟩

end Sections

/-! ### The parts that see the scaling -/

/-- The style of programs with sections of some modules only, which leave no choice which label a
failure names. -/
def sectionsOf (modules : List ModuleName) : Style where
  module := (· ∈ modules)
  classClause _ := True
  methodClause _ := True
  operation := Operation.Definite

theorem scripted_frameCounter :
    Scripted RulesCall (sectionsOf [.changeModStrings, .fpsSpoof]) frameCounter :=
  scripted_findHostClass trivial <|
    .bind scripted_setLabel <|
    .bind (scripted_require trivial) <|
    scripted_inMethods <| scripted_method <|
      .bind (.require trivial) <|
      .transform <|
      .bind
        (.withModule (.head _) fun _ =>
          .bind_read readsOwn_text fun _ =>
          .lift (scripted_replaceConstant Operation.definite_replaceConstant))
        (.withModule (.tail _ (.head _)) fun _ =>
          .bind_read readsOwn_float fun _ => .lift (scripted_adviceAfter definite_scaling))

theorem inSection_cameraShake {modules : List ModuleName} :
    InSection (sectionsOf modules) .hurtCamShake cameraShake :=
  ⟨_, rfl, fun _ =>
    .bind_read readsOwn_float fun _ =>
    .lift <| scripted_findPlatformClass trivial <|
      .bind scripted_setLabel <|
      .bind (scripted_require trivial) <|
      scripted_constantReplacement trivial Operation.definite_replaceConstant,
    fun _ _ h => by simp only [h.float_eq]⟩

/-! ### All parts -/

/-- The programs that make the default rules, each with the modules of its sections. -/
def parts : List (Drafting RulesDraft Unit × List ModuleName) :=
  [(frameCounter, [.changeModStrings, .fpsSpoof]), (modTexts, [.changeModStrings]),
   (sprintTexts, [.toggleSprintText]), (metadata, [.metadata, .metadataUrl]),
   (presence, [.discordRichPresence]), (privacy, [.privacy]), (assetSocket, [.websocketUrl]),
   (levelHead, [.removeFakeLevelHead]), (storeButton, [.removeStoreButton]),
   (clothCapes, [.clothCapes]), (cameraShake, [.hurtCamShake]),
   (mousePopup, [.removeMousePopup]), (profilesCap, [.removeProfilesCap]),
   (crackedAccounts, [.allowCrackedAccounts]), (hitDelay, [.noHitDelay]),
   (emotes, [.infiniteEmotes])]

theorem all_eq : all = parts.forM fun part => part.1 := by
  simp only [all, texts, connections, play, parts, List.forM, bind_assoc, bind_pure_unit]

/-- Most parts are one section, and do not see the scaling. -/
theorem parts_cases (w : UInt32) : ∀ part ∈ parts,
    part = (frameCounter, [.changeModStrings, .fpsSpoof]) ∨
      part = (metadata, [.metadata, .metadataUrl]) ∨ part = (cameraShake, [.hurtCamShake]) ∨
        ∃ name, part.2 = [name] ∧
          ∀ modules, InSection (Style.blind w modules) name part.1 := by
  have hsection {name : ModuleName} {program : Drafting RulesDraft Unit}
      (h : ∀ {modules}, InSection (Style.blind w modules) name program) :
      (program, [name]) = (frameCounter, [.changeModStrings, .fpsSpoof]) ∨
        (program, [name]) = (metadata, [.metadata, .metadataUrl]) ∨
          (program, [name]) = (cameraShake, [.hurtCamShake]) ∨
            ∃ name', [name] = [name'] ∧
              ∀ modules, InSection (Style.blind w modules) name' program :=
    .inr (.inr (.inr ⟨name, rfl, fun _ => h⟩))
  simp only [parts, List.forall_mem_cons]
  exact ⟨.inl trivial, hsection inSection_modTexts, hsection inSection_sprintTexts,
    .inr (.inl trivial),
    hsection inSection_presence, hsection inSection_privacy, hsection inSection_assetSocket,
    hsection inSection_levelHead, hsection inSection_storeButton, hsection inSection_clothCapes,
    .inr (.inr (.inl trivial)), hsection inSection_mousePopup, hsection inSection_profilesCap,
    hsection inSection_crackedAccounts, hsection inSection_hitDelay, hsection inSection_emotes,
    nofun⟩

/-- Every part is a script with sections of its modules only, and leaves no choice which label a
failure names. -/
theorem scripted_part {part : Drafting RulesDraft Unit × List ModuleName} (h : part ∈ parts) :
    ∃ style : Style, style.module = (· ∈ part.2) ∧ (∀ op, style.operation op → op.Definite) ∧
      Scripted RulesCall style part.1 := by
  have hblind (op : Operation) (hop : (Style.blind 0 part.2).operation op) : op.Definite := hop.2
  rcases parts_cases 0 part h with rfl | rfl | rfl | ⟨name, hname, hsection⟩
  · exact ⟨_, rfl, fun _ => id, scripted_frameCounter⟩
  · exact ⟨Style.blind 0 _, rfl, hblind, scripted_metadata (.head _) (.tail _ (.head _))⟩
  · exact ⟨sectionsOf _, rfl, fun _ => id, inSection_cameraShake.scripted (.head _)⟩
  · refine ⟨Style.blind 0 part.2, rfl, hblind, (hsection part.2).scripted ?_⟩
    rw [hname]
    exact .head _

/-- What a program makes by itself. -/
def alone (registry : Registry) (program : Drafting RulesDraft Unit) : RulesDraft :=
  made program (RulesDraft.start registry)

/-- What a script makes of a draft is what it makes by itself, behind what is there. -/
theorem made_eq_alone {style : Style} {program : Drafting RulesDraft Unit}
    (h : Scripted RulesCall style program) (registry : Registry) (before : List ClassRule)
    (raised : List EditError) : made program ⟨registry, before, raised, none⟩ =
      ⟨registry, before ++ (alone registry program).rules,
        raised ++ (alone registry program).issues, none⟩ := by
  obtain ⟨t, -, rfl⟩ := h
  -- the draft is the empty one put onto what is there
  have hmade := made_run_onto t (RulesDraft.start registry) ⟨registry, before, raised, none⟩
  obtain ⟨_, _, hgrown⟩ : RulesDraft.Grown (RulesDraft.start registry) (alone registry t.run) :=
    Script.grown_run t (RulesDraft.start registry)
  rw [hgrown]
  rw [show made t.run (RulesDraft.start registry) = alone registry t.run from rfl, hgrown, onto]
    at hmade
  exact (congrArg (made t.run) (onto_blank _).symm).trans hmade

theorem made_parts {ps : List (Drafting RulesDraft Unit × List ModuleName)} (hps : ps ⊆ parts)
    {registry : Registry} (before : List ClassRule) (raised : List EditError) :
    made (ps.forM fun part => part.1) ⟨registry, before, raised, none⟩ =
      ⟨registry, before ++ ps.flatMap fun part => (alone registry part.1).rules,
        raised ++ ps.flatMap fun part => (alone registry part.1).issues, none⟩ := by
  induction ps generalizing before raised with
  | nil =>
    rw [List.flatMap_nil, List.append_nil, List.flatMap_nil, List.append_nil]
    rfl
  | cons part ps ih =>
    obtain ⟨style, -, -, hscripted⟩ := scripted_part (hps List.mem_cons_self)
    have hrest : ps ⊆ parts := fun part hpart => hps (List.mem_cons_of_mem _ hpart)
    show made (ps.forM fun part => part.1) (made part.1 ⟨registry, before, raised, none⟩) = _
    rw [made_eq_alone hscripted, ih hrest, List.flatMap_cons, List.flatMap_cons, List.append_assoc,
      List.append_assoc]

/-- The default rules and what is raised while they are made, part by part. -/
theorem made_all (registry : Registry) : made all (RulesDraft.start registry) =
    ⟨registry, parts.flatMap fun part => (alone registry part.1).rules,
      parts.flatMap fun part => (alone registry part.1).issues, none⟩ := by
  rw [all_eq, RulesDraft.start, made_parts (List.Subset.refl parts), List.nil_append,
    List.nil_append]

/-- The default rules are those of the parts, one after the other. -/
theorem rules_defaultRules (registry : Registry) : (defaultRules registry).rules =
    parts.flatMap fun part => (alone registry part.1).rules :=
  congrArg RulesDraft.rules (made_all registry)

/-- What is raised while the default rules are made is what the parts raise. -/
theorem issues_defaultRules (registry : Registry) : (defaultRules registry).issues =
    parts.flatMap fun part => (alone registry part.1).issues :=
  congrArg RulesDraft.issues (made_all registry)

/-- No default rule leaves a choice which label a failure names. -/
theorem definite_of_mem_defaultRules (registry : Registry) :
    ∀ rule ∈ (defaultRules registry).rules, rule.Definite := by
  intro rule hrule
  rw [rules_defaultRules] at hrule
  obtain ⟨part, hpart, hrule⟩ := List.mem_flatMap.1 hrule
  obtain ⟨style, -, hdefinite, t, ht, hrun⟩ := scripted_part hpart
  -- the rules of a script keep to its style
  have hmatched : RulesDraft.Matched style _ _ :=
    Script.matched_run ht (.start (Registry.Agree.refl style registry))
  rw [alone, ← hrun] at hrule
  have hstyle := hmatched.rules rule hrule
  exact ClassRule.definite_of_operations fun m hm b hb op hop =>
    hdefinite op ((hstyle.methods m hm).operations b hb op hop)

/-- The default rules do the same to a class, and report the same, however labels are picked. -/
theorem ofClass_defaultRules_eq (registry : Registry) (naming naming' : Naming)
    (owner : ClassDecl) : Scan.ofClass naming (defaultRules registry).rules owner =
      Scan.ofClass naming' (defaultRules registry).rules owner :=
  Scan.applyRules_eq_of_definite (definite_of_mem_defaultRules registry) naming naming' _

end Tweak

end ClassEdit
