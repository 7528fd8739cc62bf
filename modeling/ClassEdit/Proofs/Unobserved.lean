import ClassEdit.Proofs.Disabling

/-!
# Options that are not observed

What a module is told in its options matters only if it takes part. The default rules, and what is
raised while they are made, are the same for all choices of modules and options that agree on which
modules take part and on the options of these. This is so although some class rules are begun before
it is known whether any of their modules takes part: a rule with nothing to apply is dropped. So if
no module takes part, there are no rules, and scans leave classes alone.

Options are compared by what is found under their keys. In which order they were given, and what
else was given before, does not matter either.

## Main definitions

* `Registry.Alike`: choices that agree on what takes part.

## Main results

* `InSection.alone_eq`: what one section makes is the same for both.
* `Tweak.defaultRules_eq`: so are the default rules.
* `Tweak.scan_eq_of_alike`: and so are all scans.
-/

namespace ClassEdit

namespace Registry

/-- The same modules take part, and their options say the same. -/
structure Alike (r r' : Registry) : Prop where
  isEnabled_eq : ∀ name, r'.isEnabled name = r.isEnabled name
  option_eq : ∀ name, r.isEnabled name = true → ∀ key,
    (r'.state name).option? key = (r.state name).option? key

variable {r r' : Registry} {α : Type} {read : ModuleState → Except EditError α}

theorem Alike.state (h : r.Alike r') {name : ModuleName} (henabled : r.isEnabled name = true) :
    (r.state name).Alike (r'.state name) :=
  ⟨by rw [r.name_state, r'.name_state], h.option_eq name henabled⟩

theorem state_setOption (r : Registry) (name other : ModuleName) (key : String)
    (value : OptionValue) : (r.setOption name key value).state other =
      if other = name then (r.state name).setOption key value else r.state other := rfl

/-- A module that does not take part may be told anything. -/
theorem alike_setOption {name : ModuleName} (hdisabled : r.isEnabled name = false) (key : String)
    (value : OptionValue) : r.Alike (r.setOption name key value) where
  isEnabled_eq other := by
    rw [isEnabled, isEnabled, state_setOption]
    by_cases hsame : other = name
    · rw [if_pos hsame, hsame]
      rfl
    · rw [if_neg hsame]
  option_eq other henabled key' := by
    have hother : other ≠ name := by
      rintro rfl
      rw [hdisabled] at henabled
      cases henabled
    rw [state_setOption, if_neg hother]

theorem Alike.given_eq (h : r.Alike r') (hread : ∀ m m', m.Alike m' → read m' = read m)
    (name : ModuleName) : r'.given name read = r.given name read := by
  unfold given
  rw [h.isEnabled_eq]
  split
  · rename_i henabled
    rw [hread _ _ (h.state henabled)]
  · rfl

theorem Alike.refused_eq (h : r.Alike r') (hread : ∀ m m', m.Alike m' → read m' = read m)
    (name : ModuleName) : r'.refused name read = r.refused name read := by
  unfold refused
  rw [h.isEnabled_eq]
  split
  · rename_i henabled
    rw [hread _ _ (h.state henabled)]
  · rfl

end Registry

variable {r r' : Registry}

/-- A section makes and raises the same under both choices, if it has no sections inside. -/
theorem InSection.alone_eq {style : Style} {name : ModuleName} {program : Drafting RulesDraft Unit}
    (h : InSection style name program) (hstyle : ∀ other, ¬ style.module other) (hr : r.Alike r') :
    (Tweak.alone r' program).rules = (Tweak.alone r program).rules ∧
      (Tweak.alone r' program).issues = (Tweak.alone r program).issues := by
  obtain ⟨body, rfl, hbody, hsame⟩ := h
  cases henabled : r.isEnabled name with
  | false =>
    have henabled' : r'.isEnabled name = false := (hr.isEnabled_eq name).trans henabled
    rw [Tweak.alone, Tweak.alone, made_withModule_of_disabled (s := RulesDraft.start r) henabled,
      made_withModule_of_disabled (s := RulesDraft.start r') henabled']
    exact ⟨rfl, rfl⟩
  | true =>
    have henabled' : r'.isEnabled name = true := (hr.isEnabled_eq name).trans henabled
    obtain ⟨t, ending, ht, -, hrun⟩ := hbody (r.state name)
    have hrun' : body (r'.state name) = fun s => (ending, made t.run s) :=
      (hsame _ _ (hr.state henabled)).trans hrun
    -- the body makes of matching drafts drafts that match
    have hagree : r.Agree style r' := fun other hother => absurd hother (hstyle other)
    have hmatched : RulesDraft.Matched style _ _ := Script.matched_run ht
      (Matching.enter (σ := RulesDraft) name (RulesDraft.Matched.start hagree))
    obtain ⟨registry, hafter⟩ := hmatched.same
    have hmade := made_withModule (s := RulesDraft.start r) henabled (congrFun hrun _)
      (List.nil_append _).symm
    have hmade' := made_withModule (s := RulesDraft.start r') henabled' (congrFun hrun' _)
      (List.nil_append _).symm
    rw [Tweak.alone, Tweak.alone, hmade, hmade', hafter]
    generalize made t.run (Draft.enter name (RulesDraft.start r)) = after
    -- both sections end in the same way, and are kept or taken back
    cases sectionFailure? name ending (Draft.issues after) <;> exact ⟨rfl, rfl⟩

namespace Tweak

theorem frameCounter_eq (h : r.Alike r') : frameCounterEdits r' = frameCounterEdits r ∧
    frameCounterIssues r' = frameCounterIssues r := by
  have htext (m m' : ModuleState) (hm : m.Alike m') : m'.text "fps_text" = m.text "fps_text" :=
    hm.text_eq _
  have hfloat (m m' : ModuleState) (hm : m.Alike m') :
      m'.float "multiplier" = m.float "multiplier" := hm.float_eq _
  constructor
  · rw [frameCounterEdits, frameLabel, frameMultiplier, h.given_eq htext, h.given_eq hfloat]
    rfl
  · rw [frameCounterIssues, h.refused_eq htext, h.refused_eq hfloat]
    rfl

theorem metadata_eq (h : r.Alike r') :
    metadataMethods r' = metadataMethods r ∧ metadataIssues r' = metadataIssues r := by
  have hsections (m m' : ModuleState) (hm : m.Alike m') :
      hiddenSections m' metadataSections = hiddenSections m metadataSections :=
    hiddenSections_eq hm _
  have htext (m m' : ModuleState) (hm : m.Alike m') :
      m'.text "metadata_url" = m.text "metadata_url" := hm.text_eq _
  constructor
  · rw [metadataMethods, h.given_eq hsections, h.given_eq htext]
    rfl
  · rw [metadataIssues, h.refused_eq hsections, h.refused_eq htext]
    rfl

/-- Every part makes and raises the same under both choices. -/
theorem alone_eq_of_alike (h : r.Alike r') {part : Drafting RulesDraft Unit × List ModuleName}
    (hpart : part ∈ parts) : (alone r' part.1).rules = (alone r part.1).rules ∧
      (alone r' part.1).issues = (alone r part.1).issues := by
  rcases parts_cases 0 part hpart with rfl | rfl | rfl | ⟨name, -, hsection⟩
  · obtain ⟨hedits, hissues⟩ := frameCounter_eq h
    rw [alone_frameCounter, alone_frameCounter, hedits, hissues]
    exact ⟨rfl, rfl⟩
  · obtain ⟨hmethods, hissues⟩ := metadata_eq h
    rw [alone_metadata, alone_metadata, hmethods, hissues]
    exact ⟨rfl, rfl⟩
  · exact (@inSection_cameraShake []).alone_eq (fun other => List.not_mem_nil) h
  · exact (hsection []).alone_eq (fun other => List.not_mem_nil) h

/-- The default rules are the same, and so is what was raised and written down about them. -/
theorem defaultRules_eq (h : r.Alike r') : defaultRules r' = defaultRules r := by
  have hbuild (registry : Registry) : defaultRules registry =
      ⟨(defaultRules registry).rules, (defaultRules registry).issues,
        ⟨(defaultRules registry).issues.map RulesDraft.issueEvent⟩⟩ := rfl
  have hrules : (defaultRules r').rules = (defaultRules r).rules := by
    rw [rules_defaultRules, rules_defaultRules]
    exact List.flatMap_congr fun part hpart => (alone_eq_of_alike h hpart).1
  have hissues : (defaultRules r').issues = (defaultRules r).issues := by
    rw [issues_defaultRules, issues_defaultRules]
    exact List.flatMap_congr fun part hpart => (alone_eq_of_alike h hpart).2
  rw [hbuild r', hrules, hissues]
  rfl

/-- If no module takes part, the choice is like that from the start. -/
theorem alike_initial (hnone : ∀ name, r.isEnabled name = false) : Registry.initial.Alike r where
  isEnabled_eq name := (hnone name).trans rfl
  option_eq _ henabled := nomatch henabled

/-- The options of modules that do not take part are not observed. Under two choices of modules and
options that agree on what takes part, the default rules are the same, with all that was raised
while they were made, and so is what every scan does to a class and reports about it, however labels
are picked. With no module taking part there are no rules and nothing is raised, and every scan
leaves the class as it was and writes nothing down. -/
theorem scan_eq_of_alike (r r' : Registry)
    (hmodules : ∀ name, r.isEnabled name = r'.isEnabled name)
    (hoptions : ∀ name, r.isEnabled name = true → ∀ key,
      (r.state name).option? key = (r'.state name).option? key) :
    defaultRules r = defaultRules r' ∧
      (∀ (naming naming' : Nat → Naming) owner,
        ((Session.start (defaultRules r) naming).scan owner).1 =
          ((Session.start (defaultRules r') naming').scan owner).1) ∧
      ((∀ name, r.isEnabled name = false) →
        (defaultRules r).rules = [] ∧ (defaultRules r).issues = [] ∧
          ∀ (naming : Nat → Naming) owner,
            let after := ((Session.start (defaultRules r) naming).scan owner).1
            after.owner = owner ∧ after.report = .start owner.name ∧
              after.report.journal.events = []) := by
  have halike : r.Alike r' := ⟨fun name => (hmodules name).symm,
    fun name henabled key => (hoptions name henabled key).symm⟩
  have hsame : defaultRules r = defaultRules r' := (defaultRules_eq halike).symm
  refine ⟨hsame, fun naming naming' owner => ?_, fun hnone => ?_⟩
  · show (Scan.ofClass (naming 0) (defaultRules r).rules owner).1 =
      (Scan.ofClass (naming' 0) (defaultRules r').rules owner).1
    rw [← hsame, ofClass_defaultRules_eq r (naming 0) (naming' 0)]
  -- without modules that take part, the options are those of nobody
  have hinitial : defaultRules r = defaultRules Registry.initial :=
    defaultRules_eq (alike_initial hnone)
  have hrules : (defaultRules r).rules = [] := by
    rw [hinitial]
    rfl
  refine ⟨hrules, by rw [hinitial]; rfl, fun naming owner => ?_⟩
  have hscan : ((Session.start (defaultRules r) naming).scan owner).1 = Scan.start owner := by
    show (Scan.ofClass (naming 0) (defaultRules r).rules owner).1 = _
    rw [hrules]
    rfl
  rw [hscan]
  exact ⟨rfl, rfl, rfl⟩

/-- One module scales the frame counter. Another one, with which it shares the rule, does not take
part, and is told a label that is no text. -/
theorem scan_eq_of_untold_label :
    let r := Registry.initial.setEnabled .fpsSpoof true
    let r' := r.setOption .changeModStrings "fps_text" (.boolean true)
    (r.state .changeModStrings).option? "fps_text" ≠
        (r'.state .changeModStrings).option? "fps_text" ∧
      (defaultRules r).rules.map ClassRule.label = ["fps_mod"] ∧
        defaultRules r = defaultRules r' ∧
          ∀ (naming naming' : Nat → Naming) owner,
            ((Session.start (defaultRules r) naming).scan owner).1 =
              ((Session.start (defaultRules r') naming').scan owner).1 := by
  intro r r'
  have halike : r.Alike r' := Registry.alike_setOption rfl _ _
  obtain ⟨hrules, hscan, -⟩ := scan_eq_of_alike r r' (fun name => (halike.isEnabled_eq name).symm)
    fun name henabled key => (halike.option_eq name henabled key).symm
  exact ⟨by decide, rfl, hrules, hscan⟩

end Tweak

end ClassEdit
