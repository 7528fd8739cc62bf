import ClassEdit.Proofs.SharedRules

/-!
# Modules with problems are disabled

A module whose options cannot be used has a problem, and the sections in which the problem shows
make nothing, as if the module did not take part. For all modules but one this means that the module
as a whole does not take part, since each has one section only. The texts of displays are changed in
two sections that read different options, and one of them may fail alone. If both fail, what holds
of the other modules holds of this one too.

## Main results

* `Tweak.alone_eq_of_issue`: what becomes of a part that reported a problem.
* `Tweak.scan_eq_of_issue`: a scan is one without the module that has a problem.
* `Tweak.scan_ne_of_one_section`: where one of two sections fails alone, it is not.
-/

namespace ClassEdit

/-! ### Registries that differ in one module -/

namespace Registry

variable {α : Type} {registry : Registry} {name other : ModuleName} {enabled : Bool}
variable {read : ModuleState → Except EditError α}

theorem isEnabled_setEnabled : (registry.setEnabled name enabled).isEnabled name = enabled := by
  rw [isEnabled, setEnabled, state_update, if_pos rfl]

theorem state_setEnabled_of_ne (h : other ≠ name) :
    (registry.setEnabled name enabled).state other = registry.state other := by
  rw [setEnabled, state_update, if_neg h]

/-- A module that does not take part gives nothing. -/
theorem given_of_disabled (h : registry.isEnabled name = false) :
    registry.given name read = none := by
  rw [given, h]
  rfl

theorem given_setEnabled_of_ne (h : other ≠ name) :
    (registry.setEnabled name enabled).given other read = registry.given other read := by
  rw [given, given, isEnabled, isEnabled, state_setEnabled_of_ne h]

/-- A module that is refused gives nothing. -/
theorem given_of_mem_refused {issue : EditError} (h : issue ∈ registry.refused name read) :
    registry.given name read = none := by
  cases hgiven : registry.given name read with
  | none => rfl
  | some a =>
    rw [refused_of_given hgiven] at h
    cases h

/-- The refusal of a module is a problem of this module. -/
theorem name_of_mem_refused {problem : ModuleProblem} (hread : ∀ m, ReadsOwn m (read m))
    (h : .module other problem ∈ registry.refused name read) : other = name := by
  unfold refused at h
  split at h
  · split at h
    · cases h
    · rename_i e he
      obtain ⟨problem', rfl⟩ := hread _ e he
      rw [registry.name_state] at h
      cases List.mem_singleton.1 h
      rfl
  · cases h

/-- Where a module has no sections, it does not matter whether it takes part. -/
theorem agree_setEnabled {style : Style} (h : ¬ style.module name) :
    registry.Agree style (registry.setEnabled name enabled) := by
  intro other hother
  have hne : other ≠ name := fun hsame => h (hsame ▸ hother)
  rw [isEnabled, isEnabled, state_setEnabled_of_ne hne]
  exact ⟨rfl, fun _ => rfl⟩

end Registry

/-! ### Bodies that give up at once -/

/-- A body that gives up before it has changed anything. -/
def GivesUp {σ : Type} (body : SectionBody σ Unit) : Prop := ∃ e, body = fun s => (.error e, s)

namespace GivesUp

variable {σ α : Type} {read : Except EditError α} {f : α → SectionBody σ Unit}

theorem here {e : EditError} (h : read = .error e) : GivesUp (liftM read >>= f) := by
  rw [h]
  exact ⟨e, rfl⟩

/-- It may read something before it gives up. -/
theorem later (hf : ∀ a, GivesUp (f a)) : GivesUp (liftM read >>= f) := by
  cases h : read with
  | ok a => exact hf a
  | error e => exact .here rfl

/-- A section with such a body makes no rules. -/
theorem rules_eq {name : ModuleName} {body : ModuleState → SectionBody RulesDraft Unit}
    {s : RulesDraft} (h : GivesUp (body (s.registry.state name))) :
    (made (withModule name body) s).rules = s.rules := by
  cases henabled : s.registry.isEnabled name with
  | false => rw [made_withModule_of_disabled henabled]
  | true =>
    obtain ⟨e, he⟩ := h
    have hrun : (body ((Draft.registry s).state name)).run (Draft.enter name s) =
        (.error e, Draft.enter name s) := congrFun he _
    rw [made_withModule (s := s) henabled hrun (List.append_nil _).symm]
    split
    · rfl
    · rw [RulesDraft.Grown.rolledBack _ (Growing.refl (Draft.enter name s))]

end GivesUp

namespace Tweak

variable {registry : Registry} {name : ModuleName} {problem : ModuleProblem} {enabled : Bool}
variable {part : Drafting RulesDraft Unit × List ModuleName}

/-! ### Parts by themselves -/

/-- A part does not depend on a module of which it has no sections. -/
theorem alone_eq_of_not_mem (hpart : part ∈ parts) (hname : name ∉ part.2) :
    (alone (registry.setEnabled name enabled) part.1).rules = (alone registry part.1).rules := by
  obtain ⟨style, hstyle, -, t, ht, hrun⟩ := scripted_part hpart
  -- a script sees no more of a registry than the states of the modules of its sections
  have hagree : registry.Agree style (registry.setEnabled name enabled) :=
    Registry.agree_setEnabled (by rw [hstyle]; exact hname)
  have hmatched : RulesDraft.Matched style _ _ := Script.matched_run ht (.start hagree)
  obtain ⟨_, hsame⟩ := hmatched.same
  rw [alone, alone, ← hrun, hsame]

/-- The problems that a part reports are problems of its modules. -/
theorem mem_of_issue (hpart : part ∈ parts)
    (hissue : .module name problem ∈ (alone registry part.1).issues) : name ∈ part.2 := by
  obtain ⟨style, hstyle, -, t, ht, hrun⟩ := scripted_part hpart
  have hagree := Registry.Agree.refl style registry
  have hmatched : RulesDraft.Matched style _ _ := Script.matched_run ht (.start hagree)
  rw [alone, ← hrun] at hissue
  have hmodule := hmatched.issues _ hissue name problem rfl
  rwa [hstyle] at hmodule

/-- One section of a module makes nothing if the module has a problem or does not take part. -/
theorem alone_eq_of_section {style : Style} {program : Drafting RulesDraft Unit}
    (h : InSection style name program)
    (hissue : .module name problem ∈ (alone registry program).issues) :
    (alone (registry.setEnabled name false) program).rules = (alone registry program).rules := by
  -- nothing was raised before, so the section has failed
  have hraised : (alone registry program).issues ≠ (RulesDraft.start registry).issues :=
    List.ne_nil_of_mem hissue
  have hdisabled : (RulesDraft.start (registry.setEnabled name false)).registry.isEnabled name =
    false := Registry.isEnabled_setEnabled
  rw [alone, alone, h.rules_of_issue hraised, h.rules_of_disabled hdisabled]
  rfl

/-- A problem with scaling the frame counter. -/
theorem frameCounterEdits_eq_of_issue
    (hissue : .module .fpsSpoof problem ∈ frameCounterIssues registry) :
    frameCounterEdits (registry.setEnabled .fpsSpoof false) = frameCounterEdits registry := by
  have hrefused : .module .fpsSpoof problem ∈
      registry.refused .fpsSpoof fun m => m.float "multiplier" := by
    rcases List.mem_append.1 hissue with h | h
    · exact absurd (Registry.name_of_mem_refused (fun _ => readsOwn_text) h) (by decide)
    · exact h
  -- nothing is given in either case
  rw [frameCounterEdits, frameCounterEdits, frameLabel, frameLabel, frameMultiplier,
    frameMultiplier, Registry.given_setEnabled_of_ne (by decide),
    Registry.given_of_mem_refused hrefused,
    Registry.given_of_disabled Registry.isEnabled_setEnabled]

/-- A problem with the metadata. -/
theorem metadataMethods_eq_of_issue (hname : name = .metadata ∨ name = .metadataUrl)
    (hissue : .module name problem ∈ metadataIssues registry) :
    metadataMethods (registry.setEnabled name false) = metadataMethods registry := by
  rcases hname with rfl | rfl
  · -- the problem is about the sections, or else it names the other module
    have hrefused : .module .metadata problem ∈
        registry.refused .metadata fun m => hiddenSections m metadataSections := by
      rcases List.mem_append.1 hissue with h | h
      · exact h
      · exact absurd (Registry.name_of_mem_refused (fun _ => readsOwn_text) h) (by decide)
    rw [metadataMethods, metadataMethods, Registry.given_of_mem_refused hrefused,
      Registry.given_of_disabled Registry.isEnabled_setEnabled,
      Registry.given_setEnabled_of_ne (by decide)]
  · have hrefused : .module .metadataUrl problem ∈
        registry.refused .metadataUrl fun m => m.text "metadata_url" := by
      rcases List.mem_append.1 hissue with h | h
      · exact absurd (Registry.name_of_mem_refused (fun _ => readsOwn_hiddenSections) h) (by decide)
      · exact h
    rw [metadataMethods, metadataMethods, Registry.given_of_mem_refused hrefused,
      Registry.given_of_disabled Registry.isEnabled_setEnabled,
      Registry.given_setEnabled_of_ne (by decide)]

/-- A part that reports a problem of a module makes what it makes without this module, unless the
module has sections in several parts. -/
theorem alone_eq_of_issue (hpart : part ∈ parts) (hname : name ≠ .changeModStrings)
    (hissue : .module name problem ∈ (alone registry part.1).issues) :
    (alone (registry.setEnabled name false) part.1).rules = (alone registry part.1).rules := by
  have hmem := mem_of_issue hpart hissue
  -- two parts share a rule between modules, all others are one section
  rcases parts_cases 0 part hpart with rfl | rfl | rfl | ⟨module, hmodule, hsection⟩
  · obtain rfl : name = .fpsSpoof := by simpa [hname] using hmem
    rw [alone_frameCounter] at hissue
    rw [alone_frameCounter, alone_frameCounter, frameCounterEdits_eq_of_issue hissue]
  · rw [alone_metadata] at hissue
    rw [alone_metadata, alone_metadata, metadataMethods_eq_of_issue (by simpa using hmem) hissue]
  · obtain rfl : name = .hurtCamShake := by simpa using hmem
    exact alone_eq_of_section (@inSection_cameraShake []) hissue
  · rw [hmodule] at hmem
    obtain rfl : name = module := List.mem_singleton.1 hmem
    exact alone_eq_of_section (hsection []) hissue

/-! ### The texts of displays -/

/-- The options that the second section of the texts reads. -/
def textKeys : List String :=
  ["nickhider_text", "cps_text", "auto_gg_command", "level_head_text", "reach_text"]

/-- The options of both sections of the texts cannot be used. -/
structure TextsRefused (m : ModuleState) : Prop where
  label : ∃ e, m.text "fps_text" = .error e
  others : ∃ key ∈ textKeys, ∃ e, m.text key = .error e

/-- The second section gives up over any of its options. -/
theorem alone_modTexts_of_refused (h : TextsRefused (registry.state .changeModStrings)) :
    (alone registry modTexts).rules = [] := by
  unfold alone modTexts
  refine GivesUp.rules_eq ?_
  obtain ⟨key, hkey, e, he⟩ := h.others
  -- the options before the one that cannot be used may be read or not
  simp only [textKeys, List.mem_cons, List.not_mem_nil, or_false] at hkey
  rcases hkey with rfl | rfl | rfl | rfl | rfl
  · exact .here he
  · exact .later fun _ => .here he
  · exact .later fun _ => .later fun _ => .here he
  · exact .later fun _ => .later fun _ => .later fun _ => .here he
  · exact .later fun _ => .later fun _ => .later fun _ => .later fun _ => .here he

theorem frameLabel_of_refused (h : TextsRefused (registry.state .changeModStrings)) :
    frameLabel registry = none := by
  obtain ⟨e, he⟩ := h.label
  rw [frameLabel, Registry.given, he]
  split <;> rfl

theorem parts_with_texts (hpart : part ∈ parts) (hmem : .changeModStrings ∈ part.2) :
    part.1 = frameCounter ∨ part.1 = modTexts := by
  simp only [parts, List.mem_cons, List.not_mem_nil, or_false] at hpart
  rcases hpart with rfl | rfl | rfl | rfl | rfl | rfl | rfl | rfl | rfl | rfl | rfl | rfl | rfl |
    rfl | rfl | rfl
  · exact .inl rfl
  · exact .inr rfl
  all_goals exact absurd hmem (by decide)

/-- Where both sections of the texts fail, no part makes anything of them. -/
theorem alone_eq_of_refused (hpart : part ∈ parts)
    (h : TextsRefused (registry.state .changeModStrings)) :
    (alone (registry.setEnabled .changeModStrings false) part.1).rules =
      (alone registry part.1).rules := by
  by_cases hmem : .changeModStrings ∈ part.2
  · have hdisabled : (registry.setEnabled .changeModStrings false).isEnabled .changeModStrings =
      false := Registry.isEnabled_setEnabled
    rcases parts_with_texts hpart hmem with hcounter | htexts
    · have hedits : frameCounterEdits (registry.setEnabled .changeModStrings false) =
          frameCounterEdits registry := by
        rw [frameCounterEdits, frameCounterEdits, frameLabel_of_refused h, frameLabel,
          Registry.given_of_disabled hdisabled, frameMultiplier, frameMultiplier,
          Registry.given_setEnabled_of_ne (by decide)]
      rw [hcounter, alone_frameCounter, alone_frameCounter, hedits]
    · rw [htexts, alone_modTexts_of_refused h]
      have hsection : InSection (Style.blind 0 [.changeModStrings]) .changeModStrings modTexts :=
        inSection_modTexts
      exact hsection.rules_of_disabled hdisabled
  · exact alone_eq_of_not_mem hpart hmem

/-! ### All parts -/

/-- Parts that share no module but that of the texts of displays. -/
def Apart (p q : Drafting RulesDraft Unit × List ModuleName) : Prop :=
  ∀ name, name ∈ p.2 → name ∈ q.2 → name = .changeModStrings

instance : Std.Symm Apart := ⟨fun _ _ h name hp hq => h name hq hp⟩

theorem apart_of_ne {p q : Drafting RulesDraft Unit × List ModuleName} (hp : p ∈ parts)
    (hq : q ∈ parts) (hne : p ≠ q) : Apart p q := by
  have hmodules : (parts.map Prod.snd).Pairwise fun names names' =>
      ∀ name ∈ names, name ∈ names' → name = .changeModStrings := by decide
  have hparts : parts.Pairwise Apart := (List.pairwise_map (f := Prod.snd)).1 hmodules
  exact hparts.forall hp hq hne

/-- The rules are those without the module that has a problem. -/
theorem rules_eq_of_issue (hissue : .module name problem ∈ (defaultRules registry).issues)
    (hboth : name = .changeModStrings → TextsRefused (registry.state .changeModStrings)) :
    (defaultRules (registry.setEnabled name false)).rules = (defaultRules registry).rules := by
  rw [issues_defaultRules] at hissue
  obtain ⟨reporting, hreporting, hissue⟩ := List.mem_flatMap.1 hissue
  rw [rules_defaultRules, rules_defaultRules]
  refine List.flatMap_congr fun part hpart => ?_
  -- part by part; the module may have a section in this part or not
  by_cases hname : name = .changeModStrings
  · subst hname
    exact alone_eq_of_refused hpart (hboth rfl)
  · by_cases hmem : name ∈ part.2
    · -- no other part has a section of the module
      obtain rfl : part = reporting := by
        by_contra hne
        exact hname (apart_of_ne hpart hreporting hne name hmem (mem_of_issue hreporting hissue))
      exact alone_eq_of_issue hpart hname hissue
    · exact alone_eq_of_not_mem hpart hmem

/-- A module with a problem is disabled as a whole, and no other module is affected: every scan does
what it does without this module, however labels are picked. If the module is that of the texts of
displays, both of its sections have to fail. -/
theorem scan_eq_of_issue (registry : Registry) (name : ModuleName) (problem : ModuleProblem)
    (hissue : .module name problem ∈ (defaultRules registry).issues)
    (hboth : name = .changeModStrings → TextsRefused (registry.state .changeModStrings))
    (naming naming' : Nat → Naming) (owner : ClassDecl) :
    ((Session.start (defaultRules registry) naming).scan owner).1 =
      ((Session.start (defaultRules (registry.setEnabled name false)) naming').scan owner).1 := by
  show (Scan.ofClass (naming 0) (defaultRules registry).rules owner).1 =
    (Scan.ofClass (naming' 0) (defaultRules (registry.setEnabled name false)).rules owner).1
  rw [rules_eq_of_issue hissue hboth, ofClass_defaultRules_eq registry (naming 0) (naming' 0)]

/-- Both sections of the texts read an option that is no text. -/
theorem scan_eq_of_two_sections :
    let registry := ((Registry.initial.setEnabled .changeModStrings true).setOption
      .changeModStrings "fps_text" (.boolean true)).setOption
      .changeModStrings "cps_text" (.boolean true)
    let owner : ClassDecl := ⟨"com/moonsworth/lunar/q/Z", none, [], .none, [],
      [⟨"a", "()Ljava/lang/String;", .accPublic, [], .string,
        [.ldc (.string "\x01 FPS"), .simple Opcode.areturn], [], 1, 1⟩], [.string "[1466 FPS]"]⟩
    .module .changeModStrings (.wrongOption "fps_text" .text (.boolean true)) ∈
        (defaultRules registry).issues ∧
      TextsRefused (registry.state .changeModStrings) ∧
        ∀ naming naming' : Nat → Naming,
          ((Session.start (defaultRules registry) naming).scan owner).1 =
            ((Session.start (defaultRules (registry.setEnabled .changeModStrings false))
              naming').scan owner).1 := by
  intro registry owner
  have hissue : .module .changeModStrings (.wrongOption "fps_text" .text (.boolean true)) ∈
      (defaultRules registry).issues := by decide +kernel
  have hrefused : TextsRefused (registry.state .changeModStrings) :=
    ⟨⟨_, rfl⟩, "cps_text", by decide, _, rfl⟩
  exact ⟨hissue, hrefused, fun naming naming' =>
    scan_eq_of_issue registry _ _ hissue (fun _ => hrefused) naming naming' owner⟩

set_option maxRecDepth 8000 in
/-- The label of the frame counter is a text, but that of the click counter is not: the module has a
problem, and still the label is replaced. -/
theorem scan_ne_of_one_section :
    let registry := ((Registry.initial.setEnabled .changeModStrings true).setOption
      .changeModStrings "fps_text" (.text "CPS")).setOption
      .changeModStrings "cps_text" (.boolean true)
    let owner : ClassDecl := ⟨"com/moonsworth/lunar/q/Z", none, [], .none, [],
      [⟨"a", "()Ljava/lang/String;", .accPublic, [], .string,
        [.ldc (.string "\x01 FPS"), .simple Opcode.areturn], [], 1, 1⟩], [.string "[1466 FPS]"]⟩
    let scanned := ((Session.start (defaultRules registry) fun _ _ => 0).scan owner).1
    let disabled := ((Session.start
      (defaultRules (registry.setEnabled .changeModStrings false)) fun _ _ => 0).scan owner).1
    .module .changeModStrings (.wrongOption "cps_text" .text (.boolean true)) ∈
        (defaultRules registry).issues ∧
      scanned.owner ≠ disabled.owner ∧
        scanned.report.transformed = ["a()Ljava/lang/String;"] ∧
          disabled.report.transformed = [] := by
  intro registry owner scanned disabled
  -- the text for frames can be read, and so the frame counter is edited as long as the module takes
  -- part
  have hrules : (defaultRules registry).rules = [frameCounterRule [labelEdit "CPS"]] := rfl
  have hnone : (defaultRules (registry.setEnabled .changeModStrings false)).rules = [] := rfl
  have hscanned : scanned =
      (Scan.ofClass (fun _ => 0) [frameCounterRule [labelEdit "CPS"]] owner).1 :=
    congrArg (fun rules => (Scan.ofClass (fun _ => 0) rules owner).1) hrules
  have hdisabled : disabled = (Scan.ofClass (fun _ => 0) [] owner).1 :=
    congrArg (fun rules => (Scan.ofClass (fun _ => 0) rules owner).1) hnone
  have hstrings : scanned.owner.methods.map MethodDecl.strings = [["\x01 CPS"]] := by
    rw [hscanned]
    cbv
  have htransformed : scanned.report.transformed = ["a()Ljava/lang/String;"] := by
    rw [hscanned]
    cbv
  refine ⟨by decide +kernel, fun hsame => ?_, htransformed, by rw [hdisabled]; rfl⟩
  rw [hsame, hdisabled] at hstrings
  exact absurd hstrings (by decide)

end Tweak

end ClassEdit
