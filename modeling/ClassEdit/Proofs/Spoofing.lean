import ClassEdit.Proofs.Disabling
import ClassEdit.Proofs.FrameRate

/-!
# Spoofing the frame rate and the texts

The label and the value of the frame counter are edited by the operations of one block, which is
committed as a whole. Where the value can be scaled, the block does to the label what it does
without the scaling, and whether the edited body has heights does not depend on the scaling either,
if there is room for it. What else the default rules do to a class does not depend on it, since they
do not see the scaling. So the methods load the same strings whether the frame rate is spoofed or
not. Where the value cannot be scaled, or the stack is full behind the call that asks for it, the
whole block fails, and the label stays as it is.

## Main definitions

* `Tweak.Independent`: scaling does not interfere with the label.
* `Tweak.frameCounterMethod?`: the method that the rule about the frame counter is bound to.
* `Tweak.counted`: a class after this rule.

## Main results

* `Tweak.akin_counted`: what the scaling changes in this rule.
* `Tweak.strings_eq_of_scalable`: it does not change the strings that are loaded after a scan.
* `Tweak.strings_ne_of_unscalable`: if it fails, it does.
-/

namespace ClassEdit

namespace Tweak

/-! ### The block -/

variable {owner : ClassDecl} {registration : String} {m edited : MethodDecl}
variable {ops : List Operation} {done : List Applied} {multiplier : UInt64}

/-- One more operation that scales the frame rate makes no other difference, if it succeeds and
there is room for it, or the others have changed nothing. -/
theorem akin_after_scalingEdit
    (hops : Block.applyAll owner registration ops m = .ok (edited, done))
    (h : edited = m ∨ edited.Scalable ∧ edited.RoomToScale) :
    (Block.after m ((Block.ofOperations ops).run owner m registration)).Akin (single multiplier)
      (Block.after m ((Block.ofOperations (ops ++ [scalingEdit multiplier])).run owner m
        registration)) := by
  rw [Block.after_run, Block.after_run, Block.ofOperations, Block.ofOperations, hops,
    Block.applyAll_concat hops]
  cases hscaling : (scalingEdit multiplier).apply ⟨owner, edited, registration⟩ with
  | ok result =>
    obtain ⟨scaled, applied⟩ := result
    have hedited := scaled_of_scalingEdit hscaling
    rcases h with rfl | ⟨-, hroom⟩
    · -- nothing but the scaling is at stake
      show (Block.settled edited edited).Akin _ (Block.settled edited scaled)
      rw [Block.settled_self]
      exact Block.akin_settled_self hedited
    · -- both blocks are checked, and they come to the same end since there is room for the scaling
      have hakin : edited.Akin (single multiplier) scaled := ⟨hedited, hedited.heights_iff hroom⟩
      have hall : Block.applyAll owner registration (ops ++ [scalingEdit multiplier]) m =
          .ok (scaled, done ++ [applied]) := by
        rw [Block.applyAll_concat hops, hscaling]
        rfl
      exact Block.akin_settled (.refl m) hakin (Block.eq_of_unchanged hops)
        (Block.eq_of_unchanged hall)
  | error e =>
    -- the block fails, and the others have changed nothing
    rcases h with rfl | ⟨hscalable, -⟩
    · show (Block.settled edited edited).Akin _ edited
      rw [Block.settled_self]
      exact .refl edited
    · obtain ⟨result, hresult⟩ :=
        exists_scalingEdit ⟨owner, edited, registration⟩ multiplier hscalable
      rw [hresult] at hscaling
      cases hscaling

/-! ### The label -/

/-- Replacing a constant by a string changes no call. -/
theorem calls_replacingString {source target : String} (code : List Instruction) :
    (code.map (Instruction.replacingConstant (.string source) (.string target))).filterMap
      Instruction.call? = code.filterMap Instruction.call? := by
  rw [List.filterMap_map]
  refine List.filterMap_congr fun insn _ => ?_
  rw [Function.comp_apply, Instruction.replacingConstant]
  split
  · rename_i hconstant
    cases insn <;> first | rfl | cases hconstant
  · rfl

/-- The label can always be replaced. If it is not replaced by itself, the calls stay. -/
theorem replaceConstant_label (text : String) (m : MethodDecl) : ∃ edited applied,
    m.replaceConstant (labeled "FPS") (labeled text) = .ok (edited, applied) ∧
      (text = "FPS" → edited = m) ∧ edited.calls = m.calls := by
  have hkind : (labeled "FPS").kind = (labeled text).kind := rfl
  unfold MethodDecl.replaceConstant
  rw [if_neg (not_not.2 hkind)]
  split
  · exact ⟨m, _, rfl, fun _ => rfl, rfl⟩
  · rename_i hne
    exact ⟨_, _, rfl, fun h => absurd (congrArg labeled h.symm) hne, calls_replacingString m.code⟩

theorem applyAll_label (label : Option String) (owner : ClassDecl) (m : MethodDecl)
    (registration : String) : ∃ edited done,
      Block.applyAll owner registration (label.map labelEdit).toList m = .ok (edited, done) ∧
        ((∀ text, label = some text → text = "FPS") → edited = m) ∧
          edited.calls = m.calls := by
  cases label with
  | none => exact ⟨m, [], rfl, fun _ => rfl, rfl⟩
  | some text =>
    obtain ⟨edited, applied, hreplace, hsame, hcalls⟩ := replaceConstant_label text m
    refine ⟨edited, [applied], ?_, fun h => hsame (h text rfl), hcalls⟩
    show (m.replaceConstant (labeled "FPS") (labeled text) >>= _) = _
    rw [hreplace]
    rfl

/-- Scaling does not interfere with the label if the label is not replaced by another one, or if the
method can be scaled. -/
def Independent (label : Option String) (m : MethodDecl) : Prop :=
  (∀ text, label = some text → text = "FPS") ∨ m.Scalable

theorem akin_after_counter {label : Option String} (h : Independent label m)
    (hroom : label ≠ none → ∀ edited done,
      Block.applyAll owner registration (label.map labelEdit).toList m = .ok (edited, done) →
        edited.RoomToScale) :
    (Block.after m ((Block.ofOperations (label.map labelEdit).toList).run owner m
        registration)).Akin (single multiplier)
      (Block.after m ((Block.ofOperations ((label.map labelEdit).toList ++
        [scalingEdit multiplier])).run owner m registration)) := by
  obtain ⟨edited, done, hops, hsame, hcalls⟩ := applyAll_label label owner m registration
  refine akin_after_scalingEdit hops ?_
  rcases h with hkept | hscalable
  · exact .inl (hsame hkept)
  · cases label with
    | none => exact .inl (hsame nofun)
    | some text =>
      -- the calls are still those of the method, so it can be scaled as well as before
      exact .inr ⟨⟨hcalls ▸ hscalable.asks, hcalls ▸ hscalable.produced⟩,
        hroom (Option.some_ne_none text) edited done hops⟩

/-! ### The rule -/

/-- The first method of a class that passes a pattern, with its index. -/
def firstMethod? (p : MethodPattern) (c : ClassDecl) : Option (Nat × MethodDecl) :=
  (c.methods.findIdx? p.accepts).bind fun i => (c.methods[i]?).map fun m => (i, m)

/-- The method of a class that the rule is bound to, with its index. -/
def frameCounterMethod? (c : ClassDecl) : Option (Nat × MethodDecl) :=
  if frameCounterClass.accepts c then firstMethod? frameCounterText c else none

theorem frameCounterMethod?_eq_some_iff {c : ClassDecl} {i : Nat} :
    frameCounterMethod? c = some (i, m) ↔ frameCounterClass.accepts c = true ∧
      c.methods.findIdx? frameCounterText.accepts = some i ∧ c.methods[i]? = some m := by
  simp only [frameCounterMethod?, firstMethod?, Option.ite_none_right_eq_some,
    Option.bind_eq_some_iff, Option.map_eq_some_iff, Prod.mk.injEq]
  constructor
  · rintro ⟨haccepts, j, hj, m', hm', rfl, rfl⟩
    exact ⟨haccepts, hj, hm'⟩
  · rintro ⟨haccepts, hi, hm⟩
    exact ⟨haccepts, i, hi, m, hm, rfl, rfl⟩

/-- A class after the rule with some operations. -/
def counted (c : ClassDecl) (operations : List Operation) : ClassDecl :=
  match frameCounterMethod? c with
  | some (i, m) =>
    c.setMethod i (Block.after m ((Block.ofOperations operations).run c m "fps_mod::getText"))
  | none => c

theorem name_counted (c : ClassDecl) (operations : List Operation) :
    (counted c operations).name = c.name := by
  unfold counted
  split <;> rfl

/-- Without operations nothing is edited. -/
theorem counted_nil (c : ClassDecl) : counted c [] = c := by
  unfold counted
  split
  · rename_i i m hmethod
    have hafter : Block.after m ((Block.ofOperations []).run c m "fps_mod::getText") = m := by
      rw [Block.after_run]
      exact Block.settled_self
    -- the method is put back where it was
    obtain ⟨-, -, hm⟩ := frameCounterMethod?_eq_some_iff.1 hmethod
    obtain ⟨hi, hm⟩ := List.getElem?_eq_some_iff.1 hm
    rw [hafter, ClassDecl.setMethod, ← hm, List.set_getElem_self]
  · rfl

theorem fires_frameCounterRule (c : ClassDecl) :
    (frameCounterRule ops).fires c = frameCounterClass.accepts c := by
  rw [ClassRule.fires]
  exact Bool.and_true _

variable {naming : Naming}

theorem owner_applyMethod (s : Scan) :
    (s.applyMethod naming (frameCounterMethodRule ops)
      (s.owner.methods.findIdx? frameCounterText.accepts)).owner =
        match firstMethod? frameCounterText s.owner with
        | some (i, m) => s.owner.setMethod i
            (Block.after m ((Block.ofOperations ops).run s.owner m "fps_mod::getText"))
        | none => s.owner := by
  unfold firstMethod?
  cases hfound : s.owner.methods.findIdx? frameCounterText.accepts with
  | none => rfl
  | some i =>
    obtain ⟨hi, -⟩ := List.findIdx?_eq_some_iff_getElem.1 hfound
    have hm := List.getElem?_eq_getElem hi
    rw [Scan.owner_applyMethod_of_block hm rfl, Option.bind_some, hm]
    rfl

/-- What the rule does to a class. -/
theorem owner_applyRule (s : Scan) :
    (s.applyRule naming (frameCounterRule ops)).1.owner = counted s.owner ops := by
  unfold Scan.applyRule counted frameCounterMethod?
  rw [fires_frameCounterRule]
  cases frameCounterClass.accepts s.owner with
  | false => rfl
  | true => exact owner_applyMethod ⟨s.owner, _⟩

/-- The places of the methods that the rule is bound to, of which there is one at most. -/
def CounterPlace (c : ClassDecl) (i : Nat) : Prop := ∃ m, frameCounterMethod? c = some (i, m)

/-- Scaling makes no other difference to a class, if it does not interfere with the label and there
is room for it. -/
theorem akin_counted {c : ClassDecl} {label : Option String}
    (h : ∀ i m, frameCounterMethod? c = some (i, m) → Independent label m)
    (hroom : ∀ i m, frameCounterMethod? c = some (i, m) → label ≠ none → ∀ edited done,
      Block.applyAll c "fps_mod::getText" (label.map labelEdit).toList m = .ok (edited, done) →
        edited.RoomToScale) :
    (counted c (label.map labelEdit).toList).Akin (single multiplier) (CounterPlace c)
      (counted c ((label.map labelEdit).toList ++ [scalingEdit multiplier])) := by
  unfold counted
  split
  · rename_i i m hmethod
    have hafter : MethodDecl.Akin (single multiplier) _ _ :=
      akin_after_counter (h i m hmethod) (hroom i m hmethod)
    exact (ClassDecl.Akin.refl c).setMethod hafter (absurd ⟨m, hmethod⟩)
  · exact .refl c

/-! ### The other rules -/

/-- The parts after the frame counter. -/
def otherParts : List (Drafting RulesDraft Unit × List ModuleName) := parts.tail

theorem not_mem_otherParts {part : Drafting RulesDraft Unit × List ModuleName}
    (h : part ∈ otherParts) : .fpsSpoof ∉ part.2 := by
  have hmodules : ∀ modules ∈ otherParts.map Prod.snd, ModuleName.fpsSpoof ∉ modules := by decide
  exact hmodules part.2 (List.mem_map_of_mem h)

/-- The rules after that about the frame counter. -/
def otherRules (registry : Registry) : List ClassRule :=
  otherParts.flatMap fun part => (alone registry part.1).rules

theorem otherRules_setEnabled (registry : Registry) (enabled : Bool) :
    otherRules (registry.setEnabled .fpsSpoof enabled) = otherRules registry :=
  List.flatMap_congr fun _ hpart =>
    alone_eq_of_not_mem (List.mem_of_mem_tail hpart) (not_mem_otherParts hpart)

/-- What the section about the camera shake makes of its multiplier. -/
def shaking (multiplier : UInt64) : Drafting RulesDraft Unit :=
  RulesDraft.findPlatformClass do
    ClassRuleDraft.setLabel "hurt_camera"
    ClassRuleDraft.require (.contains "Failed to load shader: ")
    ClassRuleDraft.constantReplacement (.float shakeAngle)
      (.float (.ofNat (Decimal.binary32.product shakeAngle.toNat (single multiplier).toNat)))

/-- The rule about the camera shake is about the platform. -/
theorem platform_cameraShake {registry : Registry} {rule : ClassRule}
    (h : rule ∈ (alone registry cameraShake).rules) :
    ClassClause.platform ∈ rule.pattern.clauses := by
  let entered : RulesDraft := Draft.enter .hurtCamShake (RulesDraft.start registry)
  -- whatever the multiplier, the section makes one rule
  have hrules (multiplier : UInt64) : ∃ rule, (made (shaking multiplier) entered).rules = [rule] ∧
      rule.pattern = ⟨[.platform, .contains "Failed to load shader: "]⟩ := ⟨_, rfl, rfl⟩
  have hprogram : cameraShake = withModule .hurtCamShake (fun m => do
      let multiplier ← liftM (m.float "multiplier")
      liftM (shaking multiplier)) := rfl
  rw [alone, hprogram, made_withModule_reading (fun _ => readsOwn_float) (fun _ => rfl)
    fun issues => RulesDraft.Grown.rolledBack issues (Growing.refl entered)] at h
  split at h
  · rename_i multiplier _
    obtain ⟨rule', hsingle, hpattern⟩ := hrules multiplier
    have hmem : rule ∈ (made (shaking multiplier) entered).rules := h
    rw [hsingle] at hmem
    rw [List.mem_singleton.1 hmem, hpattern]
    exact .head _
  · cases h

/-- A script that does not see the scaling makes rules that do not. -/
theorem blind_alone {w : UInt32} {modules : List ModuleName} {program : Drafting RulesDraft Unit}
    (h : Scripted RulesCall (Style.blind w modules) program) {registry : Registry}
    {rule : ClassRule} (hrule : rule ∈ (alone registry program).rules) :
    (Style.blind w []).ClassRule rule := by
  obtain ⟨t, ht, rfl⟩ := h
  have hagree := Registry.Agree.refl (Style.blind w modules) registry
  have hmatched : RulesDraft.Matched (Style.blind w modules) _ _ :=
    Script.matched_run ht (.start hagree)
  obtain ⟨hclauses, hmethods⟩ := hmatched.rules rule hrule
  exact ⟨hclauses, fun m hm => ⟨(hmethods m hm).clauses, (hmethods m hm).operations⟩⟩

/-- The other rules do not see the scaling, or are about the platform. -/
theorem otherRules_cases (w : UInt32) (registry : Registry) (rule : ClassRule)
    (h : rule ∈ otherRules registry) : (Style.blind w []).ClassRule rule ∨
      ClassClause.platform ∈ rule.pattern.clauses := by
  obtain ⟨part, hpart, hrule⟩ := List.mem_flatMap.1 h
  have hspoof := not_mem_otherParts hpart
  rcases parts_cases w part (List.mem_of_mem_tail hpart) with
    rfl | rfl | rfl | ⟨name, hname, hsection⟩
  · exact absurd (.tail _ (.head _)) hspoof
  · have hscripted : Scripted RulesCall (Style.blind w [.metadata, .metadataUrl]) metadata :=
      scripted_metadata (.head _) (.tail _ (.head _))
    exact .inl (blind_alone hscripted hrule)
  · exact .inr (platform_cameraShake hrule)
  · have hmodule : name ∈ part.2 := hname ▸ List.mem_singleton_self name
    exact .inl (blind_alone ((hsection part.2).scripted hmodule) hrule)

/-! ### Scans -/

/-- The rule about the frame counter, if there is something to edit. -/
def counterRules (operations : List Operation) : List ClassRule :=
  if operations = [] then [] else [frameCounterRule operations]

theorem owner_applyRules_counterRules (s : Scan) :
    (s.applyRules naming (counterRules ops)).1.owner = counted s.owner ops := by
  unfold counterRules
  split
  · rename_i hnil
    rw [hnil, counted_nil]
    rfl
  · exact owner_applyRule s

/-- The rule about the frame counter is about the application. -/
theorem applyRules_counterRules_of_not_host {s : Scan}
    (h : ClassClause.host.holds s.owner = false) :
    (s.applyRules naming (counterRules ops)).1 = s := by
  unfold counterRules
  split
  · rfl
  · have hfires : (frameCounterRule ops).fires s.owner = false := by
      rw [fires_frameCounterRule, Bool.eq_false_iff]
      intro haccepts
      have hhost := Pattern.accepts_iff.1 haccepts ClassClause.host (.head _)
      rw [show Clause.holds ClassClause.host s.owner = ClassClause.host.holds s.owner from rfl, h]
        at hhost
      cases hhost
    rw [Scan.applyRules_cons, Scan.applyRule_of_not_fires hfires]
    rfl

theorem rules_eq_counterRules (registry : Registry) : (defaultRules registry).rules =
    counterRules (frameCounterEdits registry) ++ otherRules registry := by
  rw [rules_defaultRules, parts, List.flatMap_cons, alone_frameCounter]
  rfl

/-- The other rules go on from what the rule about the frame counter has made of a class. -/
theorem scan_defaultRules (registry : Registry) (naming : Nat → Naming) (owner : ClassDecl) :
    ((Session.start (defaultRules registry) naming).scan owner).1 =
      (((Scan.start owner).applyRules (naming 0)
        (counterRules (frameCounterEdits registry))).1.applyRules (naming 0)
          (otherRules registry)).1 := by
  rw [← Scan.applyRules_append, ← rules_eq_counterRules]
  rfl

theorem frameLabel_setEnabled (registry : Registry) (enabled : Bool) :
    frameLabel (registry.setEnabled .fpsSpoof enabled) = frameLabel registry :=
  Registry.given_setEnabled_of_ne (by decide)

theorem frameCounterEdits_of_disabled (registry : Registry) :
    frameCounterEdits (registry.setEnabled .fpsSpoof false) =
      ((frameLabel registry).map labelEdit).toList := by
  rw [frameCounterEdits, frameLabel_setEnabled, frameMultiplier,
    Registry.given_of_disabled Registry.isEnabled_setEnabled]
  exact List.append_nil _

/-- The rule about the frame counter has the first turn, at which it finds the class as it is. -/
theorem roomToScale_of_leavesRoom {others : List ClassRule} {i : Nat} (hops : ops ≠ [])
    (hmethod : frameCounterMethod? owner = some (i, m))
    (hroom : Scan.LeavesRoom naming (counterRules ops ++ others) owner i)
    (happly : Block.applyAll owner "fps_mod::getText" ops m = .ok (edited, done)) :
    edited.RoomToScale := by
  have hrules : counterRules ops ++ others = frameCounterRule ops :: others := by
    rw [counterRules, if_neg hops]
    rfl
  rw [hrules] at hroom
  obtain ⟨haccepts, hbound, hfound⟩ := frameCounterMethod?_eq_some_iff.1 hmethod
  let t : Turn (frameCounterRule ops :: others) :=
    ⟨[], frameCounterRule ops, others, rfl, [], frameCounterMethodRule ops, [], rfl⟩
  have htries : t.Tries naming owner i m (.ofOperations ops) :=
    ⟨(fires_frameCounterRule owner).trans haccepts, hbound, rfl, hfound⟩
  exact hroom t m _ htries edited done happly

/-- What the rule about the frame counter makes of a class differs in the scaling only. -/
theorem exists_akin_counted {registry : Registry} {c : ClassDecl}
    (h : ∀ i m, frameCounterMethod? c = some (i, m) → Independent (frameLabel registry) m)
    (hroom : ∀ i, CounterPlace c i → Scan.LeavesRoom naming
      (defaultRules (registry.setEnabled .fpsSpoof false)).rules c i) :
    ∃ w, (counted c (frameCounterEdits (registry.setEnabled .fpsSpoof false))).Akin w
      (CounterPlace c) (counted c (frameCounterEdits (registry.setEnabled .fpsSpoof true))) := by
  rw [rules_eq_counterRules, frameCounterEdits_of_disabled] at hroom
  rw [frameCounterEdits_of_disabled, frameCounterEdits, frameLabel_setEnabled]
  -- a multiplier that cannot be read scales nothing
  cases frameMultiplier (registry.setEnabled .fpsSpoof true) with
  | none =>
    rw [Option.map_none, Option.toList_none, List.append_nil]
    exact ⟨0, .refl _⟩
  | some multiplier =>
    refine ⟨single multiplier, akin_counted h fun i m hmethod hlabel edited done happly => ?_⟩
    obtain ⟨text, htext⟩ := Option.ne_none_iff_exists'.1 hlabel
    have hops : ((frameLabel registry).map labelEdit).toList ≠ [] := by
      rw [htext]
      exact List.cons_ne_nil _ _
    exact roomToScale_of_leavesRoom hops hmethod (hroom i ⟨m, hmethod⟩) happly

/-- Whether the frame rate is spoofed makes no difference to the strings that methods load, however
labels are picked, if the label is not replaced or the method that shows the frame rate can be
scaled, and if all edits of this method without the scaling leave room for it. -/
theorem strings_eq_of_scalable (registry : Registry) (owner : ClassDecl)
    (naming naming' : Nat → Naming)
    (h : ∀ i m, frameCounterMethod? owner = some (i, m) → Independent (frameLabel registry) m)
    (hroom : ∀ i m, frameCounterMethod? owner = some (i, m) → Scan.LeavesRoom (naming' 0)
      (defaultRules (registry.setEnabled .fpsSpoof false)).rules owner i) :
    ((Session.start (defaultRules (registry.setEnabled .fpsSpoof true)) naming).scan
        owner).1.owner.methods.map (fun m => (m.signature, m.strings)) =
      ((Session.start (defaultRules (registry.setEnabled .fpsSpoof false)) naming').scan
        owner).1.owner.methods.map (fun m => (m.signature, m.strings)) := by
  have hplaces : ∀ i, CounterPlace owner i → Scan.LeavesRoom (naming' 0)
      (defaultRules (registry.setEnabled .fpsSpoof false)).rules owner i :=
    fun i ⟨m, hm⟩ => hroom i m hm
  cases hhost : ClassClause.host.holds owner with
  | false =>
    -- rules about the platform may see the scaling, but no class belongs to both
    have hstart : ClassClause.host.holds (Scan.start owner).owner = false := hhost
    rw [scan_defaultRules, scan_defaultRules, otherRules_setEnabled, otherRules_setEnabled,
      applyRules_counterRules_of_not_host hstart, applyRules_counterRules_of_not_host hstart]
    exact congrArg (fun c : ClassDecl => c.methods.map fun m => (m.signature, m.strings))
      (Scan.owner_ofClass_eq (naming 0) (naming' 0) (otherRules registry) owner)
  | true =>
    obtain ⟨w, hcounted⟩ := exists_akin_counted h hplaces
    have hcounter (naming : Naming) (ops : List Operation) :
        ((Scan.start owner).applyRules naming (counterRules ops)).1.owner = counted owner ops :=
      owner_applyRules_counterRules (Scan.start owner)
    rw [← hcounter (naming' 0), ← hcounter (naming 0)] at hcounted
    have hothers : otherRules (registry.setEnabled .fpsSpoof true) =
        otherRules (registry.setEnabled .fpsSpoof false) := by
      rw [otherRules_setEnabled, otherRules_setEnabled]
    have hscaled := Scan.akin_applyRules (naming 0)
      (rules_eq_counterRules (registry.setEnabled .fpsSpoof false)) hplaces
      (otherRules_cases w _) hhost hcounted
    rw [scan_defaultRules _ naming, hothers]
    refine hscaled.scaled.map_methods_eq fun m m' hm => ?_
    rw [hm.signature_eq, hm.strings_eq]

/-- If no other rule fires behind that about the frame counter, it is enough that there is room in
the body that its operations leave. -/
theorem leavesRoom_of_counter {others : List ClassRule} {i : Nat}
    (hothers : ∀ rule ∈ others, rule.fires (counted owner ops) = false)
    (hroom : ∀ i m, frameCounterMethod? owner = some (i, m) → ∀ edited done,
      Block.applyAll owner "fps_mod::getText" ops m = .ok (edited, done) → edited.RoomToScale) :
    Scan.LeavesRoom naming (counterRules ops ++ others) owner i := by
  rintro ⟨earlierRules, rule, laterRules, hrules, earlier, method, later, hmethods⟩ m b htries
    edited done happly
  have hfires := htries.fires
  -- the turn is one of the other rules, or the only one of the rule about the frame counter
  have hcases : (∃ before, earlierRules = counterRules ops ++ before ∧
      others = before ++ rule :: laterRules) ∨ earlierRules = [] ∧ rule = frameCounterRule ops := by
    rcases List.append_eq_append_iff.1 hrules with
      ⟨before, hbefore, hothers⟩ | ⟨rest, hrest, hlater⟩
    · exact .inl ⟨before, hbefore, hothers⟩
    · cases rest with
      | nil => exact .inl ⟨[], by simpa using hrest.symm, hlater.symm⟩
      | cons r rest =>
        obtain ⟨rfl, -⟩ := List.cons.inj hlater
        unfold counterRules at hrest
        split at hrest
        · simp at hrest
        · obtain ⟨rfl, hsingle⟩ | ⟨-, hsingle⟩ := List.singleton_eq_append_iff.1 hrest
          · exact .inr ⟨rfl, (List.cons.inj hsingle).1⟩
          · cases hsingle
  rcases hcases with ⟨before, rfl, rfl⟩ | ⟨rfl, rfl⟩
  · have hstill : (Scan.ofClass naming (counterRules ops ++ before) owner).1.owner =
        counted owner ops := by
      rw [Scan.ofClass, Scan.applyRules_append, Scan.applyRules_of_not_fires]
      · exact owner_applyRules_counterRules (Scan.start owner)
      · intro rule hrule
        rw [owner_applyRules_counterRules]
        exact hothers rule (List.mem_append_left _ hrule)
    have hfires :
        rule.fires (Scan.ofClass naming (counterRules ops ++ before) owner).1.owner = true := hfires
    rw [hstill, hothers rule (by simp)] at hfires
    cases hfires
  · obtain ⟨rfl, hsingle⟩ | ⟨-, hsingle⟩ := List.singleton_eq_append_iff.1 hmethods
    · obtain ⟨rfl, rfl⟩ := List.cons.inj hsingle
      obtain rfl : b = .ofOperations ops := (Option.some.inj htries.block).symm
      have hmethod : frameCounterMethod? owner = some (i, m) := frameCounterMethod?_eq_some_iff.2
        ⟨(fires_frameCounterRule owner).symm.trans hfires, htries.bound, htries.found⟩
      exact hroom i m hmethod edited done happly
    · cases hsingle

/-! ### A class that shows the frame rate -/

/-- If no other rule fires on what the rule about the frame counter leaves, it is what a scan
leaves. -/
theorem owner_scan_of_counter {registry : Registry} {naming : Nat → Naming}
    (hothers : ∀ rule ∈ otherRules registry,
      rule.fires (counted owner (frameCounterEdits registry)) = false) :
    ((Session.start (defaultRules registry) naming).scan owner).1.owner =
      counted owner (frameCounterEdits registry) := by
  have hcounter : ((Scan.start owner).applyRules (naming 0)
      (counterRules (frameCounterEdits registry))).1.owner =
        counted owner (frameCounterEdits registry) :=
    owner_applyRules_counterRules _
  rw [scan_defaultRules, Scan.applyRules_of_not_fires (by rwa [hcounter]), hcounter]

/-- A method that returns a string, without arguments. -/
def counterMethod (code : List Instruction) (maxStack : UInt16) : MethodDecl :=
  ⟨"a", "()Ljava/lang/String;", .accPublic, [], .string, code, [], maxStack, 1⟩

/-- A class of the application with a sample of the frame counter. -/
def counterClass (methods : List MethodDecl) : ClassDecl :=
  ⟨"com/moonsworth/lunar/q/Z", none, [], .none, [], methods, [.string "[1466 FPS]"]⟩

/-- A registry that has another label, and doubles the frame rate. -/
def doublingRegistry : Registry :=
  ((Registry.initial.setEnabled .changeModStrings true).setOption .changeModStrings "fps_text"
    (.text "CPS")).setOption .fpsSpoof "multiplier" (.integer 2)

variable {maxStack : UInt16} {n : Nat} {text : String}

set_option maxRecDepth 8000 in
/-- No other rule is about the class if its only method is no constructor. -/
theorem not_fires_counterClass (hname : m.name = "a") {rule : ClassRule}
    (h : rule ∈ otherRules doublingRegistry) : rule.fires (counterClass [m]) = false := by
  have hall : (otherRules doublingRegistry).all (fun rule => !rule.fires (counterClass [m])) =
      true := by
    cases m
    cases hname
    cbv
  simpa using List.all_eq_true.1 hall rule h

theorem frameLabel_doublingRegistry : frameLabel doublingRegistry = some "CPS" := by decide

theorem frameCounterEdits_plain :
    frameCounterEdits (doublingRegistry.setEnabled .fpsSpoof false) = [labelEdit "CPS"] := by
  rw [frameCounterEdits_of_disabled, frameLabel_doublingRegistry]
  rfl

theorem frameCounterEdits_spoofed :
    frameCounterEdits (doublingRegistry.setEnabled .fpsSpoof true) =
      [labelEdit "CPS", scalingEdit 0x4000000000000000] := by
  have hmultiplier : frameMultiplier (doublingRegistry.setEnabled .fpsSpoof true) =
      some 0x4000000000000000 := by decide
  rw [frameCounterEdits, frameLabel_setEnabled, frameLabel_doublingRegistry, hmultiplier]
  rfl

/-- Its only method is the one with the label. -/
theorem frameCounterMethod?_counterClass (h : m.strings = ["\x01 FPS"]) :
    frameCounterMethod? (counterClass [m]) = some (0, m) := by
  have haccepts : frameCounterText.accepts m = true :=
    Pattern.accepts_iff.2 (List.forall_mem_singleton.2 (by
      show m.strings.any _ = true
      rw [h]
      rfl))
  have hfound : [m].findIdx? frameCounterText.accepts = some 0 := by
    rw [List.findIdx?_cons, haccepts]
    rfl
  exact frameCounterMethod?_eq_some_iff.2 ⟨by cbv, hfound, rfl⟩

/-- What the rule about the frame counter leaves of the class. -/
theorem counted_counterClass (hstrings : m.strings = ["\x01 FPS"]) :
    counted (counterClass [m]) ops = counterClass
      [Block.after m ((Block.ofOperations ops).run (counterClass [m]) m "fps_mod::getText")] := by
  rw [counted, frameCounterMethod?_counterClass hstrings]
  rfl

theorem not_fires_counted (hname : m.name = "a") (hstrings : m.strings = ["\x01 FPS"]) :
    ∀ rule ∈ otherRules doublingRegistry, rule.fires (counted (counterClass [m]) ops) = false := by
  intro rule hrule
  rw [counted_counterClass hstrings]
  refine not_fires_counterClass ?_ hrule
  obtain ⟨code, handlers, maxStack, maxLocals, hafter⟩ :=
    Block.after_eq (counterClass [m]) m "fps_mod::getText" (.ofOperations ops)
  rw [hafter]
  exact hname

/-- What a scan leaves of the class. -/
theorem owner_scan_counterClass {enabled : Bool} {naming : Nat → Naming} (hname : m.name = "a")
    (hstrings : m.strings = ["\x01 FPS"])
    (hedits : frameCounterEdits (doublingRegistry.setEnabled .fpsSpoof enabled) = ops) :
    ((Session.start (defaultRules (doublingRegistry.setEnabled .fpsSpoof enabled)) naming).scan
      (counterClass [m])).1.owner = counterClass
        [Block.after m ((Block.ofOperations ops).run (counterClass [m]) m "fps_mod::getText")] := by
  subst hedits
  rw [owner_scan_of_counter, counted_counterClass hstrings]
  rw [otherRules_setEnabled]
  exact not_fires_counted hname hstrings

/-- A call that asks for the frame rate. -/
def askingCall : MethodRef :=
  ⟨Opcode.invokestatic, "com/moonsworth/lunar/q/B", "bridge$getDebugFPS", "()I", false⟩

/-- The code that asks for the frame rate and returns a string. -/
def askingCode (text : String) : List Instruction :=
  [.invoke askingCall, .simple Opcode.pop, .ldc (.string text), .simple Opcode.areturn]

theorem effect_askingCall : (Instruction.invoke askingCall).effect = .ok ⟨0, 1⟩ := by cbv

theorem strings_zerosThen {rest : List Instruction} :
    (zerosThen n rest).filterMap Instruction.string? = rest.filterMap Instruction.string? := by
  rw [zerosThen, List.filterMap_append, List.filterMap_replicate]
  rfl

/-- Even behind as many zeros as there is room for, there is room for the call. -/
theorem exists_heights_askingCode (hn : n < 32768) :
    ∃ r, (counterMethod (zerosThen n (askingCode text)) maxStack).heights = .ok r := by
  have hpushed : wrapped (2 * n + (⟨0, 1⟩ : StackEffect).net) = 2 * n + 1 := by
    rw [show (⟨0, 1⟩ : StackEffect).net = 1 from rfl, wrapped_of_le (by omega) (by omega)]
  have hpopped : wrapped (2 * n + 1 + (⟨1, 0⟩ : StackEffect).net) = 2 * n := by
    rw [show (⟨1, 0⟩ : StackEffect).net = -1 from rfl, wrapped_of_le (by omega) (by omega)]
    omega
  refine MethodDecl.exists_heights_zerosThen (A := [(.invoke askingCall, some (2 * n)),
    (.simple Opcode.pop, some (2 * n + 1)), (.ldc (.string text), some (2 * n)),
    (.simple Opcode.areturn, some (2 * n + 1))]) rfl rfl hn fun known => ?_
  have hreturn : Linked wrapped (Permitted .string 0) known (some (2 * n + 1))
      [(.simple Opcode.areturn, some (2 * n + 1))] none :=
    .reached (fun _ hk => (Option.some.inj hk).symm) rfl ⟨by simp, nofun, fun _ => rfl⟩ nofun
      (.nil nofun)
  have hldc := hreturn.of_sequential
    (show (Instruction.ldc (.string text)).flow = .sequential from rfl) rfl
    ⟨by simp, nofun, nofun⟩ hpushed
  have hpop := hldc.of_sequential (show (Instruction.simple Opcode.pop).flow = .sequential from rfl)
    rfl ⟨by simp, nofun, nofun⟩ hpopped
  refine .reached (fun _ hk => (Option.some.inj hk).symm) effect_askingCall
    ⟨by simp, nofun, nofun⟩ nofun ?_
  rw [hpushed]
  exact hpop

/-- The stack is full behind the call if there are as many zeros as there is room for. Then there is
no room for the factor. -/
theorem not_exists_heights_scaling {w : UInt32} {rest : List Instruction} (hn : n = 32767)
    (hcode : m.code = zerosThen n (.invoke askingCall :: (scaling w ++ rest))) :
    ¬∃ r, m.heights = .ok r := by
  rw [MethodDecl.exists_heights_iff]
  intro hconsistent
  have hinsn : ∀ i, m.code[n + i]? = (.invoke askingCall :: (scaling w ++ rest))[i]? := by
    intro i
    rw [hcode, getElem?_zerosThen, if_neg (by omega), Nat.add_sub_cancel_left]
  have hcall := MethodDecl.reachesWrapped_zerosThen hcode (by simp) (by omega) le_rfl
  have hi2f := hcall.step (.next (hinsn 0) effect_askingCall rfl)
  have hload := hi2f.step (.next (hinsn 1) (e := ⟨1, 1⟩) rfl rfl)
  have hfmul := hload.step (.next (hinsn 2) sequential_load_float.2
    (by rw [sequential_load_float.1]; rfl))
  -- with the factor there are 65536 slots, which are counted as none
  obtain ⟨e, heffect, hpops⟩ := hconsistent.pops_le _ _ hfmul (hinsn 3)
  cases heffect
  subst hn
  exact absurd hpops (by decide)

/-- If there is only one call, the scaling is put behind it. -/
theorem weave_scaling {w : UInt32} {site : Site} {pre rest : List Instruction} {plan : Plan}
    {next : UInt32} (hpre : ∀ insn ∈ pre, insn.call? = none)
    (hrest : ∀ insn ∈ rest, insn.call? = none)
    (h : planCalls frameRateCalls (adviceAt site none (some (scalingSource w)))
      (pre ++ .invoke askingCall :: rest) = .ok plan) :
    plan.weave next = pre ++ .invoke askingCall :: (scaling w ++ rest) := by
  rw [Scaled.planCalls_plain hpre] at h
  cases hbehind : planCalls frameRateCalls (adviceAt site none (some (scalingSource w)))
      (.invoke askingCall :: rest) with
  | error e =>
    rw [hbehind] at h
    cases h
  | ok behind =>
    rw [hbehind] at h
    cases h
    obtain ⟨choice, later, rfl, hchosen, hlater⟩ := planCalls_cons_eq_ok_iff.1 hbehind
    cases choice with
    | none =>
      -- the call is one of those that ask for the frame rate
      have haccepted : frameRateCalls.selects (.invoke askingCall) = true := by decide
      exact absurd (haccepted.symm.trans hchosen) (by decide)
    | some r =>
      obtain ⟨call, hcall, -, hreplace⟩ := hchosen
      cases hcall
      obtain ⟨rfl, -⟩ := adviceAt_scaling_eq_ok_iff.1 hreplace
      -- what stands behind the call is left as it is
      have hplain : planCalls frameRateCalls (adviceAt site none (some (scalingSource w)))
          (rest ++ []) = _ := Scaled.planCalls_plain hrest
      rw [List.append_nil, hlater] at hplain
      obtain rfl : later = rest.map (·, none) ++ [] := Except.ok.inj hplain
      rw [Scaled.weave_plain, weave_scalingReplacement, Scaled.weave_plain]
      simp [Plan.weave]

/-- The label is replaced behind any number of zeros. -/
theorem applyAll_labelEdit (owner : ClassDecl) (registration : String) (n : Nat)
    (maxStack : UInt16) : ∃ done, Block.applyAll owner registration [labelEdit "CPS"]
    (counterMethod (zerosThen n (askingCode "\x01 FPS")) maxStack) =
      .ok (counterMethod (zerosThen n (askingCode "\x01 CPS")) maxStack, done) := by
  have hreplaced : (zerosThen n (askingCode "\x01 FPS")).map
      (Instruction.replacingConstant (labeled "FPS") (labeled "CPS")) =
        zerosThen n (askingCode "\x01 CPS") := by
    rw [zerosThen, List.map_append, List.map_replicate]
    rfl
  rw [← hreplaced]
  exact ⟨_, rfl⟩

/-- The label is replaced by another one only if the frame rate is not spoofed. -/
def LosesLabel (registry : Registry) (owner : ClassDecl) : Prop :=
  let strings (enabled : Bool) : List (List String) :=
    ((Session.start (defaultRules (registry.setEnabled .fpsSpoof enabled))
      fun _ _ => 0).scan owner).1.owner.methods.map MethodDecl.strings
  strings true = [["\x01 FPS"]] ∧ strings false = [["\x01 CPS"]]

theorem losesLabel_of_after (hname : m.name = "a") (hstrings : m.strings = ["\x01 FPS"])
    (hspoofed : Block.after m
      ((Block.ofOperations [labelEdit "CPS", scalingEdit 0x4000000000000000]).run
        (counterClass [m]) m "fps_mod::getText") = m)
    (hplain : (Block.after m ((Block.ofOperations [labelEdit "CPS"]).run
      (counterClass [m]) m "fps_mod::getText")).strings = ["\x01 CPS"]) :
    LosesLabel doublingRegistry (counterClass [m]) := by
  constructor
  · show List.map _ ((Session.start _ _).scan _).1.owner.methods = _
    rw [owner_scan_counterClass hname hstrings frameCounterEdits_spoofed, hspoofed]
    exact congrArg ([·]) hstrings
  · show List.map _ ((Session.start _ _).scan _).1.owner.methods = _
    rw [owner_scan_counterClass hname hstrings frameCounterEdits_plain]
    exact congrArg ([·]) hplain

set_option maxRecDepth 8000 in
/-- The method that shows the label does not ask for the frame rate. -/
theorem losesLabel_of_not_asking : LosesLabel doublingRegistry (counterClass
    [counterMethod [.ldc (.string "\x01 FPS"), .simple Opcode.areturn] 1]) :=
  losesLabel_of_after rfl rfl (by cbv) (by cbv)

/-- The stack is full behind the call that asks for it. -/
theorem losesLabel_of_full (hn : n = 32767) : LosesLabel doublingRegistry (counterClass
    [counterMethod (zerosThen n (askingCode "\x01 FPS")) 65535]) := by
  let m : MethodDecl := counterMethod (zerosThen n (askingCode "\x01 FPS")) 65535
  let relabeled : MethodDecl := counterMethod (zerosThen n (askingCode "\x01 CPS")) 65535
  have hm : ∃ r, m.heights = .ok r := exists_heights_askingCode (by omega)
  have hstrings : m.strings = ["\x01 FPS"] := strings_zerosThen
  obtain ⟨done, hlabel⟩ := applyAll_labelEdit (counterClass [m]) "fps_mod::getText" n 65535
  refine losesLabel_of_after rfl hstrings ?_ ?_
  · -- the label is replaced and the scaling put in, but the check refuses both
    show Block.after m ((Block.ofOperations ([labelEdit "CPS"] ++ [scalingEdit _])).run _ m _) = m
    rw [Block.after_run, Block.ofOperations, Block.applyAll_concat hlabel]
    cases hscaling : (scalingEdit 0x4000000000000000).apply
        ⟨counterClass [m], relabeled, "fps_mod::getText"⟩ with
    | error e => rfl
    | ok result =>
      obtain ⟨edited, applied⟩ := result
      obtain ⟨plan, hplan, hedited⟩ := Operation.spliceCalls_eq hscaling
      have hcode : edited.code = zerosThen n (.invoke askingCall ::
          (scaling (single 0x4000000000000000) ++ [.simple Opcode.pop, .ldc (.string "\x01 CPS"),
            .simple Opcode.areturn])) := by
        rw [hedited]
        exact weave_scaling (by simp [Instruction.call?]) (by simp [Instruction.call?]) hplan
      exact Block.settled_of_not_exists_heights hm (not_exists_heights_scaling hn hcode)
  · rw [Block.after_run, Block.ofOperations, hlabel]
    have hcode : (Block.settled m relabeled).code = relabeled.code :=
      Block.code_settled fun _ => exists_heights_askingCode (by omega)
    rw [MethodDecl.strings, hcode]
    exact strings_zerosThen

/-- The method that shows the frame rate asks for it, and the label is another one. -/
theorem strings_eq_of_asking :
    let owner := counterClass [counterMethod (askingCode "\x01 FPS") 1]
    (∀ i m, frameCounterMethod? owner = some (i, m) →
        Independent (frameLabel doublingRegistry) m) ∧
      ∀ naming naming' : Nat → Naming,
        (∀ i m, frameCounterMethod? owner = some (i, m) → Scan.LeavesRoom (naming' 0)
          (defaultRules (doublingRegistry.setEnabled .fpsSpoof false)).rules owner i) ∧
        ((Session.start (defaultRules (doublingRegistry.setEnabled .fpsSpoof true)) naming).scan
            owner).1.owner.methods.map (fun m => (m.signature, m.strings)) =
          ((Session.start (defaultRules (doublingRegistry.setEnabled .fpsSpoof false))
            naming').scan owner).1.owner.methods.map (fun m => (m.signature, m.strings)) := by
  intro owner
  let m : MethodDecl := counterMethod (askingCode "\x01 FPS") 1
  let relabeled : MethodDecl := counterMethod (askingCode "\x01 CPS") 1
  have hbound : frameCounterMethod? owner = some (0, m) := frameCounterMethod?_counterClass rfl
  have hproduced (text : String) (call : MethodRef) (hcall : .invoke call ∈ askingCode text) :
      ∃ n, call.produced = .ok n ∧ 0 < n := by
    obtain rfl : call = askingCall := by simpa [askingCode] using hcall
    exact ⟨1, (Instruction.effect_invoke effect_askingCall).2, by decide⟩
  have hindependent : ∀ i m, frameCounterMethod? owner = some (i, m) →
      Independent (frameLabel doublingRegistry) m := by
    intro i m' hmethod
    obtain ⟨rfl, rfl⟩ := Prod.mk.inj (Option.some.inj (hbound.symm.trans hmethod))
    refine .inr ⟨⟨askingCall, .head _, by decide⟩, fun call hcall _ => ?_⟩
    obtain ⟨insn, hinsn, hcall⟩ := List.mem_filterMap.1 hcall
    exact hproduced _ call (Instruction.call?_eq_some_iff.1 hcall ▸ hinsn)
  -- no other rule is about the class, and the stack is low
  have hheights : relabeled.heights = .ok ⟨1, [some 0, some 1, some 0, some 1]⟩ :=
    relabeled.heights_of_runWithin 6 rfl (by decide +kernel)
  have hlow : relabeled.RoomToScale :=
    MethodDecl.roomToScale_of_heights hheights (by decide) fun call hcall _ =>
      hproduced _ call hcall
  refine ⟨hindependent, fun naming naming' => ?_⟩
  have hroom : ∀ i m, frameCounterMethod? owner = some (i, m) → Scan.LeavesRoom (naming' 0)
      (defaultRules (doublingRegistry.setEnabled .fpsSpoof false)).rules owner i := by
    intro i m' _
    rw [rules_eq_counterRules, frameCounterEdits_plain, otherRules_setEnabled]
    refine leavesRoom_of_counter (not_fires_counted rfl rfl)
      fun i m' hmethod edited done happly => ?_
    obtain ⟨rfl, rfl⟩ := Prod.mk.inj (Option.some.inj (hbound.symm.trans hmethod))
    obtain rfl : relabeled = edited := congrArg Prod.fst (Except.ok.inj happly)
    exact hlow
  exact ⟨hroom, strings_eq_of_scalable doublingRegistry owner naming naming' hindependent hroom⟩

/-- If the frame rate cannot be scaled, or if there is no room for it, the label is lost. -/
theorem strings_ne_of_unscalable :
    frameLabel doublingRegistry = some "CPS" ∧
      LosesLabel doublingRegistry (counterClass
        [counterMethod [.ldc (.string "\x01 FPS"), .simple Opcode.areturn] 1]) ∧
      LosesLabel doublingRegistry (counterClass
        [counterMethod (zerosThen 32767 (askingCode "\x01 FPS")) 65535]) :=
  ⟨frameLabel_doublingRegistry, losesLabel_of_not_asking, losesLabel_of_full rfl⟩

end Tweak

end ClassEdit
