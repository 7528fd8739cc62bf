import ClassEdit.Proofs.Disabling
import ClassEdit.Proofs.Firing
import ClassEdit.Proofs.Replacement
import Mathlib.Data.List.Forall2

/-!
# States that are given other texts

The rule about the sprint toggle has one method rule for each state. All of them are bound to the
class as it stands, but they are applied one after the other, so a text that was put in for one
state is exchanged again if it is the name of a later one. Each state is shown with its own text
exactly if no state is given the name of a later state that is given another text itself.

## Main definitions

* `exchangeAll`: what becomes of a text when others are exchanged one after the other.
* `Tweak.sprintRule`: the rule about the sprint toggle.
* `ClassDecl.OnlyIn`: a method that alone loads some texts.

## Main results

* `exchangeAll_eq_iff`: when texts that are exchanged one after the other are exchanged at once.
* `Scan.owner_applyMethods_relabels`: what the method rules do to the class, one after the other.
* `Tweak.rules_of_only_sprint`: the rules if no other module takes part.
* `Tweak.scan_sprintTexts`: scans with this rule.
-/

namespace ClassEdit

/-! ### Texts -/

section Texts

variable {relabel : String → String} {states : List String} {text : String}

/-- What becomes of a text when each of several texts is exchanged for its new one, one after the
other. -/
def exchangeAll (relabel : String → String) : List String → String → String
  | [], text => text
  | state :: rest, text =>
    exchangeAll relabel rest (if text = state then relabel state else text)

theorem exchangeAll_of_not_mem (h : text ∉ states) : exchangeAll relabel states text = text := by
  induction states with
  | nil => rfl
  | cons state rest ih =>
    rw [List.mem_cons, not_or] at h
    rw [exchangeAll, if_neg h.1, ih h.2]

/-- Texts that are exchanged one after the other are exchanged at once, unless one of them is
exchanged for a later one, and this one for yet another text. -/
theorem exchangeAll_eq_iff (hnodup : states.Nodup) :
    (∀ state ∈ states, exchangeAll relabel states state = relabel state) ↔
      states.Pairwise fun s t => relabel s = t → relabel t = t := by
  induction states with
  | nil => simp
  | cons state rest ih =>
    rw [List.nodup_cons] at hnodup
    obtain ⟨hnew, hnodup⟩ := hnodup
    -- the first exchange is seen by the first text only
    have hfirst : exchangeAll relabel (state :: rest) state =
        exchangeAll relabel rest (relabel state) := by rw [exchangeAll, if_pos rfl]
    have hothers (t : String) (ht : t ∈ rest) :
        exchangeAll relabel (state :: rest) t = exchangeAll relabel rest t := by
      rw [exchangeAll, if_neg]
      rintro rfl
      exact hnew ht
    rw [List.forall_mem_cons, List.pairwise_cons, hfirst, ← ih hnodup]
    constructor
    · rintro ⟨hstate, hrest⟩
      refine ⟨fun t ht hsame => ?_, fun t ht => (hothers t ht).symm.trans (hrest t ht)⟩
      calc relabel t = exchangeAll relabel rest t := ((hothers t ht).symm.trans (hrest t ht)).symm
        _ = t := by rw [← hsame, hstate]
    · rintro ⟨hstate, hrest⟩
      refine ⟨?_, fun t ht => (hothers t ht).trans (hrest t ht)⟩
      by_cases hmem : relabel state ∈ rest
      · rw [hrest _ hmem, hstate _ hmem rfl]
      · exact exchangeAll_of_not_mem hmem

end Texts

/-! ### Instructions -/

section Instructions

variable {relabel : String → String} {states : List String} {insn : Instruction}

/-- The operation that gives a state another text. -/
def relabelingEdit (relabel : String → String) (state : String) : Operation :=
  .replaceConstant (.string state) (.string (relabel state))

theorem isReplacement_relabelingEdit (relabel : String → String) (state : String) :
    (relabelingEdit relabel state).IsReplacement := .constant rfl

/-- What becomes of an instruction when several states are given other texts, one after the
other. -/
def Instruction.relabelAll (relabel : String → String) : List String → Instruction → Instruction
  | [], insn => insn
  | state :: rest, insn => relabelAll relabel rest ((relabelingEdit relabel state).rewrite insn)

theorem constant?_rewrite_relabelingEdit {state text : String}
    (h : insn.constant? = some (.string text)) :
    ((relabelingEdit relabel state).rewrite insn).constant? =
      some (.string (if text = state then relabel state else text)) := by
  by_cases hstate : text = state
  · subst hstate
    rw [if_pos rfl, relabelingEdit, Operation.rewrite]
    -- a relabeling to the same text leaves the instruction, and so the form in which it pushes the
    -- text
    by_cases hsame : relabel text = text
    · rw [hsame, if_pos rfl, h]
    · have hne : Constant.string text ≠ .string (relabel text) := by
        simpa using fun heq => hsame heq.symm
      rw [if_neg hne, Instruction.replacingConstant, if_pos h, Instruction.constant?_load]
  · have hrest : (relabelingEdit relabel state).rewrite insn = insn := by
      by_contra hne
      have hselects := ((relabelingEdit relabel state).rewrite_ne_iff insn).1 hne
      rw [relabelingEdit, Operation.Selects, h] at hselects
      exact hstate (by simpa using hselects.2)
    rw [if_neg hstate, hrest, h]

theorem constant?_relabelAll {text : String} (h : insn.constant? = some (.string text)) :
    (insn.relabelAll relabel states).constant? =
      some (.string (exchangeAll relabel states text)) := by
  induction states generalizing insn text with
  | nil => exact h
  | cons state rest ih => exact ih (constant?_rewrite_relabelingEdit h)

/-- An instruction that loads none of the states stays as it is. -/
theorem relabelAll_eq_self (h : ∀ state ∈ states, insn.constant? ≠ some (.string state)) :
    insn.relabelAll relabel states = insn := by
  induction states with
  | nil => rfl
  | cons state rest ih =>
    rw [List.forall_mem_cons] at h
    have hfirst : (relabelingEdit relabel state).rewrite insn = insn := by
      by_contra hne
      exact h.1 (((relabelingEdit relabel state).rewrite_ne_iff insn).1 hne).2
    rw [Instruction.relabelAll, hfirst, ih h.2]

end Instructions

/-! ### Methods and classes -/

/-- What a block of one replacement leaves. -/
theorem Block.code_after_replacement {op : Operation} (h : op.IsReplacement) (owner : ClassDecl)
    (m : MethodDecl) (registration : String) :
    (Block.after m ((ofOperations [op]).run owner m registration)).code =
      m.code.map op.rewrite := by
  have hops : ∀ op' ∈ (ofOperations [op]).operations, op'.IsReplacement := by
    intro op' hop'
    rwa [List.mem_singleton.1 hop']
  obtain ⟨edited, final, outcome, hrun, hall, hcode, -⟩ :=
    exists_run_of_isReplacement hops owner m registration
  obtain ⟨done, happly, -⟩ := h.exists_apply ⟨owner, m, registration⟩
  have hedited : edited.code = m.code.map op.rewrite := by
    obtain ⟨⟨m', applied⟩, hop, hrest⟩ := bind_eq_ok_iff.1 hall
    rw [happly] at hop
    cases hop
    exact congrArg (fun result => result.1.code) (Except.ok.inj hrest).symm
  rw [← hedited, ← hcode, hrun, Block.after]
  -- a block that has changed nothing gives back the method that it was run on
  rcases run_cases hrun with ⟨hsame, rfl⟩ | ⟨hchanged, -, -⟩
  · rw [hsame]
    rfl
  · rw [if_pos hchanged]

/-- In a body in which the states that it loads were given other texts, one after the other, all
instructions that loaded a state load its own text exactly if the exchanges give each state its own
text. -/
theorem shows_own_texts_iff {relabel : String → String} {names loaded : List String}
    {m after : MethodDecl} (hcode : after.code = m.code.map (Instruction.relabelAll relabel loaded))
    (hmem : ∀ state, state ∈ loaded ↔ state ∈ names ∧ .string state ∈ m.constants) :
    (∀ (i : Nat) (insn : Instruction) (state : String), m.code[i]? = some insn → state ∈ names →
        insn.constant? = some (.string state) →
          ∃ insn', after.code[i]? = some insn' ∧
            insn'.constant? = some (.string (relabel state))) ↔
      ∀ state ∈ loaded, exchangeAll relabel loaded state = relabel state := by
  have hcode? {i : Nat} {insn : Instruction} (hinsn : m.code[i]? = some insn) :
      after.code[i]? = some (insn.relabelAll relabel loaded) := by
    rw [hcode, List.getElem?_map, hinsn, Option.map_some]
  constructor
  · -- a state that is loaded is loaded by some instruction
    intro h state hstate
    obtain ⟨hname, hloads⟩ := (hmem state).1 hstate
    obtain ⟨insn, hinsn, hconstant⟩ := List.mem_filterMap.1 hloads
    obtain ⟨i, hi⟩ := List.mem_iff_getElem?.1 hinsn
    obtain ⟨insn', hinsn', htext⟩ := h i insn state hi hname hconstant
    rw [hcode? hi, Option.some.injEq] at hinsn'
    rw [← hinsn', constant?_relabelAll hconstant] at htext
    simpa using htext
  · -- and an instruction that loads a state makes it one of the loaded states
    intro h i insn state hinsn hname hconstant
    have hloads : .string state ∈ m.constants :=
      List.mem_filterMap.2 ⟨insn, List.mem_of_getElem? hinsn, hconstant⟩
    refine ⟨_, hcode? hinsn, ?_⟩
    rw [constant?_relabelAll hconstant, h state ((hmem state).2 ⟨hname, hloads⟩)]

/-- A method rule that gives a state another text in the first method that loads it. -/
structure MethodRule.Relabels (relabel : String → String) (rule : MethodRule) (state : String) :
    Prop where
  pattern_eq : rule.pattern = ⟨[.hasConstant (.string state)]⟩
  block_eq : rule.block = some (.ofOperations [relabelingEdit relabel state])

/-- A method of a class that alone loads some texts. -/
structure ClassDecl.OnlyIn (c : ClassDecl) (states : List String) (d : Nat) (m : MethodDecl) :
    Prop where
  found : c.methods[d]? = some m
  others : ∀ i m', c.methods[i]? = some m' → i ≠ d → ∀ state ∈ states, .string state ∉ m'.constants

section Scans

variable {relabel : String → String} {states all : List String} {c : ClassDecl} {d : Nat}
variable {m : MethodDecl} {rules : List MethodRule} {naming : Naming}

theorem MethodRule.Relabels.suits_iff {rule : MethodRule} {state : String}
    (h : rule.Relabels relabel state) : rule.Suits m ↔ .string state ∈ m.constants := by
  rw [Suits, h.pattern_eq, List.forall_mem_singleton, MethodClause.holds, List.any_beq',
    List.contains_iff_mem]

theorem MethodRule.Relabels.bind?_eq {rule : MethodRule} {state : String}
    (h : rule.Relabels relabel state) (hstate : state ∈ all) (honly : c.OnlyIn all d m) :
    rule.bind? c = if .string state ∈ m.constants then some d else none := by
  split
  · rename_i hloads
    refine BindsTo.bind?_eq ⟨honly.found, h.suits_iff.2 hloads, fun i hi other hother hsuits => ?_⟩
    exact honly.others i other hother hi.ne state hstate (h.suits_iff.1 hsuits)
  · rename_i hother
    refine bind?_eq_none fun m' hm' hsuits => ?_
    obtain ⟨i, hi⟩ := List.mem_iff_getElem?.1 hm'
    by_cases hd : i = d
    · rw [hd, honly.found] at hi
      cases hi
      exact hother (h.suits_iff.1 hsuits)
    · exact honly.others i m' hi hd state hstate (h.suits_iff.1 hsuits)

/-- Rules for several states, applied one after the other to the only method that loads any of
them. They are bound to the method as it was at first. -/
theorem Scan.owner_applyMethods_relabels (honly : c.OnlyIn all d m)
    (hrules : List.Forall₂ (MethodRule.Relabels relabel) rules states) (hstates : states ⊆ all)
    {s : Scan} {before : MethodDecl} (hbefore : s.owner.methods[d]? = some before) :
    ∃ after, (s.applyMethods naming (rules.map fun r => (r, r.bind? c))).owner =
        s.owner.setMethod d after ∧
      after.code = before.code.map (Instruction.relabelAll relabel
        (states.filter fun state => .string state ∈ m.constants)) := by
  induction hrules generalizing s before with
  | nil =>
    refine ⟨before, ?_, (List.map_id' _).symm⟩
    obtain ⟨hlt, rfl⟩ := List.getElem?_eq_some_iff.1 hbefore
    rw [ClassDecl.setMethod, List.set_getElem_self]
    rfl
  | @cons rule state rules states hrule _ ih =>
    obtain ⟨hstate, hrest⟩ := List.cons_subset.1 hstates
    have hbind := hrule.bind?_eq hstate honly
    rw [List.map_cons, applyMethods]
    -- a rule about a state that the method did not load at first is bound to nothing
    by_cases hloads : .string state ∈ m.constants
    · rw [if_pos hloads] at hbind
      have hfirst : (s.applyMethod naming rule (some d)).owner = _ :=
        owner_applyMethod_of_block hbefore hrule.block_eq
      have hlt := (List.getElem?_eq_some_iff.1 hbefore).1
      obtain ⟨after, hafter, hcode⟩ := ih hrest (s := s.applyMethod naming rule (some d))
        (by rw [hfirst, ClassDecl.setMethod, List.getElem?_set_self hlt])
      refine ⟨after, ?_, ?_⟩
      · rw [hbind, hafter, hfirst]
        simp only [ClassDecl.setMethod, List.set_set]
      · rw [hcode, Block.code_after_replacement (isReplacement_relabelingEdit relabel state),
          List.filter_cons_of_pos (by simpa using hloads), List.map_map]
        rfl
    · rw [if_neg hloads] at hbind
      rw [hbind, List.filter_cons_of_neg (by simpa using hloads)]
      exact ih hrest (s := s.applyMethod naming rule none) hbefore

end Scans

/-! ### The rule about the sprint toggle -/

/-- A method rule that replaces a constant. -/
def replacingRule (module : Option ModuleName) (pair : Constant × Constant) (n : Nat) :
    MethodRule where
  label := MethodsDraft.unnamedLabel n
  pattern := ⟨[.hasConstant pair.1]⟩
  block := some (.ofOperations [.replaceConstant pair.1 pair.2])
  module := module

/-- Replacing constants by others of their kind makes a method rule for each of them, and raises
nothing. -/
theorem ClassRuleDraft.made_constantReplacements {pairs : List (Constant × Constant)}
    (h : ∀ pair ∈ pairs, pair.1.kind = pair.2.kind) (s : ClassRuleDraft) :
    made (constantReplacements pairs) s = { s with
      methods := s.methods ++ (pairs.zipIdx (s.unnamed + 1)).map fun entry =>
        replacingRule s.module entry.1 entry.2
      unnamed := s.unnamed + pairs.length } := by
  induction pairs generalizing s with
  | nil =>
    rw [List.zipIdx_nil, List.map_nil, List.append_nil]
    rfl
  | cons pair pairs ih =>
    rw [List.forall_mem_cons] at h
    -- the first rule takes the next number, and the others go on from there
    have hfirst : made (constantReplacement pair.1 pair.2) s = { s with
        methods := s.methods ++ [replacingRule s.module pair (s.unnamed + 1)]
        unnamed := s.unnamed + 1 } := by
      have hop : BlockDraft.replaceConstant pair.1 pair.2 =
          BlockDraft.add (.replaceConstant pair.1 pair.2) := by
        rw [BlockDraft.replaceConstant, Operation.replacingConstant, if_pos h.1]
      rw [constantReplacement, MethodsDraft.constantReplacement, hop]
      show ({ s with
        methods := s.methods ++ [replacingRule s.module pair (s.unnamed + 1)]
        issues := s.issues ++ []
        unnamed := s.unnamed + 1 } : ClassRuleDraft) = _
      rw [List.append_nil]
    have hrest : made (constantReplacements (pair :: pairs)) s =
        made (constantReplacements pairs) (made (constantReplacement pair.1 pair.2) s) := rfl
    rw [hrest, hfirst, ih h.2]
    simp only [List.zipIdx_cons, List.map_cons, List.length_cons, List.append_assoc,
      List.singleton_append, Nat.add_assoc, Nat.add_comm 1 pairs.length]

namespace Tweak

open RulesDraft ClassRuleDraft

variable {registry : Registry} {relabel : String → String}

/-- The names of the states. -/
def sprintNames : List String := sprintStates.map Prod.snd

/-- The classes that the rule about the sprint toggle is about. -/
def sprintClass : ClassPattern := ⟨[.host, .isEnum, .contains "settings", .contains "flying"]⟩

/-- The constants that are replaced. -/
def relabelings (relabel : String → String) (states : List String) :
    List (Constant × Constant) :=
  states.map fun state => (.string state, .string (relabel state))

/-- The method rules that give the states other texts. -/
def sprintMethods (relabel : String → String) : List MethodRule :=
  ((relabelings relabel sprintNames).zipIdx 1).map fun entry =>
    let rule := replacingRule (some .toggleSprintText) entry.1 entry.2
    { rule with label := "toggle_sprint_states::" ++ rule.label }

/-- The rule about the sprint toggle. -/
def sprintRule (relabel : String → String) : ClassRule where
  label := "toggle_sprint_states"
  pattern := sprintClass
  methods := sprintMethods relabel
  module := some .toggleSprintText

theorem relabels_zipIdx (relabel : String → String) (states : List String) (n : Nat) :
    List.Forall₂ (MethodRule.Relabels relabel)
      (((relabelings relabel states).zipIdx n).map fun entry =>
        let rule := replacingRule (some .toggleSprintText) entry.1 entry.2
        { rule with label := "toggle_sprint_states::" ++ rule.label }) states := by
  induction states generalizing n with
  | nil => exact .nil
  | cons state states ih => exact .cons ⟨rfl, rfl⟩ (ih (n + 1))

theorem stateReplacements_eq_relabelings {m : ModuleState} {states : List (String × String)}
    (h : ∀ entry ∈ states, m.text entry.1 = .ok (relabel entry.2)) :
    stateReplacements m states = .ok (relabelings relabel (states.map Prod.snd)) := by
  induction states with
  | nil => rfl
  | cons entry states ih =>
    rw [List.forall_mem_cons] at h
    rw [stateReplacements, h.1, ih h.2]
    rfl

/-- With texts for all states there is the rule that gives them. -/
theorem rules_sprintTexts (henabled : registry.isEnabled .toggleSprintText = true)
    (hoptions : ∀ entry ∈ sprintStates,
      (registry.state .toggleSprintText).text entry.1 = .ok (relabel entry.2)) :
    (alone registry sprintTexts).rules = [sprintRule relabel] := by
  have hreplacements := stateReplacements_eq_relabelings hoptions
  let draft : ClassRuleDraft :=
    { ClassRuleDraft.start registry (some .toggleSprintText) with
      pattern := sprintClass, label := some "toggle_sprint_states" }
  let made' := made (constantReplacements (relabelings relabel sprintNames)) draft
  have hmade : made' = { draft with
      methods := ((relabelings relabel sprintNames).zipIdx 1).map fun entry =>
        replacingRule (some .toggleSprintText) entry.1 entry.2
      unnamed := 8 } :=
    made_constantReplacements (List.forall_mem_map.2 fun _ _ => rfl) draft
  have hrun : (do
      let replacements ← liftM
        (stateReplacements (registry.state .toggleSprintText) sprintStates)
      liftM (findHostClass do
        setLabel "toggle_sprint_states"
        ClassRuleDraft.require .isEnum
        ClassRuleDraft.require (.contains "settings")
        ClassRuleDraft.require (.contains "flying")
        ClassRuleDraft.constantReplacements replacements) : SectionBody RulesDraft Unit).run
      (Draft.enter .toggleSprintText (RulesDraft.start registry)) =
        (.ok (), ⟨registry, [] ++ (if made'.rule.hasWork then [made'.rule] else []),
          [] ++ made'.issues, some .toggleSprintText⟩) := by
    rw [hreplacements]
    rfl
  have hissues : made'.issues = [] := by rw [hmade]; rfl
  have hrule : made'.rule = sprintRule relabel := by rw [hmade]; rfl
  rw [hissues, hrule] at hrun
  have hraised : Draft.issues (⟨registry, [sprintRule relabel], [], some .toggleSprintText⟩ :
      RulesDraft) = Draft.issues (RulesDraft.start registry) ++ [] := rfl
  unfold alone sprintTexts
  rw [made_withModule (s := RulesDraft.start registry) henabled hrun hraised]
  rfl

/-- A part whose modules do not take part makes no rules. -/
theorem rules_of_disabled_modules {part : Drafting RulesDraft Unit × List ModuleName}
    (hpart : part ∈ parts) (hnone : ∀ name ∈ part.2, registry.isEnabled name = false) :
    (alone registry part.1).rules = [] := by
  rcases parts_cases 0 part hpart with rfl | rfl | rfl | ⟨name, hname, hsection⟩
  · have hedits : frameCounterEdits registry = [] := by
      rw [frameCounterEdits, frameLabel, frameMultiplier,
        Registry.given_of_disabled (hnone _ (.head _)),
        Registry.given_of_disabled (hnone _ (.tail _ (.head _)))]
      rfl
    rw [alone_frameCounter, hedits]
    rfl
  · have hmethods : metadataMethods registry = [] := by
      rw [metadataMethods, Registry.given_of_disabled (hnone _ (.head _)),
        Registry.given_of_disabled (hnone _ (.tail _ (.head _)))]
      rfl
    rw [alone_metadata, hmethods]
    rfl
  · exact (@inSection_cameraShake []).rules_of_disabled (hnone _ (.head _))
  · rw [hname] at hnone
    exact (hsection []).rules_of_disabled (hnone _ (.head _))

/-- The rules if no module takes part but that of the sprint toggle. -/
theorem rules_of_only_sprint
    (honly : ∀ name, registry.isEnabled name = true ↔ name = .toggleSprintText)
    (hoptions : ∀ entry ∈ sprintStates,
      (registry.state .toggleSprintText).text entry.1 = .ok (relabel entry.2)) :
    (defaultRules registry).rules = [sprintRule relabel] := by
  have hparts (part : Drafting RulesDraft Unit × List ModuleName) (hpart : part ∈ parts) :
      (alone registry part.1).rules =
        if part.2 = [.toggleSprintText] then [sprintRule relabel] else [] := by
    split
    · rename_i hname
      obtain rfl : part = (sprintTexts, [.toggleSprintText]) := by
        simp only [parts, List.mem_cons, List.not_mem_nil, or_false] at hpart
        rcases hpart with rfl | rfl | rfl | rfl | rfl | rfl | rfl | rfl | rfl | rfl | rfl | rfl |
          rfl | rfl | rfl | rfl
        all_goals first | rfl | exact absurd hname (by decide)
      exact rules_sprintTexts ((honly _).2 rfl) hoptions
    · rename_i hother
      have hnames : ∀ names ∈ parts.map Prod.snd, names ≠ [.toggleSprintText] →
          ModuleName.toggleSprintText ∉ names := by decide
      refine rules_of_disabled_modules hpart fun name hname => ?_
      rw [Bool.eq_false_iff]
      intro henabled
      rw [(honly name).1 henabled] at hname
      exact hnames _ (List.mem_map_of_mem hpart) hother hname
  rw [rules_defaultRules, List.flatMap_congr hparts]
  rfl

/-- What a scan with this rule leaves, if one method alone loads names of states. -/
theorem exists_owner_ofClass_sprintRule (relabel : String → String) (naming : Naming)
    {owner : ClassDecl} {d : Nat} {m : MethodDecl} (hclass : sprintClass.accepts owner = true)
    (hmethod : owner.OnlyIn sprintNames d m) :
    ∃ after, (Scan.ofClass naming [sprintRule relabel] owner).1.owner = owner.setMethod d after ∧
      after.code = m.code.map (Instruction.relabelAll relabel
        (sprintNames.filter fun state => .string state ∈ m.constants)) := by
  have hrelabels := relabels_zipIdx relabel sprintNames 1
  -- the rule has no conditions besides the pattern
  have hfires : (sprintRule relabel).fires (Scan.start owner).owner = true := by
    rw [ClassRule.fires, Bool.and_eq_true]
    refine ⟨hclass, List.all_eq_true.2 fun rule hrule => ?_⟩
    obtain ⟨entry, -, rfl⟩ := List.mem_map.1 hrule
    rfl
  rw [Scan.ofClass, Scan.applyRules_cons, Scan.applyRule_of_fires hfires]
  exact Scan.owner_applyMethods_relabels (s := (Scan.start owner).fired (sprintRule relabel))
    hmethod hrelabels (List.Subset.refl _) hmethod.found

/-- Scans with the rule about the sprint toggle alone. In the method that loads names of states,
every instruction that loads none of them stays as it is. Those that do load their own texts
exactly if, for each state that the method loads and each later one, the first is not given the name
of the second, or the second keeps it. -/
theorem scan_sprintTexts {owner : ClassDecl} {d : Nat} {m : MethodDecl} (naming : Nat → Naming)
    (honly : ∀ name, registry.isEnabled name = true ↔ name = .toggleSprintText)
    (hoptions : ∀ entry ∈ sprintStates,
      (registry.state .toggleSprintText).text entry.1 = .ok (relabel entry.2))
    (hclass : sprintClass.accepts owner = true) (hmethod : owner.OnlyIn sprintNames d m) :
    ∃ after, ((Session.start (defaultRules registry) naming).scan owner).1.owner =
        owner.setMethod d after ∧
      after.code.length = m.code.length ∧
        (∀ (i : Nat) (insn : Instruction), m.code[i]? = some insn →
          (∀ state ∈ sprintNames, insn.constant? ≠ some (.string state)) →
            after.code[i]? = some insn) ∧
          ((∀ (i : Nat) (insn : Instruction) (state : String), m.code[i]? = some insn →
              state ∈ sprintNames → insn.constant? = some (.string state) →
                ∃ insn', after.code[i]? = some insn' ∧
                  insn'.constant? = some (.string (relabel state))) ↔
            sprintNames.Pairwise fun s t => .string s ∈ m.constants → .string t ∈ m.constants →
              relabel s = t → relabel t = t) := by
  obtain ⟨after, hafter, hcode⟩ := exists_owner_ofClass_sprintRule relabel (naming 0) hclass hmethod
  set loaded := sprintNames.filter fun state => .string state ∈ m.constants with hloaded
  have hmem (state : String) :
      state ∈ loaded ↔ state ∈ sprintNames ∧ .string state ∈ m.constants := by
    rw [hloaded, List.mem_filter, decide_eq_true_iff]
  refine ⟨after, ?_, by rw [hcode, List.length_map], fun i insn hinsn hother => ?_, ?_⟩
  · rw [← hafter, ← rules_of_only_sprint honly hoptions]
    rfl
  · rw [hcode, List.getElem?_map, hinsn, Option.map_some,
      relabelAll_eq_self fun state hstate => hother state ((hmem state).1 hstate).1]
  · have hnodup : loaded.Nodup := List.Nodup.filter _ (by decide)
    rw [shows_own_texts_iff hcode hmem, exchangeAll_eq_iff hnodup, hloaded, List.pairwise_filter]
    simp only [decide_eq_true_iff]

/-- A class whose only method loads the names of two states. -/
def twoStates : ClassDecl :=
  ⟨"com/moonsworth/lunar/q/Z", none, [], .accEnum, [], [⟨"a", "()V", ⟨9⟩, [], .void,
    [.ldc (.string "flying"), .simple Opcode.pop, .ldc (.string "boost"), .simple Opcode.pop,
      .simple Opcode.vreturn], [], 1, 0⟩], [.string "settings", .string "flying"]⟩

/-- The rule about the sprint toggle alone, with the texts of its first two options. -/
def twoTexts (flying boost : String) : Registry :=
  ((Registry.initial.setEnabled .toggleSprintText true).setOption .toggleSprintText "flying_text"
    (.text flying)).setOption .toggleSprintText "flying_boost_text" (.text boost)

/-- The texts that two options give. -/
def twoRelabel (flying boost : String) (state : String) : String :=
  if state = "flying" then flying else if state = "boost" then boost else state

theorem enabled_twoTexts (flying boost : String) (name : ModuleName) :
    (twoTexts flying boost).isEnabled name = true ↔ name = .toggleSprintText := by
  have hname : (twoTexts flying boost).isEnabled name = decide (name = .toggleSprintText) := by
    cases name <;> rfl
  rw [hname, decide_eq_true_iff]

theorem text_twoTexts (flying boost : String) : ∀ entry ∈ sprintStates,
    ((twoTexts flying boost).state .toggleSprintText).text entry.1 =
      .ok (twoRelabel flying boost entry.2) := by
  simp only [sprintStates, List.forall_mem_cons]
  exact ⟨rfl, rfl, rfl, rfl, rfl, rfl, rfl, rfl, nofun⟩

theorem onlyIn_twoStates (m : MethodDecl) (h : twoStates.methods[0]? = some m) :
    twoStates.OnlyIn sprintNames 0 m where
  found := h
  others := by
    rintro (_ | i) m' hm' hi
    · exact absurd rfl hi
    · cases hm'

/-- The later of two states is given the name of the earlier one, which is exchanged before. -/
theorem scan_sprintTexts_of_two_states :
    ∃ m, twoStates.methods[0]? = some m ∧
      (∀ name, (twoTexts "soaring" "flying").isEnabled name = true ↔ name = .toggleSprintText) ∧
        sprintClass.accepts twoStates = true ∧ twoStates.OnlyIn sprintNames 0 m ∧
          ∃ after, ((Session.start (defaultRules (twoTexts "soaring" "flying")) fun _ _ => 0).scan
              twoStates).1.owner = twoStates.setMethod 0 after ∧
            ∀ (i : Nat) (insn : Instruction) (state : String), m.code[i]? = some insn →
              state ∈ sprintNames → insn.constant? = some (.string state) →
                ∃ insn', after.code[i]? = some insn' ∧
                  insn'.constant? = some (.string (twoRelabel "soaring" "flying" state)) := by
  have hfound : twoStates.methods[0]? = some _ := rfl
  have honly := onlyIn_twoStates _ hfound
  have hclass : sprintClass.accepts twoStates = true := by decide
  obtain ⟨after, hafter, -, -, htexts⟩ := scan_sprintTexts (fun _ _ => 0)
    (enabled_twoTexts "soaring" "flying") (text_twoTexts "soaring" "flying") hclass honly
  exact ⟨_, hfound, enabled_twoTexts "soaring" "flying", hclass, honly, after, hafter,
    htexts.2 (by decide)⟩

/-- The first state is given the name of the second one, and so it ends up with the text of the
second one. -/
theorem scan_sprintTexts_exchanged_again :
    ∃ m insn insn' after, twoStates.methods[0]? = some m ∧
      (∀ name, (twoTexts "boost" "rush").isEnabled name = true ↔ name = .toggleSprintText) ∧
        (∀ entry ∈ sprintStates, ((twoTexts "boost" "rush").state .toggleSprintText).text entry.1 =
          .ok (twoRelabel "boost" "rush" entry.2)) ∧
          sprintClass.accepts twoStates = true ∧ twoStates.OnlyIn sprintNames 0 m ∧
            ((Session.start (defaultRules (twoTexts "boost" "rush")) fun _ _ => 0).scan
                twoStates).1.owner = twoStates.setMethod 0 after ∧
              m.code[0]? = some insn ∧ insn.constant? = some (.string "flying") ∧
                after.code[0]? = some insn' ∧ insn'.constant? = some (.string "rush") ∧
                  twoRelabel "boost" "rush" "flying" = "boost" := by
  have hfound : twoStates.methods[0]? = some _ := rfl
  have honly := onlyIn_twoStates _ hfound
  have hclass : sprintClass.accepts twoStates = true := by decide
  obtain ⟨after, hafter, hcode⟩ :=
    exists_owner_ofClass_sprintRule (twoRelabel "boost" "rush") (fun _ => 0) hclass honly
  have hscan : ((Session.start (defaultRules (twoTexts "boost" "rush")) fun _ _ => 0).scan
      twoStates).1.owner = twoStates.setMethod 0 after := by
    rw [← hafter, ← rules_of_only_sprint (enabled_twoTexts "boost" "rush")
      (text_twoTexts "boost" "rush")]
    rfl
  exact ⟨_, _, .ldc (.string "rush"), after, hfound, enabled_twoTexts "boost" "rush",
    text_twoTexts "boost" "rush", hclass, honly, hscan, rfl, rfl, by rw [hcode]; decide, rfl, rfl⟩

end Tweak

end ClassEdit
