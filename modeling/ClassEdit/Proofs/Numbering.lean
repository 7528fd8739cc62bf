import ClassEdit.Proofs.Rollback

/-!
# The numbers of rules without a name

Method rules without a name are numbered in the order in which they are made, and their number is in
their label. A section that fails is taken back, but the count goes on from where the section has
left it. So the labels after it tell that it was there: they are those of a script without the
section exactly if the section makes no rule without a name, or nothing that is without a name and
there in the end is made after it.

To tell this apart from what sections are taken back, a script is read as the list of all rules that
are made in its course. Rules that are not there in the end are in the list too, since they are
counted. Leaving out a section that fails takes a piece out of this list and changes nothing else:
the section is reported in an issue, so a section around it fails as well, and no rule outside of it
depends on what was taken back.

## Main definitions

* `Registration`, `Script.registrations`: the rules that are made in the course of a script.
* `Registration.labels`: the labels of those that are there in the end.
* `Script.Omission`: a script from which a section that fails is left out.

## Main results

* `Script.labelled_run`: what a script makes has the labels of its registrations.
* `Registration.labels_eq_iff`: when the labels do not depend on how many rules came before.
* `Script.labels_of_omission_iff`: when a section that fails leaves no trace in labels.
-/

namespace ClassEdit

/-! ### Labels of rules made one after the other -/

/-- A method rule that is made in the course of a script. -/
structure Registration where
  /-- The name that the rule is given, if there is one. -/
  name : Option String
  /-- Whether the rule is there in the end. It is not if a section around it fails, or if it was
  meant to have edits and has none. -/
  shown : Bool

namespace Registration

variable {r : Registration} {rs earlier later : List Registration} {n n' : Nat}

/-- A rule that is taken back. -/
def takenBack (r : Registration) : Registration := { r with shown := false }

/-- How many of the rules have no name. -/
def unnamed (rs : List Registration) : Nat := rs.countP fun r => r.name.isNone

/-- The labels of those rules that are there in the end, if so many rules without a name were made
before. -/
def labels (n : Nat) : List Registration → List String
  | [] => []
  | r :: rest =>
    match r.name with
    | some name => (if r.shown then [name] else []) ++ labels n rest
    | none => (if r.shown then [MethodsDraft.unnamedLabel (n + 1)] else []) ++ labels (n + 1) rest

theorem labels_named (n : Nat) (name : String) (shown : Bool) :
    labels n [⟨some name, shown⟩] = if shown then [name] else [] :=
  List.append_nil _

theorem labels_unnamed (n : Nat) (shown : Bool) :
    labels n [⟨none, shown⟩] = if shown then [MethodsDraft.unnamedLabel (n + 1)] else [] :=
  List.append_nil _

theorem unnamed_append : unnamed (earlier ++ later) = unnamed earlier + unnamed later :=
  List.countP_append

theorem unnamed_cons_of_none (h : r.name = none) : unnamed (r :: rs) = unnamed rs + 1 := by
  rw [unnamed, List.countP_cons, h]
  rfl

theorem unnamed_cons_of_some {name : String} (h : r.name = some name) :
    unnamed (r :: rs) = unnamed rs := by
  rw [unnamed, List.countP_cons, h]
  rfl

theorem unnamed_takenBack : unnamed (rs.map takenBack) = unnamed rs := by
  rw [unnamed, List.countP_map]
  rfl

/-- No rule is without a name if none is counted. -/
theorem unnamed_eq_zero_iff : unnamed rs = 0 ↔ ∀ r ∈ rs, r.name ≠ none := by
  simp [unnamed, List.countP_eq_zero]

/-- The numbers of later rules go on where those of the earlier ones end. -/
theorem labels_append (n : Nat) (earlier later : List Registration) :
    labels n (earlier ++ later) = labels n earlier ++ labels (n + unnamed earlier) later := by
  induction earlier generalizing n with
  | nil => rfl
  | cons r rest ih =>
    rw [List.cons_append, labels, labels]
    cases hname : r.name with
    | some name =>
      dsimp only
      rw [ih, unnamed_cons_of_some hname, List.append_assoc]
    | none =>
      dsimp only
      rw [ih, unnamed_cons_of_none hname, List.append_assoc,
        Nat.add_right_comm n 1, Nat.add_assoc n]

theorem labels_eq_nil (h : ∀ r ∈ rs, r.shown = false) : labels n rs = [] := by
  induction rs generalizing n with
  | nil => rfl
  | cons r rest ih =>
    rw [List.forall_mem_cons] at h
    rw [labels, h.1]
    cases r.name with
    | some name => exact ih h.2
    | none => exact ih h.2

theorem labels_takenBack : labels n (rs.map takenBack) = [] := by
  refine labels_eq_nil fun r hr => ?_
  obtain ⟨r', -, rfl⟩ := List.mem_map.1 hr
  rfl

theorem unnamedLabel_inj : MethodsDraft.unnamedLabel n = MethodsDraft.unnamedLabel n' ↔ n = n' := by
  rw [MethodsDraft.unnamedLabel, MethodsDraft.unnamedLabel, String.append_left_inj,
    String.append_right_inj]
  -- a number can be read off its digits
  refine ⟨fun h => ?_, fun h => congrArg Nat.repr h⟩
  have hrepr : n.repr = n'.repr := h
  calc n = Nat.ofDigitChars 10 n.repr.toList 0 := by
        rw [Nat.toList_repr, Nat.ofDigitChars_ten_toDigits]
    _ = n' := by rw [hrepr, Nat.toList_repr, Nat.ofDigitChars_ten_toDigits]

/-- The labels depend on how many rules without a name were made before, unless all rules that are
there in the end have names. -/
theorem labels_eq_iff :
    labels n rs = labels n' rs ↔ n = n' ∨ ∀ r ∈ rs, r.shown = true → r.name ≠ none := by
  induction rs generalizing n n' with
  | nil => simp [labels]
  | cons r rest ih =>
    rw [labels, labels, List.forall_mem_cons]
    cases hname : r.name with
    | some name => simp [ih]
    | none =>
      cases hshown : r.shown with
      | false => simp [ih]
      | true =>
        -- the first label tells how many rules came before
        refine ⟨fun h => ?_, fun h => ?_⟩
        · have hfirst := (List.cons.inj h).1
          exact .inl (Nat.succ_inj.1 (unnamedLabel_inj.1 hfirst))
        · rcases h with rfl | ⟨hnamed, -⟩
          · rfl
          · exact absurd rfl (hnamed rfl)

end Registration

/-! ### The rules that are made in the course of a script -/

open Registration

/-- The labels of those rules of a draft that are kept. -/
def keptLabels (rules : List MethodRule) : List String :=
  (rules.filter MethodRule.isKept).map MethodRule.label

theorem keptLabels_append (rules rules' : List MethodRule) :
    keptLabels (rules ++ rules') = keptLabels rules ++ keptLabels rules' := by
  rw [keptLabels, List.filter_append, List.map_append]
  rfl

/-- Drafts in which method rules are numbered. -/
class Numbering (σ : Type) [Draft σ] [Growing σ] where
  methods : σ → List MethodRule
  /-- How many rules without a name were made. -/
  count : σ → Nat
  enter (name : ModuleName) (s : σ) :
    methods (Draft.enter name s) = methods s ∧ count (Draft.enter name s) = count s
  leave (s t : σ) : methods (Draft.leave s t) = methods t ∧ count (Draft.leave s t) = count t
  /-- The rules of a section are taken back, and the count is not. -/
  rolledBack {name : ModuleName} {s t : σ} (issues : List EditError) :
    Growing.Grown (Draft.enter name s) t →
      methods (Draft.setIssues (Draft.rollback (Draft.mark s) (Draft.leave s t)) issues) =
          methods s ∧
        count (Draft.setIssues (Draft.rollback (Draft.mark s) (Draft.leave s t)) issues) = count t

/-- Calls by which method rules are made. -/
class Registering (κ : Type) where
  registrations : Registry → κ → List Registration

namespace Script

/-- The rules that are made in the course of a script, in order. -/
def registrations {κ σ : Type} [Draft σ] [Calls κ σ] [Registering κ] (registry : Registry) :
    Script κ → List Registration
  | nothing => []
  | call first rest => Registering.registrations registry first ++ rest.registrations registry
  | within name body ending rest =>
    let inside := (body (registry.state name)).registrations registry
    (if registry.isEnabled name then
      if sectionFails registry name body ending then inside.map takenBack else inside
    else []) ++ rest.registrations registry

end Script

/-- The second draft is the first one with more method rules, with the labels that registrations
have. -/
structure Labelled {σ : Type} [Draft σ] [Growing σ] [Numbering σ] (s t : σ)
    (rs : List Registration) : Prop where
  labels_eq : keptLabels (Numbering.methods t) =
    keptLabels (Numbering.methods s) ++ labels (Numbering.count s) rs
  count_eq : Numbering.count t = Numbering.count s + unnamed rs

namespace Labelled

variable {σ : Type} [Draft σ] [Growing σ] [Numbering σ] {s t u : σ} {rs rs' : List Registration}

theorem refl (s : σ) : Labelled s s [] := ⟨(List.append_nil _).symm, rfl⟩

theorem trans (h : Labelled s t rs) (h' : Labelled t u rs') : Labelled s u (rs ++ rs') := by
  refine ⟨?_, ?_⟩
  · rw [h'.labels_eq, h.labels_eq, h.count_eq, labels_append, List.append_assoc]
  · rw [h'.count_eq, h.count_eq, unnamed_append, Nat.add_assoc]

theorem leave {name : ModuleName} (h : Labelled (Draft.enter name s) t rs) :
    Labelled s (Draft.leave s t) rs := by
  obtain ⟨hmethods, hcount⟩ := Numbering.enter name s
  obtain ⟨hmethods', hcount'⟩ := Numbering.leave s t
  have hlabels := h.labels_eq
  have hcounted := h.count_eq
  rw [hmethods, hcount] at hlabels
  rw [hcount] at hcounted
  exact ⟨hmethods' ▸ hlabels, hcount'.trans hcounted⟩

/-- What is taken back is still counted. -/
theorem rolledBack {name : ModuleName} (issues : List EditError)
    (h : Labelled (Draft.enter name s) t rs) (hgrown : Growing.Grown (Draft.enter name s) t) :
    Labelled s (Draft.setIssues (Draft.rollback (Draft.mark s) (Draft.leave s t)) issues)
      (rs.map takenBack) := by
  obtain ⟨hmethods, hcount⟩ := Numbering.rolledBack issues hgrown
  refine ⟨?_, ?_⟩
  · rw [hmethods, labels_takenBack, List.append_nil]
  · rw [hcount, h.count_eq, (Numbering.enter name s).2, unnamed_takenBack]

end Labelled

/-- Calls that make the rules that they say. -/
class LawfulRegistering (κ σ : Type) [Draft σ] [Growing σ] [Numbering σ] [Calls κ σ]
    [Registering κ] : Prop where
  labelled (call : κ) (s : σ) : Labelled s (made (Calls.perform call) s)
    (Registering.registrations (Draft.registry s) call)

namespace Script

variable {κ σ : Type} [Draft σ] [Growing σ] [Numbering σ] [Calls κ σ] [LawfulCalls κ σ]
variable [Registering κ] [LawfulRegistering κ σ]

open Growing

/-- What a script makes has the labels of its registrations. -/
theorem labelled_run (t : Script κ) (s : σ) :
    Labelled s (made t.run s) (t.registrations (Draft.registry s)) := by
  induction t generalizing s with
  | nothing => exact .refl s
  | call first rest ih =>
    have hrest := ih (made (Calls.perform first) s)
    rw [registry_eq (LawfulCalls.grown first s)] at hrest
    exact (LawfulRegistering.labelled first s).trans hrest
  | within name body ending rest ihbody ih =>
    have hrest := ih (made (inModule name body ending) s)
    rw [registry_eq (grown_inModule name body ending s)] at hrest
    refine Labelled.trans ?_ hrest
    -- a section adds what its body does, or uses up as many numbers as its body
    have hbody := ihbody ((Draft.registry s).state name) (Draft.enter name s)
    rw [registry_enter] at hbody
    cases henabled : (Draft.registry s).isEnabled name with
    | false =>
      rw [inModule, made_withModule_of_disabled henabled]
      exact .refl s
    | true =>
      cases hfails : sectionFails (Draft.registry s) name body ending with
      | true =>
        obtain ⟨owner, problem, -, hmade⟩ := made_inModule_of_fails henabled hfails
        rw [hmade]
        exact hbody.rolledBack _ (grown_run _ _)
      | false =>
        rw [made_inModule_of_keeps henabled hfails]
        exact hbody.leave

end Script

/-! ### The calls of each level -/

/-- Whether a method rule with such a program is kept, as it is not left without edits that it was
meant to have. -/
def MethodRuleCall.keeps (registry : Registry) (program : List MethodRuleCall) : Bool :=
  let finder := made (performAll program) ⟨registry, .empty, none⟩
  (finder.block.map BlockDraft.block).all fun b => !b.isEmpty

instance : Registering MethodsCall where
  registrations registry
    | .register label program => [⟨label, MethodRuleCall.keeps registry program⟩]

instance : Numbering MethodsDraft where
  methods s := s.methods
  count s := s.unnamed
  enter _ _ := ⟨rfl, rfl⟩
  leave _ _ := ⟨rfl, rfl⟩
  rolledBack issues h := by
    rw [MethodsDraft.Grown.rolledBack issues h]
    exact ⟨rfl, rfl⟩

/-- The label of a method rule is there if the rule is kept. -/
theorem MethodsDraft.keptLabels_register (label : String) (program : List MethodRuleCall)
    (s : MethodsDraft) :
    keptLabels (made (register label (MethodRuleCall.performAll program)) s).methods =
      keptLabels s.methods ++ if MethodRuleCall.keeps s.registry program then [label] else [] := by
  show keptLabels (s.methods ++ [_]) = _
  rw [keptLabels_append]
  refine congrArg _ ?_
  show ([_].filter fun rule : MethodRule => rule.block.all fun b => !b.isEmpty).map _ = _
  rw [List.filter_cons]
  show List.map _ (if MethodRuleCall.keeps s.registry program then _ else _) = _
  split <;> rfl

instance : LawfulRegistering MethodsCall MethodsDraft where
  labelled call s := by
    obtain ⟨label, program⟩ := call
    cases label with
    | some label =>
      have hlabels := MethodsDraft.keptLabels_register label program s
      rw [← labels_named s.unnamed] at hlabels
      exact ⟨hlabels, rfl⟩
    | none =>
      show Labelled s (made (MethodsDraft.unnamedMethod (MethodRuleCall.performAll program)) s) _
      rw [MethodsDraft.made_unnamedMethod]
      have hlabels := MethodsDraft.keptLabels_register (MethodsDraft.unnamedLabel (s.unnamed + 1))
        program { s with unnamed := s.unnamed + 1 }
      rw [← labels_unnamed s.unnamed] at hlabels
      exact ⟨hlabels, rfl⟩

instance : Registering ClassRuleCall where
  registrations registry
    | .inMethods program => program.registrations registry
    | _ => []

instance : Numbering ClassRuleDraft where
  methods s := s.methods
  count s := s.unnamed
  enter _ _ := ⟨rfl, rfl⟩
  leave _ _ := ⟨rfl, rfl⟩
  rolledBack issues h := by
    rw [ClassRuleDraft.Grown.rolledBack issues h]
    exact ⟨rfl, rfl⟩

instance : LawfulRegistering ClassRuleCall ClassRuleDraft where
  labelled call s := by
    cases call with
    | setLabel | require => exact ⟨(List.append_nil (keptLabels s.methods)).symm, rfl⟩
    | inMethods program =>
      -- the count of the class rule is handed to its method rules and back
      obtain ⟨hlabels, hcount⟩ :=
        Script.labelled_run program (MethodsDraft.mk s.registry [] [] s.module s.unnamed)
      refine ⟨?_, hcount⟩
      show keptLabels (s.methods ++ _) = _
      rw [keptLabels_append]
      exact congrArg _ hlabels

/-! ### Scripts from which a section is left out -/

/-- Calls from whose scripts a section can be left out. -/
class Omitting (κ : Type) where
  Omission : Registry → κ → List Registration → List Registration → κ → Prop

/-- A script from which one section that fails is left out. The lists are the rules that are made in
the section and those that are made after it. A section around it fails for the failure inside, and
is one that fails without it too. -/
inductive Script.Omission {κ σ : Type} [Draft σ] [Calls κ σ] [Registering κ] [Omitting κ]
    (registry : Registry) :
    Script κ → List Registration → List Registration → Script κ → Prop
  | here {name : ModuleName} {body : ModuleState → Script κ}
    {ending : ModuleState → Except EditError Unit} {rest : Script κ}
    (henabled : registry.isEnabled name = true)
    (hfails : sectionFails registry name body ending = true) :
    Omission registry (within name body ending rest)
      (((body (registry.state name)).registrations registry).map takenBack)
      (rest.registrations registry) rest
  | inCall {first first' : κ} {rest : Script κ} {gone later : List Registration}
    (h : Omitting.Omission registry first gone later first') :
    Omission registry (call first rest) gone (later ++ rest.registrations registry)
      (call first' rest)
  | inside {name : ModuleName} {body body' : ModuleState → Script κ}
    {ending : ModuleState → Except EditError Unit} {rest : Script κ}
    {gone later : List Registration} (henabled : registry.isEnabled name = true)
    (h : Omission registry (body (registry.state name)) gone later (body' (registry.state name)))
    (hfails : sectionFails registry name body' ending = true) :
    Omission registry (within name body ending rest) (gone.map takenBack)
      (later.map takenBack ++ rest.registrations registry) (within name body' ending rest)
  | afterCall {first : κ} {rest rest' : Script κ} {gone later : List Registration}
    (h : Omission registry rest gone later rest') :
    Omission registry (call first rest) gone later (call first rest')
  | afterSection {name : ModuleName} {body : ModuleState → Script κ}
    {ending : ModuleState → Except EditError Unit} {rest rest' : Script κ}
    {gone later : List Registration} (h : Omission registry rest gone later rest') :
    Omission registry (within name body ending rest) gone later (within name body ending rest')

/-- A list of registrations from which a piece is left out that is not there in the end. -/
def Registration.Excised (rs gone later rs' : List Registration) : Prop :=
  (∀ r ∈ gone, r.shown = false) ∧
    ∃ earlier, rs = earlier ++ gone ++ later ∧ rs' = earlier ++ later

namespace Registration.Excised

variable {rs gone later rs' more : List Registration}

theorem takenBack (h : Excised rs gone later rs') :
    Excised (rs.map Registration.takenBack) (gone.map Registration.takenBack)
      (later.map Registration.takenBack) (rs'.map Registration.takenBack) := by
  obtain ⟨-, earlier, rfl, rfl⟩ := h
  refine ⟨fun r hr => ?_, earlier.map Registration.takenBack, by simp, by simp⟩
  obtain ⟨r', -, rfl⟩ := List.mem_map.1 hr
  rfl

theorem append (h : Excised rs gone later rs') (more : List Registration) :
    Excised (rs ++ more) gone (later ++ more) (rs' ++ more) := by
  obtain ⟨hgone, earlier, rfl, rfl⟩ := h
  exact ⟨hgone, earlier, by simp, by simp⟩

theorem prepend (h : Excised rs gone later rs') (more : List Registration) :
    Excised (more ++ rs) gone later (more ++ rs') := by
  obtain ⟨hgone, earlier, rfl, rfl⟩ := h
  exact ⟨hgone, more ++ earlier, by simp, by simp⟩

/-- The labels are the same without the piece exactly if no number is used up by it, or no label
behind it has a number. -/
theorem labels_eq_iff (h : Excised rs gone later rs') (n : Nat) :
    labels n rs = labels n rs' ↔ (∀ r ∈ gone, r.name ≠ none) ∨
      ∀ r ∈ later, r.shown = true → r.name ≠ none := by
  obtain ⟨hgone, earlier, rfl, rfl⟩ := h
  rw [labels_append, labels_append, labels_append, labels_eq_nil hgone, List.append_nil,
    List.append_cancel_left_eq, Registration.labels_eq_iff, unnamed_append, ← unnamed_eq_zero_iff]
  refine or_congr_left ?_
  omega

end Registration.Excised

/-- Calls from which sections are left out as from scripts. -/
class LawfulOmitting (κ σ : Type) [Draft σ] [Calls κ σ] [Registering κ] [Prunable κ]
    [Omitting κ] : Prop where
  excised {registry : Registry} {call call' : κ} {gone later : List Registration} :
    Omitting.Omission registry call gone later call' →
      Excised (Registering.registrations registry call) gone later
        (Registering.registrations registry call')
  raises {registry : Registry} {call call' : κ} {gone later : List Registration} :
    Omitting.Omission registry call gone later call' → Calls.raises registry call = true
  prune_eq {registry : Registry} {call call' : κ} {gone later : List Registration} :
    Omitting.Omission registry call gone later call' →
      Prunable.prune registry call = Prunable.prune registry call'

namespace Script

variable {κ σ : Type} [Draft σ] [Calls κ σ] [Registering κ] [Prunable κ] [Omitting κ]
variable [LawfulOmitting κ σ] {registry : Registry} {t t' : Script κ}
variable {gone later : List Registration}

/-- A script with a section that fails raises an issue. -/
theorem Omission.raises (h : Omission registry t gone later t') : t.raises registry = true := by
  induction h with
  | here henabled hfails =>
    rw [sectionFails] at hfails
    rw [Script.raises, henabled, hfails]
    rfl
  | inCall h => rw [Script.raises, LawfulOmitting.raises h, Bool.true_or]
  | inside henabled _ _ ih => rw [Script.raises, henabled, ih, Bool.or_true, Bool.and_true,
      Bool.true_or]
  | afterCall _ ih => rw [Script.raises, ih, Bool.or_true]
  | afterSection _ ih => rw [Script.raises, ih, Bool.or_true]

/-- A section with one inside that fails, fails too. -/
theorem Omission.sectionFails {name : ModuleName} {body body' : ModuleState → Script κ}
    (ending : ModuleState → Except EditError Unit)
    (h : Omission registry (body (registry.state name)) gone later (body' (registry.state name))) :
    sectionFails registry name body ending = true := by
  rw [Script.sectionFails, h.raises, Bool.or_true]

/-- The rules that are made without the section are the others. -/
theorem Omission.excised (h : Omission registry t gone later t') :
    Excised (t.registrations registry) gone later (t'.registrations registry) := by
  induction h with
  | @here name body ending rest henabled hfails =>
    refine ⟨fun r hr => ?_, [], ?_, rfl⟩
    · obtain ⟨r', -, rfl⟩ := List.mem_map.1 hr
      rfl
    · rw [registrations, if_pos henabled, if_pos hfails, List.nil_append]
  | inCall h => exact (LawfulOmitting.excised σ h).append _
  | @inside name body body' ending rest gone later henabled h hfails ih =>
    rw [registrations, registrations, if_pos henabled, if_pos henabled,
      if_pos (h.sectionFails ending), if_pos hfails]
    exact ih.takenBack.append _
  | afterCall _ ih => exact ih.prepend _
  | afterSection _ ih => exact ih.prepend _

/-- Without the sections that fail, both scripts are the same. -/
theorem Omission.pruned_eq (h : Omission registry t gone later t') :
    t.pruned registry = t'.pruned registry := by
  induction h with
  | here henabled hfails =>
    rw [pruned, if_neg]
    simp [hfails]
  | inCall h => rw [pruned, pruned, LawfulOmitting.prune_eq σ h]
  | @inside name body body' ending rest gone later henabled h hfails ih =>
    rw [pruned, pruned, if_neg, if_neg]
    · simp [hfails]
    · simp [h.sectionFails ending]
  | afterCall _ ih => rw [pruned, pruned, ih]
  | afterSection _ ih => rw [pruned, pruned, ih]

end Script

/-! ### Leaving a section out of a class rule -/

/-- There are no sections inside of calls on method rules that could fail. -/
instance : Omitting MethodsCall where
  Omission _ _ _ _ _ := False

instance : LawfulOmitting MethodsCall MethodsDraft where
  excised := False.elim
  raises := False.elim
  prune_eq := False.elim

instance : Omitting ClassRuleCall where
  Omission registry
    | .inMethods program, gone, later, .inMethods program' =>
      program.Omission registry gone later program'
    | _, _, _, _ => False

instance : LawfulOmitting ClassRuleCall ClassRuleDraft where
  excised {registry call call' gone later} h := by
    cases call <;> cases call' <;> first | exact False.elim h | skip
    exact Script.Omission.excised h
  raises {registry call call' gone later} h := by
    cases call <;> cases call' <;> first | exact False.elim h | skip
    exact Script.Omission.raises h
  prune_eq {registry call call' gone later} h := by
    cases call <;> cases call' <;> first | exact False.elim h | skip
    exact congrArg ClassRuleCall.inMethods (Script.Omission.pruned_eq h)

/-- The labels of the method rules of a finished class rule. -/
def ClassRule.methodLabels (r : ClassRule) : List String := r.methods.map MethodRule.label

theorem ClassRuleDraft.methodLabels_rule (s : ClassRuleDraft) :
    s.rule.methodLabels = (keptLabels s.methods).map (s.finalLabel ++ "::" ++ ·) := by
  rw [ClassRule.methodLabels, rule, keptLabels, List.map_map, List.map_map]
  rfl

namespace Script

variable {registry : Registry} {module : Option ModuleName} {t t' : Script ClassRuleCall}
variable {gone later : List Registration}

/-- The method rules of a class rule are numbered from the start. -/
theorem methodLabels_made (registry : Registry) (module : Option ModuleName)
    (t : Script ClassRuleCall) :
    (made t.run (.start registry module)).rule.methodLabels =
      (labels 0 (t.registrations registry)).map
        ((made t.run (.start registry module)).finalLabel ++ "::" ++ ·) := by
  have hlabels := (labelled_run t (ClassRuleDraft.start registry module)).labels_eq
  rw [ClassRuleDraft.methodLabels_rule]
  exact congrArg _ hlabels

/-- The label of a class rule does not depend on a section that fails. -/
theorem finalLabel_of_omission (h : Omission registry t gone later t') :
    (made t.run (.start registry module)).finalLabel =
      (made t'.run (.start registry module)).finalLabel := by
  have hself : ClassRuleDraft.Alike (.start registry module) (.start registry module) :=
    ⟨rfl, rfl, rfl, rfl, rfl, .nil⟩
  -- both are alike to what comes of the script without all the sections that fail
  have halike : ClassRuleDraft.Alike _ _ := alike_pruned t hself
  have halike' : ClassRuleDraft.Alike _ _ := alike_pruned t' hself
  have hpruned : t.pruned (Draft.registry (ClassRuleDraft.start registry module)) =
      t'.pruned (Draft.registry (ClassRuleDraft.start registry module)) := h.pruned_eq
  rw [← hpruned] at halike'
  rw [ClassRuleDraft.finalLabel, ClassRuleDraft.finalLabel, halike.label_eq, halike.pattern_eq,
    halike'.label_eq, halike'.pattern_eq]

/-- A section that fails leaves no trace in the labels of the other method rules exactly if all
rules that are made in it have names, or all that are made after it and are there in the end do. -/
theorem labels_of_omission_iff (registry : Registry) (module : Option ModuleName)
    (t t' : Script ClassRuleCall) (gone later : List Registration)
    (h : Omission registry t gone later t') :
    (made t.run (.start registry module)).rule.methodLabels =
        (made t'.run (.start registry module)).rule.methodLabels ↔
      (∀ r ∈ gone, r.name ≠ none) ∨ ∀ r ∈ later, r.shown = true → r.name ≠ none := by
  have hqualified : Function.Injective
      ((made t'.run (.start registry module)).finalLabel ++ "::" ++ · : String → String) :=
    fun _ _ hsame => (String.append_right_inj _).1 hsame
  rw [methodLabels_made, methodLabels_made, finalLabel_of_omission h,
    hqualified.list_map.eq_iff, h.excised.labels_eq_iff]

/-- A method rule by which the body returns at once. -/
def returning (label : Option String) (rest : Script ClassRuleCall) : Script ClassRuleCall :=
  .call (.inMethods (.call (.register label [.transform (.call (.add (.stub none)) .nothing)])
    .nothing)) rest

/-- A section that fails: it makes a rule without a name, in which an integer is to be replaced by a
text. -/
def mismatching (rest : Script ClassRuleCall) : Script ClassRuleCall :=
  .within .clothCapes
    (fun _ => .call (.inMethods (.call (.register none
      [.transform (.call (.replaceConstant (.int 1) (.string "a")) .nothing)]) .nothing)) .nothing)
    (fun _ => .ok ()) rest

/-- The number that the section uses up is not missed where the other rules after it have names. -/
theorem labels_of_omission_of_named :
    let registry := Registry.initial.setEnabled .clothCapes true
    let t := returning none (mismatching (returning (some "a") .nothing))
    let t' := returning none (returning (some "a") .nothing)
    Omission registry t [⟨none, false⟩] [⟨some "a", true⟩] t' ∧
      (made t.run (.start registry none)).rule.methodLabels =
        (made t'.run (.start registry none)).rule.methodLabels := by
  intro registry t t'
  have h : Omission registry t [⟨none, false⟩] [⟨some "a", true⟩] t' :=
    .afterCall (.here (by decide) (by decide))
  exact ⟨h, (labels_of_omission_iff registry none t t' _ _ h).2 (.inr (by simp))⟩

/-- A rule without a name is called the second one, although it is the only one. -/
theorem labels_of_omission_of_unnamed :
    let registry := Registry.initial.setEnabled .clothCapes true
    let t := Script.call (.setLabel "c") (mismatching (returning none .nothing))
    let t' := Script.call (.setLabel "c") (returning none .nothing)
    Omission registry t [⟨none, false⟩] [⟨none, true⟩] t' ∧
      (made t.run (.start registry none)).rule.methodLabels = ["c::<unnamed 2>"] ∧
      (made t'.run (.start registry none)).rule.methodLabels = ["c::<unnamed 1>"] :=
  ⟨.afterCall (.here (by decide) (by decide)), by decide, by decide⟩

end Script

end ClassEdit
