import ClassEdit.Proofs.Parallel

/-!
# A failing block is alone with its failure

Blocks fail half way through their operations, or at the very end when the edited body turns out
not to be sound, and by then later method rules are already bound. Still a block that fails leaves
no more than a failure and an event: two scans, one with the block and one with an empty block in
its place, are parallel from there on.

Each scan names labels of its own where a fragment leaves several without a place. So what other
blocks report may name other labels in the two scans; if both name the same, nothing differs.

## Main definitions

* `OneMore`: lists that differ by one entry.
* `Scan.DiffersBy`: scans that differ by one failure and one event.
* `Turn.rulesWith`: the rules with another block at a turn.

## Main results

* `Scan.mem_failures_iff`: failures are reported for the turns at which blocks fail.
* `Turn.ofClass_differsBy`: a failing block does what an empty one would do, and fails.
* `Session.scan_of_failing_block`: the same for scans of a session.
* `Session.scan_of_failing_block_names`: other failures may name other labels.
-/

namespace ClassEdit

/-! ### Scans that differ by a failure -/

/-- Two lists of which the first has one entry more, right behind some entries. The others stand in
both lists, and are related. -/
def OneMore {α : Type} (R : α → α → Prop) (before : List α) (a : α) (as bs : List α) : Prop :=
  ∃ later before' later', as = before ++ a :: later ∧ bs = before' ++ later' ∧
    List.Forall₂ R before before' ∧ List.Forall₂ R later later'

theorem OneMore.append {α : Type} {R : α → α → Prop} {before as bs new new' : List α} {a : α}
    (h : OneMore R before a as bs) (hnew : List.Forall₂ R new new') :
    OneMore R before a (as ++ new) (bs ++ new') := by
  obtain ⟨later, before', later', rfl, rfl, hbefore, hlater⟩ := h
  exact ⟨later ++ new, before', later' ++ new', by simp, by simp, hbefore,
    List.rel_append hlater hnew⟩

/-- The entry behind the others is counted in the first list only. -/
theorem OneMore.length_eq {α : Type} {R : α → α → Prop} {before as bs : List α} {a : α}
    (h : OneMore R before a as bs) :
    as.length = bs.length + 1 ∧ before.length ≤ bs.length := by
  obtain ⟨later, before', later', rfl, rfl, hbefore, hlater⟩ := h
  simp only [List.length_append, List.length_cons, hbefore.length_eq, hlater.length_eq]
  omega

theorem Block.run_nil {computeFrames : Bool} {owner : ClassDecl} {m : MethodDecl}
    {registration : String} :
    (⟨[], computeFrames⟩ : Block).run owner m registration = .ok (m, ⟨[], false⟩) := by
  unfold Block.run Block.applyAll
  exact if_neg (by simp)

namespace Scan

/-- The first scan contains a failure and an event that the second one does not, right after the
failures and events of an earlier report, and apart from that the two are the same, up to the labels
that failures name. -/
abbrev DiffersBy (R : Nat → Nat → Prop) (before : Report) (failure : Failure) (event : Event)
    (s quiet : Scan) : Prop :=
  Parallel (OneMore (Failure.Alike R) before.failures failure)
    (OneMore (Event.Alike R) before.journal.events event) s quiet

variable {R : Nat → Nat → Prop} {naming naming' : Naming} {before : Report} {failure : Failure}
variable {event : Event} {s quiet : Scan}

/-- From the additional failure on, the picks of the first scan are one ahead. -/
theorem extends_oneMore
    (hpicks : ∀ n, before.failures.length ≤ n → R (naming (n + 1)) (naming' n)) :
    Extends R naming naming' (OneMore (Failure.Alike R) before.failures failure)
      (OneMore (Event.Alike R) before.journal.events event) where
  picks _ _ h := by
    obtain ⟨hlength, hle⟩ := h.length_eq
    rw [hlength]
    exact hpicks _ hle
  failures _ _ _ _ h hf := h.append (.cons hf .nil)
  events _ _ _ _ h hnew := h.append hnew

/-! ### A failing block and an empty one -/

theorem differsBy_failed (h : Alike R s quiet) (label : String) (m : MethodDecl) (e : EditError) :
    DiffersBy R s.report ⟨label, m.signature, e⟩ (s.failureEvent label m e) (s.failed label m e)
      quiet :=
  { h with
    failures := ⟨[], _, [], rfl, (List.append_nil _).symm, h.failures, .nil⟩
    events := ⟨[], _, [], rfl, (List.append_nil _).symm, h.events, .nil⟩ }

/-- An empty block leaves no trace. -/
theorem applyBlock_nil (s : Scan) (naming : Naming) (label : String) (i : Nat) (m : MethodDecl)
    (computeFrames : Bool) : s.applyBlock naming label i m ⟨[], computeFrames⟩ = s := by
  rw [applyBlock, Block.run_nil]
  simp [Block.events, Journal.append]

/-! ### Failures and turns -/

/-- A failure is reported exactly if the block of a method rule has failed with it at its turn. -/
theorem mem_failures_iff {rules : List ClassRule} {owner : ClassDecl} :
    failure ∈ (ofClass naming rules owner).1.report.failures ↔
      ∃ (t : Turn rules) (i : Nat) (m : MethodDecl) (b : Block) (e : EditError),
        t.Tries naming owner i m b ∧ t.result naming owner m b = .error e ∧
          failure = ⟨t.method.label, m.signature, (t.atMethod naming owner).told naming e⟩ := by
  have hturn := @ofClass_iff_exists_turn naming rules owner (fun s => failure ∈ s.report.failures)
    (fun s label m b => ∃ e, b.run s.owner m label = .error e ∧
      failure = ⟨label, m.signature, s.told naming e⟩)
    (fun _ _ hsame => by rw [hsame.failures_eq])
    (fun _ _ _ _ _ hsame => by simp only [hsame.owner_eq, told, hsame.failures_eq]) ?_
  · refine hturn.trans ((or_iff_right (by simp [Scan.start, Report.start])).trans ?_)
    constructor
    · rintro ⟨t, i, m, b, htries, e, hfails, hfailure⟩
      exact ⟨t, i, m, b, e, htries, hfails, hfailure⟩
    · rintro ⟨t, i, m, b, e, htries, hfails, hfailure⟩
      exact ⟨t, i, m, b, htries, e, hfails, hfailure⟩
  · -- only a failing block adds a failure
    intro s label i m b _
    obtain ⟨e, hrun, heq⟩ | ⟨edited, outcome, hrun, ⟨-, heq⟩ | ⟨-, heq⟩⟩ :=
      s.applyBlock_cases naming label i m b
    · simp [heq, hrun, failed, Report.record]
    · simp [heq, hrun, written]
    · simp [heq, hrun, written, replaced, Report.edited]

end Scan

/-! ### Another block at a turn -/

namespace Turn

variable {rules : List ClassRule}

/-- The rule of the turn, with another block for the method rule. -/
def ruleWith (t : Turn rules) (block : Option Block) : ClassRule :=
  { t.rule with methods := t.earlier ++ { t.method with block } :: t.later }

/-- The rules with another block at the turn. -/
def rulesWith (t : Turn rules) (block : Option Block) : List ClassRule :=
  t.earlierRules ++ t.ruleWith block :: t.laterRules

/-- Methods are bound by their patterns, whatever is done to them. -/
theorem bindings_ruleWith (t : Turn rules) (block : Option Block) (c : ClassDecl) :
    (t.ruleWith block).bindings c = t.rule.bindings c := by
  simp [ClassRule.bindings, ruleWith, t.methods_eq, MethodRule.bind?]

/-- A method rule with a block is no condition, whatever the block is. -/
theorem fires_ruleWith (t : Turn rules) {b : Block} (hblock : t.method.block = some b) (b' : Block)
    (c : ClassDecl) : (t.ruleWith (some b')).fires c = t.rule.fires c := by
  simp [ClassRule.fires, ruleWith, t.methods_eq, hblock]

theorem bound_rule (t : Turn rules) (c : ClassDecl) :
    t.rule.bound c = (t.earlier.map fun m => (m, m.bind? c)) ++
      (t.method, t.method.bind? c) :: t.later.map fun m => (m, m.bind? c) := by
  simp [ClassRule.bound, t.methods_eq]

/-- An audit says nothing about blocks. -/
theorem auditRule_ruleWith (t : Turn rules) (block : Option Block) :
    Session.auditRule (t.ruleWith block) = Session.auditRule t.rule := by
  -- what a line shows of a method rule is its label and its module
  have hlabels : ∀ (r : ClassRule) (count : RuleCount), Session.auditRule r count =
      ⟨r.label, r.module, count.fired⟩ :: ((r.methods.map fun m => (m.label, m.module)).zip
        count.bound).map fun entry => ⟨entry.1.1, entry.1.2.or r.module, entry.2⟩ := by
    intro r count
    simp [Session.auditRule, List.zip_map_left]
  ext1 count
  rw [hlabels, hlabels]
  simp [ruleWith, t.methods_eq]

theorem audit_rulesWith (t : Turn rules) (block : Option Block) (issues : List EditError)
    (journal : Journal) (naming naming' : Nat → Naming) (scanned : Nat) (counts : List RuleCount) :
    Session.audit ⟨⟨t.rulesWith block, issues, journal⟩, naming', scanned, counts⟩ =
      Session.audit ⟨⟨rules, issues, journal⟩, naming, scanned, counts⟩ := by
  have hlines : ∀ (others : List ClassRule) (naming : Nat → Naming),
      Session.audit ⟨⟨others, issues, journal⟩, naming, scanned, counts⟩ =
        ((others.map Session.auditRule).zip counts).flatMap fun entry => entry.1 entry.2 := by
    intro others naming
    simp [Session.audit, List.zip_map_left, List.flatMap_map]
  have hsame : (t.rulesWith block).map Session.auditRule = rules.map Session.auditRule := by
    conv =>
      rhs
      rw [t.rules_eq]
    simp [rulesWith, auditRule_ruleWith]
  rw [hlines, hlines, hsame]

/-- The same turn, with another block. -/
def withBlock (t : Turn rules) (block : Option Block) : Turn (t.rulesWith block) where
  earlierRules := t.earlierRules
  rule := t.ruleWith block
  laterRules := t.laterRules
  rules_eq := rfl
  earlier := t.earlier
  method := { t.method with block }
  later := t.later
  methods_eq := rfl

/-- How a scan goes on to its end from the end of the turn. -/
def resume (t : Turn rules) (naming : Naming) (owner : ClassDecl) (s : Scan) : Scan × List Firing :=
  let c := (t.atRule naming owner).owner
  let rest := s.applyMethods naming (t.later.map fun m => (m, m.bind? c))
  let done := rest.applyRules naming t.laterRules
  (done.1, (Scan.ofClass naming t.earlierRules owner).2 ++
    some ((t.rule.bindings c).map Option.isSome) :: done.2)

variable {naming naming' : Naming}

/-- A scan in which the rule of a turn fires, cut at the end of the turn. -/
theorem ofClass_eq (t : Turn rules) (owner : ClassDecl)
    (hfires : t.rule.fires (t.atRule naming owner).owner = true) :
    Scan.ofClass naming rules owner = t.resume naming owner
      ((t.atMethod naming owner).applyMethod naming t.method
        (t.method.bind? (t.atRule naming owner).owner)) := by
  have hrule : (t.atRule naming owner).applyRule naming t.rule =
      (((t.atMethod naming owner).applyMethod naming t.method
        (t.method.bind? (t.atRule naming owner).owner)).applyMethods naming
          (t.later.map fun m => (m, m.bind? (t.atRule naming owner).owner)),
        some ((t.rule.bindings (t.atRule naming owner).owner).map Option.isSome)) := by
    rw [Scan.applyRule_of_fires hfires, t.bound_rule, Scan.applyMethods_append]
    rfl
  -- the rules before, the rule of the turn with its method rules in two parts, and the rules after
  calc Scan.ofClass naming rules owner
      = (Scan.start owner).applyRules naming (t.earlierRules ++ t.rule :: t.laterRules) := by
        rw [Scan.ofClass, ← t.rules_eq]
    _ = ((((t.atRule naming owner).applyRule naming t.rule).1.applyRules naming t.laterRules).1,
        (Scan.ofClass naming t.earlierRules owner).2 ++
          ((t.atRule naming owner).applyRule naming t.rule).2 ::
            (((t.atRule naming owner).applyRule naming t.rule).1.applyRules naming
              t.laterRules).2) :=
        Prod.ext (by rw [Scan.applyRules_append]; rfl) (by rw [Scan.firings_append]; rfl)
    _ = _ := by
        rw [hrule]
        rfl

/-- An empty block does not fail. -/
theorem definite_rulesWith (t : Turn rules) {computeFrames : Bool}
    (h : ∀ rule ∈ rules, rule.Definite) :
    ∀ rule ∈ t.rulesWith (some ⟨[], computeFrames⟩), rule.Definite := by
  have hrule (rule : ClassRule) (hmem : rule ∈ t.earlierRules ++ t.rule :: t.laterRules) :
      rule.Definite := h rule (t.rules_eq ▸ hmem)
  have hempty : Block.Definite ⟨[], computeFrames⟩ := by
    intro owner m registration e hrun
    rw [Block.run_nil] at hrun
    cases hrun
  have hwith : (t.ruleWith (some ⟨[], computeFrames⟩)).Definite := by
    intro m hm b hb
    rw [ruleWith, List.mem_append, List.mem_cons] at hm
    have hothers (hm : m ∈ t.earlier ∨ m ∈ t.later) : b.Definite :=
      hrule t.rule (by simp) m (t.methods_eq ▸ by simpa using hm.imp_right .inr) b hb
    obtain hm | rfl | hm := hm
    · exact hothers (.inl hm)
    · cases hb
      exact hempty
    · exact hothers (.inr hm)
  intro rule hmem
  rw [rulesWith, List.mem_append, List.mem_cons] at hmem
  obtain hmem | rfl | hmem := hmem
  · exact hrule rule (by simp [hmem])
  · exact hwith
  · exact hrule rule (by simp [hmem])

/-- The scan with another block at a turn is the same up to the turn, and goes on in the same
way. -/
theorem ofClass_rulesWith (t : Turn rules) {owner : ClassDecl} {i : Nat} {m : MethodDecl}
    {b : Block} (htries : t.Tries naming owner i m b) (b' : Block) :
    Scan.ofClass naming (t.rulesWith (some b')) owner = t.resume naming owner
      ((t.atMethod naming owner).applyMethod naming { t.method with block := some b' }
        (some i)) := by
  have hfires := (t.fires_ruleWith htries.block b' (t.atRule naming owner).owner).trans htries.fires
  have hresume : ∀ s, (t.withBlock (some b')).resume naming owner s = t.resume naming owner s := by
    intro s
    have hbindings : ∀ c, (t.withBlock (some b')).rule.bindings c = t.rule.bindings c :=
      t.bindings_ruleWith (some b')
    simp only [resume, hbindings]
    rfl
  have hscan := (t.withBlock (some b')).ofClass_eq owner hfires
  rw [hresume] at hscan
  exact hscan.trans (congrArg (fun binding => t.resume naming owner
    ((t.atMethod naming owner).applyMethod naming { t.method with block := some b' } binding))
      htries.bound)

section Picks

variable {R : Nat → Nat → Prop} (t : Turn rules) (owner : ClassDecl)

/-- When a rule gets its turn, scans are alike. -/
theorem alike_atRule (hpicks : ∀ n, R (naming n) (naming' n)) :
    (t.atRule naming owner).Alike R (t.atRule naming' owner) :=
  (Scan.ofClass_alike hpicks t.earlierRules owner).1

theorem owner_atRule_eq (naming naming' : Naming) :
    (t.atRule naming owner).owner = (t.atRule naming' owner).owner :=
  Scan.owner_ofClass_eq naming naming' t.earlierRules owner

/-- When a method rule gets its turn, they are alike still. -/
theorem alike_atMethod (hpicks : ∀ n, R (naming n) (naming' n)) :
    (t.atMethod naming owner).Alike R (t.atMethod naming' owner) := by
  have hgrow := Scan.extends_forall₂ hpicks
  have hfired := (t.alike_atRule owner hpicks).fired hgrow t.rule
  rw [atMethod, atMethod, ← t.owner_atRule_eq owner naming naming']
  exact hfired.applyMethods hgrow _

/-- A block is taken to the same method, whatever labels failures name. -/
theorem Tries.congr {t : Turn rules} {owner : ClassDecl} {i : Nat} {m : MethodDecl} {b : Block}
    (h : t.Tries naming owner i m b) (naming' : Naming) : t.Tries naming' owner i m b := by
  have hrule := t.owner_atRule_eq owner naming naming'
  have hmethod : (t.atMethod naming owner).owner = (t.atMethod naming' owner).owner :=
    (t.alike_atMethod (R := fun _ _ => True) owner fun _ => trivial).owner_eq
  exact ⟨hrule ▸ h.fires, hrule ▸ h.bound, h.block, hmethod ▸ h.found⟩

/-- Scans that differ by a failure come to ends that differ by it, and tell the same about the
rules. -/
theorem differsBy_resume {before : Report} {failure : Failure} {event : Event} {s quiet : Scan}
    (hsame : ∀ n, R (naming n) (naming' n)) (hnext : ∀ n, R (naming (n + 1)) (naming' n))
    (h : Scan.DiffersBy R before failure event s quiet) :
    Scan.DiffersBy R before failure event (t.resume naming owner s).1
        (t.resume naming' owner quiet).1 ∧
      (t.resume naming owner s).2 = (t.resume naming' owner quiet).2 := by
  have hgrow : Scan.Extends R naming naming'
      (OneMore (Failure.Alike R) before.failures failure)
      (OneMore (Event.Alike R) before.journal.events event) :=
    Scan.extends_oneMore fun n _ => hnext n
  obtain ⟨hrest, hfirings⟩ := (h.applyMethods hgrow _).applyRules hgrow t.laterRules
  have hearlier := (Scan.ofClass_alike hsame t.earlierRules owner).2
  rw [resume, resume, ← t.owner_atRule_eq owner naming naming', hearlier]
  exact ⟨hrest, by rw [hfirings]⟩

/-- A failing block does what an empty one does in its place, and fails. -/
theorem ofClass_differsBy {i : Nat} {m : MethodDecl} {b : Block} {e : EditError}
    (htries : t.Tries naming owner i m b) (hfails : t.result naming owner m b = .error e)
    (computeFrames : Bool) (hsame : ∀ n, R (naming n) (naming' n))
    (hnext : ∀ n, R (naming (n + 1)) (naming' n)) :
    let reached := (t.atMethod naming owner).reached t.method.label m
    let told := reached.told naming e
    let quiet := Scan.ofClass naming' (t.rulesWith (some ⟨[], computeFrames⟩)) owner
    Scan.DiffersBy R reached.report ⟨t.method.label, m.signature, told⟩
        (reached.failureEvent t.method.label m told) (Scan.ofClass naming rules owner).1 quiet.1 ∧
      (Scan.ofClass naming rules owner).2 = quiet.2 := by
  intro reached told quiet
  have hrun : b.run reached.owner m t.method.label = .error e := hfails
  -- the turn with the block, and the same turn with an empty one
  have hloud : Scan.ofClass naming rules owner =
      t.resume naming owner (reached.failed t.method.label m told) := by
    rw [t.ofClass_eq owner htries.fires, htries.bound,
      Scan.applyMethod_of_block htries.found htries.block, Scan.applyBlock_of_error hrun]
  have hquiet : quiet =
      t.resume naming' owner ((t.atMethod naming' owner).reached t.method.label m) := by
    have htries' := htries.congr naming'
    let emptied : MethodRule := { t.method with block := some ⟨[], computeFrames⟩ }
    have hempty : (t.atMethod naming' owner).applyMethod naming' emptied (some i) =
        (t.atMethod naming' owner).reached t.method.label m :=
      (Scan.applyMethod_of_block htries'.found rfl).trans (Scan.applyBlock_nil ..)
    rw [← hempty]
    exact t.ofClass_rulesWith htries' _
  have hreached := (t.alike_atMethod owner hsame).reached (Scan.extends_forall₂ hsame)
    t.method.label m
  rw [hloud, hquiet]
  exact t.differsBy_resume owner hsame hnext (Scan.differsBy_failed hreached _ _ _)

/-- If no block leaves a choice which label is named, scans are the same when a method rule gets its
turn. -/
theorem atMethod_eq_of_definite (h : ∀ rule ∈ rules, rule.Definite) (naming naming' : Naming) :
    t.atMethod naming owner = t.atMethod naming' owner := by
  have hearlier : ∀ rule ∈ t.earlierRules, rule.Definite := by
    intro rule hrule
    exact h rule (t.rules_eq ▸ List.mem_append_left _ hrule)
  have hrule : t.rule.Definite := h t.rule t.rule_mem
  have hsame : t.atRule naming owner = t.atRule naming' owner := by
    rw [atRule, atRule, Scan.ofClass, Scan.applyRules_eq_of_definite hearlier naming naming']
    rfl
  rw [atMethod, atMethod, hsame]
  refine Scan.applyMethods_eq_of_definite hrule (fun entry hentry => ?_) naming naming' _
  obtain ⟨m, hm, rfl⟩ := List.mem_map.1 hentry
  rw [t.methods_eq]
  exact List.mem_append_left _ hm

/-- If no block leaves a choice which label is named, the failure is all that differs. -/
theorem ofClass_differsBy_of_definite {i : Nat} {m : MethodDecl} {b : Block} {e : EditError}
    (h : ∀ rule ∈ rules, rule.Definite) (htries : t.Tries naming owner i m b)
    (hfails : t.result naming owner m b = .error e) (computeFrames : Bool) (naming' : Naming) :
    let reached := (t.atMethod naming owner).reached t.method.label m
    let told := reached.told naming e
    let quiet := Scan.ofClass naming' (t.rulesWith (some ⟨[], computeFrames⟩)) owner
    Scan.DiffersBy (· = ·) reached.report ⟨t.method.label, m.signature, told⟩
      (reached.failureEvent t.method.label m told) (Scan.ofClass naming rules owner).1 quiet.1 := by
  intro reached told quiet
  -- both scans may as well name the first label each time
  let first : Naming := fun _ => 0
  have hblock : b.Definite :=
    h t.rule t.rule_mem t.method t.method_mem b htries.block
  have htold : told = ((t.atMethod first owner).reached t.method.label m).told first e := by
    have hnamed (pick : Nat) : e.named pick = e := (hblock _ _ _ _ hfails).named_eq pick
    show e.named _ = e.named _
    rw [hnamed, hnamed]
  have hquiet : ∀ rule ∈ t.rulesWith (some ⟨[], computeFrames⟩), rule.Definite :=
    t.definite_rulesWith h
  have hresult : t.result first owner m b = .error e := by
    rwa [result, ← t.atMethod_eq_of_definite owner h naming first]
  have hdiffers := (t.ofClass_differsBy (R := (· = ·)) owner (htries.congr first) hresult
    computeFrames (fun n => (rfl : first n = first n)) fun _ => rfl).1
  rw [← htold, ← t.atMethod_eq_of_definite owner h naming first] at hdiffers
  rw [show (Scan.ofClass naming rules owner).1 = (Scan.ofClass first rules owner).1 from
      congrArg Prod.fst (Scan.applyRules_eq_of_definite h naming first (.start owner)),
    show quiet.1 = (Scan.ofClass first _ owner).1 from
      congrArg Prod.fst (Scan.applyRules_eq_of_definite hquiet naming' first (.start owner))]
  exact hdiffers

end Picks

end Turn

/-- A failing block affects nothing but its own record. At its turn it leaves the class as it was,
and besides the match it leaves one event, which tells of the failure. The whole scan comes to the
same end as the one with an empty block in its place: it has this failure and this event more, where
they belong, and otherwise class, report and counts are the same. The labels that other failures
name may be others, unless no block leaves a choice which label is named, or both scans always pick
the same. -/
theorem Session.scan_of_failing_block (session : Session) (quietNaming : Nat → Naming)
    (owner : ClassDecl) (t : Turn session.ruleSet.rules) {i : Nat} {m : MethodDecl} {b : Block}
    {e : EditError} (htries : t.Tries (session.naming session.scanned) owner i m b)
    (hfails : t.result (session.naming session.scanned) owner m b = .error e)
    (computeFrames : Bool) :
    let naming := session.naming session.scanned
    let quiet : Session := { session with
      ruleSet := { session.ruleSet with rules := t.rulesWith (some ⟨[], computeFrames⟩) }
      naming := quietNaming }
    let before := t.atMethod naming owner
    let after := before.applyMethod naming t.method (some i)
    let told := before.told naming e
    let matched := (((Event.ofKind .methodMatched).inClass owner.name).causedBy
      t.method.label).inMethod m.signature
    let failed := ((((Event.ofKind .transformFailed).inClass owner.name).causedBy
      t.method.label).inMethod m.signature).saying told.message
    let failure : Failure := ⟨t.method.label, m.signature, told⟩
    after.owner = before.owner ∧
      after.report.journal.events = before.report.journal.events ++ [matched, failed] ∧
        Scan.DiffersBy (fun _ _ => True) (before.report.record matched) failure failed
          (session.scan owner).1 (quiet.scan owner).1 ∧
          ((∀ rule ∈ session.ruleSet.rules, rule.Definite) ∨
              (∃ pick, naming = (fun _ => pick) ∧ quietNaming session.scanned = fun _ => pick) →
            Scan.DiffersBy (· = ·) (before.report.record matched) failure failed
              (session.scan owner).1 (quiet.scan owner).1) ∧
            (session.scan owner).2.scanned = (quiet.scan owner).2.scanned ∧
              (session.scan owner).2.counts = (quiet.scan owner).2.counts ∧
                (session.scan owner).2.audit = (quiet.scan owner).2.audit := by
  intro naming quiet before after told matched failed failure
  have hname : before.owner.name = owner.name := t.name_atMethod naming owner
  have hmatched : (before.reached t.method.label m).report = before.report.record matched := by
    rw [Scan.reached, Scan.event, hname]
  have hfailed : (before.reached t.method.label m).failureEvent t.method.label m told = failed := by
    rw [Scan.failureEvent, Scan.event, Scan.reached, hname]
  have hloud : after = (before.reached t.method.label m).failed t.method.label m told := by
    have hrun : b.run (before.reached t.method.label m).owner m t.method.label = .error e := hfails
    exact (Scan.applyMethod_of_block htries.found htries.block).trans
      (Scan.applyBlock_of_error hrun naming i)
  have hscans (R : Nat → Nat → Prop) (hsame : ∀ n, R (naming n) (quietNaming session.scanned n))
      (hnext : ∀ n, R (naming (n + 1)) (quietNaming session.scanned n)) :
      Scan.DiffersBy R (before.report.record matched) failure failed (session.scan owner).1
        (quiet.scan owner).1 ∧
          (session.scan owner).2.counts = (quiet.scan owner).2.counts := by
    obtain ⟨hdiffers, hfirings⟩ := t.ofClass_differsBy owner htries hfails computeFrames hsame hnext
    rw [← hmatched, ← hfailed]
    exact ⟨hdiffers, congrArg (session.counts.zipWith RuleCount.add ·) hfirings⟩
  obtain ⟨hdiffers, hcounts⟩ := hscans (fun _ _ => True) (fun _ => trivial) fun _ => trivial
  refine ⟨?_, ?_, hdiffers, ?_, rfl, hcounts, ?_⟩
  · rw [hloud]
    rfl
  · rw [hloud, Scan.failed, hfailed, hmatched]
    simp [Report.record]
  · rintro (hdefinite | ⟨pick, hnaming, hquiet⟩)
    · rw [← hmatched, ← hfailed]
      exact t.ofClass_differsBy_of_definite owner hdefinite htries hfails computeFrames _
    have hpicks (n n' : Nat) : naming n = quietNaming session.scanned n' := by rw [hnaming, hquiet]
    exact (hscans (· = ·) (fun n => hpicks n n) fun n => hpicks (n + 1) n).1
  · exact (congrArg (fun counts => Session.audit ⟨session.ruleSet, session.naming,
      session.scanned + 1, counts⟩) hcounts).trans (t.audit_rulesWith _ _ _ _ _ _ _).symm

/-- A block that exchanges a text and then overwrites the body with an unsound one, which is found
out at the end only, before another block that edits the same method. -/
theorem Session.scan_of_unsound_body :
    let m : MethodDecl := ⟨"f", "()I", ⟨8⟩, [], .int, [.ldc (.string "x"), .simple Opcode.pop,
      .simple Opcode.iconst0, .simple Opcode.ireturn], [], 1, 0⟩
    let owner : ClassDecl := ⟨"a", none, [], .none, [], [m], []⟩
    let unsound : Block := .ofOperations
      [.replaceString "x" "y", .overwrite (.ofCode [.simple Opcode.ireturn])]
    let first : MethodRule := ⟨"m", .empty, some unsound, none⟩
    let second : MethodRule := ⟨"n", .empty, some (.ofOperations [.replaceString "x" "z"]), none⟩
    let rule : ClassRule := ⟨"a", .empty, [first, second], none⟩
    let session : Session := .start ⟨[rule], [], .empty⟩ fun _ _ => 0
    let t : Turn session.ruleSet.rules := ⟨[], rule, [], rfl, [], first, [second], rfl⟩
    let e : EditError := .imbalance "f()I" (.underflow (.simple Opcode.ireturn) 0 1 0)
    let quiet : Session := { session with
      ruleSet := { session.ruleSet with rules := t.rulesWith (some ⟨[], true⟩) }
      naming := fun _ _ => 1 }
    t.Tries (fun _ => 0) owner 0 m unsound ∧ t.result (fun _ => 0) owner m unsound = .error e ∧
      (quiet.scan owner).1.report.transformed = ["f()I"] ∧
        Scan.DiffersBy (fun _ _ => True) ((t.atMethod (fun _ => 0) owner).report.record
            (((Event.ofKind .methodMatched |>.inClass "a").causedBy "m").inMethod "f()I"))
          ⟨"m", "f()I", e⟩
          ((((Event.ofKind .transformFailed |>.inClass "a").causedBy "m").inMethod "f()I").saying
            e.message) (session.scan owner).1 (quiet.scan owner).1 ∧
          (session.scan owner).2.counts = (quiet.scan owner).2.counts := by
  intro m owner unsound first second rule session t e quiet
  let replaced : MethodDecl := { m with code := [.ldc (.string "z"), .simple Opcode.pop,
    .simple Opcode.iconst0, .simple Opcode.ireturn] }
  let overwritten : MethodDecl := { m with code := [.simple Opcode.ireturn] }
  have hr : m.heights = .ok ⟨1, [some 0, some 1, some 0, some 1]⟩ :=
    m.heights_of_runWithin 5 rfl (by decide +kernel)
  have hreplaced : replaced.heights = .ok ⟨1, [some 0, some 1, some 0, some 1]⟩ :=
    replaced.heights_of_runWithin 5 rfl (by decide +kernel)
  have hoverwritten : overwritten.heights = .error e :=
    overwritten.heights_of_runWithin 1 rfl (by decide +kernel)
  have htries : t.Tries (fun _ => 0) owner 0 m unsound := ⟨by decide, by decide, rfl, rfl⟩
  have hfails : t.result (fun _ => 0) owner m unsound = .error e :=
    Block.run_of_refused rfl (by decide : overwritten ≠ m) hr hoverwritten
  obtain ⟨-, -, hdiffers, -, -, hcounts, -⟩ :=
    session.scan_of_failing_block (fun _ _ => 1) owner t htries hfails true
  -- in the quiet scan the second block finds the method as it was
  let last : Turn quiet.ruleSet.rules := ⟨[], _, [], rfl, [_], second, [], rfl⟩
  let reached : Scan := (last.atMethod (fun _ => 1) owner).reached "n" m
  have hrun : (Block.ofOperations [.replaceString "x" "z"]).run reached.owner m "n" = .ok (_, _) :=
    Block.run_of_heights rfl (by decide : replaced ≠ m) hr hreplaced
  have htransformed : (quiet.scan owner).1.report.transformed = ["f()I"] := by
    have hscan : (quiet.scan owner).1 = reached.applyBlock (fun _ => 1) "n" 0 m
        (.ofOperations [.replaceString "x" "z"]) := rfl
    rw [hscan, Scan.applyBlock, hrun]
    rfl
  exact ⟨htries, hfails, htransformed, hdiffers, hcounts⟩

/-- A block that fails, and behind it one with a fragment that leaves two labels without a place.
The failure of the second one names one of them in one scan and the other one in the other scan. -/
theorem Session.scan_of_failing_block_names :
    let m : MethodDecl := ⟨"f", "()I", ⟨8⟩, [], .int, [.simple Opcode.iconst0,
      .simple Opcode.ireturn], [], 1, 0⟩
    let owner : ClassDecl := ⟨"a", none, [], .none, [], [m], []⟩
    let mismatched : Block := .ofOperations [.replaceConstant (.int 1) (.string "x")]
    let unplaced : Block := .ofOperations [.overwrite (.assembled fun _ => do
      let first ← Assembler.newLabel
      let second ← Assembler.newLabel
      Assembler.simple Opcode.iconst0
      Assembler.jump Opcode.ifeq first
      Assembler.simple Opcode.iconst0
      Assembler.jump Opcode.ifeq second)]
    let first : MethodRule := ⟨"m", .empty, some mismatched, none⟩
    let second : MethodRule := ⟨"n", .empty, some unplaced, none⟩
    let rule : ClassRule := ⟨"a", .empty, [first, second], none⟩
    let session : Session := .start ⟨[rule], [], .empty⟩ fun _ _ => 0
    let t : Turn session.ruleSet.rules := ⟨[], rule, [], rfl, [], first, [second], rfl⟩
    let e : EditError := .kindMismatch .int .string
    let quiet : Session := { session with
      ruleSet := { session.ruleSet with rules := t.rulesWith (some ⟨[], true⟩) }
      naming := fun _ _ => 1 }
    t.Tries (fun _ => 0) owner 0 m mismatched ∧
      t.result (fun _ => 0) owner m mismatched = .error e ∧
      (session.scan owner).1.report.failures = [⟨"m", "f()I", e⟩,
        ⟨"n", "f()I", .malformed (.neverPlaced ⟨0⟩ [])⟩] ∧
        (quiet.scan owner).1.report.failures =
          [⟨"n", "f()I", .malformed (.neverPlaced ⟨1⟩ [])⟩] := by
  intro m owner mismatched unplaced first second rule session t e quiet
  exact ⟨⟨by decide, by decide, rfl, rfl⟩, rfl, by decide +kernel, by decide +kernel⟩

end ClassEdit
