import ClassEdit.Proofs.Edit
import ClassEdit.Scan.Session

/-!
# The turns of a scan

A scan takes the rules one after the other to the class, and a rule that fires takes its method
rules one after the other to the methods that they were bound to. So each method rule has one turn,
at which it finds the class as the turns before have left it. Only what blocks do at their turns
matters for the class and for most of the report; the rest of a scan writes down matches.

## Main definitions

* `Scan.failed`, `Scan.written`, `Scan.replaced`: what a block may do to a scan.
* `Scan.SameWork`: scans that differ at most in what is written down about matches.
* `Turn`: the turn of a method rule, `Turn.Tries` for a turn at which a block is run.

## Main results

* `Scan.applyMethod_cases`, `Scan.applyBlock_cases`: all that a method rule and a block can do.
* `Scan.owner_applyMethod_of_block`: what a method rule does to the class.
* `Scan.applyRules_induction`: what blocks keep is kept by all rules.
* `Scan.ofClass_iff_exists_turn`: what blocks bring about has come about at some turn.
-/

namespace ClassEdit

/-! ### Lists of steps -/

/-- What single steps bring about has been brought about by a run exactly if it was there before, or
one of the steps has done it. -/
theorem foldl_iff_exists_split {σ α : Type} {f : σ → α → σ} {P : σ → Prop} {Q : σ → α → Prop}
    (hstep : ∀ s a, P (f s a) ↔ P s ∨ Q s a) (s : σ) (as : List α) :
    P (as.foldl f s) ↔
      P s ∨ ∃ earlier a later, as = earlier ++ a :: later ∧ Q (earlier.foldl f s) a := by
  induction as generalizing s with
  | nil => simp
  | cons first rest ih =>
    rw [List.foldl_cons, ih, hstep, or_assoc]
    refine or_congr_right ⟨?_, ?_⟩
    · rintro (hfirst | ⟨earlier, a, later, rfl, ha⟩)
      · exact ⟨[], first, rest, rfl, hfirst⟩
      · exact ⟨first :: earlier, a, later, rfl, ha⟩
    · rintro ⟨earlier, a, later, has, ha⟩
      cases earlier with
      | nil =>
        cases has
        exact .inl ha
      | cons b earlier =>
        cases has
        exact .inr ⟨earlier, a, later, rfl, ha⟩

/-! ### Rules one after the other -/

/-- The method rules of a rule with what they are bound to in a class. -/
def ClassRule.bound (r : ClassRule) (c : ClassDecl) : List (MethodRule × Option Nat) :=
  r.methods.map fun m => (m, m.bind? c)

theorem ClassRule.zip_bindings (r : ClassRule) (c : ClassDecl) :
    r.methods.zip (r.bindings c) = r.bound c := by
  calc r.methods.zip (r.bindings c)
      = (r.methods.map id).zip (r.methods.map fun m => m.bind? c) := by rw [List.map_id, bindings]
    _ = r.bound c := List.zip_map'

namespace Scan

variable {s s' : Scan} {naming : Naming} {rule : ClassRule}

/-- The scan when a rule has just fired. -/
def fired (s : Scan) (rule : ClassRule) : Scan :=
  let report := s.report.record (s.event .classMatched rule.label)
  { s with report := { report with matched := report.matched ++ [rule.label] } }

/-- The scan when a method rule has just been taken to a method. -/
def reached (s : Scan) (label : String) (m : MethodDecl) : Scan :=
  { s with report := s.report.record ((s.event .methodMatched label).inMethod m.signature) }

theorem applyRule_of_fires (h : rule.fires s.owner = true) :
    s.applyRule naming rule = ((s.fired rule).applyMethods naming (rule.bound s.owner),
      some ((rule.bindings s.owner).map Option.isSome)) := by
  rw [applyRule, if_pos h, ← ClassRule.zip_bindings]
  rfl

theorem applyRule_of_not_fires (h : rule.fires s.owner = false) :
    s.applyRule naming rule = (s, none) := by
  rw [applyRule, h]
  rfl

theorem applyMethods_eq_foldl (s : Scan) (naming : Naming)
    (bound : List (MethodRule × Option Nat)) :
    s.applyMethods naming bound =
      bound.foldl (fun s entry => s.applyMethod naming entry.1 entry.2) s := by
  induction bound generalizing s with
  | nil => rfl
  | cons entry bound ih => exact ih _

theorem applyMethods_append (s : Scan) (naming : Naming)
    (bound others : List (MethodRule × Option Nat)) :
    s.applyMethods naming (bound ++ others) =
      (s.applyMethods naming bound).applyMethods naming others := by
  simp only [applyMethods_eq_foldl, List.foldl_append]

theorem applyRules_cons {rules : List ClassRule} :
    (s.applyRules naming (rule :: rules)).1 =
      ((s.applyRule naming rule).1.applyRules naming rules).1 := rfl

theorem firings_cons {rules : List ClassRule} :
    (s.applyRules naming (rule :: rules)).2 =
      (s.applyRule naming rule).2 :: ((s.applyRule naming rule).1.applyRules naming rules).2 := rfl

theorem applyRules_eq_foldl (s : Scan) (naming : Naming) (rules : List ClassRule) :
    (s.applyRules naming rules).1 = rules.foldl (fun s rule => (s.applyRule naming rule).1) s := by
  induction rules generalizing s with
  | nil => rfl
  | cons rule rules ih => exact ih _

theorem applyRules_append (s : Scan) (naming : Naming) (rules others : List ClassRule) :
    (s.applyRules naming (rules ++ others)).1 =
      ((s.applyRules naming rules).1.applyRules naming others).1 := by
  simp only [applyRules_eq_foldl, List.foldl_append]

theorem firings_append (s : Scan) (naming : Naming) (rules others : List ClassRule) :
    (s.applyRules naming (rules ++ others)).2 =
      (s.applyRules naming rules).2 ++
        ((s.applyRules naming rules).1.applyRules naming others).2 := by
  induction rules generalizing s with
  | nil => rfl
  | cons rule rules ih =>
    rw [List.cons_append, firings_cons, ih, firings_cons, applyRules_cons, List.cons_append]

/-- A method rule is taken to the method it is bound to, if there is one. -/
theorem applyMethod_cases (s : Scan) (naming : Naming) (rule : MethodRule) (binding : Option Nat) :
    s.applyMethod naming rule binding =
          { s with report := s.report.record (s.event .registrationUnmatched rule.label) } ∧
        (∀ i m, binding = some i → s.owner.methods[i]? ≠ some m) ∨
      ∃ i m, binding = some i ∧ s.owner.methods[i]? = some m ∧
        (rule.block = none ∧ s.applyMethod naming rule binding = s.reached rule.label m ∨
          ∃ b, rule.block = some b ∧
            s.applyMethod naming rule binding =
              (s.reached rule.label m).applyBlock naming rule.label i m b) := by
  unfold applyMethod
  cases binding with
  | none => exact .inl ⟨rfl, nofun⟩
  | some i =>
    cases hm : s.owner.methods[i]? with
    | none =>
      -- the place is outside of the class, which counts as no match
      left
      refine ⟨by simp [hm], ?_⟩
      rintro i' m hi
      cases hi
      simp [hm]
    | some m =>
      refine .inr ⟨i, m, rfl, hm, ?_⟩
      cases hblock : rule.block with
      | none => exact .inl ⟨rfl, by simp [hm, reached]⟩
      | some b => exact .inr ⟨b, rfl, by simp [hm, reached]⟩

theorem applyMethod_of_block {rule : MethodRule} {i : Nat} {m : MethodDecl} {b : Block}
    (hm : s.owner.methods[i]? = some m) (hblock : rule.block = some b) :
    s.applyMethod naming rule (some i) =
      (s.reached rule.label m).applyBlock naming rule.label i m b := by
  simp [applyMethod, reached, hm, hblock]

/-! ### What blocks do -/

/-- What is written down of a refusal: if several labels may be named, the naming tells which. -/
def told (s : Scan) (naming : Naming) (refusal : EditError) : EditError :=
  refusal.named (naming s.report.failures.length)

/-- What is written down when a block fails. -/
def failureEvent (s : Scan) (label : String) (m : MethodDecl) (e : EditError) : Event :=
  ((s.event .transformFailed label).inMethod m.signature).saying e.message

/-- The scan when a block has just failed. -/
def failed (s : Scan) (label : String) (m : MethodDecl) (e : EditError) : Scan :=
  let report := s.report.record (s.failureEvent label m e)
  { s with report := { report with failures := report.failures ++ [⟨label, m.signature, e⟩] } }

/-- The scan when it has just been written down what the operations of a block did. -/
def written (s : Scan) (label : String) (m : MethodDecl) (b : Block) (outcome : Outcome) : Scan :=
  let journal := s.report.journal.append ⟨b.events s.owner m label outcome⟩
  { s with report := { s.report with journal } }

/-- The scan when what a block has made of a method has just taken its place. -/
def replaced (s : Scan) (i : Nat) (m edited : MethodDecl) (b : Block) : Scan :=
  ⟨s.owner.setMethod i edited, s.report.edited m.signature b.computeFrames⟩

theorem applyBlock_of_error {label : String} {m : MethodDecl} {b : Block} {e : EditError}
    (h : b.run s.owner m label = .error e) (naming : Naming) (i : Nat) :
    s.applyBlock naming label i m b = s.failed label m (s.told naming e) := by
  rw [applyBlock, h]
  rfl

/-- A block fails, or it is committed without a change, or what it has made of the method takes the
place of the method. -/
theorem applyBlock_cases (s : Scan) (naming : Naming) (label : String) (i : Nat) (m : MethodDecl)
    (b : Block) :
    (∃ e, b.run s.owner m label = .error e ∧
        s.applyBlock naming label i m b = s.failed label m (s.told naming e)) ∨
      ∃ edited outcome, b.run s.owner m label = .ok (edited, outcome) ∧
        (edited = m ∧ s.applyBlock naming label i m b = s.written label m b outcome ∨
          edited ≠ m ∧
            s.applyBlock naming label i m b =
              (s.written label m b outcome).replaced i m edited b) := by
  cases hrun : b.run s.owner m label with
  | error e => exact .inl ⟨e, rfl, applyBlock_of_error hrun naming i⟩
  | ok result =>
    obtain ⟨edited, outcome⟩ := result
    have hchanged := Block.changed_iff hrun
    refine .inr ⟨edited, outcome, rfl, ?_⟩
    rw [applyBlock, hrun]
    cases houtcome : outcome.changed with
    | false => exact .inl ⟨by simpa [houtcome] using hchanged, by simp [houtcome, written]⟩
    | true => exact .inr ⟨hchanged.1 houtcome, by simp [houtcome, written, replaced]⟩

/-! ### What blocks keep -/

/-- Two scans that differ at most in what is written down about matches. -/
structure SameWork (s s' : Scan) : Prop where
  owner_eq : s'.owner = s.owner
  className_eq : s'.report.className = s.report.className
  transformed_eq : s'.report.transformed = s.report.transformed
  failures_eq : s'.report.failures = s.report.failures
  computeFrames_eq : s'.report.computeFrames = s.report.computeFrames

theorem sameWork_fired (s : Scan) (rule : ClassRule) : s.SameWork (s.fired rule) :=
  ⟨rfl, rfl, rfl, rfl, rfl⟩

theorem sameWork_record (s : Scan) (e : Event) :
    s.SameWork { s with report := s.report.record e } :=
  ⟨rfl, rfl, rfl, rfl, rfl⟩

theorem sameWork_reached (s : Scan) (label : String) (m : MethodDecl) :
    s.SameWork (s.reached label m) := s.sameWork_record _

section Induction

variable {P : Scan → Prop} (hsame : ∀ s s', SameWork s s' → P s → P s')
  (hblock : ∀ (s : Scan) label i m b, s.owner.methods[i]? = some m → P s →
    P (s.applyBlock naming label i m b))

include hsame hblock

/-- Whatever does not depend on the matches written down, and is kept by every block, is kept by all
method rules of a rule together. -/
theorem applyMethods_induction (bound : List (MethodRule × Option Nat)) (h : P s) :
    P (s.applyMethods naming bound) := by
  have hmethod : ∀ (s : Scan) rule binding, P s → P (s.applyMethod naming rule binding) := by
    intro s rule binding hs
    obtain ⟨heq, -⟩ | ⟨i, m, -, hm, ⟨-, heq⟩ | ⟨b, -, heq⟩⟩ :=
      s.applyMethod_cases naming rule binding
    · exact heq ▸ hsame s _ (s.sameWork_record _) hs
    · exact heq ▸ hsame s _ (s.sameWork_reached _ _) hs
    · exact heq ▸ hblock _ _ _ _ _ hm (hsame s _ (s.sameWork_reached _ _) hs)
  induction bound generalizing s with
  | nil => exact h
  | cons entry bound ih => exact ih (hmethod s entry.1 entry.2 h)

/-- The same for all rules together. -/
theorem applyRules_induction (rules : List ClassRule) (h : P s) :
    P (s.applyRules naming rules).1 := by
  induction rules generalizing s with
  | nil => exact h
  | cons rule rules ih =>
    have hrule : P (s.applyRule naming rule).1 := by
      cases hfires : rule.fires s.owner with
      | false => rwa [applyRule_of_not_fires hfires]
      | true =>
        rw [applyRule_of_fires hfires]
        exact applyMethods_induction hsame hblock _ (hsame s _ (s.sameWork_fired rule) h)
    exact ih hrule

end Induction

theorem name_applyBlock (s : Scan) (naming : Naming) (label : String) (i : Nat) (m : MethodDecl)
    (b : Block) : (s.applyBlock naming label i m b).owner.name = s.owner.name := by
  obtain ⟨e, -, heq⟩ | ⟨edited, outcome, -, ⟨-, heq⟩ | ⟨-, heq⟩⟩ :=
    s.applyBlock_cases naming label i m b
  all_goals
    rw [heq]
    rfl

/-- A block changes nothing in the class but the method. -/
theorem owner_applyBlock {i : Nat} {m : MethodDecl} (hm : s.owner.methods[i]? = some m)
    (naming : Naming) (label : String) (b : Block) : (s.applyBlock naming label i m b).owner =
      s.owner.setMethod i (Block.after m (b.run s.owner m label)) := by
  have hself : s.owner.setMethod i m = s.owner := by
    obtain ⟨hi, rfl⟩ := List.getElem?_eq_some_iff.1 hm
    rw [ClassDecl.setMethod, List.set_getElem_self]
  obtain ⟨e, hrun, heq⟩ | ⟨edited, outcome, hrun, ⟨rfl, heq⟩ | ⟨hother, heq⟩⟩ :=
    s.applyBlock_cases naming label i m b
  · rw [heq, hrun]
    exact hself.symm
  · rw [heq, hrun, Block.after, ite_self]
    exact hself.symm
  · rw [heq, hrun, Block.after, if_pos ((Block.changed_iff hrun).2 hother)]
    rfl

/-- A method rule that is bound to a place without a method leaves the class alone. -/
theorem owner_applyMethod_of_outside {i : Nat} (hnone : s.owner.methods[i]? = none)
    (rule : MethodRule) : (s.applyMethod naming rule (some i)).owner = s.owner := by
  obtain ⟨heq, -⟩ | ⟨_, m, ⟨⟩, hm, -⟩ := s.applyMethod_cases naming rule (some i)
  · rw [heq]
  · rw [hnone] at hm
    cases hm

/-- A condition leaves the class alone. -/
theorem owner_applyMethod_of_condition {rule : MethodRule}
    (hblock : rule.block = none) (binding : Option Nat) :
    (s.applyMethod naming rule binding).owner = s.owner := by
  obtain ⟨heq, -⟩ | ⟨i, m, -, -, ⟨-, heq⟩ | ⟨b, hb, -⟩⟩ := s.applyMethod_cases naming rule binding
  · rw [heq]
  · rw [heq]
    rfl
  · rw [hblock] at hb
    cases hb

/-- A method rule with a block edits the method in the place that it is bound to, as it stands at
its turn. -/
theorem owner_applyMethod_of_block {rule : MethodRule} {i : Nat} {m : MethodDecl} {b : Block}
    (hm : s.owner.methods[i]? = some m) (hblock : rule.block = some b) :
    (s.applyMethod naming rule (some i)).owner =
      s.owner.setMethod i (Block.after m (b.run s.owner m rule.label)) := by
  rw [applyMethod_of_block hm hblock, owner_applyBlock (s := s.reached rule.label m) hm]
  rfl

/-- Scans do not rename classes. -/
theorem name_applyMethods (s : Scan) (naming : Naming) (bound : List (MethodRule × Option Nat)) :
    (s.applyMethods naming bound).owner.name = s.owner.name :=
  applyMethods_induction (P := fun s' => s'.owner.name = s.owner.name)
    (fun _ _ hsame hs => by rw [hsame.owner_eq, hs])
    (fun _ _ _ _ _ _ hs => (name_applyBlock ..).trans hs) bound rfl

theorem name_applyRules (s : Scan) (naming : Naming) (rules : List ClassRule) :
    (s.applyRules naming rules).1.owner.name = s.owner.name :=
  applyRules_induction (P := fun s' => s'.owner.name = s.owner.name)
    (fun _ _ hsame hs => by rw [hsame.owner_eq, hs])
    (fun _ _ _ _ _ _ hs => (name_applyBlock ..).trans hs) rules rfl

theorem name_applyRule (s : Scan) (naming : Naming) (rule : ClassRule) :
    (s.applyRule naming rule).1.owner.name = s.owner.name := s.name_applyRules naming [rule]

end Scan

/-! ### Turns -/

/-- The turn of a method rule: its rule among the rules, and its place in the rule. -/
structure Turn (rules : List ClassRule) where
  earlierRules : List ClassRule
  rule : ClassRule
  laterRules : List ClassRule
  rules_eq : rules = earlierRules ++ rule :: laterRules
  earlier : List MethodRule
  method : MethodRule
  later : List MethodRule
  methods_eq : rule.methods = earlier ++ method :: later

namespace Turn

variable {rules : List ClassRule}

theorem rule_mem (t : Turn rules) : t.rule ∈ rules := by
  obtain ⟨earlierRules, rule, laterRules, rfl, -⟩ := t
  simp

theorem method_mem (t : Turn rules) : t.method ∈ t.rule.methods := by
  rw [t.methods_eq]
  simp

/-- The scan of a class when the rule gets its turn. -/
def atRule (t : Turn rules) (naming : Naming) (owner : ClassDecl) : Scan :=
  (Scan.ofClass naming t.earlierRules owner).1

/-- The scan of a class when the method rule gets its turn, if the rule fires. -/
def atMethod (t : Turn rules) (naming : Naming) (owner : ClassDecl) : Scan :=
  ((t.atRule naming owner).fired t.rule).applyMethods naming
    (t.earlier.map fun m => (m, m.bind? (t.atRule naming owner).owner))

theorem name_atMethod (t : Turn rules) (naming : Naming) (owner : ClassDecl) :
    (t.atMethod naming owner).owner.name = owner.name := by
  rw [atMethod, Scan.name_applyMethods]
  exact Scan.name_applyRules _ _ _

/-- In the scan of a class, the turn takes a block to a method, which the turns before may have
edited. -/
structure Tries (t : Turn rules) (naming : Naming) (owner : ClassDecl) (i : Nat) (m : MethodDecl)
    (b : Block) : Prop where
  fires : t.rule.fires (t.atRule naming owner).owner = true
  bound : t.method.bind? (t.atRule naming owner).owner = some i
  block : t.method.block = some b
  found : (t.atMethod naming owner).owner.methods[i]? = some m

/-- The outcome of running a block at its turn. -/
def result (t : Turn rules) (naming : Naming) (owner : ClassDecl) (m : MethodDecl) (b : Block) :
    Except EditError (MethodDecl × Outcome) :=
  b.run (t.atMethod naming owner).owner m t.method.label

end Turn

namespace Scan

variable {s : Scan} {naming : Naming} {rules : List ClassRule} {owner : ClassDecl}

/-- What does not depend on the matches written down, and is brought about by blocks alone, has come
about in the scan of a class exactly if some block has done it at its turn. -/
theorem ofClass_iff_exists_turn {P : Scan → Prop}
    {Q : Scan → String → MethodDecl → Block → Prop}
    (hsame : ∀ s s', SameWork s s' → (P s' ↔ P s))
    (hwork : ∀ s s' label m b, SameWork s s' → (Q s' label m b ↔ Q s label m b))
    (hblock : ∀ (s : Scan) label i m b, s.owner.methods[i]? = some m →
      (P (s.applyBlock naming label i m b) ↔ P s ∨ Q s label m b)) :
    P (ofClass naming rules owner).1 ↔ P (start owner) ∨ ∃ (t : Turn rules) (i : Nat)
      (m : MethodDecl) (b : Block), t.Tries naming owner i m b ∧
        Q (t.atMethod naming owner) t.method.label m b := by
  -- what one method rule does, and from it what the method rules of one rule do
  have hmethod : ∀ (s : Scan) (entry : MethodRule × Option Nat),
      P (s.applyMethod naming entry.1 entry.2) ↔ P s ∨ ∃ i m b, entry.2 = some i ∧
        entry.1.block = some b ∧ s.owner.methods[i]? = some m ∧ Q s entry.1.label m b := by
    rintro s ⟨rule, binding⟩
    obtain ⟨heq, hnone⟩ | ⟨i, m, hbinding, hm, ⟨hnone, heq⟩ | ⟨b, hb, heq⟩⟩ :=
      s.applyMethod_cases naming rule binding
    · rw [heq, hsame s _ (s.sameWork_record _)]
      refine (or_iff_left ?_).symm
      rintro ⟨i, m, b, hi, -, hm, -⟩
      exact hnone i m hi hm
    · rw [heq, hsame s _ (s.sameWork_reached _ _)]
      refine (or_iff_left ?_).symm
      rintro ⟨_, _, b, -, hb, -, -⟩
      simp [hnone] at hb
    · have hm' : (s.reached rule.label m).owner.methods[i]? = some m := hm
      rw [heq, hblock _ _ _ _ _ hm', hsame s _ (s.sameWork_reached _ _),
        hwork s _ _ _ _ (s.sameWork_reached _ _)]
      simp [hbinding, hb, hm]
  have hrule : ∀ (s : Scan) (rule : ClassRule),
      P (s.applyRule naming rule).1 ↔ P s ∨ rule.fires s.owner = true ∧ ∃ earlier method later,
        rule.methods = earlier ++ method :: later ∧ ∃ i m b,
          method.bind? s.owner = some i ∧ method.block = some b ∧
            ((s.fired rule).applyMethods naming
              (earlier.map fun m => (m, m.bind? s.owner))).owner.methods[i]? = some m ∧
              Q ((s.fired rule).applyMethods naming
                (earlier.map fun m => (m, m.bind? s.owner))) method.label m b := by
    intro s rule
    cases hfires : rule.fires s.owner with
    | false => simp [applyRule_of_not_fires hfires]
    | true =>
      rw [applyRule_of_fires hfires, applyMethods_eq_foldl, foldl_iff_exists_split hmethod,
        hsame s _ (s.sameWork_fired rule)]
      simp only [← applyMethods_eq_foldl, true_and]
      refine or_congr_right ⟨?_, ?_⟩
      · rintro ⟨earlier, entry, later, hbound, i, m, b, hi, hb, hm, hdone⟩
        obtain ⟨before, after, hmethods, rfl, hafter⟩ := List.map_eq_append_iff.1 hbound
        obtain ⟨method, rest, rfl, rfl, -⟩ := List.map_eq_cons_iff.1 hafter
        exact ⟨before, method, rest, hmethods, i, m, b, hi, hb, hm, hdone⟩
      · rintro ⟨earlier, method, later, hmethods, i, m, b, hi, hb, hm, hdone⟩
        refine ⟨_, (method, method.bind? s.owner), later.map fun m => (m, m.bind? s.owner), ?_, i,
          m, b, hi, hb, hm, hdone⟩
        rw [ClassRule.bound, hmethods, List.map_append, List.map_cons]
  rw [ofClass, applyRules_eq_foldl, foldl_iff_exists_split hrule]
  simp only [← applyRules_eq_foldl]
  refine or_congr_right ⟨?_, ?_⟩
  · rintro ⟨earlierRules, rule, laterRules, hrules, hfires, earlier, method, later, hmethods, i, m,
      b, hbound, hblock, hfound, hdone⟩
    exact ⟨⟨earlierRules, rule, laterRules, hrules, earlier, method, later, hmethods⟩, i, m, b,
      ⟨hfires, hbound, hblock, hfound⟩, hdone⟩
  · rintro ⟨t, i, m, b, htries, hdone⟩
    exact ⟨t.earlierRules, t.rule, t.laterRules, t.rules_eq, htries.fires, t.earlier, t.method,
      t.later, t.methods_eq, i, m, b, htries.bound, htries.block, htries.found, hdone⟩

end Scan

end ClassEdit
