import ClassEdit.Proofs.Batch
import ClassEdit.Proofs.Journal

/-!
# What an audit says

An audit has a line for each rule and for each method rule, and its counts are those of the classes
that were scanned: on so many of them the rule has fired, and on so many the method rule was bound.
It says the same whatever the order of the scans was, and also when they were made at the same time.
The reports are the same, too, but for one thing: where a fragment leaves several labels without a
place, it is open which of them a failure names.

Labels need not be different. So a line can not be found by its label, but all lines of method rules
with one label together count the events in which a method rule of this label was bound.

## Main definitions

* `ClassRule.methodsInTurn`: the method rules of a scan.
* `Session.methodLines`: the lines of an audit about them.

## Main results

* `Session.audit_ofScans`: the lines of an audit.
* `Session.sum_methodLines`: the events that the lines with one label count.
* `Session.audit_exact`: scans and audits in any order.
* `Session.audit_exact_names`: two scans of a class may name different labels.
-/

namespace ClassEdit

/-! ### Counting twice -/

/-- Pairs may be counted from either side. -/
theorem sum_countP_comm {α β : Type} (r : α → β → Bool) (as : List α) (bs : List β) :
    (as.map fun a => bs.countP (r a)).sum = (bs.map fun b => as.countP fun a => r a b).sum := by
  -- the entries of both lists are taken away one by one
  induction as with
  | nil => simp
  | cons a as ih =>
    rw [List.map_cons, List.sum_cons, ih]
    clear ih
    induction bs with
    | nil => rfl
    | cons b bs ih =>
      simp only [List.countP_cons, List.map_cons, List.sum_cons] at ih ⊢
      omega

namespace ClassRule

/-- The method rules of a scan, each with its rule and the rules before that one. -/
def methodsInTurn (rules : List ClassRule) : List (RuleTurn × MethodRule) :=
  (inTurn [] rules).flatMap fun turn => turn.2.methods.map fun m => (turn, m)

end ClassRule

/-! ### Lines of an audit -/

namespace AuditLine

/-- The line of a rule, when some classes are scanned. -/
def ofRule (owners : List ClassDecl) (turn : RuleTurn) : AuditLine :=
  ⟨turn.2.label, turn.2.module, owners.countP fun owner => turn.2.firesAfter turn.1 owner⟩

/-- The line of a method rule, when some classes are scanned. -/
def ofMethod (owners : List ClassDecl) (turn : RuleTurn) (m : MethodRule) : AuditLine :=
  ⟨m.label, m.module.or turn.2.module, owners.countP fun owner => turn.2.bindsAfter turn.1 m owner⟩

end AuditLine

namespace Session

variable {ruleSet : RuleSet} {namings : Nat → Naming} {owners others : List ClassDecl}

/-- The lines of an audit about the method rules. -/
def methodLines (s : Session) : List AuditLine :=
  (s.ruleSet.rules.zip s.counts).flatMap fun (rule, count) => (auditRule rule count).tail

theorem zip_counts (ruleSet : RuleSet) (namings : Nat → Naming) (owners : List ClassDecl) :
    ruleSet.rules.zip (ofScans ruleSet namings owners).counts =
      (ClassRule.inTurn [] ruleSet.rules).map fun turn =>
        (turn.2, RuleCount.ofScans owners turn) := by
  calc ruleSet.rules.zip (ofScans ruleSet namings owners).counts
      = ((ClassRule.inTurn [] ruleSet.rules).map Prod.snd).zip
          ((ClassRule.inTurn [] ruleSet.rules).map (RuleCount.ofScans owners)) := by
        rw [ClassRule.map_snd_inTurn]
        rfl
    _ = _ := List.zip_map'

theorem auditRule_ofScans (owners : List ClassDecl) (turn : RuleTurn) :
    auditRule turn.2 (RuleCount.ofScans owners turn) =
      .ofRule owners turn :: turn.2.methods.map (AuditLine.ofMethod owners turn) := by
  have hmethods : turn.2.methods.zip (RuleCount.ofScans owners turn).bound =
      turn.2.methods.map fun m =>
        (m, owners.countP fun owner => turn.2.bindsAfter turn.1 m owner) := by
    calc turn.2.methods.zip (RuleCount.ofScans owners turn).bound
        = (turn.2.methods.map id).zip (RuleCount.ofScans owners turn).bound := by rw [List.map_id]
      _ = _ := List.zip_map'
  rw [auditRule, hmethods, List.map_map]
  rfl

/-- The lines of an audit: how many of the classes the rules fired on, and on how many the method
rules were bound. -/
theorem audit_ofScans (ruleSet : RuleSet) (namings : Nat → Naming) (owners : List ClassDecl) :
    (ofScans ruleSet namings owners).audit = (ClassRule.inTurn [] ruleSet.rules).flatMap fun turn =>
      .ofRule owners turn :: turn.2.methods.map (AuditLine.ofMethod owners turn) := by
  rw [audit, show (ofScans ruleSet namings owners).ruleSet = ruleSet from rfl, zip_counts,
    List.flatMap_map]
  simp only [auditRule_ofScans]

theorem methodLines_ofScans (ruleSet : RuleSet) (namings : Nat → Naming) (owners : List ClassDecl) :
    (ofScans ruleSet namings owners).methodLines =
      (ClassRule.methodsInTurn ruleSet.rules).map fun entry =>
        AuditLine.ofMethod owners entry.1 entry.2 := by
  rw [methodLines, show (ofScans ruleSet namings owners).ruleSet = ruleSet from rfl, zip_counts,
    List.flatMap_map, ClassRule.methodsInTurn, List.map_flatMap]
  simp only [auditRule_ofScans, List.tail_cons, List.map_map, Function.comp_def]

/-- The order of scans makes no difference to the counts. -/
theorem ofScans_perm (h : others.Perm owners) :
    ofScans ruleSet namings others = ofScans ruleSet namings owners := by
  have hcounts : RuleCount.ofScans others = RuleCount.ofScans owners := by
    funext turn
    simp only [RuleCount.ofScans, h.countP_eq]
  rw [ofScans, ofScans, h.length_eq, hcounts]

end Session

/-! ### Lines and events -/

/-- The events in which a method rule of a label was bound. -/
theorem Journal.countP_methodMatched (j : Journal) (label : String) :
    ((j.ofKind .methodMatched).countP fun e => e.registration == some label) =
      j.bindings.count (.methodMatched, some label) := by
  rw [ofKind, bindings, List.countP_filter, List.count, List.countP_map, List.countP_filter]
  congr 1
  funext e
  rw [Bool.eq_iff_iff]
  simp only [Function.comp_apply, Bool.and_eq_true, Bool.or_eq_true, beq_iff_eq, Prod.mk.injEq]
  constructor
  · intro h
    exact ⟨⟨h.2, h.1⟩, .inl h.2⟩
  · intro h
    exact ⟨h.1.2, h.1.1⟩

/-- Of a rule that fires, those method rules are told about as bound that are bound. -/
theorem ClassRule.count_told {turn : RuleTurn} {owner : ClassDecl}
    (hfires : turn.2.firesAfter turn.1 owner = true) (label : String) :
    (turn.2.methods.map fun m => ((if (m.bind? (leave turn.1 owner)).isSome then
        EventKind.methodMatched else .registrationUnmatched), some m.label)).count
        (.methodMatched, some label) =
      turn.2.methods.countP fun m => m.label == label && turn.2.bindsAfter turn.1 m owner := by
  rw [List.count, List.countP_map]
  congr 1
  funext m
  rw [Bool.eq_iff_iff, Function.comp_apply, bindsAfter, hfires]
  cases (m.bind? (leave turn.1 owner)).isSome <;> simp

/-- In the scan of a class, there are as many events in which a method rule of a label was bound as
there are bound method rules with this label. -/
theorem Scan.countP_methodMatched (naming : Naming) (rules : List ClassRule) (owner : ClassDecl)
    (label : String) :
    (((ofClass naming rules owner).1.report.journal.ofKind .methodMatched).countP fun e =>
      e.registration == some label) =
      (ClassRule.methodsInTurn rules).countP fun entry =>
        entry.2.label == label && entry.1.2.bindsAfter entry.1.1 entry.2 owner := by
  rw [Journal.countP_methodMatched, bindings_ofClass, List.count_flatMap, ClassRule.methodsInTurn,
    List.countP_flatMap, ClassRule.firing]
  generalize ClassRule.inTurn [] rules = turns
  induction turns with
  | nil => rfl
  | cons turn turns ih =>
    rw [List.filter_cons, List.map_cons (l := turns), List.sum_cons (l := turns.map _), ← ih,
      Function.comp_apply, List.countP_map]
    by_cases hfires : turn.2.firesAfter turn.1 owner = true
    · rw [if_pos hfires, List.map_cons, List.sum_cons]
      exact congrArg (· + _) (ClassRule.count_told hfires label)
    · -- no method rule is bound, and no event is written down
      have hnone (m : MethodRule) : turn.2.bindsAfter turn.1 m owner = false :=
        ClassRule.bindsAfter_of_not_fires (Bool.not_eq_true _ ▸ hfires) m
      rw [if_neg hfires]
      simp [Function.comp_def, hnone]

namespace Session

/-- The lines of method rules with one label count the events in which a method rule of this label
was bound, whatever labels the failures of the scans name. -/
theorem sum_methodLines (ruleSet : RuleSet) (namings picks : Nat → Naming) (owners : List ClassDecl)
    (label : String) :
    (((ofScans ruleSet namings owners).methodLines.filter fun line => line.label == label).map
        AuditLine.count).sum =
      (owners.mapIdx fun i owner =>
        ((Scan.ofClass (picks i) ruleSet.rules owner).1.report.journal.ofKind
          .methodMatched).countP fun e => e.registration == some label).sum := by
  -- pairs of a class and a method rule bound in it, counted by method rules and by classes
  let entries := (ClassRule.methodsInTurn ruleSet.rules).filter fun entry => entry.2.label == label
  have hevents (i : Nat) (owner : ClassDecl) :
      ((Scan.ofClass (picks i) ruleSet.rules owner).1.report.journal.ofKind
          .methodMatched).countP (fun e => e.registration == some label) =
        entries.countP fun entry => entry.1.2.bindsAfter entry.1.1 entry.2 owner := by
    rw [Scan.countP_methodMatched, List.countP_filter]
    congr 1
    funext entry
    exact Bool.and_comm _ _
  calc (((ofScans ruleSet namings owners).methodLines.filter fun line => line.label == label).map
        AuditLine.count).sum
      = (entries.map fun entry => owners.countP fun owner =>
          entry.1.2.bindsAfter entry.1.1 entry.2 owner).sum := by
        rw [methodLines_ofScans, List.filter_map, List.map_map]
        rfl
    _ = (owners.map fun owner => entries.countP fun entry =>
          entry.1.2.bindsAfter entry.1.1 entry.2 owner).sum := sum_countP_comm _ _ _
    _ = _ := by
        simp only [hevents]
        exact congrArg List.sum (List.ext_getElem? fun i => by simp)

/-- Scans one after the other come to what each class comes to alone, and leave the same counters in
any order. In a batch, no two scans hold classes of one name at the same time; it can be finished
however far it has come, and when it is finished, it has come to the same. Alone, a class comes to
the same at each scan, up to the labels that failures name, and to exactly the same if no block
leaves a choice which label is named. The counters tell the number of scans, and an audit tells for
each rule on how many of the classes it fired, and for each method rule on how many it was bound;
the lines of method rules with one label count the events in which one of them was bound; and the
rules that never matched are those whose lines say zero. -/
theorem audit_exact (ruleSet : RuleSet) (namings : Nat → Naming) (seen : List ClassDecl)
    (entries : List (ClassDecl × Naming)) :
    let fresh := start ruleSet namings
    let alone := fun (naming : Naming) owner => ((start ruleSet fun _ => naming).scan owner).1
    let all := seen ++ entries.map Prod.fst
    let last := (fresh.scanAll all).2
    let lines := (ClassRule.inTurn [] ruleSet.rules).flatMap fun turn =>
      ⟨turn.2.label, turn.2.module, all.countP fun owner => turn.2.firesAfter turn.1 owner⟩ ::
        turn.2.methods.map fun m => AuditLine.mk m.label (m.module.or turn.2.module)
          (all.countP fun owner => turn.2.bindsAfter turn.1 m owner)
    (∀ others, others.Perm all →
        (fresh.scanAll others).1 = others.mapIdx (fun i owner => alone (namings i) owner) ∧
          (fresh.scanAll others).2 = last) ∧
      (∀ b, Batch.Runs (.start (fresh.scanAll seen).2 entries) b →
        b.Exclusive ∧ (∃ b', Batch.Runs b b' ∧ b'.Finished) ∧
          (b.Finished →
            b.jobs = entries.map (fun entry => .finished (alone entry.2 entry.1)) ∧
              b.session = last)) ∧
      (∀ naming naming' owner,
        Scan.Alike (fun _ _ => True) (alone naming owner) (alone naming' owner) ∧
          ((∀ rule ∈ ruleSet.rules, rule.Definite) → alone naming owner = alone naming' owner)) ∧
      last.scanned = all.length ∧
      last.audit = lines ∧
      (∀ (picks : Nat → Naming) (label : String),
        ((last.methodLines.filter fun line => line.label == label).map AuditLine.count).sum =
          (all.mapIdx fun i owner => ((alone (picks i) owner).report.journal.ofKind
            .methodMatched).countP fun e => e.registration == some label).sum) ∧
      last.unmatched =
        (lines.filter fun line => line.count == 0).map fun line => .unmatched line.label := by
  intro fresh alone all last lines
  have hlast : last = ofScans ruleSet namings all :=
    congrArg Prod.snd (scanAll_start ruleSet namings all)
  have haudit : last.audit = lines := by
    rw [hlast]
    exact audit_ofScans ruleSet namings all
  refine ⟨fun others hperm => ?_, fun b hruns => ⟨hruns.exclusive (Batch.exclusive_start _ _),
    b.exists_finished, fun hfinished => ?_⟩, fun naming naming' owner => ⟨?_, fun hdefinite => ?_⟩,
    ?_, haudit, fun picks label => ?_, ?_⟩
  · rw [hlast, scanAll_start, ofScans_perm hperm]
    exact ⟨rfl, rfl⟩
  · rw [show (fresh.scanAll seen).2 = ofScans ruleSet namings seen from
      congrArg Prod.snd (scanAll_start ruleSet namings seen)] at hruns
    rw [hlast]
    exact Batch.eq_of_finished hruns hfinished
  · exact (Scan.ofClass_alike (fun _ => trivial) ruleSet.rules owner).1
  · have hsame := Scan.applyRules_eq_of_definite hdefinite naming naming' (.start owner)
    exact congrArg (fun done : Scan × List Firing => done.1) hsame
  · rw [hlast]
    rfl
  · rw [hlast]
    exact sum_methodLines ruleSet namings picks all label
  · rw [← haudit]
    rfl

/-- A block whose fragment leaves two labels without a place, in two scans of a class alone. One of
them names the first label, and the other one the second. -/
theorem audit_exact_names :
    let unplaced : Block := .ofOperations [.overwrite (.assembled fun _ => do
      let first ← Assembler.newLabel
      let second ← Assembler.newLabel
      Assembler.simple Opcode.iconst0
      Assembler.jump Opcode.ifeq first
      Assembler.simple Opcode.iconst0
      Assembler.jump Opcode.ifeq second)]
    let m : MethodDecl := ⟨"f", "()V", ⟨8⟩, [], .void, [.simple Opcode.vreturn], [], 0, 0⟩
    let owner : ClassDecl := ⟨"a", none, [], .none, [], [m], []⟩
    let rule : ClassRule := ⟨"a", .empty, [⟨"m", .empty, some unplaced, none⟩], none⟩
    let alone := fun (naming : Naming) =>
      ((start ⟨[rule], [], .empty⟩ fun _ => naming).scan owner).1
    (alone fun _ => 0).report.failures =
        [⟨"m", "f()V", .malformed (.neverPlaced ⟨0⟩ [])⟩] ∧
      (alone fun _ => 1).report.failures =
        [⟨"m", "f()V", .malformed (.neverPlaced ⟨1⟩ [])⟩] := by
  intro unplaced m owner rule alone
  exact ⟨by decide +kernel, by decide +kernel⟩

end Session

end ClassEdit
