import ClassEdit.Proofs.Firing

/-!
# Counting as the scan goes on

A session counts how often each rule fired and how often each method rule was bound. The counts of a
scan can be raised rule by rule, each time when the rule has had its turn, and they then say at any
moment what has happened so far. At its turn a rule raises the counts in its own place, and only if
it fires. Otherwise its turn leaves no trace at all.

After any number of scans, the counts of a rule are the number of classes on which it fired, and the
numbers of classes on which its method rules were bound.

## Main definitions

* `Session.turn`, `Session.upTo`: one turn, and a scan up to some turn, with the counts.
* `Session.ofScans`: what a session has come to when some classes are scanned.

## Main results

* `Session.upTo_length`: a scan with its counts, turn by turn.
* `Session.scanAll_start`: scans one after the other, and the counts that they leave.
* `Session.turn_decided`: what a rule does at its turn, and on what it depends.
-/

namespace ClassEdit

/-! ### The counts of many scans -/

/-- The entry right behind some others is the one that is modified. -/
theorem modify_length_append {α : Type} (before : List α) (a : α) (later : List α) (f : α → α) :
    (before ++ a :: later).modify before.length f = before ++ f a :: later := by
  rw [List.modify_eq_take_drop]
  simp

/-- The counts of a rule behind earlier rules, when some classes are scanned. -/
def RuleCount.ofScans (owners : List ClassDecl) (turn : RuleTurn) : RuleCount where
  fired := owners.countP fun owner => turn.2.firesAfter turn.1 owner
  bound := turn.2.methods.map fun m => owners.countP fun owner => turn.2.bindsAfter turn.1 m owner

theorem RuleCount.add_firingAfter (owners : List ClassDecl) (turn : RuleTurn) (owner : ClassDecl) :
    (ofScans owners turn).add (turn.2.firingAfter turn.1 owner) =
      ofScans (owners ++ [owner]) turn := by
  unfold ClassRule.firingAfter
  cases hfires : turn.2.firesAfter turn.1 owner with
  | false =>
    -- then none of its method rules is bound either
    have hbinds (m : MethodRule) : turn.2.bindsAfter turn.1 m owner = false :=
      ClassRule.bindsAfter_of_not_fires hfires m
    simp [ofScans, add, List.countP_append, hfires, hbinds]
  | true =>
    have hbinds (m : MethodRule) : turn.2.bindsAfter turn.1 m owner =
        (m.bind? (ClassRule.leave turn.1 owner)).isSome := by
      rw [ClassRule.bindsAfter, hfires, Bool.true_and]
    simp only [ofScans, add, if_true, List.countP_append, List.countP_cons, List.countP_nil, hfires,
      hbinds, List.zipWith_map, List.zipWith_self, Nat.zero_add]
    congr 2
    funext m
    cases (m.bind? (ClassRule.leave turn.1 owner)).isSome <;> rfl

namespace Session

variable {ruleSet : RuleSet} {naming : Nat → Naming} {seen owners : List ClassDecl}

/-- Rules in use, when some classes are scanned. -/
def ofScans (ruleSet : RuleSet) (naming : Nat → Naming) (owners : List ClassDecl) : Session :=
  ⟨ruleSet, naming, owners.length,
    (ClassRule.inTurn [] ruleSet.rules).map (RuleCount.ofScans owners)⟩

theorem start_eq (ruleSet : RuleSet) (naming : Nat → Naming) :
    start ruleSet naming = ofScans ruleSet naming [] := by
  have hcounts : (ClassRule.inTurn [] ruleSet.rules).map (RuleCount.ofScans []) =
      ((ClassRule.inTurn [] ruleSet.rules).map Prod.snd).map RuleCount.start := by
    rw [List.map_map]
    rfl
  rw [start, ofScans, hcounts, ClassRule.map_snd_inTurn, List.length_nil]

/-- One more class that is scanned, whatever labels its failures name. -/
theorem counts_ofScans (ruleSet : RuleSet) (namings : Nat → Naming) (seen : List ClassDecl)
    (naming : Naming) (owner : ClassDecl) :
    (ofScans ruleSet namings seen).counts.zipWith RuleCount.add
        (Scan.ofClass naming ruleSet.rules owner).2 =
      (ofScans ruleSet namings (seen ++ [owner])).counts := by
  simp only [ofScans, Scan.firings_eq, List.zipWith_map, List.zipWith_self,
    RuleCount.add_firingAfter]

theorem ofScans_append (ruleSet : RuleSet) (namings : Nat → Naming) (seen : List ClassDecl)
    (naming : Naming) (owner : ClassDecl) :
    { ofScans ruleSet namings seen with
        scanned := seen.length + 1
        counts := (ofScans ruleSet namings seen).counts.zipWith RuleCount.add
          (Scan.ofClass naming ruleSet.rules owner).2 } =
      ofScans ruleSet namings (seen ++ [owner]) := by
  rw [counts_ofScans, ofScans, ofScans, List.length_append, List.length_singleton]

/-- One more scan. -/
theorem scan_ofScans (ruleSet : RuleSet) (namings : Nat → Naming) (seen : List ClassDecl)
    (owner : ClassDecl) : (ofScans ruleSet namings seen).scan owner =
      ((Scan.ofClass (namings seen.length) ruleSet.rules owner).1,
        ofScans ruleSet namings (seen ++ [owner])) :=
  Prod.ext rfl (ofScans_append ruleSet namings seen (namings seen.length) owner)

/-- Classes are scanned one after the other, each with the labels that its own scan names. -/
theorem scanAll_ofScans (ruleSet : RuleSet) (naming : Nat → Naming)
    (seen owners : List ClassDecl) : (ofScans ruleSet naming seen).scanAll owners =
      (owners.mapIdx fun i owner =>
          (Scan.ofClass (naming (seen.length + i)) ruleSet.rules owner).1,
        ofScans ruleSet naming (seen ++ owners)) := by
  induction owners generalizing seen with
  | nil => simp [scanAll]
  | cons owner rest ih =>
    rw [scanAll, scan_ofScans]
    dsimp only
    rw [ih, List.mapIdx_cons, List.append_assoc, List.singleton_append]
    simp only [List.length_append, List.length_singleton, Nat.add_zero, Nat.add_assoc,
      Nat.add_comm 1]

/-- Scans one after the other do not touch each other, and what they leave behind are the counts. -/
theorem scanAll_start (ruleSet : RuleSet) (naming : Nat → Naming) (owners : List ClassDecl) :
    (start ruleSet naming).scanAll owners =
      (owners.mapIdx fun i owner => (Scan.ofClass (naming i) ruleSet.rules owner).1,
        ofScans ruleSet naming owners) := by
  rw [start_eq, scanAll_ofScans, List.nil_append]
  simp only [List.length_nil, Nat.zero_add]

/-! ### Turn by turn -/

/-- Raises the counts of the rule in a place. -/
def told (s : Session) (place : Nat) (firing : Firing) : Session :=
  { s with counts := s.counts.modify place fun count => count.add firing }

theorem told_none (s : Session) (place : Nat) : s.told place none = s := by
  have hsame : (fun count : RuleCount => count.add none) = id := rfl
  rw [told, hsame, List.modify_id]

theorem counts_told {s : Session} {before later : List RuleCount} {count : RuleCount}
    (hcounts : s.counts = before ++ count :: later) (firing : Firing) :
    (s.told before.length firing).counts = (before ++ [count.add firing]) ++ later := by
  rw [told, hcounts, modify_length_append, List.append_assoc, List.singleton_append]

/-- The turn of the rule in a place, with the counts. -/
def turn (naming : Naming) (state : Scan × Session) (entry : ClassRule × Nat) : Scan × Session :=
  ((state.1.applyRule naming entry.1).1, state.2.told entry.2 (state.1.applyRule naming entry.1).2)

/-- Turns one after the other raise the counts one after the other. -/
theorem foldl_turn (naming : Naming) (rules : List ClassRule) (state : Scan) (s : Session)
    {before counts : List RuleCount} (hcounts : s.counts = before ++ counts)
    (hlength : counts.length = rules.length) :
    (rules.zipIdx before.length).foldl (turn naming) (state, s) =
      ((state.applyRules naming rules).1, { s with
        counts := before ++ counts.zipWith RuleCount.add (state.applyRules naming rules).2 }) := by
  induction rules generalizing state s before counts with
  | nil =>
    obtain rfl : counts = [] := List.eq_nil_of_length_eq_zero hlength
    rw [List.zipWith_nil_left, ← hcounts]
    rfl
  | cons rule rules ih =>
    obtain ⟨count, rest, rfl⟩ := List.exists_cons_of_length_eq_add_one hlength
    -- the first rule raises the counts right behind those that were there before
    have hrest := ih (state.applyRule naming rule).1 _
      (counts_told hcounts (state.applyRule naming rule).2) (Nat.succ.inj hlength)
    rw [List.length_append, List.length_singleton, List.append_assoc] at hrest
    exact hrest

/-- A session in which a scan has begun. -/
def begun (s : Session) : Session := { s with scanned := s.scanned + 1 }

/-- The scan of a class is one in which all rules have their turn, with the counts raised turn by
turn. -/
theorem foldl_turn_zipIdx (ruleSet : RuleSet) (namings : Nat → Naming) (seen : List ClassDecl)
    (naming : Naming) (owner : ClassDecl) : ruleSet.rules.zipIdx.foldl (turn naming)
        (.start owner, (ofScans ruleSet namings seen).begun) =
      ((Scan.ofClass naming ruleSet.rules owner).1,
        ofScans ruleSet namings (seen ++ [owner])) := by
  have hcounts : (ofScans ruleSet namings seen).begun.counts =
    [] ++ (ofScans ruleSet namings seen).counts := rfl
  have hlength : (ofScans ruleSet namings seen).counts.length = ruleSet.rules.length := by
    rw [ofScans, List.length_map, ← List.length_map (f := Prod.snd), ClassRule.map_snd_inTurn]
  exact (foldl_turn naming ruleSet.rules (.start owner) _ hcounts hlength).trans
    (Prod.ext rfl (ofScans_append ruleSet namings seen naming owner))

/-- The scan of a class and the counts in the course of it, when the first `n` rules have had their
turn. -/
def upTo (s : Session) (n : Nat) (owner : ClassDecl) : Scan × Session :=
  (s.ruleSet.rules.zipIdx.take n).foldl (turn (s.naming s.scanned)) (.start owner, s.begun)

theorem upTo_succ (s : Session) {n : Nat} {rule : ClassRule}
    (hrule : s.ruleSet.rules[n]? = some rule) (owner : ClassDecl) :
    s.upTo (n + 1) owner = turn (s.naming s.scanned) (s.upTo n owner) (rule, n) := by
  have hentry : s.ruleSet.rules.zipIdx[n]? = some (rule, n) := by simp [hrule]
  rw [upTo, List.take_add_one, hentry, List.foldl_append]
  rfl

theorem upTo_length (ruleSet : RuleSet) (namings : Nat → Naming) (seen : List ClassDecl)
    (owner : ClassDecl) : (ofScans ruleSet namings seen).upTo ruleSet.rules.length owner =
      (ofScans ruleSet namings seen).scan owner := by
  have hall : ruleSet.rules.zipIdx.take ruleSet.rules.length = ruleSet.rules.zipIdx :=
    List.take_of_length_le (by rw [List.length_zipIdx])
  rw [scan_ofScans, ← foldl_turn_zipIdx, ← hall]
  rfl

/-- The class and its report come about without the counts. -/
theorem fst_upTo (s : Session) (n : Nat) (owner : ClassDecl) :
    (s.upTo n owner).1 =
      (Scan.ofClass (s.naming s.scanned) (s.ruleSet.rules.take n) owner).1 := by
  have hfoldl (naming : Naming) (entries : List (ClassRule × Nat)) (state : Scan × Session) :
      (entries.foldl (turn naming) state).1 =
        (state.1.applyRules naming (entries.map Prod.fst)).1 := by
    induction entries generalizing state with
    | nil => rfl
    | cons entry rest ih => exact ih _
  rw [upTo, hfoldl, List.map_take, List.zipIdx_map_fst]
  rfl

/-- A rule that does not fire leaves no trace of its turn. -/
theorem turn_of_not_meets {state : Scan × Session} {rule : ClassRule}
    (h : ¬ rule.Meets state.1.owner) (naming : Naming) (place : Nat) :
    turn naming state (rule, place) = state := by
  rw [turn, Scan.applyRule_of_not_fires (ClassRule.fires_eq_false_iff.2 h), told_none]

/-- A rule that fires is counted in its place, and so are those of its method rules that are bound.
-/
theorem turn_of_meets {state : Scan × Session} {rule : ClassRule} (h : rule.Meets state.1.owner)
    (naming : Naming) (place : Nat) : turn naming state (rule, place) =
      (state.1.afterMethods naming rule rule.methods.length, { state.2 with
        counts := state.2.counts.modify place fun count => ⟨count.fired + 1,
          count.bound.zipWith (fun n (b : Bool) => n + b.toNat)
            (rule.methods.map fun m => (m.bind? state.1.owner).isSome)⟩ }) := by
  rw [turn, Scan.applyRule_of_fires (ClassRule.fires_iff_meets.2 h), Scan.afterMethods_length,
    ClassRule.bindings, List.map_map]
  rfl

end Session

/-- A rule that does not fire at its turn is as good as no rule. -/
theorem Scan.ofClass_set_of_not_meets {naming : Naming} {rules : List ClassRule} {k : Nat}
    (hk : k < rules.length) {other : ClassRule} {owner : ClassDecl}
    (h : ¬ other.Meets (ofClass naming (rules.take k) owner).1.owner) :
    (ofClass naming (rules.set k other) owner).1 = (ofClass naming (rules.eraseIdx k) owner).1 := by
  have hturn : (ofClass naming (rules.take k) owner).1.applyRule naming other =
      ((ofClass naming (rules.take k) owner).1, none) :=
    applyRule_of_not_fires (ClassRule.fires_eq_false_iff.2 h)
  rw [List.set_eq_take_append_cons_drop, if_pos hk, List.eraseIdx_eq_take_drop_succ, ofClass,
    ofClass, applyRules_append, applyRules_append, applyRules_cons]
  exact congrArg (fun done : Scan × Firing =>
    (done.1.applyRules naming (rules.drop (k + 1))).1) hturn

/-- A rule fires at its turn exactly if the class, as the rules before have left it, has all that
the rule demands. It is then entered into the report and counted, together with its method rules
that are bound, and otherwise its turn leaves class, report and counts as they were. When it fires,
each of its blocks edits the method in the place of the first one that suited the method rule before
the first of them was run, and no other method. If some clause of a rule that fires is replaced by
its opposite, the turn of the rule leaves no trace, and the scan is one without the rule. -/
theorem Session.turn_decided (ruleSet : RuleSet) (namings : Nat → Naming) (seen : List ClassDecl)
    (owner : ClassDecl) (k : Fin ruleSet.rules.length) :
    let session := ((Session.start ruleSet namings).scanAll seen).2
    let naming := session.naming session.scanned
    let rule := ruleSet.rules[k]
    let before := session.upTo k owner
    let after := session.upTo (k + 1) owner
    let c := before.1.owner
    session.scan owner = session.upTo ruleSet.rules.length owner ∧
      c = (Scan.ofClass naming (ruleSet.rules.take k) owner).1.owner ∧
      (rule.Meets c ↔
        after.1.report.matched = before.1.report.matched ++ [rule.label] ∧
          after.2.counts = before.2.counts.modify k fun count => ⟨count.fired + 1,
            count.bound.zipWith (fun n (b : Bool) => n + b.toNat)
              (rule.methods.map fun m => (m.bind? c).isSome)⟩) ∧
      (¬ rule.Meets c → after = before) ∧
      (rule.Meets c →
        after.1 = before.1.afterMethods naming rule rule.methods.length ∧
          ∀ (j : Nat) (m : MethodRule), rule.methods[j]? = some m →
            let now := before.1.afterMethods naming rule j
            let next := before.1.afterMethods naming rule (j + 1)
            (m.block = none ∨ (∀ method ∈ c.methods, ¬ m.Suits method) → next.owner = now.owner) ∧
              ∀ (b : Block) (i : Nat) (first : MethodDecl), m.block = some b →
                m.BindsTo c i first →
                  ∃ method, now.owner.methods[i]? = some method ∧
                    method.signature = first.signature ∧
                      next.owner = now.owner.setMethod i
                        (Block.after method (b.run now.owner method m.label))) ∧
      (rule.Meets c → ∀ (clauses others : List ClassClause) (clause opposite : ClassClause),
        rule.pattern.clauses = clauses ++ clause :: others →
          (∀ d, opposite.holds d = !clause.holds d) →
            let changed := { rule with pattern := ⟨clauses ++ opposite :: others⟩ }
            Session.turn naming before (changed, k) = before ∧
              (Scan.ofClass naming (ruleSet.rules.set k changed) owner).1 =
                (Scan.ofClass naming (ruleSet.rules.eraseIdx k) owner).1) := by
  intro session naming rule before after c
  -- what earlier scans have left behind is their number and their counts
  have hsession : session = .ofScans ruleSet namings seen := by
    show ((Session.start ruleSet namings).scanAll seen).2 = _
    rw [scanAll_start]
  have hrule : session.ruleSet.rules[k.val]? = some rule := by
    rw [hsession]
    exact List.getElem?_eq_getElem k.isLt
  have hrules : session.ruleSet.rules = ruleSet.rules := by
    rw [hsession]
    rfl
  have hafter : after = turn naming before (rule, k) := session.upTo_succ hrule owner
  have hclass : c = (Scan.ofClass naming (ruleSet.rules.take k) owner).1.owner := by
    show (session.upTo k owner).1.owner = _
    rw [fst_upTo, hrules]
  have hidle (h : ¬ rule.Meets c) : after = before := hafter.trans (turn_of_not_meets h naming k)
  refine ⟨?_, hclass, ⟨fun h => ?_, fun h => ?_⟩, hidle, fun h => ⟨?_, fun j m hm => ⟨?_, ?_⟩⟩, ?_⟩
  · rw [hsession, upTo_length]
  · rw [hafter, turn_of_meets h, Scan.afterMethods_length]
    exact ⟨Scan.matched_applyMethods _ _ _, rfl⟩
  · -- a turn without a trace does not make the list of labels longer
    by_contra hnot
    have hmatched := h.1
    rw [hidle hnot] at hmatched
    simp at hmatched
  · rw [hafter, turn_of_meets h]
  · exact Scan.owner_afterMethods_succ hm
  · intro b i first hblock hbinds
    exact Scan.owner_afterMethods_succ_of_block hm hblock hbinds
  · intro h clauses others clause opposite hclauses hopposite changed
    have hnot : ¬ changed.Meets c := h.not_meets_of_opposite hclauses (hopposite c)
    exact ⟨turn_of_not_meets hnot naming k, Scan.ofClass_set_of_not_meets k.isLt (hclass ▸ hnot)⟩

end ClassEdit
