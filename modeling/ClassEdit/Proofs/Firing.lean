import ClassEdit.Proofs.FailingBlock

/-!
# When rules fire

A rule fires if all of its clauses hold of the class and each of its conditions is met by some
method. Its method rules are then bound all at once, each to the first method that suits it, before
any of its blocks is run. From then on only the places of the methods count: a block edits the
method in the place to which its rule was bound, whatever the blocks before it have made of this
method, and no other one.

What a rule finds is the class as the rules before it have left it. So whether it fires in a scan
depends on the class and on the rules before it, and on nothing else. It does not depend on which
labels the scan names in its failures either.

## Main definitions

* `MethodRule.Suits`, `MethodRule.BindsTo`, `ClassRule.Meets`: what it takes for a method rule to be
  bound and for a rule to fire.
* `Scan.afterMethods`: a rule that fires, with some of its method rules.
* `ClassRule.firesAfter`, `ClassRule.bindsAfter`: the same in a scan, behind earlier rules.
* `RuleTurn`, `ClassRule.inTurn`: the rules of a scan, each with the rules before it.

## Main results

* `MethodRule.bind?_eq_some_iff`, `ClassRule.fires_iff_meets`: rules do what they are meant to.
* `Scan.owner_afterMethods_succ_of_block`: what a method rule does to the class at its turn.
* `Scan.firings_eq`: what a scan tells about its rules.
* `Scan.view_ofClass`: what a scan gathers from the rules that fire.
-/

namespace ClassEdit

/-! ### What it takes -/

namespace MethodRule

variable {r : MethodRule} {c : ClassDecl} {i : Nat} {m : MethodDecl}

/-- All clauses of the rule hold of the method. -/
def Suits (r : MethodRule) (m : MethodDecl) : Prop :=
  ∀ clause ∈ r.pattern.clauses, clause.holds m = true

/-- The method is the first one of the class that suits the rule, and this is its place. -/
structure BindsTo (r : MethodRule) (c : ClassDecl) (i : Nat) (m : MethodDecl) : Prop where
  found : c.methods[i]? = some m
  suits : r.Suits m
  first : ∀ j < i, ∀ other, c.methods[j]? = some other → ¬ r.Suits other

theorem accepts_iff_suits : r.pattern.accepts m = true ↔ r.Suits m := Pattern.accepts_iff

theorem bind?_eq_some_iff : r.bind? c = some i ↔ ∃ m, r.BindsTo c i m := by
  simp only [bind?, List.findIdx?_eq_some_iff_getElem, accepts_iff_suits]
  constructor
  · rintro ⟨hi, hsuits, hfirst⟩
    refine ⟨c.methods[i], List.getElem?_eq_getElem hi, hsuits, fun j hj other hother => ?_⟩
    obtain ⟨_, rfl⟩ := List.getElem?_eq_some_iff.1 hother
    exact hfirst j hj
  · rintro ⟨m, hfound, hsuits, hfirst⟩
    obtain ⟨hi, rfl⟩ := List.getElem?_eq_some_iff.1 hfound
    exact ⟨hi, hsuits, fun j hj => hfirst j hj _ (List.getElem?_eq_getElem (hj.trans hi))⟩

theorem BindsTo.bind?_eq (h : r.BindsTo c i m) : r.bind? c = some i := bind?_eq_some_iff.2 ⟨m, h⟩

theorem isSome_bind?_iff : (r.bind? c).isSome = true ↔ ∃ m ∈ c.methods, r.Suits m := by
  simp only [bind?, List.findIdx?_isSome, List.any_eq_true, accepts_iff_suits]

theorem bind?_eq_none (h : ∀ m ∈ c.methods, ¬ r.Suits m) : r.bind? c = none := by
  rw [← Option.not_isSome_iff_eq_none, isSome_bind?_iff]
  rintro ⟨m, hm, hsuits⟩
  exact h m hm hsuits

end MethodRule

namespace ClassRule

variable {r : ClassRule} {c : ClassDecl}

/-- The class has all that the rule demands: its clauses hold, and its conditions, which are the
method rules without a block, are met. -/
structure Meets (r : ClassRule) (c : ClassDecl) : Prop where
  clauses : ∀ clause ∈ r.pattern.clauses, clause.holds c = true
  conditions : ∀ m ∈ r.methods, m.block = none → ∃ method ∈ c.methods, m.Suits method

theorem fires_iff_meets : r.fires c = true ↔ r.Meets c := by
  have hcondition (m : MethodRule) : (m.block.isSome || (m.bind? c).isSome) = true ↔
      (m.block = none → ∃ method ∈ c.methods, m.Suits method) := by
    rw [Bool.or_eq_true, MethodRule.isSome_bind?_iff]
    cases m.block <;> simp
  simp only [fires, Bool.and_eq_true, List.all_eq_true, hcondition]
  constructor
  · intro h
    exact ⟨Pattern.accepts_iff.1 h.1, h.2⟩
  · intro h
    exact ⟨Pattern.accepts_iff.2 h.clauses, h.conditions⟩

theorem fires_eq_false_iff : r.fires c = false ↔ ¬ r.Meets c := by
  rw [← fires_iff_meets, Bool.not_eq_true]

/-- The opposite of a clause does not hold of a class that meets the demands of the rule. -/
theorem Meets.not_meets_of_opposite (h : r.Meets c) {before after : List ClassClause}
    {clause opposite : ClassClause} (hclauses : r.pattern.clauses = before ++ clause :: after)
    (hopposite : opposite.holds c = !clause.holds c) :
    ¬ { r with pattern := ⟨before ++ opposite :: after⟩ : ClassRule }.Meets c := by
  intro hmeets
  have hholds : clause.holds c = true := h.clauses clause (by simp [hclauses])
  have hother : opposite.holds c = true := hmeets.clauses opposite (by simp)
  rw [hopposite, hholds] at hother
  cases hother

end ClassRule

/-! ### What a method rule does at its turn -/

namespace Scan

variable {s : Scan} {naming : Naming} {rule : MethodRule} {i : Nat} {m : MethodDecl}

theorem signatures_applyBlock (hm : s.owner.methods[i]? = some m) (naming : Naming)
    (label : String) (b : Block) :
    (s.applyBlock naming label i m b).owner.methods.map MethodDecl.signature =
      s.owner.methods.map MethodDecl.signature := by
  -- operations edit the body, and a failure leaves the method as it was
  have hsignature : (Block.after m (b.run s.owner m label)).signature = m.signature := by
    obtain ⟨code, handlers, maxStack, maxLocals, hafter⟩ :=
      Block.after_eq s.owner m label b
    rw [hafter]
    rfl
  obtain ⟨hi, rfl⟩ := List.getElem?_eq_some_iff.1 hm
  rw [owner_applyBlock hm, ClassDecl.setMethod, List.map_set, hsignature]
  apply List.ext_getElem?
  intro j
  rw [List.getElem?_set]
  split
  · rename_i hij
    simp [← hij, hi]
  · rfl

/-- Method rules are no rules that fire. -/
theorem matched_applyMethods (s : Scan) (naming : Naming) (bound : List (MethodRule × Option Nat)) :
    (s.applyMethods naming bound).report.matched = s.report.matched := by
  -- rules are noted when they fire, and neither blocks nor method rules change that
  have hblock (s : Scan) (label : String) (i : Nat) (m : MethodDecl) (b : Block) :
      (s.applyBlock naming label i m b).report.matched = s.report.matched := by
    obtain ⟨e, -, heq⟩ | ⟨edited, outcome, -, ⟨-, heq⟩ | ⟨-, heq⟩⟩ :=
      s.applyBlock_cases naming label i m b
    all_goals
      rw [heq]
      rfl
  have hmethod (s : Scan) (rule : MethodRule) (binding : Option Nat) :
      (s.applyMethod naming rule binding).report.matched = s.report.matched := by
    obtain ⟨heq, -⟩ | ⟨i, m, -, -, ⟨-, heq⟩ | ⟨b, -, heq⟩⟩ :=
      s.applyMethod_cases naming rule binding
    · rw [heq]
      rfl
    · rw [heq]
      rfl
    · rw [heq, hblock]
      rfl
  induction bound generalizing s with
  | nil => rfl
  | cons entry bound ih => exact (ih _).trans (hmethod s entry.1 entry.2)

/-- Method rules leave the signatures of the methods alone, and so their number and places. -/
theorem signatures_applyMethods (s : Scan) (naming : Naming)
    (bound : List (MethodRule × Option Nat)) :
    (s.applyMethods naming bound).owner.methods.map MethodDecl.signature =
      s.owner.methods.map MethodDecl.signature :=
  applyMethods_induction
    (P := fun s' => s'.owner.methods.map MethodDecl.signature =
      s.owner.methods.map MethodDecl.signature)
    (fun _ _ hsame hs => by rw [hsame.owner_eq, hs])
    (fun _ label _ _ b hm hs => (signatures_applyBlock hm naming label b).trans hs) bound rfl

/-- A method that is in its place when a rule fires is there at the turns of all its method rules,
under the same signature. -/
theorem exists_method_applyMethods (hm : s.owner.methods[i]? = some m) (naming : Naming)
    (bound : List (MethodRule × Option Nat)) :
    ∃ m', (s.applyMethods naming bound).owner.methods[i]? = some m' ∧
      m'.signature = m.signature := by
  have hsignature : ((s.applyMethods naming bound).owner.methods.map MethodDecl.signature)[i]? =
      some m.signature := by
    rw [signatures_applyMethods, List.getElem?_map, hm, Option.map_some]
  rw [List.getElem?_map] at hsignature
  exact Option.map_eq_some_iff.1 hsignature

end Scan

namespace Scan

variable {s : Scan} {naming : Naming} {rule : ClassRule}

/-- The scan when a rule has fired and its first `n` method rules have had their turn. All of them
are bound to methods of the class at which the rule fired. -/
def afterMethods (s : Scan) (naming : Naming) (rule : ClassRule) (n : Nat) : Scan :=
  (s.fired rule).applyMethods naming ((rule.bound s.owner).take n)

theorem afterMethods_succ {n : Nat} {m : MethodRule} (hm : rule.methods[n]? = some m) :
    s.afterMethods naming rule (n + 1) =
      (s.afterMethods naming rule n).applyMethod naming m (m.bind? s.owner) := by
  have hentry : (rule.bound s.owner)[n]? = some (m, m.bind? s.owner) := by
    rw [ClassRule.bound, List.getElem?_map, hm, Option.map_some]
  rw [afterMethods, List.take_add_one, hentry, applyMethods_append]
  rfl

theorem afterMethods_length (s : Scan) (naming : Naming) (rule : ClassRule) :
    s.afterMethods naming rule rule.methods.length =
      (s.fired rule).applyMethods naming (rule.bound s.owner) := by
  rw [afterMethods, List.take_of_length_le (by rw [ClassRule.bound, List.length_map])]

/-- The turn of a method rule does nothing to the class if the rule has no block, or if no method of
the class at which its rule fired suits it. -/
theorem owner_afterMethods_succ {n : Nat} {m : MethodRule} (hm : rule.methods[n]? = some m)
    (hidle : m.block = none ∨ ∀ method ∈ s.owner.methods, ¬ m.Suits method) :
    (s.afterMethods naming rule (n + 1)).owner = (s.afterMethods naming rule n).owner := by
  rw [afterMethods_succ hm]
  rcases hidle with hblock | hnone
  · exact owner_applyMethod_of_condition hblock _
  · rw [MethodRule.bind?_eq_none hnone]
    rfl

/-- The turn of a method rule with a block edits the method that is then in the place of the first
one that suited the rule when its rule fired, and it is the same method still. -/
theorem owner_afterMethods_succ_of_block {n i : Nat} {m : MethodRule} {b : Block}
    {first : MethodDecl} (hm : rule.methods[n]? = some m) (hblock : m.block = some b)
    (hbinds : m.BindsTo s.owner i first) :
    ∃ method, (s.afterMethods naming rule n).owner.methods[i]? = some method ∧
      method.signature = first.signature ∧
        (s.afterMethods naming rule (n + 1)).owner =
          (s.afterMethods naming rule n).owner.setMethod i
          (Block.after method (b.run (s.afterMethods naming rule n).owner method m.label)) := by
  -- blocks of the rule may have edited the method since, but not moved it
  have hplace : (s.fired rule).owner.methods[i]? = some first := hbinds.found
  obtain ⟨method, hmethod, hsignature⟩ :=
    exists_method_applyMethods hplace naming ((rule.bound s.owner).take n)
  refine ⟨method, hmethod, hsignature, ?_⟩
  rw [afterMethods_succ hm, hbinds.bind?_eq]
  exact owner_applyMethod_of_block hmethod hblock

end Scan

/-! ### Rules in turn -/

/-- A rule with the rules whose turn comes before its own. -/
abbrev RuleTurn := List ClassRule × ClassRule

namespace ClassRule

variable {earlier rules : List ClassRule} {r : ClassRule} {owner : ClassDecl}

/-- Rules, each with the rules whose turn comes before its own; some have had their turn already. -/
def inTurn (earlier : List ClassRule) : List ClassRule → List RuleTurn
  | [] => []
  | rule :: later => (earlier, rule) :: inTurn (earlier ++ [rule]) later

@[simp] theorem map_snd_inTurn : (inTurn earlier rules).map Prod.snd = rules := by
  induction rules generalizing earlier with
  | nil => rfl
  | cons rule later ih => rw [inTurn, List.map_cons, ih]

/-- The class as rules leave it, whatever labels the scan names. -/
def leave (rules : List ClassRule) (owner : ClassDecl) : ClassDecl :=
  (Scan.ofClass (fun _ => 0) rules owner).1.owner

/-- Whether the rule fires in the scan of a class, behind earlier rules. -/
def firesAfter (earlier : List ClassRule) (r : ClassRule) (owner : ClassDecl) : Bool :=
  r.fires (leave earlier owner)

/-- Whether a method rule of the rule is bound in the scan of a class, behind earlier rules. -/
def bindsAfter (earlier : List ClassRule) (r : ClassRule) (m : MethodRule) (owner : ClassDecl) :
    Bool :=
  r.firesAfter earlier owner && (m.bind? (leave earlier owner)).isSome

/-- What a scan tells about the rule, behind earlier rules. -/
def firingAfter (earlier : List ClassRule) (r : ClassRule) (owner : ClassDecl) : Firing :=
  if r.firesAfter earlier owner then
    some (r.methods.map fun m => (m.bind? (leave earlier owner)).isSome)
  else none

/-- The rules that fire in the scan of a class, each with the rules before it. -/
def firing (rules : List ClassRule) (owner : ClassDecl) : List RuleTurn :=
  (inTurn [] rules).filter fun turn => turn.2.firesAfter turn.1 owner

theorem bindsAfter_of_not_fires (h : r.firesAfter earlier owner = false) (m : MethodRule) :
    r.bindsAfter earlier m owner = false := by
  rw [bindsAfter, h, Bool.false_and]

end ClassRule

namespace Scan

variable {naming : Naming} {earlier : List ClassRule} {owner : ClassDecl}

theorem owner_ofClass (naming : Naming) (rules : List ClassRule) (owner : ClassDecl) :
    (ofClass naming rules owner).1.owner = ClassRule.leave rules owner :=
  owner_ofClass_eq ..

theorem fires_ofClass (naming : Naming) (earlier : List ClassRule) (rule : ClassRule)
    (owner : ClassDecl) :
    rule.fires (ofClass naming earlier owner).1.owner = rule.firesAfter earlier owner := by
  rw [owner_ofClass, ClassRule.firesAfter]

theorem ofClass_concat (naming : Naming) (earlier : List ClassRule) (rule : ClassRule)
    (owner : ClassDecl) : (ofClass naming (earlier ++ [rule]) owner).1 =
      ((ofClass naming earlier owner).1.applyRule naming rule).1 := by
  rw [ofClass, applyRules_append]
  rfl

theorem firing_applyRule (naming : Naming) (earlier : List ClassRule) (rule : ClassRule)
    (owner : ClassDecl) : ((ofClass naming earlier owner).1.applyRule naming rule).2 =
      rule.firingAfter earlier owner := by
  unfold ClassRule.firingAfter ClassRule.firesAfter
  rw [← owner_ofClass naming]
  cases hfires : rule.fires (ofClass naming earlier owner).1.owner with
  | false => rw [applyRule_of_not_fires hfires, if_neg Bool.false_ne_true]
  | true =>
    rw [applyRule_of_fires hfires, if_pos rfl, ClassRule.bindings, List.map_map]
    rfl

/-- What a scan goes on to tell about its rules, when some have had their turn. -/
theorem firings_applyRules (naming : Naming) (earlier rules : List ClassRule)
    (owner : ClassDecl) : ((ofClass naming earlier owner).1.applyRules naming rules).2 =
      (ClassRule.inTurn earlier rules).map fun turn => turn.2.firingAfter turn.1 owner := by
  induction rules generalizing earlier with
  | nil => rfl
  | cons rule later ih =>
    rw [firings_cons, firing_applyRule, ← ofClass_concat, ih, ClassRule.inTurn, List.map_cons]

/-- What rules add to a scan when they fire is there at its end, rule by rule. -/
theorem view_ofClass {α : Type} (view : Scan → List α)
    (added : RuleTurn → List α) {owner : ClassDecl}
    (hadded : ∀ earlier rule, rule.firesAfter earlier owner = true →
      view ((ofClass naming earlier owner).1.applyRule naming rule).1 =
        view (ofClass naming earlier owner).1 ++ added (earlier, rule))
    (rules : List ClassRule) : view (ofClass naming rules owner).1 =
      view (start owner) ++ (ClassRule.firing rules owner).flatMap added := by
  -- by induction on the rules to come, with one more rule behind them at each step
  have hrest (earlier rules : List ClassRule) :
      view ((ofClass naming earlier owner).1.applyRules naming rules).1 =
        view (ofClass naming earlier owner).1 ++
          ((ClassRule.inTurn earlier rules).filter fun turn =>
          turn.2.firesAfter turn.1 owner).flatMap added := by
    induction rules generalizing earlier with
    | nil => exact (List.append_nil _).symm
    | cons rule later ih =>
      rw [applyRules_cons, ← ofClass_concat, ih, ofClass_concat, ClassRule.inTurn, List.filter_cons]
      cases hfires : rule.firesAfter earlier owner with
      | false =>
        have hidle : rule.fires (ofClass naming earlier owner).1.owner = false := by
          rw [fires_ofClass, hfires]
        rw [applyRule_of_not_fires hidle, if_neg Bool.false_ne_true]
      | true => rw [hadded earlier rule hfires, if_pos rfl, List.flatMap_cons, List.append_assoc]
  exact hrest [] rules

/-- A scan tells about each of its rules what it does behind the rules before it. -/
theorem firings_eq (naming : Naming) (rules : List ClassRule) (owner : ClassDecl) :
    (ofClass naming rules owner).2 =
      (ClassRule.inTurn [] rules).map fun turn => turn.2.firingAfter turn.1 owner :=
  firings_applyRules naming [] rules owner

end Scan

end ClassEdit
