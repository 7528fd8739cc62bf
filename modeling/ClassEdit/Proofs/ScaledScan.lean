import ClassEdit.Proofs.Blind
import ClassEdit.Proofs.Definite
import ClassEdit.Proofs.Matching
import ClassEdit.Proofs.Turns

/-!
# Scans of classes that differ in scaling

A rule whose clauses and operations do not see the scaling fires for both of two related classes or
for none, binds the same methods in both, and leaves classes that are related again, if there is
room for the scaling in the bodies that it tries. A scan of a class of the application does not get
to rules about what the application builds on, so such rules need not be blind. What a scan of
related classes leaves loads the same strings.

## Main definitions

* `ClassDecl.Akin`: classes that are the same but for methods that are akin.
* `Scan.LeavesRoom`: there is room for the scaling in all bodies that a scan tries for a method.
* `Style.blind`: the style of rules that do not see the scaling.

## Main results

* `Scan.akin_applyRule`: what one rule keeps.
* `Scan.akin_applyRules`: what all rules keep.
-/

namespace ClassEdit

/-! ### Lists of related methods -/

section Lists

variable {α β : Type} {R : α → β → Prop} {as : List α} {bs : List β}

theorem forall₂_set (h : List.Forall₂ R as bs) {a : α} {b : β} (hab : R a b) (i : Nat) :
    List.Forall₂ R (as.set i a) (bs.set i b) := by
  induction h generalizing i with
  | nil => exact .nil
  | cons hfirst hrest ih =>
    cases i with
    | zero => exact .cons hab hrest
    | succ i => exact .cons hfirst (ih i)

/-- A place is outside of both lists, or holds related entries. -/
theorem forall₂_getElem?_cases (h : List.Forall₂ R as bs) (i : Nat) :
    (as[i]? = none ∧ bs[i]? = none) ∨ ∃ a b, as[i]? = some a ∧ bs[i]? = some b ∧ R a b := by
  induction h generalizing i with
  | nil => exact .inl ⟨rfl, rfl⟩
  | cons hfirst _ ih =>
    cases i with
    | zero => exact .inr ⟨_, _, rfl, rfl, hfirst⟩
    | succ i => exact ih i

theorem forall₂_findIdx? (h : List.Forall₂ R as bs) {p : α → Bool} {q : β → Bool}
    (hpq : ∀ a b, R a b → q b = p a) : bs.findIdx? q = as.findIdx? p := by
  induction h with
  | nil => rfl
  | cons hfirst _ ih => rw [List.findIdx?_cons, List.findIdx?_cons, hpq _ _ hfirst, ih]

end Lists

namespace ClassDecl.Scaled

variable {w : UInt32} {c c' : ClassDecl}

theorem refl (c : ClassDecl) : c.Scaled w c :=
  ⟨rfl, rfl, rfl, rfl, rfl, rfl, List.forall₂_same.2 fun m _ => .refl m⟩

/-- Related methods may be put into related classes. -/
theorem setMethod (h : c.Scaled w c') {m m' : MethodDecl} (hm : m.Scaled w m') (i : Nat) :
    (c.setMethod i m).Scaled w (c'.setMethod i m') :=
  ⟨h.name_eq, h.superName_eq, h.interfaces_eq, h.access_eq, h.fields_eq, h.pool_eq,
    forall₂_set h.methods hm i⟩

/-- What is seen alike in related methods is seen alike in all methods of related classes. -/
theorem map_methods_eq {α : Type} (h : c.Scaled w c') {f : MethodDecl → α}
    (hf : ∀ m m', m.Scaled w m' → f m' = f m) :
    c'.methods.map f = c.methods.map f := by
  have heq : List.Forall₂ (fun m m' => f m = f m') c.methods c'.methods :=
    h.methods.imp fun m m' hm => (hf m m' hm).symm
  rw [← List.forall₂_map_right_iff, ← List.forall₂_map_left_iff, List.forall₂_eq_eq_eq] at heq
  exact heq.symm

end ClassDecl.Scaled

/-- Classes that differ at most in scaling the frame rate, and that only in methods at the places
`K`. The methods at one place have heights or not together. -/
structure ClassDecl.Akin (w : UInt32) (K : Nat → Prop) (c c' : ClassDecl) : Prop where
  scaled : c.Scaled w c'
  methods : List.Forall₂ (MethodDecl.Akin w) c.methods c'.methods
  others : ∀ i, ¬ K i → c'.methods[i]? = c.methods[i]?

namespace ClassDecl.Akin

variable {w : UInt32} {K : Nat → Prop} {c c' : ClassDecl}

theorem refl (c : ClassDecl) : c.Akin w K c :=
  ⟨.refl c, List.forall₂_same.2 fun m _ => .refl m, fun _ _ => rfl⟩

/-- Methods that are akin may be put into classes that are akin, outside the places if they are the
same. -/
theorem setMethod (h : c.Akin w K c') {m m' : MethodDecl} {i : Nat} (hm : m.Akin w m')
    (hsame : ¬ K i → m' = m) : (c.setMethod i m).Akin w K (c'.setMethod i m') := by
  refine ⟨h.scaled.setMethod hm.scaled i, forall₂_set h.methods hm i, fun j hj => ?_⟩
  have hlength : c'.methods.length = c.methods.length := h.scaled.methods.length_eq.symm
  rw [ClassDecl.setMethod, ClassDecl.setMethod, List.getElem?_set, List.getElem?_set, hlength,
    h.others j hj]
  by_cases hij : i = j
  · rw [hsame (hij ▸ hj)]
  · rw [if_neg hij, if_neg hij]

end ClassDecl.Akin

/-- The style of rules that do not see the scaling, and leave no choice which label a failure
names. -/
def Style.blind (w : UInt32) (modules : List ModuleName) : Style where
  module := (· ∈ modules)
  classClause := ClassClause.Blind w
  methodClause := MethodClause.Blind w
  operation op := op.Blind w ∧ op.Definite

namespace Scan

/-- There is room for the scaling in the body that the operations of a block leave. -/
def RoomAfter (s : Scan) (label : String) (m : MethodDecl) (b : Block) : Prop :=
  ∀ edited done, Block.applyAll s.owner label b.operations m = .ok (edited, done) →
    edited.RoomToScale

/-- There is room for the scaling in every body that the blocks of a scan leave for the check at one
of its methods, each of them at its turn. -/
def LeavesRoom (naming : Naming) (rules : List ClassRule) (owner : ClassDecl) (i : Nat) : Prop :=
  ∀ (t : Turn rules) m b, t.Tries naming owner i m b →
    (t.atMethod naming owner).RoomAfter t.method.label m b

variable {w : UInt32} {modules : List ModuleName} {K : Nat → Prop} {s s' : Scan}
variable {naming naming' : Naming}

/-- A method rule that is blind keeps classes akin. -/
theorem akin_applyMethod {rule : MethodRule} (hrule : (Style.blind w modules).MethodRule rule)
    (h : s.owner.Akin w K s'.owner) {binding : Option Nat}
    (hroom : ∀ i m b, K i → binding = some i → s.owner.methods[i]? = some m →
      rule.block = some b → s.RoomAfter rule.label m b) :
    (s.applyMethod naming rule binding).owner.Akin w K
      (s'.applyMethod naming' rule binding).owner := by
  cases hblock : rule.block with
  | none =>
    rw [owner_applyMethod_of_condition hblock, owner_applyMethod_of_condition hblock]
    exact h
  | some b =>
    cases binding with
    | none => exact h
    | some i =>
      obtain ⟨hm, hm'⟩ | ⟨m, m', hm, hm', hmethod⟩ := forall₂_getElem?_cases h.methods i
      · rw [owner_applyMethod_of_outside hm, owner_applyMethod_of_outside hm']
        exact h
      · rw [owner_applyMethod_of_block hm hblock, owner_applyMethod_of_block hm' hblock]
        have hblind : ∀ op ∈ b.operations, op.Blind w :=
          fun op hop => (hrule.operations b hblock op hop).1
        by_cases hi : K i
        · have hafter := Block.akin_after hblind h.scaled hmethod (hroom i m b hi rfl hm hblock)
          exact h.setMethod hafter (absurd hi)
        · -- nothing is scaled in the method, and the block does not look at the others
          obtain rfl : m' = m := Option.some.inj (hm'.symm.trans ((h.others i hi).trans hm))
          rw [Block.after_eq_of_blind hblind h.scaled]
          exact h.setMethod (.refl _) fun _ => rfl

/-- Method rules one after the other keep classes akin, if there is room in what each of them finds
when it gets its turn. -/
theorem akin_applyMethods {bound : List (MethodRule × Option Nat)}
    (hbound : ∀ entry ∈ bound, (Style.blind w modules).MethodRule entry.1)
    (h : s.owner.Akin w K s'.owner)
    (hroom : ∀ earlier entry later, bound = earlier ++ entry :: later → ∀ i m b, K i →
      entry.2 = some i → (s.applyMethods naming earlier).owner.methods[i]? = some m →
        entry.1.block = some b → (s.applyMethods naming earlier).RoomAfter entry.1.label m b) :
    (s.applyMethods naming bound).owner.Akin w K (s'.applyMethods naming' bound).owner := by
  induction bound generalizing s s' with
  | nil => exact h
  | cons entry bound ih =>
    have hfirst : (s.applyMethod naming entry.1 entry.2).owner.Akin w K
        (s'.applyMethod naming' entry.1 entry.2).owner :=
      akin_applyMethod (hbound entry List.mem_cons_self) h (hroom [] entry bound rfl)
    refine ih (fun entry hentry => hbound entry (List.mem_cons_of_mem _ hentry)) hfirst ?_
    rintro earlier entry' later rfl
    exact hroom (entry :: earlier) entry' later rfl

end Scan

/-! ### Rules -/

section Rules

variable {w : UInt32} {modules : List ModuleName} {c c' : ClassDecl}

/-- A pattern accepts both of two things or none, if this is so for each of its clauses. -/
theorem Pattern.accepts_congr {P α : Type} [Clause P α] {p : Pattern P} {a a' : α}
    (h : ∀ clause ∈ p.clauses, Clause.holds clause a' = Clause.holds clause a) :
    p.accepts a' = p.accepts a := by
  rw [Bool.eq_iff_iff, accepts_iff, accepts_iff]
  exact forall₂_congr fun clause hclause => by rw [h clause hclause]

theorem MethodRule.bind?_eq {rule : MethodRule} (hrule : (Style.blind w modules).MethodRule rule)
    (h : c.Scaled w c') : rule.bind? c' = rule.bind? c :=
  forall₂_findIdx? h.methods fun m m' hm =>
    Pattern.accepts_congr fun clause hclause => hrule.clauses clause hclause m m' hm

theorem ClassRule.bindings_eq {rule : ClassRule} (hrule : (Style.blind w modules).ClassRule rule)
    (h : c.Scaled w c') : rule.bindings c' = rule.bindings c :=
  List.map_congr_left fun m hm => MethodRule.bind?_eq (hrule.methods m hm) h

/-- A blind rule fires for both of two related classes or for none. -/
theorem ClassRule.fires_eq {rule : ClassRule} (hrule : (Style.blind w modules).ClassRule rule)
    (h : c.Scaled w c') : rule.fires c' = rule.fires c := by
  have hpattern : rule.pattern.accepts c' = rule.pattern.accepts c :=
    Pattern.accepts_congr fun clause hclause => hrule.clauses clause hclause c c' h
  have hmethods : (rule.methods.all fun m => m.block.isSome || (m.bind? c').isSome) =
      rule.methods.all fun m => m.block.isSome || (m.bind? c).isSome := by
    rw [Bool.eq_iff_iff, List.all_eq_true, List.all_eq_true]
    exact forall₂_congr fun m hm => by rw [MethodRule.bind?_eq (hrule.methods m hm) h]
  rw [fires, fires, hpattern, hmethods]

/-- No class belongs to the application and to what it builds on. -/
theorem ClassClause.not_platform_of_host (hhost : host.holds c = true) :
    platform.holds c = false := by
  have hname : (internalName hostPackage).toList <+: c.name.toList :=
    List.isPrefixOf_iff_prefix.1 hhost
  rw [Bool.eq_false_iff]
  intro hplatform
  have hother : (internalName platformPackage).toList <+: c.name.toList :=
    List.isPrefixOf_iff_prefix.1 hplatform
  -- two packages that the name begins with, of which one would have to begin with the other
  rcases List.prefix_or_prefix_of_prefix hname hother with h | h
  · exact absurd h (by decide)
  · exact absurd h (by decide)

/-- A rule about what the application builds on fires for no class of the application. -/
theorem ClassRule.fires_eq_false {rule : ClassRule} (hhost : ClassClause.host.holds c = true)
    (hrule : ClassClause.platform ∈ rule.pattern.clauses) : rule.fires c = false := by
  rw [fires, Bool.and_eq_false_imp]
  intro haccepts
  have hplatform : ClassClause.platform.holds c = true := Pattern.accepts_iff.1 haccepts _ hrule
  rw [ClassClause.not_platform_of_host hhost] at hplatform
  cases hplatform

end Rules

namespace Scan

variable {w : UInt32} {modules : List ModuleName} {K : Nat → Prop} {s s' : Scan}
variable {naming naming' : Naming}
variable {rules earlier later : List ClassRule} {owner : ClassDecl}

/-- A blind rule keeps classes akin, if there is room in the scan that gets to it. -/
theorem akin_applyRule {rule : ClassRule} (hrules : rules = earlier ++ rule :: later)
    (hroom : ∀ i, K i → LeavesRoom naming rules owner i)
    (hrule : (Style.blind w modules).ClassRule rule)
    (h : (ofClass naming earlier owner).1.owner.Akin w K s'.owner) :
    ((ofClass naming earlier owner).1.applyRule naming rule).1.owner.Akin w K
      (s'.applyRule naming' rule).1.owner := by
  have hsame := ClassRule.fires_eq hrule h.scaled
  cases hfires : rule.fires (ofClass naming earlier owner).1.owner with
  | false =>
    rw [applyRule_of_not_fires hfires, applyRule_of_not_fires (hsame.trans hfires)]
    exact h
  | true =>
    have hbound : rule.bound s'.owner = rule.bound (ofClass naming earlier owner).1.owner := by
      rw [← ClassRule.zip_bindings, ← ClassRule.zip_bindings, ClassRule.bindings_eq hrule h.scaled]
    rw [applyRule_of_fires hfires, applyRule_of_fires (hsame.trans hfires), hbound]
    have hblind : ∀ entry ∈ rule.bound (ofClass naming earlier owner).1.owner,
        (Style.blind w modules).MethodRule entry.1 := by
      intro entry hentry
      obtain ⟨method, hmethod, rfl⟩ := List.mem_map.1 hentry
      exact hrule.methods method hmethod
    refine akin_applyMethods hblind h ?_
    · -- each method rule gets a turn in the scan, at which there is room
      intro before entry after hsplit i m b hplace hi hm hb
      obtain ⟨methods, rest, hmethods, rfl, hrest⟩ := List.map_eq_append_iff.1 hsplit
      obtain ⟨method, others, rfl, rfl, -⟩ := List.map_eq_cons_iff.1 hrest
      let t : Turn rules := ⟨earlier, rule, later, hrules, methods, method, others, hmethods⟩
      exact hroom i hplace t m b ⟨hfires, hi, hb, hm⟩

theorem applyRules_of_not_fires (h : ∀ rule ∈ rules, rule.fires s.owner = false) :
    (s.applyRules naming rules).1 = s := by
  induction rules with
  | nil => rfl
  | cons rule rules ih =>
    rw [applyRules_cons, applyRule_of_not_fires (h rule List.mem_cons_self)]
    exact ih fun rule hrule => h rule (List.mem_cons_of_mem _ hrule)

/-- In a class of the application all later rules may be blind, or about other classes. -/
theorem akin_applyRules (naming' : Naming) (hrules : rules = earlier ++ later)
    (hroom : ∀ i, K i → LeavesRoom naming rules owner i)
    (hlater : ∀ rule ∈ later, (Style.blind w modules).ClassRule rule ∨
      ClassClause.platform ∈ rule.pattern.clauses)
    (hhost : ClassClause.host.holds owner = true)
    (h : (ofClass naming earlier owner).1.owner.Akin w K s'.owner) :
    (ofClass naming rules owner).1.owner.Akin w K (s'.applyRules naming' later).1.owner := by
  -- what is kept along the rules: the classes are akin
  induction later generalizing earlier s' with
  | nil =>
    rw [hrules, List.append_nil]
    exact h
  | cons rule later ih =>
    have hnext : (ofClass naming (earlier ++ [rule]) owner).1 =
        ((ofClass naming earlier owner).1.applyRule naming rule).1 := applyRules_append ..
    have hsplit : rules = (earlier ++ [rule]) ++ later := by
      rw [hrules, List.append_assoc, List.singleton_append]
    rw [applyRules_cons]
    refine ih hsplit
      (fun rule hrule => hlater rule (List.mem_cons_of_mem _ hrule)) ?_
    rw [hnext]
    rcases hlater rule List.mem_cons_self with hblind | hplatform
    · exact akin_applyRule hrules hroom hblind h
    · -- neither class has changed its name, so both still belong to the application
      have hstill : ClassClause.host.holds (ofClass naming earlier owner).1.owner = true := by
        rw [← hhost]
        simp only [ClassClause.holds, ClassClause.host, ClassClause.within, ofClass,
          name_applyRules, start]
      have hstill' : ClassClause.host.holds s'.owner = true := by
        rw [← hstill]
        exact ClassClause.blind_host _ _ h.scaled
      rw [applyRule_of_not_fires (ClassRule.fires_eq_false hstill hplatform),
        applyRule_of_not_fires (ClassRule.fires_eq_false hstill' hplatform)]
      exact h

end Scan

end ClassEdit
