import Mathlib.Data.List.Forall2
import ClassEdit.Proofs.Turns

/-!
# Scans of one class side by side

What a scan does to a class depends on the class and on the rules, and not on what was written down
before. So two scans that stand at the same class stay at the same class, whatever is in their lists
of failures and events: blocks come to the same end in both, and the same is added to both lists.
The one thing that may differ is which label a failure names, where a fragment leaves several labels
without a place.

## Main definitions

* `EditError.Alike`, `Failure.Alike`, `Event.Alike`: the same, up to the label that is named.
* `Scan.Parallel`: scans that stand at the same class.
* `Scan.Extends`: relations between lists that stay true when both scans add to them.
* `Scan.Alike`: scans that differ in the labels that are named, and in nothing else.
* `EditError.Definite`, `Block.Definite`, `ClassRule.Definite`: no choice which label is named.

## Main results

* `Scan.Parallel.applyRules`: parallel scans stay parallel.
* `Scan.ofClass_alike`: scans of the same class with the same rules are alike.
* `Scan.owner_ofClass_eq`: they leave the same class.
* `Scan.applyRules_eq_of_definite`: without a choice they are the same.
-/

namespace ClassEdit

/-! ### The same up to a label -/

/-- The same refusal, reported with two picks that are related: where a fragment leaves several
labels without a place, each report names the label that was picked for it. -/
def EditError.Alike (R : Nat → Nat → Prop) (e e' : EditError) : Prop :=
  ∃ (refusal : EditError) (pick pick' : Nat), R pick pick' ∧ e = refusal.named pick ∧
    e' = refusal.named pick'

/-- The same failure, up to the label that is named. -/
structure Failure.Alike (R : Nat → Nat → Prop) (f f' : Failure) : Prop where
  registration_eq : f.registration = f'.registration
  method_eq : f.method = f'.method
  error : f.error.Alike R f'.error

/-- The same event, or events that tell of the same failure. -/
inductive Event.Alike (R : Nat → Nat → Prop) : Event → Event → Prop
  | same (e : Event) : Alike R e e
  | failed {event : Event} (hkind : event.kind = .transformFailed) {e e' : EditError}
      (herror : e.Alike R e') : Alike R (event.saying e.message) (event.saying e'.message)

section Alike

variable {R : Nat → Nat → Prop} {e e' : EditError} {f f' : Failure} {event event' : Event}

theorem EditError.alike_eq_iff : e.Alike (· = ·) e' ↔ ∃ refusal pick,
    e = EditError.named pick refusal ∧ e' = e := by
  constructor
  · rintro ⟨refusal, pick, _, rfl, rfl, rfl⟩
    exact ⟨refusal, pick, rfl, rfl⟩
  · rintro ⟨refusal, pick, rfl, rfl⟩
    exact ⟨refusal, pick, pick, rfl, rfl, rfl⟩

theorem EditError.Alike.eq (h : e.Alike (· = ·) e') : e = e' := by
  obtain ⟨refusal, pick, -, rfl⟩ := alike_eq_iff.1 h
  rfl

theorem Failure.Alike.eq (h : f.Alike (· = ·) f') : f = f' := by
  obtain ⟨registration, method, error⟩ := f
  obtain ⟨registration', method', error'⟩ := f'
  obtain ⟨rfl, rfl, herror⟩ := h
  exact congrArg (Failure.mk registration method) herror.eq

theorem Event.Alike.eq (h : event.Alike (· = ·) event') : event = event' := by
  cases h with
  | same => rfl
  | failed _ herror => rw [herror.eq]

theorem forall₂_alike_refl (events : List Event) : List.Forall₂ (Event.Alike R) events events :=
  List.forall₂_same.2 fun event _ => .same event

end Alike

namespace Scan

/-! ### Parallel scans -/

/-- Scans that stand at the same class and have reported the same, apart from the lists of failures
and events, which are related somehow. -/
structure Parallel (F : List Failure → List Failure → Prop) (E : List Event → List Event → Prop)
    (s s' : Scan) : Prop where
  owner_eq : s.owner = s'.owner
  className_eq : s.report.className = s'.report.className
  matched_eq : s.report.matched = s'.report.matched
  transformed_eq : s.report.transformed = s'.report.transformed
  computeFrames_eq : s.report.computeFrames = s'.report.computeFrames
  failures : F s.report.failures s'.report.failures
  events : E s.report.journal.events s'.report.journal.events

/-- Lists that are related stay related when both scans add the same to them, up to the labels that
are named, and the picks of the next labels are related. -/
structure Extends (R : Nat → Nat → Prop) (naming naming' : Naming)
    (F : List Failure → List Failure → Prop) (E : List Event → List Event → Prop) : Prop where
  picks : ∀ fs fs', F fs fs' → R (naming fs.length) (naming' fs'.length)
  failures : ∀ fs fs' f f', F fs fs' → f.Alike R f' → F (fs ++ [f]) (fs' ++ [f'])
  events : ∀ es es' new new', E es es' → List.Forall₂ (Event.Alike R) new new' →
    E (es ++ new) (es' ++ new')

section Parallel

variable {R : Nat → Nat → Prop} {naming naming' : Naming}
variable {F : List Failure → List Failure → Prop} {E : List Event → List Event → Prop}
variable {s s' : Scan}

theorem Parallel.event_eq (h : Parallel F E s s') (kind : EventKind) (registration : String) :
    s.event kind registration = s'.event kind registration := by
  rw [Scan.event, h.owner_eq, Scan.event]

variable (hgrow : Extends R naming naming' F E)

include hgrow

/-- An event written down in both scans. -/
theorem Parallel.record (h : Parallel F E s s') (e : Event) :
    Parallel F E { s with report := s.report.record e } { s' with report := s'.report.record e } :=
  { h with events := hgrow.events _ _ _ _ h.events (forall₂_alike_refl [e]) }

theorem Parallel.fired (h : Parallel F E s s') (rule : ClassRule) :
    Parallel F E (s.fired rule) (s'.fired rule) := by
  have hrecord := h.record hgrow (s.event .classMatched rule.label)
  refine { hrecord with matched_eq := ?_, events := ?_ }
  · simp [Scan.fired, Report.record, h.matched_eq]
  · simpa only [Scan.fired, h.event_eq] using hrecord.events

theorem Parallel.reached (h : Parallel F E s s') (label : String) (m : MethodDecl) :
    Parallel F E (s.reached label m) (s'.reached label m) := by
  rw [Scan.reached, Scan.reached, h.event_eq]
  exact h.record hgrow _

/-- A block finds the same class and the same method in both scans, so it comes to the same end. -/
theorem Parallel.applyBlock (h : Parallel F E s s') (label : String) (i : Nat) (m : MethodDecl)
    (b : Block) :
    Parallel F E (s.applyBlock naming label i m b) (s'.applyBlock naming' label i m b) := by
  unfold Scan.applyBlock
  rw [← h.owner_eq, ← h.event_eq]
  -- with one class and one name in the events, the block does the same in both scans
  split
  · rename_i edited outcome _
    have hevents := hgrow.events _ _ _ _ h.events
      (forall₂_alike_refl (b.events s.owner m label outcome))
    dsimp only
    split
    · refine ⟨rfl, h.className_eq, h.matched_eq, ?_, ?_, h.failures, hevents⟩
      · simp [Report.edited, h.transformed_eq]
      · simp [Report.edited, h.computeFrames_eq]
    · exact { h with owner_eq := rfl, events := hevents }
  · rename_i refusal _
    -- the failures are those of one refusal, and may name different labels of it
    have herror : EditError.Alike R (refusal.named (naming s.report.failures.length))
        (refusal.named (naming' s'.report.failures.length)) :=
      ⟨refusal, _, _, hgrow.picks _ _ h.failures, rfl, rfl⟩
    have hevent : Event.Alike R (s.failureEvent label m (refusal.named _))
        (s.failureEvent label m (refusal.named _)) := .failed rfl herror
    exact { h with
      owner_eq := rfl
      failures := hgrow.failures _ _ _ _ h.failures ⟨rfl, rfl, herror⟩
      events := hgrow.events _ _ _ _ h.events (.cons hevent .nil) }

theorem Parallel.applyMethod (h : Parallel F E s s') (rule : MethodRule) (binding : Option Nat) :
    Parallel F E (s.applyMethod naming rule binding) (s'.applyMethod naming' rule binding) := by
  -- with one and the same class, both scans look the same method up
  obtain ⟨owner, report⟩ := s
  obtain ⟨owner', report'⟩ := s'
  obtain rfl : owner = owner' := h.owner_eq
  unfold Scan.applyMethod
  dsimp only
  split
  · exact h.record hgrow _
  · split
    · exact h.reached hgrow _ _
    · exact (h.reached hgrow _ _).applyBlock hgrow _ _ _ _

theorem Parallel.applyMethods (h : Parallel F E s s') (bound : List (MethodRule × Option Nat)) :
    Parallel F E (s.applyMethods naming bound) (s'.applyMethods naming' bound) := by
  induction bound generalizing s s' with
  | nil => exact h
  | cons entry bound ih => exact ih (h.applyMethod hgrow entry.1 entry.2)

/-- A rule fires in both scans or in none, and binds the same methods. -/
theorem Parallel.applyRule (h : Parallel F E s s') (rule : ClassRule) :
    Parallel F E (s.applyRule naming rule).1 (s'.applyRule naming' rule).1 ∧
      (s.applyRule naming rule).2 = (s'.applyRule naming' rule).2 := by
  cases hfires : rule.fires s.owner with
  | false =>
    rw [applyRule_of_not_fires hfires, applyRule_of_not_fires (h.owner_eq ▸ hfires)]
    exact ⟨h, rfl⟩
  | true =>
    rw [applyRule_of_fires hfires, applyRule_of_fires (h.owner_eq ▸ hfires), ← h.owner_eq]
    exact ⟨(h.fired hgrow rule).applyMethods hgrow _, rfl⟩

/-- Parallel scans go on side by side, and tell the same about the rules. -/
theorem Parallel.applyRules (h : Parallel F E s s') (rules : List ClassRule) :
    Parallel F E (s.applyRules naming rules).1 (s'.applyRules naming' rules).1 ∧
      (s.applyRules naming rules).2 = (s'.applyRules naming' rules).2 := by
  induction rules generalizing s s' with
  | nil => exact ⟨h, rfl⟩
  | cons rule rules ih =>
    obtain ⟨hrule, hfiring⟩ := h.applyRule hgrow rule
    obtain ⟨hrules, hfirings⟩ := ih hrule
    exact ⟨hrules, by rw [firings_cons, firings_cons, hfiring, hfirings]⟩

end Parallel

/-! ### Scans that name other labels -/

/-- Scans that differ at most in the labels that their failures name. -/
abbrev Alike (R : Nat → Nat → Prop) (s s' : Scan) : Prop :=
  Parallel (List.Forall₂ (Failure.Alike R)) (List.Forall₂ (Event.Alike R)) s s'

section Naming

variable {R : Nat → Nat → Prop} {naming naming' : Naming} {s s' : Scan} {rules : List ClassRule}
variable {owner : ClassDecl}

theorem extends_forall₂ (hpicks : ∀ n, R (naming n) (naming' n)) :
    Extends R naming naming' (List.Forall₂ (Failure.Alike R)) (List.Forall₂ (Event.Alike R)) where
  picks _ _ h := h.length_eq ▸ hpicks _
  failures _ _ _ _ h hf := List.rel_append h (.cons hf .nil)
  events _ _ _ _ h hnew := List.rel_append h hnew

/-- Scans that name the same labels are the same. -/
theorem Alike.eq (h : Alike (· = ·) s s') : s = s' := by
  obtain ⟨owner, ⟨className, matched, transformed, failures, ⟨events⟩, computeFrames⟩⟩ := s
  obtain ⟨owner', ⟨className', matched', transformed', failures', ⟨events'⟩, computeFrames'⟩⟩ := s'
  obtain ⟨rfl, rfl, rfl, rfl, rfl, hfailures, hevents⟩ := h
  obtain rfl : failures = failures' := by
    rw [← List.forall₂_eq_eq_eq]
    exact hfailures.imp fun _ _ hf => hf.eq
  obtain rfl : events = events' := by
    rw [← List.forall₂_eq_eq_eq]
    exact hevents.imp fun _ _ he => he.eq
  rfl

/-- Scans of a class with the same rules are alike and tell the same about the rules, whatever
labels they name. -/
theorem ofClass_alike (hpicks : ∀ n, R (naming n) (naming' n)) (rules : List ClassRule)
    (owner : ClassDecl) : Alike R (ofClass naming rules owner).1 (ofClass naming' rules owner).1 ∧
      (ofClass naming rules owner).2 = (ofClass naming' rules owner).2 :=
  Parallel.applyRules (extends_forall₂ hpicks) ⟨rfl, rfl, rfl, rfl, rfl, .nil, .nil⟩ rules

/-- What becomes of a class does not depend on the labels that failures name. -/
theorem owner_ofClass_eq (naming naming' : Naming) (rules : List ClassRule) (owner : ClassDecl) :
    (ofClass naming rules owner).1.owner = (ofClass naming' rules owner).1.owner :=
  (ofClass_alike (R := fun _ _ => True) (fun _ => trivial) rules owner).1.owner_eq

end Naming

end Scan

/-! ### Refusals that leave no choice -/

/-- If the refusal is about labels without a place, there is only one. -/
def EditError.Definite (e : EditError) : Prop :=
  ∀ label others, e = .malformed (.neverPlaced label others) → others = []

theorem EditError.Definite.named_eq {e : EditError} (h : e.Definite) (pick : Nat) :
    e.named pick = e := by
  unfold named
  split
  · rename_i label others
    obtain rfl := h label others rfl
    cases pick <;> rfl
  · rfl

/-- However the block fails, it leaves no choice which label is named. -/
def Block.Definite (b : Block) : Prop :=
  ∀ owner m registration e, b.run owner m registration = .error e → e.Definite

/-- No block of the rule leaves a choice which label is named. -/
def ClassRule.Definite (r : ClassRule) : Prop :=
  ∀ m ∈ r.methods, ∀ b, m.block = some b → b.Definite

namespace Scan

theorem applyBlock_eq_of_definite {b : Block} (h : b.Definite) (naming naming' : Naming) (s : Scan)
    (label : String) (i : Nat) (m : MethodDecl) :
    s.applyBlock naming label i m b = s.applyBlock naming' label i m b := by
  obtain ⟨e, hrun, heq⟩ | ⟨edited, outcome, hrun, -⟩ := s.applyBlock_cases naming label i m b
  · have hnamed (pick : Nat) : e.named pick = e := (h _ _ _ _ hrun).named_eq pick
    rw [heq, applyBlock_of_error hrun, told, told, hnamed, hnamed]
  · rw [applyBlock, applyBlock, hrun]

theorem applyMethod_eq_of_definite {rule : MethodRule} (h : ∀ b, rule.block = some b → b.Definite)
    (naming naming' : Naming) (s : Scan) (binding : Option Nat) :
    s.applyMethod naming rule binding = s.applyMethod naming' rule binding := by
  unfold applyMethod
  split
  · rfl
  · dsimp only
    split
    · rfl
    · rename_i b hblock
      exact applyBlock_eq_of_definite (h b hblock) naming naming' _ _ _ _

theorem applyMethods_eq_of_definite {rule : ClassRule} (h : rule.Definite)
    {bound : List (MethodRule × Option Nat)} (hbound : ∀ entry ∈ bound, entry.1 ∈ rule.methods)
    (naming naming' : Naming) (s : Scan) :
    s.applyMethods naming bound = s.applyMethods naming' bound := by
  induction bound generalizing s with
  | nil => rfl
  | cons entry bound ih =>
    rw [List.forall_mem_cons] at hbound
    have hfirst := applyMethod_eq_of_definite (h entry.1 hbound.1) naming naming' s entry.2
    rw [applyMethods, applyMethods, hfirst]
    exact ih hbound.2 _

theorem applyRule_eq_of_definite {rule : ClassRule} (h : rule.Definite) (naming naming' : Naming)
    (s : Scan) : s.applyRule naming rule = s.applyRule naming' rule := by
  have hbound : ∀ entry ∈ rule.bound s.owner, entry.1 ∈ rule.methods := by
    intro entry hentry
    obtain ⟨m, hm, rfl⟩ := List.mem_map.1 hentry
    exact hm
  cases hfires : rule.fires s.owner with
  | false => rw [applyRule_of_not_fires hfires, applyRule_of_not_fires hfires]
  | true =>
    rw [applyRule_of_fires hfires, applyRule_of_fires hfires,
      applyMethods_eq_of_definite h hbound naming naming']

/-- If no block leaves a choice which label is named, scans of a class with the same rules are the
same. -/
theorem applyRules_eq_of_definite {rules : List ClassRule} (h : ∀ rule ∈ rules, rule.Definite)
    (naming naming' : Naming) (s : Scan) :
    s.applyRules naming rules = s.applyRules naming' rules := by
  induction rules generalizing s with
  | nil => rfl
  | cons rule rules ih =>
    rw [List.forall_mem_cons] at h
    rw [applyRules, applyRules, applyRule_eq_of_definite h.1 naming naming']
    dsimp only
    rw [ih h.2]

end Scan

end ClassEdit
