import Mathlib.Algebra.GroupWithZero.Nat
import Mathlib.Data.List.Forall2
import Mathlib.Logic.Relation
import ClassEdit.Proofs.Counting

/-!
# Scans at the same time

The classes of a batch are scanned at the same time. Each scan has a class and a report of its own,
and it holds its class until it is done, so that no other scan takes up a class of this name. What
the scans share are the counters, and these are raised one by one, while other scans raise theirs.

Whatever the order is, the outcome is that of scans one after the other. The class and the report of
a scan do not depend on the counters at all, and it makes no difference to the counters in which
order they are raised. So at any moment the batch is on its way to the same outcome: what each scan
will come to, and what the counters will be when everything that is due is counted, are the same
after each step as before.

## Main definitions

* `Tick`, `Session.tick`: one counter is raised.
* `Job`, `Batch`, `Batch.Step`: scans under way, and what may happen next.
* `Batch.Exclusive`: no two scans hold classes of one name.
* `Batch.outcomes`, `Batch.settled`: what a batch is on its way to.

## Main results

* `Session.tick_comm`: counters may be raised in any order.
* `Batch.Step.outcomes_eq`, `Batch.Step.settled_eq`: no step changes what a batch comes to.
* `Batch.exists_finished`: every batch can be finished.
* `Batch.eq_of_finished`: a finished batch has come to what scans one after the other come to.
-/

namespace ClassEdit

/-! ### Counters -/

/-- The raising of a counter: that of the scans, or in the place of a rule either its own or that of
one of its method rules. -/
inductive Tick where
  | scanned
  | matched (place : Nat) (method : Option Nat)
deriving DecidableEq

/-- Raises the count of the rule, or of one of its method rules. -/
def RuleCount.tick (count : RuleCount) : Option Nat → RuleCount
  | none => { count with fired := count.fired + 1 }
  | some index => { count with bound := count.bound.modify index (· + 1) }

/-- Entries may be modified in any order, by functions that do not interfere. -/
theorem modify_comm {α : Type} {f g : α → α} (hcomm : ∀ a, g (f a) = f (g a)) (as : List α)
    (i j : Nat) : (as.modify i f).modify j g = (as.modify j g).modify i f := by
  by_cases hij : i = j
  · subst hij
    rw [List.modify_modify_eq, List.modify_modify_eq]
    exact congrArg (as.modify i) (funext hcomm)
  · exact List.modify_modify_ne f g as hij

theorem RuleCount.tick_comm (count : RuleCount) (a b : Option Nat) :
    (count.tick a).tick b = (count.tick b).tick a := by
  cases a with
  | none => cases b <;> rfl
  | some i =>
    cases b with
    | none => rfl
    | some j =>
      exact congrArg (RuleCount.mk count.fired) (modify_comm (fun _ => rfl) count.bound i j)

namespace Session

/-- Raises a counter. -/
def tick (s : Session) : Tick → Session
  | .scanned => { s with scanned := s.scanned + 1 }
  | .matched place method =>
    { s with counts := s.counts.modify place fun count => count.tick method }

/-- It makes no difference which of two counters is raised first. -/
theorem tick_comm (s : Session) (a b : Tick) : (s.tick a).tick b = (s.tick b).tick a := by
  cases a with
  | scanned => cases b <;> rfl
  | matched place method =>
    cases b with
    | scanned => rfl
    | matched place' method' =>
      exact congrArg (Session.mk s.ruleSet s.naming s.scanned)
        (modify_comm (fun count => count.tick_comm method method') s.counts place place')

theorem foldl_tick_perm {ticks others : List Tick} (h : ticks.Perm others) (s : Session) :
    ticks.foldl tick s = others.foldl tick s :=
  h.foldl_eq' (fun a _ b _ s => s.tick_comm a b) s

@[simp] theorem ruleSet_tick (s : Session) (t : Tick) : (s.tick t).ruleSet = s.ruleSet := by
  cases t <;> rfl

end Session

/-- The counters that a rule raises when it has had its turn. -/
def Firing.ticks (place : Nat) : Firing → List Tick
  | none => []
  | some bound => .matched place none ::
      (bound.zipIdx.filter Prod.fst).map fun entry => .matched place (some entry.2)

/-- The counters that are raised by rules that have yet to have their turn. -/
def Scan.dueTicks (s : Scan) (naming : Naming) : List (ClassRule × Nat) → List Tick
  | [] => []
  | (rule, place) :: rest =>
    (s.applyRule naming rule).2.ticks place ++ (s.applyRule naming rule).1.dueTicks naming rest

theorem Scan.length_of_applyRule {s : Scan} {naming : Naming} {rule : ClassRule}
    {bound : List Bool} (h : (s.applyRule naming rule).2 = some bound) :
    bound.length = rule.methods.length := by
  cases hfires : rule.fires s.owner with
  | false =>
    rw [applyRule_of_not_fires hfires] at h
    cases h
  | true =>
    rw [applyRule_of_fires hfires] at h
    cases h
    rw [List.length_map, ClassRule.bindings, List.length_map]

theorem foldl_modify_zipIdx (before counts : List Nat) {bound : List Bool}
    (hlength : counts.length = bound.length) :
    ((bound.zipIdx before.length).filter Prod.fst).foldl
        (fun counts entry => counts.modify entry.2 (· + 1)) (before ++ counts) =
      before ++ counts.zipWith (fun n (b : Bool) => n + b.toNat) bound := by
  induction bound generalizing before counts with
  | nil =>
    obtain rfl : counts = [] := List.eq_nil_of_length_eq_zero hlength
    rfl
  | cons b bound ih =>
    obtain ⟨n, counts, rfl⟩ := List.exists_cons_of_length_eq_add_one hlength
    -- the first count joins those that have been seen to
    have hrest := ih (before ++ [n + b.toNat]) counts (Nat.succ.inj hlength)
    rw [List.length_append, List.length_singleton, List.append_assoc, List.append_assoc] at hrest
    rw [List.zipIdx_cons]
    cases b with
    | false => exact hrest
    | true =>
      rw [List.filter_cons_of_pos rfl, List.foldl_cons, modify_length_append]
      exact hrest

namespace Session

variable {s : Session}

/-- Counters of method rules in one place. -/
theorem foldl_tick_matched (s : Session) (place : Nat) (entries : List (Bool × Nat)) :
    (entries.map fun entry => Tick.matched place (some entry.2)).foldl tick s =
      { s with counts := s.counts.modify place fun count => { count with
          bound := entries.foldl (fun counts entry => counts.modify entry.2 (· + 1))
            count.bound } } := by
  induction entries generalizing s with
  | nil => exact congrArg (Session.mk s.ruleSet s.naming s.scanned) (List.modify_id _ _).symm
  | cons entry entries ih =>
    rw [List.map_cons, List.foldl_cons, ih]
    exact congrArg (Session.mk s.ruleSet s.naming s.scanned) (List.modify_modify_eq ..)

/-- The counters of a rule, one by one, raise its counts all at once. -/
theorem foldl_tick_ticks {before later : List RuleCount} {count : RuleCount}
    (hcounts : s.counts = before ++ count :: later) {firing : Firing}
    (hlength : ∀ bound, firing = some bound → count.bound.length = bound.length) :
    (firing.ticks before.length).foldl tick s = s.told before.length firing := by
  cases firing with
  | none => exact (s.told_none before.length).symm
  | some bound =>
    have hbound := foldl_modify_zipIdx [] count.bound (hlength bound rfl)
    rw [Firing.ticks, List.foldl_cons, foldl_tick_matched]
    -- all of these counters are in the same place
    refine congrArg (Session.mk s.ruleSet s.naming s.scanned) ?_
    simp only [tick, hcounts, modify_length_append, RuleCount.tick, RuleCount.add]
    rw [show bound.zipIdx = bound.zipIdx ([] : List Nat).length from rfl]
    exact congrArg (fun bound => before ++ ⟨count.fired + 1, bound⟩ :: later) hbound

end Session

/-! ### Jobs -/

/-- One scan of a batch, with the labels that its failures name. -/
inductive Job where
  | waiting (owner : ClassDecl) (naming : Naming)
  /-- Some rules have yet to have their turn, and some counters have yet to be raised. -/
  | working (scan : Scan) (naming : Naming) (rules : List (ClassRule × Nat)) (pending : List Tick)
  | finished (scan : Scan)

namespace Job

/-- The job holds the class of this name. -/
def Holds (name : String) : Job → Prop
  | working scan _ _ _ => scan.owner.name = name
  | _ => False

/-- What the scan comes to. -/
def outcome (ruleSet : RuleSet) : Job → Scan
  | waiting owner naming => (Scan.ofClass naming ruleSet.rules owner).1
  | working scan naming rules _ => (scan.applyRules naming (rules.map Prod.fst)).1
  | finished scan => scan

/-- The counters that the scan has yet to raise. -/
def due (ruleSet : RuleSet) : Job → List Tick
  | waiting owner naming => .scanned :: (Scan.start owner).dueTicks naming ruleSet.rules.zipIdx
  | working scan naming rules pending => pending ++ scan.dueTicks naming rules
  | finished _ => []

/-- How many steps the scan has yet to take. -/
def work (ruleSet : RuleSet) (job : Job) : Nat :=
  (job.due ruleSet).length +
    match job with
    | waiting _ _ => ruleSet.rules.length + 2
    | working _ _ rules _ => rules.length + 1
    | finished _ => 0

end Job

/-- Scans under way, and the counters that they share. -/
structure Batch where
  session : Session
  jobs : List Job

namespace Batch

/-- A batch of classes before anything has happened. -/
def start (session : Session) (entries : List (ClassDecl × Naming)) : Batch :=
  ⟨session, entries.map fun entry => .waiting entry.1 entry.2⟩

/-- What may happen next in a batch: a scan begins if no other one holds a class of the same name,
the next counter of a scan is raised, the next rule has its turn, or a scan ends. The turn of a rule
is one step, since it touches nothing that other scans see but the counters, which are raised one by
one after it. -/
inductive Step : Batch → Batch → Prop
  | begins (session : Session) (before after : List Job) (owner : ClassDecl) (naming : Naming)
      (hfree : ∀ job ∈ before ++ after, ¬ job.Holds owner.name) :
      Step ⟨session, before ++ .waiting owner naming :: after⟩
        ⟨session, before ++
          .working (.start owner) naming session.ruleSet.rules.zipIdx [.scanned] :: after⟩
  | counts (session : Session) (before after : List Job) (scan : Scan) (naming : Naming)
      (rules : List (ClassRule × Nat)) (tick : Tick) (pending : List Tick) :
      Step ⟨session, before ++ .working scan naming rules (tick :: pending) :: after⟩
        ⟨session.tick tick, before ++ .working scan naming rules pending :: after⟩
  | turns (session : Session) (before after : List Job) (scan : Scan) (naming : Naming)
      (rule : ClassRule) (place : Nat) (rules : List (ClassRule × Nat)) :
      Step ⟨session, before ++ .working scan naming ((rule, place) :: rules) [] :: after⟩
        ⟨session, before ++ .working (scan.applyRule naming rule).1 naming rules
          ((scan.applyRule naming rule).2.ticks place) :: after⟩
  | ends (session : Session) (before after : List Job) (scan : Scan) (naming : Naming) :
      Step ⟨session, before ++ .working scan naming [] [] :: after⟩
        ⟨session, before ++ .finished scan :: after⟩

/-- All that may happen in a batch, step by step. -/
abbrev Runs : Batch → Batch → Prop := Relation.ReflTransGen Step

/-- No two scans hold classes of one name. -/
def Exclusive (b : Batch) : Prop :=
  b.jobs.Pairwise fun job other => ∀ name, job.Holds name → ¬ other.Holds name

/-- All scans are done. -/
def Finished (b : Batch) : Prop := ∀ job ∈ b.jobs, ∃ scan, job = .finished scan

/-- What the scans come to. -/
def outcomes (b : Batch) : List Scan := b.jobs.map (Job.outcome b.session.ruleSet)

/-- The counters when all that is due is counted. -/
def settled (b : Batch) : Session :=
  (b.jobs.flatMap (Job.due b.session.ruleSet)).foldl Session.tick b.session

/-- How many steps the batch has yet to take. -/
def work (b : Batch) : Nat := (b.jobs.map (Job.work b.session.ruleSet)).sum

variable {b b' : Batch}

theorem Step.ruleSet_eq (h : Step b b') : b'.session.ruleSet = b.session.ruleSet := by
  cases h with
  | counts session before after scan naming rules tick pending => exact session.ruleSet_tick tick
  | _ => rfl

/-- No step changes what the scans come to. -/
theorem Step.outcomes_eq (h : Step b b') : b'.outcomes = b.outcomes := by
  cases h with
  | begins session before after owner naming hfree =>
    simp [outcomes, Job.outcome, Scan.ofClass, List.zipIdx_map_fst]
  | counts session before after scan naming rules tick pending => simp [outcomes, Job.outcome]
  | turns session before after scan naming rule place rules =>
    simp [outcomes, Job.outcome, Scan.applyRules_cons]
  | ends session before after scan naming => simp [outcomes, Job.outcome, Scan.applyRules]

/-- No step changes what the counters come to. -/
theorem Step.settled_eq (h : Step b b') : b'.settled = b.settled := by
  cases h with
  | begins session before after owner naming hfree => simp [settled, Job.due]
  | counts session before after scan naming rules tick pending =>
    -- what is counted now need not wait for what is due before it
    let earlier := before.flatMap (Job.due session.ruleSet)
    let later := pending ++ scan.dueTicks naming rules ++ after.flatMap (Job.due session.ruleSet)
    have hperm : (earlier ++ tick :: later).Perm (tick :: (earlier ++ later)) := List.perm_middle
    simpa [settled, Job.due, earlier, later] using (Session.foldl_tick_perm hperm session).symm
  | turns session before after scan naming rule place rules =>
    simp [settled, Job.due, Scan.dueTicks]
  | ends session before after scan naming => simp [settled, Job.due, Scan.dueTicks]

/-- Every step is one of those that the batch has yet to take. -/
theorem Step.work_eq (h : Step b b') : b.work = b'.work + 1 := by
  cases h with
  | begins session before after owner naming hfree =>
    simp [work, Job.work, Job.due]
    omega
  | counts session before after scan naming rules tick pending =>
    simp [work, Job.work, Job.due]
    omega
  | turns session before after scan naming rule place rules =>
    simp [work, Job.work, Job.due, Scan.dueTicks]
    omega
  | ends session before after scan naming =>
    simp [work, Job.work, Job.due, Scan.dueTicks]
    omega

theorem exclusive_iff {session : Session} {before after : List Job} {job : Job} :
    Exclusive ⟨session, before ++ job :: after⟩ ↔
      (∀ other ∈ before ++ after, ∀ name, job.Holds name → ¬ other.Holds name) ∧
        Exclusive ⟨session, before ++ after⟩ :=
  (List.pairwise_middle fun h name hother hjob => h name hjob hother).trans List.pairwise_cons

/-- A scan takes up a class only if no other one holds it, and then it holds no other. -/
theorem Step.exclusive (h : Step b b') (hb : b.Exclusive) : b'.Exclusive := by
  cases h with
  | begins session before after owner naming hfree =>
    rw [exclusive_iff] at hb ⊢
    exact ⟨fun other hother name hname => hname ▸ hfree other hother, hb.2⟩
  | counts session before after scan naming rules tick pending =>
    rw [exclusive_iff] at hb ⊢
    exact hb
  | turns session before after scan naming rule place rules =>
    rw [exclusive_iff] at hb ⊢
    exact ⟨fun other hother name hname =>
      hb.1 other hother name ((scan.name_applyRule naming rule).symm.trans hname), hb.2⟩
  | ends session before after scan naming =>
    rw [exclusive_iff] at hb ⊢
    exact ⟨fun _ _ _ hname => hname.elim, hb.2⟩

/-- Nothing keeps a batch from going on. -/
theorem exists_step (h : ¬ b.Finished) : ∃ b', Step b b' := by
  obtain ⟨session, jobs⟩ := b
  by_cases hworking : ∃ scan naming rules pending, Job.working scan naming rules pending ∈ jobs
  · -- a scan that has begun can always go on
    obtain ⟨scan, naming, rules, pending, hmem⟩ := hworking
    obtain ⟨before, after, rfl⟩ := List.append_of_mem hmem
    cases pending with
    | cons tick pending => exact ⟨_, .counts session before after scan naming rules tick pending⟩
    | nil =>
      cases rules with
      | cons entry rules =>
        exact ⟨_, .turns session before after scan naming entry.1 entry.2 rules⟩
      | nil => exact ⟨_, .ends session before after scan naming⟩
  · -- and if none has begun, no class is held
    have hunfinished : ∃ job ∈ jobs, ∀ scan, job ≠ .finished scan := by
      simpa [Finished] using h
    obtain ⟨job, hmem, hother⟩ := hunfinished
    obtain ⟨before, after, rfl⟩ := List.append_of_mem hmem
    cases job with
    | finished scan => exact absurd rfl (hother scan)
    | working scan naming rules pending =>
      exact absurd ⟨scan, naming, rules, pending, hmem⟩ hworking
    | waiting owner naming =>
      refine ⟨_, .begins session before after owner naming fun job hjob hholds => hworking ?_⟩
      cases job with
      | working scan naming rules pending =>
        refine ⟨scan, naming, rules, pending, ?_⟩
        rw [List.mem_append] at hjob ⊢
        exact hjob.imp_right (List.mem_cons_of_mem _)
      | _ => exact hholds.elim

/-- However far a batch has come, it can be finished. Nor can it go on for ever, since every step is
one of those that it has yet to take. -/
theorem exists_finished (b : Batch) : ∃ b', Runs b b' ∧ b'.Finished := by
  induction hwork : b.work using Nat.strong_induction_on generalizing b with
  | _ n ih =>
    by_cases hfinished : b.Finished
    · exact ⟨b, .refl, hfinished⟩
    · obtain ⟨next, hstep⟩ := exists_step hfinished
      have hless : next.work < n := by
        rw [← hwork, hstep.work_eq]
        exact Nat.lt_succ_self _
      obtain ⟨b', hruns, hfinished'⟩ := ih next.work hless next rfl
      exact ⟨b', .head hstep hruns, hfinished'⟩

/-- No run changes what a batch comes to. -/
theorem Runs.comes_to (h : Runs b b') : b'.session.ruleSet = b.session.ruleSet ∧
    b'.outcomes = b.outcomes ∧ b'.settled = b.settled := by
  induction h with
  | refl => exact ⟨rfl, rfl, rfl⟩
  | tail _ hstep ih =>
    exact ⟨hstep.ruleSet_eq.trans ih.1, hstep.outcomes_eq.trans ih.2.1,
      hstep.settled_eq.trans ih.2.2⟩

theorem Runs.exclusive (h : Runs b b') (hb : b.Exclusive) : b'.Exclusive := by
  induction h with
  | refl => exact hb
  | tail _ hstep ih => exact hstep.exclusive ih

theorem exclusive_start (session : Session) (entries : List (ClassDecl × Naming)) :
    (start session entries).Exclusive := by
  apply List.pairwise_of_forall_mem_list
  intro job hjob other _ name hholds
  obtain ⟨entry, -, rfl⟩ := List.mem_map.1 hjob
  exact hholds.elim

/-- A finished batch has come to all that it was on its way to. -/
theorem Finished.eq (h : b.Finished) :
    b.jobs = b.outcomes.map .finished ∧ b.session = b.settled := by
  obtain ⟨session, jobs⟩ := b
  have hdone (job : Job) (hjob : job ∈ jobs) :
      Job.finished (job.outcome session.ruleSet) = job ∧ job.due session.ruleSet = [] := by
    obtain ⟨scan, rfl⟩ := h job hjob
    exact ⟨rfl, rfl⟩
  constructor
  · rw [outcomes, List.map_map]
    refine (List.map_id jobs).symm.trans (List.map_congr_left fun job hjob => ?_)
    exact (hdone job hjob).1.symm
  · rw [settled, List.flatMap_eq_nil_iff.2 fun job hjob => (hdone job hjob).2]
    rfl

end Batch

/-! ### What a batch starts from -/

namespace Session

variable {ruleSet : RuleSet} {namings : Nat → Naming}

/-- The counters that are due before the rules have had their turns are those that they raise at
their turns. -/
theorem foldl_dueTicks (naming : Naming) (rules : List ClassRule) (state : Scan) (s : Session)
    {before counts : List RuleCount} (hcounts : s.counts = before ++ counts)
    (hfits : List.Forall₂ (fun count rule => count.bound.length = rule.methods.length) counts
      rules) :
    (state.dueTicks naming (rules.zipIdx before.length)).foldl tick s =
      ((rules.zipIdx before.length).foldl (turn naming) (state, s)).2 := by
  induction hfits generalizing state s before with
  | nil => rfl
  | @cons count rule rest rules hlength _ ih =>
    have hfiring (bound : List Bool) (hbound : (state.applyRule naming rule).2 = some bound) :
        count.bound.length = bound.length := hlength.trans (Scan.length_of_applyRule hbound).symm
    have hticks := foldl_tick_ticks hcounts hfiring
    have hrest := ih (state.applyRule naming rule).1 _
      (counts_told hcounts (state.applyRule naming rule).2)
    rw [List.length_append, List.length_singleton] at hrest
    rw [List.zipIdx_cons, Scan.dueTicks, List.foldl_append, hticks, hrest]
    rfl

theorem fits_ofScans (ruleSet : RuleSet) (namings : Nat → Naming) (seen : List ClassDecl) :
    List.Forall₂ (fun count rule => count.bound.length = rule.methods.length)
      (ofScans ruleSet namings seen).counts ruleSet.rules := by
  have hfits (earlier rules : List ClassRule) :
      List.Forall₂ (fun count rule => count.bound.length = rule.methods.length)
        ((ClassRule.inTurn earlier rules).map (RuleCount.ofScans seen)) rules := by
    induction rules generalizing earlier with
    | nil => exact .nil
    | cons rule rules ih => exact .cons (List.length_map _) (ih _)
  exact hfits [] ruleSet.rules

end Session

namespace Batch

/-- What a scan that has not begun has yet to count is one more scan. -/
theorem foldl_due_waiting (ruleSet : RuleSet) (namings : Nat → Naming) (seen : List ClassDecl)
    (owner : ClassDecl) (naming : Naming) :
    ((Job.waiting owner naming).due ruleSet).foldl Session.tick (.ofScans ruleSet namings seen) =
      .ofScans ruleSet namings (seen ++ [owner]) := by
  have hcounts : (Session.ofScans ruleSet namings seen).begun.counts =
      [] ++ (Session.ofScans ruleSet namings seen).counts := rfl
  calc ((Job.waiting owner naming).due ruleSet).foldl Session.tick (.ofScans ruleSet namings seen)
      = (ruleSet.rules.zipIdx.foldl (Session.turn naming)
          (.start owner, (Session.ofScans ruleSet namings seen).begun)).2 :=
        Session.foldl_dueTicks naming ruleSet.rules (.start owner) _ hcounts
          (Session.fits_ofScans ruleSet namings seen)
    _ = .ofScans ruleSet namings (seen ++ [owner]) := by rw [Session.foldl_turn_zipIdx]

/-- A batch starts on its way to what scans one after the other come to. -/
theorem settled_start (ruleSet : RuleSet) (namings : Nat → Naming) (seen : List ClassDecl)
    (entries : List (ClassDecl × Naming)) :
    (start (.ofScans ruleSet namings seen) entries).settled =
      .ofScans ruleSet namings (seen ++ entries.map Prod.fst) := by
  have hjobs (seen : List ClassDecl) :
      (entries.flatMap fun entry => (Job.waiting entry.1 entry.2).due ruleSet).foldl Session.tick
        (.ofScans ruleSet namings seen) =
          .ofScans ruleSet namings (seen ++ entries.map Prod.fst) := by
    induction entries generalizing seen with
    | nil =>
      rw [List.map_nil, List.append_nil]
      rfl
    | cons entry entries ih =>
      rw [List.flatMap_cons, List.foldl_append, foldl_due_waiting, ih, List.append_assoc,
        List.map_cons, List.singleton_append]
  rw [settled, start, List.flatMap_map]
  exact hjobs seen

/-- However a batch goes, when it is finished the scans and the counters are what scans one after
the other come to. -/
theorem eq_of_finished {ruleSet : RuleSet} {namings : Nat → Naming} {seen : List ClassDecl}
    {entries : List (ClassDecl × Naming)}
    (hruns : Runs (start (.ofScans ruleSet namings seen) entries) b) (hfinished : b.Finished) :
    b.jobs = entries.map
        (fun entry => .finished (Scan.ofClass entry.2 ruleSet.rules entry.1).1) ∧
      b.session = .ofScans ruleSet namings (seen ++ entries.map Prod.fst) := by
  obtain ⟨-, houtcomes, hsettled⟩ := hruns.comes_to
  obtain ⟨hjobs, hsession⟩ := hfinished.eq
  constructor
  · rw [hjobs, houtcomes, outcomes, start, List.map_map, List.map_map]
    rfl
  · rw [hsession, hsettled, settled_start]

end Batch

end ClassEdit
