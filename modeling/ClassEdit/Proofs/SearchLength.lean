import ClassEdit.Proofs.Heights
import Mathlib.Algebra.GroupWithZero.Nat

/-!
# How long the search for heights takes

A search takes up one arrival after the other, and every expansion puts new ones before those that
are still pending. That it ends at all follows from its measure, which would allow a long way to the
end. But an instruction is expanded once, and leads at most to the next one and to its targets. So
every instruction has a budget of arrivals, which it spends when it is expanded: one, and one more
for each of its targets. What is pending together with the budgets that are not spent goes down with
each arrival that is taken up, on whatever cycles control runs.

## Main definitions

* `Search.Course`, `MethodDecl.Course`: the states in which a search takes up an arrival, and its
  end.
* `Search.budget`: the number of arrivals that may still be taken up.

## Main results

* `Search.Course.unique`: a search has one course.
* `Search.Invariant.budget_lt`, `Search.Course.length_le`: the budget goes down with each step, so
  it bounds the length of a course.
* `MethodDecl.heights_course`: the search through a method takes a linear number of arrivals, all of
  them in the body, and expands no instruction twice.
-/

namespace ClassEdit

namespace MethodDecl

variable {m : MethodDecl} {index : Nat} {pops : UInt16} {insn : Instruction}

theorem length_of_resolveAll {ls : List Label} {ps : List Nat} (h : m.resolveAll ls = .ok ps) :
    ps.length = ls.length := by
  simpa using (congrArg List.length (resolveAll_eq_ok_iff.1 h)).symm

/-- Control goes at most to the next instruction and to the targets. -/
theorem length_of_successors {ps : List Nat} (h : m.successors index insn pops = .ok ps) :
    ps.length ≤ 1 + insn.targets.length := by
  obtain ⟨-, positions, hpositions, rfl⟩ := successors_eq_ok_iff.1 h
  rw [List.length_append, length_of_resolveAll hpositions]
  cases insn.flow.fallsThrough <;> simp [Nat.add_comm]

theorem length_of_expand {height after : UInt16} {next : List Arrival}
    (h : m.expand index height insn = .ok (next, after)) :
    next.length ≤ 1 + insn.targets.length := by
  obtain ⟨e, ps, -, -, -, hps, rfl⟩ := expand_eq_ok_iff.1 h
  rw [List.length_map]
  exact length_of_successors hps

end MethodDecl

namespace Search

variable {m : MethodDecl} {s s' : Search} {states : List Search}
  {outcome : Except EditError Heights} {i : Nat}

/-! ### The course of a search -/

/-- The states in which a search takes up an arrival, from the first to the last, and how the search
ends. An arrival that is refused was taken up as well. -/
inductive Course (m : MethodDecl) : Search → List Search → Except EditError Heights → Prop
  | finished {s : Search} {result : Heights} (hstep : step m s = .finished result) :
      Course m s [] (.ok result)
  | refused {s : Search} {e : EditError} (hstep : step m s = .refused e) :
      Course m s [s] (.error e)
  | continued {s next : Search} {states : List Search} {outcome : Except EditError Heights}
      (hstep : step m s = .continued next) (hrest : Course m next states outcome) :
      Course m s (s :: states) outcome

/-- A search has a course, which ends as the run does. -/
theorem exists_course (m : MethodDecl) (s : Search) : ∃ states, Course m s states (run m s) := by
  fun_induction run m s with
  | case1 s result hstep => exact ⟨[], .finished hstep⟩
  | case2 s e hstep => exact ⟨[s], .refused hstep⟩
  | case3 s next hstep ih =>
    obtain ⟨states, hrest⟩ := ih
    exact ⟨s :: states, .continued hstep hrest⟩

/-- A search has no other course. -/
theorem Course.unique (h : Course m s states outcome) {states' : List Search}
    {outcome' : Except EditError Heights} (h' : Course m s states' outcome') :
    states' = states ∧ outcome' = outcome := by
  -- a step has one outcome, so the other course begins with the same constructor
  induction h generalizing states' with
  | finished hstep =>
    cases h' with
    | finished hstep' => exact ⟨rfl, by rw [Outcome.finished.inj (hstep.symm.trans hstep')]⟩
    | refused hstep' => cases hstep.symm.trans hstep'
    | continued hstep' _ => cases hstep.symm.trans hstep'
  | refused hstep =>
    cases h' with
    | finished hstep' => cases hstep.symm.trans hstep'
    | refused hstep' => exact ⟨rfl, by rw [Outcome.refused.inj (hstep.symm.trans hstep')]⟩
    | continued hstep' _ => cases hstep.symm.trans hstep'
  | continued hstep _ ih =>
    cases h' with
    | finished hstep' => cases hstep.symm.trans hstep'
    | refused hstep' => cases hstep.symm.trans hstep'
    | continued hstep' hrest' =>
      obtain rfl := Outcome.continued.inj (hstep.symm.trans hstep')
      obtain ⟨rfl, rfl⟩ := ih hrest'
      exact ⟨rfl, rfl⟩

/-- A search that does not finish takes up an arrival. -/
theorem exists_pending (h : ∀ result, step m s ≠ .finished result) :
    ∃ a rest, s.pending = a :: rest := by
  cases hpending : s.pending with
  | nil => exact absurd (step_eq_iff.2 (.done hpending)) (h ⟨s.highest, s.before⟩)
  | cons a rest => exact ⟨a, rest, rfl⟩

/-- All arrivals that are taken up lie in the body. -/
theorem Course.index_lt (h : Course m s states outcome) (hinv : Invariant m s) :
    ∀ t ∈ states, ∃ a rest, t.pending = a :: rest ∧ a.index < m.code.length := by
  -- a search that does not finish takes up an arrival, and the invariant says where that lies
  have htaken {t : Search} (ht : Invariant m t) (hstep : ∀ result, step m t ≠ .finished result) :
      ∃ a rest, t.pending = a :: rest ∧ a.index < m.code.length := by
    obtain ⟨a, rest, hpending⟩ := exists_pending hstep
    exact ⟨a, rest, hpending, ht.index_lt a (by simp [hpending])⟩
  induction h with
  | finished hstep => exact nofun
  | refused hstep =>
    intro t ht
    rw [List.mem_singleton.1 ht]
    exact htaken hinv (by simp [hstep])
  | continued hstep _ ih =>
    intro t ht
    rcases List.mem_cons.1 ht with rfl | ht
    · exact htaken hinv (by simp [hstep])
    · exact ih (hinv.step hstep) t ht

/-! ### Expansions -/

/-- The instruction that the next step expands, which is the one at which the arrival to be taken up
is the first. -/
def expanding? (s : Search) : Option Nat :=
  match s.pending with
  | [] => none
  | a :: _ => if s.before[a.index]? = some none then some a.index else none

/-- What a step leaves without a height had none before, and was not expanded by the step. -/
theorem Invariant.unexpanded_of_step (hinv : Invariant m s) (h : Search.step m s = .continued s')
    (hi : s'.before[i]? = some none) : s.before[i]? = some none ∧ s.expanding? ≠ some i := by
  obtain ⟨a, rest, hpending, ⟨insn, next, after, -, hbefore, -, rfl⟩ | ⟨hbefore, rfl⟩⟩ :=
    step_cases hinv h
  · have hne : a.index ≠ i := by
      rintro rfl
      have hlt := (List.getElem?_eq_some_iff.1 hbefore).1
      simp [List.getElem?_set_self hlt] at hi
    rw [List.getElem?_set_ne hne] at hi
    exact ⟨hi, by simp [expanding?, hpending, hbefore, hne]⟩
  · exact ⟨hi, by simp [expanding?, hpending, hbefore]⟩

theorem unexpanded_of_expanding (h : s.expanding? = some i) : s.before[i]? = some none := by
  unfold expanding? at h
  split at h
  · cases h
  · split at h
    · cases h
      assumption
    · cases h

/-- No instruction is expanded twice, and none that was expanded before. -/
theorem Course.nodup_expanding (h : Course m s states outcome) (hinv : Invariant m s) :
    (states.filterMap expanding?).Nodup ∧
      ∀ i ∈ states.filterMap expanding?, s.before[i]? = some none := by
  induction h with
  | finished hstep => exact ⟨.nil, nofun⟩
  | @refused s e hstep =>
    cases hs : s.expanding? with
    | none => simp [hs]
    | some i => simpa [hs] using unexpanded_of_expanding hs
  | @continued s next states outcome hstep _ ih =>
    obtain ⟨hnodup, hlater⟩ := ih (hinv.step hstep)
    -- what is expanded later has no height after this step, so this step did not expand it
    have hfresh := fun i hi => hinv.unexpanded_of_step hstep (hlater i hi)
    cases hs : s.expanding? with
    | none =>
      rw [List.filterMap_cons_none hs]
      exact ⟨hnodup, fun i hi => (hfresh i hi).1⟩
    | some i =>
      rw [List.filterMap_cons_some hs, List.nodup_cons, List.forall_mem_cons]
      exact ⟨⟨fun hi => (hfresh i hi).2 hs, hnodup⟩, unexpanded_of_expanding hs,
        fun j hj => (hfresh j hj).1⟩

/-! ### The budget -/

/-- What the instructions without a height may still lead to: each to the next one and to its
targets. -/
def unspent : List Instruction → List (Option UInt16) → Nat
  | insn :: code, known :: before =>
    (if known = none then 1 + insn.targets.length else 0) + unspent code before
  | _, _ => 0

/-- An instruction spends its budget when its height is written down. -/
theorem unspent_set {code : List Instruction} {before : List (Option UInt16)} {insn : Instruction}
    (hinsn : code[i]? = some insn) (hbefore : before[i]? = some none) (height : UInt16) :
    unspent code (before.set i (some height)) + (1 + insn.targets.length) =
      unspent code before := by
  -- down to the place that is written, which is worth its instruction and the targets of it
  induction code generalizing before i with
  | nil => simp at hinsn
  | cons first code ih =>
    cases before with
    | nil => simp at hbefore
    | cons known before =>
      cases i with
      | zero =>
        obtain rfl : first = insn := by simpa using hinsn
        obtain rfl : known = none := by simpa using hbefore
        simp [unspent, Nat.add_comm]
      | succ i =>
        rw [List.getElem?_cons_succ] at hinsn hbefore
        rw [List.set_cons_succ, unspent, unspent, Nat.add_assoc, ih hinsn hbefore]

theorem unspent_replicate (code : List Instruction) :
    unspent code (List.replicate code.length none) =
      (code.map fun insn => 1 + insn.targets.length).sum := by
  induction code with
  | nil => rfl
  | cons first code ih =>
    rw [List.length_cons, List.replicate_succ, unspent, if_pos rfl, ih, List.map_cons,
      List.sum_cons]

/-- The number of arrivals that may still be taken up. -/
def budget (m : MethodDecl) (s : Search) : Nat := s.pending.length + unspent m.code s.before

/-- The budget goes down with each arrival that is taken up. -/
theorem Invariant.budget_lt (hinv : Invariant m s) (h : Search.step m s = .continued s') :
    s'.budget m < s.budget m := by
  obtain ⟨a, rest, hpending, ⟨insn, next, after, hinsn, hbefore, hexpand, rfl⟩ | ⟨-, rfl⟩⟩ :=
    step_cases hinv h
  · -- at most as many arrivals are added as the instruction had in its budget
    have hspent := unspent_set hinsn hbefore a.height
    have hnext := MethodDecl.length_of_expand hexpand
    simp only [budget, hpending, List.length_append, List.length_reverse, List.length_cons]
    omega
  · simp only [budget, hpending, List.length_cons]
    omega

/-- A course is not longer than the budget at its beginning. -/
theorem Course.length_le (h : Course m s states outcome) (hinv : Invariant m s) :
    states.length ≤ s.budget m := by
  induction h with
  | finished hstep => exact Nat.zero_le _
  | @refused s e hstep =>
    obtain ⟨a, rest, hpending⟩ := @exists_pending m s (by simp [hstep])
    simp only [budget, hpending, List.length_cons, List.length_nil]
    omega
  | continued hstep _ ih =>
    have hrest := ih (hinv.step hstep)
    have hless := hinv.budget_lt hstep
    rw [List.length_cons]
    omega

end Search

namespace MethodDecl

variable {m : MethodDecl}

/-! ### The search through a method -/

/-- The state in which a search begins. -/
def start (m : MethodDecl) (arrivals : List Arrival) : Search where
  before := List.replicate m.code.length none
  pending := arrivals.reverse ++ m.entries
  highest := 0

/-- The course of the search through a method. There is nothing to take up if a handler is not
placed. -/
inductive Course (m : MethodDecl) : List Search → Except EditError Heights → Prop
  | unplaced {e : EditError} (harrivals : m.handlerArrivals = .error e) : Course m [] (.error e)
  | searched {arrivals : List Arrival} {states : List Search} {outcome : Except EditError Heights}
      (harrivals : m.handlerArrivals = .ok arrivals)
      (hcourse : Search.Course m (m.start arrivals) states outcome) : Course m states outcome

variable {states states' : List Search} {outcome outcome' : Except EditError Heights}

theorem exists_course (m : MethodDecl) : ∃ states, m.Course states m.heights := by
  unfold heights
  cases harrivals : m.handlerArrivals with
  | error e => exact ⟨[], .unplaced harrivals⟩
  | ok arrivals =>
    obtain ⟨states, hcourse⟩ := Search.exists_course m (m.start arrivals)
    exact ⟨states, .searched harrivals hcourse⟩

theorem Course.unique (h : m.Course states outcome) (h' : m.Course states' outcome') :
    states' = states ∧ outcome' = outcome := by
  cases h with
  | unplaced harrivals =>
    cases h' with
    | unplaced harrivals' =>
      cases harrivals.symm.trans harrivals'
      exact ⟨rfl, rfl⟩
    | searched harrivals' _ => cases harrivals.symm.trans harrivals'
  | searched harrivals hcourse =>
    cases h' with
    | unplaced harrivals' => cases harrivals.symm.trans harrivals'
    | searched harrivals' hcourse' =>
      cases harrivals.symm.trans harrivals'
      exact hcourse.unique hcourse'

theorem length_of_handlerArrivals {arrivals : List Arrival} (h : m.handlerArrivals = .ok arrivals) :
    arrivals.length = m.handlers.length := by
  obtain ⟨places, hplaces, rfl⟩ := handlerArrivals_eq_ok_iff.1 h
  rw [List.length_map, length_of_resolveAll hplaces, List.length_map]

/-- At the beginning there is one arrival for the first instruction and one for each handler, and
no budget is spent. -/
theorem budget_start_le {arrivals : List Arrival} (h : m.handlerArrivals = .ok arrivals) :
    (m.start arrivals).budget m ≤
      1 + m.handlers.length + (m.code.map fun insn => 1 + insn.targets.length).sum := by
  have hentries : m.entries.length ≤ 1 := by
    unfold entries
    split <;> simp
  have harrivals := length_of_handlerArrivals h
  rw [Search.budget, start, Search.unspent_replicate, List.length_append, List.length_reverse]
  omega

/-- The bounds of a search hold for the search through a method, from its beginning. -/
theorem Course.linear (h : m.Course states outcome) :
    (∀ s ∈ states, ∃ a rest, s.pending = a :: rest ∧ a.index < m.code.length) ∧
      (states.filterMap Search.expanding?).Nodup ∧
      states.length ≤
        1 + m.handlers.length + (m.code.map fun insn => 1 + insn.targets.length).sum := by
  cases h with
  | unplaced _ => exact ⟨nofun, .nil, Nat.zero_le _⟩
  | searched harrivals hcourse =>
    have hinv : Search.Invariant m (m.start _) := invariant_start harrivals
    have hlength := hcourse.length_le hinv
    exact ⟨hcourse.index_lt hinv, (hcourse.nodup_expanding hinv).1,
      hlength.trans (budget_start_le harrivals)⟩

/-- The search through a method has one course, which ends with the heights or with the refusal. It
takes up arrivals in the body only, expands no instruction twice, and takes up at most one arrival
for the beginning, one for each handler, and for each instruction one and one for each of its
targets. -/
theorem heights_course (m : MethodDecl) :
    ∃ states, (∀ states' outcome, m.Course states' outcome ↔
        states' = states ∧ outcome = m.heights) ∧
      (∀ s ∈ states, ∃ a rest, s.pending = a :: rest ∧ a.index < m.code.length) ∧
      (states.filterMap Search.expanding?).Nodup ∧
      states.length ≤
        1 + m.handlers.length + (m.code.map fun insn => 1 + insn.targets.length).sum := by
  obtain ⟨states, hcourse⟩ := exists_course m
  refine ⟨states, fun states' outcome => ⟨hcourse.unique, ?_⟩, hcourse.linear⟩
  rintro ⟨rfl, rfl⟩
  exact hcourse

end MethodDecl

end ClassEdit
