import ClassEdit.Proofs.ControlFlow
import Mathlib.Order.Bounds.Basic

/-!
# The search for heights decides consistency

A method is consistent if control, started at its entries, never meets a contradiction: labels are
placed, no place is reached with two heights, and every instruction that is reached has a meaning,
finds on the stack what it pops, and has somewhere to go. The search for heights succeeds exactly on
the consistent methods, and then it has found exactly the points that control reaches.

The search counts heights in 16 bits. What it decides in any case is consistency of the heights
counted so; they are the true heights as long as these fit in. Only ways that come to no place twice
matter for this: a loop that pushes more than it pops leads to heights without bound, but coming
back to its beginning with another height is the contradiction already.

The proof keeps one invariant through the search. Everything written down or still pending is
reached, which makes refusals justified; and everything to which a step leads from an expanded
instruction is written down or pending, which makes the result closed once nothing is pending.

## Main definitions

* `MethodDecl.ConsistentOn`, `MethodDecl.Consistent`: no contradiction is reached.
* `Search.StepsTo`: all that a step of a search can do, with the reason for it.
* `Search.Invariant`: what a search keeps.
* `MethodDecl.Settled`: a table of heights that is closed under control flow, and reached.
* `MethodDecl.WithinSlots`: heights fit into 16 bits on ways that come to no place twice.

## Main results

* `Search.step_eq_iff`: a step does what `Search.StepsTo` says, and nothing else.
* `Search.Invariant.step`, `Search.Invariant.run`: the invariant through a step and through a run.
* `MethodDecl.exists_heights_iff`: a method has heights exactly if it is consistent, its heights
  counted in 16 bits.
* `MethodDecl.heights_decide`: in a method whose heights fit into 16 bits, the heights found are
  those that are reached, and the limit is the largest of them.
-/

namespace ClassEdit

namespace MethodDecl

variable {m : MethodDecl}

/-- The points that are reached hold no contradiction. -/
structure ConsistentOn (m : MethodDecl) (reached : Point → Prop) : Prop where
  handlers_placed : ∀ b ∈ m.handlers, ∃ p, labelPosition? b.handler m.code = some p
  targets_placed : ∀ p insn, reached p → m.code[p.index]? = some insn →
    ∀ l ∈ insn.targets, ∃ q, labelPosition? l m.code = some q
  height_unique : ∀ p q, reached p → reached q → p.index = q.index → p.height = q.height
  pops_le : ∀ p insn, reached p → m.code[p.index]? = some insn →
    ∃ e, insn.effect = .ok e ∧ (e.pops.toNat : Int) ≤ p.height
  next_exists : ∀ p insn, reached p → m.code[p.index]? = some insn →
    insn.flow.fallsThrough = true → p.index + 1 < m.code.length
  returns_result : ∀ p insn e, reached p → m.code[p.index]? = some insn →
    insn.flow = .exit → insn.effect = .ok e → e.pops = m.result.slots
  no_subroutine : ∀ p insn, reached p → m.code[p.index]? = some insn → insn.flow ≠ .subroutine

theorem ConsistentOn.mono {reached reached' : Point → Prop} (h : m.ConsistentOn reached)
    (hsub : ∀ p, reached' p → reached p) : m.ConsistentOn reached' where
  handlers_placed := h.handlers_placed
  targets_placed p insn hp := h.targets_placed p insn (hsub p hp)
  height_unique p q hp hq := h.height_unique p q (hsub p hp) (hsub q hq)
  pops_le p insn hp := h.pops_le p insn (hsub p hp)
  next_exists p insn hp := h.next_exists p insn (hsub p hp)
  returns_result p insn e hp := h.returns_result p insn e (hsub p hp)
  no_subroutine p insn hp := h.no_subroutine p insn (hsub p hp)

/-- Control that enters the method meets no contradiction. -/
abbrev Consistent (m : MethodDecl) : Prop := m.ConsistentOn m.Reaches

/-! ### What an expansion does -/

theorem resolve_eq_ok_iff {l : Label} {p : Nat} :
    m.resolve l = .ok p ↔ labelPosition? l m.code = some p := by
  unfold resolve
  cases labelPosition? l m.code <;> simp

theorem resolveAll_eq_ok_iff {ls : List Label} {ps : List Nat} :
    m.resolveAll ls = .ok ps ↔ ls.map (labelPosition? · m.code) = ps.map some := by
  induction ls generalizing ps with
  | nil => cases ps <;> simp [resolveAll]
  | cons l ls ih =>
    rw [resolveAll]
    cases hl : m.resolve l with
    | error e =>
      -- the first label is not placed
      have hnone : ∀ p, labelPosition? l m.code ≠ some p := fun p hp => by
        rw [resolve_eq_ok_iff.2 hp] at hl
        cases hl
      cases ps <;> simp [hnone]
    | ok p =>
      rw [resolve_eq_ok_iff] at hl
      cases hls : m.resolveAll ls with
      | error e =>
        -- a later label is not placed
        have hnone : ∀ ps : List Nat, ls.map (labelPosition? · m.code) ≠ ps.map some :=
          fun ps hps => by
            rw [ih.2 hps] at hls
            cases hls
        cases ps <;> simp [hnone]
      | ok rest =>
        rw [ih] at hls
        cases ps <;> simp [hl, hls, List.map_inj_right]

theorem mem_of_resolveAll {ls : List Label} {ps : List Nat} (h : m.resolveAll ls = .ok ps)
    (q : Nat) : q ∈ ps ↔ ∃ l ∈ ls, labelPosition? l m.code = some q := by
  have hmem : some q ∈ ps.map some ↔ some q ∈ ls.map (labelPosition? · m.code) := by
    rw [resolveAll_eq_ok_iff.1 h]
  simpa using hmem

theorem exists_resolveAll_iff {ls : List Label} :
    (∃ ps, m.resolveAll ls = .ok ps) ↔ ∀ l ∈ ls, ∃ p, labelPosition? l m.code = some p := by
  simp only [resolveAll_eq_ok_iff]
  induction ls with
  | nil => exact ⟨fun _ _ h => by simp at h, fun _ => ⟨[], rfl⟩⟩
  | cons l ls ih =>
    rw [List.forall_mem_cons, ← ih]
    constructor
    · rintro ⟨ps, hps⟩
      cases ps with
      | nil => simp at hps
      | cons p ps =>
        simp only [List.map_cons, List.cons.injEq] at hps
        exact ⟨⟨p, hps.1⟩, ps, hps.2⟩
    · rintro ⟨⟨p, hp⟩, ps, hps⟩
      exact ⟨p :: ps, by simp [hp, hps]⟩

/-- What the instruction at a place has to satisfy for control to go on from it. -/
structure Admits (m : MethodDecl) (index : Nat) (insn : Instruction) (pops : UInt16) : Prop where
  targets_placed : ∀ l ∈ insn.targets, ∃ q, labelPosition? l m.code = some q
  next_exists : insn.flow.fallsThrough = true → index + 1 < m.code.length
  returns_result : insn.flow = .exit → pops = m.result.slots
  no_subroutine : insn.flow ≠ .subroutine

variable {index : Nat} {insn : Instruction} {pops : UInt16}

theorem following_eq_ok_iff {ps : List Nat} :
    m.following index = .ok ps ↔ index + 1 < m.code.length ∧ [index + 1] = ps := by
  unfold following
  split <;> simp_all

/-- The successors of an instruction that is admitted: the places of its targets, and the next
instruction behind them if control goes on. -/
theorem successors_eq_ok_iff {ps : List Nat} :
    m.successors index insn pops = .ok ps ↔ m.Admits index insn pops ∧
      ∃ positions, m.resolveAll insn.targets = .ok positions ∧
        (positions ++ if insn.flow.fallsThrough then [index + 1] else []) = ps := by
  -- being admitted says that the targets have places, once it is known where control goes
  have hadmits : m.Admits index insn pops ↔
      (∃ positions, m.resolveAll insn.targets = .ok positions) ∧
      (insn.flow.fallsThrough = true → index + 1 < m.code.length) ∧
        (insn.flow = .exit → pops = m.result.slots) ∧ insn.flow ≠ .subroutine := by
    rw [exists_resolveAll_iff]
    exact ⟨fun h => ⟨h.1, h.2, h.3, h.4⟩, fun h => ⟨h.1, h.2.1, h.2.2.1, h.2.2.2⟩⟩
  rw [hadmits]
  unfold successors
  cases hflow : insn.flow with
  | sequential | call | marker =>
    have htargets : insn.targets = [] := Instruction.targets_eq_nil (by rw [hflow]; rfl)
    simp [htargets, resolveAll, following_eq_ok_iff, Flow.fallsThrough]
  | throwing =>
    have htargets : insn.targets = [] := Instruction.targets_eq_nil (by rw [hflow]; rfl)
    simp [htargets, resolveAll, Flow.fallsThrough]
  | exit =>
    have htargets : insn.targets = [] := Instruction.targets_eq_nil (by rw [hflow]; rfl)
    by_cases hpops : pops = m.result.slots <;>
      simp [htargets, resolveAll, Flow.fallsThrough, hpops]
  | subroutine => simp
  | unconditional | switch =>
    cases m.resolveAll insn.targets <;> simp [Flow.fallsThrough]
  | conditional =>
    cases m.resolveAll insn.targets with
    | error e => simp
    | ok positions =>
      by_cases hnext : index + 1 < m.code.length <;> simp [following, hnext, Flow.fallsThrough]

/-- The successors of an instruction come out exactly if the instruction is admitted. -/
theorem exists_successors_iff :
    (∃ ps, m.successors index insn pops = .ok ps) ↔ m.Admits index insn pops := by
  constructor
  · rintro ⟨ps, hps⟩
    exact (successors_eq_ok_iff.1 hps).1
  · intro h
    obtain ⟨positions, hpositions⟩ := exists_resolveAll_iff.2 h.targets_placed
    exact ⟨_, successors_eq_ok_iff.2 ⟨h, positions, hpositions, rfl⟩⟩

/-- The successors are the next instruction, if control goes on, and the places of the targets. -/
theorem mem_of_successors {ps : List Nat} (h : m.successors index insn pops = .ok ps) (q : Nat) :
    q ∈ ps ↔ insn.flow.fallsThrough = true ∧ q = index + 1 ∨
      ∃ l ∈ insn.targets, labelPosition? l m.code = some q := by
  obtain ⟨-, positions, hpositions, rfl⟩ := successors_eq_ok_iff.1 h
  rw [List.mem_append, mem_of_resolveAll hpositions, or_comm]
  cases insn.flow.fallsThrough <;> simp

/-- What an expansion that comes out has done. -/
theorem expand_eq_ok_iff {height after : UInt16} {next : List Arrival} :
    m.expand index height insn = .ok (next, after) ↔
      ∃ e ps, insn.effect = .ok e ∧ e.pops ≤ height ∧ height - e.pops + e.pushes = after ∧
        m.successors index insn e.pops = .ok ps ∧ ps.map (⟨·, after⟩) = next := by
  unfold expand
  cases heffect : insn.effect with
  | error e => simp
  | ok e =>
    by_cases hpops : height < e.pops
    · simp [hpops, UInt16.not_le.2 hpops]
    · cases hps : m.successors index insn e.pops with
      | error e' => simp [hpops, hps]
      | ok ps =>
        simp only [hpops, if_false, hps, Except.ok.injEq, Prod.mk.injEq]
        constructor
        · rintro ⟨rfl, rfl⟩
          exact ⟨e, ps, rfl, UInt16.not_lt.1 hpops, rfl, hps, rfl⟩
        · rintro ⟨e', ps', rfl, -, rfl, hps', rfl⟩
          obtain rfl := Except.ok.inj (hps.symm.trans hps')
          exact ⟨rfl, rfl⟩

theorem exists_expand {height : UInt16} {e : StackEffect} (heffect : insn.effect = .ok e)
    (hpops : e.pops ≤ height) (hadmits : m.Admits index insn e.pops) :
    ∃ r, m.expand index height insn = .ok r := by
  obtain ⟨ps, hps⟩ := exists_successors_iff.2 hadmits
  exact ⟨(_, _), expand_eq_ok_iff.2 ⟨e, ps, heffect, hpops, rfl, hps, rfl⟩⟩

end MethodDecl

/-- The height after an instruction that finds what it pops, counted in 16 bits. -/
theorem StackEffect.wrapped_add_net {e : StackEffect} {height : UInt16} (h : e.pops ≤ height) :
    wrapped (height.toNat + e.net) = (height - e.pops + e.pushes).toNat := by
  have hpops := UInt16.le_iff_toNat_le.1 h
  rw [UInt16.toNat_add, UInt16.toNat_sub_of_le _ _ h, net, wrapped]
  omega

/-- What a number of slots holds, read as a height. -/
theorem StackEffect.pops_le_iff {e : StackEffect} {height : UInt16} :
    e.pops ≤ height ↔ (e.pops.toNat : Int) ≤ height.toNat :=
  UInt16.le_iff_toNat_le.trans Int.ofNat_le.symm

/-- Heights are told apart by their values. -/
theorem toNat_cast_inj {h k : UInt16} : (h.toNat : Int) = k.toNat ↔ h = k :=
  Int.ofNat_inj.trans UInt16.toNat_inj

/-- The point of an arrival. -/
def Arrival.point (a : Arrival) : Point := ⟨a.index, a.height.toNat⟩

/-- An expansion leads exactly where control goes, the heights counted in 16 bits. -/
theorem MethodDecl.mem_expand_iff {m : MethodDecl} {index : Nat} {height after : UInt16}
    {insn : Instruction} {next : List Arrival} (hinsn : m.code[index]? = some insn)
    (h : m.expand index height insn = .ok (next, after)) (q : Point) :
    (∃ a ∈ next, a.point = q) ↔ ∃ r, FlowStep m.code ⟨index, height.toNat⟩ r ∧ r.wrapped = q := by
  obtain ⟨e, ps, heffect, hpops, rfl, hps, rfl⟩ := expand_eq_ok_iff.1 h
  have hmem := mem_of_successors hps
  have hnet := StackEffect.wrapped_add_net hpops
  constructor
  · rintro ⟨a, ha, rfl⟩
    obtain ⟨p, hp, rfl⟩ := List.mem_map.1 ha
    exact ⟨⟨p, height.toNat + e.net⟩,
      flowStep_iff.2 ⟨insn, e, hinsn, heffect, rfl, (hmem p).1 hp⟩, Point.ext rfl hnet⟩
  · rintro ⟨r, hstep, rfl⟩
    obtain ⟨insn', e', hinsn', heffect', hheight, hwhere⟩ := flowStep_iff.1 hstep
    obtain rfl : insn = insn' := Option.some.inj (hinsn.symm.trans hinsn')
    obtain rfl : e = e' := Except.ok.inj (heffect.symm.trans heffect')
    refine ⟨_, List.mem_map_of_mem ((hmem r.index).2 hwhere), Point.ext rfl ?_⟩
    exact hnet.symm.trans (congrArg wrapped hheight.symm)

theorem Heights.at?_eq_some_iff {r : Heights} {i : Nat} {k : UInt16} :
    r.at? i = some k ↔ r.before[i]? = some (some k) := by
  rw [Heights.at?, List.getD_eq_getElem?_getD]
  cases r.before[i]? <;> simp

namespace Search

variable {m : MethodDecl} {s s' : Search}

/-! ### The invariant -/

/-- The search has written down the height of a point. -/
def Expanded (s : Search) (p : Point) : Prop :=
  ∃ k : UInt16, s.before[p.index]? = some (some k) ∧ p.height = k.toNat

/-- The search has written down the height of a point, or has still to follow it. -/
def Knows (s : Search) (p : Point) : Prop := (∃ a ∈ s.pending, a.point = p) ∨ s.Expanded p

/-- A height before or after an instruction whose height is written down, or that of the empty
stack. -/
inductive Level (m : MethodDecl) (before : List (Option UInt16)) : Nat → Prop
  | empty : Level m before 0
  | before {i : Nat} {k : UInt16} (hbefore : before[i]? = some (some k)) : Level m before k.toNat
  | after {i : Nat} {k : UInt16} {insn : Instruction} {e : StackEffect}
      (hbefore : before[i]? = some (some k)) (hinsn : m.code[i]? = some insn)
      (heffect : insn.effect = .ok e) : Level m before (k - e.pops + e.pushes).toNat

/-- What a search keeps. What it knows is reached, and it knows the entries and whatever follows
from what is written down. -/
structure Invariant (m : MethodDecl) (s : Search) : Prop where
  length_eq : s.before.length = m.code.length
  index_lt : ∀ a ∈ s.pending, a.index < m.code.length
  reached : ∀ p, s.Knows p → m.ReachesWrapped p
  entered : ∀ p, m.Entry p → s.Knows p
  followed : ∀ p q, s.Expanded p → FlowStep m.code p q → s.Knows q.wrapped
  admitted : ∀ i k insn, s.before[i]? = some (some k) → m.code[i]? = some insn →
    ∃ e, insn.effect = .ok e ∧ e.pops ≤ k ∧ m.Admits i insn e.pops
  highest : IsGreatest {k | Level m s.before k} s.highest.toNat

/-- What a step does, with the reason for it: nothing is pending any more, the next arrival is
expanded or rejected, its height is known or another one is, or it lies outside of the body. -/
inductive StepsTo (m : MethodDecl) (s : Search) : Outcome → Prop
  | done (hpending : s.pending = []) : StepsTo m s (.finished ⟨s.highest, s.before⟩)
  | rejected {a : Arrival} {rest : List Arrival} {insn : Instruction} {e : EditError}
      (hpending : s.pending = a :: rest) (hinsn : m.code[a.index]? = some insn)
      (hbefore : s.before[a.index]? = some none)
      (hexpand : m.expand a.index a.height insn = .error e) : StepsTo m s (.refused e)
  | expanded {a : Arrival} {rest : List Arrival} {insn : Instruction} {next : List Arrival}
      {after : UInt16} (hpending : s.pending = a :: rest) (hinsn : m.code[a.index]? = some insn)
      (hbefore : s.before[a.index]? = some none)
      (hexpand : m.expand a.index a.height insn = .ok (next, after)) :
      StepsTo m s (.continued ⟨s.before.set a.index (some a.height), next.reverse ++ rest,
        max (max s.highest after) a.height⟩)
  | known {a : Arrival} {rest : List Arrival} {insn : Instruction}
      (hpending : s.pending = a :: rest) (hinsn : m.code[a.index]? = some insn)
      (hbefore : s.before[a.index]? = some (some a.height)) :
      StepsTo m s (.continued { s with pending := rest })
  | meeting {a : Arrival} {rest : List Arrival} {insn : Instruction} {known : UInt16}
      (hpending : s.pending = a :: rest) (hinsn : m.code[a.index]? = some insn)
      (hbefore : s.before[a.index]? = some (some known)) (hother : known ≠ a.height) :
      StepsTo m s (.refused (.imbalance m.signature (.meeting known a.height a.index insn)))
  | outside {a : Arrival} {rest : List Arrival} (hpending : s.pending = a :: rest)
      (hnone : m.code[a.index]? = none ∨ s.before[a.index]? = none) :
      StepsTo m s (.continued { s with pending := rest })

theorem step_eq_iff {outcome : Outcome} : step m s = outcome ↔ StepsTo m s outcome := by
  constructor
  · rintro rfl
    unfold step
    split
    · rename_i hpending
      exact .done hpending
    · rename_i a rest hpending
      split
      · rename_i insn hinsn hbefore
        split
        · rename_i e hexpand
          exact .rejected hpending hinsn hbefore hexpand
        · rename_i next after hexpand
          exact .expanded hpending hinsn hbefore hexpand
      · rename_i insn known hinsn hbefore
        split
        · rename_i hknown
          exact .known hpending hinsn (hknown ▸ hbefore)
        · rename_i hother
          exact .meeting hpending hinsn hbefore hother
      · rename_i hfresh hknown
        -- none of the patterns above applies, so one of the two tables has no entry
        refine .outside hpending ?_
        by_contra hinside
        obtain ⟨hinsn, hbefore⟩ := not_or.1 hinside
        obtain ⟨insn, hinsn⟩ := Option.ne_none_iff_exists'.1 hinsn
        obtain ⟨_ | known, hbefore⟩ := Option.ne_none_iff_exists'.1 hbefore
        · exact hfresh _ hinsn hbefore
        · exact hknown _ _ hinsn hbefore
  · intro h
    cases h with
    | done hpending => simp only [step, hpending]
    | rejected hpending hinsn hbefore hexpand =>
      simp only [step, hpending, hinsn, hbefore, hexpand]
    | expanded hpending hinsn hbefore hexpand =>
      simp only [step, hpending, hinsn, hbefore, hexpand]
    | known hpending hinsn hbefore => simp only [step, hpending, hinsn, hbefore, if_pos]
    | meeting hpending hinsn hbefore hother =>
      simp only [step, hpending, hinsn, hbefore, if_neg hother]
    | @outside a _ hpending hnone =>
      rcases hnone with hnone | hnone
      · simp only [step, hpending, hnone]
      · cases hinsn : m.code[a.index]? <;> simp only [step, hpending, hnone, hinsn]

/-- A step that goes on has either expanded the next arrival or found its height written down. -/
theorem step_cases (hinv : Invariant m s) (h : step m s = .continued s') :
    ∃ a rest, s.pending = a :: rest ∧
      ((∃ insn next after, m.code[a.index]? = some insn ∧ s.before[a.index]? = some none ∧
          m.expand a.index a.height insn = .ok (next, after) ∧
          s' = ⟨s.before.set a.index (some a.height), next.reverse ++ rest,
            max (max s.highest after) a.height⟩) ∨
        s.before[a.index]? = some (some a.height) ∧ s' = { s with pending := rest }) := by
  cases step_eq_iff.1 h with
  | expanded hpending hinsn hbefore hexpand =>
    exact ⟨_, _, hpending, .inl ⟨_, _, _, hinsn, hbefore, hexpand, rfl⟩⟩
  | known hpending _ hbefore => exact ⟨_, _, hpending, .inr ⟨hbefore, rfl⟩⟩
  | @outside a _ hpending hnone =>
    -- under the invariant no arrival lies outside of the body
    have hlt : a.index < m.code.length := hinv.index_lt a (by simp [hpending])
    have hlength := hinv.length_eq
    simp only [List.getElem?_eq_none_iff] at hnone
    omega

/-- Expanding an arrival writes its height down, and no other. -/
theorem expanded_set {a : Arrival} {pending : List Arrival} {highest : UInt16}
    (hbefore : s.before[a.index]? = some none) {p : Point} :
    Expanded ⟨s.before.set a.index (some a.height), pending, highest⟩ p ↔
      a.point = p ∨ s.Expanded p := by
  obtain ⟨hlt, -⟩ := List.getElem?_eq_some_iff.1 hbefore
  unfold Expanded
  by_cases hindex : a.index = p.index
  · have hnone : s.before[p.index]? = some none := hindex ▸ hbefore
    simp only [List.getElem?_set, hindex, ↓reduceIte, hindex ▸ hlt, Option.some.injEq,
      exists_eq_left', hnone, reduceCtorEq, false_and, exists_false, or_false]
    constructor
    · intro hheight
      exact Point.ext hindex hheight.symm
    · rintro rfl
      rfl
  · have hpoint : a.point ≠ p := fun h => hindex (congrArg Point.index h)
    simp [hindex, hpoint]

/-- Expanding an arrival adds what it leads to, and forgets nothing. -/
theorem knows_of_expand {a : Arrival} {rest next : List Arrival} {highest : UInt16}
    (hpending : s.pending = a :: rest) (hbefore : s.before[a.index]? = some none) {p : Point} :
    Knows ⟨s.before.set a.index (some a.height), next.reverse ++ rest, highest⟩ p ↔
      s.Knows p ∨ ∃ b ∈ next, b.point = p := by
  simp only [Knows, expanded_set hbefore, hpending, List.mem_append, List.mem_reverse,
    List.mem_cons, or_and_right, exists_or, exists_eq_left]
  grind

/-- Dropping an arrival whose height is written down forgets nothing. -/
theorem knows_of_drop {a : Arrival} {rest : List Arrival} (hpending : s.pending = a :: rest)
    (hbefore : s.before[a.index]? = some (some a.height)) {p : Point} :
    Knows { s with pending := rest } p ↔ s.Knows p := by
  have ha : s.Expanded a.point := ⟨a.height, hbefore, rfl⟩
  have hsame : Expanded { s with pending := rest } p ↔ s.Expanded p := Iff.rfl
  simp only [Knows, hpending, List.mem_cons, or_and_right, exists_or, exists_eq_left, hsame]
  constructor
  · rintro (h | h)
    · exact .inl (.inr h)
    · exact .inr h
  · rintro ((rfl | h) | h)
    · exact .inr ha
    · exact .inl h
    · exact .inr h

/-- The heights met so far after an arrival was expanded. -/
theorem level_set {a : Arrival} {insn : Instruction} {e : StackEffect}
    (hbefore : s.before[a.index]? = some none) (hinsn : m.code[a.index]? = some insn)
    (heffect : insn.effect = .ok e) {k : Nat} :
    Level m (s.before.set a.index (some a.height)) k ↔
      Level m s.before k ∨ k = a.height.toNat ∨ k = (a.height - e.pops + e.pushes).toNat := by
  obtain ⟨hlt, -⟩ := List.getElem?_eq_some_iff.1 hbefore
  have hset : ∀ {i : Nat} {j : UInt16}, (s.before.set a.index (some a.height))[i]? = some (some j) ↔
      a.index = i ∧ a.height = j ∨ a.index ≠ i ∧ s.before[i]? = some (some j) := by
    intro i j
    by_cases hindex : a.index = i
    · subst hindex
      simp [hlt]
    · simp [hindex]
  constructor
  · rintro (_ | hk | ⟨hk, hinsn', heffect'⟩)
    · exact .inl .empty
    · rcases hset.1 hk with ⟨-, rfl⟩ | ⟨-, hk⟩
      · exact .inr (.inl rfl)
      · exact .inl (.before hk)
    · rcases hset.1 hk with ⟨rfl, rfl⟩ | ⟨-, hk⟩
      · obtain rfl := Option.some.inj (hinsn.symm.trans hinsn')
        obtain rfl := Except.ok.inj (heffect.symm.trans heffect')
        exact .inr (.inr rfl)
      · exact .inl (.after hk hinsn' heffect')
  · -- nothing was written down at the place that is expanded, so nothing is overwritten
    have hother : ∀ {i : Nat} {j : UInt16}, s.before[i]? = some (some j) → a.index ≠ i := by
      rintro i j hi rfl
      simp [hbefore] at hi
    rintro ((_ | hk | ⟨hk, hinsn', heffect'⟩) | rfl | rfl)
    · exact .empty
    · exact .before (hset.2 (.inr ⟨hother hk, hk⟩))
    · exact .after (hset.2 (.inr ⟨hother hk, hk⟩)) hinsn' heffect'
    · exact .before (hset.2 (.inl ⟨rfl, rfl⟩))
    · exact .after (hset.2 (.inl ⟨rfl, rfl⟩)) hinsn heffect

/-- Control does not leave the body behind an instruction that is admitted. -/
theorem index_lt_of_flowStep {i : Nat} {height : Int} {insn : Instruction} {e : StackEffect}
    {q : Point} (hinsn : m.code[i]? = some insn) (hadmits : m.Admits i insn e.pops)
    (hstep : FlowStep m.code ⟨i, height⟩ q) : q.index < m.code.length := by
  obtain ⟨insn', e', hinsn', -, -, ⟨hflow, hnext⟩ | ⟨l, -, hplace⟩⟩ := flowStep_iff.1 hstep
  · obtain rfl := Option.some.inj (hinsn.symm.trans hinsn')
    exact hnext ▸ hadmits.next_exists hflow
  · exact labelPosition?_lt hplace

/-- A step keeps the invariant. -/
theorem Invariant.step (hinv : Invariant m s) (h : Search.step m s = .continued s') :
    Invariant m s' := by
  obtain ⟨a, rest, hpending, ⟨insn, next, after, hinsn, hbefore, hexpand, rfl⟩ | ⟨hbefore, rfl⟩⟩ :=
    step_cases hinv h
  · obtain ⟨e, ps, heffect, hpops, rfl, hps, -⟩ := MethodDecl.expand_eq_ok_iff.1 hexpand
    have hadmits : m.Admits a.index insn e.pops := MethodDecl.exists_successors_iff.1 ⟨ps, hps⟩
    have hreached : m.ReachesWrapped a.point :=
      hinv.reached _ (.inl ⟨a, by simp [hpending], rfl⟩)
    have hleads := MethodDecl.mem_expand_iff hinsn hexpand
    have hknows := @knows_of_expand s a rest next
      (max (max s.highest (a.height - e.pops + e.pushes)) a.height) hpending hbefore
    refine ⟨by simp [hinv.length_eq], ?_, ?_, ?_, ?_, ?_, ?_⟩
    · intro b hb
      rcases List.mem_append.1 hb with hb | hb
      · obtain ⟨r, hstep, hr⟩ := (hleads b.point).1 ⟨b, by simpa using hb, rfl⟩
        have hindex : r.index = b.index := congrArg Point.index hr
        exact hindex ▸ index_lt_of_flowStep hinsn hadmits hstep
      · exact hinv.index_lt b (by simp [hpending, hb])
    · intro p hp
      rcases hknows.1 hp with hp | hp
      · exact hinv.reached p hp
      · obtain ⟨r, hstep, rfl⟩ := (hleads p).1 hp
        exact hreached.step hstep
    · exact fun p hp => hknows.2 (.inl (hinv.entered p hp))
    · intro p q hp hstep
      rcases (expanded_set hbefore).1 hp with rfl | hp
      · exact hknows.2 (.inr ((hleads q.wrapped).2 ⟨q, hstep, rfl⟩))
      · exact hknows.2 (.inl (hinv.followed p q hp hstep))
    · intro i k insn' hk hinsn'
      -- only the table matters here, so the rest of the new state may be anything
      rcases (@expanded_set s a [] 0 hbefore ⟨i, k.toNat⟩).1 ⟨k, hk, rfl⟩ with
        hpoint | ⟨k', hk', hheight⟩
      · obtain rfl : a.index = i := congrArg Point.index hpoint
        obtain rfl : a.height = k := toNat_cast_inj.1 (congrArg Point.height hpoint)
        obtain rfl := Option.some.inj (hinsn.symm.trans hinsn')
        exact ⟨e, heffect, hpops, hadmits⟩
      · obtain rfl : k = k' := toNat_cast_inj.1 hheight
        exact hinv.admitted i k insn' hk' hinsn'
    · have hlevels : {k | Level m (s.before.set a.index (some a.height)) k} =
          ({k | Level m s.before k} ∪ {(a.height - e.pops + e.pushes).toNat}) ∪
            {a.height.toNat} := by
        ext k
        simp only [level_set hbefore hinsn heffect, Set.mem_ofPred_eq, Set.mem_union,
          Set.mem_singleton_iff, or_assoc, or_comm]
      rw [hlevels, UInt16.toNat_max, UInt16.toNat_max]
      exact (hinv.highest.union isGreatest_singleton).union isGreatest_singleton
  · -- the height was written down before, so dropping the arrival loses nothing
    have hknows := @knows_of_drop s a rest hpending hbefore
    refine ⟨hinv.length_eq, ?_, ?_, ?_, ?_, hinv.admitted, hinv.highest⟩
    · exact fun b hb => hinv.index_lt b (by simp [hpending, hb])
    · exact fun p hp => hinv.reached p (hknows.1 hp)
    · exact fun p hp => hknows.2 (hinv.entered p hp)
    · exact fun p q hp hstep => hknows.2 (hinv.followed p q hp hstep)

/-- A step from the invariant is refused only if a contradiction is reached. -/
theorem Invariant.step_ne_refused (hinv : Invariant m s) (hm : m.ConsistentOn m.ReachesWrapped)
    (e : EditError) : Search.step m s ≠ .refused e := by
  have hreached {a : Arrival} {rest : List Arrival} (hpending : s.pending = a :: rest) :
      m.ReachesWrapped a.point := hinv.reached _ (.inl ⟨a, by simp [hpending], rfl⟩)
  intro h
  cases step_eq_iff.1 h with
  | @rejected a _ insn _ hpending hinsn _ hexpand =>
    have ha := hreached hpending
    obtain ⟨effect, heffect, hpops⟩ := hm.pops_le a.point insn ha hinsn
    have hadmits : m.Admits a.index insn effect.pops :=
      ⟨hm.targets_placed a.point insn ha hinsn, hm.next_exists a.point insn ha hinsn,
        fun hexit => hm.returns_result a.point insn effect ha hinsn hexit heffect,
        hm.no_subroutine a.point insn ha hinsn⟩
    obtain ⟨r, hr⟩ := MethodDecl.exists_expand heffect (StackEffect.pops_le_iff.2 hpops) hadmits
    cases hexpand.symm.trans hr
  | @meeting a _ _ known hpending _ hbefore hother =>
    -- another height at the same place would be reached as well
    have hknown : m.ReachesWrapped ⟨a.index, known.toNat⟩ :=
      hinv.reached _ (.inr ⟨known, hbefore, rfl⟩)
    exact hother (toNat_cast_inj.1 (hm.height_unique _ _ hknown (hreached hpending) rfl))

end Search

namespace MethodDecl

variable {m : MethodDecl}

/-- A table of heights that holds exactly the points that control reaches, counted in 16 bits, each
of them at an instruction that is admitted there, together with the largest height in or behind
it. -/
structure Settled (m : MethodDecl) (r : Heights) : Prop where
  length_eq : r.before.length = m.code.length
  reaches_iff : ∀ p, m.ReachesWrapped p ↔
    ∃ k : UInt16, r.before[p.index]? = some (some k) ∧ p.height = k.toNat
  admitted : ∀ i k insn, r.before[i]? = some (some k) → m.code[i]? = some insn →
    ∃ e, insn.effect = .ok e ∧ e.pops ≤ k ∧ m.Admits i insn e.pops
  highest : IsGreatest {k | Search.Level m r.before k} r.maxStack.toNat

end MethodDecl

namespace Search

variable {m : MethodDecl} {s : Search}

/-- When nothing is pending any more, what is written down is closed under control flow. -/
theorem Invariant.settled (hinv : Invariant m s) (hdone : s.pending = []) :
    m.Settled ⟨s.highest, s.before⟩ := by
  have hknows : ∀ p, s.Knows p ↔ s.Expanded p := by simp [Knows, hdone]
  refine ⟨hinv.length_eq, fun p => ⟨fun hp => ?_, fun hp => hinv.reached p ((hknows p).2 hp)⟩,
    hinv.admitted, hinv.highest⟩
  -- control starts at what is written down, and no step leads out of it
  refine hp.of_closed (P := s.Expanded) ?_ ?_
  · exact fun q hq => (hknows q).1 (hinv.entered q hq)
  · exact fun q r hq hstep => (hknows r.wrapped).1 (hinv.followed q r hq hstep)

/-- A run goes on with the outcome of its first step. -/
theorem run_eq (m : MethodDecl) (s : Search) :
    Search.run m s =
      match Search.step m s with
      | .finished result => .ok result
      | .refused e => .error e
      | .continued next => Search.run m next := by
  rw [Search.run]
  split <;> simp_all

/-- A run that is given up after a number of steps. -/
def runWithin (m : MethodDecl) : Nat → Search → Option (Except EditError Heights)
  | 0, _ => none
  | n + 1, s =>
    match step m s with
    | .finished result => some (.ok result)
    | .refused e => some (.error e)
    | .continued next => runWithin m n next

/-- A run that comes to its end before it is given up is the whole run. -/
theorem run_of_runWithin {n : Nat} {result : Except EditError Heights}
    (h : runWithin m n s = some result) : run m s = result := by
  induction n generalizing s with
  | zero => cases h
  | succ n ih =>
    rw [runWithin] at h
    rw [run_eq]
    split at h
    · exact Option.some.inj h
    · exact Option.some.inj h
    · exact ih h

/-- A run from the invariant ends with a settled table, if it ends with one. -/
theorem Invariant.run (hinv : Invariant m s) {r : Heights} (h : Search.run m s = .ok r) :
    m.Settled r := by
  fun_induction Search.run m s with
  | case1 s result hstep =>
    cases h
    cases step_eq_iff.1 hstep with
    | done hpending => exact hinv.settled hpending
  | case2 s e hstep => cases h
  | case3 s next hstep ih => exact ih (hinv.step hstep) h

/-- A run from the invariant is refused only if a contradiction is reached. -/
theorem Invariant.exists_run (hinv : Invariant m s) (hm : m.ConsistentOn m.ReachesWrapped) :
    ∃ r, Search.run m s = .ok r := by
  fun_induction Search.run m s with
  | case1 s result hstep => exact ⟨result, rfl⟩
  | case2 s e hstep => exact absurd hstep (hinv.step_ne_refused hm e)
  | case3 s next hstep ih => exact ih (hinv.step hstep)

end Search

namespace MethodDecl

variable {m : MethodDecl}

/-! ### The search from the entries -/

theorem handlerArrivals_eq_ok_iff {arrivals : List Arrival} :
    m.handlerArrivals = .ok arrivals ↔ ∃ places,
      m.resolveAll (m.handlers.map ExceptionHandler.handler) = .ok places ∧
        places.map (⟨·, 1⟩) = arrivals := by
  unfold handlerArrivals
  cases m.resolveAll (m.handlers.map ExceptionHandler.handler) <;> simp

/-- The arrivals from which the search starts are the entries of the method. -/
theorem entry_iff {arrivals : List Arrival} (h : m.handlerArrivals = .ok arrivals) (p : Point) :
    m.Entry p ↔ ∃ a ∈ arrivals.reverse ++ m.entries, a.point = p := by
  obtain ⟨places, hplaces, rfl⟩ := handlerArrivals_eq_ok_iff.1 h
  have hmem := mem_of_resolveAll hplaces
  simp only [List.mem_map, exists_exists_and_eq_and] at hmem
  constructor
  · rintro (hcode | ⟨hb, hplace⟩)
    · exact ⟨⟨0, 0⟩, by simp [entries, hcode], rfl⟩
    · exact ⟨⟨_, 1⟩, by simpa using .inl ((hmem _).2 ⟨_, hb, hplace⟩), rfl⟩
  · rintro ⟨a, ha, rfl⟩
    rcases List.mem_append.1 ha with ha | ha
    · simp only [List.mem_reverse, List.mem_map] at ha
      obtain ⟨q, hq, rfl⟩ := ha
      obtain ⟨b, hb, hplace⟩ := (hmem q).1 hq
      exact .handler hb hplace
    · -- only a body that is not empty has a first instruction
      unfold entries at ha
      split at ha
      · simp at ha
      · rename_i hcode
        obtain rfl := List.mem_singleton.1 ha
        exact .start (by simpa using hcode)

theorem Entry.index_lt {p : Point} (h : m.Entry p) : p.index < m.code.length := by
  cases h with
  | start hcode => exact List.length_pos_iff.2 hcode
  | handler hb hplace => exact labelPosition?_lt hplace

/-- The invariant holds when the search begins. -/
theorem invariant_start {arrivals : List Arrival} (h : m.handlerArrivals = .ok arrivals) :
    Search.Invariant m ⟨List.replicate m.code.length none, arrivals.reverse ++ m.entries, 0⟩ := by
  have hnone : ∀ (i : Nat) (k : UInt16),
      (List.replicate m.code.length (none : Option UInt16))[i]? ≠ some (some k) := by
    simp [List.getElem?_replicate]
  have hknows : ∀ p, Search.Knows
      ⟨List.replicate m.code.length none, arrivals.reverse ++ m.entries, 0⟩ p ↔ m.Entry p := by
    intro p
    simp [Search.Knows, Search.Expanded, entry_iff h, hnone]
  refine ⟨by simp, ?_, ?_, ?_, ?_, ?_, ?_⟩
  · exact fun a ha => Entry.index_lt ((hknows a.point).1 (.inl ⟨a, ha, rfl⟩))
  · exact fun p hp => ((hknows p).1 hp).reachesWrapped
  · exact fun p hp => (hknows p).2 hp
  · rintro p q ⟨k, hk, -⟩
    exact absurd hk (hnone _ k)
  · exact fun i k insn hk => absurd hk (hnone i k)
  · refine ⟨.empty, ?_⟩
    rintro k (_ | hk | ⟨hk, -, -⟩)
    · exact le_rfl
    · exact absurd hk (hnone _ _)
    · exact absurd hk (hnone _ _)

theorem heights_eq_ok_iff {r : Heights} :
    m.heights = .ok r ↔ ∃ arrivals, m.handlerArrivals = .ok arrivals ∧
      Search.run m ⟨List.replicate m.code.length none, arrivals.reverse ++ m.entries, 0⟩ =
        .ok r := by
  unfold heights
  cases m.handlerArrivals <;> simp

/-- Heights are known once the search has come to its end. -/
theorem heights_of_runWithin (n : Nat) {arrivals : List Arrival} {result : Except EditError Heights}
    (harrivals : m.handlerArrivals = .ok arrivals)
    (hrun : Search.runWithin m n
      ⟨List.replicate m.code.length none, arrivals.reverse ++ m.entries, 0⟩ = some result) :
    m.heights = result := by
  rw [heights, harrivals]
  exact Search.run_of_runWithin hrun

/-- The heights of a method form a settled table. -/
theorem settled_of_heights {r : Heights} (h : m.heights = .ok r) : m.Settled r := by
  obtain ⟨arrivals, harrivals, hrun⟩ := heights_eq_ok_iff.1 h
  exact (invariant_start harrivals).run hrun

theorem exists_handlerArrivals_iff :
    (∃ arrivals, m.handlerArrivals = .ok arrivals) ↔
      ∀ b ∈ m.handlers, ∃ p, labelPosition? b.handler m.code = some p := by
  have hresolve := @exists_resolveAll_iff m (m.handlers.map ExceptionHandler.handler)
  rw [List.forall_mem_map] at hresolve
  rw [← hresolve]
  simp [handlerArrivals_eq_ok_iff]

/-- A method with a settled table is consistent, if its handlers are placed. -/
theorem Settled.consistent {r : Heights} (h : m.Settled r)
    (hplaced : ∀ b ∈ m.handlers, ∃ p, labelPosition? b.handler m.code = some p) :
    m.ConsistentOn m.ReachesWrapped := by
  -- whatever control reaches stands in the table, where all of it is admitted
  have hadmitted : ∀ p insn, m.ReachesWrapped p → m.code[p.index]? = some insn →
      ∃ e, insn.effect = .ok e ∧ (e.pops.toNat : Int) ≤ p.height ∧
        m.Admits p.index insn e.pops := by
    intro p insn hp hinsn
    obtain ⟨k, hk, hheight⟩ := (h.reaches_iff p).1 hp
    obtain ⟨e, heffect, hpops, hadmits⟩ := h.admitted p.index k insn hk hinsn
    exact ⟨e, heffect, hheight ▸ StackEffect.pops_le_iff.1 hpops, hadmits⟩
  refine ⟨hplaced, ?_, ?_, ?_, ?_, ?_, ?_⟩
  · intro p insn hp hinsn
    obtain ⟨e, -, -, hadmits⟩ := hadmitted p insn hp hinsn
    exact hadmits.targets_placed
  · intro p q hp hq hindex
    obtain ⟨k, hk, hheight⟩ := (h.reaches_iff p).1 hp
    obtain ⟨k', hk', hheight'⟩ := (h.reaches_iff q).1 hq
    rw [← hindex, hk] at hk'
    obtain rfl : k = k' := by simpa using hk'
    rw [hheight, hheight']
  · intro p insn hp hinsn
    obtain ⟨e, heffect, hpops, -⟩ := hadmitted p insn hp hinsn
    exact ⟨e, heffect, hpops⟩
  · intro p insn hp hinsn
    obtain ⟨e, -, -, hadmits⟩ := hadmitted p insn hp hinsn
    exact hadmits.next_exists
  · intro p insn e hp hinsn hexit heffect
    obtain ⟨e', heffect', -, hadmits⟩ := hadmitted p insn hp hinsn
    obtain rfl := Except.ok.inj (heffect.symm.trans heffect')
    exact hadmits.returns_result hexit
  · intro p insn hp hinsn
    obtain ⟨e, -, -, hadmits⟩ := hadmitted p insn hp hinsn
    exact hadmits.no_subroutine

/-- A method has heights exactly if it is consistent, its heights counted in 16 bits. -/
theorem exists_heights_iff : (∃ r, m.heights = .ok r) ↔ m.ConsistentOn m.ReachesWrapped := by
  constructor
  · rintro ⟨r, hr⟩
    obtain ⟨arrivals, harrivals, -⟩ := heights_eq_ok_iff.1 hr
    exact (settled_of_heights hr).consistent (exists_handlerArrivals_iff.1 ⟨arrivals, harrivals⟩)
  · intro hm
    obtain ⟨arrivals, harrivals⟩ := exists_handlerArrivals_iff.2 hm.handlers_placed
    obtain ⟨r, hr⟩ := (invariant_start harrivals).exists_run hm
    exact ⟨r, heights_eq_ok_iff.2 ⟨arrivals, harrivals, hr⟩⟩

/-! ### What the heights say -/

/-- The heights before and behind the instructions that control reaches, and that of the empty
stack. -/
def stackHeights (m : MethodDecl) : Set Int :=
  {k | k = 0 ∨ ∃ p insn e, m.Reaches p ∧ m.code[p.index]? = some insn ∧ insn.effect = .ok e ∧
    (k = p.height ∨ k = p.height + e.net)}

/-- Heights fit into 16 bits before and behind every instruction, on all ways that come to no place
twice. -/
def WithinSlots (m : MethodDecl) : Prop :=
  ∀ places p insn e, m.ReachesOnce places p → m.code[p.index]? = some insn →
    insn.effect = .ok e → p.height ≤ 65535 ∧ p.height + e.net ≤ 65535

/-- The largest height of a settled table is the largest one that control meets, all of them counted
in 16 bits. -/
theorem Settled.isGreatest {r : Heights} (h : m.Settled r) :
    IsGreatest (wrapped '' m.stackHeights) r.maxStack.toNat := by
  constructor
  · have hlevel : Search.Level m r.before r.maxStack.toNat := h.highest.1
    generalize r.maxStack.toNat = top at hlevel ⊢
    rcases hlevel with _ | hk | ⟨hk, hinsn, heffect⟩
    · exact ⟨0, .inl rfl, rfl⟩
    · -- the table is as long as the body, so some instruction stands there
      have hlt := (List.getElem?_eq_some_iff.1 hk).1
      have hinsn := List.getElem?_eq_getElem (h.length_eq ▸ hlt)
      obtain ⟨e, heffect, -⟩ := h.admitted _ _ _ hk hinsn
      obtain ⟨p, hp, hpoint⟩ := (h.reaches_iff ⟨_, _⟩).2 ⟨_, hk, rfl⟩
      obtain ⟨rfl, hheight⟩ := Point.mk.inj hpoint
      exact ⟨p.height, .inr ⟨p, _, e, hp, hinsn, heffect, .inl rfl⟩, hheight⟩
    · obtain ⟨e', heffect', hpops, -⟩ := h.admitted _ _ _ hk hinsn
      obtain rfl := Except.ok.inj (heffect.symm.trans heffect')
      obtain ⟨p, hp, hpoint⟩ := (h.reaches_iff ⟨_, _⟩).2 ⟨_, hk, rfl⟩
      obtain ⟨rfl, hheight⟩ := Point.mk.inj hpoint
      refine ⟨_, .inr ⟨p, _, _, hp, hinsn, heffect, .inr rfl⟩, ?_⟩
      rw [← wrapped_wrapped_add, hheight, StackEffect.wrapped_add_net hpops]
  · -- conversely, the table holds all that is reached, so nothing is higher
    rintro _ ⟨k, rfl | ⟨p, insn, e, hp, hinsn, heffect, hheight⟩, rfl⟩
    · exact Int.natCast_nonneg _
    · obtain ⟨k', hk, hpoint⟩ := (h.reaches_iff p.wrapped).1 hp.wrapped
      obtain ⟨e', heffect', hpops, -⟩ := h.admitted _ _ _ hk hinsn
      obtain rfl := Except.ok.inj (heffect.symm.trans heffect')
      have hpoint : wrapped p.height = k'.toNat := hpoint
      rcases hheight with rfl | rfl
      · rw [hpoint]
        exact Int.ofNat_le.2 (h.highest.2 (.before hk))
      · rw [← wrapped_wrapped_add, hpoint, StackEffect.wrapped_add_net hpops]
        exact Int.ofNat_le.2 (h.highest.2 (.after hk hinsn heffect))

/-- No height that is counted is larger than the largest one of a settled table. -/
theorem Settled.le_maxStack {r : Heights} (h : m.Settled r) {p : Point} {insn : Instruction}
    {e : StackEffect} (hp : m.ReachesWrapped p) (hinsn : m.code[p.index]? = some insn)
    (heffect : insn.effect = .ok e) :
    p.height ≤ r.maxStack.toNat ∧ wrapped (p.height + e.net) ≤ r.maxStack.toNat := by
  obtain ⟨p, hp, rfl⟩ := hp
  have hgreatest := h.isGreatest
  refine ⟨hgreatest.2 ⟨_, .inr ⟨p, insn, e, hp, hinsn, heffect, .inl rfl⟩, rfl⟩, ?_⟩
  rw [Point.wrapped, wrapped_wrapped_add]
  exact hgreatest.2 ⟨_, .inr ⟨p, insn, e, hp, hinsn, heffect, .inr rfl⟩, rfl⟩

namespace WithinSlots

variable {p q : Point} {places : List Nat} {r : Heights}

/-- It is enough that no height at all is too large. -/
theorem of_stackHeights (h : ∀ k ∈ m.stackHeights, k ≤ 65535) : m.WithinSlots :=
  fun _ p insn e honce hinsn heffect =>
    ⟨h _ (.inr ⟨p, insn, e, honce.reaches, hinsn, heffect, .inl rfl⟩),
      h _ (.inr ⟨p, insn, e, honce.reaches, hinsn, heffect, .inr rfl⟩)⟩

variable (hfits : m.WithinSlots) (hm : m.ConsistentOn fun p => m.Reaches p ∧ p.wrapped = p)
include hfits hm

theorem wrapped_of_step (honce : m.ReachesOnce places p) (hsame : p.wrapped = p)
    (hstep : FlowStep m.code p q) : q.wrapped = q := by
  refine hstep.wrapped_eq fun insn e hinsn heffect => ⟨?_, (hfits _ p _ e honce hinsn heffect).2⟩
  obtain ⟨e', heffect', hpops⟩ := hm.pops_le p insn ⟨honce.reaches, hsame⟩ hinsn
  obtain rfl := Except.ok.inj (heffect.symm.trans heffect')
  exact hpops

theorem wrapped_of_reachesOnce (honce : m.ReachesOnce places p) : p.wrapped = p := by
  induction honce with
  | entry hp => exact hp.wrapped_eq
  | step honce hstep _ ih => exact hfits.wrapped_of_step hm honce ih hstep

/-- In a consistent method every point is reached on a way that comes to no place twice. -/
theorem exists_reachesOnce (hp : m.Reaches p) : ∃ places, m.ReachesOnce places p := by
  refine hp.of_closed (P := fun p => ∃ places, m.ReachesOnce places p)
    (fun p hp => ⟨_, .entry hp⟩) ?_
  rintro p q ⟨places, honce⟩ hstep
  by_cases hold : q.index ∈ places
  · -- where a way comes back to a place, it comes with the height of before
    obtain ⟨before, q', honce', hindex⟩ := honce.exists_of_mem hold
    have hsame := hfits.wrapped_of_step hm honce (hfits.wrapped_of_reachesOnce hm honce) hstep
    have hheight : q'.height = q.height :=
      hm.height_unique q' q ⟨honce'.reaches, hfits.wrapped_of_reachesOnce hm honce'⟩
        ⟨honce.reaches.step hstep, hsame⟩ hindex
    obtain rfl : q' = q := Point.ext hindex hheight
    exact ⟨before, honce'⟩
  · exact ⟨_, honce.step hstep hold⟩

/-- So heights are counted as they are. -/
theorem wrapped_eq (hp : m.Reaches p) : p.wrapped = p := by
  obtain ⟨places, honce⟩ := hfits.exists_reachesOnce hm hp
  exact hfits.wrapped_of_reachesOnce hm honce

omit hm

/-- If heights fit into 16 bits, it makes no difference for consistency that they are counted so. -/
theorem reachesWrapped_eq (hm : m.ConsistentOn m.ReachesWrapped ∨ m.Consistent) :
    m.ReachesWrapped = m.Reaches := by
  refine MethodDecl.reachesWrapped_eq fun p hp => hfits.wrapped_eq ?_ hp
  rcases hm with hm | hm
  · exact hm.mono fun p hp => hp.2 ▸ hp.1.wrapped
  · exact hm.mono fun p hp => hp.1

theorem exists_heights_iff : (∃ r, m.heights = .ok r) ↔ m.Consistent := by
  rw [MethodDecl.exists_heights_iff]
  constructor
  · intro hm
    have hsame := hfits.reachesWrapped_eq (.inl hm)
    rwa [hsame] at hm
  · intro hm
    rwa [hfits.reachesWrapped_eq (.inr hm)]

theorem reaches_iff (hr : m.heights = .ok r) {i : Nat} {h : Int} :
    m.Reaches ⟨i, h⟩ ↔ ∃ k, r.at? i = some k ∧ h = k.toNat := by
  have hm := MethodDecl.exists_heights_iff.1 ⟨r, hr⟩
  rw [← hfits.reachesWrapped_eq (.inl hm), (settled_of_heights hr).reaches_iff]
  simp only [Heights.at?_eq_some_iff]

/-- None of the heights is changed by counting it in 16 bits, so the limit is the largest one. -/
theorem isGreatest (hr : m.heights = .ok r) : IsGreatest m.stackHeights r.maxStack.toNat := by
  have hm : m.Consistent := hfits.exists_heights_iff.1 ⟨r, hr⟩
  have hcounted : ∀ k ∈ m.stackHeights, wrapped k = k := by
    rintro k (rfl | ⟨p, insn, e, hp, hinsn, heffect, hk⟩)
    · rfl
    · obtain ⟨e', heffect', hpops⟩ := hm.pops_le p insn hp hinsn
      obtain rfl := Except.ok.inj (heffect.symm.trans heffect')
      obtain ⟨places, honce⟩ := hfits.exists_reachesOnce (hm.mono fun p hp => hp.1) hp
      obtain ⟨hbefore, hbehind⟩ := hfits places p insn e honce hinsn heffect
      have hnet : e.net = (e.pushes.toNat : Int) - e.pops.toNat := rfl
      exact wrapped_of_le (by omega) (by omega)
  have himage : wrapped '' m.stackHeights = m.stackHeights := by
    rw [Set.image_congr hcounted, Set.image_id']
  exact himage ▸ (settled_of_heights hr).isGreatest

end WithinSlots

/-- A method whose heights fit into 16 bits has heights exactly if it is consistent. They are then
the heights with which control reaches its instructions, and the limit is the largest height that
control meets. -/
theorem heights_decide (m : MethodDecl) (hfits : m.WithinSlots) :
    ((∃ r, m.heights = .ok r) ↔ m.Consistent) ∧
      ∀ r, m.heights = .ok r →
        r.before.length = m.code.length ∧
          (∀ i h, m.Reaches ⟨i, h⟩ ↔ ∃ k, r.at? i = some k ∧ h = k.toNat) ∧
            IsGreatest m.stackHeights r.maxStack.toNat :=
  ⟨hfits.exists_heights_iff, fun _ hr =>
    ⟨(settled_of_heights hr).length_eq, fun _ _ => hfits.reaches_iff hr, hfits.isGreatest hr⟩⟩

/-- A loop that pushes the value on which it branches. -/
theorem heights_decide_of_loop :
    let m : MethodDecl := ⟨"f", "()V", ⟨8⟩, [], .void, [.label ⟨0⟩, .simple Opcode.iconst0,
      .jump Opcode.ifeq ⟨0⟩, .simple Opcode.vreturn], [], 1, 0⟩
    m.WithinSlots ∧ ((∃ r, m.heights = .ok r) ↔ m.Consistent) ∧
      ∀ r, m.heights = .ok r →
        r.before.length = m.code.length ∧
          (∀ i h, m.Reaches ⟨i, h⟩ ↔ ∃ k, r.at? i = some k ∧ h = k.toNat) ∧
            IsGreatest m.stackHeights r.maxStack.toNat := by
  intro m
  -- only the branch finds something on the stack
  have hheight : ∀ p, m.Reaches p → p.height = if p.index = 2 then 1 else 0 := by
    intro p hp
    refine hp.of_closed (P := fun p => p.height = if p.index = 2 then 1 else 0) ?_ ?_
    · rintro p (_ | ⟨hb, -⟩)
      · rfl
      · exact absurd hb List.not_mem_nil
    · rintro ⟨i, h⟩ q hnow hstep
      obtain ⟨insn, e, hinsn, heffect, hq, hwhere⟩ := flowStep_iff.1 hstep
      obtain rfl : h = if i = 2 then 1 else 0 := hnow
      match i, hinsn with
      | 0, rfl | 1, rfl | 2, rfl | 3, rfl =>
        cases heffect
        rcases hwhere with ⟨hflow, hnext⟩ | ⟨l, hl, hplace⟩
        · first
            | exact absurd hflow (by decide)
            | simpa [hnext, StackEffect.net] using hq
        · first
            | exact absurd hl List.not_mem_nil
            | (obtain rfl := List.mem_singleton.1 hl
               have hzero : 0 = q.index := Option.some.inj hplace
               simpa [StackEffect.net, ← hzero] using hq)
  have hfits : m.WithinSlots := by
    refine .of_stackHeights ?_
    rintro k (rfl | ⟨⟨i, h⟩, insn, e, hp, hinsn, heffect, hk⟩)
    · decide
    · have hnow := hheight _ hp
      match i, hinsn with
      | 0, rfl | 1, rfl | 2, rfl | 3, rfl =>
        cases heffect
        simp only [StackEffect.net] at hk hnow
        simp at hk hnow
        omega
  exact ⟨hfits, m.heights_decide hfits⟩

end MethodDecl

end ClassEdit
