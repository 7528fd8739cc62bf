import ClassEdit.Heights
import Mathlib.Logic.Relation

/-!
# Control flow of a body

Control moves through a body from point to point. A point is a place in the body together with the
height of the operand stack there; heights are integers, because a fragment counts them from where
it is spliced in and may go below that. An instruction that goes on leads to the place behind it,
which may be the end of the code, and a branch leads to the place of its label. Both change the
height by the effect of the instruction.

A table of heights has room for 16 bits of each height. What it can hold of the points that control
reaches are the same points with their heights counted modulo `2 ^ 16`.

## Main definitions

* `Point`, `FlowStep`: points, and one step of control.
* `MethodDecl.Entry`, `MethodDecl.Reaches`: where control enters a method, and the points that it
  reaches from there.
* `MethodDecl.ReachesOnce`: the points that it reaches without coming to a place twice.
* `wrapped`, `MethodDecl.ReachesWrapped`: heights counted in 16 bits, and the points that control
  reaches with their heights counted so.

## Main results

* `labelPosition?_append`: in code made of two parts the last place of a label is that in the second
  part, if it has one there.
* `MethodDecl.Reaches.of_closed`, `MethodDecl.ReachesWrapped.of_closed`: a set that holds the
  entries and is closed under steps holds all points that are reached.
-/

namespace ClassEdit

variable {code first second : List Instruction} {insn : Instruction} {l : Label} {i j p : Nat}

/-! ### Places of labels -/

theorem Instruction.placed?_eq_some_iff : insn.placed? = some l ↔ insn = .label l := by
  cases insn <;> simp [Instruction.placed?]

theorem labelPosition?_cons :
    labelPosition? l (insn :: code) =
      ((labelPosition? l code).map (· + 1)).or
        (if insn.placed? = some l then some 0 else none) := by
  rw [labelPosition?]
  cases labelPosition? l code <;> rfl

/-- The last place of a label in two parts of code. -/
theorem labelPosition?_append :
    labelPosition? l (first ++ second) =
      ((labelPosition? l second).map (first.length + ·)).or (labelPosition? l first) := by
  induction first with
  | nil => simp [labelPosition?]
  | cons insn first ih =>
    rw [List.cons_append, labelPosition?_cons, ih, labelPosition?_cons]
    cases h : labelPosition? l second with
    | none => simp
    | some q => simp [Nat.add_right_comm]

/-- A label is placed where it is found. -/
theorem getElem?_of_labelPosition? (h : labelPosition? l code = some p) :
    code[p]? = some (.label l) := by
  induction code generalizing p with
  | nil => simp [labelPosition?] at h
  | cons insn code ih =>
    rw [labelPosition?_cons] at h
    -- a place in the rest goes before one here
    cases hrest : labelPosition? l code with
    | some q =>
      obtain rfl : q + 1 = p := by simpa [hrest] using h
      simpa using ih hrest
    | none =>
      by_cases hhere : insn.placed? = some l
      · obtain rfl : 0 = p := by simpa [hrest, hhere] using h
        simpa using Instruction.placed?_eq_some_iff.1 hhere
      · simp [hrest, hhere] at h

theorem labelPosition?_lt (h : labelPosition? l code = some p) : p < code.length :=
  (List.getElem?_eq_some_iff.1 (getElem?_of_labelPosition? h)).1

/-- A label has a position exactly if some instruction places it. -/
theorem exists_labelPosition?_iff :
    (∃ p, labelPosition? l code = some p) ↔ Instruction.label l ∈ code := by
  constructor
  · rintro ⟨p, hp⟩
    exact List.mem_of_getElem? (getElem?_of_labelPosition? hp)
  · intro h
    induction code with
    | nil => simp at h
    | cons insn code ih =>
      rw [labelPosition?_cons]
      rcases List.mem_cons.1 h with rfl | h
      · cases labelPosition? l code <;> simp [Instruction.placed?]
      · obtain ⟨p, hp⟩ := ih h
        simp [hp]

/-! ### Steps -/

/-- Whether control may go to a label after an instruction of this kind. -/
def Flow.branches : Flow → Bool
  | .conditional | .unconditional | .switch | .subroutine => true
  | _ => false

/-- Only branches have targets. -/
theorem Instruction.targets_eq_nil (h : insn.flow.branches = false) : insn.targets = [] := by
  cases insn with
  | jump opcode target =>
    simp only [Instruction.flow] at h
    split at h
    · cases h
    · split at h <;> cases h
  | tableSwitch | lookupSwitch => cases h
  | _ => rfl

/-- A place in a body and the height of the operand stack there. -/
@[ext]
structure Point where
  index : Nat
  height : Int

/-- One step of control through code. -/
inductive FlowStep (code : List Instruction) : Point → Point → Prop
  /-- An instruction that goes on is followed by the next one. -/
  | next {i : Nat} {h : Int} {insn : Instruction} {e : StackEffect} (hinsn : code[i]? = some insn)
      (heffect : insn.effect = .ok e) (hflow : insn.flow.fallsThrough = true) :
      FlowStep code ⟨i, h⟩ ⟨i + 1, h + e.net⟩
  /-- A branch is followed by what stands at the label. -/
  | branch {i p : Nat} {h : Int} {insn : Instruction} {e : StackEffect} {l : Label}
      (hinsn : code[i]? = some insn) (heffect : insn.effect = .ok e) (htarget : l ∈ insn.targets)
      (hplace : labelPosition? l code = some p) :
      FlowStep code ⟨i, h⟩ ⟨p, h + e.net⟩

theorem flowStep_iff {p q : Point} :
    FlowStep code p q ↔ ∃ insn e, code[p.index]? = some insn ∧ insn.effect = .ok e ∧
      q.height = p.height + e.net ∧
        (insn.flow.fallsThrough = true ∧ q.index = p.index + 1 ∨
          ∃ l ∈ insn.targets, labelPosition? l code = some q.index) := by
  constructor
  · rintro (⟨hinsn, heffect, hflow⟩ | ⟨hinsn, heffect, htarget, hplace⟩)
    · exact ⟨_, _, hinsn, heffect, rfl, .inl ⟨hflow, rfl⟩⟩
    · exact ⟨_, _, hinsn, heffect, rfl, .inr ⟨_, htarget, hplace⟩⟩
  · obtain ⟨i, h⟩ := p
    obtain ⟨j, k⟩ := q
    rintro ⟨insn, e, hinsn, heffect, rfl, ⟨hflow, rfl⟩ | ⟨l, htarget, hplace⟩⟩
    · exact .next hinsn heffect hflow
    · exact .branch hinsn heffect htarget hplace

namespace MethodDecl

variable {m : MethodDecl}

/-- The points at which control enters a method: its beginning with an empty stack, and every
exception handler with the exception alone. -/
inductive Entry (m : MethodDecl) : Point → Prop
  | start (hcode : m.code ≠ []) : Entry m ⟨0, 0⟩
  | handler {b : ExceptionHandler} {p : Nat} (hb : b ∈ m.handlers)
      (hplace : labelPosition? b.handler m.code = some p) : Entry m ⟨p, 1⟩

/-- The points that control reaches from the entries of a method. -/
def Reaches (m : MethodDecl) (q : Point) : Prop :=
  ∃ p, m.Entry p ∧ Relation.ReflTransGen (FlowStep m.code) p q

theorem Entry.reaches {p : Point} (h : m.Entry p) : m.Reaches p := ⟨p, h, .refl⟩

theorem Reaches.step {p q : Point} (h : m.Reaches p) (hstep : FlowStep m.code p q) :
    m.Reaches q := by
  obtain ⟨r, hentry, hpath⟩ := h
  exact ⟨r, hentry, hpath.tail hstep⟩

/-- What holds at the entries and is kept by every step holds wherever control gets. -/
theorem Reaches.of_closed {P : Point → Prop} (hentry : ∀ p, m.Entry p → P p)
    (hstep : ∀ p q, P p → FlowStep m.code p q → P q) {q : Point} (h : m.Reaches q) : P q := by
  obtain ⟨p, hp, hpath⟩ := h
  induction hpath with
  | refl => exact hentry p hp
  | tail _ hlast ih => exact hstep _ _ ih hlast

/-- The points that control reaches on ways that come to no place twice, with the places that it
has come to, the last one first. -/
inductive ReachesOnce (m : MethodDecl) : List Nat → Point → Prop
  | entry {p : Point} (h : m.Entry p) : ReachesOnce m [p.index] p
  | step {places : List Nat} {p q : Point} (h : ReachesOnce m places p)
      (hstep : FlowStep m.code p q) (hnew : q.index ∉ places) :
      ReachesOnce m (q.index :: places) q

theorem ReachesOnce.reaches {places : List Nat} {p : Point} (h : m.ReachesOnce places p) :
    m.Reaches p := by
  induction h with
  | entry h => exact h.reaches
  | step _ hstep _ ih => exact ih.step hstep

/-- The places on such a way were come to on such ways. -/
theorem ReachesOnce.exists_of_mem {places : List Nat} {p : Point} (h : m.ReachesOnce places p)
    {i : Nat} (hi : i ∈ places) : ∃ before q, m.ReachesOnce before q ∧ q.index = i := by
  induction h with
  | entry h => exact ⟨_, _, .entry h, (List.mem_singleton.1 hi).symm⟩
  | step h hstep hnew ih =>
    rcases List.mem_cons.1 hi with rfl | hi
    · exact ⟨_, _, .step h hstep hnew, rfl⟩
    · exact ih hi

end MethodDecl

/-! ### Heights counted in 16 bits -/

/-- What 16 bits hold of a height. -/
def wrapped (k : Int) : Int := k % 65536

theorem wrapped_nonneg (k : Int) : 0 ≤ wrapped k := by
  unfold wrapped
  omega

theorem wrapped_le (k : Int) : wrapped k ≤ 65535 := by
  unfold wrapped
  omega

theorem wrapped_of_le {k : Int} (hnonneg : 0 ≤ k) (hle : k ≤ 65535) : wrapped k = k := by
  unfold wrapped
  omega

/-- Counting on from a height that was counted in 16 bits makes no difference. -/
theorem wrapped_wrapped_add (k n : Int) : wrapped (wrapped k + n) = wrapped (k + n) :=
  Int.emod_add_emod k 65536 n

theorem wrapped_wrapped (k : Int) : wrapped (wrapped k) = wrapped k := Int.emod_emod k 65536

theorem wrapped_toNat (k : UInt16) : wrapped k.toNat = k.toNat := by
  have hlt := k.toNat_lt
  exact wrapped_of_le (by omega) (by omega)

/-- The point with its height counted in 16 bits. -/
def Point.wrapped (p : Point) : Point := ⟨p.index, ClassEdit.wrapped p.height⟩

/-- Behind an instruction that finds what it pops the height is counted as it is, if it fits in. -/
theorem FlowStep.wrapped_eq {p q : Point} (h : FlowStep code p q)
    (hfits : ∀ insn e, code[p.index]? = some insn → insn.effect = .ok e →
      (e.pops.toNat : Int) ≤ p.height ∧ p.height + e.net ≤ 65535) : q.wrapped = q := by
  obtain ⟨insn, e, hinsn, heffect, hheight, -⟩ := flowStep_iff.1 h
  obtain ⟨hpops, hmax⟩ := hfits insn e hinsn heffect
  have hnet : e.net = (e.pushes.toNat : Int) - e.pops.toNat := rfl
  exact Point.ext rfl (wrapped_of_le (by omega) (by omega))

/-- A step leads to the same place from a point whose height was counted in 16 bits. -/
theorem FlowStep.wrapped {p q : Point} (h : FlowStep code p q) :
    ∃ r, FlowStep code p.wrapped r ∧ r.wrapped = q.wrapped := by
  obtain ⟨insn, e, hinsn, heffect, hheight, hwhere⟩ := flowStep_iff.1 h
  refine ⟨⟨q.index, p.wrapped.height + e.net⟩,
    flowStep_iff.2 ⟨insn, e, hinsn, heffect, rfl, hwhere⟩, Point.ext rfl ?_⟩
  exact (wrapped_wrapped_add _ _).trans (congrArg ClassEdit.wrapped hheight.symm)

/-- A step from a point whose height was counted in 16 bits is a step from the point itself. -/
theorem FlowStep.of_wrapped {p q : Point} (h : FlowStep code p.wrapped q) :
    ∃ r, FlowStep code p r ∧ r.wrapped = q.wrapped := by
  obtain ⟨insn, e, hinsn, heffect, hheight, hwhere⟩ := flowStep_iff.1 h
  refine ⟨⟨q.index, p.height + e.net⟩, flowStep_iff.2 ⟨insn, e, hinsn, heffect, rfl, hwhere⟩,
    Point.ext rfl ?_⟩
  exact (wrapped_wrapped_add _ _).symm.trans (congrArg ClassEdit.wrapped hheight.symm)

namespace MethodDecl

variable {m : MethodDecl}

/-- The points that control reaches, with their heights counted in 16 bits. -/
def ReachesWrapped (m : MethodDecl) (q : Point) : Prop := ∃ p, m.Reaches p ∧ p.wrapped = q

theorem Reaches.wrapped {p : Point} (h : m.Reaches p) : m.ReachesWrapped p.wrapped := ⟨p, h, rfl⟩

/-- The heights at the entries are small. -/
theorem Entry.wrapped_eq {p : Point} (h : m.Entry p) : p.wrapped = p := by
  cases h <;> rfl

theorem Entry.reachesWrapped {p : Point} (h : m.Entry p) : m.ReachesWrapped p :=
  ⟨p, h.reaches, h.wrapped_eq⟩

theorem ReachesWrapped.step {p q : Point} (h : m.ReachesWrapped p) (hstep : FlowStep m.code p q) :
    m.ReachesWrapped q.wrapped := by
  obtain ⟨p, hp, rfl⟩ := h
  obtain ⟨r, hstep', hr⟩ := hstep.of_wrapped
  exact ⟨r, hp.step hstep', hr⟩

/-- If no height that control meets is changed by counting it in 16 bits, the points that it reaches
are the same. -/
theorem reachesWrapped_eq (h : ∀ p, m.Reaches p → p.wrapped = p) :
    m.ReachesWrapped = m.Reaches := by
  funext p
  refine propext ⟨?_, fun hp => ⟨p, hp, h p hp⟩⟩
  rintro ⟨q, hq, rfl⟩
  rwa [h q hq]

/-- What holds at the entries and is kept by every step holds wherever control gets. -/
theorem ReachesWrapped.of_closed {P : Point → Prop} (hentry : ∀ p, m.Entry p → P p)
    (hstep : ∀ p q, P p → FlowStep m.code p q → P q.wrapped) {q : Point}
    (h : m.ReachesWrapped q) : P q := by
  obtain ⟨p, hp, rfl⟩ := h
  refine hp.of_closed (P := fun p => P p.wrapped) ?_ ?_
  · exact fun p hp => hp.wrapped_eq.symm ▸ hentry p hp
  · intro p q hp hpq
    obtain ⟨r, hpr, hr⟩ := hpq.wrapped
    exact hr ▸ hstep _ _ hp hpr

end MethodDecl

end ClassEdit
