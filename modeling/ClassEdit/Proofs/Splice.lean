import ClassEdit.Edit.Splice
import ClassEdit.Proofs.Annotated
import Mathlib.Order.Lattice
import Mathlib.Data.Nat.Basic

/-!
# Splicing neutral fragments

A fragment is neutral if it can be followed from height zero back to height zero, on every path,
without consuming more than is available to it. Copies of neutral fragments can be put around the
instructions of a body without changing any of the heights that the body had: a copy is reached with
the height that arrives at its place, and it leaves with the same height.

The notes for the spliced code are put together piece by piece. Labels tie the pieces to each other,
and here it matters that every copy has label numbers of its own: a piece needs to know the labels
of the body and those of its own range, and it keeps out of all other ranges.

Label numbers have 32 bits and heights 16. A copy gets numbers of its own as long as there are some
left, and it is followed as a fragment is as long as its heights fit in above those of the body.

## Main definitions

* `numberBound`, `Fragment.numbers`, `Plan.numbers`: label numbers counted without a limit.
* `Permitted`: what an instruction has to meet to be followed by the search for heights.
* `Fragment.Neutral`: fragments that keep the height.
* `Stands`: spliced code stands for a part of a body.
* `Plan.position`: the place that an instruction of the body gets in the spliced code.

## Main results

* `Linked.copied`: notes for a fragment, moved to a copy of it.
* `Stands.append`: pieces of spliced code, put together.
* `Plan.exists_block`, `Plan.exists_stands`: notes for what takes the place of one instruction and
  for all spliced code, which agree with those for the body.
-/

namespace ClassEdit

/-! ### Label numbers -/

/-- The least number above those of a list of labels, counted without a limit. -/
def numberBound (labels : List Label) : Nat :=
  labels.foldr (fun label bound => max (label.number.toNat + 1) bound) 0

theorem lt_numberBound {labels : List Label} {l : Label} (h : l ∈ labels) :
    l.number.toNat < numberBound labels := by
  induction labels with
  | nil => simp at h
  | cons first labels ih =>
    rw [numberBound, List.foldr_cons]
    rcases List.mem_cons.1 h with rfl | h
    · exact Nat.lt_of_succ_le (le_max_left _ _)
    · exact (ih h).trans_le (le_max_right _ _)

theorem numberBound_le (labels : List Label) : numberBound labels ≤ 4294967296 := by
  induction labels with
  | nil => exact Nat.zero_le _
  | cons first labels ih => exact max_le first.number.toNat_lt ih

/-- As long as no number is the last one, the bound is what was counted. -/
theorem toNat_labelBound {labels : List Label} (h : numberBound labels < 4294967296) :
    (labelBound labels).toNat = numberBound labels := by
  induction labels with
  | nil => rfl
  | cons first labels ih =>
    rw [numberBound, List.foldr_cons, ← numberBound] at h ⊢
    have hfirst : (first.number + 1).toNat = first.number.toNat + 1 := by
      rw [UInt32.toNat_add, UInt32.toNat_one]
      exact Nat.mod_eq_of_lt ((le_max_left _ _).trans_lt h)
    rw [labelBound, List.foldr_cons, ← labelBound, UInt32.toNat_max, hfirst,
      ih ((le_max_right _ _).trans_lt h)]

/-- How many label numbers a copy of a fragment takes up. -/
def Fragment.numbers (f : Fragment) : Nat := numberBound (f.code.filterMap Instruction.placed?)

theorem Fragment.toNat_labelSpan {f : Fragment} (h : f.numbers < 4294967296) :
    f.labelSpan.toNat = f.numbers := toNat_labelBound h

/-- A label moved as far as the numbers go. -/
theorem Label.toNat_shift {l : Label} {offset : UInt32}
    (h : offset.toNat + l.number.toNat < 4294967296) :
    (l.shift offset).number.toNat = offset.toNat + l.number.toNat := by
  rw [shift, UInt32.toNat_add, Nat.add_comm l.number.toNat]
  exact Nat.mod_eq_of_lt h

/-! ### Copies with other labels -/

namespace Instruction

variable (offset : UInt32) (insn : Instruction)

theorem effect_relabeled : (insn.relabeled offset).effect = insn.effect := by
  cases insn <;> rfl

theorem flow_relabeled : (insn.relabeled offset).flow = insn.flow := by
  cases insn <;> rfl

theorem targets_relabeled :
    (insn.relabeled offset).targets = insn.targets.map (Label.shift offset) := by
  cases insn <;> rfl

theorem placed?_relabeled :
    (insn.relabeled offset).placed? = insn.placed?.map (Label.shift offset) := by
  cases insn <;> rfl

end Instruction

namespace AnnotatedCode

variable {A : AnnotatedCode} {l : Label} {offset : UInt32} {base : Int}

/-- Notes for a copy with other labels, reached with another height. They are counted in 16 bits. -/
def copied (A : AnnotatedCode) (offset : UInt32) (base : Int) : AnnotatedCode :=
  A.map fun entry => (entry.1.relabeled offset, entry.2.map fun k => wrapped (base + k))

theorem code_copied : (A.copied offset base).code = A.code.map (Instruction.relabeled offset) := by
  simp [copied, code, Function.comp_def]

/-- A copy has the same notes at the labels that were moved. -/
theorem noteAt?_copied :
    noteAt? (l.shift offset) (A.copied offset base) =
      (noteAt? l A).map (Option.map fun k => wrapped (base + k)) := by
  induction A with
  | nil => rfl
  | cons entry A ih =>
    obtain ⟨insn, note⟩ := entry
    -- shifted labels are told apart as the labels were
    have hplaced : (insn.relabeled offset).placed? = some (l.shift offset) ↔
        insn.placed? = some l := by
      rw [Instruction.placed?_relabeled, Option.map_eq_some_iff]
      constructor
      · rintro ⟨l', hl', hshift⟩
        rw [hl', Label.shift_injective hshift]
      · exact fun h => ⟨l, h, rfl⟩
    show (noteAt? (l.shift offset) (copied A offset base)).or _ = _
    rw [ih, noteAt?]
    cases noteAt? l A with
    | some note' => rfl
    | none =>
      by_cases hhere : insn.placed? = some l
      · simp [hhere, hplaced.2 hhere]
      · simp [hhere, mt hplaced.1 hhere]

end AnnotatedCode

section Copied

variable {P Q : Instruction → StackEffect → Int → Prop} {known known' : Label → Option Int}
variable {arriving leaving : Option Int} {A : AnnotatedCode} {offset : UInt32} {base : Int}

/-- Notes stay linked when they are moved to a copy and counted in 16 bits. -/
theorem Linked.copied (h : Linked id P known arriving A leaving)
    (hcondition : ∀ insn e k, P insn e k → Q (insn.relabeled offset) e (wrapped (base + k)))
    (hknown : ∀ l k, known l = some k → known' (l.shift offset) = some (wrapped (base + k))) :
    Linked wrapped Q known' (arriving.map fun k => wrapped (base + k)) (A.copied offset base)
      (leaving.map fun k => wrapped (base + k)) := by
  induction h with
  | nil h =>
    refine .nil fun k hk => ?_
    obtain ⟨k', hk', rfl⟩ := Option.map_eq_some_iff.1 hk
    rw [h k' hk', Option.map_some]
  | unreached _ ih => exact .unreached ih
  | @reached arriving _ insn k e _ harriving heffect hhere htargets _ ih =>
    have hnet : wrapped (wrapped (base + k) + e.net) = wrapped (base + (k + e.net)) := by
      rw [wrapped_wrapped_add, Int.add_assoc]
    refine .reached ?_ ?_ (hcondition _ _ _ hhere) ?_ ?_
    · intro k' hk'
      obtain ⟨k'', hk'', rfl⟩ := Option.map_eq_some_iff.1 hk'
      rw [harriving k'' hk'']
    · rw [Instruction.effect_relabeled]
      exact heffect
    · intro l hl
      rw [Instruction.targets_relabeled] at hl
      obtain ⟨l', hl', rfl⟩ := List.mem_map.1 hl
      rw [hnet]
      exact hknown l' _ (htargets l' hl')
    · rw [Instruction.flow_relabeled, hnet]
      -- the height that arrives behind the instruction, if any, is moved like the others
      split at ih
      · rename_i hflow
        rw [if_pos hflow]
        exact ih
      · rename_i hflow
        rw [if_neg hflow]
        exact ih

end Copied

/-! ### Neutral fragments -/

/-- What the search for heights asks of an instruction that is reached, apart from where control
goes next, when `available` slots lie below height zero. -/
structure Permitted (result : TypeDescriptor) (available : Nat) (insn : Instruction)
    (e : StackEffect) (k : Int) : Prop where
  pops_le : (e.pops.toNat : Int) ≤ available + k
  no_subroutine : insn.flow ≠ .subroutine
  returns_result : insn.flow = .exit → e.pops = result.slots

/-- Of an instruction that only goes on, nothing is asked but that there is enough to pop. -/
theorem Permitted.of_sequential {result : TypeDescriptor} {available : Nat} {insn : Instruction}
    {e : StackEffect} {k : Int} (hflow : insn.flow = .sequential)
    (hpops : (e.pops.toNat : Int) ≤ available + k) : Permitted result available insn e k :=
  ⟨hpops, by simp [hflow], by simp [hflow]⟩

/-- A fragment that can be followed from height zero to height zero on every path, in a method with
the given result, when `available` slots may be consumed. Its instructions are reached with heights
that do not exceed `room`. -/
def Fragment.Neutral (result : TypeDescriptor) (available room : Nat) (f : Fragment) : Prop :=
  ∃ A : AnnotatedCode, A.code = f.code ∧
    Linked id (fun insn e k => Permitted result available insn e k ∧ k ≤ room) A.labelHeight?
      (some 0) A (some 0)

theorem Instruction.mem_labels_of_mem_targets {insn : Instruction} {l : Label}
    (h : l ∈ insn.targets) : l ∈ insn.labels := by
  cases insn with
  | label | line => simp [Instruction.targets] at h
  | _ => exact h

/-- The labels that a fragment places are numbered below as many as a copy takes up. -/
theorem Fragment.number_lt_numbers {f : Fragment} {l : Label} (h : .label l ∈ f.code) :
    l.number.toNat < f.numbers :=
  lt_numberBound (List.mem_filterMap.2 ⟨_, h, rfl⟩)

/-- There are as many label numbers as are needed, from the number `first` on, which is the next one
to be used. If none are needed, it does not matter which one is the next. -/
def NumbersFrom (next : UInt32) (first needed : Nat) : Prop :=
  needed ≠ 0 → next.toNat = first ∧ first + needed ≤ 4294967296

/-- A copy with the numbers of the fragment itself. -/
theorem Fragment.numbersFrom_zero (f : Fragment) : NumbersFrom 0 0 f.numbers :=
  fun _ => ⟨rfl, (Nat.zero_add _).le.trans (numberBound_le _)⟩

theorem NumbersFrom.left {next : UInt32} {first needed others : Nat}
    (h : NumbersFrom next first (needed + others)) : NumbersFrom next first needed := by
  intro hneeded
  obtain ⟨hnext, hroom⟩ := h (by omega)
  exact ⟨hnext, by omega⟩

/-- Behind a copy, there are the numbers that it does not take up. -/
theorem NumbersFrom.behind {f : Fragment} {next : UInt32} {first others : Nat}
    (h : NumbersFrom next first (f.numbers + others)) :
    NumbersFrom (next + f.labelSpan) (first + f.numbers) others := by
  intro hothers
  obtain ⟨hnext, hroom⟩ := h (by omega)
  rw [UInt32.toNat_add, f.toNat_labelSpan (by omega), hnext]
  exact ⟨Nat.mod_eq_of_lt (by omega), by omega⟩

/-- The labels of a copy are numbered from where it starts, as long as there are numbers left. -/
theorem Fragment.number_of_mem_relabeled {f : Fragment} {offset : UInt32} {first : Nat} {l : Label}
    (hroom : NumbersFrom offset first f.numbers) (h : .label l ∈ f.relabeled offset) :
    first ≤ l.number.toNat ∧ l.number.toNat < first + f.numbers := by
  obtain ⟨insn, hinsn, hl⟩ := List.mem_map.1 h
  have hplaced := Instruction.placed?_relabeled offset insn
  rw [hl, Instruction.placed?, eq_comm, Option.map_eq_some_iff] at hplaced
  obtain ⟨l', hl', rfl⟩ := hplaced
  rw [Instruction.placed?_eq_some_iff] at hl'
  have hlt := f.number_lt_numbers (hl' ▸ hinsn)
  obtain ⟨rfl, hroom⟩ := hroom (by omega)
  rw [Label.toNat_shift (by omega)]
  omega

/-- The numbers that copies of fragments take up. -/
def numbersOf : List Fragment → Nat
  | [] => 0
  | f :: fs => f.numbers + numbersOf fs

/-- Copies leave the numbers behind those that they take up. -/
theorem NumbersFrom.copies {fs : List Fragment} {next : UInt32} {first others : Nat}
    (h : NumbersFrom next first (numbersOf fs + others)) :
    NumbersFrom (copies next fs).2 (first + numbersOf fs) others := by
  induction fs generalizing next first with
  | nil => simpa [numbersOf, ClassEdit.copies] using h
  | cons f fs ih =>
    rw [numbersOf, Nat.add_assoc] at h
    rw [numbersOf, ← Nat.add_assoc]
    exact ih h.behind

/-- The numbers that the copies around one instruction take up. -/
def numbersAt : Option Replacement → Nat
  | none => 0
  | some r => numbersOf r.before + numbersOf r.after

/-- The numbers that the copies of a plan take up. -/
def Plan.numbers : Plan → Nat
  | [] => 0
  | (_, r) :: plan => numbersAt r + numbers plan

/-- There are label numbers left for all copies of a plan, above those of the body. -/
def Plan.NumbersFit (plan : Plan) (code : List Instruction) : Prop :=
  plan.numbers ≠ 0 → numberBound (code.flatMap Instruction.labels) + plan.numbers ≤ 4294967296

instance (plan : Plan) (code : List Instruction) : Decidable (plan.NumbersFit code) :=
  inferInstanceAs (Decidable (_ → _))

theorem Plan.NumbersFit.numbersFrom {plan : Plan} {code : List Instruction}
    (h : plan.NumbersFit code) : NumbersFrom (freshLabel code)
      (numberBound (code.flatMap Instruction.labels)) plan.numbers := by
  intro hneeded
  have hroom := h hneeded
  exact ⟨toNat_labelBound (by omega), hroom⟩

/-! ### Pieces of spliced code -/

section Stands

variable {result : TypeDescriptor} {known : Label → Option Int} {bound : Nat}
variable {next middle last : Nat} {arriving between leaving : Option Int}
variable {A A' B B' : AnnotatedCode}

/-- Spliced code `B` stands for a part `A` of a body whose labels are numbered below `bound`. It
keeps the notes at the labels of the body, places no other labels than some between `next` and
`last`, and its notes are linked as soon as the heights at both are known. -/
structure Stands (result : TypeDescriptor) (known : Label → Option Int) (bound next last : Nat)
    (A : AnnotatedCode) (arriving : Option Int) (B : AnnotatedCode) (leaving : Option Int) :
    Prop where
  bound_le : bound ≤ next
  next_le : next ≤ last
  linked : ∀ known' : Label → Option Int, (∀ l, l.number.toNat < bound → known' l = known l) →
    (∀ l, next ≤ l.number.toNat → l.number.toNat < last → known' l = B.labelHeight? l) →
      Linked wrapped (Permitted result 0) known' arriving B leaving
  old_notes : ∀ l, l.number.toNat < bound → B.noteAt? l = A.noteAt? l
  new_labels : ∀ l, bound ≤ l.number.toNat → B.noteAt? l ≠ none →
    next ≤ l.number.toNat ∧ l.number.toNat < last

namespace Stands

theorem nil (hbound : bound ≤ next) (h : ∀ k, arriving = some k → leaving = some k) :
    Stands result known bound next next [] arriving [] leaving :=
  ⟨hbound, le_rfl, fun _ _ _ => .nil h, fun _ _ => rfl, fun _ _ h => absurd rfl h⟩

/-- Pieces with different labels can be put together. -/
theorem append (h : Stands result known bound next middle A arriving B between)
    (h' : Stands result known bound middle last A' between B' leaving) :
    Stands result known bound next last (A ++ A') arriving (B ++ B') leaving := by
  refine ⟨h.bound_le, h.next_le.trans h'.next_le, ?_, ?_, ?_⟩
  · intro known' hold hnew
    refine (h.linked known' hold fun l hnext hmiddle => ?_).append
      (h'.linked known' hold fun l hmiddle hlast => ?_)
    · -- a label of the first piece is not placed in the second one
      rw [hnew l hnext (hmiddle.trans_le h'.next_le), AnnotatedCode.labelHeight?,
        AnnotatedCode.noteAt?_append]
      have hnone : B'.noteAt? l = none := by
        by_contra hplaced
        exact absurd (h'.new_labels l (h.bound_le.trans hnext) hplaced).1 (not_le.2 hmiddle)
      rw [hnone, Option.none_or]
      rfl
    · rw [hnew l (h.next_le.trans hmiddle) hlast, AnnotatedCode.labelHeight?,
        AnnotatedCode.noteAt?_append]
      have hnone : B.noteAt? l = none := by
        by_contra hplaced
        exact absurd (h.new_labels l (h'.bound_le.trans hmiddle) hplaced).2 (not_lt.2 hmiddle)
      rw [hnone, Option.or_none]
      rfl
  · intro l hl
    rw [AnnotatedCode.noteAt?_append, AnnotatedCode.noteAt?_append, h.old_notes l hl,
      h'.old_notes l hl]
  · -- a label that is new in the whole is new in one of the pieces
    intro l hl hplaced
    rw [AnnotatedCode.noteAt?_append] at hplaced
    by_cases hsecond : B'.noteAt? l = none
    · rw [hsecond, Option.none_or] at hplaced
      obtain ⟨hnext, hmiddle⟩ := h.new_labels l hl hplaced
      exact ⟨hnext, hmiddle.trans_le h'.next_le⟩
    · obtain ⟨hmiddle, hlast⟩ := h'.new_labels l hl hsecond
      exact ⟨h.next_le.trans hmiddle, hlast⟩

/-- An instruction of the body stands for itself. -/
theorem own {insn : Instruction} {note : Option Int} (hbound : bound ≤ next)
    (hlinked : Linked wrapped (Permitted result 0) known arriving [(insn, note)] leaving)
    (hlabels : ∀ l ∈ insn.labels, l.number.toNat < bound) :
    Stands result known bound next next [(insn, note)] arriving [(insn, note)] leaving := by
  refine ⟨hbound, le_rfl, ?_, fun _ _ => rfl, ?_⟩
  · intro known' hold _
    refine hlinked.mono (fun _ _ _ _ _ => id) fun insn' hinsn l hl k hk => ?_
    obtain rfl : insn' = insn := by simpa using hinsn
    rw [hold l (hlabels l (Instruction.mem_labels_of_mem_targets hl)), hk]
  · intro l hl hplaced
    obtain rfl : Instruction.label l = insn := by
      simpa using AnnotatedCode.noteAt?_ne_none_iff.1 hplaced
    exact absurd (hlabels l (by simp [Instruction.labels])) (not_lt.2 hl)

/-- A copy of a fragment stands for nothing, when its notes are linked. -/
theorem of_copy {f : Fragment} {offset : UInt32} (hbound : bound ≤ next)
    (hroom : NumbersFrom offset next f.numbers) (hcode : B.code = f.relabeled offset)
    (hlinked : ∀ known' : Label → Option Int,
      (∀ l, next ≤ l.number.toNat → l.number.toNat < next + f.numbers →
        known' l = B.labelHeight? l) →
        Linked wrapped (Permitted result 0) known' arriving B arriving) :
    Stands result known bound next (next + f.numbers) [] arriving B arriving := by
  have hlabels : ∀ l, B.noteAt? l ≠ none →
      next ≤ l.number.toNat ∧ l.number.toNat < next + f.numbers := by
    intro l hplaced
    rw [AnnotatedCode.noteAt?_ne_none_iff, hcode] at hplaced
    exact f.number_of_mem_relabeled hroom hplaced
  refine ⟨hbound, Nat.le_add_right _ _, fun known' _ => hlinked known', ?_, fun l _ => hlabels l⟩
  intro l hl
  -- the labels of the body are numbered below all those of the copy
  by_contra hplaced
  exact absurd (hbound.trans (hlabels l hplaced).1) (not_le.2 hl)

/-- A copy of a neutral fragment can be put wherever it finds what it consumes, and has room above
the height with which it is reached. -/
theorem exists_copy {f : Fragment} {offset : UInt32} (hbound : bound ≤ next)
    (hroom : NumbersFrom offset next f.numbers)
    (hneutral : ∀ k, arriving = some k → wrapped k = k ∧ ∃ available room : Nat,
      f.Neutral result available room ∧ available ≤ k ∧ k + room ≤ 65535) :
    ∃ B : AnnotatedCode, B.code = f.relabeled offset ∧
      Stands result known bound next (next + f.numbers) [] arriving B arriving := by
  cases arriving with
  | none =>
    -- around an instruction that is not reached, the copy is not reached either
    have hcode := AnnotatedCode.code_unreached (f.relabeled offset)
    exact ⟨_, hcode, of_copy hbound hroom hcode fun _ _ => .unreached_code _⟩
  | some k =>
    obtain ⟨hwrapped, available, room, ⟨A, hA, hlinked⟩, havailable, hfits⟩ := hneutral k rfl
    have hcode : (A.copied offset k).code = f.relabeled offset := by
      rw [AnnotatedCode.code_copied, hA]
      rfl
    refine ⟨A.copied offset k, hcode, of_copy hbound hroom hcode fun known' hknown => ?_⟩
    have hcopied : Linked wrapped (Permitted result 0) known' (some (wrapped (k + 0)))
        (A.copied offset k) (some (wrapped (k + 0))) := by
      refine hlinked.copied (fun insn e j hj => ?_) fun l j hj => ?_
      · -- what the instruction pops is there, and there is room for what is there
        obtain ⟨hpermitted, hle⟩ := hj
        have hpops := hpermitted.pops_le
        have hcounted : wrapped (k + j) = k + j := wrapped_of_le (by omega) (by omega)
        have hflow := Instruction.flow_relabeled offset insn
        exact ⟨by omega, hflow ▸ hpermitted.no_subroutine, hflow ▸ hpermitted.returns_result⟩
      · have hnote := AnnotatedCode.labelHeight?_eq_some_iff.1 hj
        have hplaced : Instruction.label l ∈ f.code :=
          hA ▸ AnnotatedCode.noteAt?_ne_none_iff.1 (by simp [hnote])
        have hcopy : Instruction.label (l.shift offset) ∈ f.relabeled offset :=
          List.mem_map.2 ⟨_, hplaced, rfl⟩
        obtain ⟨hnext, hlast⟩ := f.number_of_mem_relabeled hroom hcopy
        rw [hknown (l.shift offset) hnext hlast, AnnotatedCode.labelHeight?,
          AnnotatedCode.noteAt?_copied, hnote]
        rfl
    rwa [Int.add_zero, hwrapped] at hcopied

/-- Copies of neutral fragments, one after the other. -/
theorem exists_copies {fs : List Fragment} {offset : UInt32} (hbound : bound ≤ next)
    (hroom : NumbersFrom offset next (numbersOf fs))
    (hneutral : ∀ k, arriving = some k → wrapped k = k ∧ ∀ f ∈ fs, ∃ available room : Nat,
      f.Neutral result available room ∧ available ≤ k ∧ k + room ≤ 65535) :
    ∃ B : AnnotatedCode, B.code = (copies offset fs).1 ∧
      Stands result known bound next (next + numbersOf fs) [] arriving B arriving := by
  -- the copies follow each other, and each takes the numbers behind those of the last one
  induction fs generalizing offset next with
  | nil => exact ⟨[], rfl, .nil hbound fun _ => id⟩
  | cons f fs ih =>
    rw [numbersOf] at hroom
    obtain ⟨B, hB, hcopy⟩ : ∃ B : AnnotatedCode, B.code = f.relabeled offset ∧
        Stands result known bound next (next + f.numbers) [] arriving B arriving := by
      refine exists_copy hbound hroom.left fun k hk => ?_
      obtain ⟨hwrapped, hfs⟩ := hneutral k hk
      exact ⟨hwrapped, hfs f List.mem_cons_self⟩
    obtain ⟨B', hB', hrest⟩ := ih (hbound.trans (Nat.le_add_right _ _)) hroom.behind fun k hk => by
      obtain ⟨hwrapped, hfs⟩ := hneutral k hk
      exact ⟨hwrapped, fun f hf => hfs f (List.mem_cons_of_mem _ hf)⟩
    refine ⟨B ++ B', ?_, ?_⟩
    · rw [AnnotatedCode.code_append, hB, hB']
      rfl
    · rw [numbersOf, ← Nat.add_assoc]
      exact hcopy.append hrest

end Stands

end Stands

/-! ### Spliced bodies -/

theorem Fragment.Neutral.mono {result : TypeDescriptor} {available available' room : Nat}
    {f : Fragment} (h : f.Neutral result available room) (hle : available ≤ available') :
    f.Neutral result available' room := by
  obtain ⟨A, hA, hlinked⟩ := h
  refine ⟨A, hA, hlinked.mono (fun insn e k _ _ hk => ?_) fun _ _ _ _ _ => id⟩
  obtain ⟨hpermitted, hroom⟩ := hk
  have hpops := hpermitted.pops_le
  exact ⟨⟨by omega, hpermitted.no_subroutine, hpermitted.returns_result⟩, hroom⟩

/-- The number of instructions in copies of fragments. -/
def codeLength : List Fragment → Nat
  | [] => 0
  | f :: fs => f.code.length + codeLength fs

theorem length_copies {next : UInt32} {fs : List Fragment} :
    (copies next fs).1.length = codeLength fs := by
  induction fs generalizing next with
  | nil => rfl
  | cons f fs ih =>
    rw [copies, List.length_append, ih, Fragment.relabeled, List.length_map]
    rfl

namespace Plan

variable {result : TypeDescriptor} {plan : Plan}

/-- The fragments around an instruction that stays are neutral, those before it with what it pops
and those after it with what it pushes. When it is reached, there is room for them above the height
at which they are reached. -/
structure NeutralAt (result : TypeDescriptor) (insn : Instruction) (note : Option Int)
    (r : Replacement) : Prop where
  keeps : r.keeps = true
  before : ∀ e k, insn.effect = .ok e → note = some k → ∀ f ∈ r.before, ∃ room : Nat,
    f.Neutral result e.pops.toNat room ∧ k + room ≤ 65535
  after : ∀ e k, insn.effect = .ok e → note = some k → ∀ f ∈ r.after, ∃ room : Nat,
    f.Neutral result e.pushes.toNat room ∧ k + e.net + room ≤ 65535

/-- What a plan puts around the instructions of a body is neutral where they are reached. -/
def Neutral (result : TypeDescriptor) (plan : Plan) (A : AnnotatedCode) : Prop :=
  ∀ (i : Nat) insn r note, plan[i]? = some (insn, some r) → A[i]? = some (insn, note) →
    NeutralAt result insn note r

/-- What takes the place of one instruction, and the first label number left over. -/
def block (next : UInt32) (insn : Instruction) : Option Replacement → List Instruction × UInt32
  | none => ([insn], next)
  | some r =>
    ((copies next r.before).1 ++ (if r.keeps then [insn] else []) ++
        (copies (copies next r.before).2 r.after).1,
      (copies (copies next r.before).2 r.after).2)

/-- What takes the place of an instruction leaves the numbers behind those that it takes up. -/
theorem numbersFrom_block {next : UInt32} {insn : Instruction} {r : Option Replacement}
    {first others : Nat} (h : NumbersFrom next first (numbersAt r + others)) :
    NumbersFrom (block next insn r).2 (first + numbersAt r) others := by
  cases r with
  | none => simpa [numbersAt, block] using h
  | some r =>
    rw [numbersAt, Nat.add_assoc] at h
    rw [numbersAt, ← Nat.add_assoc]
    exact h.copies.copies

theorem weave_cons {next : UInt32} {insn : Instruction} {r : Option Replacement} :
    weave next ((insn, r) :: plan) = (block next insn r).1 ++ weave (block next insn r).2 plan := by
  cases r with
  | none => rfl
  | some r => simp only [weave, block, List.append_assoc]

/-- The number of instructions that come before one that stays in its place. -/
def lead : Option Replacement → Nat
  | none => 0
  | some r => codeLength r.before

/-- The place of an instruction of the body in the spliced code. -/
def position : Plan → Nat → Nat
  | [], _ => 0
  | (_, r) :: _, 0 => lead r
  | (insn, r) :: rest, i + 1 => (block 0 insn r).1.length + position rest i

theorem length_block {next : UInt32} {insn : Instruction} {r : Option Replacement} :
    (block next insn r).1.length = (block 0 insn r).1.length := by
  cases r with
  | none => rfl
  | some r => simp only [block, List.length_append, length_copies]

section Pieces

variable {known : Label → Option Int} {bound first : Nat} {next : UInt32}
variable {arriving between : Option Int} {insn : Instruction} {note : Option Int}

/-- Notes for what takes the place of one instruction. The instruction has the note that it had. -/
theorem exists_block {r : Option Replacement} (hbound : bound ≤ first)
    (hroom : NumbersFrom next first (numbersAt r))
    (hneutral : ∀ r', r = some r' → NeutralAt result insn note r')
    (hlabels : ∀ l ∈ insn.labels, l.number.toNat < bound)
    (hlinked : Linked wrapped (Permitted result 0) known arriving [(insn, note)] between)
    (hcounted : ∀ k, note = some k → wrapped k = k)
    (hbetween : ∀ k, between = some k → ∃ h e, note = some h ∧ insn.effect = .ok e ∧
      Permitted result 0 insn e h ∧ k = wrapped (h + e.net)) :
    ∃ B : AnnotatedCode, B.code = (block next insn r).1 ∧
      Stands result known bound first (first + numbersAt r) [(insn, note)] arriving B between ∧
        B[lead r]? = some (insn, note) := by
  cases r with
  | none => exact ⟨[(insn, note)], rfl, .own hbound hlinked hlabels, rfl⟩
  | some r =>
    obtain ⟨hkeeps, hbeforeNeutral, hafterNeutral⟩ := hneutral r rfl
    rw [numbersAt] at hroom ⊢
    -- what is available to the fragments before the instruction is what the instruction pops
    have harriving : ∀ k, arriving = some k →
        note = some k ∧ ∃ e, insn.effect = .ok e ∧ (e.pops.toNat : Int) ≤ k := by
      rintro k rfl
      have hhead : AnnotatedCode.heightAt? [(insn, note)] 0 = some k :=
        hlinked.holds_start.resolve_right fun hend => by simp at hend
      obtain rfl : note = some k := hhead
      obtain ⟨e, heffect, hpermitted, -⟩ := hlinked.at_reached (rfl : [(insn, some k)][0]? = _)
      have hpops := hpermitted.pops_le
      exact ⟨rfl, e, heffect, by omega⟩
    obtain ⟨B, hB, hbefore⟩ : ∃ B : AnnotatedCode, B.code = (copies next r.before).1 ∧
        Stands result known bound first (first + numbersOf r.before) [] arriving B arriving := by
      refine Stands.exists_copies hbound hroom.left fun k hk => ?_
      obtain ⟨hnote, e, heffect, hpops⟩ := harriving k hk
      refine ⟨hcounted k hnote, fun f hf => ?_⟩
      obtain ⟨room, hf, hfits⟩ := hbeforeNeutral e k heffect hnote f hf
      exact ⟨e.pops.toNat, room, hf, hpops, hfits⟩
    have hmiddle : bound ≤ first + numbersOf r.before := hbound.trans (Nat.le_add_right _ _)
    obtain ⟨B', hB', hafter⟩ : ∃ B' : AnnotatedCode,
        B'.code = (copies (copies next r.before).2 r.after).1 ∧
          Stands result known bound (first + numbersOf r.before)
            (first + numbersOf r.before + numbersOf r.after) [] between B' between := by
      refine Stands.exists_copies hmiddle hroom.copies fun k hk => ?_
      obtain ⟨h, e, hnote, heffect, hpermitted, rfl⟩ := hbetween k hk
      refine ⟨wrapped_wrapped _, fun f hf => ?_⟩
      obtain ⟨room, hf, hfits⟩ := hafterNeutral e h heffect hnote f hf
      -- there is room behind the instruction, so its result is counted as it is
      have hpops := hpermitted.pops_le
      have hnet : e.net = (e.pushes.toNat : Int) - e.pops.toNat := rfl
      have hcounted : wrapped (h + e.net) = h + e.net := wrapped_of_le (by omega) (by omega)
      exact ⟨e.pushes.toNat, room, hf, by omega, by omega⟩
    have hlead : lead (some r) = B.length := by
      rw [← AnnotatedCode.length_code, hB, length_copies]
      rfl
    rw [Nat.add_assoc] at hafter
    refine ⟨B ++ [(insn, note)] ++ B', ?_, (hbefore.append (.own hmiddle hlinked hlabels)).append
      hafter, ?_⟩
    · simp [block, hB, hB', hkeeps]
    · simp [hlead]

/-- Notes for the spliced code, if the fragments in the plan are neutral. The instructions of the
body have the notes that they had. -/
theorem exists_stands {A : AnnotatedCode} {leaving : Option Int}
    (hcode : A.code = plan.map Prod.fst) (hbound : bound ≤ first)
    (hroom : NumbersFrom next first plan.numbers) (hneutral : plan.Neutral result A)
    (hlabels : ∀ insn ∈ A.code, ∀ l ∈ insn.labels, l.number.toNat < bound)
    (hcounted : ∀ insn k, (insn, some k) ∈ A → wrapped k = k)
    (hlinked : Linked wrapped (Permitted result 0) known arriving A leaving) :
    ∃ (B : AnnotatedCode) (last : Nat), B.code = plan.weave next ∧
      Stands result known bound first last A arriving B leaving ∧
        ∀ i entry, A[i]? = some entry → B[plan.position i]? = some entry := by
  -- the first instruction comes off together with what takes its place, and the label numbers that
  -- are left over are handed on
  induction plan generalizing A next first arriving with
  | nil =>
    obtain rfl : A = [] := List.map_eq_nil_iff.1 hcode
    cases hlinked with
    | nil h => exact ⟨[], first, rfl, .nil hbound h, by simp⟩
  | cons step plan ih =>
    obtain ⟨insn, r⟩ := step
    obtain ⟨⟨insn', note⟩, A, rfl, rfl, hrest⟩ := List.map_eq_cons_iff.1 hcode
    obtain ⟨between, hfirst, hlater, hbetween⟩ := hlinked.exists_between
    rw [numbers] at hroom
    have hhere : ∀ r', r = some r' → NeutralAt result insn' note r' :=
      fun r' hr => hneutral 0 insn' r' note (by rw [hr]; rfl) rfl
    have hthere : Neutral result plan A := fun i => hneutral (i + 1)
    obtain ⟨B, hB, hblock, hlead⟩ := exists_block hbound hroom.left hhere
      (hlabels insn' List.mem_cons_self) hfirst
      (fun k hk => hcounted insn' k (hk ▸ List.mem_cons_self)) hbetween
    obtain ⟨C, last, hC, hstands, hposition⟩ := ih hrest (hbound.trans (Nat.le_add_right _ _))
      (numbersFrom_block hroom) hthere
      (fun insn hinsn => hlabels insn (List.mem_cons_of_mem _ hinsn))
      (fun insn k hk => hcounted insn k (List.mem_cons_of_mem _ hk)) hlater
    refine ⟨B ++ C, last, ?_, hblock.append hstands, ?_⟩
    · rw [AnnotatedCode.code_append, hB, hC, weave_cons]
    · intro i entry hentry
      cases i with
      | zero =>
        obtain rfl : (insn', note) = entry := Option.some.inj hentry
        rw [position, List.getElem?_append_left (List.getElem?_eq_some_iff.1 hlead).1]
        exact hlead
      | succ i =>
        have hlength : (block 0 insn' r).1.length = B.length := by
          rw [← AnnotatedCode.length_code, hB]
          exact length_block.symm
        rw [position, hlength, List.getElem?_append_right (Nat.le_add_right _ _),
          Nat.add_sub_cancel_left]
        exact hposition i entry hentry

end Pieces

end Plan

end ClassEdit
