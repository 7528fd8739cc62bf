import ClassEdit.Proofs.Annotated
import ClassEdit.Proofs.Assembler

/-!
# What an assembler knows about its fragment

An assembler follows one height while it appends instructions, and a fragment is reached along every
path through its branches. Both agree as long as a label is marked where control can get: by going
on from the instruction before it, or by a jump that was recorded before. A label that is marked in
dead code without such a jump is a stray. Nothing is written down for it, and what is appended next
is not followed; a jump that comes later and leads back to a stray reaches code with a height that
the assembler has never seen.

So the heights are right on all paths that avoid strays, and a fragment is sound exactly if nothing
goes wrong behind a stray.

## Main definitions

* `Assembly.Assembled`: the states reached by successful calls, with the strays among the labels.
* `Fragment.Sound`, `Fragment.SoundOn`: the heights that the fragment tells are right wherever
  control gets, or on a set of points.
* `Assembly.Tracked`: the notes that an assembler would have taken.

## Main results

* `Assembly.Assembled.tracked`: what every call keeps, carried through a run.
* `Assembly.build_sound_iff`: when the fragment that is built is sound.
* `Assembly.build_unsound_of_stray`: a fragment that is not.
-/

namespace ClassEdit

namespace Assembly

variable {a b : Assembly} {l : Label} {insn : Instruction}

/-! ### Runs -/

/-- The states that successful calls reach, and the labels that were marked in dead code before any
jump to them was recorded. An attempt to build may be refused in between. -/
inductive Assembled (available : Nat) : Assembly → List Label → Prop
  | start : Assembled available (start available) []
  | declare {a : Assembly} {strays : List Label} (h : Assembled available a strays) (delta : Int) :
      Assembled available (a.declare delta) strays
  | newLabel {a : Assembly} {strays : List Label} (h : Assembled available a strays) :
      Assembled available a.newLabel.2 strays
  | emit {a b : Assembly} {strays : List Label} (h : Assembled available a strays)
      (insn : Instruction) (hinsn : insn.placed? = none) (hemit : a.emit insn = (.ok (), b)) :
      Assembled available b strays
  | mark {a b : Assembly} {strays : List Label} (h : Assembled available a strays) (l : Label)
      (hknown : a.dead = true → a.heightAt? l ≠ none) (hmark : a.mark l = (.ok (), b)) :
      Assembled available b strays
  | stray {a b : Assembly} {strays : List Label} (h : Assembled available a strays) (l : Label)
      (hdead : a.dead = true) (hunknown : a.heightAt? l = none) (hmark : a.mark l = (.ok (), b)) :
      Assembled available b (l :: strays)
  | refused {a b : Assembly} {strays : List Label} {e : EditError}
      (h : Assembled available a strays) (hbuild : a.build = (.error e, b)) :
      Assembled available b strays

/-- The heights stay within what the assembler checks. -/
def Within (available : Nat) (highest : Int) (_insn : Instruction) (e : StackEffect) (k : Int) :
    Prop :=
  -(available : Int) ≤ k - e.pops.toNat ∧ k ≤ highest ∧ k + e.net ≤ highest

/-- The height with which control comes to the end of the code, if it does. -/
def leaving? (a : Assembly) : Option Int := if a.dead then none else some a.height

theorem leaving?_of_dead (h : a.dead = true) : a.leaving? = none := if_pos h

theorem leaving?_of_live (h : a.dead = false) : a.leaving? = some a.height := by
  simp [leaving?, h]

/-- The code with the notes that the assembler would have taken: the height at which an instruction
was followed, and nothing for instructions in dead code. -/
structure Tracked (available : Nat) (a : Assembly) (strays : List Label) (A : AnnotatedCode) :
    Prop where
  code_eq : A.code = a.code
  available_eq : a.available = available
  linked : Linked id (Within available a.highest) a.heightAt? (some 0) A a.leaving?
  label_known : ∀ l k, (.label l, some k) ∈ A → a.heightAt? l = some k
  label_stray : ∀ l, (.label l, none) ∈ A → l ∈ strays
  bounded : ∀ k, (k = a.height ∨ ∃ l, a.heightAt? l = some k) →
    -(available : Int) ≤ k ∧ k ≤ a.highest
  placed : ∀ l ∈ a.placed, .label l ∈ a.code
  highest_nonneg : 0 ≤ a.highest

section Tracked

variable {available : Nat} {strays strays' : List Label} {A : AnnotatedCode}

/-- One more instruction. Its note follows from what leaves the code before it. -/
theorem Tracked.extend (h : Tracked available a strays A) {note : Option Int}
    (hcode : b.code = a.code ++ [insn]) (havailable : b.available = a.available)
    (hhighest : a.highest ≤ b.highest)
    (hkept : ∀ l k, a.heightAt? l = some k → b.heightAt? l = some k)
    (hstrays : strays ⊆ strays')
    (hlinked : Linked id (Within available b.highest) b.heightAt? a.leaving? [(insn, note)]
      b.leaving?)
    (hknown : ∀ l k, insn = .label l → note = some k → b.heightAt? l = some k)
    (hstray : ∀ l, insn = .label l → note = none → l ∈ strays')
    (hbounded : ∀ k, (k = b.height ∨ ∃ l, b.heightAt? l = some k) →
      -(available : Int) ≤ k ∧ k ≤ b.highest)
    (hplaced : ∀ l ∈ b.placed, l ∈ a.placed ∨ insn = .label l) :
    Tracked available b strays' (A ++ [(insn, note)]) := by
  have hbefore : Linked id (Within available b.highest) b.heightAt? (some 0) A a.leaving? := by
    refine h.linked.mono (fun _ e k _ _ hk => ?_) (fun _ _ l _ k hk => hkept l k hk)
    exact ⟨hk.1, Int.le_trans hk.2.1 hhighest, Int.le_trans hk.2.2 hhighest⟩
  refine ⟨?_, havailable.trans h.available_eq, hbefore.append hlinked, ?_, ?_, hbounded, ?_,
    Int.le_trans h.highest_nonneg hhighest⟩
  · simp [h.code_eq, hcode]
  · intro l k hmem
    rcases List.mem_append.1 hmem with hmem | hmem
    · exact hkept l k (h.label_known l k hmem)
    · cases List.mem_singleton.1 hmem
      exact hknown l k rfl rfl
  · intro l hmem
    rcases List.mem_append.1 hmem with hmem | hmem
    · exact hstrays (h.label_stray l hmem)
    · cases List.mem_singleton.1 hmem
      exact hstray l rfl rfl
  · intro l hl
    rw [hcode]
    rcases hplaced l hl with hl | rfl
    · exact List.mem_append_left _ (h.placed l hl)
    · simp

theorem Tracked.start : Tracked available (start available) [] [] := by
  refine ⟨rfl, rfl, .nil fun _ => id, by simp, by simp, ?_, by simp [Assembly.start], le_rfl⟩
  rintro k (rfl | ⟨l, hl⟩)
  · exact ⟨by simp [Assembly.start], le_rfl⟩
  · simp [heightAt?, Assembly.start] at hl

/-- One more instruction in dead code, about which nothing is noted. -/
theorem Tracked.skip (h : Tracked available a strays A) (hdead : a.dead = true)
    (hb : b = { a with code := a.code ++ [insn], placed := b.placed, dead := b.dead })
    (hstrays : strays ⊆ strays') (hstray : ∀ l, insn = .label l → l ∈ strays')
    (hplaced : ∀ l ∈ b.placed, l ∈ a.placed ∨ insn = .label l) :
    Tracked available b strays' (A ++ [(insn, a.leaving?)]) := by
  rw [hb, leaving?_of_dead hdead]
  refine h.extend rfl rfl le_rfl (fun _ _ => id) hstrays ?_ nofun (fun l hl _ => hstray l hl)
    h.bounded hplaced
  rw [leaving?_of_dead hdead]
  exact .unreached (.nil nofun)

/-- Appending an instruction. Noted beside it is the height before the call. -/
theorem Tracked.emit (h : Tracked available a strays A) (hinsn : insn.placed? = none)
    (hemit : a.emit insn = (.ok (), b)) :
    Tracked available b strays (A ++ [(insn, a.leaving?)]) := by
  have hlabel : ∀ l, insn ≠ .label l := fun l hl => by simp [hl, Instruction.placed?] at hinsn
  obtain ⟨e, c, heffect, rfl, ⟨hdead, rfl⟩ | ⟨hdead, hlow, hrecorded⟩⟩ := emit_eq_ok hemit
  · exact h.skip hdead rfl (List.Subset.refl _) (fun l hl => absurd hl (hlabel l))
      fun l hl => .inl hl
  · have hheight : c.height = a.height + e.net := hrecorded.height_eq
    have hhighest : c.highest = max a.highest (a.height + e.net) := hrecorded.highest_eq
    have hbefore := h.bounded a.height (.inl rfl)
    have hlow' : -(available : Int) ≤ a.height - e.pops.toNat := h.available_eq ▸ hlow
    have hnet : e.net = (e.pushes.toNat : Int) - e.pops.toNat := rfl
    rw [leaving?_of_live hdead]
    refine h.extend rfl hrecorded.available_eq ?_ hrecorded.kept (List.Subset.refl _) ?_
      (fun l _ hl => absurd hl (hlabel l)) (fun l hl => absurd hl (hlabel l)) (fun k hk => ?_)
      fun l hl => .inl (hrecorded.placed_eq ▸ hl)
    · exact (le_max_left _ _).trans hhighest.ge
    · rw [leaving?_of_live hdead]
      refine .reached (fun k hk => (Option.some.inj hk).symm) heffect ?_ hrecorded.arrived
        (.nil fun k hk => ?_)
      · show Within available c.highest insn e a.height
        exact ⟨hlow', by omega, by omega⟩
      · split at hk
        · rename_i hflow
          rw [← hk, ← hheight]
          exact leaving?_of_live (Flow.not_endsPath hflow)
        · cases hk
    · -- pushing may have made the fragment higher, and nothing else moves the bounds
      have hnow : -(available : Int) ≤ a.height + e.net ∧ a.height + e.net ≤ c.highest := by omega
      refine hrecorded.bounded hnow (fun l k' hl => ?_) hk
      have hold := h.bounded k' (.inr ⟨l, hl⟩)
      omega

/-- A label leaves the height as it is. -/
theorem linked_label {arriving leaving : Option Int} {known : Label → Option Int} {highest k : Int}
    (harriving : ∀ k', arriving = some k' → k' = k) (hleaving : leaving = some k)
    (hbounded : -(available : Int) ≤ k ∧ k ≤ highest) :
    Linked id (Within available highest) known arriving [(.label l, some k)] leaving := by
  have heffect : (Instruction.label l).effect = .ok ⟨0, 0⟩ := rfl
  have hsame : k + StackEffect.net ⟨0, 0⟩ = k := by simp [StackEffect.net]
  refine .reached harriving heffect ?_ (fun l' hl' => ?_) (.nil fun k' hk' => ?_)
  · exact ⟨by simpa using hbounded.1, hbounded.2, hsame.symm ▸ hbounded.2⟩
  · cases hl'
  · rw [hleaving, ← hk', hsame]
    rfl

/-- Marking a label, which is a stray if it is marked in dead code and nothing is recorded for
it. Noted beside it is the height behind the call. -/
theorem Tracked.mark (h : Tracked available a strays A) (hmark : a.mark l = (.ok (), b))
    (hstrays : strays ⊆ strays') (hstray : a.dead = true → a.heightAt? l = none → l ∈ strays') :
    Tracked available b strays' (A ++ [(.label l, b.leaving?)]) := by
  have hplaced : ∀ l' ∈ a.placed ++ [l], l' ∈ a.placed ∨ Instruction.label l = .label l' := by
    intro l' hl'
    rcases List.mem_append.1 hl' with hl' | hl'
    · exact .inl hl'
    · exact .inr (by rw [List.mem_singleton.1 hl'])
  have hnoted : ∀ {k : Int} (l' : Label), Instruction.label l = .label l' → some k = none →
      l' ∈ strays' := fun _ _ hnone => absurd hnone (Option.some_ne_none _)
  obtain ⟨c, rfl, ⟨k, hdead, hk, rfl⟩ | ⟨hdead, hnone, rfl⟩ | ⟨hdead, hrecorded⟩⟩ :=
    mark_eq_ok hmark
  · -- control gets here by the jumps that were recorded
    have hbounded := h.bounded k (.inr ⟨l, hk⟩)
    refine h.extend rfl rfl le_rfl (fun _ _ => id) hstrays ?_ ?_ hnoted ?_ hplaced
    · rw [leaving?_of_dead hdead]
      exact linked_label (fun k' hk' => absurd hk'.symm (Option.some_ne_none k')) rfl hbounded
    · rintro _ _ ⟨⟩ ⟨⟩
      exact hk
    · rintro k' (rfl | hk')
      · exact hbounded
      · exact h.bounded k' (.inr hk')
  · refine h.skip hdead (by rw [hdead]) hstrays ?_ hplaced
    rintro _ ⟨⟩
    exact hstray hdead hnone
  · -- control goes on from the instruction before
    have hbounded := h.bounded a.height (.inl rfl)
    have hhighest : c.highest = a.highest := hrecorded.highest_eq
    have hdead' : c.dead = false := hrecorded.dead_eq.trans hdead
    have hmarked : c.placed = a.placed ++ [l] := hrecorded.placed_eq
    have hleaving : leaving? { c with code := a.code ++ [.label l] } = some a.height :=
      (leaving?_of_live hdead').trans (congrArg some hrecorded.height_eq)
    rw [hleaving]
    refine h.extend rfl hrecorded.available_eq hhighest.ge hrecorded.kept hstrays ?_
      ?_ hnoted (fun k hk => ?_) fun l' hl' => hplaced l' (hmarked ▸ hl')
    · rw [leaving?_of_live hdead]
      refine linked_label (fun k hk => (Option.some.inj hk).symm) hleaving ?_
      show -(available : Int) ≤ a.height ∧ a.height ≤ c.highest
      rw [hhighest]
      exact hbounded
    · rintro _ _ ⟨⟩ ⟨⟩
      exact hrecorded.arrived l List.mem_cons_self
    · show -(available : Int) ≤ k ∧ k ≤ c.highest
      rw [hhighest]
      exact hrecorded.bounded hbounded (fun l' k' hl' => h.bounded k' (.inr ⟨l', hl'⟩)) hk

theorem Tracked.congr (h : Tracked available a strays A) (hcode : b.code = a.code)
    (havailable : b.available = a.available) (hheight : b.height = a.height)
    (hhighest : b.highest = a.highest) (hrecorded : b.labelHeights = a.labelHeights)
    (hplaced : b.placed = a.placed) (hdead : b.dead = a.dead) : Tracked available b strays A := by
  have hknown : b.heightAt? = a.heightAt? := by
    funext l
    rw [heightAt?, heightAt?, hrecorded]
  refine ⟨hcode ▸ h.code_eq, havailable ▸ h.available_eq, ?_, hknown ▸ h.label_known, h.label_stray,
    ?_, ?_, hhighest ▸ h.highest_nonneg⟩
  · rw [hhighest, hknown, leaving?, hdead, hheight]
    exact h.linked
  · rw [hheight, hknown, hhighest]
    exact h.bounded
  · rw [hplaced, hcode]
    exact h.placed

/-- Whatever calls were made, there are notes for the code, or it has become too high for a
fragment. -/
theorem Assembled.tracked (h : Assembled available a strays) :
    heightLimit < a.highest ∨ ∃ A, Tracked available a strays A := by
  -- along the calls; once the limit was passed, the bound is all that is kept
  induction h with
  | start => exact .inr ⟨[], .start⟩
  | declare _ delta ih =>
    exact ih.imp id fun ⟨A, hA⟩ => ⟨A, hA.congr rfl rfl rfl rfl rfl rfl rfl⟩
  | newLabel _ ih =>
    exact ih.imp id fun ⟨A, hA⟩ => ⟨A, hA.congr rfl rfl rfl rfl rfl rfl rfl⟩
  | emit _ insn hinsn hemit ih =>
    rcases ih with hhigh | ⟨A, hA⟩
    · exact .inl (Int.lt_of_lt_of_le hhigh (highest_le_of_emit hemit))
    · exact .inr ⟨_, hA.emit hinsn hemit⟩
  | mark _ l hknown hmark ih =>
    rcases ih with hhigh | ⟨A, hA⟩
    · exact .inl (highest_of_mark hmark ▸ hhigh)
    · exact .inr ⟨_, hA.mark hmark (List.Subset.refl _)
        fun hdead hnone => absurd hnone (hknown hdead)⟩
  | stray _ l hdead hunknown hmark ih =>
    rcases ih with hhigh | ⟨A, hA⟩
    · exact .inl (highest_of_mark hmark ▸ hhigh)
    · exact .inr ⟨_, hA.mark hmark (List.subset_cons_self _ _) fun _ _ => List.mem_cons_self⟩
  | refused _ hbuild ih =>
    rcases build_eq_error hbuild with rfl | hhigh
    · exact ih
    · exact .inl hhigh

end Tracked

end Assembly

/-! ### Paths through a fragment -/

namespace Fragment

/-- The points that control reaches from the beginning of a fragment. -/
def Reaches (f : Fragment) (p : Point) : Prop :=
  Relation.ReflTransGen (FlowStep f.code) ⟨0, 0⟩ p

/-- The points that control reaches without coming to one of the given labels. -/
def ReachesClear (f : Fragment) (labels : List Label) (p : Point) : Prop :=
  Relation.ReflTransGen
    (fun p q => FlowStep f.code p q ∧ ∀ l ∈ labels, f.code[q.index]? ≠ some (.label l)) ⟨0, 0⟩ p

/-- At one of a set of points, the heights are what the fragment tells: they stay between what it
may consume and its largest height, a label has one height in the whole set, and the end has the net
effect. -/
structure SoundAt (f : Fragment) (available : Nat) (points : Point → Prop) (p : Point) : Prop where
  low : -(available : Int) ≤ p.height
  high : p.height ≤ f.maxStack.toNat
  inside : ∀ insn, f.code[p.index]? = some insn → ∃ e, insn.effect = .ok e ∧
    -(available : Int) ≤ p.height - e.pops.toNat ∧ p.height + e.net ≤ f.maxStack.toNat
  label_unique : ∀ l q, points q → f.code[p.index]? = some (.label l) →
    f.code[q.index]? = some (.label l) → q.height = p.height
  exit : p.index = f.code.length → f.netEffect = .ok p.height

/-- The heights are what the fragment tells at all points of a set. -/
def SoundOn (f : Fragment) (available : Nat) (points : Point → Prop) : Prop :=
  ∀ p, points p → f.SoundAt available points p

/-- The heights are what the fragment tells wherever control gets. -/
def Sound (f : Fragment) (available : Nat) : Prop := f.SoundOn available f.Reaches

end Fragment

namespace Assembly

section Built

variable {available : Nat} {strays : List Label} {A : AnnotatedCode} {a rest : Assembly}
variable {f : Fragment} {p q : Point}

/-- A step from a noted point leads to a noted point, or to a stray to which a jump was recorded. -/
theorem Tracked.step (h : Tracked available a strays A) (hp : A.Holds a.leaving? p)
    (hstep : FlowStep a.code p q) :
    A.Holds a.leaving? q ∨
      ∃ l ∈ strays, a.code[q.index]? = some (.label l) ∧ a.heightAt? l ≠ none := by
  rw [← h.code_eq] at hstep ⊢
  rcases h.linked.step hp hstep with hq | ⟨l, hplace, hknown⟩
  · exact .inl hq
  · have hlabel := getElem?_of_labelPosition? hplace
    have hentry := hlabel
    rw [AnnotatedCode.getElem?_code, Option.map_eq_some_iff] at hentry
    obtain ⟨⟨insn, note⟩, hentry, rfl⟩ := hentry
    -- a label without a note is a stray, and then nothing is known about the height there
    cases note with
    | some k =>
      have hk := h.label_known l k (List.mem_of_getElem? hentry)
      obtain rfl : q.height = k := Option.some.inj (hknown.symm.trans hk)
      exact .inl (.inl (AnnotatedCode.heightAt?_eq_some_iff.2 ⟨_, hentry⟩))
    | none =>
      exact .inr ⟨l, h.label_stray l (List.mem_of_getElem? hentry), hlabel, by simp [hknown]⟩

/-- What is noted about an instruction, read off the code. -/
theorem Tracked.note (h : Tracked available a strays A) (hp : A.Holds a.leaving? p)
    {insn : Instruction} (hinsn : a.code[p.index]? = some insn) :
    A[p.index]? = some (insn, some p.height) := by
  rw [← h.code_eq] at hinsn
  have hlt : p.index < A.length := by simpa using (List.getElem?_eq_some_iff.1 hinsn).1
  have hnote := hp.resolve_right fun hend => by omega
  obtain ⟨insn', hentry⟩ := AnnotatedCode.heightAt?_eq_some_iff.1 hnote
  rw [AnnotatedCode.getElem?_code, hentry] at hinsn
  cases hinsn
  exact hentry

/-- On paths that avoid the strays, all points are noted. -/
theorem Tracked.holds_of_clear (h : Tracked available a strays A) (hf : f.code = a.code)
    (hp : f.ReachesClear strays p) : A.Holds a.leaving? p := by
  induction hp with
  | refl => exact h.linked.holds_start
  | tail _ hstep ih =>
    obtain ⟨hflow, hclear⟩ := hstep
    rw [hf] at hflow hclear
    exact (h.step ih hflow).resolve_right fun ⟨l, hl, hplace, _⟩ => hclear l hl hplace

/-- If no jump to a stray was recorded, no path comes to one. -/
theorem Tracked.reachesClear (h : Tracked available a strays A) (hf : f.code = a.code)
    (hunknown : ∀ l ∈ strays, a.heightAt? l = none) (hp : f.Reaches p) :
    f.ReachesClear strays p := by
  induction hp with
  | refl => exact .refl
  | tail _ hflow ih =>
    refine ih.tail ⟨hflow, fun l hl hplace => ?_⟩
    rw [hf] at hflow hplace
    rcases h.step (h.holds_of_clear hf ih) hflow with hq | ⟨l', hl', -, hknown⟩
    · have hk := h.label_known l _ (List.mem_of_getElem? (h.note hq hplace))
      simp [hunknown l hl] at hk
    · exact hknown (hunknown l' hl')

/-- At noted points the fragment tells the truth, as far as other noted points are concerned. -/
theorem Tracked.soundAt (h : Tracked available a strays A) (hbuild : a.build = (.ok f, rest))
    {points : Point → Prop} (hp : points p) (hnoted : A.Holds a.leaving? p)
    (hother : ∀ q, points q → ¬ A.Holds a.leaving? q → f.SoundAt available points q) :
    f.SoundAt available points p := by
  obtain ⟨-, hlimit, rfl⟩ := build_eq_ok hbuild
  -- what is not higher than the limit fits into the 16 bits in which it is declared
  have hhighest : ((UInt16.ofNat a.highest.toNat).toNat : Int) = a.highest := by
    have hnonneg := h.highest_nonneg
    rw [UInt16.toNat_ofNat']
    unfold heightLimit at hlimit
    omega
  have hinside : ∀ insn, a.code[p.index]? = some insn → ∃ e, insn.effect = .ok e ∧
      Within available a.highest insn e p.height := by
    -- what a note says about the instruction beside it
    intro insn hinsn
    obtain ⟨e, heffect, hwithin, -⟩ := h.linked.at_reached (h.note hnoted hinsn)
    exact ⟨e, heffect, hwithin⟩
  have hbetween : -(available : Int) ≤ p.height ∧ p.height ≤ a.highest := by
    -- the height is that of a note, or that in which control leaves
    rcases hnoted with hnote | ⟨-, hleaving⟩
    · obtain ⟨insn, hentry⟩ := AnnotatedCode.heightAt?_eq_some_iff.1 hnote
      obtain ⟨e, -, hwithin, -⟩ := h.linked.at_reached hentry
      have hlow := hwithin.1
      exact ⟨by omega, hwithin.2.1⟩
    · unfold leaving? at hleaving
      split at hleaving
      · cases hleaving
      · exact h.bounded _ (.inl (Option.some.inj hleaving).symm)
  refine ⟨hbetween.1, hhighest.symm ▸ hbetween.2, ?_, ?_, ?_⟩
  · intro insn hinsn
    obtain ⟨e, heffect, hlow, -, hhigh⟩ := hinside insn hinsn
    exact ⟨e, heffect, hlow, hhighest.symm ▸ hhigh⟩
  · intro l q hq hpl hql
    by_cases hnoted' : A.Holds a.leaving? q
    · -- both are noted with the height that is recorded for the label
      have hk := h.label_known l _ (List.mem_of_getElem? (h.note hnoted hpl))
      have hk' := h.label_known l _ (List.mem_of_getElem? (h.note hnoted' hql))
      exact Option.some.inj (hk'.symm.trans hk)
    · exact ((hother q hq hnoted').label_unique l p hp hql hpl).symm
  · -- the end is no place in the code, so its height is what leaves
    intro hend
    have hlength : p.index = A.length := by rw [hend, ← AnnotatedCode.length_code, h.code_eq]
    have hleaving := (hnoted.resolve_left fun hnote => by
      simp [AnnotatedCode.heightAt?, hlength] at hnote).2
    unfold leaving? at hleaving
    split at hleaving
    · cases hleaving
    · rename_i hdead
      simp only [Fragment.netEffect, hdead]
      exact congrArg Except.ok (Option.some.inj hleaving)

/-- A fragment that was built is sound on all paths that avoid the labels marked in dead code before
a jump to them was recorded. It is sound altogether exactly if nothing goes wrong behind such a
label, and so if none of them has got a jump in the end. -/
theorem build_sound_iff (hrun : Assembled available a strays) (hbuild : a.build = (.ok f, rest)) :
    f.SoundOn available (f.ReachesClear strays) ∧
      (f.Sound available ↔
        ∀ p, f.Reaches p → ¬ f.ReachesClear strays p → f.SoundAt available f.Reaches p) ∧
        ((∀ l ∈ strays, a.heightAt? l = none) → f.Sound available) := by
  obtain ⟨-, hhighest, hf⟩ := build_eq_ok hbuild
  have hcode : f.code = a.code := by rw [hf]
  obtain ⟨A, hA⟩ := hrun.tracked.resolve_left (Int.not_lt.2 hhighest)
  have hclear : ∀ p, f.ReachesClear strays p → A.Holds a.leaving? p :=
    fun p hp => hA.holds_of_clear hcode hp
  have hiff : f.Sound available ↔
      ∀ p, f.Reaches p → ¬ f.ReachesClear strays p → f.SoundAt available f.Reaches p := by
    refine ⟨fun h p hp _ => h p hp, fun h p hp => ?_⟩
    have hunnoted : ∀ q, f.Reaches q → ¬ A.Holds a.leaving? q → f.SoundAt available f.Reaches q :=
      fun q hq hnot => h q hq fun hq' => hnot (hclear q hq')
    -- a point that carries no note is not clear of strays, so the assumption speaks about it
    by_cases hnoted : A.Holds a.leaving? p
    · exact hA.soundAt hbuild hp hnoted hunnoted
    · exact hunnoted p hp hnoted
  refine ⟨?_, hiff, fun hunknown => hiff.2 ?_⟩
  · intro p hp
    exact hA.soundAt hbuild hp (hclear p hp) fun q hq hnot => absurd (hclear q hq) hnot
  · intro p hp hnot
    exact absurd (hA.reachesClear hcode hunknown hp) hnot

end Built

/-- A loop back to the label `0`, a jump over dead code to the label `2`, and between them a label
that is marked in dead code and never used. -/
theorem build_sound_of_loop :
    let f : Fragment := ⟨[.label ⟨0⟩, .simple Opcode.iconst0, .jump Opcode.ifeq ⟨0⟩,
      .jump Opcode.goto ⟨2⟩, .label ⟨1⟩, .label ⟨2⟩], 0, 1, some 0⟩
    ∃ a rest, Assembled 3 a [⟨1⟩] ∧ a.build = (.ok f, rest) ∧
      f.SoundOn 3 (f.ReachesClear [⟨1⟩]) ∧
        (f.Sound 3 ↔ ∀ p, f.Reaches p → ¬ f.ReachesClear [⟨1⟩] p → f.SoundAt 3 f.Reaches p) ∧
          ((∀ l ∈ [⟨1⟩], a.heightAt? l = none) → f.Sound 3) := by
  intro f
  have hrun := (Assembled.start : Assembled 3 _ _)
  have hrun := hrun.mark ⟨0⟩ nofun rfl
  have hrun := hrun.emit (.simple Opcode.iconst0) rfl rfl
  have hrun := hrun.emit (.jump Opcode.ifeq ⟨0⟩) rfl rfl
  have hrun := hrun.emit (.jump Opcode.goto ⟨2⟩) rfl rfl
  have hrun := hrun.stray ⟨1⟩ rfl rfl rfl
  have hrun := hrun.mark ⟨2⟩ (by decide) rfl
  exact ⟨_, _, hrun, rfl, build_sound_iff hrun rfl⟩

/-- Control goes to the label `0`, from there back to the stray `1`, over a load and to the end,
with a height that the fragment does not tell. -/
theorem build_unsound_of_stray :
    let f : Fragment := ⟨[.jump Opcode.goto ⟨0⟩, .label ⟨1⟩, .simple Opcode.iconst0,
      .jump Opcode.goto ⟨2⟩, .label ⟨0⟩, .jump Opcode.goto ⟨1⟩, .label ⟨2⟩], 0, 0, some 0⟩
    ∃ a rest, Assembled 0 a [⟨1⟩] ∧ a.build = (.ok f, rest) ∧ f.netEffect = .ok 0 ∧
      f.Reaches ⟨f.code.length, 1⟩ ∧ ¬ f.Sound 0 := by
  intro f
  have hrun := (Assembled.start : Assembled 0 _ _).newLabel.newLabel.newLabel
  have hrun := hrun.emit (.jump Opcode.goto ⟨0⟩) rfl rfl
  have hrun := hrun.stray ⟨1⟩ rfl rfl rfl
  have hrun := hrun.emit (.simple Opcode.iconst0) rfl rfl
  have hrun := hrun.emit (.jump Opcode.goto ⟨2⟩) rfl rfl
  have hrun := hrun.mark ⟨0⟩ (by decide) rfl
  have hrun := hrun.emit (.jump Opcode.goto ⟨1⟩) rfl rfl
  have hrun := hrun.mark ⟨2⟩ (by decide) rfl
  -- control comes back to the stray label, and what is pushed behind it was not counted
  have hback : f.Reaches ⟨1, 0⟩ := by
    have hfirst : FlowStep f.code ⟨0, 0⟩ ⟨4, 0⟩ :=
      flowStep_iff.2 ⟨_, _, rfl, rfl, rfl, .inr ⟨_, List.mem_cons_self, rfl⟩⟩
    have hsecond : FlowStep f.code ⟨4, 0⟩ ⟨5, 0⟩ :=
      flowStep_iff.2 ⟨_, _, rfl, rfl, rfl, .inl ⟨rfl, rfl⟩⟩
    have hthird : FlowStep f.code ⟨5, 0⟩ ⟨1, 0⟩ :=
      flowStep_iff.2 ⟨_, _, rfl, rfl, rfl, .inr ⟨_, List.mem_cons_self, rfl⟩⟩
    exact ((Relation.ReflTransGen.single hfirst).tail hsecond).tail hthird
  have hreached : f.Reaches ⟨f.code.length, 1⟩ := by
    have hlabel : FlowStep f.code ⟨1, 0⟩ ⟨2, 0⟩ :=
      flowStep_iff.2 ⟨_, _, rfl, rfl, rfl, .inl ⟨rfl, rfl⟩⟩
    have hload : FlowStep f.code ⟨2, 0⟩ ⟨3, 1⟩ :=
      flowStep_iff.2 ⟨_, _, rfl, rfl, rfl, .inl ⟨rfl, rfl⟩⟩
    have hjump : FlowStep f.code ⟨3, 1⟩ ⟨6, 1⟩ :=
      flowStep_iff.2 ⟨_, _, rfl, rfl, rfl, .inr ⟨_, List.mem_cons_self, rfl⟩⟩
    have hend : FlowStep f.code ⟨6, 1⟩ ⟨7, 1⟩ :=
      flowStep_iff.2 ⟨_, _, rfl, rfl, rfl, .inl ⟨rfl, rfl⟩⟩
    exact (((hback.tail hlabel).tail hload).tail hjump).tail hend
  refine ⟨_, _, hrun, rfl, rfl, hreached, ?_⟩
  intro hsound
  have hexit := (hsound _ hreached).exit rfl
  cases hexit

end Assembly

end ClassEdit
