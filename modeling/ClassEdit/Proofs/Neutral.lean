import ClassEdit.Proofs.Assembly
import ClassEdit.Proofs.Edit
import ClassEdit.Proofs.Splice

/-!
# Where neutral fragments come from

Two kinds of fragments are neutral as soon as their effect is nothing. A fragment that is assembled
carefully, without appending anything in dead code or marking labels there that no jump is known to,
is followed by its assembler all the way. In code without branches the running height can be added
up, and it is enough that it never falls below what is available.

How high a fragment gets is known in both cases too: to its assembler, or from the running height.

## Main definitions

* `Instruction.Suits`: instructions that may stand in a method with a given result.
* `Assembly.Careful`: assemblies without strays and without code that is not followed.
* `Fragment.Straight`: code without branches that consumes no more than is available.
* `FragmentSource.Balanced`: sources of fragments that keep the height.
* `FragmentSource.HasRoom`: sources of fragments that fit in above a height.

## Main results

* `Assembly.Careful.neutral`, `Fragment.Straight.neutral`: both kinds are neutral.
* `FragmentSource.Balanced.neutral`: what a balanced source gives is neutral.
-/

namespace ClassEdit

/-- An instruction that may stand in a method with the given result: it does not enter or leave a
subroutine, and it returns nothing but such a result. -/
structure Instruction.Suits (result : TypeDescriptor) (insn : Instruction) : Prop where
  no_subroutine : insn.flow ≠ .subroutine
  returns_result : insn.flow = .exit → ∀ e, insn.effect = .ok e → e.pops = result.slots

variable {result : TypeDescriptor} {available room : Nat} {f : Fragment}

/-! ### Careful assemblies -/

namespace Assembly

variable {a rest : Assembly} {A : AnnotatedCode}

/-- The states that successful calls reach when nothing is appended in dead code, and no label is
marked there before a jump to it was appended. -/
inductive Careful (available : Nat) : Assembly → Prop
  | start : Careful available (start available)
  | declare {a : Assembly} (h : Careful available a) (delta : Int) :
      Careful available (a.declare delta)
  | newLabel {a : Assembly} (h : Careful available a) : Careful available a.newLabel.2
  | emit {a b : Assembly} (h : Careful available a) (insn : Instruction)
      (hinsn : insn.placed? = none) (hlive : a.dead = false) (hemit : a.emit insn = (.ok (), b)) :
      Careful available b
  | mark {a b : Assembly} (h : Careful available a) (l : Label)
      (hjump : a.dead = true → ∃ insn ∈ a.code, l ∈ insn.targets)
      (hmark : a.mark l = (.ok (), b)) : Careful available b

/-- Every jump was recorded. -/
theorem Careful.recorded (h : Careful available a) :
    ∀ insn ∈ a.code, ∀ l ∈ insn.targets, ∃ k, a.heightAt? l = some k := by
  induction h with
  | start => exact fun _ hinsn => nomatch hinsn
  | declare _ _ ih => exact ih
  | newLabel _ ih => exact ih
  | emit _ insn _ hlive hemit ih =>
    intro insn' hinsn l hl
    rw [code_of_emit hemit, List.mem_append, List.mem_singleton] at hinsn
    rcases hinsn with hinsn | rfl
    · obtain ⟨k, hk⟩ := ih insn' hinsn l hl
      exact ⟨k, kept_of_emit hemit hk⟩
    · -- outside dead code, the targets are recorded right now
      obtain ⟨e, c, -, rfl, ⟨hdead, -⟩ | ⟨-, -, hrecorded⟩⟩ := emit_eq_ok hemit
      · rw [hlive] at hdead
        cases hdead
      · exact ⟨_, hrecorded.arrived l hl⟩
  | mark _ l' _ hmark ih =>
    intro insn hinsn l hl
    rw [code_of_mark hmark, List.mem_append, List.mem_singleton] at hinsn
    rcases hinsn with hinsn | rfl
    · obtain ⟨k, hk⟩ := ih insn hinsn l hl
      exact ⟨k, kept_of_mark hmark hk⟩
    · cases hl

/-- A label to which a jump was appended is no stray. -/
theorem Careful.known_of_jump (h : Careful available a) {l : Label}
    (hjump : a.dead = true → ∃ insn ∈ a.code, l ∈ insn.targets) (hdead : a.dead = true) :
    a.heightAt? l ≠ none := by
  obtain ⟨insn, hinsn, hl⟩ := hjump hdead
  obtain ⟨k, hk⟩ := h.recorded insn hinsn l hl
  simp [hk]

/-- A careful assembly has no strays. -/
theorem Careful.assembled (h : Careful available a) : Assembled available a [] := by
  induction h with
  | start => exact .start
  | declare _ delta ih => exact ih.declare delta
  | newLabel _ ih => exact ih.newLabel
  | emit _ insn hinsn _ hemit ih => exact ih.emit insn hinsn hemit
  | mark h l hjump hmark ih => exact ih.mark l (h.known_of_jump hjump) hmark

/-- Once a fragment is built, the heights recorded are those noted at the labels. -/
theorem Tracked.labelHeight?_eq (h : Tracked available a [] A) (hbuild : a.build = (.ok f, rest))
    {l : Label} {k : Int} (hk : a.heightAt? l = some k) : A.labelHeight? l = some k := by
  have hplaced : Instruction.label l ∈ A.code :=
    h.code_eq ▸ h.placed l ((build_eq_ok hbuild).1 l k hk)
  obtain ⟨note, hnote⟩ := Option.ne_none_iff_exists'.1 (AnnotatedCode.noteAt?_ne_none_iff.2 hplaced)
  have hmem := AnnotatedCode.mem_of_noteAt? hnote
  rw [AnnotatedCode.labelHeight?_eq_some_iff, hnote]
  cases note with
  | none => exact absurd (h.label_stray l hmem) List.not_mem_nil
  | some k' => rw [Option.some.inj ((h.label_known l k' hmem).symm.trans hk)]

/-- A careful fragment without effect is neutral, and its assembler knows how high it gets. -/
theorem Careful.neutral (h : Careful available a) (hbuild : a.build = (.ok f, rest))
    (hsuits : ∀ insn ∈ f.code, insn.Suits result) (hnet : f.netEffect = .ok 0)
    (hroom : a.highest ≤ room) : f.Neutral result available room := by
  obtain ⟨-, hhighest, rfl⟩ := build_eq_ok hbuild
  obtain ⟨A, hA⟩ := h.assembled.tracked.resolve_left (Int.not_lt.2 hhighest)
  refine ⟨A, hA.code_eq, ?_⟩
  have hlinked : Linked id (fun insn e k => Permitted result available insn e k ∧ k ≤ room)
      A.labelHeight? (some 0) A a.leaving? := by
    refine hA.linked.mono (fun insn e k hmem heffect hwithin => ?_) fun _ _ l _ k hk =>
      hA.labelHeight?_eq hbuild hk
    have hinsn : insn ∈ a.code := hA.code_eq ▸ List.mem_map_of_mem hmem
    have hlow := hwithin.1
    exact ⟨⟨by omega, (hsuits insn hinsn).no_subroutine,
      fun hexit => (hsuits insn hinsn).returns_result hexit e heffect⟩, hwithin.2.1.trans hroom⟩
  cases hdead : a.dead with
  | true =>
    rw [leaving?_of_dead hdead] at hlinked
    exact hlinked.leaving_none
  | false =>
    -- the effect of the fragment is the height that the assembler ended with
    have hheight : a.height = 0 := by simpa [Fragment.netEffect, hdead] using hnet
    rw [leaving?_of_live hdead, hheight] at hlinked
    exact hlinked

end Assembly

/-! ### Code without branches -/

theorem netEffect_cons_eq_ok_iff {insn : Instruction} {rest : List Instruction} {k : Int} :
    netEffect (insn :: rest) = .ok k ↔
      ∃ e h, insn.effect = .ok e ∧ netEffect rest = .ok h ∧ e.net + h = k := by
  constructor
  · intro h
    obtain ⟨e, heffect, hbind⟩ := bind_eq_ok_iff.1 h
    obtain ⟨h', hrest, hsum⟩ := bind_eq_ok_iff.1 hbind
    exact ⟨e, h', heffect, hrest, Except.ok.inj hsum⟩
  · rintro ⟨e, h, heffect, hrest, rfl⟩
    exact bind_eq_ok_iff.2 ⟨e, heffect, bind_eq_ok_iff.2 ⟨h, hrest, rfl⟩⟩

/-- The effects of two parts of code add up. -/
theorem netEffect_append_eq_ok_iff {first second : List Instruction} {k : Int} :
    netEffect (first ++ second) = .ok k ↔
      ∃ h h', netEffect first = .ok h ∧ netEffect second = .ok h' ∧ h + h' = k := by
  induction first generalizing k with
  | nil => simp [netEffect]
  | cons insn first ih =>
    rw [List.cons_append, netEffect_cons_eq_ok_iff]
    constructor
    · rintro ⟨e, _, heffect, hrest, rfl⟩
      obtain ⟨h, h', hfirst, hsecond, rfl⟩ := ih.1 hrest
      exact ⟨_, h', netEffect_cons_eq_ok_iff.2 ⟨e, h, heffect, hfirst, rfl⟩, hsecond,
        Int.add_assoc ..⟩
    · rintro ⟨_, h', hcons, hsecond, rfl⟩
      obtain ⟨e, h, heffect, hfirst, rfl⟩ := netEffect_cons_eq_ok_iff.1 hcons
      exact ⟨e, _, heffect, ih.2 ⟨h, h', hfirst, hsecond, rfl⟩, (Int.add_assoc ..).symm⟩

namespace Fragment

/-- Code without branches whose running height, popping included, never falls below what is
available. If its exit height is known, it is that of the code. -/
structure Straight (f : Fragment) (available : Nat) : Prop where
  unbranched : ∀ insn ∈ f.code, insn.targets = []
  running : ∀ before insn after h e, f.code = before ++ insn :: after →
    ClassEdit.netEffect before = .ok h → insn.effect = .ok e → -(available : Int) ≤ h - e.pops.toNat
  exit : ∀ h, f.exitHeight = some h → ClassEdit.netEffect f.code = .ok h

/-- Behind the last instruction the height is what is left and pushed there. -/
theorem Straight.netEffect_bounds (h : f.Straight available)
    (hroom : ∀ before insn after h, f.code = before ++ insn :: after →
      ClassEdit.netEffect before = .ok h → h ≤ room)
    {k : Int} (hnet : ClassEdit.netEffect f.code = .ok k) :
    -(available : Int) ≤ k ∧ k ≤ room + 65535 := by
  obtain hnil | ⟨before, insn, hcode⟩ := List.eq_nil_or_concat f.code
  · rw [hnil] at hnet
    cases hnet
    omega
  · rw [List.concat_eq_append] at hcode
    rw [hcode, netEffect_append_eq_ok_iff] at hnet
    obtain ⟨k', _, hbefore, hlast, rfl⟩ := hnet
    obtain ⟨e, _, heffect, hempty, rfl⟩ := netEffect_cons_eq_ok_iff.1 hlast
    cases hempty
    have hlow := h.running before insn [] k' e hcode hbefore heffect
    have hhigh := hroom before insn [] k' hcode hbefore
    have hpushes := e.pushes.toNat_lt
    unfold StackEffect.net
    omega

/-- The sum of the effects is not too large for 32 bits, where the running heights are not. -/
theorem Straight.netEffect_code (h : f.Straight available) (havailable : available ≤ 65535)
    (hroom : ∀ before insn after h, f.code = before ++ insn :: after →
      ClassEdit.netEffect before = .ok h → h ≤ room) (hlimit : room ≤ 131070)
    {k : Int} (hnet : f.netEffect = .ok k) : ClassEdit.netEffect f.code = .ok k := by
  unfold netEffect at hnet
  split at hnet
  · rename_i height hexit
    rw [h.exit height hexit]
    exact hnet
  · split at hnet
    · cases hnet
    · cases hsum : ClassEdit.netEffect f.code with
      | error e =>
        rw [hsum] at hnet
        cases hnet
      | ok sum =>
        obtain ⟨hlow, hhigh⟩ := h.netEffect_bounds hroom hsum
        rw [hsum, Except.map, Int.bmod_eq_of_le (by omega) (by omega)] at hnet
        exact hnet

/-- The running heights of code without branches are linked. -/
theorem Straight.exists_linked (h : f.Straight available)
    (hsuits : ∀ insn ∈ f.code, insn.Suits result)
    (hroom : ∀ before insn after h, f.code = before ++ insn :: after →
      ClassEdit.netEffect before = .ok h → h ≤ room)
    {before after : List Instruction} (hcode : f.code = before ++ after) {k d : Int}
    (hbefore : ClassEdit.netEffect before = .ok k)
    (hafter : ClassEdit.netEffect after = .ok d) :
    ∃ A : AnnotatedCode, A.code = after ∧
      Linked id (fun insn e k => Permitted result available insn e k ∧ k ≤ room) (fun _ => none)
        (some k) A (some (k + d)) := by
  induction after generalizing before k d with
  | nil =>
    cases hafter
    exact ⟨[], rfl, .nil fun k' hk' => by rw [← hk', Int.add_zero]⟩
  | cons insn after ih =>
    obtain ⟨e, d', heffect, hrest, rfl⟩ := netEffect_cons_eq_ok_iff.1 hafter
    have hinsn : insn ∈ f.code := by simp [hcode]
    have hhere : ClassEdit.netEffect (before ++ [insn]) = .ok (k + e.net) :=
      netEffect_append_eq_ok_iff.2 ⟨k, e.net, hbefore,
        netEffect_cons_eq_ok_iff.2 ⟨e, 0, heffect, rfl, Int.add_zero _⟩, rfl⟩
    -- the running height behind the instruction is the one that the rest begins with
    obtain ⟨A, hA, hlinked⟩ := ih (by simp [hcode]) hhere hrest
    refine ⟨(insn, some k) :: A, by rw [AnnotatedCode.code_cons, hA], ?_⟩
    refine .reached (fun k' hk' => (Option.some.inj hk').symm) heffect ?_ ?_ ?_
    · have hlow := h.running before insn after k e hcode hbefore heffect
      exact ⟨⟨by omega, (hsuits insn hinsn).no_subroutine,
        fun hexit => (hsuits insn hinsn).returns_result hexit e heffect⟩,
        hroom before insn after k hcode hbefore⟩
    · rw [h.unbranched insn hinsn]
      exact nofun
    · rw [← Int.add_assoc]
      split
      · exact hlinked
      · exact hlinked.arriving_none

/-- Code without branches and without effect is neutral. -/
theorem Straight.neutral (h : f.Straight available) (havailable : available ≤ 65535)
    (hsuits : ∀ insn ∈ f.code, insn.Suits result) (hnet : f.netEffect = .ok 0)
    (hroom : ∀ before insn after h, f.code = before ++ insn :: after →
      ClassEdit.netEffect before = .ok h → h ≤ room) (hlimit : room ≤ 131070) :
    f.Neutral result available room := by
  obtain ⟨A, hA, hlinked⟩ := h.exists_linked hsuits hroom (List.nil_append _).symm rfl
    (h.netEffect_code havailable hroom hlimit hnet)
  refine ⟨A, hA, hlinked.mono (fun _ _ _ _ _ => id) ?_⟩
  intro insn hinsn l hl
  rw [h.unbranched insn (hA ▸ hinsn)] at hl
  cases hl

end Fragment

/-! ### Balanced sources -/

/-- A fragment passes the comparison exactly if it has the effect that it declares. -/
theorem checkEffect_eq_ok_iff {signature : String} {place : SpliceSite} :
    checkEffect signature f place = .ok () ↔ f.netEffect = .ok f.delta := by
  constructor
  · intro h
    obtain ⟨effect, heffect, hcheck⟩ := bind_eq_ok_iff.1 h
    split at hcheck
    · rename_i hsame
      rw [heffect, hsame]
    · cases hcheck
  · exact fun h => bind_eq_ok_iff.2 ⟨f.delta, h, if_pos rfl⟩

namespace FragmentSource

variable {source : FragmentSource} {site : Site} {slots : UInt16}

/-- A source of fragments that declare to keep the height and may stand in the method under edit:
code without branches, or a program that assembles carefully whenever it succeeds. -/
def Balanced (site : Site) (slots : UInt16) : FragmentSource → Prop
  | .fixed f =>
    f.delta = 0 ∧ f.Straight slots.toNat ∧ ∀ insn ∈ f.code, insn.Suits site.method.result
  | .assembled program =>
    ∀ a, (program site).run (.start slots.toNat) = (.ok (), a) →
      a.Careful slots.toNat ∧ a.delta = 0 ∧ ∀ insn ∈ a.code, insn.Suits site.method.result

/-- The fragments of a source fit in above a height: none of their instructions is reached with a
height that 16 bits do not hold. For an assembled fragment its assembler has counted how high it
gets, and for a list of instructions the effects are added up. -/
def HasRoom (site : Site) (slots : UInt16) (height : Int) : FragmentSource → Prop
  | .fixed f => ∀ before insn after k, f.code = before ++ insn :: after →
    ClassEdit.netEffect before = .ok k → height + k ≤ 65535
  | .assembled program => ∀ a, (program site).run (.start slots.toNat) = (.ok (), a) →
    height + a.highest ≤ 65535

/-- What a balanced source gives is neutral, once its effect was compared with what it declares, and
it fits in where there is room. -/
theorem Balanced.neutral (h : source.Balanced site slots)
    (hresolve : source.resolve site slots = .ok f) (hnet : f.netEffect = .ok f.delta)
    {height : Int} (hlow : -65535 ≤ height) (hheight : height ≤ 65535)
    (hroom : source.HasRoom site slots height) :
    ∃ room : Nat, f.Neutral site.method.result slots.toNat room ∧ height + room ≤ 65535 := by
  refine ⟨(65535 - height).toNat, ?_, by omega⟩
  cases source with
  | fixed fragment =>
    cases hresolve
    obtain ⟨hdelta, hstraight, hsuits⟩ := h
    rw [hdelta] at hnet
    have hslots := slots.toNat_lt
    refine hstraight.neutral (by omega) hsuits hnet (fun before insn after k hcode hbefore => ?_)
      (by omega)
    have hfits := hroom before insn after k hcode hbefore
    omega
  | assembled program =>
    -- the assembler has seen all heights, so what it declares is the effect
    obtain ⟨a, rest, hrun, hbuild⟩ := Assembler.assemble_eq_ok_iff.1 hresolve
    obtain ⟨hcareful, hdelta, hsuits⟩ := h a hrun
    obtain ⟨-, -, hf⟩ := Assembly.build_eq_ok hbuild
    have hcode : f.code = a.code := by rw [hf]
    have hzero : f.delta = 0 := by rw [hf, ← hdelta]
    have hfits := hroom a hrun
    rw [hzero] at hnet
    exact hcareful.neutral hbuild (hcode ▸ hsuits) hnet (by omega)

end FragmentSource

end ClassEdit
