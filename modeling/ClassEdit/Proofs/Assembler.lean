import ClassEdit.Fragment.Assembler
import Mathlib.Order.Lattice
import Mathlib.Data.Nat.Basic

/-!
# What the calls of an assembler do

Each call of an assembler that succeeds is described by what the state afterwards has to do with the
state before. Outside dead code, appending an instruction and marking a label differ from each other
only in which arrivals they record; in dead code, marking a label takes up what was recorded for it,
and everything else is appended as it is.

## Main definitions

* `Assembly.Recorded`: arrivals at labels were recorded.

## Main results

* `Assembly.mark_eq_ok`, `Assembly.emit_eq_ok`: the calls that append.
* `Assembly.build_eq_ok`, `Assembly.build_eq_error`: the fragment that is built, or the refusal.
* `Assembler.assemble_eq_ok_iff`: the fragment that a program assembles.
-/

namespace ClassEdit

theorem Flow.not_endsPath {flow : Flow} (h : flow.fallsThrough = true) :
    Assembly.endsPath flow = false := by
  cases flow <;> first | rfl | cases h

namespace Assembly

variable {a b c : Assembly} {l : Label} {ls : List Label} {k : Int} {insn : Instruction}
variable {f : Fragment}

/-- One assembly has recorded arrivals at labels, and is the same as another one otherwise. -/
structure Recorded (ls : List Label) (a b : Assembly) : Prop where
  eq_with : b = { a with labelHeights := b.labelHeights }
  arrived : ∀ l ∈ ls, b.heightAt? l = some a.height
  kept : ∀ l k, a.heightAt? l = some k → b.heightAt? l = some k
  old_or_new : ∀ l k, b.heightAt? l = some k → a.heightAt? l = some k ∨ l ∈ ls ∧ k = a.height

namespace Recorded

theorem code_eq (h : Recorded ls a b) : b.code = a.code := by rw [h.eq_with]

theorem available_eq (h : Recorded ls a b) : b.available = a.available := by rw [h.eq_with]

theorem height_eq (h : Recorded ls a b) : b.height = a.height := by rw [h.eq_with]

theorem highest_eq (h : Recorded ls a b) : b.highest = a.highest := by rw [h.eq_with]

theorem placed_eq (h : Recorded ls a b) : b.placed = a.placed := by rw [h.eq_with]

theorem dead_eq (h : Recorded ls a b) : b.dead = a.dead := by rw [h.eq_with]

theorem refl (a : Assembly) : Recorded [] a a := ⟨rfl, nofun, fun _ _ => id, fun _ _ => .inl⟩

theorem trans (h : Recorded [l] a b) (h' : Recorded ls b c) : Recorded (l :: ls) a c := by
  refine ⟨?_, ?_, fun l' k hk => h'.kept l' k (h.kept l' k hk), ?_⟩
  · rw [h'.eq_with, h.eq_with]
  · rintro l' (_ | ⟨_, hl'⟩)
    · exact h'.kept l _ (h.arrived l List.mem_cons_self)
    · exact h.height_eq ▸ h'.arrived l' hl'
  · intro l' k hk
    rcases h'.old_or_new l' k hk with hk | ⟨hl', hk⟩
    · rcases h.old_or_new l' k hk with hk | ⟨hl', hk⟩
      · exact .inl hk
      · exact .inr ⟨List.mem_cons.2 (.inl (List.mem_singleton.1 hl')), hk⟩
    · exact .inr ⟨List.mem_cons_of_mem _ hl', h.height_eq ▸ hk⟩

/-- The heights that are known stay within bounds that hold for the present height. -/
theorem bounded (h : Recorded ls a b) {low high : Int} (hheight : low ≤ a.height ∧ a.height ≤ high)
    (hknown : ∀ l k, a.heightAt? l = some k → low ≤ k ∧ k ≤ high) {k : Int}
    (hk : k = b.height ∨ ∃ l, b.heightAt? l = some k) : low ≤ k ∧ k ≤ high := by
  rcases hk with rfl | ⟨l, hl⟩
  · rw [h.height_eq]
    exact hheight
  · rcases h.old_or_new l k hl with hl | ⟨-, rfl⟩
    · exact hknown l k hl
    · exact hheight

end Recorded

theorem record_eq_ok (h : a.record l = .ok b) : Recorded [l] a b := by
  unfold record at h
  split at h
  · rename_i known hknown
    split at h
    · rename_i hsame
      cases h
      refine ⟨rfl, ?_, fun _ _ => id, fun _ _ => .inl⟩
      simpa [hsame] using hknown
    · cases h
  · rename_i hnone
    cases h
    -- the new entry comes last, so it hides none of the old ones
    have hheight : ∀ l' : Label,
        heightAt? { a with labelHeights := a.labelHeights ++ [(l, a.height)] } l' =
          (a.heightAt? l').or (if l' = l then some a.height else none) := by
      intro l'
      rw [heightAt?, heightAt?, List.lookup_append, List.lookup_cons, List.lookup_nil]
      by_cases hsame : l' = l
      · simp [hsame]
      · simp [hsame, beq_false_of_ne hsame]
    refine ⟨rfl, ?_, ?_, ?_⟩
    · simp [hheight, hnone]
    · intro l' k hk
      simp [hheight, hk]
    · intro l' k hk
      rw [hheight] at hk
      cases hold : a.heightAt? l' with
      | some k' => exact .inl (by simpa [hold] using hk)
      | none =>
        right
        rw [hold, Option.none_or] at hk
        split at hk
        · rename_i hsame
          exact ⟨List.mem_singleton.2 hsame, (Option.some.inj hk).symm⟩
        · cases hk

theorem recordAll_eq_ok (h : a.recordAll ls = (.ok (), b)) : Recorded ls a b := by
  induction ls generalizing a with
  | nil =>
    cases h
    exact .refl b
  | cons l ls ih =>
    unfold recordAll at h
    split at h
    · rename_i next hnext
      exact (record_eq_ok hnext).trans (ih h)
    · cases h

/-- A label that was marked takes up the height recorded for it, is a stray, or is recorded. -/
theorem mark_eq_ok (h : a.mark l = (.ok (), b)) :
    ∃ c, b = { c with code := a.code ++ [.label l] } ∧
      ((∃ k, a.dead = true ∧ a.heightAt? l = some k ∧
          c = { a with placed := a.placed ++ [l], height := k, dead := false }) ∨
        (a.dead = true ∧ a.heightAt? l = none ∧ c = { a with placed := a.placed ++ [l] }) ∨
        (a.dead = false ∧ Recorded [l] { a with placed := a.placed ++ [l] } c)) := by
  unfold mark at h
  split at h
  · cases h
  · cases hdead : a.dead with
    | true =>
      -- behind an instruction that does not go on, only a jump from before tells the height
      cases hheight : a.heightAt? l with
      | some k =>
        simp only [hdead, ↓reduceIte, heightAt?] at h hheight
        simp only [hheight, Prod.mk.injEq, true_and] at h
        exact ⟨_, h.symm, .inl ⟨k, rfl, rfl, rfl⟩⟩
      | none =>
        simp only [hdead, ↓reduceIte, heightAt?] at h hheight
        simp only [hheight, Prod.mk.injEq, true_and] at h
        exact ⟨_, h.symm, .inr (.inl ⟨rfl, rfl, rfl⟩)⟩
    | false =>
      -- control goes on to the label, so its height is recorded or compared with what is recorded
      simp only [hdead, Bool.false_eq_true, ↓reduceIte] at h
      split at h
      · cases h
      · rename_i c hrecord
        simp only [Prod.mk.injEq, true_and] at h
        have hrecorded := record_eq_ok hrecord
        exact ⟨c, by rw [← h, hrecorded.code_eq], .inr (.inr ⟨rfl, hdead ▸ hrecorded⟩)⟩

/-- An instruction that was appended has an effect, and outside dead code the effect is followed. -/
theorem emit_eq_ok (h : a.emit insn = (.ok (), b)) :
    ∃ e c, insn.effect = .ok e ∧
      b = { c with dead := endsPath insn.flow, code := a.code ++ [insn] } ∧
        (a.dead = true ∧ c = a ∨
          a.dead = false ∧ -(a.available : Int) ≤ a.height - e.pops.toNat ∧
            Recorded insn.targets { a with
              height := a.height + e.net
              highest := max a.highest (a.height + e.net) } c) := by
  unfold emit at h
  cases heffect : insn.effect with
  | error e => simp [heffect] at h
  | ok e =>
    simp only [heffect] at h
    cases hdead : a.dead with
    | true =>
      -- an instruction that is not reached is appended, and moves nothing
      simp only [hdead, ↓reduceIte, Prod.mk.injEq, true_and] at h
      exact ⟨e, a, rfl, h.symm, .inl ⟨rfl, rfl⟩⟩
    | false =>
      simp only [hdead, Bool.false_eq_true, ↓reduceIte, follow] at h
      split at h
      · cases h
      · rename_i c hfollow
        split at hfollow
        · cases hfollow
        · rename_i hlow
          have hnet : a.height - e.pops.toNat + e.pushes.toNat = a.height + e.net := by
            simp only [StackEffect.net]
            omega
          rw [hnet] at hfollow
          have hrecorded := recordAll_eq_ok hfollow
          simp only [Prod.mk.injEq, true_and] at h
          exact ⟨e, c, rfl, by rw [← h, hrecorded.code_eq], .inr ⟨rfl, by omega, hrecorded⟩⟩

theorem code_of_mark (h : a.mark l = (.ok (), b)) : b.code = a.code ++ [.label l] := by
  obtain ⟨c, rfl, -⟩ := mark_eq_ok h
  rfl

theorem code_of_emit (h : a.emit insn = (.ok (), b)) : b.code = a.code ++ [insn] := by
  obtain ⟨e, c, -, rfl, -⟩ := emit_eq_ok h
  rfl

/-- What is recorded stays recorded when a label is marked. -/
theorem kept_of_mark (h : a.mark l = (.ok (), b)) {l' : Label}
    (hk : a.heightAt? l' = some k) : b.heightAt? l' = some k := by
  obtain ⟨c, rfl, ⟨_, -, -, rfl⟩ | ⟨-, -, rfl⟩ | ⟨-, hrecorded⟩⟩ := mark_eq_ok h
  · exact hk
  · exact hk
  · exact hrecorded.kept l' k hk

/-- What is recorded stays recorded when an instruction is appended. -/
theorem kept_of_emit (h : a.emit insn = (.ok (), b)) (hk : a.heightAt? l = some k) :
    b.heightAt? l = some k := by
  obtain ⟨e, c, -, rfl, ⟨-, rfl⟩ | ⟨-, -, hrecorded⟩⟩ := emit_eq_ok h
  · exact hk
  · exact hrecorded.kept l k hk

theorem highest_of_mark (h : a.mark l = (.ok (), b)) : b.highest = a.highest := by
  obtain ⟨c, rfl, ⟨_, -, -, rfl⟩ | ⟨-, -, rfl⟩ | ⟨-, hrecorded⟩⟩ := mark_eq_ok h
  · rfl
  · rfl
  · exact hrecorded.highest_eq

theorem highest_le_of_emit (h : a.emit insn = (.ok (), b)) : a.highest ≤ b.highest := by
  obtain ⟨e, c, -, rfl, ⟨-, rfl⟩ | ⟨-, -, hrecorded⟩⟩ := emit_eq_ok h
  · exact le_rfl
  · exact (le_max_left _ _).trans hrecorded.highest_eq.ge

/-- What a fragment that was built consists of. -/
theorem build_eq_ok {rest : Assembly} (h : a.build = (.ok f, rest)) :
    (∀ l k, a.heightAt? l = some k → l ∈ a.placed) ∧ a.highest ≤ heightLimit ∧
      f = ⟨a.code, a.delta, .ofNat a.highest.toNat,
        some (if a.dead then a.delta else a.height)⟩ := by
  unfold build at h
  split at h
  · cases h
  · rename_i hplaced
    dsimp only at h
    split at h
    · cases h
    · rename_i hhighest
      cases h
      refine ⟨fun l k hk => ?_, by omega, rfl⟩
      obtain ⟨before, after, hentries, -⟩ := List.lookup_eq_some_iff.1 hk
      have hmem : l ∈ a.labelHeights.map Prod.fst := by simp [hentries]
      simpa using List.filter_eq_nil_iff.1 hplaced l hmem

/-- A fragment that could not be built has left the assembler as it was, or too high for ever. -/
theorem build_eq_error {e : EditError} (h : a.build = (.error e, b)) :
    b = a ∨ heightLimit < b.highest := by
  unfold build at h
  split at h
  · cases h
    exact .inl rfl
  · dsimp only at h
    split at h
    · rename_i hhighest
      cases h
      exact .inr hhighest
    · cases h

end Assembly

/-- What a program assembles is built from what it leaves of a fresh assembler. -/
theorem Assembler.assemble_eq_ok_iff {program : Assembler Unit} {available : Nat} {f : Fragment} :
    program.assemble available = .ok f ↔ ∃ a rest,
      program.run (Assembly.start available) = (.ok (), a) ∧ a.build = (.ok f, rest) := by
  unfold assemble
  constructor
  · intro h
    split at h
    · cases h
    · rename_i a hrun
      exact ⟨a, a.build.2, hrun, Prod.ext h rfl⟩
  · rintro ⟨a, rest, hrun, hbuild⟩
    rw [hrun]
    exact congrArg Prod.fst hbuild

end ClassEdit
