import ClassEdit.Proofs.Hygiene
import ClassEdit.Proofs.Neutral
import ClassEdit.Proofs.Refusals

/-!
# Bodies from an assembler

A fragment that was assembled carefully can be the whole body of a method. Then its heights are
followed twice: by the assembler, which goes through the code once and writes down one height for
each label, and by the search, which follows all paths. Both find the same heights. The search can
find fault only with what an assembler does not look at: where the code ends, what a return gives
back, and subroutines. If it does not, it comes to every instruction, because code behind an
instruction that does not go on begins with a label to which a jump leads.

## Main definitions

* `Assembly.Observed`: careful assemblies, with the heights that the assembler shows.
* `Assembly.Joined`: code that is entered by a jump wherever it is not entered from above.

## Main results

* `Assembly.Observed.tracked`: the heights that an assembler shows are linked.
* `Assembly.Observed.exists_heights_iff`: what the search can find fault with.
* `Assembly.Observed.at_eq`: the heights at all instructions, as the assembler showed them.
* `Operation.overwrite_observed`: assembler and search agree.
-/

namespace ClassEdit

namespace Assembly

variable {available : Nat} {a b rest : Assembly} {A : AnnotatedCode} {insn : Instruction}
variable {l : Label} {f : Fragment}

/-! ### Observed assemblies -/

/-- The states that successful calls reach when nothing is appended in dead code, and no label is
marked there before a jump to it was appended. Beside each instruction stands the height that the
assembler showed right before the call that appended it, and beside each label the height right
after the label was marked. -/
inductive Observed (available : Nat) : Assembly → AnnotatedCode → Prop
  | start : Observed available (start available) []
  | declare {a : Assembly} {A : AnnotatedCode} (h : Observed available a A) (delta : Int) :
      Observed available (a.declare delta) A
  | newLabel {a : Assembly} {A : AnnotatedCode} (h : Observed available a A) :
      Observed available a.newLabel.2 A
  | emit {a b : Assembly} {A : AnnotatedCode} (h : Observed available a A) (insn : Instruction)
      (hinsn : insn.placed? = none) (hlive : a.dead = false) (hemit : a.emit insn = (.ok (), b)) :
      Observed available b (A ++ [(insn, some a.height)])
  | mark {a b : Assembly} {A : AnnotatedCode} (h : Observed available a A) (l : Label)
      (hjump : a.dead = true → ∃ insn ∈ a.code, l ∈ insn.targets)
      (hmark : a.mark l = (.ok (), b)) : Observed available b (A ++ [(.label l, some b.height)])

theorem Observed.careful (h : Observed available a A) : Careful available a := by
  induction h with
  | start => exact .start
  | declare _ delta ih => exact ih.declare delta
  | newLabel _ ih => exact ih.newLabel
  | emit _ insn hinsn hlive hemit ih => exact ih.emit insn hinsn hlive hemit
  | mark _ l hjump hmark ih => exact ih.mark l hjump hmark

/-- Behind a label for which a height is known, control goes on. -/
theorem dead_of_mark (hmark : a.mark l = (.ok (), b))
    (hknown : a.dead = true → a.heightAt? l ≠ none) : b.dead = false := by
  obtain ⟨c, rfl, ⟨k, -, -, rfl⟩ | ⟨hdead, hnone, -⟩ | ⟨hdead, hrecorded⟩⟩ := mark_eq_ok hmark
  · rfl
  · exact absurd hnone (hknown hdead)
  · exact hrecorded.dead_eq.trans hdead

/-- The heights that an assembler shows are linked. -/
theorem Observed.tracked (h : Observed available a A) : Tracked available a [] A := by
  induction h with
  | start => exact .start
  | declare _ delta ih => exact ih.congr rfl rfl rfl rfl rfl rfl rfl
  | newLabel _ ih => exact ih.congr rfl rfl rfl rfl rfl rfl rfl
  | emit _ insn hinsn hlive hemit ih =>
    have hnote := ih.emit hinsn hemit
    rwa [leaving?_of_live hlive] at hnote
  | mark h l hjump hmark ih =>
    have hknown := h.careful.known_of_jump hjump
    have hnote := ih.mark hmark (List.Subset.refl []) fun hdead hnone =>
      absurd hnone (hknown hdead)
    rwa [leaving?_of_live (dead_of_mark hmark hknown)] at hnote

/-- The largest height is that behind some instruction, unless the height never was above the one at
the beginning. -/
theorem Observed.highest_attained (h : Observed available a A) :
    a.highest = 0 ∨ ∃ insn k e, (insn, some k) ∈ A ∧ insn.effect = .ok e ∧
      a.highest = k + e.net := by
  -- along the calls; only an instruction that is written moves the largest height
  induction h with
  | start => exact .inl rfl
  | declare _ _ ih => exact ih
  | newLabel _ ih => exact ih
  | @emit a b A _ insn _ hlive hemit ih =>
    obtain ⟨e, c, heffect, rfl, ⟨hdead, -⟩ | ⟨-, -, hrecorded⟩⟩ := emit_eq_ok hemit
    · simp [hlive] at hdead
    · have hhighest : c.highest = max a.highest (a.height + e.net) := hrecorded.highest_eq
      rcases max_choice a.highest (a.height + e.net) with hold | hnew
      · refine ih.imp (fun hzero => ?_) ?_
        · exact (hhighest.trans hold).trans hzero
        · rintro ⟨insn', k, e', hmem, heffect', hk⟩
          exact ⟨insn', k, e', List.mem_append_left _ hmem, heffect',
            (hhighest.trans hold).trans hk⟩
      · exact .inr ⟨insn, a.height, e, by simp, heffect, hhighest.trans hnew⟩
  | mark _ l _ hmark ih =>
    rw [highest_of_mark hmark]
    refine ih.imp id ?_
    rintro ⟨insn, k, e, hmem, heffect, hk⟩
    exact ⟨insn, k, e, List.mem_append_left _ hmem, heffect, hk⟩

/-! ### How the code hangs together -/

/-- Code whose labels are placed once, and in which an instruction that does not go on stands at the
end, or is followed by a label to which an instruction before the label leads. -/
structure Joined (a : Assembly) : Prop where
  placed_eq : placedLabels a.code = a.placed
  placed_once : a.placed.Nodup
  entered : ∀ i insn, a.code[i]? = some insn → endsPath insn.flow = true →
    i + 1 = a.code.length ∧ a.dead = true ∨
      ∃ l, a.code[i + 1]? = some (.label l) ∧
        ∃ j ≤ i, ∃ insn', a.code[j]? = some insn' ∧ l ∈ insn'.targets

/-- One more instruction. In dead code it has to be a label to which the code leads. -/
theorem Joined.entered_append (h : Joined a) (hcode : b.code = a.code ++ [insn])
    (hjump : a.dead = true → ∃ l, insn = .label l ∧ ∃ insn' ∈ a.code, l ∈ insn'.targets)
    (hdead : endsPath insn.flow = true → b.dead = true) :
    ∀ i insn, b.code[i]? = some insn → endsPath insn.flow = true →
      i + 1 = b.code.length ∧ b.dead = true ∨
        ∃ l, b.code[i + 1]? = some (.label l) ∧
          ∃ j ≤ i, ∃ insn', b.code[j]? = some insn' ∧ l ∈ insn'.targets := by
  intro i insn' hinsn' hends
  have hkept : ∀ {j : Nat} {insn : Instruction}, a.code[j]? = some insn →
      b.code[j]? = some insn := fun hj => by
    rw [hcode, List.getElem?_append_left (List.getElem?_eq_some_iff.1 hj).1, hj]
  by_cases hi : i < a.code.length
  · have hold : a.code[i]? = some insn' := by
      rwa [hcode, List.getElem?_append_left hi] at hinsn'
    right
    rcases h.entered i insn' hold hends with ⟨hlast, hdead⟩ | ⟨l, hl, j, hj, source, hsource, hmem⟩
    · -- the instruction was the last one, and the new one is the label behind it
      obtain ⟨l, rfl, source, hsource, hmem⟩ := hjump hdead
      obtain ⟨j, hj⟩ := List.mem_iff_getElem?.1 hsource
      have hlt := (List.getElem?_eq_some_iff.1 hj).1
      exact ⟨l, by simp [hcode, hlast], j, by omega, source, hkept hj, hmem⟩
    · exact ⟨l, hkept hl, j, hj, source, hkept hsource, hmem⟩
  · have hlt : i < b.code.length := (List.getElem?_eq_some_iff.1 hinsn').1
    have hlast : i = a.code.length := by
      simp only [hcode, List.length_append, List.length_singleton] at hlt
      omega
    obtain rfl : insn = insn' := by simpa [hcode, hlast] using hinsn'
    exact .inl ⟨by simp [hcode, hlast], hdead hends⟩

theorem placed_of_mark (h : a.mark l = (.ok (), b)) :
    b.placed = a.placed ++ [l] ∧ l ∉ a.placed := by
  constructor
  · obtain ⟨c, rfl, ⟨_, -, -, rfl⟩ | ⟨-, -, rfl⟩ | ⟨-, hrecorded⟩⟩ := mark_eq_ok h
    · rfl
    · rfl
    · exact hrecorded.placed_eq
  · intro hplaced
    simp [mark, hplaced] at h

theorem placed_of_emit (h : a.emit insn = (.ok (), b)) : b.placed = a.placed := by
  obtain ⟨e, c, -, rfl, ⟨-, rfl⟩ | ⟨-, -, hrecorded⟩⟩ := emit_eq_ok h
  · rfl
  · exact hrecorded.placed_eq

theorem dead_of_emit (h : a.emit insn = (.ok (), b)) : b.dead = endsPath insn.flow := by
  obtain ⟨e, c, -, rfl, -⟩ := emit_eq_ok h
  rfl

/-- The labels that the code places are those that were marked, each of them once. -/
def MarkedOnce (a : Assembly) : Prop := placedLabels a.code = a.placed ∧ a.placed.Nodup

theorem MarkedOnce.emit (h : a.MarkedOnce) (hinsn : insn.placed? = none)
    (hemit : a.emit insn = (.ok (), b)) : b.MarkedOnce := by
  obtain ⟨hplaced, honce⟩ := h
  constructor
  · rw [code_of_emit hemit, placedLabels_append, hplaced, placed_of_emit hemit]
    simp [placedLabels, hinsn]
  · rw [placed_of_emit hemit]
    exact honce

theorem MarkedOnce.mark (h : a.MarkedOnce) (hmark : a.mark l = (.ok (), b)) : b.MarkedOnce := by
  obtain ⟨hplaced, honce⟩ := h
  obtain ⟨hmarked, hnew⟩ := placed_of_mark hmark
  constructor
  · rw [code_of_mark hmark, placedLabels_append, hplaced, hmarked]
    rfl
  · rw [hmarked]
    exact honce.append (List.nodup_singleton l) (by simpa using hnew)

theorem Careful.joined (h : Careful available a) : Joined a := by
  induction h with
  | start =>
    refine ⟨rfl, List.nodup_nil, fun i insn hinsn => ?_⟩
    cases hinsn
  | declare _ _ ih => exact ⟨ih.placed_eq, ih.placed_once, ih.entered⟩
  | newLabel _ ih => exact ⟨ih.placed_eq, ih.placed_once, ih.entered⟩
  | emit _ insn hinsn hlive hemit ih =>
    obtain ⟨hplaced, honce⟩ := MarkedOnce.emit ⟨ih.placed_eq, ih.placed_once⟩ hinsn hemit
    refine ⟨hplaced, honce,
      ih.entered_append (code_of_emit hemit) (fun hdead => ?_) fun hends => ?_⟩
    · simp [hlive] at hdead
    · rw [dead_of_emit hemit, hends]
  | mark _ l hjump hmark ih =>
    obtain ⟨hplaced, honce⟩ := MarkedOnce.mark ⟨ih.placed_eq, ih.placed_once⟩ hmark
    refine ⟨hplaced, honce,
      ih.entered_append (code_of_mark hmark) (fun hdead => ⟨l, rfl, hjump hdead⟩) fun hends => ?_⟩
    cases hends

/-! ### The code as a body -/

section Body

variable {m : MethodDecl} {p : Point}

/-- In a method whose body is the code, control stays at points that the notes speak of. -/
theorem Tracked.holds_of_reaches (h : Tracked available a [] A) (hcode : m.code = a.code)
    (hhandlers : m.handlers = []) (hp : m.Reaches p) : A.Holds a.leaving? p := by
  refine hp.of_closed ?_ ?_
  · rintro q (hnonempty | ⟨hb, -⟩)
    · exact h.linked.holds_start
    · simp [hhandlers] at hb
  · intro q r hq hstep
    rw [hcode] at hstep
    exact (h.step hq hstep).resolve_right (by simp)

/-- What is noted about an instruction that control reaches. -/
theorem Tracked.at_reached (h : Tracked available a [] A) (hcode : m.code = a.code)
    (hhandlers : m.handlers = []) {i : Nat} {k : Int} (hreached : m.Reaches ⟨i, k⟩)
    (hinsn : m.code[i]? = some insn) :
    A[i]? = some (insn, some k) ∧ ∃ e, insn.effect = .ok e ∧ Within available a.highest insn e k ∧
      ∀ l ∈ insn.targets, a.heightAt? l = some (k + e.net) := by
  have hentry : A[i]? = some (insn, some k) :=
    h.note (h.holds_of_reaches hcode hhandlers hreached) (hcode ▸ hinsn)
  obtain ⟨e, heffect, hwithin, htargets, -⟩ := h.linked.at_reached hentry
  exact ⟨hentry, e, heffect, hwithin, htargets⟩

/-- The heights that control meets are not larger than those that the assembler has seen. -/
theorem Tracked.le_highest (h : Tracked available a [] A) (hcode : m.code = a.code)
    (hhandlers : m.handlers = []) {k : Int} (hk : k ∈ m.stackHeights) : k ≤ a.highest := by
  rcases hk with rfl | ⟨⟨i, height⟩, insn, e, hreached, hinsn, heffect, hk⟩
  · exact h.highest_nonneg
  · obtain ⟨-, e', heffect', ⟨-, hbefore, hafter⟩, -⟩ :=
      h.at_reached hcode hhandlers hreached hinsn
    obtain rfl := Except.ok.inj (heffect.symm.trans heffect')
    rcases hk with rfl | rfl
    · exact hbefore
    · exact hafter

/-- In the body of a fragment that was built, heights fit into 16 bits. -/
theorem Tracked.withinSlots (h : Tracked available a [] A) (hbuild : a.build = (.ok f, rest))
    (hcode : m.code = a.code) (hhandlers : m.handlers = []) : m.WithinSlots :=
  .of_stackHeights fun _ hk => (h.le_highest hcode hhandlers hk).trans (build_eq_ok hbuild).2.1

/-- So they are counted there as they are. -/
theorem Tracked.reachesWrapped_eq (h : Tracked 0 a [] A) (hbuild : a.build = (.ok f, rest))
    (hcode : m.code = a.code) (hhandlers : m.handlers = []) : m.ReachesWrapped = m.Reaches := by
  refine MethodDecl.reachesWrapped_eq fun p hp => (hp.of_closed (P := fun p => m.Reaches p ∧
    p.wrapped = p) (fun p hp => ⟨hp.reaches, hp.wrapped_eq⟩) ?_).2
  rintro p q ⟨hp, -⟩ hstep
  refine ⟨hp.step hstep, hstep.wrapped_eq fun insn e hinsn heffect => ?_⟩
  obtain ⟨-, e', heffect', ⟨hlow, -, hhigh⟩, -⟩ := h.at_reached hcode hhandlers hp hinsn
  obtain rfl := Except.ok.inj (heffect.symm.trans heffect')
  exact ⟨by omega, hhigh.trans (build_eq_ok hbuild).2.1⟩

/-- The faults that can be found with a body that was assembled: control runs off its end, a return
does not give back a value of the declared type, or there is a subroutine. -/
inductive Fault (m : MethodDecl) : EditError → Prop
  | fallsOff {insn : Instruction} (hlast : m.code.getLast? = some insn)
      (hflow : insn.flow.fallsThrough = true) : Fault m (.malformed (.fallsOff m.signature))
  | wrongReturn {index : Nat} {insn : Instruction} {effect : StackEffect}
      (hinsn : m.code[index]? = some insn) (hflow : insn.flow = .exit)
      (heffect : insn.effect = .ok effect) (hpops : effect.pops ≠ m.result.slots) :
      Fault m (.imbalance m.signature (.wrongReturn insn index m.result))
  | subroutine {insn : Instruction} (hinsn : insn ∈ m.code) (hflow : insn.flow = .subroutine) :
      Fault m (.malformed (.subroutine m.signature))

/-- Nothing else is wrong with the body: the assembler has seen to the rest. -/
theorem Tracked.fault (h : Tracked 0 a [] A) (hbuild : a.build = (.ok f, rest))
    (hcode : m.code = a.code) (hhandlers : m.handlers = []) {e : EditError}
    (hwrong : m.Contradiction e) : Fault m e := by
  have hcounted := h.reachesWrapped_eq hbuild hcode hhandlers
  cases hwrong with
  | handler hb => simp [hhandlers] at hb
  | meeting hknown harriving hother hinsn =>
    -- both heights are the one that is noted
    rw [hcounted] at hknown harriving
    obtain ⟨hentry, -⟩ := h.at_reached hcode hhandlers hknown hinsn
    obtain ⟨hentry', -⟩ := h.at_reached hcode hhandlers harriving hinsn
    rw [hentry] at hentry'
    simp [UInt16.toNat_inj, hother] at hentry'
  | @rejected index height insn _ hreached hinsn hrejects =>
    rw [hcounted] at hreached
    obtain ⟨-, effect, heffect, hwithin, htargets⟩ :=
      h.at_reached hcode hhandlers hreached hinsn
    cases hrejects with
    | meaning hmeaning => simp [heffect] at hmeaning
    | underflow heffect' hpops =>
      obtain rfl := Except.ok.inj (heffect.symm.trans heffect')
      have hlow := hwithin.1
      rw [UInt16.lt_iff_toNat_lt] at hpops
      omega
    | @target l hl hnone =>
      -- the label was recorded, and so it was placed before the fragment was built
      have hplaced := h.placed l ((build_eq_ok hbuild).1 l _ (htargets l hl))
      obtain ⟨p, hp⟩ := exists_labelPosition?_iff.2 (hcode ▸ hplaced)
      simp [hnone] at hp
    | fallsOff hflow hend =>
      have hlt := (List.getElem?_eq_some_iff.1 hinsn).1
      refine @Fault.fallsOff m insn ?_ hflow
      rw [List.getLast?_eq_getElem?, ← hinsn]
      congr 1
      omega
    | wrongReturn hflow heffect' hpops => exact .wrongReturn hinsn hflow heffect' hpops
    | subroutine hflow => exact .subroutine (List.mem_of_getElem? hinsn) hflow

/-- Control comes to every instruction of a consistent body. -/
theorem Joined.exists_reaches (h : Joined a) (hcode : m.code = a.code) (hm : m.Consistent) (i : Nat)
    (hi : i < m.code.length) : ∃ k, m.Reaches ⟨i, k⟩ := by
  -- an instruction is reached from the one before it, or by the jump that the label needs
  induction i using Nat.strong_induction_on with
  | _ i ih =>
    cases i with
    | zero => exact ⟨0, MethodDecl.Entry.reaches (.start (List.ne_nil_of_length_pos hi))⟩
    | succ i =>
      obtain ⟨insn, hinsn⟩ : ∃ insn, m.code[i]? = some insn :=
        ⟨_, List.getElem?_eq_getElem (Nat.lt_of_succ_lt hi)⟩
      obtain ⟨k, hk⟩ := ih i (Nat.lt_succ_self i) (Nat.lt_of_succ_lt hi)
      obtain ⟨e, heffect, -⟩ := hm.pops_le _ _ hk hinsn
      by_cases hflow : insn.flow.fallsThrough = true
      · exact ⟨_, hk.step (.next hinsn heffect hflow)⟩
      · -- a jump from before leads to the label that follows
        have hends : endsPath insn.flow = true := by
          have hsubroutine := hm.no_subroutine _ _ hk hinsn
          revert hflow hsubroutine
          cases insn.flow <;> simp [endsPath, Flow.fallsThrough]
        rcases h.entered i _ (hcode ▸ hinsn) hends with
          ⟨hlast, -⟩ | ⟨l, hl, j, hj, source, hsource, hmem⟩
        · rw [hcode] at hi
          omega
        · obtain ⟨k', hk'⟩ := ih j (by omega) (by omega)
          obtain ⟨e', heffect', -⟩ := hm.pops_le _ _ hk' (hcode ▸ hsource)
          have hplace : labelPosition? l m.code = some (i + 1) := by
            rw [hcode]
            exact labelPosition?_of_nodup (h.placed_eq ▸ h.placed_once) hl
          exact ⟨_, hk'.step (.branch (hcode ▸ hsource) heffect' hmem hplace)⟩

/-- If the search finds no fault, it finds the heights that the assembler showed, at every
instruction. -/
theorem Observed.at_eq (h : Observed 0 a A) (hbuild : a.build = (.ok f, rest))
    (hcode : m.code = a.code) (hhandlers : m.handlers = []) {r : Heights}
    (hr : m.heights = .ok r) {i : Nat} (hinsn : m.code[i]? = some insn) :
    ∃ k : UInt16, r.at? i = some k ∧ A[i]? = some (insn, some (k.toNat : Int)) ∧
      m.Reaches ⟨i, k.toNat⟩ := by
  have hfits : m.WithinSlots := h.tracked.withinSlots hbuild hcode hhandlers
  obtain ⟨k, hreached⟩ := h.careful.joined.exists_reaches hcode
    (hfits.exists_heights_iff.1 ⟨r, hr⟩) i (List.getElem?_eq_some_iff.1 hinsn).1
  obtain ⟨k', hk', rfl⟩ := (hfits.reaches_iff hr).1 hreached
  exact ⟨k', hk', (h.tracked.at_reached hcode hhandlers hreached hinsn).1, hreached⟩

/-- The largest height that the assembler has seen is the largest one that control meets. -/
theorem Observed.isGreatest (h : Observed 0 a A) (hbuild : a.build = (.ok f, rest))
    (hcode : m.code = a.code) (hhandlers : m.handlers = []) {r : Heights} (hr : m.heights = .ok r) :
    IsGreatest m.stackHeights a.highest := by
  constructor
  · rcases h.highest_attained with hzero | ⟨insn, k, e, hmem, heffect, hk⟩
    · exact .inl hzero
    · obtain ⟨i, hi⟩ := List.mem_iff_getElem?.1 hmem
      have hinsn : m.code[i]? = some insn := by
        rw [hcode, ← h.tracked.code_eq, AnnotatedCode.getElem?_code, hi]
        rfl
      obtain ⟨k', -, hentry, hreached⟩ := h.at_eq hbuild hcode hhandlers hr hinsn
      obtain rfl : k = k'.toNat := by simpa [hi] using hentry
      exact .inr ⟨_, insn, e, hreached, hinsn, heffect, .inr hk⟩
  · exact fun k hk => h.tracked.le_highest hcode hhandlers hk

/-- The search finds no fault exactly if there is none. -/
theorem Observed.exists_heights_iff (h : Observed 0 a A) (hbuild : a.build = (.ok f, rest))
    (hcode : m.code = a.code) (hhandlers : m.handlers = []) :
    (∃ r, m.heights = .ok r) ↔ ∀ e, ¬ Fault m e := by
  constructor
  · rintro ⟨r, hr⟩ e hfault
    have hm := (h.tracked.withinSlots hbuild hcode hhandlers).exists_heights_iff.1 ⟨r, hr⟩
    cases hfault with
    | @fallsOff insn hlast hflow =>
      rw [List.getLast?_eq_getElem?] at hlast
      -- every instruction is reached, so what is wrong with it is met by control
      obtain ⟨k, -, -, hreached⟩ := h.at_eq hbuild hcode hhandlers hr hlast
      have hnext := hm.next_exists _ insn hreached hlast hflow
      dsimp only at hnext
      omega
    | wrongReturn hinsn hflow heffect hpops =>
      obtain ⟨k, -, -, hreached⟩ := h.at_eq hbuild hcode hhandlers hr hinsn
      exact hpops (hm.returns_result _ _ _ hreached hinsn hflow heffect)
    | subroutine hinsn hflow =>
      obtain ⟨i, hi⟩ := List.mem_iff_getElem?.1 hinsn
      obtain ⟨k, -, -, hreached⟩ := h.at_eq hbuild hcode hhandlers hr hi
      exact hm.no_subroutine _ _ hreached hi hflow
  · intro hfaultless
    cases hheights : m.heights with
    | ok r => exact ⟨r, rfl⟩
    | error e =>
      have hwrong := MethodDecl.contradiction_of_heights hheights
      exact absurd (h.tracked.fault hbuild hcode hhandlers hwrong) (hfaultless e)

end Body

end Assembly

theorem Instruction.relabeled_zero (insn : Instruction) : insn.relabeled 0 = insn := by
  have hshift : Label.shift 0 = id := funext Label.shift_zero
  cases insn <;> simp [relabeled, hshift]

/-- Labels that are not moved stay as they are. -/
theorem Fragment.relabeled_zero (f : Fragment) : f.relabeled 0 = f.code := by
  rw [relabeled, funext Instruction.relabeled_zero, List.map_id']

/-- A body that was assembled carefully from nothing, and then installed in place of the body of a
method. The search for its heights finds fault with it only where control runs off the end, where a
return does not give back a value of the declared type, and for a subroutine. If it finds no fault,
its limit is the one that the fragment tells, control comes to every instruction, and the height
there is the one that the assembler showed: right before it appended the instruction, and right
after it marked a label. -/
theorem Operation.overwrite_observed {source : FragmentSource} {site : Site} {a rest : Assembly}
    {A : AnnotatedCode} {f : Fragment} (hrun : Assembly.Observed 0 a A)
    (hbuild : a.build = (.ok f, rest)) (hsource : source.resolve site 0 = .ok f) :
    let edited : MethodDecl := { site.method with code := f.code, handlers := [] }
    (Operation.overwrite source).apply site = .ok (edited,
        ⟨.bodyOverwritten, 1, toString f.code.length ++ " instructions"⟩) ∧
      (∀ e, edited.heights = .error e → Assembly.Fault edited e) ∧
        ∀ r, edited.heights = .ok r → r.maxStack = f.maxStack ∧
          ∀ i insn, f.code[i]? = some insn → ∃ k : UInt16,
            edited.Reaches ⟨i, k.toNat⟩ ∧ r.at? i = some k ∧
              A[i]? = some (insn, some (k.toNat : Int)) := by
  intro edited
  obtain ⟨-, -, hf⟩ := Assembly.build_eq_ok hbuild
  have hcode : edited.code = a.code := congrArg Fragment.code hf
  refine ⟨?_, ?_, ?_⟩
  · simp only [Operation.apply, hsource, Fragment.relabeled_zero]
    rfl
  · intro e he
    exact hrun.tracked.fault hbuild hcode rfl (MethodDecl.contradiction_of_heights he)
  · intro r hr
    constructor
    · have hgreatest := (hrun.tracked.withinSlots hbuild hcode rfl).isGreatest hr
      have hmax : (r.maxStack.toNat : Int) = a.highest :=
        hgreatest.unique (hrun.isGreatest hbuild hcode rfl hr)
      rw [hf]
      show r.maxStack = .ofNat a.highest.toNat
      rw [← hmax, Int.toNat_natCast, UInt16.ofNat_toNat]
    · intro i insn hinsn
      obtain ⟨k, hat, hentry, hreached⟩ := hrun.at_eq hbuild hcode rfl hr hinsn
      exact ⟨k, hreached, hat, hentry⟩

/-- A loop to the first label, and a jump to a label that is marked in dead code. -/
theorem Operation.overwrite_observed_of_loop :
    let program : Assembler Unit := do
      let top ← Assembler.newLabel
      let done ← Assembler.newLabel
      Assembler.mark top
      Assembler.simple Opcode.iconst0
      Assembler.jump Opcode.ifeq top
      Assembler.jump Opcode.goto done
      Assembler.mark done
      Assembler.simple Opcode.iconst0
      Assembler.simple Opcode.ireturn
    let source : FragmentSource := .assembled fun _ => program
    let m : MethodDecl := ⟨"f", "()I", ⟨8⟩, [], .int, [], [], 0, 0⟩
    let site : Site := ⟨⟨"a", none, [], .none, [], [m], []⟩, m, "r"⟩
    let A : AnnotatedCode := [(.label ⟨0⟩, some 0), (.simple Opcode.iconst0, some 0),
      (.jump Opcode.ifeq ⟨0⟩, some 1), (.jump Opcode.goto ⟨1⟩, some 0), (.label ⟨1⟩, some 0),
      (.simple Opcode.iconst0, some 0), (.simple Opcode.ireturn, some 1)]
    let f : Fragment := ⟨A.code, 0, 1, some 0⟩
    let edited : MethodDecl := { m with code := f.code, handlers := [] }
    let r : Heights := ⟨1, [some 0, some 0, some 1, some 0, some 0, some 0, some 1]⟩
    ∃ a rest, Assembly.Observed 0 a A ∧ a.build = (.ok f, rest) ∧ source.resolve site 0 = .ok f ∧
      edited.heights = .ok r ∧ r.maxStack = f.maxStack ∧
        ∀ i insn, f.code[i]? = some insn → ∃ k : UInt16,
          edited.Reaches ⟨i, k.toNat⟩ ∧ r.at? i = some k ∧
            A[i]? = some (insn, some (k.toNat : Int)) := by
  intro program source m site A f edited r
  have hrun := (Assembly.Observed.start : Assembly.Observed 0 _ _).newLabel.newLabel
  have hrun := hrun.mark ⟨0⟩ nofun rfl
  have hrun := hrun.emit (.simple Opcode.iconst0) rfl rfl rfl
  have hrun := hrun.emit (.jump Opcode.ifeq ⟨0⟩) rfl rfl rfl
  have hrun := hrun.emit (.jump Opcode.goto ⟨1⟩) rfl rfl rfl
  have hrun := hrun.mark ⟨1⟩ (fun _ => ⟨.jump Opcode.goto ⟨1⟩, by decide, by decide⟩) rfl
  have hrun := hrun.emit (.simple Opcode.iconst0) rfl rfl rfl
  have hrun := hrun.emit (.simple Opcode.ireturn) rfl rfl rfl
  have hsource : source.resolve site 0 = .ok f := rfl
  have hr : edited.heights = .ok r := by cbv
  obtain ⟨-, -, hheights⟩ := Operation.overwrite_observed hrun rfl hsource
  exact ⟨_, _, hrun, rfl, hsource, hr, hheights r hr⟩

end ClassEdit
