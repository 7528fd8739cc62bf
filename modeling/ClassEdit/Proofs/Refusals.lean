import ClassEdit.Proofs.Heights

/-!
# Why heights do not come out

When the search for heights is refused, the refusal says what is wrong: with a handler, with an
instruction at the height with which control reaches it, or with two ways of reaching the same
instruction. What it says is true of the method, since a search comes only to points that control
reaches. Heights are those that the search sees, counted in 16 bits.

## Main definitions

* `MethodDecl.Rejects`: what can be wrong with an instruction at a height.
* `MethodDecl.Contradiction`: what a refusal says about a method.

## Main results

* `MethodDecl.expand_eq_error`: an expansion is refused for what is wrong with the instruction.
* `MethodDecl.contradiction_of_heights`: a refusal is justified.
-/

namespace ClassEdit

namespace MethodDecl

variable {m : MethodDecl} {index : Nat} {height pops : UInt16} {insn : Instruction} {e : EditError}

/-! ### What is wrong with an instruction -/

/-- What can be wrong with an instruction that is reached with a height, and the refusal for it. -/
inductive Rejects (m : MethodDecl) (index : Nat) (height : UInt16) (insn : Instruction) :
    EditError → Prop
  | meaning {e : EditError} (heffect : insn.effect = .error e) : Rejects m index height insn e
  | underflow {effect : StackEffect} (heffect : insn.effect = .ok effect)
      (hpops : height < effect.pops) :
      Rejects m index height insn
        (.imbalance m.signature (.underflow insn index effect.pops height))
  | target {l : Label} (hl : l ∈ insn.targets) (hnone : labelPosition? l m.code = none) :
      Rejects m index height insn (.malformed (.unknownLabel m.signature l))
  | fallsOff (hflow : insn.flow.fallsThrough = true) (hend : m.code.length ≤ index + 1) :
      Rejects m index height insn (.malformed (.fallsOff m.signature))
  | wrongReturn {effect : StackEffect} (hflow : insn.flow = .exit)
      (heffect : insn.effect = .ok effect) (hpops : effect.pops ≠ m.result.slots) :
      Rejects m index height insn (.imbalance m.signature (.wrongReturn insn index m.result))
  | subroutine (hflow : insn.flow = .subroutine) :
      Rejects m index height insn (.malformed (.subroutine m.signature))

theorem resolve_eq_error {l : Label} (h : m.resolve l = .error e) :
    labelPosition? l m.code = none ∧ e = .malformed (.unknownLabel m.signature l) := by
  unfold resolve at h
  cases hl : labelPosition? l m.code with
  | some p => simp [hl] at h
  | none =>
    rw [hl] at h
    exact ⟨rfl, (Except.error.inj h).symm⟩

/-- Labels are refused for one of them that is not placed. -/
theorem resolveAll_eq_error {ls : List Label} (h : m.resolveAll ls = .error e) :
    ∃ l ∈ ls, labelPosition? l m.code = none ∧ e = .malformed (.unknownLabel m.signature l) := by
  induction ls with
  | nil => cases h
  | cons l ls ih =>
    unfold resolveAll at h
    split at h
    · rename_i e' hl
      cases h
      exact ⟨l, List.mem_cons_self, resolve_eq_error hl⟩
    · split at h
      · rename_i e' hls
        cases h
        obtain ⟨l', hl', hrefused⟩ := ih hls
        exact ⟨l', List.mem_cons_of_mem l hl', hrefused⟩
      · cases h

theorem following_eq_error (h : m.following index = .error e) :
    m.code.length ≤ index + 1 ∧ e = .malformed (.fallsOff m.signature) := by
  unfold following at h
  split at h
  · cases h
  · rename_i hend
    exact ⟨by omega, (Except.error.inj h).symm⟩

/-- Successors are refused for what is wrong with the instruction. -/
theorem successors_eq_error {effect : StackEffect} (heffect : insn.effect = .ok effect)
    (h : m.successors index insn effect.pops = .error e) : m.Rejects index height insn e := by
  -- a refusal comes from a target, from the instruction that should follow, or from the exit itself
  have htarget : ∀ e, m.resolveAll insn.targets = .error e → m.Rejects index height insn e := by
    intro e h
    obtain ⟨l, hl, hnone, rfl⟩ := resolveAll_eq_error h
    exact .target hl hnone
  have hnext : insn.flow.fallsThrough = true → ∀ e, m.following index = .error e →
      m.Rejects index height insn e := by
    intro hflow e h
    obtain ⟨hend, rfl⟩ := following_eq_error h
    exact .fallsOff hflow hend
  unfold successors at h
  cases hflow : insn.flow with
  | sequential | call | marker =>
    simp only [hflow] at h
    exact hnext (by rw [hflow]; rfl) e h
  | throwing => simp [hflow] at h
  | exit =>
    simp only [hflow] at h
    split at h
    · cases h
    · rename_i hpops
      cases h
      exact .wrongReturn hflow heffect hpops
  | subroutine =>
    simp only [hflow, Except.error.injEq] at h
    exact h ▸ .subroutine hflow
  | unconditional | switch =>
    simp only [hflow] at h
    exact htarget e h
  | conditional =>
    simp only [hflow] at h
    split at h
    · rename_i e' htargets
      cases h
      exact htarget e htargets
    · split at h
      · rename_i e' hfollowing
        cases h
        exact hnext (by rw [hflow]; rfl) e hfollowing
      · cases h

/-- An expansion is refused for what is wrong with the instruction. -/
theorem expand_eq_error (h : m.expand index height insn = .error e) :
    m.Rejects index height insn e := by
  unfold expand at h
  cases heffect : insn.effect with
  | error e' =>
    simp only [heffect, Except.error.injEq] at h
    exact h ▸ .meaning heffect
  | ok effect =>
    simp only [heffect] at h
    split at h
    · rename_i hpops
      cases h
      exact .underflow heffect hpops
    · split at h
      · rename_i e' hsuccessors
        cases h
        exact successors_eq_error heffect hsuccessors
      · cases h

/-! ### What is wrong with a method -/

/-- What a refusal says about a method: a handler has no place, something is wrong with an
instruction at a height with which control reaches it, or control reaches an instruction with two
heights. -/
inductive Contradiction (m : MethodDecl) : EditError → Prop
  | handler {b : ExceptionHandler} (hb : b ∈ m.handlers)
      (hnone : labelPosition? b.handler m.code = none) :
      Contradiction m (.malformed (.unknownLabel m.signature b.handler))
  | rejected {index : Nat} {height : UInt16} {insn : Instruction} {e : EditError}
      (hreached : m.ReachesWrapped ⟨index, height.toNat⟩) (hinsn : m.code[index]? = some insn)
      (hrejects : m.Rejects index height insn e) : Contradiction m e
  | meeting {index : Nat} {known arriving : UInt16} {insn : Instruction}
      (hknown : m.ReachesWrapped ⟨index, known.toNat⟩)
      (harriving : m.ReachesWrapped ⟨index, arriving.toNat⟩)
      (hother : known ≠ arriving) (hinsn : m.code[index]? = some insn) :
      Contradiction m (.imbalance m.signature (.meeting known arriving index insn))

end MethodDecl

namespace Search

variable {m : MethodDecl} {s : Search} {e : EditError}

/-- A step from the invariant is refused for a contradiction that control reaches. -/
theorem Invariant.contradiction_of_step (hinv : Invariant m s) (h : Search.step m s = .refused e) :
    m.Contradiction e := by
  have hreached {a : Arrival} {rest : List Arrival} (hpending : s.pending = a :: rest) :
      m.ReachesWrapped a.point := hinv.reached _ (.inl ⟨a, by simp [hpending], rfl⟩)
  cases step_eq_iff.1 h with
  | rejected hpending hinsn _ hexpand =>
    exact .rejected (hreached hpending) hinsn (MethodDecl.expand_eq_error hexpand)
  | @meeting _ _ _ known hpending hinsn hbefore hother =>
    exact .meeting (hinv.reached _ (.inr ⟨known, hbefore, rfl⟩)) (hreached hpending) hother hinsn

theorem Invariant.contradiction_of_run (hinv : Invariant m s) (h : Search.run m s = .error e) :
    m.Contradiction e := by
  fun_induction Search.run m s with
  | case1 s result hstep => cases h
  | case2 s e' hstep =>
    cases h
    exact hinv.contradiction_of_step hstep
  | case3 s next hstep ih => exact ih (hinv.step hstep) h

end Search

/-- A refusal is justified: what it says is wrong with the method. -/
theorem MethodDecl.contradiction_of_heights {m : MethodDecl} {e : EditError}
    (h : m.heights = .error e) : m.Contradiction e := by
  unfold heights at h
  cases harrivals : m.handlerArrivals with
  | ok arrivals =>
    rw [harrivals] at h
    exact (invariant_start harrivals).contradiction_of_run h
  | error e' =>
    rw [harrivals] at h
    cases h
    -- the search has not begun, so the label of a handler is missing
    unfold handlerArrivals at harrivals
    split at harrivals
    · rename_i e' hplaces
      cases harrivals
      obtain ⟨l, hl, hnone, rfl⟩ := resolveAll_eq_error hplaces
      obtain ⟨b, hb, rfl⟩ := List.mem_map.1 hl
      exact .handler hb hnone
    · cases harrivals

end ClassEdit
