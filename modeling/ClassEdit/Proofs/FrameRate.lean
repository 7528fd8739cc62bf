import ClassEdit.Proofs.SharedRules

/-!
# Scaling the frame rate

The operation that spoofs the frame rate puts four instructions behind every call that asks for it.
They need a result to work on, so the operation is refused where there is no such call or where one
of the calls has no result. Where it is not refused, it leaves a body that differs from the one
before in the scaling only.

## Main definitions

* `MethodDecl.Scalable`: methods in which the frame rate can be scaled.

## Main results

* `Tweak.scaled_of_scalingEdit`: the operation does nothing but scale.
* `Tweak.exists_scalingEdit`: it succeeds where it can.
-/

namespace ClassEdit

/-! ### The fragment -/

/-- An instruction that only goes on is appended if there is enough for it to consume. -/
theorem Assembly.emit_sequential {a : Assembly} {insn : Instruction} {e : StackEffect}
    (hdead : a.dead = false) (hflow : insn.flow = .sequential) (heffect : insn.effect = .ok e)
    (hpops : -(a.available : Int) ≤ a.height - e.pops.toNat) : a.emit insn = (.ok (), { a with
      height := a.height - e.pops.toNat + e.pushes.toNat
      highest := max a.highest (a.height - e.pops.toNat + e.pushes.toNat)
      code := a.code ++ [insn] }) := by
  have htargets : insn.targets = [] := Instruction.targets_eq_nil (by rw [hflow]; rfl)
  have hfollow : a.follow insn e = (.ok (), { a with
      height := a.height - e.pops.toNat + e.pushes.toNat
      highest := max a.highest (a.height - e.pops.toNat + e.pushes.toNat) }) := by
    unfold follow
    rw [if_neg (not_lt.2 hpops), htargets]
    rfl
  unfold emit
  rw [heffect]
  dsimp only
  rw [hdead, if_neg Bool.false_ne_true, hfollow, hflow]
  rfl

theorem Assembler.run_emit_bind {insn : Instruction} {a b : Assembly} {rest : Unit → Assembler Unit}
    (h : a.emit insn = (.ok (), b)) : (emit insn >>= rest).run a = (rest ()).run b := by
  show ExceptT.bindCont rest (a.emit insn).1 (a.emit insn).2 = _
  rw [h]
  rfl

/-- A method in which the frame rate can be scaled: it asks for it, and always gets a result. -/
structure MethodDecl.Scalable (m : MethodDecl) : Prop where
  asks : ∃ call ∈ m.calls, frameRateCalls.acceptsCall call = true
  produced : ∀ call ∈ m.calls, frameRateCalls.acceptsCall call = true →
    ∃ n, call.produced = .ok n ∧ 0 < n

namespace Tweak

variable {w : UInt32}

/-- The fragment that scales the frame rate. -/
def scalingFragment (w : UInt32) : Fragment := ⟨scaling w, 0, 1, some 0⟩

/-- An assembler that is at a height with some code. -/
def scalingState (available : Nat) (height highest : Int) (code : List Instruction) : Assembly :=
  { Assembly.start available with height, highest, code }

/-- With a result in reach, all four instructions are appended. -/
theorem assemble_scaleInteger {available : Nat} (h : 0 < available) :
    (scaleInteger w).assemble available = .ok (scalingFragment w) := by
  -- the first instruction takes the slot below the start, which the call has left
  have hi2f : (Assembly.start available).emit (.simple Opcode.i2f) =
      (.ok (), scalingState available 0 0 [.simple Opcode.i2f]) :=
    Assembly.emit_sequential (e := ⟨1, 1⟩) rfl rfl rfl (by simp [Assembly.start]; omega)
  have hload : (scalingState available 0 0 [.simple Opcode.i2f]).emit (.load (.float w)) =
      (.ok (), scalingState available 1 1 [.simple Opcode.i2f, .load (.float w)]) :=
    Assembly.emit_sequential rfl sequential_load_float.1 sequential_load_float.2
      (by simp [scalingState])
  have hfmul : (scalingState available 1 1 [.simple Opcode.i2f, .load (.float w)]).emit
      (.simple Opcode.fmul) = (.ok (), scalingState available 0 1
        [.simple Opcode.i2f, .load (.float w), .simple Opcode.fmul]) :=
    Assembly.emit_sequential (e := ⟨2, 1⟩) rfl rfl rfl
      (by simp [scalingState, Assembly.start]; omega)
  have hf2i : (scalingState available 0 1
      [.simple Opcode.i2f, .load (.float w), .simple Opcode.fmul]).emit (.simple Opcode.f2i) =
        (.ok (), scalingState available 0 1 (scaling w)) :=
    Assembly.emit_sequential (e := ⟨1, 1⟩) rfl rfl rfl
      (by simp [scalingState, Assembly.start]; omega)
  have hrun : (scaleInteger w).run (Assembly.start available) =
      (.ok (), scalingState available 0 1 (scaling w)) := by
    unfold scaleInteger Assembler.simple Assembler.constant
    rw [Assembler.run_emit_bind hi2f, Assembler.run_emit_bind hload, Assembler.run_emit_bind hfmul]
    exact hf2i
  rw [Assembler.assemble, hrun]
  rfl

/-- Without a result there is nothing to scale. -/
theorem assemble_scaleInteger_eq_ok_iff {available : Nat} {f : Fragment} :
    (scaleInteger w).assemble available = .ok f ↔ 0 < available ∧ f = scalingFragment w := by
  constructor
  · intro h
    cases available with
    | zero => cases h
    | succ n =>
      rw [assemble_scaleInteger n.succ_pos] at h
      exact ⟨n.succ_pos, (Except.ok.inj h).symm⟩
  · rintro ⟨hpos, rfl⟩
    exact assemble_scaleInteger hpos

/-! ### The advice -/

variable {site : Site} {call : MethodRef} {r : Replacement}

/-- The source of the fragment. -/
def scalingSource (w : UInt32) : FragmentSource := .assembled fun _ => scaleInteger w

/-- What is put in the place of a call that asks for the frame rate. -/
def scalingReplacement (w : UInt32) : Replacement := ⟨[], true, [scalingFragment w]⟩

/-- A call can be scaled if it leaves a result, and then in one way. -/
theorem adviceAt_scaling_eq_ok_iff : adviceAt site none (some (scalingSource w)) call = .ok r ↔
    r = scalingReplacement w ∧ ∃ n, call.produced = .ok n ∧ 0 < n := by
  constructor
  · intro h
    obtain ⟨fs, gs, hfs, hgs, -, -, rfl⟩ := adviceAt_eq_ok_iff.1 h
    obtain ⟨n, f, hproduced, hassemble, rfl⟩ := resolveOptional_some_eq_ok_iff.1 hgs
    obtain ⟨hpos, rfl⟩ := assemble_scaleInteger_eq_ok_iff.1 hassemble
    cases hfs
    exact ⟨rfl, n, hproduced, UInt16.lt_iff_toNat_lt.2 hpos⟩
  · rintro ⟨rfl, n, hproduced, hpos⟩
    have heffect : (scalingFragment w).netEffect = .ok (scalingFragment w).delta := rfl
    refine adviceAt_eq_ok_iff.2 ⟨[], [scalingFragment w], rfl, ?_, nofun, ?_, rfl⟩
    · exact resolveOptional_some_eq_ok_iff.2
        ⟨n, _, hproduced, assemble_scaleInteger (UInt16.lt_iff_toNat_lt.1 hpos), rfl⟩
    · exact List.forall_mem_singleton.2 heffect

/-! ### The operation -/

variable {code : List Instruction} {plan : Plan}

theorem relabeled_scalingFragment (offset : UInt32) :
    (scalingFragment w).relabeled offset = scaling w := by
  have hplain : ∀ insn ∈ scaling w, insn.relabeled offset = insn :=
    forall_mem_scaling (fun _ _ => rfl) rfl
  rw [Fragment.relabeled, scalingFragment, List.map_congr_left hplain, List.map_id']

theorem weave_scalingReplacement {next : UInt32} :
    Plan.weave next ((.invoke call, some (scalingReplacement w)) :: plan) =
      .invoke call :: (scaling w ++ Plan.weave (next + (scalingFragment w).labelSpan) plan) := by
  show [] ++ [.invoke call] ++ ((scalingFragment w).relabeled next ++ []) ++ _ = _
  rw [relabeled_scalingFragment, List.append_nil]
  rfl

/-- The plan puts the scaling behind the calls that it accepts. -/
theorem scaled_weave (h : planCalls frameRateCalls
      (adviceAt site none (some (scalingSource w))) code = .ok plan) (next : UInt32) :
    Scaled w code (plan.weave next) := by
  -- along the code; what stands behind a call takes no labels, so `next` plays no part
  induction code generalizing plan next with
  | nil =>
    cases h
    exact .nil
  | cons insn code ih =>
    obtain ⟨choice, rest, rfl, hchosen, hrest⟩ := planCalls_cons_eq_ok_iff.1 h
    cases choice with
    | none => exact .keep insn (ih hrest next)
    | some r =>
      obtain ⟨call, rfl, haccepts, hreplace⟩ := hchosen
      obtain ⟨rfl, n, hproduced, hpos⟩ := adviceAt_scaling_eq_ok_iff.1 hreplace
      rw [weave_scalingReplacement]
      exact .scale haccepts hproduced hpos (ih hrest _)

variable {multiplier : UInt64} {edited : MethodDecl} {done : Applied}

/-- The operation does nothing but scale. -/
theorem scaled_of_scalingEdit (h : (scalingEdit multiplier).apply site = .ok (edited, done)) :
    site.method.Scaled (single multiplier) edited := by
  obtain ⟨plan, hplan, rfl⟩ := Operation.spliceCalls_eq h
  exact ⟨rfl, rfl, rfl, rfl, rfl, rfl, scaled_weave hplan _⟩

/-- The operation succeeds where the frame rate can be scaled. -/
theorem exists_scalingEdit (site : Site) (multiplier : UInt64) (h : site.method.Scalable) :
    ∃ result, (scalingEdit multiplier).apply site = .ok result := by
  obtain ⟨call, hcall, haccepts⟩ := h.asks
  refine Operation.exists_spliceCalls ?_ fun call hcall haccepts => ?_
  · obtain ⟨insn, hinsn, hcall⟩ := List.mem_filterMap.1 hcall
    exact ⟨insn, hinsn, MemberPattern.selects_eq_true_iff.2
      ⟨call, Instruction.call?_eq_some_iff.1 hcall, haccepts⟩⟩
  · obtain ⟨n, hproduced, hpos⟩ := h.produced call (List.mem_filterMap.2 ⟨_, hcall, rfl⟩) haccepts
    exact ⟨_, adviceAt_scaling_eq_ok_iff.2 ⟨rfl, n, hproduced, hpos⟩⟩

end Tweak

end ClassEdit
