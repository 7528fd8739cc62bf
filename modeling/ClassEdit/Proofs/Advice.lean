import ClassEdit.Proofs.Neutral
import ClassEdit.Proofs.Plans
import ClassEdit.Proofs.SplicedHeights

/-!
# Balanced advice

Fragments around calls, or before returns, that keep the height of the operand stack change nothing
for the code around them. If such an edit can be made at all, the block that consists of it can be
committed: the edited body has heights, and the instructions that were there before are reached with
the heights that they had, or not at all.

## Main definitions

* `Operation.plan?`: what an operation puts in the place of instructions.
* `Operation.Balanced`: operations that put balanced fragments around calls or before returns.
* `Operation.HasRoom`: operations whose fragments fit in above the heights around them.

## Main results

* `Operation.Balanced.exists_plan`: such an operation follows a plan with neutral fragments.
* `Block.exists_run`: a block of one operation is committed if the edited body has heights.
* `Operation.balanced_keeps_heights`: the code around balanced fragments keeps its heights.
* `Operation.balanced_keeps_heights_not_of_limits`: without room or numbers there is no such edit.
-/

namespace ClassEdit

/-! ### Advice at a call -/

section AdviceAt

variable {site : Site} {before after : Option FragmentSource} {call : MethodRef} {r : Replacement}

/-- A source gives one fragment, for the slots that are counted. -/
theorem resolveOptional_some_eq_ok_iff {source : FragmentSource} {slots : Except EditError UInt16}
    {fs : List Fragment} : resolveOptional (some source) site slots = .ok fs ↔
      ∃ n f, slots = .ok n ∧ source.resolve site n = .ok f ∧ fs = [f] := by
  simp only [resolveOptional, bind_eq_ok_iff]
  constructor
  · rintro ⟨n, hn, f, hf, ⟨⟩⟩
    exact ⟨n, f, hn, hf, rfl⟩
  · rintro ⟨n, f, hn, hf, rfl⟩
    exact ⟨n, hn, f, hf, rfl⟩

/-- A fragment of an optional source comes from the source. -/
theorem resolveOptional_eq_ok {source : Option FragmentSource} {slots : Except EditError UInt16}
    {fs : List Fragment} (h : resolveOptional source site slots = .ok fs) :
    ∀ f ∈ fs, ∃ s n, source = some s ∧ slots = .ok n ∧ s.resolve site n = .ok f := by
  cases source with
  | none =>
    cases h
    exact nofun
  | some s =>
    obtain ⟨n, f, hn, hf, rfl⟩ := resolveOptional_some_eq_ok_iff.1 h
    intro f' hf'
    obtain rfl := List.mem_singleton.1 hf'
    exact ⟨s, n, rfl, hn, hf⟩

/-- A substitute is one fragment, for the slots that the call consumes. -/
theorem substituteAt_some_eq_ok_iff {source : FragmentSource} :
    substituteAt site (some source) call = .ok r ↔
      ∃ n f, call.consumed = .ok n ∧ source.resolve site n = .ok f ∧ r = ⟨[f], false, []⟩ := by
  simp only [substituteAt, bind_eq_ok_iff]
  constructor
  · rintro ⟨n, hn, f, hf, ⟨⟩⟩
    exact ⟨n, f, hn, hf, rfl⟩
  · rintro ⟨n, f, hn, hf, rfl⟩
    exact ⟨n, hn, f, hf, rfl⟩

/-- Without a substitute the arguments of the call are discarded. -/
theorem substituteAt_none_eq_ok_iff : substituteAt site none call = .ok r ↔
    ∃ pops, discardArguments call = .ok pops ∧ r = ⟨[.ofCode pops], false, []⟩ := by
  simp only [substituteAt, bind_eq_ok_iff]
  constructor
  · rintro ⟨pops, hpops, ⟨⟩⟩
    exact ⟨pops, hpops, rfl⟩
  · rintro ⟨pops, hpops, rfl⟩
    exact ⟨pops, hpops, rfl⟩

theorem forM_eq_ok_iff {α : Type} {as : List α} {g : α → Except EditError Unit} :
    as.forM g = .ok () ↔ ∀ a ∈ as, g a = .ok () := by
  induction as with
  | nil => exact ⟨fun _ => nofun, fun _ => rfl⟩
  | cons a as ih =>
    have hbind : (a :: as).forM g = (g a >>= fun _ => as.forM g) := rfl
    rw [hbind, bind_eq_ok_iff, List.forall_mem_cons, ← ih]
    exact ⟨fun ⟨_, ha, has⟩ => ⟨ha, has⟩, fun ⟨ha, has⟩ => ⟨(), ha, has⟩⟩

theorem checkAll_eq_ok_iff {signature : String} {fs : List Fragment} {place : SpliceSite} :
    (fs.forM fun f => checkEffect signature f place) = .ok () ↔
      ∀ f ∈ fs, f.netEffect = .ok f.delta := by
  simp only [forM_eq_ok_iff, checkEffect_eq_ok_iff]

/-- There is advice at a call if both sources give a fragment, and these have the effects that they
declare. The call stays. -/
theorem adviceAt_eq_ok_iff : adviceAt site before after call = .ok r ↔
    ∃ fs gs, resolveOptional before site call.consumed = .ok fs ∧
      resolveOptional after site call.produced = .ok gs ∧
        (∀ f ∈ fs, f.netEffect = .ok f.delta) ∧ (∀ g ∈ gs, g.netEffect = .ok g.delta) ∧
          r = ⟨fs, true, gs⟩ := by
  simp only [adviceAt, bind_eq_ok_iff]
  constructor
  · rintro ⟨fs, hfs, gs, hgs, ⟨⟩, hcheck, ⟨⟩, hcheck', h⟩
    cases h
    exact ⟨fs, gs, hfs, hgs, checkAll_eq_ok_iff.1 hcheck, checkAll_eq_ok_iff.1 hcheck', rfl⟩
  · rintro ⟨fs, gs, hfs, hgs, heffect, heffect', rfl⟩
    exact ⟨fs, hfs, gs, hgs, (), checkAll_eq_ok_iff.2 heffect, (), checkAll_eq_ok_iff.2 heffect',
      rfl⟩

/-- Advice keeps the call, and its fragments have the effects that they declare. -/
theorem adviceAt_eq_ok (h : adviceAt site before after call = .ok r) :
    r.keeps = true ∧
      (∀ f ∈ r.before, ∃ s n, before = some s ∧ call.consumed = .ok n ∧
        s.resolve site n = .ok f ∧ f.netEffect = .ok f.delta) ∧
        ∀ f ∈ r.after, ∃ s n, after = some s ∧ call.produced = .ok n ∧
          s.resolve site n = .ok f ∧ f.netEffect = .ok f.delta := by
  obtain ⟨fs, gs, hfs, hgs, heffect, heffect', rfl⟩ := adviceAt_eq_ok_iff.1 h
  refine ⟨rfl, ?_, ?_⟩
  · intro f hf
    obtain ⟨s, n, hs, hn, hresolve⟩ := resolveOptional_eq_ok hfs f hf
    exact ⟨s, n, hs, hn, hresolve, heffect f hf⟩
  · intro f hf
    obtain ⟨s, n, hs, hn, hresolve⟩ := resolveOptional_eq_ok hgs f hf
    exact ⟨s, n, hs, hn, hresolve, heffect' f hf⟩

/-- A call pops what it consumes and pushes what it produces. -/
theorem Instruction.effect_invoke {e : StackEffect} (h : (Instruction.invoke call).effect = .ok e) :
    call.consumed = .ok e.pops ∧ call.produced = .ok e.pushes := by
  unfold effect at h
  dsimp only at h
  split at h
  · obtain ⟨pops, hpops, hbind⟩ := bind_eq_ok_iff.1 h
    obtain ⟨pushes, hpushes, heffect⟩ := bind_eq_ok_iff.1 hbind
    cases heffect
    exact ⟨hpops, hpushes⟩
  · cases h

end AdviceAt

/-! ### Balanced operations -/

namespace Operation

variable {op : Operation} {site : Site} {edited : MethodDecl} {done : Applied}

/-- What the operation puts in the place of instructions, if it is one that puts in fragments. -/
def plan? (op : Operation) (site : Site) : Option Plan :=
  match op with
  | .callAdvice calls before after =>
    (planCalls calls (adviceAt site before after) site.method.code).toOption
  | .replaceCall calls replacement =>
    (planCalls calls (substituteAt site replacement) site.method.code).toOption
  | .methodExit source =>
    (source.resolve site 0).toOption.map fun f => planReturns f site.method.code
  | _ => none

/-- Advice whose fragments are balanced at every call that passes the pattern, with the arguments of
the call available before it and its result after it, or a fragment before the returns that is
balanced with nothing available. -/
def Balanced (op : Operation) (site : Site) : Prop :=
  match op with
  | .callAdvice calls before after =>
    ∀ call ∈ site.method.calls, calls.acceptsCall call = true →
      (∀ source n, before = some source → call.consumed = .ok n → source.Balanced site n) ∧
        ∀ source n, after = some source → call.produced = .ok n → source.Balanced site n
  | .methodExit source => source.Balanced site 0
  | _ => False

/-- What is put in fits in above the heights of the method under edit: before a call above the
height with which the call is reached, behind it above the height that it leaves, and before a
return above the height with which that is reached. -/
def HasRoom (op : Operation) (site : Site) (r : Heights) : Prop :=
  match op with
  | .callAdvice calls before after =>
    ∀ (i : Nat) call k e, site.method.code[i]? = some (.invoke call) →
      calls.acceptsCall call = true → r.at? i = some k → (Instruction.invoke call).effect = .ok e →
        (∀ source, before = some source → source.HasRoom site e.pops k.toNat) ∧
          ∀ source, after = some source →
            k.toNat + e.net ≤ 65535 ∧ source.HasRoom site e.pushes (k.toNat + e.net)
  | .methodExit source =>
    ∀ (i : Nat) insn k, site.method.code[i]? = some insn → insn.isReturn = true →
      r.at? i = some k → source.HasRoom site 0 k.toNat
  | _ => False

/-- A balanced operation that can be applied follows a plan whose fragments are neutral where there
is room for them. -/
theorem Balanced.exists_plan {r : Heights} (h : op.Balanced site) (hroom : op.HasRoom site r)
    (happly : op.apply site = .ok (edited, done)) :
    ∃ plan, op.plan? site = some plan ∧ plan.map Prod.fst = site.method.code ∧
      plan.Neutral site.method.result (site.method.notes r) ∧
        edited = { site.method with code := plan.weave (freshLabel site.method.code) } := by
  cases op with
  | callAdvice calls before after =>
    obtain ⟨plan, hplan, hedited⟩ := spliceCalls_eq happly
    obtain ⟨hfst, hmem⟩ := planCalls_eq_ok hplan
    refine ⟨plan, by rw [plan?, hplan]; rfl, hfst, fun i insn repl note hentry hnote => ?_, hedited⟩
    obtain ⟨call, rfl, hinsn, haccepts, hadvice⟩ := hmem insn repl (List.mem_of_getElem? hentry)
    obtain ⟨hkeeps, hbefore, hafter⟩ := adviceAt_eq_ok hadvice
    have hcall : call ∈ site.method.calls := List.mem_filterMap.2 ⟨_, hinsn, rfl⟩
    obtain ⟨hbalanced, hbalanced'⟩ := h call hcall haccepts
    have hfits : ∀ e k, (Instruction.invoke call).effect = .ok e → note = some k →
        0 ≤ k ∧ k ≤ 65535 ∧ (∀ source, before = some source → source.HasRoom site e.pops k) ∧
          ∀ source, after = some source → k + e.net ≤ 65535 ∧
            source.HasRoom site e.pushes (k + e.net) := by
      rintro e _ heffect rfl
      obtain ⟨hplace, k, hk, rfl⟩ := MethodDecl.getElem?_notes_eq_some_iff.1 hnote
      have hlt := k.toNat_lt
      exact ⟨by omega, by omega, hroom i call k e hplace haccepts hk heffect⟩
    refine ⟨hkeeps, fun e k heffect hk f hf => ?_, fun e k heffect hk f hf => ?_⟩
    · obtain ⟨source, n, hsource, hn, hresolve, hnet⟩ := hbefore f hf
      -- the source was asked for as many slots as the effect of the call pops
      obtain rfl : n = e.pops := Except.ok.inj (hn.symm.trans (Instruction.effect_invoke heffect).1)
      obtain ⟨hlow, hheight, hfits, -⟩ := hfits e k heffect hk
      exact (hbalanced source _ hsource hn).neutral hresolve hnet (by omega) hheight
        (hfits source hsource)
    · obtain ⟨source, n, hsource, hn, hresolve, hnet⟩ := hafter f hf
      obtain rfl : n = e.pushes :=
        Except.ok.inj (hn.symm.trans (Instruction.effect_invoke heffect).2)
      obtain ⟨hlow, -, -, hfits⟩ := hfits e k heffect hk
      obtain ⟨hheight, hfits⟩ := hfits source hsource
      have hpops := e.pops.toNat_lt
      have hnet' : -65535 ≤ k + e.net := by
        unfold StackEffect.net
        omega
      exact (hbalanced' source _ hsource hn).neutral hresolve hnet hnet' hheight hfits
  | methodExit source =>
    obtain ⟨f, hresolve, hcheck, hedited⟩ := spliceReturns_eq happly
    refine ⟨planReturns f site.method.code, by rw [plan?, hresolve]; rfl, map_fst_planReturns,
      fun i insn repl note hentry hnote => ?_, hedited⟩
    rw [planReturns, List.getElem?_map] at hentry
    obtain ⟨insn', hplace, hentry⟩ := Option.map_eq_some_iff.1 hentry
    split at hentry
    · rename_i hreturn
      cases hentry
      refine ⟨rfl, fun e k _ hk f' hf' => ?_, fun _ _ _ _ => List.forall_mem_nil _⟩
      obtain rfl := List.mem_singleton.1 hf'
      subst hk
      obtain ⟨-, k, hk, rfl⟩ := MethodDecl.getElem?_notes_eq_some_iff.1 hnote
      have hlt := k.toNat_lt
      obtain ⟨room, hneutral, hfits⟩ := FragmentSource.Balanced.neutral h hresolve
        (checkEffect_eq_ok_iff.1 hcheck) (by omega) (by omega) (hroom i insn k hplace hreturn hk)
      -- at a return nothing is at hand, so the fragment fits below any effect
      exact ⟨room, hneutral.mono (Nat.zero_le _), hfits⟩
    · cases hentry
  | _ => exact h.elim

end Operation

/-! ### Committing one operation -/

namespace Block

variable {owner : ClassDecl} {m edited : MethodDecl} {registration : String} {r : Heights}

/-- A block of one operation that can be applied is committed, if the edited body has heights. -/
theorem exists_run {op : Operation} {done : Applied}
    (happly : op.apply ⟨owner, m, registration⟩ = .ok (edited, done))
    (hr : edited.heights = .ok r) :
    ∃ final outcome, (ofOperations [op]).run owner m registration = .ok (final, outcome) ∧
      final.code = edited.code ∧ final.heights = .ok r := by
  have hall : applyAll owner registration [op] m = .ok (edited, [done]) :=
    bind_eq_ok_iff.2 ⟨_, happly, rfl⟩
  obtain ⟨final, outcome, hrun, -, hcode, hheights⟩ :=
    exists_run_of_applyAll (b := ofOperations [op]) hall fun _ => ⟨r, hr⟩
  exact ⟨final, outcome, hrun, hcode, hheights.trans hr⟩

end Block

/-- The two places in a list of two instructions. -/
theorem pair_eq_append_cons {first second insn : Instruction} {before after : List Instruction}
    (h : [first, second] = before ++ insn :: after) :
    before = [] ∧ insn = first ∨ before = [first] ∧ insn = second := by
  rcases before with _ | ⟨head, _ | ⟨head', before⟩⟩
  · cases h
    exact .inl ⟨rfl, rfl⟩
  · cases h
    exact .inr ⟨rfl, rfl⟩
  · simp at h

section Pairs

variable {first second : Instruction} {e e' : StackEffect}

theorem netEffect_singleton {k : Int} (hfirst : first.effect = .ok e)
    (h : netEffect [first] = .ok k) : e.net = k := by
  obtain ⟨_, _, heffect, hnil, rfl⟩ := netEffect_cons_eq_ok_iff.1 h
  cases hnil
  obtain rfl := Except.ok.inj (hfirst.symm.trans heffect)
  rw [Int.add_zero]

theorem Fragment.straight_pair {available : Nat} (hfirst : first.effect = .ok e)
    (hsecond : second.effect = .ok e') (htargets : first.targets = [])
    (htargets' : second.targets = []) (hpops : e.pops.toNat ≤ available)
    (hpops' : (e'.pops.toNat : Int) ≤ available + e.net) :
    (Fragment.ofCode [first, second]).Straight available := by
  refine ⟨?_, fun before insn after k effect hcode hbefore heffect => ?_, nofun⟩
  · rintro insn hinsn
    obtain rfl | rfl : insn = first ∨ insn = second := by simpa [Fragment.ofCode] using hinsn
    · exact htargets
    · exact htargets'
  · rcases pair_eq_append_cons hcode with ⟨rfl, rfl⟩ | ⟨rfl, rfl⟩
    · obtain rfl : 0 = k := Except.ok.inj hbefore
      obtain rfl := Except.ok.inj (hfirst.symm.trans heffect)
      omega
    · obtain rfl := netEffect_singleton hfirst hbefore
      obtain rfl := Except.ok.inj (hsecond.symm.trans heffect)
      omega

theorem FragmentSource.hasRoom_pair {site : Site} {slots : UInt16} {height : Int}
    (hfirst : first.effect = .ok e) (hheight : height ≤ 65535)
    (hbetween : height + e.net ≤ 65535) :
    (FragmentSource.ofCode [first, second]).HasRoom site slots height := by
  intro before insn after k hcode hbefore
  rcases pair_eq_append_cons hcode with ⟨rfl, rfl⟩ | ⟨rfl, rfl⟩
  · obtain rfl : 0 = k := Except.ok.inj hbefore
    omega
  · obtain rfl := netEffect_singleton hfirst hbefore
    omega

end Pairs

/-- Fragments that keep the height, put around calls or before returns, change nothing for the code
around them, as long as there is room and there are numbers for them: if the edit can be made, its
block is committed, the edited body has heights, and what is left of the old code is reached with
the old heights. -/
theorem Operation.balanced_keeps_heights {op : Operation} {owner : ClassDecl}
    {m edited : MethodDecl} {registration : String} {done : Applied} {r : Heights}
    (hr : m.heights = .ok r) (hbalanced : op.Balanced ⟨owner, m, registration⟩)
    (hroom : op.HasRoom ⟨owner, m, registration⟩ r)
    (hnumbers : ∀ plan, op.plan? ⟨owner, m, registration⟩ = some plan → plan.NumbersFit m.code)
    (happly : op.apply ⟨owner, m, registration⟩ = .ok (edited, done)) :
    ∃ final outcome r' plan,
      (Block.ofOperations [op]).run owner m registration = .ok (final, outcome) ∧
        final.heights = .ok r' ∧ op.plan? ⟨owner, m, registration⟩ = some plan ∧
          final.code = plan.weave (freshLabel m.code) ∧
            ∀ i insn, m.code[i]? = some insn → final.code[plan.position i]? = some insn ∧
              ∀ k, r'.at? (plan.position i) = some k → r.at? i = some k := by
  obtain ⟨plan, hplan, hfst, hneutral, hedited⟩ := hbalanced.exists_plan hroom happly
  have hcode : edited.code = plan.weave (freshLabel m.code) := by rw [hedited]
  obtain ⟨r', hr', hkept⟩ := m.exists_heights_weave hr hfst (hnumbers plan hplan) hneutral
    (by rw [hedited]) (by rw [hedited]) hcode
  obtain ⟨final, outcome, hrun, hfinal, hheights⟩ := Block.exists_run happly hr'
  refine ⟨final, outcome, r', plan, hrun, hheights, hplan, hfinal.trans hcode, ?_⟩
  intro i insn hinsn
  rw [hfinal]
  exact hkept i insn hinsn

/-- A loop around a call. What comes before the call branches and gives it another argument on both
paths, and what comes after it gives back another result. -/
theorem Operation.balanced_keeps_heights_of_loop :
    let m : MethodDecl := ⟨"f", "()V", ⟨8⟩, [], .void, [.label ⟨0⟩, .simple Opcode.iconst0,
      .invokeStatic "a" "g" "(I)I", .jump Opcode.ifeq ⟨0⟩, .simple Opcode.vreturn], [], 1, 0⟩
    let edited : MethodDecl := { m with code := [.label ⟨0⟩, .simple Opcode.iconst0,
      .jump Opcode.ifeq ⟨1⟩, .simple Opcode.iconst0, .jump Opcode.goto ⟨2⟩, .label ⟨1⟩,
      .simple Opcode.iconst5, .label ⟨2⟩, .invokeStatic "a" "g" "(I)I", .simple Opcode.pop,
      .simple Opcode.iconst0, .jump Opcode.ifeq ⟨0⟩, .simple Opcode.vreturn] }
    let owner : ClassDecl := ⟨"a", none, [], .none, [], [m], []⟩
    let argument : Assembler Unit := do
      let otherwise ← Assembler.newLabel
      let last ← Assembler.newLabel
      Assembler.jump Opcode.ifeq otherwise
      Assembler.simple Opcode.iconst0
      Assembler.jump Opcode.goto last
      Assembler.mark otherwise
      Assembler.simple Opcode.iconst5
      Assembler.mark last
    let result : FragmentSource := .ofCode [.simple Opcode.pop, .simple Opcode.iconst0]
    let op : Operation := .callAdvice .empty (some (.assembled fun _ => argument)) (some result)
    let r : Heights := ⟨1, [some 0, some 0, some 1, some 1, some 0]⟩
    m.heights = .ok r ∧ op.Balanced ⟨owner, m, "b"⟩ ∧ op.HasRoom ⟨owner, m, "b"⟩ r ∧
      (∀ plan, op.plan? ⟨owner, m, "b"⟩ = some plan → plan.NumbersFit m.code) ∧
      op.apply ⟨owner, m, "b"⟩ = .ok (edited, ⟨.adviceInserted, 1, "around a.g(I)I"⟩) ∧
        ∃ final outcome r' plan,
          (Block.ofOperations [op]).run owner m "b" = .ok (final, outcome) ∧
            final.heights = .ok r' ∧ op.plan? ⟨owner, m, "b"⟩ = some plan ∧
              final.code = plan.weave (freshLabel m.code) ∧
                ∀ i insn, m.code[i]? = some insn → final.code[plan.position i]? = some insn ∧
                  ∀ k, r'.at? (plan.position i) = some k → r.at? i = some k := by
  intro m edited owner argument result op r
  have hr : m.heights = .ok r := m.heights_of_runWithin 7 rfl (by decide +kernel)
  have hsuits : ∀ insn : Instruction, insn.flow ≠ .subroutine ∧ insn.flow ≠ .exit →
      insn.Suits .void := fun _ h => ⟨h.1, fun hexit => absurd hexit h.2⟩
  have hargument : FragmentSource.Balanced ⟨owner, m, "b"⟩ 1 (.assembled fun _ => argument) := by
    intro a hrun
    obtain rfl := (Prod.ext_iff.1 hrun).2
    have hrun := (Assembly.Careful.start : Assembly.Careful 1 _).newLabel.newLabel
    have hrun := hrun.emit (.jump Opcode.ifeq ⟨0⟩) rfl rfl rfl
    have hrun := hrun.emit (.simple Opcode.iconst0) rfl rfl rfl
    have hrun := hrun.emit (.jump Opcode.goto ⟨1⟩) rfl rfl rfl
    have hrun := hrun.mark ⟨0⟩ (by decide) rfl
    have hrun := hrun.emit (.simple Opcode.iconst5) rfl rfl rfl
    have hrun := hrun.mark ⟨1⟩ (by decide) rfl
    refine ⟨hrun, rfl, fun insn hinsn => hsuits insn ?_⟩
    revert insn
    decide
  have hresult : FragmentSource.Balanced ⟨owner, m, "b"⟩ 1 result := by
    refine ⟨rfl, Fragment.straight_pair rfl rfl rfl rfl (by decide) (by decide),
      fun insn hinsn => hsuits insn ?_⟩
    revert insn
    decide
  have hconsumed : (MethodRef.of Opcode.invokestatic "a" "g" "(I)I").consumed = .ok 1 := by
    decide +kernel
  have hproduced : (MethodRef.of Opcode.invokestatic "a" "g" "(I)I").produced = .ok 1 := by
    decide +kernel
  have hbalanced : op.Balanced ⟨owner, m, "b"⟩ := by
    intro call hcall _
    obtain rfl := List.mem_singleton.1 hcall
    constructor
    · rintro source n ⟨⟩ hn
      obtain rfl := Except.ok.inj (hconsumed.symm.trans hn)
      exact hargument
    · rintro source n ⟨⟩ hn
      obtain rfl := Except.ok.inj (hproduced.symm.trans hn)
      exact hresult
  have hroom : op.HasRoom ⟨owner, m, "b"⟩ r := by
    intro i call k e hinsn _ hk heffect
    obtain rfl : i = 2 := by
      rcases i with _ | _ | _ | _ | _ | i
      · cases hinsn
      · cases hinsn
      · rfl
      · cases hinsn
      · cases hinsn
      · cases hinsn
    cases hinsn
    cases hk
    obtain ⟨hpops, hpushes⟩ := Instruction.effect_invoke heffect
    obtain rfl : e = ⟨1, 1⟩ := by
      rw [StackEffect.mk.injEq]
      exact ⟨Except.ok.inj (hpops.symm.trans hconsumed),
        Except.ok.inj (hpushes.symm.trans hproduced)⟩
    constructor
    · rintro source ⟨⟩ a hrun
      obtain rfl := (Prod.ext_iff.1 hrun).2
      decide
    · rintro source ⟨⟩
      exact ⟨by decide, FragmentSource.hasRoom_pair rfl (by decide) (by decide)⟩
  have happly : op.apply ⟨owner, m, "b"⟩ =
      .ok (edited, ⟨.adviceInserted, 1, "around a.g(I)I"⟩) := by decide +kernel
  have hnumbers : ∀ plan, op.plan? ⟨owner, m, "b"⟩ = some plan → plan.NumbersFit m.code := by
    have hfits : (op.plan? ⟨owner, m, "b"⟩).all (fun plan => plan.NumbersFit m.code) = true := by
      decide +kernel
    intro plan hplan
    rw [hplan] at hfits
    exact of_decide_eq_true hfits
  exact ⟨hr, hbalanced, hroom, hnumbers, happly,
    balanced_keeps_heights hr hbalanced hroom hnumbers happly⟩

/-! ### Where the room ends -/

section Loads

variable {m : MethodDecl} {rest : List Instruction} {n : Nat}

/-- Loads of long zeros, two slots each, and more code behind them. -/
def zerosThen (n : Nat) (rest : List Instruction) : List Instruction :=
  List.replicate n (.simple Opcode.lconst0) ++ rest

theorem getElem?_zerosThen {i : Nat} :
    (zerosThen n rest)[i]? =
      if i < n then some (.simple Opcode.lconst0) else rest[i - n]? := by
  split
  · rename_i hi
    rw [zerosThen, List.getElem?_append_left (by simpa using hi), List.getElem?_replicate,
      if_pos hi]
  · rename_i hi
    rw [zerosThen, List.getElem?_append_right (by simpa using hi), List.length_replicate]

theorem length_zerosThen : (zerosThen n rest).length = n + rest.length := by
  simp [zerosThen]

/-- Every zero takes two slots. -/
theorem MethodDecl.reachesWrapped_zerosThen (hcode : m.code = zerosThen n rest) (hrest : rest ≠ [])
    (hn : n < 32768) {i : Nat} (hi : i ≤ n) : m.ReachesWrapped ⟨i, 2 * i⟩ := by
  induction i with
  | zero => exact (Entry.start (by simp [hcode, zerosThen, hrest])).reachesWrapped
  | succ i ih =>
    have hinsn : m.code[i]? = some (.simple Opcode.lconst0) := by
      rw [hcode, getElem?_zerosThen, if_pos (by omega)]
    have hnext := (ih (by omega)).step (.next hinsn (e := ⟨0, 2⟩) rfl rfl)
    have hheight : wrapped (2 * i + 2) = 2 * ((i + 1 : Nat) : Int) := by
      rw [wrapped_of_le (by omega) (by omega)]
      omega
    rw [← hheight]
    exact hnext

/-- The notes for loads of long zeros at a height. -/
def zeroNotes (k : Int) : Nat → AnnotatedCode
  | 0 => []
  | n + 1 => (.simple Opcode.lconst0, some k) :: zeroNotes (k + 2) n

theorem code_zeroNotes (k : Int) (A : AnnotatedCode) :
    (zeroNotes k n ++ A).code = zerosThen n A.code := by
  induction n generalizing k with
  | zero => rfl
  | succ n ih => exact congrArg (Instruction.simple Opcode.lconst0 :: ·) (ih (k + 2))

/-- Notes for what stands behind zeros, as many as there is room for, give notes for the whole. -/
theorem Linked.zerosThen {result : TypeDescriptor} {known : Label → Option Int} {A : AnnotatedCode}
    {leaving : Option Int} {k : Int} (hk : 0 ≤ k) (hroom : k + 2 * n ≤ 65535)
    (hA : Linked wrapped (Permitted result 0) known (some (k + 2 * n)) A leaving) :
    Linked wrapped (Permitted result 0) known (some k) (zeroNotes k n ++ A) leaving := by
  induction n generalizing k with
  | zero => simpa [zeroNotes] using hA
  | succ n ih =>
    have hnext : wrapped (k + (⟨0, 2⟩ : StackEffect).net) = k + 2 := by
      have hnet : (⟨0, 2⟩ : StackEffect).net = 2 := rfl
      rw [hnet, wrapped_of_le (by omega) (by omega)]
    have hheight : k + 2 * (n + 1 : Nat) = k + 2 + 2 * n := by omega
    rw [hheight] at hA hroom
    exact .of_sequential rfl rfl ⟨by simpa using hk, nofun, nofun⟩ hnext (ih (by omega) hroom hA)

/-- A method that begins with zeros has heights if there are notes for what stands behind them. -/
theorem MethodDecl.exists_heights_zerosThen {A : AnnotatedCode}
    (hcode : m.code = zerosThen n A.code)
    (hhandlers : m.handlers = []) (hn : n < 32768)
    (hA : ∀ known, Linked wrapped (Permitted m.result 0) known (some (2 * n)) A none) :
    ∃ r, m.heights = .ok r := by
  have hnone : ∀ b ∈ m.handlers, (zeroNotes 0 n ++ A).noteAt? b.handler = some (some 1) := by
    rw [hhandlers]
    exact nofun
  have hlinked : Linked wrapped (Permitted m.result 0) (zeroNotes 0 n ++ A).labelHeight? (some 0)
      (zeroNotes 0 n ++ A) none :=
    .zerosThen le_rfl (by omega) (by simpa using hA _)
  have hnotes : m.Notes (some 0) (zeroNotes 0 n ++ A) :=
    .of_linked ((code_zeroNotes 0 A).trans hcode.symm) hlinked (fun _ => rfl) hnone
  exact hnotes.exists_heights fun b hb => by simp [hnone b hb]

/-- Two loads more, and the stack seems to be empty. -/
theorem MethodDecl.not_exists_heights_zerosThen (hn : n = 32767)
    (hcode : m.code = zerosThen n [.simple Opcode.iconst0, .simple Opcode.iconst0,
      .simple Opcode.pop, .simple Opcode.vreturn]) : ¬∃ r, m.heights = .ok r := by
  rw [exists_heights_iff]
  intro hconsistent
  have hinsn : ∀ i, m.code[n + i]? = [Instruction.simple Opcode.iconst0, .simple Opcode.iconst0,
      .simple Opcode.pop, .simple Opcode.vreturn][i]? := by
    intro i
    rw [hcode, getElem?_zerosThen, if_neg (by omega), Nat.add_sub_cancel_left]
  have hfirst := reachesWrapped_zerosThen hcode (by simp) (by omega) le_rfl
  have hsecond := hfirst.step (.next (hinsn 0) (e := ⟨0, 1⟩) rfl rfl)
  have hthird := hsecond.step (.next (hinsn 1) (e := ⟨0, 1⟩) rfl rfl)
  obtain ⟨e, heffect, hpops⟩ := hconsistent.pops_le _ _ hthird (hinsn 2)
  cases heffect
  subst hn
  exact absurd hpops (by decide)

/-- Nothing is put in among the zeros. -/
theorem weave_planReturns_zerosThen {f : Fragment} {next : UInt32} :
    (planReturns f (zerosThen n rest)).weave next =
      zerosThen n ((planReturns f rest).weave next) := by
  induction n with
  | zero => rfl
  | succ n ih =>
    have hcons : ∀ rest, zerosThen (n + 1) rest = .simple Opcode.lconst0 :: zerosThen n rest :=
      fun _ => rfl
    rw [hcons, hcons, ← ih]
    rfl

end Loads

namespace Operation

/-- Advice that keeps the height and can be put into a body with heights, but is not committed. -/
def BalancedInVain (op : Operation) (owner : ClassDecl) (m : MethodDecl) : Prop :=
  (∃ r, m.heights = .ok r) ∧ op.Balanced ⟨owner, m, "b"⟩ ∧
    (∃ result, op.apply ⟨owner, m, "b"⟩ = .ok result) ∧
      ¬∃ result, (Block.ofOperations [op]).run owner m "b" = .ok result

theorem balancedInVain_zerosThen (owner : ClassDecl) {n : Nat} (hn : n = 32767) :
    (methodExit (.ofCode [.simple Opcode.iconst0, .simple Opcode.pop])).BalancedInVain owner
      ⟨"f", "()V", ⟨8⟩, [], .void,
        zerosThen n [.simple Opcode.iconst0, .simple Opcode.vreturn], [], 65535, 0⟩ := by
  let f : Fragment := .ofCode [.simple Opcode.iconst0, .simple Opcode.pop]
  let m : MethodDecl := ⟨"f", "()V", ⟨8⟩, [], .void,
        zerosThen n [.simple Opcode.iconst0, .simple Opcode.vreturn], [], 65535, 0⟩
  let edited : MethodDecl := { m with code := (planReturns f m.code).weave (freshLabel m.code) }
  have hheights : ∃ r, m.heights = .ok r := by
    -- behind the zeros there is room for the last load
    have hone : (2 * n : Int) + (⟨0, 1⟩ : StackEffect).net = 2 * n + 1 := rfl
    refine MethodDecl.exists_heights_zerosThen (A := [(.simple Opcode.iconst0, some (2 * n)),
      (.simple Opcode.vreturn, some (2 * n + 1))]) rfl rfl (by omega) fun known => ?_
    refine .of_sequential rfl rfl ⟨by change (0 : Int) ≤ (0 : Nat) + 2 * n; omega, nofun, nofun⟩
      (by rw [hone, wrapped_of_le (by omega) (by omega)]) ?_
    exact .reached (fun _ hk => (Option.some.inj hk).symm) rfl
      ⟨by change (0 : Int) ≤ (0 : Nat) + (2 * n + 1); omega, nofun, fun _ => rfl⟩ nofun (.nil nofun)
  have hreturn : Instruction.simple Opcode.vreturn ∈ m.code := by simp [m, zerosThen]
  obtain ⟨done, happly⟩ : ∃ done, (methodExit (.fixed f)).apply ⟨owner, m, "b"⟩ =
      .ok (edited, done) :=
    ⟨_, spliceReturns_eq_ok_iff.2 ⟨List.any_eq_true.2 ⟨_, hreturn, rfl⟩, f, rfl,
      checkEffect_eq_ok_iff.2 rfl, rfl, rfl⟩⟩
  have hsuits : ∀ insn ∈ f.code, insn.Suits m.result := by
    intro insn hinsn
    obtain rfl | rfl : insn = .simple Opcode.iconst0 ∨ insn = .simple Opcode.pop := by
      simpa [f, Fragment.ofCode] using hinsn
    · exact ⟨by decide, nofun⟩
    · exact ⟨by decide, nofun⟩
  refine ⟨hheights, ⟨rfl, Fragment.straight_pair rfl rfl rfl rfl (by decide) (by decide), hsuits⟩,
    ⟨_, happly⟩, ?_⟩
  rintro ⟨⟨final, outcome⟩, hrun⟩
  obtain ⟨edited', hall, hcode, hhandlers, hkept⟩ := Block.run_applyAll hrun
  obtain ⟨⟨m', applied⟩, hop, hrest⟩ := bind_eq_ok_iff.1 hall
  obtain rfl : edited = m' := (Prod.ext_iff.1 (Except.ok.inj (happly.symm.trans hop))).1
  obtain rfl : edited = edited' := (Prod.ext_iff.1 (Except.ok.inj hrest)).1
  have hlost : ¬∃ r, final.heights = .ok r :=
    MethodDecl.not_exists_heights_zerosThen hn (hcode.trans weave_planReturns_zerosThen)
  exact hlost (hkept hheights)

/-- There may be no room for a fragment that keeps the height, or no number for its labels. With two
slots more than the 65535 that there are, the stack seems to be empty, and with two labels above the
last but one number, the second one is taken for the label of the loop. -/
theorem balanced_keeps_heights_not_of_limits :
    let owner : ClassDecl := ⟨"a", none, [], .none, [], [], []⟩
    let full : MethodDecl := ⟨"f", "()V", ⟨8⟩, [], .void,
      zerosThen 32767 [.simple Opcode.iconst0, .simple Opcode.vreturn], [], 65535, 0⟩
    let numbered : MethodDecl := ⟨"f", "()V", ⟨8⟩, [], .void, [.label ⟨0⟩, .simple Opcode.iconst0,
      .jump Opcode.ifeq ⟨0⟩, .label ⟨4294967294⟩, .simple Opcode.vreturn], [], 1, 0⟩
    let branching : Assembler Unit := do
      let first ← Assembler.newLabel
      let last ← Assembler.newLabel
      Assembler.mark first
      Assembler.simple Opcode.iconst0
      Assembler.simple Opcode.iconst0
      Assembler.jump Opcode.ifeq last
      Assembler.mark last
      Assembler.simple Opcode.pop
    (methodExit (.ofCode [.simple Opcode.iconst0, .simple Opcode.pop])).BalancedInVain owner full ∧
      (methodExit (.assembled fun _ => branching)).BalancedInVain owner numbered := by
  intro owner full numbered branching
  let edited : MethodDecl := { numbered with
    code := [.label ⟨0⟩, .simple Opcode.iconst0, .jump Opcode.ifeq ⟨0⟩, .label ⟨4294967294⟩,
      .label ⟨4294967295⟩, .simple Opcode.iconst0, .simple Opcode.iconst0, .jump Opcode.ifeq ⟨0⟩,
      .label ⟨0⟩, .simple Opcode.pop, .simple Opcode.vreturn] }
  have hr : numbered.heights = .ok ⟨1, [some 0, some 0, some 1, some 0, some 0]⟩ :=
    numbered.heights_of_runWithin 7 rfl (by decide +kernel)
  -- the branch of the body leads into the copy now, where it does not find what the copy has pushed
  have he : edited.heights = .error (.imbalance "f()V" (.meeting 1 0 8 (.label ⟨0⟩))) :=
    edited.heights_of_runWithin 20 rfl (by decide +kernel)
  have happly : (methodExit (.assembled fun _ => branching)).apply ⟨owner, numbered, "b"⟩ =
      .ok (edited, ⟨.exitInjected, 1, "6 instructions per exit"⟩) := by decide +kernel
  refine ⟨balancedInVain_zerosThen owner rfl, ⟨_, hr⟩, ?_, ⟨_, happly⟩, ?_⟩
  · intro a hrun
    obtain rfl := (Prod.ext_iff.1 hrun).2
    have hrun := (Assembly.Careful.start : Assembly.Careful 0 _).newLabel.newLabel
    have hrun := hrun.mark ⟨0⟩ nofun rfl
    have hrun := hrun.emit (.simple Opcode.iconst0) rfl rfl rfl
    have hrun := hrun.emit (.simple Opcode.iconst0) rfl rfl rfl
    have hrun := hrun.emit (.jump Opcode.ifeq ⟨1⟩) rfl rfl rfl
    have hrun := hrun.mark ⟨1⟩ nofun rfl
    have hrun := hrun.emit (.simple Opcode.pop) rfl rfl rfl
    refine ⟨hrun, rfl, fun insn hinsn => ?_⟩
    have hflow : insn.flow ≠ .subroutine ∧ insn.flow ≠ .exit := by
      revert insn
      decide
    exact ⟨hflow.1, fun hexit => absurd hexit hflow.2⟩
  · rintro ⟨result, hrun⟩
    have hall : Block.applyAll owner "b" [methodExit (.assembled fun _ => branching)] numbered =
        .ok (edited, [⟨.exitInjected, 1, "6 instructions per exit"⟩]) :=
      bind_eq_ok_iff.2 ⟨_, happly, rfl⟩
    have hrefused := Block.run_of_refused
      (b := .ofOperations [methodExit (.assembled fun _ => branching)]) hall (by decide) hr he
    cases hrun.symm.trans hrefused

end Operation

end ClassEdit
