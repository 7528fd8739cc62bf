import ClassEdit.Edit.Block
import ClassEdit.Proofs.Heights

/-!
# What edits leave alone

An operation changes the body of a method and its exception handlers, and nothing else. A block does
the same, and when it is committed it also adjusts the limits that the method declares. If the
method had heights before, it has heights afterwards, and the limits fit the new body.

## Main definitions

* `MethodDecl.Fits`: the declared limits are those that the body needs.
* `Block.after`: the method that a block leaves.

## Main results

* `Operation.apply_eq`, `Block.applyAll_eq`: only body and handlers change.
* `Block.run_eq_ok_iff`: when a block is committed, and what it leaves.
* `Block.run_cases`: a committed block has changed nothing, or it has left a method that fits.
-/

namespace ClassEdit

theorem bind_eq_ok_iff {ε α β : Type} {x : Except ε α} {f : α → Except ε β} {b : β} :
    x >>= f = .ok b ↔ ∃ a, x = .ok a ∧ f a = .ok b := by
  cases x with
  | error e => exact ⟨fun h => (nomatch h), fun ⟨_, h, _⟩ => (nomatch h)⟩
  | ok a => exact ⟨fun h => ⟨a, rfl, h⟩, fun ⟨_, h, hf⟩ => by cases h; exact hf⟩

/-! ### Heights and declared limits -/

theorem slots_le_max_left (a b : UInt16) : a ≤ max a b := by
  rw [UInt16.le_iff_toNat_le, UInt16.toNat_max]
  exact Nat.le_max_left _ _

theorem slots_le_max_right (a b : UInt16) : b ≤ max a b := by
  rw [UInt16.le_iff_toNat_le, UInt16.toNat_max]
  exact Nat.le_max_right _ _

namespace MethodDecl

variable {m m' : MethodDecl}

/-- The heights of a method depend on its signature, its result and its code only. -/
theorem heights_congr (hsignature : m.signature = m'.signature) (hresult : m.result = m'.result)
    (hcode : m.code = m'.code) (hhandlers : m.handlers = m'.handlers) : m.heights = m'.heights := by
  have hresolve : m.resolve = m'.resolve := by
    funext l
    simp only [resolve, hcode, hsignature]
  have hresolveAll : m.resolveAll = m'.resolveAll := by
    funext ls
    induction ls with
    | nil => rfl
    | cons l ls ih => simp only [resolveAll, hresolve, ih]
  have hstep : Search.step m = Search.step m' := by
    funext s
    simp only [Search.step, expand, successors, following, hresolveAll, hcode, hsignature, hresult]
  have hrun : Search.run m = Search.run m' := by
    -- both runs take the same steps, so the induction goes along the first of them
    funext s
    fun_induction Search.run m s with
    | case1 s result h => rw [Search.run_eq, ← hstep, h]
    | case2 s e h => rw [Search.run_eq, ← hstep, h]
    | case3 s next h ih => rw [Search.run_eq m', ← hstep, h, ih]
  simp only [heights, handlerArrivals, entries, hresolveAll, hrun, hcode, hhandlers]

/-- The declared limits are those that the body needs. -/
structure Fits (m : MethodDecl) : Prop where
  stack : ∃ r, m.heights = .ok r ∧ m.maxStack = r.maxStack
  locals : localsNeeded m.code ≤ m.maxLocals

end MethodDecl

/-! ### Operations -/

section Operation

variable {site : Site} {edited : MethodDecl} {done : Applied}

section Splices

variable {calls : MemberPattern} {kind : EventKind} {detail : MethodRef → String}
variable {replace : MethodRef → Except EditError Replacement} {source : FragmentSource}

/-- Calls are spliced if one of them passes the pattern and there is a plan. Only the code changes,
and the places of the plan are counted. -/
theorem Operation.spliceCalls_eq_ok_iff :
    Operation.spliceCalls site calls kind detail replace = .ok (edited, done) ↔
      ∃ first plan, site.method.firstCall? calls = some first ∧
        planCalls calls replace site.method.code = .ok plan ∧
          edited = { site.method with code := plan.weave (freshLabel site.method.code) } ∧
            done = ⟨kind, plan.sites, detail first⟩ := by
  unfold Operation.spliceCalls
  dsimp only
  cases site.method.firstCall? calls with
  | none => exact ⟨fun h => (nomatch h), fun ⟨_, _, h, _⟩ => (nomatch h)⟩
  | some first =>
    dsimp only
    rw [bind_eq_ok_iff]
    constructor
    · rintro ⟨plan, hplan, h⟩
      cases h
      exact ⟨first, plan, rfl, hplan, rfl, rfl⟩
    · rintro ⟨_, plan, ⟨⟩, hplan, rfl, rfl⟩
      exact ⟨plan, hplan, rfl⟩

/-- Splicing calls changes the code only. -/
theorem Operation.spliceCalls_eq
    (h : Operation.spliceCalls site calls kind detail replace = .ok (edited, done)) :
    ∃ plan, planCalls calls replace site.method.code = .ok plan ∧
      edited = { site.method with code := plan.weave (freshLabel site.method.code) } := by
  obtain ⟨first, plan, -, hplan, hedited, -⟩ := spliceCalls_eq_ok_iff.1 h
  exact ⟨plan, hplan, hedited⟩

/-- A fragment is spliced before the returns if there are any, and if it has the effect that it
declares. Only the code changes, and the returns are counted. -/
theorem Operation.spliceReturns_eq_ok_iff :
    Operation.spliceReturns site source = .ok (edited, done) ↔
      site.method.code.any Instruction.isReturn = true ∧ ∃ f, source.resolve site 0 = .ok f ∧
        checkEffect site.method.signature f .methodExit = .ok () ∧
          edited = { site.method with
            code := (planReturns f site.method.code).weave (freshLabel site.method.code) } ∧
            done = ⟨.exitInjected, (planReturns f site.method.code).sites,
              toString f.code.length ++ " instructions per exit"⟩ := by
  unfold Operation.spliceReturns
  dsimp only
  split
  · rename_i hreturns
    rw [bind_eq_ok_iff]
    constructor
    · rintro ⟨f, hresolve, h⟩
      obtain ⟨⟨⟩, hcheck, h⟩ := bind_eq_ok_iff.1 h
      cases h
      exact ⟨hreturns, f, hresolve, hcheck, rfl, rfl⟩
    · rintro ⟨-, f, hresolve, hcheck, rfl, rfl⟩
      exact ⟨f, hresolve, bind_eq_ok_iff.2 ⟨(), hcheck, rfl⟩⟩
  · rename_i hreturns
    exact ⟨fun h => (nomatch h), fun ⟨h, _⟩ => absurd h hreturns⟩

/-- Splicing returns changes the code only. -/
theorem Operation.spliceReturns_eq
    (h : Operation.spliceReturns site source = .ok (edited, done)) :
    ∃ fragment, source.resolve site 0 = .ok fragment ∧
      checkEffect site.method.signature fragment .methodExit = .ok () ∧
      edited = { site.method with
        code := (planReturns fragment site.method.code).weave (freshLabel site.method.code) } := by
  obtain ⟨-, f, hresolve, hcheck, hedited, -⟩ := spliceReturns_eq_ok_iff.1 h
  exact ⟨f, hresolve, hcheck, hedited⟩

end Splices

section Replacements

variable {m : MethodDecl} {insn : Instruction}

/-- Constants are replaced by others of their kind. Nothing is edited if it is the same constant,
and else the loads are exchanged and counted. -/
theorem MethodDecl.replaceConstant_eq_ok {source target : Constant}
    (h : m.replaceConstant source target = .ok (edited, done)) :
    source.kind = target.kind ∧ done.kind = .constantReplaced ∧
      (edited = m ∨
        edited = { m with code := m.code.map (Instruction.replacingConstant source target) } ∧
          done.sites = m.code.countP fun insn => insn.constant? == some source) := by
  unfold MethodDecl.replaceConstant at h
  split at h
  · cases h
  · rename_i hkind
    split at h <;> cases h
    · exact ⟨not_not.1 hkind, rfl, .inl rfl⟩
    · exact ⟨not_not.1 hkind, rfl, .inr ⟨rfl, rfl⟩⟩

/-- A text can always be replaced. Nothing is edited if it is the same text or empty, and else the
loads of strings that contain it are exchanged and counted. -/
theorem MethodDecl.replaceString_cases {source target : String}
    (h : m.replaceString source target = (edited, done)) :
    done.kind = .constantReplaced ∧
      (edited = m ∨
        edited = { m with code := m.code.map (Instruction.replacingString source target) } ∧
          done.sites = m.code.countP (Instruction.loadsPart source)) := by
  unfold MethodDecl.replaceString at h
  dsimp only at h
  split at h <;> cases h
  · exact ⟨rfl, .inl rfl⟩
  · exact ⟨rfl, .inr ⟨rfl, rfl⟩⟩

theorem Instruction.loadsPart_iff {fragment : String} : insn.loadsPart fragment = true ↔
    ∃ value, insn = .ldc (.string value) ∧ occursIn fragment.toList value.toList = true := by
  rw [loadsPart, Option.any_eq_true]
  constructor
  · rintro ⟨value, hvalue, hoccurs⟩
    refine ⟨value, ?_, hoccurs⟩
    unfold string? at hvalue
    split at hvalue
    · cases hvalue
      rfl
    · cases hvalue
  · rintro ⟨value, rfl, hoccurs⟩
    exact ⟨value, rfl, hoccurs⟩

/-- An instruction is left as it is, or it loads a string in which the text occurs. -/
theorem Instruction.replacingString_cases (source target : String) (insn : Instruction) :
    insn.loadsPart source = false ∧ insn.replacingString source target = insn ∨
      ∃ value, insn = .ldc (.string value) ∧ occursIn source.toList value.toList = true ∧
        insn.replacingString source target = .ldc (.string (substitute source target value)) := by
  cases hloads : insn.loadsPart source with
  | true =>
    obtain ⟨value, rfl, hoccurs⟩ := loadsPart_iff.1 hloads
    exact .inr ⟨value, rfl, hoccurs, if_pos hoccurs⟩
  | false =>
    refine .inl ⟨rfl, ?_⟩
    unfold replacingString
    split
    · exact if_neg (by simpa [loadsPart, string?] using hloads)
    · rfl

/-- The code by which a stub leaves its value on the stack. -/
def MethodDecl.stubLoad (m : MethodDecl) : Option Constant → List Instruction
  | some c => [.load c]
  | none => defaultLoad m.result

/-- A stub is made if its value is accepted by the declared type, or left out. What it leaves has no
handlers, and counts as one place whatever was there before. -/
theorem MethodDecl.stub_eq_ok {value : Option Constant} (h : m.stub value = .ok (edited, done)) :
    value.all m.result.accepts = true ∧
      edited = m.withBody (m.stubLoad value ++ [.simple m.result.returnOpcode]) ∧
        done.kind = .methodStubbed ∧ done.sites = 1 := by
  cases value with
  | none =>
    cases h
    exact ⟨rfl, rfl, rfl, rfl⟩
  | some value =>
    rw [stub] at h
    split at h <;> cases h
    rename_i haccepts
    exact ⟨haccepts, rfl, rfl, rfl⟩

end Replacements

/-- An operation changes the body and the handlers of a method only. -/
theorem Operation.apply_eq {op : Operation} (h : op.apply site = .ok (edited, done)) :
    edited = { site.method with code := edited.code, handlers := edited.handlers } := by
  cases op with
  | replaceConstant source target =>
    obtain ⟨-, -, rfl | ⟨rfl, -⟩⟩ := MethodDecl.replaceConstant_eq_ok h
    · rfl
    · rfl
  | replaceString source target =>
    obtain ⟨-, rfl | ⟨rfl, -⟩⟩ := MethodDecl.replaceString_cases (Except.ok.inj h)
    · rfl
    · rfl
  | stub value =>
    obtain ⟨-, rfl, -⟩ := MethodDecl.stub_eq_ok h
    rfl
  | overwrite source =>
    obtain ⟨fragment, -, h⟩ := bind_eq_ok_iff.1 h
    cases h
    rfl
  | callAdvice calls before after =>
    obtain ⟨plan, -, rfl⟩ := Operation.spliceCalls_eq h
    rfl
  | replaceCall calls replacement =>
    obtain ⟨plan, -, rfl⟩ := Operation.spliceCalls_eq h
    rfl
  | methodExit source =>
    obtain ⟨fragment, -, -, rfl⟩ := Operation.spliceReturns_eq h
    rfl

end Operation

/-! ### Blocks -/

namespace Block

variable {owner : ClassDecl} {m edited final : MethodDecl} {registration : String}

/-- Operations applied one after the other change the body and the handlers of a method only. -/
theorem applyAll_eq {ops : List Operation} {done : List Applied}
    (h : applyAll owner registration ops m = .ok (edited, done)) :
    edited = { m with code := edited.code, handlers := edited.handlers } := by
  induction ops generalizing m done with
  | nil => cases h; rfl
  | cons op ops ih =>
    obtain ⟨⟨m', applied⟩, happly, h⟩ := bind_eq_ok_iff.1 h
    obtain ⟨⟨m'', others⟩, hrest, h⟩ := bind_eq_ok_iff.1 h
    cases h
    have hfirst := Operation.apply_eq happly
    rw [ih hrest, hfirst]

/-- Operations leave one method only. -/
theorem applyAll_unique {edited' : MethodDecl} {ops : List Operation} {done done' : List Applied}
    (h : applyAll owner registration ops m = .ok (edited, done))
    (h' : applyAll owner registration ops m = .ok (edited', done')) : edited = edited' :=
  congrArg Prod.fst (Except.ok.inj (h.symm.trans h'))

/-- The last operation is applied to what the others have left. -/
theorem applyAll_concat {ops : List Operation} {op : Operation} {done : List Applied}
    (h : applyAll owner registration ops m = .ok (edited, done)) :
    applyAll owner registration (ops ++ [op]) m =
      (do
        let (m, applied) ← op.apply ⟨owner, edited, registration⟩
        return (m, done ++ [applied])) := by
  induction ops generalizing m done with
  | nil =>
    cases h
    rw [List.nil_append, applyAll]
    cases op.apply ⟨owner, edited, registration⟩ <;> rfl
  | cons first ops ih =>
    obtain ⟨⟨next, applied⟩, hfirst, h⟩ := bind_eq_ok_iff.1 h
    obtain ⟨⟨last, others⟩, hrest, h⟩ := bind_eq_ok_iff.1 h
    cases h
    rw [List.cons_append, applyAll, hfirst]
    show (applyAll owner registration (ops ++ [op]) next >>= _) = _
    rw [ih hrest]
    cases op.apply ⟨owner, edited, registration⟩ <;> rfl

/-- Operations leave another method exactly if they leave another body or other handlers. -/
theorem differs_iff {ops : List Operation} {done : List Applied}
    (h : applyAll owner registration ops m = .ok (edited, done)) :
    (edited.code ≠ m.code ∨ edited.handlers ≠ m.handlers) ↔ edited ≠ m := by
  constructor
  · rintro (hcode | hhandlers) rfl
    · exact hcode rfl
    · exact hhandlers rfl
  · intro hother
    by_contra hsame
    obtain ⟨hcode, hhandlers⟩ := not_or.1 hsame
    exact hother (by rw [applyAll_eq h, not_not.1 hcode, not_not.1 hhandlers])

/-- The method that a block leaves: the edited one if the block is committed and has changed
something. -/
def after (m : MethodDecl) : Except EditError (MethodDecl × Outcome) → MethodDecl
  | .ok (edited, outcome) => if outcome.changed then edited else m
  | .error _ => m

/-- A check adjusts the declared limits and nothing else. The height is the largest one of the
edited body if there were heights before, and else the one that was declared. -/
theorem finalize_eq_ok_iff : finalize m edited = .ok final ↔
    ∃ maxStack,
      final = { edited with
          maxStack
          maxLocals := max edited.maxLocals (localsNeeded edited.code) } ∧
        ((∃ r, m.heights = .ok r) → ∃ r, edited.heights = .ok r ∧ maxStack = r.maxStack) ∧
          ((¬∃ r, m.heights = .ok r) → maxStack = edited.maxStack) := by
  unfold finalize
  cases m.heights with
  | error e =>
    have hnone : ¬∃ r, (Except.error e : Except EditError Heights) = .ok r := nofun
    constructor
    · rintro ⟨⟩
      exact ⟨_, rfl, fun hm => absurd hm hnone, fun _ => rfl⟩
    · rintro ⟨maxStack, rfl, -, hsame⟩
      rw [hsame hnone]
      rfl
  | ok r =>
    constructor
    · intro h
      obtain ⟨r', hr', ⟨⟩⟩ := bind_eq_ok_iff.1 h
      exact ⟨_, rfl, fun _ => ⟨r', hr', rfl⟩, fun hm => absurd ⟨r, rfl⟩ hm⟩
    · rintro ⟨maxStack, rfl, hheights, -⟩
      obtain ⟨r', hr', rfl⟩ := hheights ⟨r, rfl⟩
      exact bind_eq_ok_iff.2 ⟨r', hr', rfl⟩

/-- What is committed after a check declares the limits that the body needs. -/
theorem finalize_eq (h : finalize m edited = .ok final) :
    ∃ maxStack,
      final = { edited with
          maxStack
          maxLocals := max edited.maxLocals (localsNeeded edited.code) } ∧
        ((∃ r, m.heights = .ok r) → ∃ r, edited.heights = .ok r ∧ maxStack = r.maxStack) := by
  obtain ⟨maxStack, hfinal, hheights, -⟩ := finalize_eq_ok_iff.1 h
  exact ⟨maxStack, hfinal, hheights⟩

theorem heights_finalize (h : finalize m edited = .ok final) : final.heights = edited.heights := by
  obtain ⟨maxStack, rfl, -⟩ := finalize_eq h
  exact MethodDecl.heights_congr rfl rfl rfl rfl

/-- A check is passed if the edited body has heights, unless the body had none before. -/
theorem exists_finalize_iff : (∃ final, finalize m edited = .ok final) ↔
    ((∃ r, m.heights = .ok r) → ∃ r, edited.heights = .ok r) := by
  constructor
  · rintro ⟨final, h⟩ hm
    obtain ⟨maxStack, -, hheights⟩ := finalize_eq h
    obtain ⟨r, hr, -⟩ := hheights hm
    exact ⟨r, hr⟩
  · intro h
    by_cases hm : ∃ r, m.heights = .ok r
    · obtain ⟨r, hr⟩ := h hm
      exact ⟨_, finalize_eq_ok_iff.2 ⟨r.maxStack, rfl, fun _ => ⟨r, hr, rfl⟩, absurd hm⟩⟩
    · exact ⟨_, finalize_eq_ok_iff.2 ⟨edited.maxStack, rfl, fun h => absurd h hm, fun _ => rfl⟩⟩

/-- A block succeeds if its operations leave the method as it was, or if what they leave passes the
check. -/
theorem run_eq_ok_iff {b : Block} {outcome : Outcome} :
    b.run owner m registration = .ok (final, outcome) ↔
      ∃ edited, applyAll owner registration b.operations m = .ok (edited, outcome.applied) ∧
        (edited = m ∧ outcome.changed = false ∧ final = m ∨
          edited ≠ m ∧ outcome.changed = true ∧ finalize m edited = .ok final) := by
  constructor
  · intro h
    obtain ⟨⟨edited, applied⟩, happly, h⟩ := bind_eq_ok_iff.1 h
    dsimp only at h
    split at h
    · rename_i hdiffers
      obtain ⟨final', hfinal, h⟩ := bind_eq_ok_iff.1 h
      cases h
      exact ⟨edited, happly, .inr ⟨(differs_iff happly).1 hdiffers, rfl, hfinal⟩⟩
    · rename_i hsame
      cases h
      exact ⟨edited, happly, .inl ⟨not_not.1 (mt (differs_iff happly).2 hsame), rfl, rfl⟩⟩
  · obtain ⟨applied, changed⟩ := outcome
    rintro ⟨edited, happly, ⟨hsame, rfl, rfl⟩ | ⟨hother, rfl, hfinal⟩⟩
    · refine bind_eq_ok_iff.2 ⟨_, happly, ?_⟩
      dsimp only
      rw [if_neg (mt (differs_iff happly).1 (not_not.2 hsame))]
      rfl
    · refine bind_eq_ok_iff.2 ⟨_, happly, ?_⟩
      dsimp only
      rw [if_pos ((differs_iff happly).2 hother)]
      exact bind_eq_ok_iff.2 ⟨_, hfinal, rfl⟩

/-- Operations that can be applied are committed, unless heights are lost. -/
theorem exists_run_of_applyAll {b : Block} {applied : List Applied}
    (happly : applyAll owner registration b.operations m = .ok (edited, applied))
    (h : (∃ r, m.heights = .ok r) → ∃ r, edited.heights = .ok r) :
    ∃ final outcome, b.run owner m registration = .ok (final, outcome) ∧
      outcome.applied = applied ∧ final.code = edited.code ∧ final.heights = edited.heights := by
  by_cases hsame : edited = m
  · exact ⟨m, ⟨applied, false⟩, run_eq_ok_iff.2 ⟨edited, happly, .inl ⟨hsame, rfl, rfl⟩⟩, rfl,
      hsame ▸ rfl, hsame ▸ rfl⟩
  · obtain ⟨final, hfinal⟩ := exists_finalize_iff.2 h
    have hsearched := heights_finalize hfinal
    have hrun : b.run owner m registration = .ok (final, ⟨applied, true⟩) :=
      run_eq_ok_iff.2 ⟨edited, happly, .inr ⟨hsame, rfl, hfinal⟩⟩
    obtain ⟨maxStack, rfl, -⟩ := finalize_eq hfinal
    exact ⟨_, _, hrun, rfl, rfl, hsearched⟩

/-- What a block leaves of a method with heights, once the heights of the edited body are known. -/
theorem run_of_heights {b : Block} {applied : List Applied} {r r' : Heights}
    (happly : applyAll owner registration b.operations m = .ok (edited, applied))
    (hother : edited ≠ m) (hr : m.heights = .ok r) (hr' : edited.heights = .ok r') :
    b.run owner m registration = .ok ({ edited with
      maxStack := r'.maxStack
      maxLocals := max edited.maxLocals (localsNeeded edited.code) }, ⟨applied, true⟩) :=
  run_eq_ok_iff.2 ⟨edited, happly, .inr ⟨hother, rfl, finalize_eq_ok_iff.2
    ⟨r'.maxStack, rfl, fun _ => ⟨r', hr', rfl⟩, fun hm => absurd ⟨r, hr⟩ hm⟩⟩⟩

/-- Where a method had no heights, the edited body is not checked. -/
theorem run_of_unsound {b : Block} {applied : List Applied} {e : EditError}
    (happly : applyAll owner registration b.operations m = .ok (edited, applied))
    (hother : edited ≠ m) (he : m.heights = .error e) :
    b.run owner m registration = .ok ({ edited with
      maxLocals := max edited.maxLocals (localsNeeded edited.code) }, ⟨applied, true⟩) := by
  have hnone : ¬∃ r, m.heights = .ok r := by simp [he]
  exact run_eq_ok_iff.2 ⟨edited, happly, .inr ⟨hother, rfl, finalize_eq_ok_iff.2
    ⟨edited.maxStack, rfl, fun hm => absurd hm hnone, fun _ => rfl⟩⟩⟩

/-- A block is refused for what is wrong with the heights of the edited body. -/
theorem run_of_refused {b : Block} {applied : List Applied} {r : Heights} {e : EditError}
    (happly : applyAll owner registration b.operations m = .ok (edited, applied))
    (hother : edited ≠ m) (hr : m.heights = .ok r) (he : edited.heights = .error e) :
    b.run owner m registration = .error e := by
  rw [run, happly]
  simp only [bind, Except.bind, if_pos ((differs_iff happly).2 hother), finalize, hr, he]

/-- A block that succeeds has changed nothing, or it has left a method with another body and
adjusted limits, and the limits fit if the method had heights before. -/
theorem run_cases {b : Block} {outcome : Outcome}
    (h : b.run owner m registration = .ok (final, outcome)) :
    (outcome.changed = false ∧ final = m) ∨
      (outcome.changed = true ∧
        final = { m with
          code := final.code
          handlers := final.handlers
          maxStack := final.maxStack
          maxLocals := max m.maxLocals (localsNeeded final.code) } ∧
        ((∃ r, m.heights = .ok r) → final.Fits)) := by
  obtain ⟨edited, happly, ⟨-, hchanged, hfinal⟩ | ⟨-, hchanged, hfinal⟩⟩ := run_eq_ok_iff.1 h
  · exact .inl ⟨hchanged, hfinal⟩
  · have hedited := applyAll_eq happly
    have hsearched := heights_finalize hfinal
    obtain ⟨maxStack, rfl, hheights⟩ := finalize_eq hfinal
    refine .inr ⟨hchanged, ?_, fun hm => ?_⟩
    · rw [hedited]
    · obtain ⟨r, hr, hmax⟩ := hheights hm
      exact ⟨⟨r, hsearched.trans hr, hmax⟩, slots_le_max_right _ _⟩

/-- A block leaves another body and other limits at most. -/
theorem after_eq (owner : ClassDecl) (m : MethodDecl) (registration : String) (b : Block) :
    ∃ code handlers maxStack maxLocals, after m (b.run owner m registration) =
      { m with code, handlers, maxStack, maxLocals } := by
  cases hrun : b.run owner m registration with
  | error e => exact ⟨_, _, _, _, rfl⟩
  | ok result =>
    unfold after
    dsimp only
    split
    · obtain ⟨-, hsame⟩ | ⟨-, hedited, -⟩ := run_cases hrun
      · exact ⟨_, _, _, _, hsame⟩
      · exact ⟨_, _, _, _, hedited⟩
    · exact ⟨_, _, _, _, rfl⟩

/-- A block that succeeds leaves the body and the handlers that its operations make, and it leaves
heights if there were heights before. -/
theorem run_applyAll {b : Block} {outcome : Outcome}
    (h : b.run owner m registration = .ok (final, outcome)) :
    ∃ edited, applyAll owner registration b.operations m = .ok (edited, outcome.applied) ∧
      final.code = edited.code ∧ final.handlers = edited.handlers ∧
        ((∃ r, m.heights = .ok r) → ∃ r, final.heights = .ok r) := by
  obtain ⟨edited, happly, ⟨rfl, -, rfl⟩ | ⟨-, -, hfinal⟩⟩ := run_eq_ok_iff.1 h
  · exact ⟨_, happly, rfl, rfl, id⟩
  · have hsearched := heights_finalize hfinal
    obtain ⟨maxStack, rfl, hheights⟩ := finalize_eq hfinal
    refine ⟨edited, happly, rfl, rfl, fun hm => ?_⟩
    obtain ⟨r, hr, -⟩ := hheights hm
    exact ⟨r, hsearched.trans hr⟩

/-- A block leaves another method exactly if it has changed body or handlers. -/
theorem changed_iff {b : Block} {outcome : Outcome}
    (h : b.run owner m registration = .ok (final, outcome)) :
    outcome.changed = true ↔ final ≠ m := by
  obtain ⟨edited, happly, ⟨-, hchanged, hfinal⟩ | ⟨hother, hchanged, hfinal⟩⟩ := run_eq_ok_iff.1 h
  · rw [hchanged, hfinal]
    simp
  · -- adjusting the limits does not bring the old body back
    refine ⟨fun _ hsame => ?_, fun _ => hchanged⟩
    obtain ⟨maxStack, rfl, -⟩ := finalize_eq hfinal
    rcases (differs_iff happly).2 hother with hcode | hhandlers
    · exact hcode (by rw [← hsame])
    · exact hhandlers (by rw [← hsame])

end Block

end ClassEdit
