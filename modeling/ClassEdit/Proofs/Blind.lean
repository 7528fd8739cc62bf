import ClassEdit.Proofs.Scaled
import ClassEdit.Scan.Session

/-!
# Clauses and operations that do not see the scaling

Two classes whose methods differ at most in scaling the frame rate are scanned with the same rules.
Most clauses and operations are blind to the difference: a clause holds of both methods or of none,
and an operation fails in both or leaves methods that differ in no other way than before. If all
operations of a block are blind, and there is room for the scaling in the body that they leave, it
is committed in both or in none, since both edited bodies have heights or none has.

## Main definitions

* `ClassDecl.Scaled`, `Site.Scaled`: classes and sites that differ at most in scaling.
* `MethodDecl.Akin`: methods that differ at most in scaling, and have heights or not together.
* `Both`: results of which both are refusals, or both are there and related.
* `Operation.Blind`, `MethodClause.Blind`, `ClassClause.Blind`: what does not see the scaling.

## Main results

* `Operation.blind_callAdvice` and the other `blind` lemmas: which operations are blind.
* `Block.akin_after`: a blind block keeps methods akin.
-/

namespace ClassEdit

/-! ### Classes, sites and results -/

/-- Classes whose methods differ at most in scaling the frame rate. -/
structure ClassDecl.Scaled (w : UInt32) (c c' : ClassDecl) : Prop where
  name_eq : c'.name = c.name
  superName_eq : c'.superName = c.superName
  interfaces_eq : c'.interfaces = c.interfaces
  access_eq : c'.access = c.access
  fields_eq : c'.fields = c.fields
  pool_eq : c'.pool = c.pool
  methods : List.Forall₂ (MethodDecl.Scaled w) c.methods c'.methods

/-- Sites that differ at most in scaling the frame rate. -/
structure Site.Scaled (w : UInt32) (s s' : Site) : Prop where
  owner : s.owner.Scaled w s'.owner
  method : s.method.Scaled w s'.method
  registration_eq : s'.registration = s.registration

/-- Both results are refusals, or both are there and related. -/
inductive Both {ε α β : Type} (R : α → β → Prop) : Except ε α → Except ε β → Prop
  | ok {a : α} {b : β} (h : R a b) : Both R (.ok a) (.ok b)
  | error {e e' : ε} : Both R (.error e) (.error e')

theorem Both.bind {ε α β γ δ : Type} {R : α → β → Prop} {S : γ → δ → Prop} {x : Except ε α}
    {y : Except ε β} {f : α → Except ε γ} {g : β → Except ε δ} (h : Both R x y)
    (hfg : ∀ a b, R a b → Both S (f a) (g b)) : Both S (x >>= f) (y >>= g) := by
  cases h with
  | ok h => exact hfg _ _ h
  | error => exact .error

/-- Results of which one is there if the other one is, and which are then related. -/
theorem Both.of_iff {ε α β : Type} {R : α → β → Prop} {x : Except ε α} {y : Except ε β}
    (hiff : (∃ a, x = .ok a) ↔ ∃ b, y = .ok b) (hrel : ∀ a b, x = .ok a → y = .ok b → R a b) :
    Both R x y := by
  cases x with
  | ok a =>
    obtain ⟨b, rfl⟩ := hiff.1 ⟨a, rfl⟩
    exact .ok (hrel a b rfl rfl)
  | error e =>
    cases y with
    | ok b => nomatch hiff.2 ⟨b, rfl⟩
    | error e' => exact .error

theorem Both.exists_of {ε α β : Type} {R : α → β → Prop} {x : Except ε α} {y : Except ε β}
    (h : Both R x y) : (∃ e e', x = .error e ∧ y = .error e') ∨
      ∃ a b, x = .ok a ∧ y = .ok b ∧ R a b := by
  cases h with
  | ok h => exact .inr ⟨_, _, rfl, rfl, h⟩
  | error => exact .inl ⟨_, _, rfl, rfl⟩

/-- A result is as much there as itself. -/
theorem Both.refl {ε α : Type} (x : Except ε α) : Both (· = ·) x x := by
  cases x with
  | ok a => exact .ok rfl
  | error e => exact .error

namespace MethodDecl.Scaled

variable {w : UInt32} {m m' : MethodDecl}

theorem refl (m : MethodDecl) : m.Scaled w m :=
  ⟨rfl, rfl, rfl, rfl, rfl, rfl, .refl m.code⟩

theorem signature_eq (h : m.Scaled w m') : m'.signature = m.signature := by
  rw [signature, signature, h.name_eq, h.descriptor_eq]

theorem strings_eq (h : m.Scaled w m') : m'.strings = m.strings :=
  h.code.filterMap_eq string?_of_mem_scaling

theorem calls_eq (h : m.Scaled w m') : m'.calls = m.calls :=
  h.code.filterMap_eq call?_of_mem_scaling

theorem references_eq (h : m.Scaled w m') : m'.references = m.references :=
  h.code.filterMap_eq field?_of_mem_scaling

/-- Other code may be put into both methods. -/
theorem withCode (h : m.Scaled w m') {code code' : List Instruction}
    (hcode : ClassEdit.Scaled w code code') :
    MethodDecl.Scaled w { m with code } { m' with code := code' } :=
  ⟨h.name_eq, h.descriptor_eq, h.access_eq, h.arguments_eq, h.result_eq, h.handlers_eq, hcode⟩

/-- The same new body may be given to both methods. -/
theorem withBody (h : m.Scaled w m') (code : List Instruction) :
    (m.withBody code).Scaled w (m'.withBody code) :=
  ⟨h.name_eq, h.descriptor_eq, h.access_eq, h.arguments_eq, h.result_eq, rfl, .refl code⟩

/-- The declared limits do not matter. -/
theorem withLimits (h : m.Scaled w m') (maxStack maxLocals maxStack' maxLocals' : UInt16) :
    MethodDecl.Scaled w { m with maxStack, maxLocals }
      { m' with maxStack := maxStack', maxLocals := maxLocals' } :=
  ⟨h.name_eq, h.descriptor_eq, h.access_eq, h.arguments_eq, h.result_eq, h.handlers_eq, h.code⟩

end MethodDecl.Scaled

/-- Methods that differ at most in scaling the frame rate, and of which both have heights or none
has. -/
structure MethodDecl.Akin (w : UInt32) (m m' : MethodDecl) : Prop where
  scaled : m.Scaled w m'
  heights_iff : (∃ r, m.heights = .ok r) ↔ ∃ r, m'.heights = .ok r

namespace MethodDecl.Akin

variable {w : UInt32} {m m' : MethodDecl}

theorem refl (m : MethodDecl) : m.Akin w m := ⟨.refl m, .rfl⟩

/-- The declared limits do not matter. -/
theorem withLimits (h : m.Akin w m') (maxStack maxLocals maxStack' maxLocals' : UInt16) :
    MethodDecl.Akin w { m with maxStack, maxLocals }
      { m' with maxStack := maxStack', maxLocals := maxLocals' } := by
  have hheights (m : MethodDecl) (maxStack maxLocals : UInt16) :
      MethodDecl.heights { m with maxStack, maxLocals } = m.heights :=
    heights_congr rfl rfl rfl rfl
  refine ⟨h.scaled.withLimits maxStack maxLocals maxStack' maxLocals', ?_⟩
  rw [hheights m, hheights m' maxStack' maxLocals']
  exact h.heights_iff

end MethodDecl.Akin

/-! ### Clauses -/

/-- A clause that holds of a method or not, whether its frame rate is scaled or not. -/
def MethodClause.Blind (w : UInt32) (clause : MethodClause) : Prop :=
  ∀ m m', m.Scaled w m' → clause.holds m' = clause.holds m

/-- A clause about classes that does not depend on scaling. -/
def ClassClause.Blind (w : UInt32) (clause : ClassClause) : Prop :=
  ∀ c c', c.Scaled w c' → clause.holds c' = clause.holds c

section Clauses

variable {w : UInt32}

namespace MethodClause

theorem blind_named {name : String} : (named name).Blind w :=
  fun _ _ h => congrArg (· == name) h.name_eq

theorem blind_constructor : constructor.Blind w := fun m m' h => by
  change m'.isConstructor = m.isConstructor
  rw [MethodDecl.isConstructor, h.name_eq, MethodDecl.isConstructor]

theorem blind_argument {index : Nat} {type : TypeDescriptor} : (argument index type).Blind w :=
  fun _ _ h => congrArg (fun types => types[index]? == some type) h.arguments_eq

theorem blind_returns {type : TypeDescriptor} : (returns type).Blind w :=
  fun _ _ h => congrArg (· == type) h.result_eq

theorem blind_hasString {comparison : TextMatch} : (hasString comparison).Blind w :=
  fun _ _ h => congrArg (List.any · comparison.holds) h.strings_eq

theorem blind_loads {value : String} : (loads value).Blind w := blind_hasString

theorem blind_loadsPart {fragment : String} : (loadsPart fragment).Blind w :=
  blind_hasString

theorem blind_calls {pattern : MemberPattern} : (calls pattern).Blind w :=
  fun _ _ h => congrArg (List.any · pattern.acceptsCall) h.calls_eq

theorem blind_references {pattern : MemberPattern} : (references pattern).Blind w :=
  fun _ _ h => congrArg (List.any · pattern.acceptsAccess) h.references_eq

/-- The scaling pushes a constant, but in single precision only. -/
theorem blind_hasConstant {constant : Constant} (hkind : constant.kind ≠ .float) :
    (hasConstant constant).Blind w := by
  intro m m' h
  have hany (code : List Instruction) : (code.filterMap Instruction.constant?).any
      (fun c => c == constant) = code.any fun insn => insn.constant? == some constant := by
    rw [List.any_filterMap]
    congr 1
    funext insn
    cases insn.constant? <;> rfl
  simp only [holds, MethodDecl.constants, hany]
  refine h.code.any_eq fun insn hinsn => ?_
  simpa using constant?_of_mem_scaling hkind insn hinsn

end MethodClause

namespace ClassClause

theorem blind_named {name : String} : (named name).Blind w :=
  fun _ _ h => congrArg (· == name) h.name_eq

theorem blind_ofName {name : String} : (ofName name).Blind w := blind_named

theorem blind_inPackage {package : String} : (inPackage package).Blind w :=
  fun _ _ h => congrArg (fun name : String => package.toList.isPrefixOf name.toList) h.name_eq

theorem blind_host : host.Blind w := blind_inPackage

theorem blind_platform : platform.Blind w := blind_inPackage

theorem blind_contains {value : String} : (contains value).Blind w := fun c c' h => by
  change c'.strings.any _ = c.strings.any _
  rw [ClassDecl.strings, h.pool_eq, ClassDecl.strings]

theorem blind_extending {name : String} : (extending name).Blind w := fun c c' h => by
  change (c'.superName == some name || c'.interfaces.any _) = _
  rw [h.superName_eq, h.interfaces_eq]
  rfl

theorem blind_inherits {name : String} : (inherits name).Blind w := blind_extending

theorem blind_isEnum : isEnum.Blind w := fun c c' h => by
  change c'.isEnum = c.isEnum
  rw [ClassDecl.isEnum, h.access_eq, h.superName_eq, ClassDecl.isEnum]

end ClassClause

end Clauses

/-! ### Operations -/

/-- An operation that fails at both of two related sites, or keeps the methods related. What it does
to a method does not depend on the other methods of the class. -/
structure Operation.Blind (w : UInt32) (op : Operation) : Prop where
  scaled : ∀ s s' : Site, s.Scaled w s' →
    Both (fun r r' => MethodDecl.Scaled w r.1 r'.1) (op.apply s) (op.apply s')
  same : ∀ s s' : Site, s.Scaled w s' → s'.method = s.method → op.apply s' = op.apply s

/-- A source that makes the same fragment at related sites. -/
def FragmentSource.Blind (w : UInt32) (source : FragmentSource) : Prop :=
  ∀ (s s' : Site) (n : UInt16), s.Scaled w s' → source.resolve s' n = source.resolve s n

section Operations

variable {w : UInt32} {site site' : Site} {code code' : List Instruction}

namespace Scaled

theorem append_left (pre : List Instruction) (h : Scaled w code code') :
    Scaled w (pre ++ code) (pre ++ code') := by
  induction pre with
  | nil => exact h
  | cons insn pre ih => exact .keep insn ih

/-- Code without entries in a plan stays as it is. -/
theorem weave_plain {plan : Plan} {pre : List Instruction} {next : UInt32} :
    Plan.weave next (pre.map (·, none) ++ plan) = pre ++ plan.weave next := by
  induction pre with
  | nil => rfl
  | cons insn pre ih => exact congrArg (insn :: ·) ih

/-- Plans for related code whose spliced code is related. -/
def Plans (w : UInt32) (plan plan' : Plan) : Prop :=
  ∀ next, Scaled w (plan.weave next) (plan'.weave next)

theorem Plans.cons {plan plan' : Plan} (h : Plans w plan plan')
    (entry : Instruction × Option Replacement) : Plans w (entry :: plan) (entry :: plan') := by
  intro next
  obtain ⟨insn, r⟩ := entry
  rw [Plan.weave_cons, Plan.weave_cons]
  exact append_left _ (h _)

/-- The call that is scaled stays, and so does the scaling. -/
theorem Plans.scale {plan plan' : Plan} {call : MethodRef} {n : UInt16} (h : Plans w plan plan')
    (hcall : frameRateCalls.acceptsCall call = true) (hproduced : call.produced = .ok n)
    (hpos : 0 < n) : Plans w ((.invoke call, none) :: plan)
      ((.invoke call, none) :: ((scaling w).map (·, none) ++ plan')) := by
  intro next
  show Scaled w (.invoke call :: plan.weave next)
    (.invoke call :: Plan.weave next ((scaling w).map (·, none) ++ plan'))
  rw [weave_plain]
  exact .scale hcall hproduced hpos (h next)

/-- Instructions that call nothing get no entries. -/
theorem planCalls_plain {calls : MemberPattern} {replace : MethodRef → Except EditError Replacement}
    {pre : List Instruction} (hpre : ∀ insn ∈ pre, insn.call? = none) :
    planCalls calls replace (pre ++ code) =
      (planCalls calls replace code).map (pre.map (·, none) ++ ·) := by
  induction pre with
  | nil =>
    show planCalls calls replace code = (planCalls calls replace code).map ([] ++ ·)
    generalize planCalls calls replace code = plan
    cases plan <;> rfl
  | cons insn pre ih =>
    rw [List.cons_append, planCalls, hpre insn List.mem_cons_self,
      ih fun insn hinsn => hpre insn (List.mem_cons_of_mem _ hinsn)]
    cases planCalls calls replace code <;> rfl

/-- The same calls of related code are replaced, as the scaled ones are none of them. -/
theorem planCalls {calls : MemberPattern} {replace : MethodRef → Except EditError Replacement}
    (hcalls : ∀ call, frameRateCalls.acceptsCall call = true → calls.acceptsCall call = false)
    (h : Scaled w code code') :
    Both (Plans w) (ClassEdit.planCalls calls replace code)
      (ClassEdit.planCalls calls replace code') := by
  induction h with
  | nil => exact .ok fun _ => .nil
  | keep insn _ ih =>
    rw [ClassEdit.planCalls, ClassEdit.planCalls]
    cases insn.call?.filter calls.acceptsCall with
    | none => exact ih.bind fun plan plan' hplan => .ok (hplan.cons (insn, none))
    | some call =>
      refine (Both.refl (replace call)).bind fun r r' hr => ?_
      subst hr
      exact ih.bind fun plan plan' hplan => .ok (hplan.cons (insn, some r))
  | @scale _ _ call _ hcall hproduced hpos _ ih =>
    -- the call that is scaled is not accepted, and the scaling calls nothing
    have hnone : (Instruction.invoke call).call?.filter calls.acceptsCall = none := by
      simp [Instruction.call?, hcalls call hcall]
    rw [ClassEdit.planCalls, ClassEdit.planCalls, hnone, planCalls_plain call?_of_mem_scaling]
    generalize ClassEdit.planCalls calls replace _ = plan at ih ⊢
    generalize ClassEdit.planCalls calls replace _ = plan' at ih ⊢
    cases ih with
    | ok hplan => exact .ok (hplan.scale hcall hproduced hpos)
    | error => exact .error

/-- Before the returns of related code goes the same fragment. -/
theorem planReturns (f : Fragment) (h : Scaled w code code') :
    Plans w (ClassEdit.planReturns f code) (ClassEdit.planReturns f code') := by
  induction h with
  | nil => exact fun _ => .nil
  | keep insn _ ih => exact ih.cons _
  | scale hcall hproduced hpos _ ih =>
    have hplain : ClassEdit.planReturns f (scaling w) = (scaling w).map (·, none) :=
      List.map_congr_left fun insn hinsn => by rw [isReturn_of_mem_scaling insn hinsn]; rfl
    rw [ClassEdit.planReturns, ClassEdit.planReturns, List.map_cons, List.map_cons,
      List.map_append]
    rw [ClassEdit.planReturns] at hplain
    rw [hplain]
    exact ih.scale hcall hproduced hpos

end Scaled

variable {source : FragmentSource} {calls : MemberPattern}

/-- A program that does not look at the site makes the same everywhere. -/
@[simp] theorem FragmentSource.blind_assembled {program : Assembler Unit} :
    (assembled fun _ => program).Blind w := fun _ _ _ _ => rfl

theorem resolveOptional_eq {source : Option FragmentSource} {available : Except EditError UInt16}
    (hsource : ∀ s ∈ source, s.Blind w) (h : site.Scaled w site') :
    resolveOptional source site' available = resolveOptional source site available := by
  cases source with
  | none => rfl
  | some source =>
    have hresolve (n : UInt16) := hsource source rfl site site' n h
    simp only [resolveOptional, hresolve]

theorem adviceAt_eq {before after : Option FragmentSource} (hbefore : ∀ s ∈ before, s.Blind w)
    (hafter : ∀ s ∈ after, s.Blind w) (h : site.Scaled w site') :
    adviceAt site' before after = adviceAt site before after := by
  funext call
  simp only [adviceAt, resolveOptional_eq hbefore h, resolveOptional_eq hafter h,
    h.method.signature_eq]

theorem substituteAt_eq {replacement : Option FragmentSource}
    (hreplacement : ∀ s ∈ replacement, s.Blind w) (h : site.Scaled w site') :
    substituteAt site' replacement = substituteAt site replacement := by
  funext call
  cases replacement with
  | none => rfl
  | some source =>
    have hresolve (n : UInt16) := hreplacement source rfl site site' n h
    simp only [substituteAt, hresolve]

/-- At related sites with the same method, calls are spliced in the same way. -/
theorem Site.Scaled.spliceCalls_eq {kind : EventKind} {detail : MethodRef → String}
    {replace : MethodRef → Except EditError Replacement} (h : site.Scaled w site')
    (hmethod : site'.method = site.method) :
    Operation.spliceCalls site' calls kind detail replace =
      Operation.spliceCalls site calls kind detail replace := by
  rw [Operation.spliceCalls, Operation.spliceCalls, hmethod, Site.missing, Site.missing,
    h.registration_eq]

/-- Splicing other calls keeps methods related. -/
theorem scaled_spliceCalls {kind : EventKind} {detail : MethodRef → String}
    {replace : MethodRef → Except EditError Replacement}
    (hcalls : ∀ call, frameRateCalls.acceptsCall call = true → calls.acceptsCall call = false)
    (h : site.Scaled w site') :
    Both (fun r r' => MethodDecl.Scaled w r.1 r'.1)
      (Operation.spliceCalls site calls kind detail replace)
      (Operation.spliceCalls site' calls kind detail replace) := by
  -- both operations are refused if there is no such call
  have hfirst : site'.method.firstCall? calls = site.method.firstCall? calls := by
    rw [MethodDecl.firstCall?, MethodDecl.firstCall?, h.method.calls_eq]
  simp only [Operation.spliceCalls, hfirst]
  cases site.method.firstCall? calls with
  | none => exact .error
  | some first =>
    refine (Scaled.planCalls hcalls h.method.code).bind fun plan plan' hplan => .ok ?_
    rw [h.method.code.freshLabel_eq]
    exact h.method.withCode (hplan _)

namespace Operation

theorem blind_replaceConstant {source target : Constant} (hkind : source.kind ≠ .float) :
    (replaceConstant source target).Blind w := by
  refine ⟨fun s s' h => ?_, fun s s' h hmethod => by rw [apply, apply, hmethod]⟩
  simp only [apply, MethodDecl.replaceConstant]
  split
  · exact .error
  · split
    · exact .ok h.method
    · exact .ok (h.method.withCode (h.method.code.map (fun _ => rfl)
        (replacingConstant_of_mem_scaling hkind)))

theorem blind_replaceString {source target : String} :
    (replaceString source target).Blind w := by
  refine ⟨fun s s' h => ?_, fun s s' h hmethod => by rw [apply, apply, hmethod]⟩
  simp only [apply, MethodDecl.replaceString]
  split
  · exact .ok h.method
  · exact .ok (h.method.withCode (h.method.code.map (fun _ => rfl)
      replacingString_of_mem_scaling))

theorem blind_stub {value : Option Constant} : (stub value).Blind w := by
  refine ⟨fun s s' h => ?_, fun s s' h hmethod => by rw [apply, apply, hmethod]⟩
  cases value with
  | none =>
    simp only [apply, MethodDecl.stub, h.method.result_eq]
    exact .ok (h.method.withBody _)
  | some value =>
    simp only [apply, MethodDecl.stub, h.method.result_eq]
    split
    · exact .ok (h.method.withBody _)
    · exact .error

theorem blind_overwrite (hsource : source.Blind w) : (overwrite source).Blind w := by
  refine ⟨fun s s' h => ?_, fun s s' h hmethod => by rw [apply, apply, hmethod, hsource s s' 0 h]⟩
  simp only [apply, hsource s s' 0 h]
  cases source.resolve s 0 with
  | error => exact .error
  | ok f => exact .ok (h.method.withBody _)

theorem blind_callAdvice {before after : Option FragmentSource}
    (hcalls : ∀ call, frameRateCalls.acceptsCall call = true → calls.acceptsCall call = false)
    (hbefore : ∀ s ∈ before, s.Blind w) (hafter : ∀ s ∈ after, s.Blind w) :
    (callAdvice calls before after).Blind w := by
  refine ⟨fun s s' h => ?_, fun s s' h hmethod => ?_⟩
  · simp only [apply, adviceAt_eq hbefore hafter h]
    exact scaled_spliceCalls hcalls h
  · rw [apply, apply, adviceAt_eq hbefore hafter h, h.spliceCalls_eq hmethod]

theorem blind_replaceCall {replacement : Option FragmentSource}
    (hcalls : ∀ call, frameRateCalls.acceptsCall call = true → calls.acceptsCall call = false)
    (hreplacement : ∀ s ∈ replacement, s.Blind w) : (replaceCall calls replacement).Blind w := by
  refine ⟨fun s s' h => ?_, fun s s' h hmethod => ?_⟩
  · simp only [apply, substituteAt_eq hreplacement h]
    exact scaled_spliceCalls hcalls h
  · rw [apply, apply, substituteAt_eq hreplacement h, h.spliceCalls_eq hmethod]

theorem blind_methodExit (hsource : source.Blind w) : (methodExit source).Blind w := by
  refine ⟨fun s s' h => ?_, fun s s' h hmethod => ?_⟩
  · have hreturns := h.method.code.any_eq isReturn_of_mem_scaling
    simp only [apply, spliceReturns, hsource s s' 0 h, hreturns, h.method.signature_eq,
      h.method.code.freshLabel_eq]
    split
    · refine (Both.refl (source.resolve s 0)).bind fun f f' hf => ?_
      subst hf
      refine (Both.refl (checkEffect _ f _)).bind fun _ _ _ => .ok ?_
      exact h.method.withCode (h.method.code.planReturns f _)
    · exact .error
  · rw [apply, apply, spliceReturns, spliceReturns, hmethod, hsource s s' 0 h, Site.missing,
      Site.missing, h.registration_eq]

end Operation

end Operations

/-! ### Lookups -/

section Lookups

variable {w : UInt32} {code code' : List Instruction} {site site' : Site}

/-- A search passes over what does not satisfy its condition. -/
theorem Cursor.firstFrom_append {p : Instruction → Bool} {pre : List Instruction}
    (hpre : ∀ insn ∈ pre, p insn = false) (i : Nat) (code : List Instruction) :
    firstFrom p i (pre ++ code) = firstFrom p (i + pre.length) code := by
  induction pre generalizing i with
  | nil => rfl
  | cons insn pre ih =>
    rw [List.cons_append, firstFrom, hpre insn List.mem_cons_self, if_neg Bool.false_ne_true,
      ih (fun insn hinsn => hpre insn (List.mem_cons_of_mem _ hinsn)), List.length_cons,
      Nat.add_right_comm]
    rfl

/-- What a search finds first, other than a call or the scaling, has related code behind it. -/
theorem Scaled.firstFrom_cases {p : Instruction → Bool} (hcall : ∀ call, p (.invoke call) = false)
    (hp : ∀ insn ∈ scaling w, p insn = false) (h : Scaled w code code') (i i' : Nat) :
    (Cursor.firstFrom p i code = none ∧ Cursor.firstFrom p i' code' = none) ∨
      ∃ k k' insn, Cursor.firstFrom p i code = some (i + k, insn) ∧
        Cursor.firstFrom p i' code' = some (i' + k', insn) ∧ k < code.length ∧ k' < code'.length ∧
          Scaled w (code.drop (k + 1)) (code'.drop (k' + 1)) := by
  -- the search starts at other indices where the scaling has been passed over
  induction h generalizing i i' with
  | nil => exact .inl ⟨rfl, rfl⟩
  | @keep code code' insn hrest ih =>
    rw [Cursor.firstFrom, Cursor.firstFrom]
    cases hinsn : p insn with
    | true => exact .inr ⟨0, 0, insn, rfl, rfl, by simp, by simp, hrest⟩
    | false =>
      rcases ih (i + 1) (i' + 1) with hnone | ⟨k, k', found, hk, hk', hlt, hlt', hdrop⟩
      · exact .inl hnone
      · refine .inr ⟨k + 1, k' + 1, found, ?_, ?_, by simpa using hlt, by simpa using hlt', hdrop⟩
        · rw [if_neg Bool.false_ne_true, hk, Nat.add_right_comm]
          rfl
        · rw [if_neg Bool.false_ne_true, hk', Nat.add_right_comm]
          rfl
  | @scale code code' call n _ _ _ hrest ih =>
    have hskip : Cursor.firstFrom p i' (.invoke call :: (scaling w ++ code')) =
        Cursor.firstFrom p (i' + 1 + (scaling w).length) code' := by
      rw [Cursor.firstFrom, hcall, if_neg Bool.false_ne_true, Cursor.firstFrom_append hp]
    rw [hskip, Cursor.firstFrom, hcall, if_neg Bool.false_ne_true]
    rcases ih (i + 1) (i' + 1 + (scaling w).length) with
      hnone | ⟨k, k', found, hk, hk', hlt, hlt', hdrop⟩
    · exact .inl hnone
    · refine .inr ⟨k + 1, 1 + (scaling w).length + k', found, ?_, ?_, by simpa using hlt, ?_, ?_⟩
      · rw [hk, Nat.add_assoc, Nat.add_comm 1 k]
      · rw [hk', Nat.add_assoc i', Nat.add_assoc i']
      · rw [List.length_cons, List.length_append]
        omega
      · have hbehind : 1 + (scaling w).length + k' + 1 = (scaling w).length + (k' + 1) + 1 := by
          omega
        rw [hbehind, List.drop_succ_cons, List.drop_succ_cons, List.drop_length_add_append]
        exact hdrop

/-- The first access to a field that a search finds. -/
theorem Cursor.firstFrom_field {condition : FieldRef → Bool} (i : Nat) (code : List Instruction) :
    ((firstFrom (fun insn => insn.field?.any condition) i code).bind fun found => found.2.field?) =
      (code.filterMap Instruction.field?).find? condition := by
  induction code generalizing i with
  | nil => rfl
  | cons insn code ih =>
    rw [firstFrom, List.filterMap_cons]
    cases hfield : insn.field? with
    | none => exact ih (i + 1)
    | some f =>
      rw [List.find?_cons]
      cases hcondition : condition f with
      | true => simp [hcondition, hfield]
      | false => simpa [hcondition] using ih (i + 1)

namespace Site.Scaled

theorem require_eq {α : Type} (h : site.Scaled w site') (what : String) (found : Option α) :
    site'.require what found = site.require what found := by
  rw [Site.require.eq_def, Site.require.eq_def, missing, missing, h.registration_eq]

theorem classField_eq (h : site.Scaled w site') {what : String} {condition : FieldDecl → Bool} :
    site'.classField what condition = site.classField what condition := by
  rw [classField, classField, h.require_eq, h.owner.fields_eq]

theorem fieldReference_eq (h : site.Scaled w site') {what : String} {condition : FieldRef → Bool} :
    site'.fieldReference what condition = site.fieldReference what condition := by
  rw [fieldReference, fieldReference, h.require_eq, h.method.references_eq]

/-- The load of a string may stand at another index, but the next field behind it is the same. -/
theorem findString_cases (h : site.Scaled w site') (value : String) :
    (∃ e, site.findString value = .error e ∧ site'.findString value = .error e) ∨
      ∃ i i', site.findString value = .ok i ∧ site'.findString value = .ok i' ∧
        ∀ what condition,
          site'.nextFieldAfter i' what condition = site.nextFieldAfter i what condition := by
  have hstring : ∀ insn ∈ scaling w, (insn.string? == some value) = false := fun insn hinsn => by
    rw [string?_of_mem_scaling insn hinsn]
    rfl
  simp only [findString, h.require_eq, Cursor.findString, Cursor.next]
  show (∃ e, site.require _ ((Cursor.firstFrom _ 0 site.method.code).map _) = _ ∧ site.require _
    ((Cursor.firstFrom _ 0 site'.method.code).map _) = _) ∨ ∃ i i', site.require _
      ((Cursor.firstFrom _ 0 site.method.code).map _) = _ ∧ site.require _
        ((Cursor.firstFrom _ 0 site'.method.code).map _) = _ ∧ _
  rcases h.method.code.firstFrom_cases (fun _ => rfl) hstring 0 0 with
    ⟨hnone, hnone'⟩ | ⟨k, k', insn, hk, hk', hlt, hlt', hdrop⟩
  · rw [hnone, hnone']
    exact .inl ⟨_, rfl, rfl⟩
  · rw [hk, hk']
    refine .inr ⟨0 + k, 0 + k', rfl, rfl, fun what condition => ?_⟩
    -- the second search is over related code, and the scaling accesses no field
    simp only [nextFieldAfter, h.require_eq, Cursor.findField, Cursor.next]
    rw [Cursor.firstFrom_field, Cursor.firstFrom_field]
    simp only [Cursor.startAt, Cursor.ahead, Nat.zero_add, Nat.min_eq_left hlt.le,
      Nat.min_eq_left hlt'.le]
    rw [hdrop.filterMap_eq field?_of_mem_scaling]

end Site.Scaled

end Lookups

/-! ### Blocks -/

namespace Block

variable {w : UInt32} {owner owner' : ClassDecl} {m m' edited final : MethodDecl}
variable {registration : String}

/-- Blind operations, one after the other. -/
theorem scaled_applyAll {ops : List Operation} (hops : ∀ op ∈ ops, op.Blind w)
    (howner : owner.Scaled w owner') (h : m.Scaled w m') :
    Both (fun r r' => MethodDecl.Scaled w r.1 r'.1) (applyAll owner registration ops m)
      (applyAll owner' registration ops m') := by
  induction ops generalizing m m' with
  | nil => exact .ok h
  | cons op ops ih =>
    have hsite : Site.Scaled w ⟨owner, m, registration⟩ ⟨owner', m', registration⟩ :=
      ⟨howner, h, rfl⟩
    refine ((hops op List.mem_cons_self).scaled _ _ hsite).bind fun first first' hfirst => ?_
    refine (ih (fun op hop => hops op (List.mem_cons_of_mem _ hop)) hfirst).bind
      fun rest rest' hrest => .ok hrest

/-- In related classes they do the same to a method that is the same in both. -/
theorem applyAll_eq_of_blind {ops : List Operation} (hops : ∀ op ∈ ops, op.Blind w)
    (howner : owner.Scaled w owner') (m : MethodDecl) :
    applyAll owner' registration ops m = applyAll owner registration ops m := by
  induction ops generalizing m with
  | nil => rfl
  | cons op ops ih =>
    have hsite : Site.Scaled w ⟨owner, m, registration⟩ ⟨owner', m, registration⟩ :=
      ⟨howner, .refl m, rfl⟩
    have hrest := ih fun op hop => hops op (List.mem_cons_of_mem _ hop)
    rw [applyAll, applyAll, (hops op List.mem_cons_self).same _ _ hsite rfl]
    simp only [hrest]

/-- What is left of an edited method that is checked. -/
def checked (m edited : MethodDecl) : MethodDecl :=
  match finalize m edited with
  | .ok final => final
  | .error _ => m

/-- What a block leaves after its operations. -/
def settled (m edited : MethodDecl) : MethodDecl :=
  if edited.code ≠ m.code ∨ edited.handlers ≠ m.handlers then checked m edited else m

theorem settled_self : settled m m = m := by
  rw [settled, if_neg (by simp)]

/-- What the check refuses is taken back. -/
theorem settled_of_not_exists_heights (hm : ∃ r, m.heights = .ok r)
    (hedited : ¬∃ r, edited.heights = .ok r) : settled m edited = m := by
  unfold settled checked
  split
  · cases hfinal : finalize m edited with
    | error e => rfl
    | ok final => exact absurd (exists_finalize_iff.1 ⟨final, hfinal⟩ hm) hedited
  · rfl

/-- What the check lets pass stays. -/
theorem code_settled (hedited : (∃ r, m.heights = .ok r) → ∃ r, edited.heights = .ok r) :
    (settled m edited).code = edited.code := by
  unfold settled checked
  split
  · obtain ⟨final, hfinal⟩ := exists_finalize_iff.2 hedited
    rw [hfinal]
    obtain ⟨maxStack, rfl, -⟩ := finalize_eq hfinal
    rfl
  · rename_i hsame
    exact (not_not.1 (not_or.1 hsame).1).symm

theorem after_run {b : Block} : after m (b.run owner m registration) =
    match applyAll owner registration b.operations m with
    | .ok (edited, _) => settled m edited
    | .error _ => m := by
  unfold run
  cases applyAll owner registration b.operations m with
  | error e => rfl
  | ok result =>
    obtain ⟨edited, applied⟩ := result
    show after m (if _ then _ else _) = settled m edited
    split
    · rename_i hchanged
      rw [settled, if_pos hchanged, checked]
      cases finalize m edited <;> rfl
    · rename_i hunchanged
      rw [settled, if_neg hunchanged]
      rfl

/-- An edited method whose body is the one before the edit is that method. -/
theorem eq_of_unchanged {ops : List Operation} {done : List Applied}
    (happly : applyAll owner registration ops m = .ok (edited, done))
    (hsame : ¬ (edited.code ≠ m.code ∨ edited.handlers ≠ m.handlers)) : edited = m :=
  not_not.1 (mt (differs_iff happly).2 hsame)

/-- A check takes nothing back but the edit. -/
theorem checked_cases (m edited : MethodDecl) :
    checked m edited = m ∨ ∃ maxStack maxLocals,
      checked m edited = { edited with maxStack, maxLocals } := by
  unfold checked
  cases hfinal : finalize m edited with
  | error e => exact .inl rfl
  | ok final =>
    obtain ⟨maxStack, rfl, -⟩ := finalize_eq hfinal
    exact .inr ⟨_, _, rfl⟩

/-- Edited methods that are akin are checked alike, and stay akin. -/
theorem akin_checked {edited' : MethodDecl} (h : m.Akin w m') (hedited : edited.Akin w edited') :
    (checked m edited).Akin w (checked m' edited') := by
  -- both bodies have heights, or none of them has
  have hfinals : Both (MethodDecl.Akin w) (finalize m edited) (finalize m' edited') := by
    refine .of_iff ?_ fun final final' hfinal hfinal' => ?_
    · rw [exists_finalize_iff, exists_finalize_iff, h.heights_iff, hedited.heights_iff]
    · -- the limits may differ, and are not compared
      obtain ⟨maxStack, rfl, -⟩ := finalize_eq hfinal
      obtain ⟨maxStack', rfl, -⟩ := finalize_eq hfinal'
      exact hedited.withLimits ..
  unfold checked
  generalize finalize m edited = left at hfinals ⊢
  generalize finalize m' edited' = right at hfinals ⊢
  cases hfinals with
  | ok hfinal => exact hfinal
  | error => exact h

/-- What a block leaves of methods that are akin is akin: both edited methods are checked, or one of
them is the method itself. -/
theorem akin_settled {edited' : MethodDecl} (h : m.Akin w m') (hedited : edited.Akin w edited')
    (hsame : ¬ (edited.code ≠ m.code ∨ edited.handlers ≠ m.handlers) → edited = m)
    (hsame' : ¬ (edited'.code ≠ m'.code ∨ edited'.handlers ≠ m'.handlers) → edited' = m') :
    (settled m edited).Akin w (settled m' edited') := by
  unfold settled
  -- where one of the methods is unchanged, the other one differs from it in scaling only
  split
  · split
    · exact akin_checked h hedited
    · rename_i hunchanged
      rw [hsame' hunchanged] at hedited
      rcases checked_cases m edited with hchecked | ⟨maxStack, maxLocals, hchecked⟩
      · rw [hchecked]
        exact h
      · rw [hchecked]
        exact hedited.withLimits _ _ m'.maxStack m'.maxLocals
  · rename_i hunchanged
    rw [hsame hunchanged] at hedited
    split
    · rcases checked_cases m' edited' with hchecked | ⟨maxStack, maxLocals, hchecked⟩
      · rw [hchecked]
        exact h
      · rw [hchecked]
        exact hedited.withLimits m.maxStack m.maxLocals _ _
    · exact h

/-- What is left of a method whose frame rate was scaled is akin to the method, whether there was
room for the scaling or not. -/
theorem akin_settled_self (hedited : m.Scaled w edited) : m.Akin w (settled m edited) := by
  unfold settled checked
  split
  · cases hfinal : finalize m edited with
    | error e => exact .refl m
    | ok final =>
      have hheights := exists_finalize_iff.1 ⟨final, hfinal⟩
      have hakin : m.Akin w edited := ⟨hedited, hheights, hedited.exists_heights_without⟩
      obtain ⟨maxStack, rfl, -⟩ := finalize_eq hfinal
      exact hakin.withLimits m.maxStack m.maxLocals _ _
  · exact .refl m

/-- A block of blind operations keeps methods akin, if there is room for the scaling in the body
that its operations leave. -/
theorem akin_after {b : Block} (hb : ∀ op ∈ b.operations, op.Blind w)
    (howner : owner.Scaled w owner') (h : m.Akin w m')
    (hroom : ∀ edited done, applyAll owner registration b.operations m = .ok (edited, done) →
      edited.RoomToScale) :
    (after m (b.run owner m registration)).Akin w (after m' (b.run owner' m' registration)) := by
  rw [after_run, after_run]
  have happly : Both (fun r r' => MethodDecl.Scaled w r.1 r'.1)
      (applyAll owner registration b.operations m)
      (applyAll owner' registration b.operations m') := scaled_applyAll hb howner h.scaled
  obtain ⟨e, e', hleft, hright⟩ | ⟨⟨edited, done⟩, ⟨edited', done'⟩, hleft, hright, hedited⟩ :=
    happly.exists_of
  · rw [hleft, hright]
    exact h
  · rw [hleft, hright]
    have hakin : edited.Akin w edited' := ⟨hedited, hedited.heights_iff (hroom edited done hleft)⟩
    exact akin_settled h hakin (eq_of_unchanged hleft) (eq_of_unchanged hright)

/-- In related classes it does the same to a method that is the same in both. -/
theorem after_eq_of_blind {b : Block} (hb : ∀ op ∈ b.operations, op.Blind w)
    (howner : owner.Scaled w owner') (m : MethodDecl) :
    after m (b.run owner' m registration) = after m (b.run owner m registration) := by
  rw [after_run, after_run, applyAll_eq_of_blind hb howner]

end Block

end ClassEdit
