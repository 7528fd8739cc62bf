import ClassEdit.Proofs.Edit

/-!
# Plans for splices

An operation that splices goes through the body of a method and chooses for every instruction what
takes its place. A plan for calls chooses something for the calls that pass a pattern and nothing
for the rest, and there is such a plan unless one of these calls is refused. A plan for returns
chooses the same for all of them. So the number of places that are edited can be counted in the body
alone.

## Main definitions

* `MemberPattern.selects`: the instructions that are calls passing a pattern.
* `Chosen`: what a plan for calls may have chosen for an instruction.

## Main results

* `planCalls_eq_ok_iff`, `exists_planCalls_iff`: which plans there are for calls.
* `sites_of_planCalls`, `sites_planReturns`: the number of places.
* `Operation.exists_spliceCalls`: when calls can be spliced.
-/

namespace ClassEdit

variable {calls : MemberPattern} {replace : MethodRef → Except EditError Replacement}
variable {insn : Instruction} {choice : Option Replacement} {call : MethodRef}
variable {plan : Plan} {code : List Instruction}

/-! ### Calls -/

theorem Instruction.call?_eq_some_iff : insn.call? = some call ↔ insn = .invoke call := by
  cases insn <;> simp [Instruction.call?]

namespace MemberPattern

/-- Whether an instruction is a call that passes the pattern. -/
def selects (calls : MemberPattern) (insn : Instruction) : Bool := insn.call?.any calls.acceptsCall

@[simp] theorem selects_invoke : calls.selects (.invoke call) = calls.acceptsCall call := rfl

theorem selects_eq_true_iff :
    calls.selects insn = true ↔ ∃ call, insn = .invoke call ∧ calls.acceptsCall call = true := by
  simp only [selects, Option.any_eq_true, Instruction.call?_eq_some_iff]

theorem filter_call?_eq_none_iff :
    insn.call?.filter calls.acceptsCall = none ↔ calls.selects insn = false := by
  simp [selects, Option.filter_eq_none_iff, Option.any_eq_false]

end MemberPattern

/-- What a plan for calls has chosen for an instruction: nothing for one that is not selected, and
for a call that is selected what is to replace it. -/
def Chosen (calls : MemberPattern) (replace : MethodRef → Except EditError Replacement)
    (insn : Instruction) : Option Replacement → Prop
  | none => calls.selects insn = false
  | some r => ∃ call, insn = .invoke call ∧ calls.acceptsCall call = true ∧ replace call = .ok r

/-- Something is chosen for the calls that pass the pattern, and only for them. -/
theorem Chosen.isSome (h : Chosen calls replace insn choice) :
    choice.isSome = calls.selects insn := by
  cases choice with
  | none => exact h.symm
  | some r =>
    obtain ⟨call, rfl, haccepts, -⟩ := h
    exact haccepts.symm

/-- A plan for calls begins with the first instruction and what is chosen for it. -/
theorem planCalls_cons_eq_ok_iff :
    planCalls calls replace (insn :: code) = .ok plan ↔ ∃ choice rest,
      plan = (insn, choice) :: rest ∧ Chosen calls replace insn choice ∧
        planCalls calls replace code = .ok rest := by
  rw [planCalls]
  cases hpassed : insn.call?.filter calls.acceptsCall with
  | none =>
    -- the instruction is no call, or none that is accepted, and it is left as it is
    have hnone := MemberPattern.filter_call?_eq_none_iff.1 hpassed
    constructor
    · intro h
      obtain ⟨rest, hrest, hplan⟩ := bind_eq_ok_iff.1 h
      cases hplan
      exact ⟨none, rest, rfl, hnone, hrest⟩
    · rintro ⟨_ | r, rest, rfl, hchosen, hrest⟩
      · exact bind_eq_ok_iff.2 ⟨rest, hrest, rfl⟩
      · obtain ⟨call, rfl, haccepts, -⟩ := hchosen
        simp [haccepts] at hnone
  | some call =>
    -- the instruction is an accepted call, and what takes its place has to be there
    obtain ⟨hcall, haccepts⟩ := Option.filter_eq_some_iff.1 hpassed
    obtain rfl := Instruction.call?_eq_some_iff.1 hcall
    constructor
    · intro h
      obtain ⟨r, hreplace, hbind⟩ := bind_eq_ok_iff.1 h
      obtain ⟨rest, hrest, hplan⟩ := bind_eq_ok_iff.1 hbind
      cases hplan
      exact ⟨some r, rest, rfl, ⟨call, rfl, haccepts, hreplace⟩, hrest⟩
    · rintro ⟨_ | r, rest, rfl, hchosen, hrest⟩
      · simp [Chosen, haccepts] at hchosen
      · obtain ⟨_, ⟨⟩, -, hreplace⟩ := hchosen
        exact bind_eq_ok_iff.2 ⟨r, hreplace, bind_eq_ok_iff.2 ⟨rest, hrest, rfl⟩⟩

/-- The plans for calls are those that go through the body and choose what is to be chosen. -/
theorem planCalls_eq_ok_iff :
    planCalls calls replace code = .ok plan ↔
      plan.map Prod.fst = code ∧ ∀ entry ∈ plan, Chosen calls replace entry.1 entry.2 := by
  induction code generalizing plan with
  | nil =>
    rw [planCalls, Except.ok.injEq, List.map_eq_nil_iff]
    exact ⟨fun h => ⟨h.symm, by simp [← h]⟩, fun h => h.1.symm⟩
  | cons insn code ih =>
    simp only [planCalls_cons_eq_ok_iff, ih, List.map_eq_cons_iff]
    constructor
    · rintro ⟨choice, rest, rfl, hchosen, hfst, hlater⟩
      exact ⟨⟨_, rest, rfl, rfl, hfst⟩, List.forall_mem_cons.2 ⟨hchosen, hlater⟩⟩
    · rintro ⟨⟨⟨_, choice⟩, rest, rfl, rfl, hfst⟩, hall⟩
      obtain ⟨hchosen, hlater⟩ := List.forall_mem_cons.1 hall
      exact ⟨choice, rest, rfl, hchosen, hfst, hlater⟩

/-- A plan for calls replaces calls of the body that pass the pattern. -/
theorem planCalls_eq_ok (h : planCalls calls replace code = .ok plan) :
    plan.map Prod.fst = code ∧ ∀ insn r, (insn, some r) ∈ plan →
      ∃ call, insn = .invoke call ∧ insn ∈ code ∧ calls.acceptsCall call = true ∧
        replace call = .ok r := by
  obtain ⟨hfst, hchosen⟩ := planCalls_eq_ok_iff.1 h
  refine ⟨hfst, fun insn r hr => ?_⟩
  obtain ⟨call, hinsn, haccepts, hreplace⟩ := hchosen _ hr
  exact ⟨call, hinsn, hfst ▸ List.mem_map_of_mem hr, haccepts, hreplace⟩

/-- There is a plan for calls if there is something to replace each call that passes the pattern. -/
theorem exists_planCalls_iff :
    (∃ plan, planCalls calls replace code = .ok plan) ↔
      ∀ call, .invoke call ∈ code → calls.acceptsCall call = true → ∃ r, replace call = .ok r := by
  constructor
  · rintro ⟨plan, hplan⟩ call hcall haccepts
    obtain ⟨hfst, hchosen⟩ := planCalls_eq_ok_iff.1 hplan
    rw [← hfst] at hcall
    obtain ⟨⟨insn, choice⟩, hentry, rfl⟩ := List.mem_map.1 hcall
    have hchoice := hchosen _ hentry
    cases choice with
    | none => simp [Chosen, haccepts] at hchoice
    | some r =>
      obtain ⟨_, ⟨⟩, -, hreplace⟩ := hchoice
      exact ⟨r, hreplace⟩
  · intro h
    -- along the code; only an accepted call can stop the plan
    induction code with
    | nil => exact ⟨[], rfl⟩
    | cons insn code ih =>
      obtain ⟨rest, hrest⟩ := ih fun call hcall => h call (List.mem_cons_of_mem _ hcall)
      obtain ⟨choice, hchosen⟩ : ∃ choice, Chosen calls replace insn choice := by
        cases hselects : calls.selects insn with
        | false => exact ⟨none, hselects⟩
        | true =>
          obtain ⟨call, rfl, haccepts⟩ := MemberPattern.selects_eq_true_iff.1 hselects
          obtain ⟨r, hreplace⟩ := h call List.mem_cons_self haccepts
          exact ⟨some r, call, rfl, haccepts, hreplace⟩
      exact ⟨(insn, choice) :: rest, planCalls_cons_eq_ok_iff.2 ⟨choice, rest, rfl, hchosen, hrest⟩⟩

/-- A plan for calls has a place for each call that passes the pattern. -/
theorem sites_of_planCalls (h : planCalls calls replace code = .ok plan) :
    plan.sites = code.countP calls.selects := by
  obtain ⟨hfst, hchosen⟩ := planCalls_eq_ok_iff.1 h
  rw [← hfst, List.countP_map, Plan.sites]
  exact List.countP_congr fun entry hentry => by simp [(hchosen entry hentry).isSome]

/-- Whether a call of the body passes a pattern can be seen at its instructions. -/
theorem MethodDecl.firstCall?_eq_none_iff {m : MethodDecl} :
    m.firstCall? calls = none ↔ ∀ insn ∈ m.code, calls.selects insn = false := by
  simp only [MethodDecl.firstCall?, List.find?_eq_none, MethodDecl.calls, List.mem_filterMap,
    MemberPattern.selects, Option.any_eq_false]
  constructor
  · intro h insn hinsn call hcall
    simpa using h call ⟨insn, hinsn, hcall⟩
  · rintro h call ⟨insn, hinsn, hcall⟩
    simpa using h insn hinsn call hcall

/-- Calls can be spliced if one of them passes the pattern and there is something to put in the
place of each that does. -/
theorem Operation.exists_spliceCalls {site : Site} {kind : EventKind} {detail : MethodRef → String}
    (hselects : ∃ insn ∈ site.method.code, calls.selects insn = true)
    (hreplace : ∀ call, .invoke call ∈ site.method.code → calls.acceptsCall call = true →
      ∃ r, replace call = .ok r) :
    ∃ result, spliceCalls site calls kind detail replace = .ok result := by
  have hsome : site.method.firstCall? calls ≠ none := by
    rw [Ne, MethodDecl.firstCall?_eq_none_iff]
    obtain ⟨insn, hinsn, hselect⟩ := hselects
    exact fun hnone => by simp [hnone insn hinsn] at hselect
  obtain ⟨first, hfirst⟩ := Option.ne_none_iff_exists'.1 hsome
  obtain ⟨plan, hplan⟩ := exists_planCalls_iff.2 hreplace
  exact ⟨_, spliceCalls_eq_ok_iff.2 ⟨first, plan, hfirst, hplan, rfl, rfl⟩⟩

/-! ### Returns -/

theorem map_fst_planReturns {f : Fragment} : (planReturns f code).map Prod.fst = code := by
  simp [planReturns, Function.comp_def]

/-- A plan for returns has a place for each return. -/
theorem sites_planReturns (fragment : Fragment) (code : List Instruction) :
    (planReturns fragment code).sites = code.countP Instruction.isReturn := by
  rw [planReturns, Plan.sites, List.countP_map]
  congr 1
  funext insn
  cases hreturn : insn.isReturn <;> simp [hreturn]

end ClassEdit
