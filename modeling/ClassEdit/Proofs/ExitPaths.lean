import ClassEdit.Proofs.Staged

/-!
# Code before returns cannot be bypassed

Nothing leads past the copies of a fragment before the returns of a body. A return places no label,
so control comes to it only from the place before it, and there stands the end of the copy. The
labels in a copy have numbers of its own, so no branch and no handler outside leads into it, and
what goes on into it comes from the instruction that stood before the return. So a path to the
return has come through the whole copy, from its beginning. Where the numbers for copies run out,
this is not so: a label of the copy may then be one of the body.

Heights play no part here. The paths are those of a graph in which an instruction leads to the next
one, to the labels that it branches to, and to every exception handler of the method, whether the
handler covers the instruction or not.

## Main definitions

* `MethodDecl.Leads`, `MethodDecl.Walk`: the control flow of a body as a graph, and its paths.
* `MethodDecl.GuardedExit`: nothing leads past the copy before a return.

## Main results

* `FlowStep.leads`: steps of control follow the graph.
* `MethodDecl.WithExits.exists_inside`: a path into a copy has entered it at its beginning.
* `Operation.exit_not_bypassed`: a splice before returns cannot be bypassed.
* `Operation.exit_bypassed_of_last_number`: a copy entered behind its beginning.
-/

namespace ClassEdit

/-! ### Control flow as a graph -/

/-- Whether control may go on behind an instruction. It does so behind a subroutine that was called,
when the subroutine comes back. -/
def Instruction.goesOn (insn : Instruction) : Bool :=
  insn.flow.fallsThrough || insn.flow == .subroutine

namespace MethodDecl

variable {m : MethodDecl} {i j : Nat} {path : List Nat}

/-- Control may go from one place of the body to another one. -/
inductive Leads (m : MethodDecl) : Nat → Nat → Prop
  | next {i : Nat} {insn : Instruction} (hinsn : m.code[i]? = some insn)
      (hflow : insn.goesOn = true) : Leads m i (i + 1)
  | branch {i p : Nat} {insn : Instruction} {l : Label} (hinsn : m.code[i]? = some insn)
      (htarget : l ∈ insn.targets) (hplace : labelPosition? l m.code = some p) : Leads m i p
  | raise {i p : Nat} {insn : Instruction} {b : ExceptionHandler} (hinsn : m.code[i]? = some insn)
      (hb : b ∈ m.handlers) (hplace : labelPosition? b.handler m.code = some p) : Leads m i p

/-- A path through the body from an entry of the method, given by the places that are left behind
and the one that is come to. -/
inductive Walk (m : MethodDecl) : List Nat → Nat → Prop
  | start (hcode : m.code ≠ []) : Walk m [] 0
  | handler {b : ExceptionHandler} {p : Nat} (hb : b ∈ m.handlers)
      (hplace : labelPosition? b.handler m.code = some p) : Walk m [] p
  | step {path : List Nat} {p q : Nat} (hwalk : Walk m path p) (hleads : m.Leads p q) :
      Walk m (path ++ [p]) q

end MethodDecl

/-- Steps of control follow the graph. -/
theorem FlowStep.leads {m : MethodDecl} {p q : Point} (h : FlowStep m.code p q) :
    m.Leads p.index q.index := by
  cases h with
  | next hinsn _ hflow => exact .next hinsn (by rw [Instruction.goesOn, hflow, Bool.true_or])
  | branch hinsn _ htarget hplace => exact .branch hinsn htarget hplace

/-- Wherever control gets, a path leads there. -/
theorem MethodDecl.Reaches.exists_walk {m : MethodDecl} {p : Point} (h : m.Reaches p) :
    ∃ path, m.Walk path p.index := by
  refine h.of_closed (P := fun p => ∃ path, m.Walk path p.index) ?_ ?_
  · rintro p (hcode | ⟨hb, hplace⟩)
    · exact ⟨[], .start hcode⟩
    · exact ⟨[], .handler hb hplace⟩
  · rintro p q ⟨path, hwalk⟩ hstep
    exact ⟨path ++ [p.index], hwalk.step hstep.leads⟩

/-! ### The copies before returns -/

/-- A place in the copy before the return at a place of the body. -/
def InExit (f : Fragment) (m : MethodDecl) (i p : Nat) : Prop :=
  ∃ j < f.code.length, p = exitStart f m.code i + j

/-- Where a return of the body gets, behind its copy. -/
def exitEnd (f : Fragment) (m : MethodDecl) (i : Nat) : Nat :=
  exitStart f m.code i + f.code.length

/-- The return at a place of the body stands behind a copy of the fragment, and nothing leads past
the copy. -/
structure MethodDecl.GuardedExit (m : MethodDecl) (f : Fragment) (edited : MethodDecl) (i : Nat) :
    Prop where
  copied : f.CopiedAt edited.code (exitStart f m.code i) (exitOffset f m.code i)
  return_eq : edited.code[exitEnd f m i]? = m.code[i]?
  /-- What comes to the return comes out of the copy. -/
  to_return : ∀ p, edited.Leads p (exitEnd f m i) → InExit f m i p
  /-- Branches into the copy come out of it. -/
  branch : ∀ p insn l q, edited.code[p]? = some insn → l ∈ insn.targets →
    labelPosition? l edited.code = some q → InExit f m i q → InExit f m i p
  /-- No handler begins in the copy. -/
  handler : ∀ b ∈ edited.handlers, ∀ q, labelPosition? b.handler edited.code = some q →
    ¬ InExit f m i q
  /-- What goes on into the copy comes to its beginning, from what stood before the return. -/
  next : ∀ p insn, edited.code[p]? = some insn → insn.goesOn = true → ¬ InExit f m i p →
    InExit f m i (p + 1) →
      p + 1 = exitStart f m.code i ∧ 0 < i ∧ m.code[i - 1]? = some insn
  /-- A path to the return has come through the copy from its beginning. -/
  walk : ∀ path, edited.Walk path (exitEnd f m i) → ∃ before inside,
    path = before ++ exitStart f m.code i :: inside ∧ ∀ p ∈ inside, InExit f m i p

/-- Code with copies before its returns ends with the instruction with which the code ends. -/
theorem getLast?_weave_planReturns {f : Fragment} {code : List Instruction} {next : UInt32} :
    ((planReturns f code).weave next).getLast? = code.getLast? := by
  rcases List.eq_nil_or_concat code with rfl | ⟨before, insn, rfl⟩
  · rfl
  · rw [List.concat_eq_append, weave_planReturns_append, weave_planReturns_cons]
    split <;> simp [planReturns, Plan.weave]

namespace MethodDecl.WithExits

variable {m final : MethodDecl} {f : Fragment} {i p q : Nat} {insn : Instruction} {l : Label}

/-- A label in a copy is numbered as the labels of the copy are. -/
theorem numbers_of_inExit (h : m.WithExits f final) (hi : m.ReturnsAt i)
    (hplace : labelPosition? l final.code = some p) (hp : InExit f m i p) : Numbers f m i l := by
  obtain ⟨j, hj, rfl⟩ := hp
  exact h.numbers_of_label hi hj (getElem?_of_labelPosition? hplace)

/-- A branch into a copy comes out of it, if the branches of the fragment stay inside. -/
theorem branch_inExit (h : m.WithExits f final)
    (hclosed : ∀ insn ∈ f.code, ∀ l ∈ insn.targets, .label l ∈ f.code) (hi : m.ReturnsAt i)
    (hinsn : final.code[p]? = some insn) (hl : l ∈ insn.targets)
    (hplace : labelPosition? l final.code = some q) (hq : InExit f m i q) : InExit f m i p :=
  h.branch_inside (fun _ _ insn' _ _ _ hinsn' => hclosed insn' (List.mem_of_getElem? hinsn')) hi
    (h.numbers_of_inExit hi hplace hq) hinsn hl

/-- Handlers are placed in the body, and so in no copy. -/
theorem not_inExit_of_handler (h : m.WithExits f final) (hi : m.ReturnsAt i)
    {b : ExceptionHandler} (hb : b ∈ final.handlers)
    (hplace : labelPosition? b.handler final.code = some p) : ¬ InExit f m i p := by
  intro hp
  have hplaced := h.handlers_placed b (h.handlers_eq ▸ hb)
  exact (h.numbers_of_inExit hi hplace hp).fresh hplaced List.mem_cons_self

/-- No label is placed at a return. -/
theorem labelPosition?_ne_exitEnd (h : m.WithExits f final) (hi : m.ReturnsAt i) :
    labelPosition? l final.code ≠ some (exitEnd f m i) := by
  intro hplace
  have hlabel := getElem?_of_labelPosition? hplace
  rw [exitEnd, h.getElem?_return hi] at hlabel
  obtain ⟨ret, hret, hreturn⟩ := hi
  rw [hret] at hlabel
  cases hlabel
  cases hreturn

/-- Before a copy stands the instruction that stood before the return. -/
theorem getElem?_before (h : m.WithExits f final) (hi : m.ReturnsAt i)
    (hp : p + 1 = exitStart f m.code i) : 0 < i ∧ final.code[p]? = m.code[i - 1]? := by
  obtain ⟨ret, hret, -⟩ := hi
  have hlt := (List.getElem?_eq_some_iff.1 hret).1
  have hpos : 0 < i := by
    by_contra hzero
    obtain rfl : i = 0 := by omega
    simp [exitStart, returnsBefore] at hp
  -- what is woven before the return ends with the instruction before the return
  have hlength : ((planReturns f (m.code.take i)).weave (freshLabel m.code)).length = p + 1 := by
    rw [length_weave_planReturns, List.length_take_of_le hlt.le]
    exact hp.symm
  refine ⟨hpos, ?_⟩
  calc final.code[p]?
      = ((planReturns f (m.code.take i)).weave (freshLabel m.code))[p]? := by
        rw [h.code_eq, ← List.take_append_drop i m.code, weave_planReturns_append,
          List.take_append_drop, List.getElem?_append_left (by omega)]
    _ = (m.code.take i).getLast? := by
        rw [← getLast?_weave_planReturns (f := f), List.getLast?_eq_getElem?, hlength]
        rfl
    _ = m.code[i - 1]? := by
        rw [List.getLast?_eq_getElem?, List.length_take_of_le hlt.le,
          List.getElem?_take_of_lt (by omega)]

/-- What goes on into a copy comes to its beginning. -/
theorem next_inExit (h : m.WithExits f final) (hi : m.ReturnsAt i) (hout : ¬ InExit f m i p)
    (hin : InExit f m i (p + 1)) :
    p + 1 = exitStart f m.code i ∧ 0 < i ∧ final.code[p]? = m.code[i - 1]? := by
  obtain ⟨j, hj, hp⟩ := hin
  cases j with
  | zero => exact ⟨hp, h.getElem?_before hi hp⟩
  | succ j => exact absurd ⟨j, by omega, by omega⟩ hout

/-- What comes to a return comes out of the copy before it. -/
theorem inExit_of_leads (h : m.WithExits f final) (hnonempty : f.code ≠ []) (hi : m.ReturnsAt i)
    (hleads : final.Leads p q) (hq : q = exitEnd f m i) : InExit f m i p := by
  have hpos := List.length_pos_iff.2 hnonempty
  cases hleads with
  | next hinsn hflow =>
    rw [exitEnd] at hq
    exact ⟨f.code.length - 1, by omega, by omega⟩
  | branch hinsn htarget hplace => exact absurd (hq ▸ hplace) (h.labelPosition?_ne_exitEnd hi)
  | raise hinsn hb hplace => exact absurd (hq ▸ hplace) (h.labelPosition?_ne_exitEnd hi)

/-- A path into a copy has entered it at its beginning, and has stayed inside since then. -/
theorem exists_inside (h : m.WithExits f final)
    (hclosed : ∀ insn ∈ f.code, ∀ l ∈ insn.targets, .label l ∈ f.code) (hi : m.ReturnsAt i)
    {path : List Nat} (hwalk : final.Walk path p) (hp : InExit f m i p) :
    ∃ before inside, path ++ [p] = before ++ exitStart f m.code i :: inside ∧
      ∀ q ∈ inside, InExit f m i q := by
  induction hwalk with
  | start hcode =>
    -- the body begins with the copy
    obtain ⟨j, hj, hzero⟩ := hp
    obtain rfl : j = 0 := by omega
    refine ⟨[], [], ?_, nofun⟩
    rw [show exitStart f m.code i = 0 by omega]
  | handler hb hplace => exact absurd hp (h.not_inExit_of_handler hi hb hplace)
  | @step path p' q hwalk hleads ih =>
    by_cases hin : InExit f m i p'
    · obtain ⟨before, inside, heq, hinside⟩ := ih hin
      refine ⟨before, inside ++ [q], by rw [heq, List.append_assoc, List.cons_append], ?_⟩
      intro r hr
      rcases List.mem_append.1 hr with hr | hr
      · exact hinside r hr
      · exact List.mem_singleton.1 hr ▸ hp
    · -- the last step has led into the copy, so it has gone on to the beginning
      cases hleads with
      | next hinsn hflow =>
        obtain ⟨hstart, -⟩ := h.next_inExit hi hin hp
        exact ⟨path ++ [p'], [], by rw [hstart], nofun⟩
      | branch hinsn htarget hplace =>
        exact absurd (h.branch_inExit hclosed hi hinsn htarget hplace hp) hin
      | raise hinsn hb hplace => exact absurd hp (h.not_inExit_of_handler hi hb hplace)

/-- A path to a return has come through the copy before it, from its beginning. -/
theorem exists_inside_of_return (h : m.WithExits f final)
    (hclosed : ∀ insn ∈ f.code, ∀ l ∈ insn.targets, .label l ∈ f.code) (hnonempty : f.code ≠ [])
    (hi : m.ReturnsAt i) {path : List Nat} (hwalk : final.Walk path q) (hq : q = exitEnd f m i) :
    ∃ before inside, path = before ++ exitStart f m.code i :: inside ∧
      ∀ p ∈ inside, InExit f m i p := by
  cases hwalk with
  | start hcode =>
    have hpos := List.length_pos_iff.2 hnonempty
    rw [exitEnd] at hq
    omega
  | handler hb hplace => exact absurd (hq ▸ hplace) (h.labelPosition?_ne_exitEnd hi)
  | step hwalk hleads =>
    exact h.exists_inside hclosed hi hwalk (h.inExit_of_leads hnonempty hi hleads hq)

/-- Nothing leads past the copies, if the fragment is not empty and its branches stay inside. -/
theorem guardedExit (h : m.WithExits f final)
    (hclosed : ∀ insn ∈ f.code, ∀ l ∈ insn.targets, .label l ∈ f.code) (hnonempty : f.code ≠ [])
    (hi : m.ReturnsAt i) : m.GuardedExit f final i where
  copied := h.copiedAt hi
  return_eq := h.getElem?_return hi
  to_return _ hleads := h.inExit_of_leads hnonempty hi hleads rfl
  branch _ _ _ _ hinsn hl hplace hq := h.branch_inExit hclosed hi hinsn hl hplace hq
  handler _ hb _ hplace := h.not_inExit_of_handler hi hb hplace
  next _ _ hinsn _ hout hin := by
    obtain ⟨hstart, hpos, hbefore⟩ := h.next_inExit hi hout hin
    exact ⟨hstart, hpos, hbefore ▸ hinsn⟩
  walk _ hwalk := h.exists_inside_of_return hclosed hnonempty hi hwalk rfl

/-- What a splice before returns leaves. -/
theorem of_apply {site : Site} {source : FragmentSource} {edited : MethodDecl} {done : Applied}
    (hhandlers : ∀ b ∈ site.method.handlers, .label b.handler ∈ site.method.code)
    (hnumbers : (planReturns f site.method.code).NumbersFit site.method.code)
    (hresolve : source.resolve site 0 = .ok f)
    (happly : (Operation.methodExit source).apply site = .ok (edited, done)) :
    site.method.WithExits f edited := by
  obtain ⟨f', hf', -, rfl⟩ := Operation.spliceReturns_eq happly
  obtain rfl := Except.ok.inj (hresolve.symm.trans hf')
  exact ⟨rfl, rfl, hhandlers, hnumbers⟩

end MethodDecl.WithExits

/-! ### The operation -/

/-- Code before returns cannot be bypassed. If the handlers of a method are placed, a fragment is
not empty and branches to its own labels only, and there are label numbers for its copies, a splice
before the returns guards every one of them. -/
theorem Operation.exit_not_bypassed {source : FragmentSource} {site : Site} {f : Fragment}
    {edited : MethodDecl} {done : Applied}
    (hhandlers : ∀ b ∈ site.method.handlers, .label b.handler ∈ site.method.code)
    (hnumbers : (planReturns f site.method.code).NumbersFit site.method.code)
    (hresolve : source.resolve site 0 = .ok f) (hnonempty : f.code ≠ [])
    (hclosed : ∀ insn ∈ f.code, ∀ l ∈ insn.targets, .label l ∈ f.code)
    (happly : (Operation.methodExit source).apply site = .ok (edited, done)) :
    ∀ i, site.method.ReturnsAt i → site.method.GuardedExit f edited i := by
  intro i hi
  have hexits : site.method.WithExits f edited := .of_apply hhandlers hnumbers hresolve happly
  exact hexits.guardedExit hclosed hnonempty hi

/-- A return that a branch leads to, and that comes behind the code of a handler. The fragment
branches, and the path that takes both branches comes through its copy. -/
theorem Operation.exit_not_bypassed_of_handler :
    let m : MethodDecl := ⟨"f", "()V", ⟨8⟩, [], .void, [.label ⟨0⟩, .simple Opcode.iconst0,
      .jump Opcode.ifeq ⟨2⟩, .label ⟨1⟩, .simple Opcode.vreturn, .label ⟨3⟩, .simple Opcode.pop,
      .label ⟨2⟩, .simple Opcode.vreturn], [⟨⟨0⟩, ⟨1⟩, ⟨3⟩, none⟩], 1, 0⟩
    let f : Fragment := ⟨[.simple Opcode.iconst0, .jump Opcode.ifeq ⟨0⟩, .simple Opcode.iconst5,
      .simple Opcode.pop, .label ⟨0⟩], 0, 1, some 0⟩
    let edited : MethodDecl := { m with code := [.label ⟨0⟩, .simple Opcode.iconst0,
      .jump Opcode.ifeq ⟨2⟩, .label ⟨1⟩, .simple Opcode.iconst0, .jump Opcode.ifeq ⟨4⟩,
      .simple Opcode.iconst5, .simple Opcode.pop, .label ⟨4⟩, .simple Opcode.vreturn, .label ⟨3⟩,
      .simple Opcode.pop, .label ⟨2⟩, .simple Opcode.iconst0, .jump Opcode.ifeq ⟨5⟩,
      .simple Opcode.iconst5, .simple Opcode.pop, .label ⟨5⟩, .simple Opcode.vreturn] }
    let site : Site := ⟨⟨"a", none, [], .none, [], [m], []⟩, m, "r"⟩
    (∀ b ∈ m.handlers, .label b.handler ∈ m.code) ∧ (planReturns f m.code).NumbersFit m.code ∧
      f.code ≠ [] ∧ (∀ insn ∈ f.code, ∀ l ∈ insn.targets, .label l ∈ f.code) ∧
        (Operation.methodExit (.fixed f)).apply site =
          .ok (edited, ⟨.exitInjected, 2, "5 instructions per exit"⟩) ∧
          m.ReturnsAt 8 ∧ m.GuardedExit f edited 8 ∧
            edited.Walk [0, 1, 2, 12, 13, 14, 17] (exitEnd f m 8) := by
  intro m f edited site
  have hhandlers : ∀ b ∈ m.handlers, .label b.handler ∈ m.code := by decide
  have hnumbers : (planReturns f m.code).NumbersFit m.code := by decide
  have hclosed : ∀ insn ∈ f.code, ∀ l ∈ insn.targets, .label l ∈ f.code := by decide
  have happly : (Operation.methodExit (.fixed f)).apply site =
      .ok (edited, ⟨.exitInjected, 2, "5 instructions per exit"⟩) := by decide +kernel
  have hreturn : m.ReturnsAt 8 := ⟨_, rfl, rfl⟩
  refine ⟨hhandlers, hnumbers, List.cons_ne_nil _ _, hclosed, happly, hreturn,
    exit_not_bypassed hhandlers hnumbers rfl (List.cons_ne_nil _ _) hclosed happly 8 hreturn, ?_⟩
  -- the walk leaves out the first return with its copy, and goes through the second one
  have hwalk : edited.Walk [] 0 := .start (List.cons_ne_nil _ _)
  have hwalk := hwalk.step (.next rfl rfl)
  have hwalk := hwalk.step (.next rfl rfl)
  have hwalk := hwalk.step (.branch rfl (List.mem_singleton_self _) (by decide : _ = some 12))
  have hwalk := hwalk.step (.next rfl rfl)
  have hwalk := hwalk.step (.next rfl rfl)
  have hwalk := hwalk.step (.branch rfl (List.mem_singleton_self _) (by decide : _ = some 17))
  exact hwalk.step (.next rfl rfl)

/-- A body that places the last label number but one, and a fragment with two labels. The second
label of the copy has wrapped around to a label of the body, so that a branch of the body leads
behind the first instruction of the copy, and from there to the return. -/
theorem Operation.exit_bypassed_of_last_number :
    let m : MethodDecl := ⟨"f", "()V", ⟨8⟩, [], .void, [.label ⟨0⟩, .simple Opcode.iconst0,
      .jump Opcode.ifeq ⟨0⟩, .label ⟨4294967294⟩, .simple Opcode.vreturn], [], 1, 0⟩
    let f : Fragment := .ofCode [.label ⟨0⟩, .label ⟨1⟩]
    let edited : MethodDecl := { m with code := [.label ⟨0⟩, .simple Opcode.iconst0,
      .jump Opcode.ifeq ⟨0⟩, .label ⟨4294967294⟩, .label ⟨4294967295⟩, .label ⟨0⟩,
      .simple Opcode.vreturn] }
    let site : Site := ⟨⟨"a", none, [], .none, [], [m], []⟩, m, "r"⟩
    m.handlers = [] ∧ f.code ≠ [] ∧ (∀ insn ∈ f.code, ∀ l ∈ insn.targets, .label l ∈ f.code) ∧
      (Operation.methodExit (.fixed f)).apply site =
        .ok (edited, ⟨.exitInjected, 1, "2 instructions per exit"⟩) ∧
        m.ReturnsAt 4 ∧ exitStart f m.code 4 = 4 ∧ edited.Walk [0, 1, 2, 5] (exitEnd f m 4) ∧
          ¬ m.GuardedExit f edited 4 := by
  intro m f edited site
  have hstart : exitStart f m.code 4 = 4 := by decide
  have hplace : labelPosition? ⟨0⟩ edited.code = some 5 := by decide
  refine ⟨rfl, List.cons_ne_nil _ _, by decide, by decide +kernel, ⟨_, rfl, rfl⟩, hstart, ?_,
    fun hguarded => ?_⟩
  · have hwalk : edited.Walk [] 0 := .start (List.cons_ne_nil _ _)
    have hwalk := hwalk.step (.next rfl rfl)
    have hwalk := hwalk.step (.next rfl rfl)
    have hwalk := hwalk.step (.branch rfl (List.mem_singleton_self _) hplace)
    exact hwalk.step (.next rfl rfl)
  · -- the branch is outside of the copy, and its label inside
    obtain ⟨j, -, hbranch⟩ := hguarded.branch 2 _ ⟨0⟩ 5 rfl (List.mem_singleton_self _) hplace
      ⟨1, by decide, by rw [hstart]⟩
    omega

end ClassEdit
