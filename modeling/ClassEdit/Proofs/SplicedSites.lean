import ClassEdit.Proofs.Hygiene

/-!
# What a splice leaves

An operation that splices selects instructions of the body: the calls that pass its pattern, or the
returns. The edited body is made of pieces, one for every instruction of the body and in the order
of the body. The piece for an instruction that is not selected is the instruction. The piece for a
selected one is what the operation puts there, made from fragments that were resolved at the body as
it was, so what the fragments bring with them is not selected in turn.

Each piece with labels of its own numbers them from where the piece before it has stopped, and the
first one starts above all labels that the body mentions. Labels have 32 bits, and as long as the
pieces do not use up more numbers than are left, the body does not mention a label that was put in,
and no other piece places it.

## Main definitions

* `Operation.selects`: the instructions that an operation edits.
* `CopyOf`, `Operation.Puts`: what an operation puts in the place of a selected instruction.
* `Operation.PutsFresh`: the labels that are put in are new.
* `Operation.Pieces`: the pieces of an edited body.
* `Operation.Planned`: the plans that an operation may follow.

## Main results

* `Plan.exists_pieces`: spliced code is made of pieces.
* `Operation.apply_splices`: which pieces an operation leaves, and when it is refused.
-/

namespace ClassEdit

/-! ### Pieces -/

/-- The instructions that an operation that splices edits. -/
def Operation.selects : Operation → Instruction → Bool
  | .callAdvice calls _ _, insn | .replaceCall calls _, insn => calls.selects insn
  | .methodExit _, insn => insn.isReturn
  | _, _ => false

/-- What an operation that splices looks for, as it is named when it is missing. -/
def Operation.sought : Operation → String
  | .callAdvice calls _ _ | .replaceCall calls _ => "call (" ++ calls.text ++ ")"
  | _ => "return instruction"

/-- A copy of what an optional source gives at a site, with the labels from one number up to another
one. The fragment has the effect that it declares. Where there is no source, there is no code. -/
inductive CopyOf (site : Site) (slots : Except EditError UInt16) :
    Option FragmentSource → UInt32 → UInt32 → List Instruction → Prop
  | absent {next : UInt32} : CopyOf site slots none next next []
  | copy {source : FragmentSource} {n : UInt16} {next : UInt32} {f : Fragment}
      (hslots : slots = .ok n)
      (hresolve : source.resolve site n = .ok f) (heffect : f.netEffect = .ok f.delta) :
      CopyOf site slots (some source) next (next + f.labelSpan) (f.relabeled next)

/-- What an operation puts in the place of an instruction that it selects, with the labels from one
number up to another one. -/
inductive Operation.Puts (site : Site) :
    Operation → Instruction → UInt32 → UInt32 → List Instruction → Prop
  /-- The call stays, between a copy of one fragment, which may use its arguments, and a copy of
  another one, which may use its result. -/
  | advice {calls : MemberPattern} {before after : Option FragmentSource} {call : MethodRef}
      {next middle last : UInt32} {first second : List Instruction}
      (hbefore : CopyOf site call.consumed before next middle first)
      (hafter : CopyOf site call.produced after middle last second) :
      Puts site (.callAdvice calls before after) (.invoke call) next last
        (first ++ .invoke call :: second)
  /-- A copy of a fragment replaces the call. -/
  | substitute {calls : MemberPattern} {source : FragmentSource} {call : MethodRef} {n : UInt16}
      {next : UInt32} {f : Fragment} (hslots : call.consumed = .ok n)
      (hresolve : source.resolve site n = .ok f) :
      Puts site (.replaceCall calls (some source)) (.invoke call) next (next + f.labelSpan)
        (f.relabeled next)
  /-- What the call would have consumed is discarded. -/
  | removal {calls : MemberPattern} {call : MethodRef} {next : UInt32} {pops : List Instruction}
      (hpops : discardArguments call = .ok pops) :
      Puts site (.replaceCall calls none) (.invoke call) next next pops
  /-- The return stays, behind a copy of a fragment. -/
  | exit {source : FragmentSource} {insn : Instruction} {next : UInt32} {f : Fragment}
      (hresolve : source.resolve site 0 = .ok f) (heffect : f.netEffect = .ok f.delta) :
      Puts site (.methodExit source) insn next (next + f.labelSpan) (f.relabeled next ++ [insn])

/-- What an operation puts in places labels that the body does not mention, and none of them in two
pieces. -/
def Operation.PutsFresh (op : Operation) (site : Site) (pieces : List (List Instruction)) : Prop :=
  ∀ (i : Nat) insn piece l, site.method.code[i]? = some insn → op.selects insn = true →
    pieces[i]? = some piece → .label l ∈ piece →
      l ∉ site.method.code.flatMap Instruction.labels ∧
        ∀ (j : Nat) other, pieces[j]? = some other → .label l ∈ other → j = i

/-- The pieces of an edited body. The piece for each instruction has its labels numbered between two
offsets. As long as there are numbers left for all of them, they do not get mixed up with each other
or with those of the body. -/
structure Operation.Pieces (op : Operation) (site : Site) (pieces : List (List Instruction))
    (offset : Nat → UInt32) : Prop where
  length_eq : pieces.length = site.method.code.length
  first : offset 0 = freshLabel site.method.code
  kept : ∀ (i : Nat) (insn : Instruction), site.method.code[i]? = some insn →
    op.selects insn = false → pieces[i]? = some [insn] ∧ offset (i + 1) = offset i
  put : ∀ (i : Nat) (insn : Instruction), site.method.code[i]? = some insn →
    op.selects insn = true →
      ∃ piece, pieces[i]? = some piece ∧ op.Puts site insn (offset i) (offset (i + 1)) piece
  fresh : (∀ plan, op.plan? site = some plan → plan.NumbersFit site.method.code) →
    op.PutsFresh site pieces

/-- Spliced code is made of what takes the place of each instruction. -/
theorem Plan.exists_pieces (plan : Plan) (next : UInt32) :
    ∃ (pieces : List (List Instruction)) (offset : Nat → UInt32), plan.weave next = pieces.flatten ∧
      pieces.length = plan.length ∧ offset 0 = next ∧ ∀ i insn r, plan[i]? = some (insn, r) →
        pieces[i]? = some (block (offset i) insn r).1 ∧
          offset (i + 1) = (block (offset i) insn r).2 := by
  induction plan generalizing next with
  | nil => exact ⟨[], fun _ => next, rfl, rfl, rfl, nofun⟩
  | cons entry plan ih =>
    obtain ⟨insn, r⟩ := entry
    obtain ⟨pieces, offset, hweave, hlength, hfirst, hpieces⟩ := ih (block next insn r).2
    refine ⟨(block next insn r).1 :: pieces, fun i => i.casesOn next offset, ?_, ?_, rfl, ?_⟩
    · rw [weave_cons, hweave, List.flatten_cons]
    · rw [List.length_cons, List.length_cons, hlength]
    · rintro (_ | i) insn' r' hentry
      · obtain ⟨rfl, rfl⟩ := Prod.mk.inj (Option.some.inj hentry)
        exact ⟨rfl, hfirst⟩
      · exact hpieces i insn' r' hentry

/-! ### Labels of pieces -/

theorem number_of_mem_copies {fs : List Fragment} {next : UInt32} {first : Nat} {l : Label}
    (hroom : NumbersFrom next first (numbersOf fs)) (h : .label l ∈ (copies next fs).1) :
    first ≤ l.number.toNat ∧ l.number.toNat < first + numbersOf fs := by
  induction fs generalizing next first with
  | nil => cases h
  | cons f fs ih =>
    rw [numbersOf] at hroom ⊢
    rcases List.mem_append.1 h with h | h
    · have hnumber := f.number_of_mem_relabeled hroom.left h
      omega
    · have hnumber := ih hroom.behind h
      omega

namespace Plan

variable {plan : Plan} {offset : Nat → UInt32} {first : Nat}

/-- The labels in what takes the place of an instruction are numbered from where it starts, unless
the instruction stays and is a label. -/
theorem number_of_mem_block {next : UInt32} {insn : Instruction} {r : Option Replacement}
    {l : Label} (hroom : NumbersFrom next first (numbersAt r))
    (h : .label l ∈ (block next insn r).1) :
    insn = .label l ∨ first ≤ l.number.toNat ∧ l.number.toNat < first + numbersAt r := by
  cases r with
  | none => exact .inl (List.mem_singleton.1 h).symm
  | some r =>
    rw [numbersAt] at hroom ⊢
    rcases List.mem_append.1 h with h | h
    · rcases List.mem_append.1 h with h | h
      · have hnumber := number_of_mem_copies hroom.left h
        omega
      · split at h
        · exact .inl (List.mem_singleton.1 h).symm
        · cases h
    · have hnumber := number_of_mem_copies hroom.copies h
      omega

theorem numbers_append {plan' : Plan} : numbers (plan ++ plan') = plan.numbers + plan'.numbers := by
  induction plan with
  | nil => exact (Nat.zero_add _).symm
  | cons entry plan ih => rw [List.cons_append, numbers, numbers, ih, Nat.add_assoc]

theorem numbers_take_succ {i : Nat} {insn : Instruction} {r : Option Replacement}
    (hentry : plan[i]? = some (insn, r)) :
    numbers (plan.take (i + 1)) = numbers (plan.take i) + numbersAt r := by
  rw [List.take_add_one, hentry, numbers_append]
  rfl

theorem numbers_take_le {i j : Nat} (h : i ≤ j) :
    numbers (plan.take i) ≤ numbers (plan.take j) := by
  calc numbers (plan.take i)
      ≤ numbers (plan.take i) + numbers ((plan.take j).drop i) := Nat.le_add_right _ _
    _ = numbers (plan.take j) := by
      rw [← numbers_append, ← Nat.min_eq_left h, ← List.take_take, Nat.min_eq_left h,
        List.take_append_drop]

/-- Each piece has the numbers behind those that the pieces before it take up. -/
theorem numbersFrom_piece (hroom : NumbersFrom (offset 0) first plan.numbers)
    (hoffset : ∀ (i : Nat) insn r, plan[i]? = some (insn, r) →
      offset (i + 1) = (block (offset i) insn r).2) :
    ∀ i ≤ plan.length, NumbersFrom (offset i) (first + numbers (plan.take i))
      (numbers (plan.drop i)) := by
  intro i hi
  induction i with
  | zero => simpa [numbers] using hroom
  | succ i ih =>
    have hentry : plan[i]? = some (plan[i].1, plan[i].2) := List.getElem?_eq_getElem hi
    have hpiece := ih (Nat.le_of_succ_le hi)
    rw [List.drop_eq_getElem_cons hi, numbers] at hpiece
    rw [hoffset i _ _ hentry, numbers_take_succ hentry, ← Nat.add_assoc]
    exact numbersFrom_block hpiece

/-- The labels in each piece are numbered behind those of the pieces before it. -/
theorem number_of_mem_piece {i : Nat} {insn : Instruction} {r : Option Replacement} {l : Label}
    (hroom : NumbersFrom (offset 0) first plan.numbers)
    (hoffset : ∀ (i : Nat) insn r, plan[i]? = some (insn, r) →
      offset (i + 1) = (block (offset i) insn r).2)
    (hentry : plan[i]? = some (insn, r)) (h : .label l ∈ (block (offset i) insn r).1) :
    insn = .label l ∨ first + numbers (plan.take i) ≤ l.number.toNat ∧
      l.number.toNat < first + numbers (plan.take (i + 1)) := by
  obtain ⟨hi, hentry'⟩ := List.getElem?_eq_some_iff.1 hentry
  have hpiece := numbersFrom_piece hroom hoffset i hi.le
  rw [List.drop_eq_getElem_cons hi, hentry', numbers] at hpiece
  rw [numbers_take_succ hentry, ← Nat.add_assoc]
  exact number_of_mem_block hpiece.left h

end Plan

/-! ### What is chosen -/

section Chosen

variable {op : Operation} {site : Site} {insn : Instruction} {choice : Option Replacement}
variable {call : MethodRef} {r : Replacement} {f : Fragment} {next last : UInt32}
variable {piece : List Instruction}

theorem copies_singleton : copies next [f] = (f.relabeled next, next + f.labelSpan) := by
  simp [copies]

/-- What an optional source gives is copied once, or there is nothing to copy. -/
theorem copyOf_copies {source : Option FragmentSource} {slots : Except EditError UInt16}
    {fs : List Fragment} (h : resolveOptional source site slots = .ok fs)
    (heffect : ∀ f ∈ fs, f.netEffect = .ok f.delta) :
    CopyOf site slots source next (copies next fs).2 (copies next fs).1 := by
  cases source with
  | none =>
    cases h
    exact .absent
  | some source =>
    obtain ⟨n, f, hn, hf, rfl⟩ := resolveOptional_some_eq_ok_iff.1 h
    rw [copies_singleton]
    exact .copy hn hf (heffect f (List.mem_singleton_self f))

theorem CopyOf.exists_resolved {source : Option FragmentSource} {slots : Except EditError UInt16}
    (h : CopyOf site slots source next last piece) :
    ∃ fs, resolveOptional source site slots = .ok fs ∧ ∀ f ∈ fs, f.netEffect = .ok f.delta := by
  cases h with
  | absent => exact ⟨[], rfl, nofun⟩
  | @copy source n next f hslots hresolve heffect =>
    refine ⟨[f], ?_, by simpa using heffect⟩
    exact resolveOptional_some_eq_ok_iff.2 ⟨n, f, hslots, hresolve, rfl⟩

variable {calls : MemberPattern} {before after replacement : Option FragmentSource}

/-- Advice at a call is what call advice puts there. -/
theorem puts_advice (h : adviceAt site before after call = .ok r) :
    Operation.Puts site (.callAdvice calls before after) (.invoke call) next
      (Plan.block next (.invoke call) (some r)).2 (Plan.block next (.invoke call) (some r)).1 := by
  obtain ⟨fs, gs, hfs, hgs, heffect, heffect', rfl⟩ := adviceAt_eq_ok_iff.1 h
  have hputs : Operation.Puts site (.callAdvice calls before after) (.invoke call) next _ _ :=
    .advice (copyOf_copies hfs heffect) (copyOf_copies hgs heffect')
  simpa [Plan.block] using hputs

/-- A substitute for a call is what the replacement of calls puts there. -/
theorem puts_substitute (h : substituteAt site replacement call = .ok r) :
    Operation.Puts site (.replaceCall calls replacement) (.invoke call) next
      (Plan.block next (.invoke call) (some r)).2 (Plan.block next (.invoke call) (some r)).1 := by
  cases replacement with
  | some source =>
    obtain ⟨n, f, hn, hf, rfl⟩ := substituteAt_some_eq_ok_iff.1 h
    have hputs : Operation.Puts site (.replaceCall calls (some source)) (.invoke call) next _ _ :=
      .substitute hn hf
    simpa [Plan.block, copies] using hputs
  | none =>
    obtain ⟨pops, hpops, rfl⟩ := substituteAt_none_eq_ok_iff.1 h
    -- instructions that discard have no labels, so no number is used up
    have hblock : Plan.block next (.invoke call) (some ⟨[.ofCode pops], false, []⟩) =
        (pops, next) := by
      simp only [Plan.block, copies_of_labels_eq_nil (labels_discardArguments hpops)]
      simp [copies]
    rw [hblock]
    exact .removal hpops

end Chosen

/-! ### Operations -/

namespace Operation

variable {op : Operation} {site : Site} {edited : MethodDecl} {done : Applied}

/-- A plan for what an operation that splices does at a site. What takes the place of an instruction
that it selects is what it puts there, whatever labels are left over, and nothing takes the place of
the others. -/
structure Planned (op : Operation) (site : Site) (plan : Plan) : Prop where
  plan?_eq : op.plan? site = some plan
  fst_eq : plan.map Prod.fst = site.method.code
  isSome_eq : ∀ entry ∈ plan, entry.2.isSome = op.selects entry.1
  puts : ∀ insn r, (insn, some r) ∈ plan → ∀ next,
    op.Puts site insn next (Plan.block next insn (some r)).2 (Plan.block next insn (some r)).1

namespace Planned

variable {plan : Plan}

/-- A plan for calls is one for the operation, if the operation puts at a call what the plan has
chosen for it. -/
theorem of_planCalls {calls : MemberPattern} {replace : MethodRef → Except EditError Replacement}
    (hselects : op.selects = calls.selects)
    (hfollows : op.plan? site = (planCalls calls replace site.method.code).toOption)
    (hplan : planCalls calls replace site.method.code = .ok plan)
    (hputs : ∀ call r next, replace call = .ok r → op.Puts site (.invoke call) next
      (Plan.block next (.invoke call) (some r)).2 (Plan.block next (.invoke call) (some r)).1) :
    op.Planned site plan := by
  obtain ⟨hfst, hchosen⟩ := planCalls_eq_ok_iff.1 hplan
  refine ⟨by rw [hfollows, hplan]; rfl, hfst, fun entry hentry => ?_, fun insn r hentry next => ?_⟩
  · rw [hselects]
    exact (hchosen entry hentry).isSome
  · obtain ⟨call, rfl, -, hreplace⟩ := hchosen _ hentry
    exact hputs call r next hreplace

/-- A plan for returns is one for the operation, if the fragment was resolved at the site. -/
theorem of_planReturns {source : FragmentSource} {f : Fragment}
    (hresolve : source.resolve site 0 = .ok f) (heffect : f.netEffect = .ok f.delta) :
    (Operation.methodExit source).Planned site (planReturns f site.method.code) := by
  refine ⟨by rw [plan?, hresolve]; rfl, map_fst_planReturns, fun entry hentry => ?_,
    fun insn r hentry next => ?_⟩
  · obtain ⟨insn, -, rfl⟩ := List.mem_map.1 hentry
    cases hreturn : insn.isReturn <;> simp [hreturn, selects]
  · obtain ⟨insn', -, heq⟩ := List.mem_map.1 hentry
    obtain ⟨rfl, hchoice⟩ := Prod.mk.inj heq
    obtain ⟨-, hr⟩ := Option.ite_none_right_eq_some.1 hchoice
    cases hr
    have hputs : Puts site (.methodExit source) insn' next _ _ := .exit hresolve heffect
    simpa [Plan.block, copies] using hputs

/-- The places of the plan can be counted in the body. -/
theorem sites_eq (h : op.Planned site plan) :
    plan.sites = site.method.code.countP op.selects := by
  rw [← h.fst_eq, List.countP_map, Plan.sites]
  exact List.countP_congr fun entry hentry => by simp [h.isSome_eq entry hentry]

/-- The plan has one entry for each instruction, with a choice exactly for those that are
selected. -/
theorem exists_choice (h : op.Planned site plan) {i : Nat} {insn : Instruction}
    (hinsn : site.method.code[i]? = some insn) :
    ∃ choice, plan[i]? = some (insn, choice) ∧ choice.isSome = op.selects insn := by
  rw [← h.fst_eq, List.getElem?_map] at hinsn
  obtain ⟨⟨insn', choice⟩, hentry, rfl⟩ := Option.map_eq_some_iff.1 hinsn
  exact ⟨choice, hentry, h.isSome_eq _ (List.mem_of_getElem? hentry)⟩

/-- An instruction that the operation selects is no label. -/
theorem selects_label {l : Label} : op.selects (.label l) = false := by
  cases op <;> rfl

/-- A plan for an operation puts in labels that the body does not mention, if there are numbers left
for them. -/
theorem putsFresh (h : op.Planned site plan) (hnumbers : plan.NumbersFit site.method.code)
    {pieces : List (List Instruction)} {offset : Nat → UInt32}
    (hlength : pieces.length = plan.length)
    (hfirst : offset 0 = freshLabel site.method.code)
    (hpieces : ∀ (i : Nat) insn r, plan[i]? = some (insn, r) →
      pieces[i]? = some (Plan.block (offset i) insn r).1 ∧
        offset (i + 1) = (Plan.block (offset i) insn r).2) : op.PutsFresh site pieces := by
  have hroom := hfirst ▸ hnumbers.numbersFrom
  have hnumber {i : Nat} {insn r l} (hentry : plan[i]? = some (insn, r)) :=
    Plan.number_of_mem_piece (l := l) hroom (fun i insn r h => (hpieces i insn r h).2) hentry
  have hbody {i : Nat} {insn r} (hentry : plan[i]? = some (insn, r)) :
      insn ∈ site.method.code := by
    rw [← h.fst_eq]
    exact List.mem_map_of_mem (List.mem_of_getElem? hentry)
  intro i insn piece l hinsn hselects hpiece hl
  obtain ⟨r, hentry, -⟩ := h.exists_choice hinsn
  rw [(hpieces i insn r hentry).1] at hpiece
  obtain rfl := Option.some.inj hpiece
  -- a label that was put in has a number above those of the body
  obtain ⟨hlow, hhigh⟩ := (hnumber hentry hl).resolve_left fun hlabel => by
    rw [hlabel, selects_label] at hselects
    cases hselects
  have hfresh : l ∉ site.method.code.flatMap Instruction.labels := fun hmem => by
    have hlt := lt_numberBound hmem
    omega
  refine ⟨hfresh, fun j other hother hlother => ?_⟩
  have hj : j < plan.length := by
    rw [← hlength]
    exact (List.getElem?_eq_some_iff.1 hother).1
  have hentry' : plan[j]? = some (plan[j].1, plan[j].2) := List.getElem?_eq_getElem hj
  rw [(hpieces j _ _ hentry').1] at hother
  obtain rfl := Option.some.inj hother
  rcases hnumber hentry' hlother with hlabel | ⟨hlow', hhigh'⟩
  · refine absurd (List.mem_flatMap.2 ⟨_, hbody hentry', ?_⟩) hfresh
    rw [hlabel]
    exact List.mem_singleton_self l
  · -- the numbers of an earlier piece lie below those of a later one
    rcases Nat.lt_trichotomy i j with hij | hij | hij
    · have hle : Plan.numbers (plan.take (i + 1)) ≤ Plan.numbers (plan.take j) :=
        Plan.numbers_take_le hij
      omega
    · exact hij.symm
    · have hle : Plan.numbers (plan.take (j + 1)) ≤ Plan.numbers (plan.take i) :=
        Plan.numbers_take_le hij
      omega

/-- The code that a plan leaves is made of pieces. -/
theorem exists_pieces (h : op.Planned site plan) : ∃ pieces offset,
    op.Pieces site pieces offset ∧
      plan.weave (freshLabel site.method.code) = pieces.flatten := by
  obtain ⟨pieces, offset, hweave, hlength, hfirst, hpieces⟩ :=
    plan.exists_pieces (freshLabel site.method.code)
  refine ⟨pieces, offset, ⟨?_, hfirst, ?_, ?_, fun hnumbers => ?_⟩, hweave⟩
  · rw [hlength, ← h.fst_eq, List.length_map]
  · intro i insn hinsn hother
    obtain ⟨choice, hchoice, hselected⟩ := h.exists_choice hinsn
    obtain rfl : choice = none := by simpa [hother] using hselected
    exact hpieces i insn none hchoice
  · intro i insn hinsn hselects
    obtain ⟨choice, hchoice, hselected⟩ := h.exists_choice hinsn
    obtain ⟨r, rfl⟩ := Option.isSome_iff_exists.1 (hselected.trans hselects)
    obtain ⟨hpiece, hnext⟩ := hpieces i insn (some r) hchoice
    exact ⟨_, hpiece, hnext ▸ h.puts insn r (List.mem_of_getElem? hchoice) _⟩
  · exact h.putsFresh (hnumbers plan h.plan?_eq) hlength hfirst hpieces

end Planned

/-- An operation that splices follows a plan. -/
theorem exists_planned (hsplices : op.splices = true)
    (happly : op.apply site = .ok (edited, done)) : ∃ plan, op.Planned site plan ∧
      edited = { site.method with code := plan.weave (freshLabel site.method.code) } ∧
        done.sites = plan.sites := by
  cases op with
  | callAdvice calls before after =>
    obtain ⟨first, plan, -, hplan, rfl, rfl⟩ := spliceCalls_eq_ok_iff.1 happly
    exact ⟨plan, .of_planCalls rfl rfl hplan fun _ _ _ => puts_advice, rfl, rfl⟩
  | replaceCall calls replacement =>
    obtain ⟨first, plan, -, hplan, rfl, rfl⟩ := spliceCalls_eq_ok_iff.1 happly
    exact ⟨plan, .of_planCalls rfl rfl hplan fun _ _ _ => puts_substitute, rfl, rfl⟩
  | methodExit source =>
    obtain ⟨-, f, hresolve, hcheck, rfl, rfl⟩ := spliceReturns_eq_ok_iff.1 happly
    exact ⟨_, .of_planReturns hresolve (checkEffect_eq_ok_iff.1 hcheck), rfl, rfl⟩
  | _ => cases hsplices

/-- An operation that splices leaves pieces. -/
theorem exists_pieces (hsplices : op.splices = true)
    (happly : op.apply site = .ok (edited, done)) :
    edited = { site.method with code := edited.code } ∧
      done.sites = site.method.code.countP op.selects ∧
        ∃ pieces offset, op.Pieces site pieces offset ∧ edited.code = pieces.flatten := by
  obtain ⟨plan, hplanned, rfl, hsites⟩ := exists_planned hsplices happly
  exact ⟨rfl, hsites.trans hplanned.sites_eq, hplanned.exists_pieces⟩

/-- An operation that splices is refused if it selects nothing. -/
theorem apply_of_selects_nothing (hsplices : op.splices = true)
    (hnone : ∀ insn ∈ site.method.code, op.selects insn = false) :
    op.apply site = .error (.notFound site.registration op.sought) := by
  cases op with
  | callAdvice calls before after =>
    have hfirst := MethodDecl.firstCall?_eq_none_iff.2 hnone
    simp only [apply, spliceCalls, hfirst]
    rfl
  | replaceCall calls replacement =>
    have hfirst := MethodDecl.firstCall?_eq_none_iff.2 hnone
    simp only [apply, spliceCalls, hfirst]
    rfl
  | methodExit source =>
    have hreturns : ¬site.method.code.any Instruction.isReturn = true := fun hany => by
      obtain ⟨insn, hinsn, hreturn⟩ := List.any_eq_true.1 hany
      exact absurd hreturn (by simpa [selects] using hnone insn hinsn)
    simp only [apply, spliceReturns, if_neg hreturns]
    rfl
  | _ => cases hsplices

/-- An operation that splices can be applied if it selects something, and if there is something to
put at every place that it selects. -/
theorem exists_apply_iff (hsplices : op.splices = true) :
    (∃ result, op.apply site = .ok result) ↔
      (∃ insn ∈ site.method.code, op.selects insn = true) ∧
        ∀ insn ∈ site.method.code, op.selects insn = true →
          ∃ next last piece, op.Puts site insn next last piece := by
  constructor
  · rintro ⟨⟨edited, done⟩, happly⟩
    refine ⟨?_, fun insn hinsn hselects => ?_⟩
    · by_contra hnone
      have hrefused : op.apply site = _ :=
        apply_of_selects_nothing hsplices (by simpa using hnone)
      rw [hrefused] at happly
      cases happly
    · obtain ⟨-, -, pieces, offset, hpieces, -⟩ := exists_pieces hsplices happly
      obtain ⟨i, hi⟩ := List.getElem?_of_mem hinsn
      obtain ⟨piece, -, hputs⟩ := hpieces.put i insn hi hselects
      exact ⟨_, _, piece, hputs⟩
  · rintro ⟨hsome, hputs⟩
    -- whatever there is to put at a site was resolved for it, so the plan can be made
    cases op with
    | callAdvice calls before after =>
      refine exists_spliceCalls hsome fun call hcall haccepts => ?_
      obtain ⟨next, last, piece, hpiece⟩ := hputs _ hcall haccepts
      cases hpiece with
      | advice hbefore hafter =>
        obtain ⟨fs, hfs, heffect⟩ := hbefore.exists_resolved
        obtain ⟨gs, hgs, heffect'⟩ := hafter.exists_resolved
        exact ⟨_, adviceAt_eq_ok_iff.2 ⟨fs, gs, hfs, hgs, heffect, heffect', rfl⟩⟩
    | replaceCall calls replacement =>
      refine exists_spliceCalls hsome fun call hcall haccepts => ?_
      obtain ⟨next, last, piece, hpiece⟩ := hputs _ hcall haccepts
      cases hpiece with
      | @substitute _ source _ n _ f hslots hresolve =>
        exact ⟨_, substituteAt_some_eq_ok_iff.2 ⟨n, f, hslots, hresolve, rfl⟩⟩
      | removal hpops => exact ⟨_, substituteAt_none_eq_ok_iff.2 ⟨_, hpops, rfl⟩⟩
    | methodExit source =>
      obtain ⟨insn, hinsn, hreturn⟩ := hsome
      obtain ⟨next, last, piece, hpiece⟩ := hputs insn hinsn hreturn
      cases hpiece with
      | @exit _ _ _ f hresolve heffect =>
        exact ⟨_, spliceReturns_eq_ok_iff.2 ⟨List.any_eq_true.2 ⟨insn, hinsn, hreturn⟩, f, hresolve,
          checkEffect_eq_ok_iff.2 heffect, rfl, rfl⟩⟩
    | _ => cases hsplices

end Operation

/-- Splicing edits exactly the places that are selected. The body falls into pieces, one for every
instruction: the instruction itself, or what the operation puts in the place of one that it selects.
Everything that is put there comes from fragments made for the method before the edit, and nothing
but the body changes. The operation can be applied if it selects something and has something to put
at every place, and it is refused by name if it selects nothing. -/
theorem Operation.apply_splices {op : Operation} {site : Site} (hsplices : op.splices = true) :
    (∀ edited done, op.apply site = .ok (edited, done) →
      edited = { site.method with code := edited.code } ∧
        done.sites = site.method.code.countP op.selects ∧
          ∃ pieces offset, op.Pieces site pieces offset ∧ edited.code = pieces.flatten) ∧
      ((∃ result, op.apply site = .ok result) ↔
        (∃ insn ∈ site.method.code, op.selects insn = true) ∧
          ∀ insn ∈ site.method.code, op.selects insn = true →
            ∃ next last piece, op.Puts site insn next last piece) ∧
        ((∀ insn ∈ site.method.code, op.selects insn = false) →
          op.apply site = .error (.notFound site.registration op.sought)) :=
  ⟨fun _ _ => exists_pieces hsplices, exists_apply_iff hsplices, apply_of_selects_nothing hsplices⟩

/-- Two calls next to each other, at the beginning of a body. What comes before each of them is a
loop that calls the same method, and these calls are left alone. -/
theorem Operation.apply_splices_of_neighbours :
    let call : Instruction := .invokeStatic "a" "g" "()V"
    let m : MethodDecl :=
      ⟨"f", "()V", ⟨8⟩, [], .void, [call, call, .simple Opcode.vreturn], [], 0, 0⟩
    let edited : MethodDecl := { m with code := [.label ⟨0⟩, call, .simple Opcode.iconst0,
      .jump Opcode.ifeq ⟨0⟩, call, .label ⟨1⟩, call, .simple Opcode.iconst0,
      .jump Opcode.ifeq ⟨1⟩, call, .simple Opcode.vreturn] }
    let loop : Fragment :=
      ⟨[.label ⟨0⟩, call, .simple Opcode.iconst0, .jump Opcode.ifeq ⟨0⟩], 0, 1, some 0⟩
    let site : Site := ⟨⟨"a", none, [], .none, [], [m], []⟩, m, "b"⟩
    let op : Operation := .callAdvice (Pattern.empty.add (.named "g")) (some (.fixed loop)) none
    op.splices = true ∧ op.apply site = .ok (edited, ⟨.adviceInserted, 2, "around a.g()V"⟩) ∧
      m.code.countP op.selects = 2 ∧
        ∃ pieces offset, op.Pieces site pieces offset ∧ edited.code = pieces.flatten := by
  intro call m edited loop site op
  have happly : op.apply site = .ok (edited, ⟨.adviceInserted, 2, "around a.g()V"⟩) := by cbv
  obtain ⟨-, hsites, hpieces⟩ := (@apply_splices op site rfl).1 edited _ happly
  exact ⟨rfl, happly, hsites.symm, hpieces⟩

end ClassEdit
