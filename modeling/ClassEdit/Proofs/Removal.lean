import ClassEdit.Proofs.DescriptorGrammar
import ClassEdit.Proofs.SplicedSites

/-!
# Removing calls that give nothing back

A call that gives nothing back can be removed from a body if what it would have consumed is
discarded instead. This takes as many instructions as there are arguments, and one more for the
receiver; for a static call without arguments it takes none. So the rest of the body moves, and all
branches with it.

The heights stay as they are. The notes for the body without the calls are those for the body, with
the heights along the discarded values in between; they are linked because the values add up to what
the call would have popped. Conversely a path through the body is one through the body without the
calls, so nothing that was reached gets lost, and the largest height is still met, since a call
finds on the stack what it consumes.

What a call is said to consume is counted in 16 bits, and what is left of it takes the slots one by
one. So all of this needs that the calls to which control comes take no more slots than can be
counted, and where one takes more, what is left of it runs out of slots.

## Main definitions

* `MethodRef.takes`, `MethodDecl.CallsFit`: the slots that calls take, counted without a limit.
* `MethodRef.discards`, `MemberPattern.left`: what is left of a call, and of an instruction.
* `MemberPattern.place`: where the rest of the body goes.
* `Discards`: code that only takes slots off the stack.
* `MethodDecl.WithoutCalls`: a body from which calls were removed.

## Main results

* `Linked.exists_left`: notes for the body without the calls.
* `MethodDecl.WithoutCalls.path`: paths of the body are paths of the body without the calls.
* `MethodDecl.WithoutCalls.exists_heights`: the heights without the calls.
* `MethodDecl.WithoutCalls.callsFit`: a body with heights left calls out that can be counted.
* `Block.removal_accepted`: when the removal of calls is accepted, and what it leaves.
* `Block.removal_refused_of_no_or_wide_call`: two removals that are not accepted.
-/

namespace ClassEdit

/-! ### What is left of a call -/

/-- The instruction that discards a value of the type; those of `long` and `double` take two
slots. -/
def TypeDescriptor.discard (t : TypeDescriptor) : Instruction :=
  .simple (if t = .long ∨ t = .double then Opcode.pop2 else Opcode.pop)

/-- Discards what a call would have consumed: its arguments from the last to the first, and then the
receiver, unless the call is static. -/
def MethodRef.discards (call : MethodRef) : List Instruction :=
  match MethodDescriptor.parsed call.descriptor with
  | .ok d => d.arguments.reverse.map TypeDescriptor.discard ++
      if call.isStatic then [] else [.simple Opcode.pop]
  | .error _ => []

/-- The slots that a call takes off the stack, counted without a limit. -/
def MethodRef.takes (call : MethodRef) : Nat :=
  match MethodDescriptor.parsed call.descriptor with
  | .ok d => (d.arguments.map fun t => t.slots.toNat).sum + if call.isStatic then 0 else 1
  | .error _ => 0

/-- A call with a valid descriptor that gives nothing back. -/
def MethodRef.IsVoid (call : MethodRef) : Prop :=
  ∃ d, MethodDescriptor.parsed call.descriptor = .ok d ∧ d.result = .void

namespace MemberPattern

/-- What is left of an instruction when the calls that pass the pattern are removed. -/
def left (calls : MemberPattern) (insn : Instruction) : List Instruction :=
  match insn.call?.filter calls.acceptsCall with
  | some call => call.discards
  | none => [insn]

/-- Where an instruction gets when the calls that pass the pattern are removed. -/
def place (calls : MemberPattern) (code : List Instruction) (i : Nat) : Nat :=
  ((code.take i).flatMap calls.left).length

variable {calls : MemberPattern} {insn : Instruction} {call : MethodRef} {code : List Instruction}
variable {i : Nat}

theorem left_of_not_selects (h : calls.selects insn = false) : calls.left insn = [insn] := by
  rw [left, filter_call?_eq_none_iff.2 h]

theorem left_invoke (h : calls.acceptsCall call = true) :
    calls.left (.invoke call) = call.discards := by
  rw [left, Instruction.call?, Option.filter_some, if_pos h]

@[simp] theorem place_zero : calls.place code 0 = 0 := rfl

theorem place_cons_succ : calls.place (insn :: code) (i + 1) =
    (calls.left insn).length + calls.place code i := by
  simp [place]

theorem place_succ (h : code[i]? = some insn) :
    calls.place code (i + 1) = calls.place code i + (calls.left insn).length := by
  obtain ⟨hi, rfl⟩ := List.getElem?_eq_some_iff.1 h
  rw [place, List.take_succ_eq_append_getElem hi, List.flatMap_append, List.length_append, place]
  simp

/-- What comes before the place of an instruction, what is left of it, and what comes behind. -/
theorem exists_flatMap_left (h : code[i]? = some insn) :
    ∃ before after, before.length = calls.place code i ∧
      code.flatMap calls.left = before ++ calls.left insn ++ after := by
  obtain ⟨hi, rfl⟩ := List.getElem?_eq_some_iff.1 h
  refine ⟨(code.take i).flatMap calls.left, (code.drop (i + 1)).flatMap calls.left, rfl, ?_⟩
  conv_lhs => rw [← List.take_append_drop i code, List.drop_eq_getElem_cons hi]
  rw [List.flatMap_append, List.flatMap_cons, List.append_assoc]

theorem getElem?_place (h : code[i]? = some insn) (hother : calls.selects insn = false) :
    (code.flatMap calls.left)[calls.place code i]? = some insn := by
  obtain ⟨before, after, hlength, hcode⟩ := @exists_flatMap_left calls _ _ _ h
  rw [hcode, ← hlength, left_of_not_selects hother]
  simp

end MemberPattern

theorem discardArguments_eq_ok {call : MethodRef} {pops : List Instruction}
    (h : discardArguments call = .ok pops) : pops = call.discards := by
  obtain ⟨d, hd, hpops⟩ := bind_eq_ok_iff.1 h
  have hwide (t : TypeDescriptor) : t.slots = 2 ↔ t = .long ∨ t = .double := by
    cases t <;> simp [TypeDescriptor.slots]
  cases hpops
  simp only [MethodRef.discards, hd, hwide]
  rfl

/-! ### Code that discards -/

/-- What the search for heights asks of an instruction that is reached, when no height that it
counts may be above `top`. -/
structure PermittedBelow (result : TypeDescriptor) (top : Int) (insn : Instruction)
    (e : StackEffect) (k : Int) : Prop where
  permitted : Permitted result 0 insn e k
  before_le : k ≤ top
  after_le : wrapped (k + e.net) ≤ top

/-- Code that takes a number of slots off the stack and does nothing else. -/
inductive Discards : List Instruction → Nat → Prop
  | nil : Discards [] 0
  | cons {insn : Instruction} {rest : List Instruction} {slots : UInt16} {others : Nat}
      (hflow : insn.flow = .sequential) (heffect : insn.effect = .ok ⟨slots, 0⟩)
      (hrest : Discards rest others) : Discards (insn :: rest) (slots.toNat + others)

theorem StackEffect.net_discarding {slots : UInt16} : net ⟨slots, 0⟩ = -(slots.toNat : Int) := by
  simp [net]

namespace Discards

variable {code first second before after : List Instruction} {n slots others : Nat}

theorem append (h : Discards first slots) (h' : Discards second others) :
    Discards (first ++ second) (slots + others) := by
  induction h with
  | nil => rwa [List.nil_append, Nat.zero_add]
  | cons hflow heffect _ ih =>
    rw [List.cons_append, Nat.add_assoc]
    exact .cons hflow heffect ih

/-- Control goes through code that discards. -/
theorem path (h : Discards code n) (k : Int) :
    Relation.ReflTransGen (FlowStep (before ++ code ++ after)) ⟨before.length, k⟩
      ⟨before.length + code.length, k - n⟩ := by
  induction h generalizing before k with
  | nil => simpa using .refl
  | @cons insn rest slots others hflow heffect _ ih =>
    have hstep : FlowStep (before ++ insn :: rest ++ after) ⟨before.length, k⟩
        ⟨before.length + 1, k - slots.toNat⟩ := by
      refine flowStep_iff.2 ⟨insn, _, by simp, heffect, ?_, .inl ⟨by rw [hflow]; rfl, rfl⟩⟩
      rw [StackEffect.net_discarding, sub_eq_add_neg]
    have hrest := @ih (before ++ [insn]) (k - slots.toNat)
    simp only [List.append_assoc, List.singleton_append, List.length_append,
      List.length_singleton] at hrest
    rw [List.length_cons, Nat.add_comm rest.length, ← Nat.add_assoc, Nat.cast_add, ← sub_sub]
    rw [List.append_assoc] at hstep ⊢
    exact .head hstep hrest

/-- The heights along code that discards, down to what is left, stay below the height before it. -/
theorem exists_linked (h : Discards code n) {result : TypeDescriptor} {top : Int}
    {known : Label → Option Int} {k : Int} (hn : n ≤ k) (hk : k ≤ top) (htop : top ≤ 65535) :
    ∃ B : AnnotatedCode, B.code = code ∧
      Linked wrapped (PermittedBelow result top) known (some k) B (some (k - n)) := by
  induction h generalizing k with
  | nil => exact ⟨[], rfl, .nil (by simp)⟩
  | @cons insn rest slots others hflow heffect _ ih =>
    have hnet : wrapped (k + StackEffect.net ⟨slots, 0⟩) = k - slots.toNat := by
      rw [StackEffect.net_discarding, ← sub_eq_add_neg]
      exact wrapped_of_le (by omega) (by omega)
    obtain ⟨B, hB, hlinked⟩ := @ih (k - slots.toNat) (by omega) (by omega)
    refine ⟨(insn, some k) :: B, by rw [AnnotatedCode.code_cons, hB], ?_⟩
    have hpermitted : Permitted result 0 insn ⟨slots, 0⟩ k :=
      .of_sequential hflow (show (slots.toNat : Int) ≤ _ by omega)
    have hleft : k - (slots.toNat + others : Nat) = k - slots.toNat - others := by omega
    rw [hleft]
    exact hlinked.of_sequential hflow heffect ⟨hpermitted, hk, by omega⟩ hnet

end Discards

/-- Where control comes to code that discards, there is as much on the stack as the code takes. -/
theorem Discards.le_height {code before after : List Instruction} {n : Nat} {m : MethodDecl}
    {k : Int}
    (h : Discards code n) (hcode : m.code = before ++ code ++ after)
    (hm : m.ConsistentOn m.ReachesWrapped) (hp : m.ReachesWrapped ⟨before.length, k⟩) : n ≤ k := by
  have hcounted : 0 ≤ k ∧ k ≤ 65535 := by
    obtain ⟨p, -, hpoint⟩ := hp
    obtain ⟨-, rfl⟩ := Point.mk.inj hpoint
    exact ⟨wrapped_nonneg _, wrapped_le _⟩
  induction h generalizing before k with
  | nil => exact hcounted.1
  | @cons insn rest slots others hflow heffect _ ih =>
    have hinsn : m.code[before.length]? = some insn := by simp [hcode]
    obtain ⟨e, heffect', hpops⟩ := hm.pops_le _ insn hp hinsn
    obtain rfl := Except.ok.inj (heffect.symm.trans heffect')
    dsimp only at hpops
    have hnext := hp.step (.next hinsn heffect (by rw [hflow]; rfl))
    have hafter : wrapped (k + StackEffect.net ⟨slots, 0⟩) = k - slots.toNat := by
      rw [StackEffect.net_discarding, ← sub_eq_add_neg]
      exact wrapped_of_le (by omega) (by omega)
    rw [Point.wrapped, hafter] at hnext
    have hrest := @ih (before ++ [insn]) (k - slots.toNat) (by simp [hcode]) (by simpa using hnext)
      (by omega)
    push_cast
    omega

/-- The instruction that discards a value takes as many slots as the value. -/
theorem TypeDescriptor.effect_discard {t : TypeDescriptor} (h : t ≠ .void) :
    t.discard.effect = .ok ⟨t.slots, 0⟩ := by
  cases t with
  | void => exact absurd rfl h
  | _ => rfl

theorem TypeDescriptor.flow_discard {t : TypeDescriptor} : t.discard.flow = .sequential := by
  unfold discard
  split <;> rfl

/-- The slots that arguments take are counted in 16 bits. -/
theorem toNat_totalSlots {ts : List TypeDescriptor} :
    (totalSlots ts).toNat = (ts.map fun t => t.slots.toNat).sum % 65536 := by
  induction ts with
  | nil => rfl
  | cons t ts ih =>
    rw [totalSlots, UInt16.toNat_add, ih, List.map_cons, List.sum_cons, Nat.add_mod_mod]

theorem Discards.arguments {ts : List TypeDescriptor} (h : ∀ t ∈ ts, t ≠ .void) :
    Discards (ts.map TypeDescriptor.discard) (ts.map fun t => t.slots.toNat).sum := by
  induction ts with
  | nil => exact .nil
  | cons t ts ih =>
    obtain ⟨ht, hts⟩ := List.forall_mem_cons.1 h
    exact .cons TypeDescriptor.flow_discard (TypeDescriptor.effect_discard ht) (ih hts)

namespace MethodRef

variable {call : MethodRef} {d : MethodDescriptor} {n : UInt16}

theorem takes_of_parsed (hd : MethodDescriptor.parsed call.descriptor = .ok d) :
    call.takes =
      (d.arguments.map fun t => t.slots.toNat).sum + if call.isStatic then 0 else 1 := by
  rw [takes, hd]

/-- What is left of a call takes what the call would take, however much that is. -/
theorem discards_takes (hd : MethodDescriptor.parsed call.descriptor = .ok d) :
    Discards call.discards call.takes := by
  have hwell := (MethodDescriptor.text_of_parse (MethodDescriptor.parsed_eq_ok_iff.1 hd)).1
  have hvoid : ∀ t ∈ d.arguments.reverse, t ≠ .void :=
    fun t ht => (hwell.arguments t (List.mem_reverse.1 ht)).1
  have hslots : (d.arguments.map fun t => t.slots.toNat).sum =
      (d.arguments.reverse.map fun t => t.slots.toNat).sum := by
    rw [List.map_reverse, List.sum_reverse]
  rw [takes_of_parsed hd, discards, hd, hslots]
  refine (Discards.arguments hvoid).append ?_
  split
  · exact .nil
  · exact @Discards.cons _ _ 1 _ rfl rfl .nil

/-- A call is said to consume what it takes, counted in 16 bits. -/
theorem toNat_consumed (h : call.consumed = .ok n) : n.toNat = call.takes % 65536 := by
  obtain ⟨d, hd, hn⟩ := bind_eq_ok_iff.1 h
  obtain rfl := Except.ok.inj hn
  rw [takes_of_parsed hd, UInt16.toNat_add, MethodDescriptor.argumentSlots, toNat_totalSlots]
  split <;> simp

end MethodRef

theorem Discards.flow_eq {code : List Instruction} {n : Nat} (h : Discards code n) :
    ∀ insn ∈ code, insn.flow = .sequential := by
  induction h with
  | nil => exact nofun
  | cons hflow _ _ ih => exact List.forall_mem_cons.2 ⟨hflow, ih⟩

namespace MethodRef.IsVoid

variable {call : MethodRef} {e : StackEffect} {l : Label}

theorem flow_discards (h : call.IsVoid) : ∀ insn ∈ call.discards, insn.flow = .sequential := by
  obtain ⟨d, hd, -⟩ := h
  exact (discards_takes hd).flow_eq

/-- What is left of a call places no label. -/
theorem label_not_mem (h : call.IsVoid) : .label l ∉ call.discards :=
  fun hmem => nomatch h.flow_discards _ hmem

/-- What is left of a call does to the stack what the call does, if the slots that the call takes
can be counted in 16 bits. -/
theorem discards_pops (h : call.IsVoid) (hfits : call.takes ≤ 65535)
    (heffect : (Instruction.invoke call).effect = .ok e) :
    Discards call.discards e.pops.toNat ∧ e.net = -(e.pops.toNat : Int) := by
  obtain ⟨d, hd, hvoid⟩ := h
  obtain ⟨hpops, hpushes⟩ := Instruction.effect_invoke heffect
  have hnothing : call.produced = .ok 0 := bind_eq_ok_iff.2 ⟨d, hd, by rw [hvoid]; rfl⟩
  obtain ⟨pops, pushes⟩ := e
  obtain rfl : pushes = 0 := Except.ok.inj (hpushes.symm.trans hnothing)
  refine ⟨?_, StackEffect.net_discarding⟩
  rw [toNat_consumed hpops, Nat.mod_eq_of_lt (Nat.lt_succ_of_le hfits)]
  exact discards_takes hd

end MethodRef.IsVoid

/-! ### Notes without the calls -/

section Notes

variable {calls : MemberPattern} {result : TypeDescriptor} {top : Int}
variable {known : Label → Option Int} {arriving between leaving : Option Int}
variable {A : AnnotatedCode} {insn : Instruction} {note : Option Int}

/-- Notes for what is left of one instruction. -/
theorem Linked.exists_left_singleton
    (h : Linked wrapped (PermittedBelow result top) known arriving [(insn, note)] between)
    (htop : top ≤ 65535)
    (hvoid : ∀ call, insn = .invoke call → calls.acceptsCall call = true → call.IsVoid)
    (hfits : ∀ call k, insn = .invoke call → calls.acceptsCall call = true → note = some k →
      call.takes ≤ 65535) :
    ∃ B : AnnotatedCode, B.code = calls.left insn ∧
      Linked wrapped (PermittedBelow result top) known arriving B between ∧
      (∀ l, B.noteAt? l = AnnotatedCode.noteAt? l [(insn, note)]) ∧
        (calls.selects insn = false → B = [(insn, note)]) := by
  cases hselects : calls.selects insn with
  | false =>
    exact ⟨[(insn, note)], (MemberPattern.left_of_not_selects hselects).symm, h, fun _ => rfl,
      fun _ => rfl⟩
  | true =>
    obtain ⟨call, rfl, haccepts⟩ := MemberPattern.selects_eq_true_iff.1 hselects
    have hvoid := hvoid call rfl haccepts
    -- neither the call nor what is left of it places a label
    have hnotes {B : AnnotatedCode} (hB : B.code = call.discards) (l : Label) :
        B.noteAt? l = AnnotatedCode.noteAt? l [(.invoke call, note)] := by
      have hnone : B.noteAt? l = none := by
        by_contra hplaced
        exact hvoid.label_not_mem (hB ▸ AnnotatedCode.noteAt?_ne_none_iff.1 hplaced)
      rw [hnone]
      rfl
    rw [MemberPattern.left_invoke haccepts]
    suffices hlinked : ∃ B : AnnotatedCode, B.code = call.discards ∧
        Linked wrapped (PermittedBelow result top) known arriving B between by
      obtain ⟨B, hB, hlinked⟩ := hlinked
      exact ⟨B, hB, hlinked, hnotes hB, nofun⟩
    cases h with
    | unreached hrest =>
      exact ⟨_, AnnotatedCode.code_unreached _, .unreached_code _⟩
    | @reached _ _ _ k e _ harriving heffect hcondition _ hrest =>
      obtain ⟨hdiscards, hnet⟩ := hvoid.discards_pops (hfits call k rfl haccepts rfl) heffect
      have hpops : (e.pops.toNat : Int) ≤ k := by simpa using hcondition.permitted.pops_le
      have hbefore := hcondition.before_le
      obtain ⟨B, hB, hlinked⟩ := hdiscards.exists_linked hpops hbefore htop
      have hflow : (Instruction.invoke call).flow.fallsThrough = true := rfl
      rw [if_pos hflow, hnet, ← sub_eq_add_neg, wrapped_of_le (by omega) (by omega)] at hrest
      have hall := hlinked.append hrest
      rw [List.append_nil] at hall
      refine ⟨B, hB, ?_⟩
      -- what arrives at the call, if anything does, has the height noted there
      cases arriving with
      | none => exact hall.arriving_none
      | some k' => exact harriving k' rfl ▸ hall

/-- Notes for the body without the calls. What is left of the body has the notes that it had. -/
theorem Linked.exists_left
    (h : Linked wrapped (PermittedBelow result top) known arriving A leaving)
    (htop : top ≤ 65535)
    (hvoid : ∀ call, .invoke call ∈ A.code → calls.acceptsCall call = true → call.IsVoid)
    (hfits : ∀ call k, (.invoke call, some k) ∈ A → calls.acceptsCall call = true →
      call.takes ≤ 65535) :
    ∃ B : AnnotatedCode, B.code = A.code.flatMap calls.left ∧
      Linked wrapped (PermittedBelow result top) known arriving B leaving ∧
      (∀ l, B.noteAt? l = A.noteAt? l) ∧ ∀ i entry, A[i]? = some entry →
        calls.selects entry.1 = false → B[calls.place A.code i]? = some entry := by
  -- along the body; in the place of an accepted call stand the instructions that discard its
  -- arguments
  induction A generalizing arriving with
  | nil => exact ⟨[], rfl, h, fun _ => rfl, by simp⟩
  | cons first A ih =>
    obtain ⟨between, hfirst, hlater, -⟩ := h.exists_between
    obtain ⟨B, hB, hlinked, hnotes, hkept⟩ := hfirst.exists_left_singleton htop
      (fun call hcall => hvoid call (hcall ▸ List.mem_cons_self))
      fun call k hcall haccepts hk => hfits call k (hcall ▸ hk ▸ List.mem_cons_self) haccepts
    obtain ⟨C, hC, hrest, hnotes', hplaces⟩ :=
      ih hlater (fun call hcall => hvoid call (List.mem_cons_of_mem _ hcall))
        fun call k hcall => hfits call k (List.mem_cons_of_mem _ hcall)
    refine ⟨B ++ C, ?_, hlinked.append hrest, fun l => ?_, ?_⟩
    · rw [AnnotatedCode.code_append, hB, hC]
      rfl
    · rw [AnnotatedCode.noteAt?_append, hnotes, hnotes', ← AnnotatedCode.noteAt?_append]
      rfl
    · rintro (_ | i) entry hentry hother
      · obtain rfl := Option.some.inj hentry
        rw [hkept hother]
        rfl
      · have hlength : (calls.left first.1).length = B.length := by
          rw [← hB, AnnotatedCode.length_code]
        show (B ++ C)[calls.place (first.1 :: AnnotatedCode.code A) (i + 1)]? = _
        rw [MemberPattern.place_cons_succ, hlength,
          List.getElem?_append_right (Nat.le_add_right _ _), Nat.add_sub_cancel_left]
        exact hplaces i entry hentry hother

end Notes

/-! ### Bodies without calls -/

/-- Calls that pass a pattern take no more slots than can be counted in 16 bits, wherever control
comes to them. -/
def MethodDecl.CallsFit (m : MethodDecl) (calls : MemberPattern) : Prop :=
  ∀ p call, m.Reaches p → m.code[p.index]? = some (.invoke call) →
    calls.acceptsCall call = true → call.takes ≤ 65535

/-- A body from which the calls that pass a pattern were removed, none of which gives anything
back. -/
structure MethodDecl.WithoutCalls (m : MethodDecl) (calls : MemberPattern) (edited : MethodDecl) :
    Prop where
  code_eq : edited.code = m.code.flatMap calls.left
  handlers_eq : edited.handlers = m.handlers
  result_eq : edited.result = m.result
  void : ∀ call, .invoke call ∈ m.code → calls.acceptsCall call = true → call.IsVoid

namespace MethodDecl.WithoutCalls

variable {m edited : MethodDecl} {calls : MemberPattern} {r : Heights} {p q : Point}
variable {insn : Instruction} {l : Label} {i : Nat}

/-- A label is placed where its place in the body has gone. -/
theorem labelPosition?_eq (h : m.WithoutCalls calls edited) :
    labelPosition? l edited.code = (labelPosition? l m.code).map (calls.place m.code) := by
  rw [h.code_eq]
  have hvoid := h.void
  generalize m.code = code at hvoid
  induction code with
  | nil => rfl
  | cons insn code ih =>
    -- what is left of an instruction places a label exactly if the instruction did
    have hhere : labelPosition? l (calls.left insn) =
        if insn.placed? = some l then some 0 else none := by
      cases hselects : calls.selects insn with
      | false =>
        rw [MemberPattern.left_of_not_selects hselects, labelPosition?_cons]
        rfl
      | true =>
        obtain ⟨call, rfl, haccepts⟩ := MemberPattern.selects_eq_true_iff.1 hselects
        have hnone : labelPosition? l call.discards = none := by
          rw [Option.eq_none_iff_forall_ne_some]
          exact fun p hp => (hvoid call List.mem_cons_self haccepts).label_not_mem
            (List.mem_of_getElem? (getElem?_of_labelPosition? hp))
        rw [MemberPattern.left_invoke haccepts, hnone]
        rfl
    rw [List.flatMap_cons, labelPosition?_append, hhere, labelPosition?_cons,
      ih fun call hcall => hvoid call (List.mem_cons_of_mem _ hcall)]
    cases labelPosition? l code with
    | some p => simp [MemberPattern.place_cons_succ]
    | none => by_cases hplaced : insn.placed? = some l <;> simp [hplaced]

/-- A step through the body is a path through the body without the calls. -/
theorem path (h : m.WithoutCalls calls edited) (hstep : FlowStep m.code p q)
    (hfits : ∀ call, m.code[p.index]? = some (.invoke call) → calls.acceptsCall call = true →
      call.takes ≤ 65535) :
    Relation.ReflTransGen (FlowStep edited.code) ⟨calls.place m.code p.index, p.height⟩
      ⟨calls.place m.code q.index, q.height⟩ := by
  obtain ⟨insn, e, hinsn, heffect, hheight, hwhere⟩ := flowStep_iff.1 hstep
  cases hselects : calls.selects insn with
  | false =>
    -- what is left of the body takes the same step
    refine .single (flowStep_iff.2 ⟨insn, e, ?_, heffect, hheight, ?_⟩)
    · rw [h.code_eq]
      exact MemberPattern.getElem?_place hinsn hselects
    · rcases hwhere with ⟨hflow, hnext⟩ | ⟨l, hl, hplace⟩
      · refine .inl ⟨hflow, ?_⟩
        dsimp only
        rw [hnext, MemberPattern.place_succ hinsn, MemberPattern.left_of_not_selects hselects]
        rfl
      · refine .inr ⟨l, hl, ?_⟩
        rw [h.labelPosition?_eq, hplace]
        rfl
  | true =>
    -- what a call would have popped is discarded one by one
    obtain ⟨call, rfl, haccepts⟩ := MemberPattern.selects_eq_true_iff.1 hselects
    obtain ⟨hdiscards, hnet⟩ := (h.void call (List.mem_of_getElem? hinsn) haccepts).discards_pops
      (hfits call hinsn haccepts) heffect
    have hnext : q.index = p.index + 1 := by
      rcases hwhere with ⟨-, hnext⟩ | ⟨l, hl, -⟩
      · exact hnext
      · cases hl
    have hafter : q.height = p.height - e.pops.toNat := by rw [hheight, hnet, sub_eq_add_neg]
    obtain ⟨before, after, hbefore, hcode⟩ := @MemberPattern.exists_flatMap_left calls _ _ _ hinsn
    rw [h.code_eq, hcode, hnext, MemberPattern.place_succ hinsn, ← hbefore, hafter,
      MemberPattern.left_invoke haccepts]
    exact hdiscards.path p.height

/-- What was reached is still reached, at its new place, as long as calls that are still reached
take what can be counted. -/
theorem reaches (h : m.WithoutCalls calls edited) (hnonempty : m.code ≠ [] → edited.code ≠ [])
    (hfits : ∀ p call, m.Reaches p → edited.Reaches ⟨calls.place m.code p.index, p.height⟩ →
      m.code[p.index]? = some (.invoke call) → calls.acceptsCall call = true → call.takes ≤ 65535)
    (hp : m.Reaches p) : edited.Reaches ⟨calls.place m.code p.index, p.height⟩ := by
  have hboth : m.Reaches p ∧ edited.Reaches ⟨calls.place m.code p.index, p.height⟩ := by
    refine hp.of_closed (P := fun p => m.Reaches p ∧
      edited.Reaches ⟨calls.place m.code p.index, p.height⟩) ?_ ?_
    · rintro p hentry
      refine ⟨hentry.reaches, ?_⟩
      rcases hentry with hcode | @⟨b, p, hb, hplace⟩
      · exact (Entry.start (hnonempty hcode)).reaches
      · have hplace' : labelPosition? b.handler edited.code = some (calls.place m.code p) := by
          rw [h.labelPosition?_eq, hplace]
          rfl
        exact (Entry.handler (h.handlers_eq ▸ hb) hplace').reaches
    · rintro p q ⟨hp, hplaced⟩ hstep
      obtain ⟨entry, hentry, hbefore⟩ := id hplaced
      exact ⟨hp.step hstep, entry, hentry,
        hbefore.trans (h.path hstep fun call => hfits p call hp hplaced)⟩
  exact hboth.2

/-- The heights of a body are notes for the body without the calls, as far as it is left, and no
height is above the largest one. -/
theorem exists_notes (h : m.WithoutCalls calls edited) (hfits : m.CallsFit calls)
    (hr : m.heights = .ok r) :
    ∃ B : AnnotatedCode, edited.Notes ((m.notes r).heightAt? 0) B ∧
      (∃ r', edited.heights = .ok r') ∧
      Linked wrapped (PermittedBelow m.result r.maxStack.toNat) B.labelHeight?
        ((m.notes r).heightAt? 0) B none ∧
        ∀ i insn, m.code[i]? = some insn → calls.selects insn = false →
          B[calls.place m.code i]? = some (insn, (r.at? i).map fun k => (k.toNat : Int)) := by
  have hsettled := settled_of_heights hr
  have hreached {insn : Instruction} {k : Int} (hmem : (insn, some k) ∈ m.notes r) :
      ∃ i, m.ReachesWrapped ⟨i, k⟩ ∧ m.code[i]? = some insn := by
    obtain ⟨i, hi⟩ := List.getElem?_of_mem hmem
    exact ⟨i, (heightAt?_notes_iff hr).1 (AnnotatedCode.heightAt?_eq_some_iff.2 ⟨insn, hi⟩),
      (getElem?_notes_eq_some_iff.1 hi).1⟩
  -- the notes of the old body stay below its largest height
  have hbelow : Linked wrapped (PermittedBelow m.result r.maxStack.toNat) (m.notes r).labelHeight?
      ((m.notes r).heightAt? 0) (m.notes r) none := by
    refine (linked_notes hr).mono (fun insn e k hmem heffect hpermitted => ?_) fun _ _ _ _ _ => id
    obtain ⟨i, hp, hinsn⟩ := hreached hmem
    obtain ⟨hbefore, hafter⟩ := hsettled.le_maxStack hp hinsn heffect
    exact ⟨hpermitted, hbefore, hafter⟩
  have hcalls : ∀ call k, (.invoke call, some k) ∈ m.notes r → calls.acceptsCall call = true →
      call.takes ≤ 65535 := by
    intro call k hmem haccepts
    obtain ⟨i, ⟨p, hp, hpoint⟩, hinsn⟩ := hreached hmem
    obtain ⟨rfl, -⟩ := Point.mk.inj hpoint
    exact hfits p call hp hinsn haccepts
  have hmax := r.maxStack.toNat_lt
  obtain ⟨B, hB, hlinked, hnotes, hplaces⟩ :=
    hbelow.exists_left (by omega) (code_notes (r := r) ▸ h.void) hcalls
  have hlabels : (m.notes r).labelHeight? = B.labelHeight? := by
    funext l
    rw [AnnotatedCode.labelHeight?, AnnotatedCode.labelHeight?, hnotes]
  rw [hlabels] at hlinked
  rw [code_notes] at hB hplaces
  have hempty : m.code = [] → edited.code = [] := fun hempty => by rw [h.code_eq, hempty]; rfl
  obtain ⟨hall, hheights⟩ := Notes.of_heights hr h.result_eq h.handlers_eq hempty
    (hB.trans h.code_eq.symm)
    (hlinked.mono (fun _ _ _ _ _ hk => hk.permitted) fun _ _ _ _ _ => id) fun l _ => hnotes l
  refine ⟨B, hall, hheights, hlinked, fun i insn hinsn hother => ?_⟩
  exact hplaces i _ (by rw [getElem?_notes, hinsn]; rfl) hother

/-- The largest height is met without the calls as well, and no greater one. -/
theorem isGreatest (h : m.WithoutCalls calls edited) (hfits : m.CallsFit calls)
    (hr : m.heights = .ok r) {B : AnnotatedCode} {arriving : Option Int}
    (hnotes : edited.Notes arriving B)
    (hlinked : Linked wrapped (PermittedBelow m.result r.maxStack.toNat) B.labelHeight? arriving B
      none)
    (hreaches : ∀ p, m.Reaches p → edited.Reaches ⟨calls.place m.code p.index, p.height⟩) :
    IsGreatest (wrapped '' edited.stackHeights) r.maxStack.toNat := by
  have hsettled := settled_of_heights hr
  -- what stands at a point that is reached, and what the notes say of it
  have hat {p : Point} (hp : edited.Reaches p) : ∃ insn e, edited.code[p.index]? = some insn ∧
      insn.effect = .ok e ∧
        PermittedBelow m.result r.maxStack.toNat insn e (wrapped p.height) := by
    obtain ⟨insn, hentry⟩ : ∃ insn, B[p.index]? = some (insn, some (wrapped p.height)) :=
      AnnotatedCode.heightAt?_eq_some_iff.1 (hnotes.heightAt?_of_reaches hp.wrapped)
    obtain ⟨e, heffect, hbelow, -⟩ := hlinked.at_reached hentry
    refine ⟨insn, e, ?_, heffect, hbelow⟩
    rw [← hnotes.code_eq, AnnotatedCode.getElem?_code, hentry]
    rfl
  constructor
  · obtain ⟨k, hk, hmax⟩ := hsettled.isGreatest.1
    rcases hk with rfl | ⟨p, insn, e, hp, hinsn, heffect, hheight⟩
    · exact ⟨0, .inl rfl, hmax⟩
    · have hbefore : p.height ∈ edited.stackHeights := by
        obtain ⟨insn', e', hinsn', heffect', -⟩ := hat (hreaches p hp)
        exact .inr ⟨_, insn', e', hreaches p hp, hinsn', heffect', .inl rfl⟩
      rcases hheight with rfl | rfl
      · exact ⟨_, hbefore, hmax⟩
      · cases hselects : calls.selects insn with
        | false =>
          refine ⟨_, .inr ⟨_, insn, e, hreaches p hp, ?_, heffect, .inr rfl⟩, hmax⟩
          rw [h.code_eq]
          exact MemberPattern.getElem?_place hinsn hselects
        | true =>
          -- the height behind the call is the largest one only if the one before it is as well
          obtain ⟨call, rfl, haccepts⟩ := MemberPattern.selects_eq_true_iff.1 hselects
          obtain ⟨-, hnet⟩ := (h.void call (List.mem_of_getElem? hinsn) haccepts).discards_pops
            (hfits p call hp hinsn haccepts) heffect
          obtain ⟨e', heffect', hpops⟩ :=
            (exists_heights_iff.1 ⟨r, hr⟩).pops_le _ _ hp.wrapped hinsn
          obtain rfl := Except.ok.inj (heffect.symm.trans heffect')
          obtain ⟨hle, -⟩ := hsettled.le_maxStack hp.wrapped hinsn heffect
          have hlt := r.maxStack.toNat_lt
          dsimp only [Point.wrapped] at hpops hle
          have hafter : wrapped (p.height + e.net) = wrapped p.height - e.pops.toNat := by
            rw [← wrapped_wrapped_add, hnet, ← sub_eq_add_neg]
            exact wrapped_of_le (by omega) (by omega)
          exact ⟨_, hbefore, by omega⟩
  · rintro _ ⟨k, rfl | ⟨p, insn, e, hp, hinsn, heffect, hheight⟩, rfl⟩
    · exact Int.natCast_nonneg _
    · obtain ⟨insn', e', hinsn', heffect', hbelow⟩ := hat hp
      obtain rfl := Option.some.inj (hinsn.symm.trans hinsn')
      obtain rfl := Except.ok.inj (heffect.symm.trans heffect')
      rcases hheight with rfl | rfl
      · exact hbelow.before_le
      · exact wrapped_wrapped_add p.height e.net ▸ hbelow.after_le

/-- A body has heights without the calls if it had heights with them. The largest height is the
same, and so are the heights before the instructions that are left. -/
theorem exists_heights (h : m.WithoutCalls calls edited) (hfits : m.CallsFit calls)
    (hr : m.heights = .ok r) :
    ∃ r', edited.heights = .ok r' ∧ r'.maxStack = r.maxStack ∧
      ∀ i insn, m.code[i]? = some insn → calls.selects insn = false →
        edited.code[calls.place m.code i]? = some insn ∧
          r'.at? (calls.place m.code i) = r.at? i := by
  obtain ⟨B, hnotes, ⟨r', hr'⟩, hlinked, hplaces⟩ := h.exists_notes hfits hr
  have hnonempty : m.code ≠ [] → edited.code ≠ [] := by
    intro hcode hempty
    -- what arrives at the beginning of the body is noted at the beginning of what is left
    have hstart : (m.notes r).heightAt? 0 = some 0 :=
      (heightAt?_notes_iff hr).2 (Entry.start hcode).reachesWrapped
    rw [hstart] at hlinked
    rcases hlinked.holds_start with hnote | ⟨-, hnone⟩
    · obtain rfl : B = [] := List.map_eq_nil_iff.1 (hnotes.code_eq.trans hempty)
      cases hnote
    · cases hnone
  have hreaches {p : Point} (hp : m.Reaches p) :
      edited.Reaches ⟨calls.place m.code p.index, p.height⟩ :=
    h.reaches hnonempty (fun p call hp _ => hfits p call hp) hp
  refine ⟨r', hr', ?_, fun i insn hinsn hother => ?_⟩
  · have hgreatest := h.isGreatest hfits hr hnotes hlinked @hreaches
    exact toNat_cast_inj.1 ((settled_of_heights hr').isGreatest.unique hgreatest)
  · have hentry := hplaces i insn hinsn hother
    have hleft : edited.code[calls.place m.code i]? = some insn := by
      rw [← hnotes.code_eq, AnnotatedCode.getElem?_code, hentry]
      rfl
    refine ⟨hleft, Option.ext fun k => ?_⟩
    constructor
    · intro hk
      obtain ⟨k', hk', hsame⟩ := Option.map_eq_some_iff.1 (hnotes.note_eq hr' hk hentry)
      rw [hk', toNat_cast_inj.1 hsame]
    · intro hk
      obtain ⟨p, hp, hpoint⟩ := (at?_eq_some_iff hr).1 hk
      obtain ⟨rfl, hheight⟩ := Point.mk.inj hpoint
      exact (at?_eq_some_iff hr').2 ⟨_, hreaches hp, Point.ext rfl hheight⟩

/-- If the body without the calls has heights, then control came to no call that takes more than can
be counted. -/
theorem callsFit (h : m.WithoutCalls calls edited)
    (hm : edited.ConsistentOn edited.ReachesWrapped) : m.CallsFit calls := by
  by_cases hempty : edited.code = []
  · -- nothing is left of any call, so none takes anything
    intro p call _ hinsn haccepts
    obtain ⟨d, hd, -⟩ := h.void call (List.mem_of_getElem? hinsn) haccepts
    have hdiscards := call.discards_takes hd
    have hnothing : call.discards = [] := by
      rw [h.code_eq, List.flatMap_eq_nil_iff] at hempty
      rw [← MemberPattern.left_invoke haccepts]
      exact hempty _ (List.mem_of_getElem? hinsn)
    rw [hnothing] at hdiscards
    generalize call.takes = n at hdiscards
    cases hdiscards
    exact Nat.zero_le _
  · have hplaced (p : Point) (call : MethodRef)
        (hp : edited.Reaches ⟨calls.place m.code p.index, p.height⟩)
        (hinsn : m.code[p.index]? = some (.invoke call))
        (haccepts : calls.acceptsCall call = true) : call.takes ≤ 65535 := by
      obtain ⟨d, hd, -⟩ := h.void call (List.mem_of_getElem? hinsn) haccepts
      obtain ⟨before, after, hbefore, hcode⟩ := @MemberPattern.exists_flatMap_left calls _ _ _ hinsn
      rw [MemberPattern.left_invoke haccepts, ← h.code_eq] at hcode
      have hle : (call.takes : Int) ≤ wrapped p.height :=
        (call.discards_takes hd).le_height hcode hm (hbefore ▸ hp.wrapped)
      have hmax := wrapped_le p.height
      omega
    intro p call hp hinsn haccepts
    refine hplaced p call (h.reaches (fun _ => hempty) ?_ hp) hinsn haccepts
    exact fun p call _ => hplaced p call

/-- None of the calls is left. -/
theorem selects_eq_false (h : m.WithoutCalls calls edited) (hinsn : insn ∈ edited.code) :
    calls.selects insn = false := by
  rw [h.code_eq] at hinsn
  obtain ⟨first, hfirst, hleft⟩ := List.mem_flatMap.1 hinsn
  cases hselects : calls.selects first with
  | false =>
    rw [MemberPattern.left_of_not_selects hselects, List.mem_singleton] at hleft
    exact hleft ▸ hselects
  | true =>
    obtain ⟨call, rfl, haccepts⟩ := MemberPattern.selects_eq_true_iff.1 hselects
    rw [MemberPattern.left_invoke haccepts] at hleft
    have hflow := (h.void call hfirst haccepts).flow_discards insn hleft
    by_contra hcall
    obtain ⟨call, rfl, -⟩ := MemberPattern.selects_eq_true_iff.1 (by simpa using hcall)
    cases hflow

/-- What the operation leaves. -/
theorem of_apply {site : Site} {done : Applied}
    (hvoid : ∀ call, .invoke call ∈ site.method.code → calls.acceptsCall call = true → call.IsVoid)
    (happly : (Operation.replaceCall calls none).apply site = .ok (edited, done)) :
    site.method.WithoutCalls calls edited := by
  obtain ⟨hedited, -, pieces, offset, hpieces, hcode⟩ := Operation.exists_pieces rfl happly
  have hmap : pieces = site.method.code.map calls.left := by
    -- the pieces are told apart by whether the instruction is an accepted call
    apply List.ext_getElem?
    intro i
    rw [List.getElem?_map]
    cases hinsn : site.method.code[i]? with
    | none =>
      rw [List.getElem?_eq_none_iff] at hinsn
      exact List.getElem?_eq_none_iff.2 (hpieces.length_eq ▸ hinsn)
    | some insn =>
      cases hselects : calls.selects insn with
      | false =>
        rw [Option.map_some, MemberPattern.left_of_not_selects hselects]
        exact (hpieces.kept i insn hinsn hselects).1
      | true =>
        obtain ⟨piece, hpiece, hputs⟩ := hpieces.put i insn hinsn hselects
        generalize offset i = next, offset (i + 1) = last at hputs
        cases hputs with
        | removal hpops =>
          rw [hpiece, discardArguments_eq_ok hpops, Option.map_some, MemberPattern.left_invoke]
          exact hselects
  refine ⟨?_, by rw [hedited], by rw [hedited], hvoid⟩
  rw [hcode, hmap, List.flatMap_def]

end MethodDecl.WithoutCalls

/-! ### The operation -/

/-- Where a removal is accepted, control came to no call that takes more than can be counted. -/
theorem Block.callsFit_of_removal {owner : ClassDecl} {m : MethodDecl} {registration : String}
    {calls : MemberPattern} {r : Heights} (hr : m.heights = .ok r)
    (hvoid : ∀ call, .invoke call ∈ m.code → calls.acceptsCall call = true → call.IsVoid)
    (h : ∃ result, (ofOperations [.replaceCall calls none]).run owner m registration = .ok result) :
    m.CallsFit calls := by
  obtain ⟨⟨final, outcome⟩, hrun⟩ := h
  obtain ⟨edited, hall, hcode, hhandlers, hheights⟩ := run_applyAll hrun
  obtain ⟨⟨edited', done⟩, happly, hrest⟩ := bind_eq_ok_iff.1 hall
  obtain ⟨rfl, -⟩ := Prod.mk.inj (Except.ok.inj hrest)
  have hremoved : m.WithoutCalls calls edited' := .of_apply hvoid happly
  have hresult : final.result = m.result := by
    rcases run_cases hrun with ⟨-, rfl⟩ | ⟨-, hfinal, -⟩
    · rfl
    · rw [hfinal]
  have hfinal : m.WithoutCalls calls final :=
    ⟨hcode.trans hremoved.code_eq, hhandlers.trans hremoved.handlers_eq, hresult, hvoid⟩
  exact hfinal.callsFit (MethodDecl.exists_heights_iff.1 (hheights ⟨r, hr⟩))

/-- Removing calls that give nothing back is accepted if there are any, and if those to which
control comes take no more slots than can be counted. The values that they would have consumed are
discarded, the body still has heights, with the same largest one, and what is left of it is reached
as it was, with the same heights. If there are no calls, the removal is refused, and so it is if
control comes to one that takes more. -/
theorem Block.removal_accepted {owner : ClassDecl} {m : MethodDecl} {registration : String}
    {calls : MemberPattern} {r : Heights} (hr : m.heights = .ok r)
    (hvoid : ∀ call, .invoke call ∈ m.code → calls.acceptsCall call = true → call.IsVoid) :
    ((∃ insn ∈ m.code, calls.selects insn = true) → m.CallsFit calls → ∃ final outcome r',
      (ofOperations [.replaceCall calls none]).run owner m registration = .ok (final, outcome) ∧
        outcome.changed = true ∧ final.code = m.code.flatMap calls.left ∧
          final.heights = .ok r' ∧ r'.maxStack = r.maxStack ∧ final.maxStack = r.maxStack ∧
            ∀ i insn, m.code[i]? = some insn → calls.selects insn = false →
              final.code[calls.place m.code i]? = some insn ∧
                r'.at? (calls.place m.code i) = r.at? i) ∧
      ((∀ insn ∈ m.code, calls.selects insn = false) →
        (ofOperations [.replaceCall calls none]).run owner m registration =
          .error (.notFound registration ("call (" ++ calls.text ++ ")"))) ∧
        (¬ m.CallsFit calls →
          ¬ ∃ result, (ofOperations [.replaceCall calls none]).run owner m registration =
            .ok result) := by
  refine ⟨?_, ?_, fun hwide hrun => hwide (callsFit_of_removal hr hvoid hrun)⟩
  · intro hsome hfits
    have hputs : ∀ insn ∈ m.code, calls.selects insn = true → ∃ next last piece,
        (Operation.replaceCall calls none).Puts ⟨owner, m, registration⟩ insn next last piece := by
      intro insn hinsn hselects
      obtain ⟨call, rfl, haccepts⟩ := MemberPattern.selects_eq_true_iff.1 hselects
      obtain ⟨d, hd, -⟩ := hvoid call hinsn haccepts
      exact ⟨0, 0, _, .removal (bind_eq_ok_iff.2 ⟨d, hd, rfl⟩)⟩
    obtain ⟨⟨edited, done⟩, happly⟩ := (@Operation.exists_apply_iff (.replaceCall calls none)
      ⟨owner, m, registration⟩ rfl).2 ⟨hsome, hputs⟩
    have hremoved : m.WithoutCalls calls edited := .of_apply hvoid happly
    obtain ⟨r', hr', hmax, hplaces⟩ := hremoved.exists_heights hfits hr
    obtain ⟨final, outcome, hrun, hcode, hheights⟩ := exists_run happly hr'
    refine ⟨final, outcome, r', hrun, ?_⟩
    rw [hcode]
    rcases run_cases hrun with ⟨-, rfl⟩ | ⟨hchanged, -, hfits⟩
    · -- the calls are gone, so the body has changed
      obtain ⟨insn, hinsn, hselects⟩ := hsome
      rw [hremoved.selects_eq_false (hcode ▸ hinsn)] at hselects
      cases hselects
    · obtain ⟨r'', hr'', hlimit⟩ := (hfits ⟨r, hr⟩).stack
      obtain rfl := Except.ok.inj (hheights.symm.trans hr'')
      exact ⟨hchanged, hremoved.code_eq, hheights, hmax, hlimit.trans hmax, hplaces⟩
  · intro hnone
    have happly : (Operation.replaceCall calls none).apply ⟨owner, m, registration⟩ = _ :=
      Operation.apply_of_selects_nothing rfl hnone
    have hall : applyAll owner registration [.replaceCall calls none] m =
        .error (.notFound registration ("call (" ++ calls.text ++ ")")) := by
      rw [applyAll, happly]
      rfl
    show (applyAll owner registration [.replaceCall calls none] m >>= _) = _
    rw [hall]
    rfl

/-- A loop with two calls next to each other. The first one takes a receiver and values of both
widths, and what is left of the second one is nothing. -/
theorem Block.removal_accepted_of_loop :
    let m : MethodDecl := ⟨"f", "()V", ⟨8⟩, [], .void, [.label ⟨0⟩, .simple Opcode.aconstNull,
      .simple Opcode.lconst0, .simple Opcode.iconst0, .invokeVirtual "a" "g" "(JI)V",
      .invokeStatic "a" "g" "()V", .simple Opcode.iconst0, .jump Opcode.ifeq ⟨0⟩,
      .simple Opcode.vreturn], [], 4, 0⟩
    let owner : ClassDecl := ⟨"a", none, [], .none, [], [m], []⟩
    let calls : MemberPattern := Pattern.empty.add (.named "g")
    let r : Heights := ⟨4, [some 0, some 0, some 1, some 3, some 4, some 0, some 0, some 1, some 0]⟩
    m.heights = .ok r ∧
      (∀ call, .invoke call ∈ m.code → calls.acceptsCall call = true → call.IsVoid) ∧
        (∃ insn ∈ m.code, calls.selects insn = true) ∧ m.CallsFit calls ∧ ∃ final outcome,
          (ofOperations [.replaceCall calls none]).run owner m "r" = .ok (final, outcome) ∧
            final.code = [.label ⟨0⟩, .simple Opcode.aconstNull, .simple Opcode.lconst0,
              .simple Opcode.iconst0, .simple Opcode.pop, .simple Opcode.pop2, .simple Opcode.pop,
              .simple Opcode.iconst0, .jump Opcode.ifeq ⟨0⟩, .simple Opcode.vreturn] ∧
              final.maxStack = 4 := by
  intro m owner calls r
  have hr : m.heights = .ok r := m.heights_of_runWithin 11 rfl (by decide +kernel)
  have hcases {call : MethodRef} (hcall : .invoke call ∈ m.code) :
      call = .of Opcode.invokevirtual "a" "g" "(JI)V" ∨
        call = .of Opcode.invokestatic "a" "g" "()V" := by
    simpa [m, Instruction.invokeVirtual, Instruction.invokeStatic] using hcall
  have hvoid : ∀ call, .invoke call ∈ m.code → calls.acceptsCall call = true → call.IsVoid := by
    intro call hcall _
    rcases hcases hcall with rfl | rfl
    · exact ⟨⟨[.long, .int], .void⟩, by cbv, rfl⟩
    · exact ⟨⟨[], .void⟩, by cbv, rfl⟩
  have hfits : m.CallsFit calls := by
    intro p call _ hinsn _
    rcases hcases (List.mem_of_getElem? hinsn) with rfl | rfl
    · have htakes : (MethodRef.of Opcode.invokevirtual "a" "g" "(JI)V").takes = 4 := by cbv
      omega
    · have htakes : (MethodRef.of Opcode.invokestatic "a" "g" "()V").takes = 0 := by cbv
      omega
  have hsome : ∃ insn ∈ m.code, calls.selects insn = true :=
    ⟨.invokeStatic "a" "g" "()V", by simp [m], by cbv⟩
  obtain ⟨final, outcome, r', hrun, -, hcode, -, -, hmax, -⟩ :=
    (removal_accepted hr hvoid).1 hsome hfits
  refine ⟨hr, hvoid, hsome, hfits, final, outcome, hrun, hcode.trans ?_, hmax⟩
  cbv

/-! ### Calls that take too much -/

section LongArguments

/-- A descriptor of a call that takes numbers of type `long` and gives nothing back. -/
def longArguments (n : Nat) : MethodDescriptor := ⟨List.replicate n .long, .void⟩

theorem parsed_longArguments (n : Nat) :
    MethodDescriptor.parsed (longArguments n).text = .ok (longArguments n) := by
  refine MethodDescriptor.parsed_eq_ok_iff.2
    (MethodDescriptor.parse_text ⟨fun t ht => ?_, trivial⟩)
  obtain rfl := List.eq_of_mem_replicate ht
  exact ⟨by decide, trivial⟩

theorem sum_slots_longArguments (n : Nat) :
    ((longArguments n).arguments.map fun t => t.slots.toNat).sum = n * 2 := by
  simp [longArguments, TypeDescriptor.slots]

/-- The slots of 32768 such numbers are counted as none. -/
theorem effect_longArguments :
    (Instruction.invokeStatic "b/B" "g" (longArguments 32768).text).effect = .ok ⟨0, 0⟩ := by
  have hparsed := parsed_longArguments 32768
  have hnothing : (longArguments 32768).argumentSlots = 0 := by
    rw [← UInt16.toNat_inj, MethodDescriptor.argumentSlots, toNat_totalSlots,
      sum_slots_longArguments]
    rfl
  have hconsumed : (MethodRef.of Opcode.invokestatic "b/B" "g"
      (longArguments 32768).text).consumed = .ok 0 :=
    bind_eq_ok_iff.2 ⟨_, hparsed, by rw [hnothing]; rfl⟩
  have hproduced : (MethodRef.of Opcode.invokestatic "b/B" "g"
      (longArguments 32768).text).produced = .ok 0 :=
    bind_eq_ok_iff.2 ⟨_, hparsed, rfl⟩
  exact bind_eq_ok_iff.2 ⟨0, hconsumed, bind_eq_ok_iff.2 ⟨0, hproduced, rfl⟩⟩

/-- A method with one call has heights, if the call leaves the stack as it is or is said to. -/
theorem exists_heights_call {descriptor : String} {m : MethodDecl}
    (heffect : (Instruction.invokeStatic "b/B" "g" descriptor).effect = .ok ⟨0, 0⟩)
    (hresult : m.result = .void) (hhandlers : m.handlers = [])
    (hcode : m.code = [.invokeStatic "b/B" "g" descriptor, .simple Opcode.vreturn]) :
    ∃ r, m.heights = .ok r := by
  have hlinked (known : Label → Option Int) : Linked wrapped (Permitted m.result 0) known (some 0)
      [(.invokeStatic "b/B" "g" descriptor, some 0), (.simple Opcode.vreturn, some 0)] none := by
    have hflow : (Instruction.invokeStatic "b/B" "g" descriptor).flow = .call := rfl
    refine .reached (fun _ hk => (Option.some.inj hk).symm) heffect
      ⟨le_rfl, by rw [hflow]; decide, fun hexit => absurd (hflow.symm.trans hexit) (by decide)⟩
      (List.forall_mem_nil _) ?_
    refine .reached (fun _ hk => (Option.some.inj hk).symm) rfl
      ⟨le_rfl, by decide, fun _ => by rw [hresult]; rfl⟩ (List.forall_mem_nil _) ?_
    exact .nil fun k hk => absurd hk.symm (Option.some_ne_none k)
  have hnone (b : ExceptionHandler) : b ∉ m.handlers := hhandlers ▸ List.not_mem_nil
  exact MethodDecl.Notes.exists_heights
    (.of_linked (by rw [hcode]; rfl) (hlinked _) (fun _ => rfl) fun b hb => absurd hb (hnone b))
    fun b hb => absurd hb (hnone b)

end LongArguments

/-- Where no call passes the pattern, nothing is accepted, although nothing would have to be done. A
call with 32768 arguments of type `long` is said to consume nothing, so control comes through it,
but what is left of it finds nothing to discard. -/
theorem Block.removal_refused_of_no_or_wide_call :
    let wide : MethodDescriptor := ⟨List.replicate 32768 .long, .void⟩
    let m : MethodDecl := ⟨"f", "()V", ⟨9⟩, [], .void,
      [.invokeStatic "b/B" "g" "()V", .simple Opcode.vreturn], [], 0, 0⟩
    let m' : MethodDecl := { m with
      code := [.invokeStatic "b/B" "g" wide.text, .simple Opcode.vreturn] }
    let owner : ClassDecl := ⟨"a/A", none, [], .none, [], [m, m'], []⟩
    let calls (name : String) : MemberPattern := Pattern.empty.add (.named name)
    (∃ r, m.heights = .ok r) ∧
      (∀ call, .invoke call ∈ m.code → (calls "h").acceptsCall call = true → call.IsVoid) ∧
        (¬ ∃ result,
          (ofOperations [.replaceCall (calls "h") none]).run owner m "r" = .ok result) ∧
      (∃ r, m'.heights = .ok r) ∧
        (∀ call, .invoke call ∈ m'.code → (calls "g").acceptsCall call = true → call.IsVoid) ∧
          ¬ ∃ result,
            (ofOperations [.replaceCall (calls "g") none]).run owner m' "r" = .ok result := by
  intro wide m m' owner calls
  have hparsed : MethodDescriptor.parsed wide.text = .ok wide := parsed_longArguments 32768
  have hslots : (wide.arguments.map fun t => t.slots.toNat).sum = 65536 :=
    sum_slots_longArguments 32768
  have hcall {descriptor : String} {call : MethodRef}
      (h : Instruction.invoke call ∈
        [Instruction.invokeStatic "b/B" "g" descriptor, .simple Opcode.vreturn]) :
      call = .of Opcode.invokestatic "b/B" "g" descriptor := by
    simpa [Instruction.invokeStatic] using h
  have hheights : ∃ r, m'.heights = .ok r := exists_heights_call effect_longArguments rfl rfl rfl
  refine ⟨exists_heights_call (by cbv) rfl rfl rfl,
    fun call h haccepts => ?_, ?_, hheights, fun call h _ => ?_, ?_⟩
  · obtain rfl := hcall h
    cases haccepts
  · rintro ⟨result, hrun⟩
    have hrefused : (ofOperations [.replaceCall (calls "h") none]).run owner m "r" =
        .error (.notFound "r" "call (named h)") := by cbv
    rw [hrefused] at hrun
    cases hrun
  · obtain rfl := hcall h
    exact ⟨wide, hparsed, rfl⟩
  · intro hrun
    obtain ⟨r, hr⟩ := hheights
    have hfits : m'.CallsFit (calls "g") := by
      refine callsFit_of_removal hr (fun call h _ => ?_) hrun
      obtain rfl := hcall h
      exact ⟨wide, hparsed, rfl⟩
    have haccepts (descriptor : String) :
        (calls "g").acceptsCall (.of Opcode.invokestatic "b/B" "g" descriptor) = true := by cbv
    have htakes :=
      @MethodRef.takes_of_parsed (.of Opcode.invokestatic "b/B" "g" wide.text) _ hparsed
    rw [hslots] at htakes
    have hle := hfits ⟨0, 0⟩ _ (MethodDecl.Entry.reaches (.start (List.cons_ne_nil _ _))) rfl
      (haccepts wide.text)
    omega

end ClassEdit
