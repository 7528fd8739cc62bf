import ClassEdit.Proofs.Advice
import ClassEdit.Proofs.Loading
import ClassEdit.Tweak.Texts

/-!
# Bodies whose frame rate is scaled

Where the frame rate is spoofed, a few instructions stand behind the calls that ask for it, which
multiply the result by a number. A body and the same body with these instructions in some places
cannot be told apart by what edits look at: they load the same strings, refer to the same members
and mention the same labels. Without the scaling a body has heights if it has them with it, and the
other way round if there is a slot left for the number.

## Main definitions

* `frameRateCalls`, `scaling`: the calls that ask for the frame rate, and the instructions.
* `Scaled`: code, and the same code with the scaling behind some calls.
* `MethodDecl.Scaled`: methods whose bodies are related like this.
* `MethodDecl.RoomToScale`: methods in which there is room for the scaling.

## Main results

* `Scaled.filterMap_eq`: what both bodies show alike.
* `MethodDecl.Scaled.heights_iff`: both methods have heights or none has.
-/

namespace ClassEdit

/-- The calls that ask for the frame rate. -/
def frameRateCalls : MemberPattern := ⟨[.named "bridge$getDebugFPS"]⟩

/-- The instructions that multiply an integer by a single precision number. -/
def scaling (multiplier : UInt32) : List Instruction :=
  [.simple Opcode.i2f, .load (.float multiplier), .simple Opcode.fmul, .simple Opcode.f2i]

/-- Code, and the same code with the scaling behind some of the calls that ask for the frame rate
and get a result. -/
inductive Scaled (multiplier : UInt32) : List Instruction → List Instruction → Prop
  | nil : Scaled multiplier [] []
  | keep {code code' : List Instruction} (insn : Instruction) (h : Scaled multiplier code code') :
      Scaled multiplier (insn :: code) (insn :: code')
  | scale {code code' : List Instruction} {call : MethodRef} {n : UInt16}
      (hcall : frameRateCalls.acceptsCall call = true) (hproduced : call.produced = .ok n)
      (hpos : 0 < n) (h : Scaled multiplier code code') :
      Scaled multiplier (.invoke call :: code) (.invoke call :: (scaling multiplier ++ code'))

/-- Methods that differ at most in scaling the frame rate, and in the limits they declare. -/
structure MethodDecl.Scaled (multiplier : UInt32) (m m' : MethodDecl) : Prop where
  name_eq : m'.name = m.name
  descriptor_eq : m'.descriptor = m.descriptor
  access_eq : m'.access = m.access
  arguments_eq : m'.arguments = m.arguments
  result_eq : m'.result = m.result
  handlers_eq : m'.handlers = m.handlers
  code : ClassEdit.Scaled multiplier m.code m'.code

/-! ### The scaling by itself -/

section Scaling

variable {w : UInt32}

/-- The instructions of a float: no more than a load. -/
theorem Instruction.load_float_cases (w : UInt32) :
    (∃ opcode, opcode ∈ [Opcode.fconst0, Opcode.fconst1, Opcode.fconst2] ∧
      Instruction.load (.float w) = .simple opcode) ∨
        Instruction.load (.float w) = .ldc (.float w) := by
  unfold Instruction.load
  dsimp only
  split
  · exact .inl ⟨_, by simp, rfl⟩
  · split
    · exact .inl ⟨_, by simp, rfl⟩
    · split
      · exact .inl ⟨_, by simp, rfl⟩
      · exact .inr rfl

/-- What holds of the scaling, if it holds of the operations in it and of loads from the pool. -/
theorem forall_mem_scaling {P : Instruction → Prop}
    (hsimple : ∀ opcode ∈ [Opcode.i2f, Opcode.fmul, Opcode.f2i, Opcode.fconst0, Opcode.fconst1,
      Opcode.fconst2], P (.simple opcode))
    (hpool : P (.ldc (.float w))) : ∀ insn ∈ scaling w, P insn := by
  intro insn hinsn
  simp only [scaling, List.mem_cons, List.not_mem_nil, or_false] at hinsn
  rcases hinsn with rfl | rfl | rfl | rfl
  · exact hsimple _ (by simp)
  · rcases Instruction.load_float_cases w with ⟨opcode, hopcode, hload⟩ | hload
    · rw [hload]
      exact hsimple opcode (by simp only [List.mem_cons] at hopcode ⊢; tauto)
    · rw [hload]
      exact hpool
  · exact hsimple _ (by simp)
  · exact hsimple _ (by simp)

theorem string?_of_mem_scaling : ∀ insn ∈ scaling w, insn.string? = none :=
  forall_mem_scaling (fun _ _ => rfl) rfl

theorem call?_of_mem_scaling : ∀ insn ∈ scaling w, insn.call? = none :=
  forall_mem_scaling (fun _ _ => rfl) rfl

theorem field?_of_mem_scaling : ∀ insn ∈ scaling w, insn.field? = none :=
  forall_mem_scaling (fun _ _ => rfl) rfl

theorem labels_of_mem_scaling : ∀ insn ∈ scaling w, insn.labels = [] :=
  forall_mem_scaling (fun _ _ => rfl) rfl

theorem isReturn_of_mem_scaling : ∀ insn ∈ scaling w, insn.isReturn = false :=
  forall_mem_scaling (by decide) rfl

/-- The only constant in the scaling is in single precision. -/
theorem constant?_of_mem_scaling {c : Constant} (hc : c.kind ≠ .float) :
    ∀ insn ∈ scaling w, insn.constant? ≠ some c := by
  refine forall_mem_scaling (fun opcode hopcode h => ?_) fun h => ?_
  · simp only [List.mem_cons, List.not_mem_nil, or_false] at hopcode
    rcases hopcode with rfl | rfl | rfl | rfl | rfl | rfl <;> cases h <;> exact hc rfl
  · cases h
    exact hc rfl

theorem replacingConstant_of_mem_scaling {source target : Constant}
    (hsource : source.kind ≠ .float) :
    ∀ insn ∈ scaling w, insn.replacingConstant source target = insn := by
  intro insn hinsn
  rw [Instruction.replacingConstant, if_neg (constant?_of_mem_scaling hsource insn hinsn)]

theorem replacingString_of_mem_scaling {source target : String} :
    ∀ insn ∈ scaling w, insn.replacingString source target = insn :=
  forall_mem_scaling (fun _ _ => rfl) rfl

/-- However a float is loaded, the load goes on with one slot more. -/
theorem sequential_load_float : (Instruction.load (.float w)).flow = .sequential ∧
    (Instruction.load (.float w)).effect = .ok ⟨0, 1⟩ := by
  have hload := Instruction.constant?_load (.float w)
  exact ⟨Instruction.flow_of_constant? hload, Instruction.effect_of_constant? hload⟩

end Scaling

/-! ### What both bodies show -/

namespace Scaled

variable {w : UInt32} {code code' : List Instruction}

theorem refl (code : List Instruction) : Scaled w code code := by
  induction code with
  | nil => exact .nil
  | cons insn code ih => exact .keep insn ih

/-- What is not in the scaling is the same in both bodies. -/
theorem filterMap_eq {α : Type} {f : Instruction → Option α} (h : Scaled w code code')
    (hf : ∀ insn ∈ scaling w, f insn = none) : code'.filterMap f = code.filterMap f := by
  induction h with
  | nil => rfl
  | keep insn _ ih => rw [List.filterMap_cons, List.filterMap_cons, ih]
  | scale _ _ _ _ ih =>
    rw [List.filterMap_cons, List.filterMap_cons, List.filterMap_append,
      List.filterMap_eq_nil_iff.2 hf, List.nil_append, ih]

theorem flatMap_labels_eq (h : Scaled w code code') :
    code'.flatMap Instruction.labels = code.flatMap Instruction.labels := by
  induction h with
  | nil => rfl
  | keep insn _ ih => rw [List.flatMap_cons, List.flatMap_cons, ih]
  | scale _ _ _ _ ih =>
    rw [List.flatMap_cons, List.flatMap_cons, List.flatMap_append,
      List.flatMap_eq_nil_iff.2 labels_of_mem_scaling, List.nil_append, ih]

theorem freshLabel_eq (h : Scaled w code code') : freshLabel code' = freshLabel code := by
  rw [freshLabel, freshLabel, h.flatMap_labels_eq]

theorem eq_nil_iff (h : Scaled w code code') : code' = [] ↔ code = [] := by
  cases h <;> simp

/-- A condition that the scaling does not meet is met in both bodies or in none. -/
theorem any_eq {p : Instruction → Bool} (h : Scaled w code code')
    (hp : ∀ insn ∈ scaling w, p insn = false) : code'.any p = code.any p := by
  induction h with
  | nil => rfl
  | keep insn _ ih => rw [List.any_cons, List.any_cons, ih]
  | scale _ _ _ _ ih =>
    have hnone : (scaling w).any p = false := by simpa using hp
    rw [List.any_cons, List.any_cons, List.any_append, hnone, Bool.false_or, ih]

/-- Instructions may be exchanged where they stand, if calls and the scaling stay as they are. -/
theorem map {change : Instruction → Instruction} (h : Scaled w code code')
    (hcall : ∀ call, change (.invoke call) = .invoke call)
    (hscaling : ∀ insn ∈ scaling w, change insn = insn) :
    Scaled w (code.map change) (code'.map change) := by
  induction h with
  | nil => exact .nil
  | keep insn _ ih => exact .keep (change insn) ih
  | scale hname hproduced hpos _ ih =>
    rw [List.map_cons, List.map_cons, List.map_append, hcall, List.map_congr_left hscaling,
      List.map_id']
    exact .scale hname hproduced hpos ih

end Scaled

/-! ### Heights -/

section Heights

variable {w : UInt32} {code code' : List Instruction} {result : TypeDescriptor}
variable {known : Label → Option Int} {arriving leaving : Option Int} {A rest : AnnotatedCode}
variable {insn : Instruction} {e : StackEffect} {k k' : Int}

/-- What follows an instruction that only goes on is linked from what the instruction leaves. -/
theorem Linked.behind_sequential {note : Option Int} (hflow : insn.flow = .sequential)
    (heffect : insn.effect = .ok e)
    (h : Linked wrapped (Permitted result 0) known arriving ((insn, note) :: rest) leaving) :
    Linked wrapped (Permitted result 0) known (arriving.map fun k => wrapped (k + e.net)) rest
      leaving := by
  cases h with
  | unreached hrest => exact hrest
  | reached harriving heffect' _ _ hrest =>
    obtain rfl := Except.ok.inj (heffect.symm.trans heffect')
    rw [hflow] at hrest
    cases arriving with
    | none => exact hrest.arriving_none
    | some k =>
      obtain rfl := harriving k rfl
      exact hrest

/-- The scaling can be put where there is something to scale, and room for the factor. -/
theorem Linked.scaling_before (hk : ∀ k, arriving = some k → 0 < k ∧ k < 65535)
    (hrest : Linked wrapped (Permitted result 0) known arriving rest leaving) :
    ∃ B : AnnotatedCode, B.code = scaling w ∧
      Linked wrapped (Permitted result 0) known arriving (B ++ rest) leaving := by
  cases arriving with
  | none =>
    exact ⟨_, AnnotatedCode.code_unreached _, (Linked.unreached_code _).append hrest⟩
  | some k =>
    obtain ⟨hpos, hroom⟩ := hk k rfl
    have hinteger : wrapped (k + StackEffect.net ⟨1, 1⟩) = k := by
      show wrapped (k + 0) = k
      rw [add_zero]
      exact wrapped_of_le hpos.le hroom.le
    have hfactor : wrapped (k + StackEffect.net ⟨0, 1⟩) = k + 1 := by
      show wrapped (k + 1) = k + 1
      exact wrapped_of_le (by omega) (by omega)
    have hproduct : wrapped (k + 1 + StackEffect.net ⟨2, 1⟩) = k := by
      show wrapped (k + 1 + -1) = k
      rw [add_neg_cancel_right]
      exact wrapped_of_le hpos.le hroom.le
    -- the factor stands above the integer until the two are multiplied
    refine ⟨[(.simple Opcode.i2f, some k), (.load (.float w), some k),
      (.simple Opcode.fmul, some (k + 1)), (.simple Opcode.f2i, some k)], rfl, ?_⟩
    obtain ⟨hflow, heffect⟩ := @sequential_load_float w
    have hf2i := hrest.of_sequential
      (show (Instruction.simple Opcode.f2i).flow = .sequential from rfl) rfl
      (.of_sequential rfl (show (1 : Int) ≤ (0 : Nat) + k by omega)) hinteger
    have hfmul := hf2i.of_sequential
      (show (Instruction.simple Opcode.fmul).flow = .sequential from rfl) rfl
      (.of_sequential rfl (show (2 : Int) ≤ (0 : Nat) + (k + 1) by omega)) hproduct
    have hfloat := hfmul.of_sequential hflow heffect
      (.of_sequential hflow (show (0 : Int) ≤ (0 : Nat) + k by omega)) hfactor
    exact hfloat.of_sequential rfl rfl
      (.of_sequential rfl (show (1 : Int) ≤ (0 : Nat) + k by omega)) hinteger

/-- The scaling can be taken away. -/
theorem Linked.behind_scaling {B : AnnotatedCode} (hB : B.code = scaling w)
    (hk : ∀ k, arriving = some k → wrapped k = k)
    (h : Linked wrapped (Permitted result 0) known arriving (B ++ rest) leaving) :
    Linked wrapped (Permitted result 0) known arriving rest leaving := by
  obtain ⟨⟨_, _⟩, _, rfl, rfl, hfloat⟩ := List.map_eq_cons_iff.1 hB
  obtain ⟨⟨_, _⟩, _, rfl, rfl, hfmul⟩ := List.map_eq_cons_iff.1 hfloat
  obtain ⟨⟨_, _⟩, _, rfl, rfl, hf2i⟩ := List.map_eq_cons_iff.1 hfmul
  obtain ⟨⟨_, _⟩, _, rfl, rfl, hnone⟩ := List.map_eq_cons_iff.1 hf2i
  obtain rfl := List.map_eq_nil_iff.1 hnone
  have hi2f := h.behind_sequential (e := ⟨1, 1⟩) rfl rfl
  have hfloat := hi2f.behind_sequential sequential_load_float.1 sequential_load_float.2
  have hfmul := hfloat.behind_sequential (e := ⟨2, 1⟩) rfl rfl
  have hf2i := hfmul.behind_sequential (e := ⟨1, 1⟩) rfl rfl
  cases arriving with
  | none => exact hf2i
  | some k =>
    -- four instructions that change the height by nothing altogether
    have hnet : k + StackEffect.net ⟨1, 1⟩ + StackEffect.net ⟨0, 1⟩ + StackEffect.net ⟨2, 1⟩ +
        StackEffect.net ⟨1, 1⟩ = k := by
      simp [StackEffect.net]
    simp only [Option.map_some, wrapped_wrapped_add, hnet, hk k rfl] at hf2i
    exact hf2i

theorem AnnotatedCode.noteAt?_scaling {B : AnnotatedCode} (hB : B.code = scaling w) (l : Label) :
    B.noteAt? l = none := by
  by_contra hnote
  have hmem := AnnotatedCode.noteAt?_ne_none_iff.1 hnote
  rw [hB] at hmem
  have hlabels := labels_of_mem_scaling _ hmem
  cases hlabels

/-- There is room for the scaling behind a call: as it is counted, the call leaves a slot to work
on, and there is a free one for the factor. -/
def RoomBehind (insn : Instruction) (e : StackEffect) (k : Int) : Prop :=
  ∀ call, insn = .invoke call → frameRateCalls.acceptsCall call = true →
    0 < wrapped (k + e.net) ∧ wrapped (k + e.net) < 65535

/-- Linked notes for code give linked notes for the code with the scaling in it, where there is room
for it. -/
theorem Scaled.exists_linked (h : Scaled w code code') (hA : A.code = code)
    (hlinked : Linked wrapped (Permitted result 0) known arriving A leaving)
    (hroom : ∀ insn e k, (insn, some k) ∈ A → insn.effect = .ok e → RoomBehind insn e k) :
    ∃ A' : AnnotatedCode, A'.code = code' ∧ (∀ l, A'.noteAt? l = A.noteAt? l) ∧
      Linked wrapped (Permitted result 0) known arriving A' leaving := by
  induction h generalizing A arriving with
  | nil => exact ⟨A, hA, fun _ => rfl, hlinked⟩
  | keep insn _ ih =>
    obtain ⟨⟨insn, note⟩, A, rfl, rfl, hrest⟩ := List.map_eq_cons_iff.1 hA
    obtain ⟨between, hfirst, hlater, -⟩ := hlinked.exists_between
    obtain ⟨A', hA', hnotes, hlinked'⟩ :=
      ih hrest hlater fun insn e k hmem => hroom insn e k (List.mem_cons_of_mem _ hmem)
    refine ⟨(insn, note) :: A', by rw [AnnotatedCode.code_cons, hA'], fun l => ?_,
      hfirst.append hlinked'⟩
    rw [AnnotatedCode.noteAt?, AnnotatedCode.noteAt?, hnotes]
  | @scale _ _ call _ hcall _ _ _ ih =>
    obtain ⟨⟨insn, note⟩, A, rfl, rfl, hrest⟩ := List.map_eq_cons_iff.1 hA
    obtain ⟨between, hfirst, hlater, hbetween⟩ := hlinked.exists_between
    obtain ⟨A', hA', hnotes, hlinked'⟩ :=
      ih hrest hlater fun insn e k hmem => hroom insn e k (List.mem_cons_of_mem _ hmem)
    have hleft : ∀ k, between = some k → 0 < k ∧ k < 65535 := by
      intro k hk
      obtain ⟨h, e, hnote, heffect, -, rfl⟩ := hbetween k hk
      dsimp only at hnote
      exact hroom _ e h (hnote ▸ List.mem_cons_self) heffect call rfl hcall
    obtain ⟨B, hB, hscaled⟩ := hlinked'.scaling_before (w := w) hleft
    refine ⟨(.invoke call, note) :: (B ++ A'), ?_, fun l => ?_, hfirst.append hscaled⟩
    · rw [AnnotatedCode.code_cons, AnnotatedCode.code_append, hB, hA']
    · rw [AnnotatedCode.noteAt?, AnnotatedCode.noteAt?, AnnotatedCode.noteAt?_append,
        AnnotatedCode.noteAt?_scaling hB, Option.or_none, hnotes]

/-- Linked notes for the code with the scaling in it give linked notes for the code. -/
theorem Scaled.exists_linked_without {A' : AnnotatedCode} (h : Scaled w code code')
    (hA' : A'.code = code')
    (hlinked : Linked wrapped (Permitted result 0) known arriving A' leaving) :
    ∃ A : AnnotatedCode, A.code = code ∧ (∀ l, A.noteAt? l = A'.noteAt? l) ∧
      Linked wrapped (Permitted result 0) known arriving A leaving := by
  induction h generalizing A' arriving with
  | nil => exact ⟨A', hA', fun _ => rfl, hlinked⟩
  | keep insn _ ih =>
    obtain ⟨⟨insn, note⟩, A', rfl, rfl, hrest⟩ := List.map_eq_cons_iff.1 hA'
    obtain ⟨between, hfirst, hlater, -⟩ := hlinked.exists_between
    obtain ⟨A, hA, hnotes, hlinked'⟩ := ih hrest hlater
    refine ⟨(insn, note) :: A, by rw [AnnotatedCode.code_cons, hA], fun l => ?_,
      hfirst.append hlinked'⟩
    rw [AnnotatedCode.noteAt?, AnnotatedCode.noteAt?, hnotes]
  | @scale _ _ call _ _ _ _ _ ih =>
    obtain ⟨⟨insn, note⟩, A', rfl, rfl, hrest⟩ := List.map_eq_cons_iff.1 hA'
    obtain ⟨between, hfirst, hlater, hbetween⟩ := hlinked.exists_between
    have hcounted : ∀ k, between = some k → wrapped k = k := by
      intro k hk
      obtain ⟨h, e, -, -, -, rfl⟩ := hbetween k hk
      exact wrapped_wrapped _
    -- the scaling is left out; it takes one slot and gives one back, so the links close over it
    obtain ⟨B, A', rfl, hB, hA'⟩ := List.map_eq_append_iff.1 hrest
    obtain ⟨A, hA, hnotes, hlinked'⟩ := ih hA' (hlater.behind_scaling hB hcounted)
    refine ⟨(.invoke call, note) :: A, by rw [AnnotatedCode.code_cons, hA], fun l => ?_,
      hfirst.append hlinked'⟩
    rw [AnnotatedCode.noteAt?, AnnotatedCode.noteAt?, AnnotatedCode.noteAt?_append,
      AnnotatedCode.noteAt?_scaling hB, Option.or_none, hnotes]

namespace MethodDecl

variable {m m' : MethodDecl} {r : Heights}

/-- A method with heights has room for the scaling behind all calls that ask for the frame rate and
that control comes to. -/
def RoomToScale (m : MethodDecl) : Prop :=
  (∃ r, m.heights = .ok r) → ∀ p insn e, m.ReachesWrapped p → m.code[p.index]? = some insn →
    insn.effect = .ok e → RoomBehind insn e p.height

/-- There is room if every such call has a result, and two slots are free all the time. -/
theorem roomToScale_of_heights (hr : m.heights = .ok r) (hfree : r.maxStack.toNat + 2 ≤ 65535)
    (hproduced : ∀ call, .invoke call ∈ m.code → frameRateCalls.acceptsCall call = true →
      ∃ n, call.produced = .ok n ∧ 0 < n) : m.RoomToScale := by
  rintro - p _ e hp hinsn heffect call rfl haccepts
  obtain ⟨n, hn, hpos⟩ := hproduced call (List.mem_of_getElem? hinsn) haccepts
  obtain rfl : n = e.pushes := Except.ok.inj (hn.symm.trans (Instruction.effect_invoke heffect).2)
  have hslots : e.pushes.toNat ≤ 2 := by
    obtain ⟨d, -, hd⟩ := bind_eq_ok_iff.1 hn
    have hresult : d.result.slots = e.pushes := Except.ok.inj hd
    rw [← hresult]
    cases d.result <;> simp [TypeDescriptor.slots]
  obtain ⟨e', heffect', hpops⟩ := (exists_heights_iff.1 ⟨r, hr⟩).pops_le p _ hp hinsn
  obtain rfl := Except.ok.inj (heffect.symm.trans heffect')
  obtain ⟨hbefore, hbehind⟩ := (settled_of_heights hr).le_maxStack hp hinsn heffect
  have hpos : 0 < e.pushes.toNat := UInt16.lt_iff_toNat_lt.1 hpos
  have hnet : e.net = (e.pushes.toNat : Int) - e.pops.toNat := rfl
  rw [wrapped_of_le (by omega) (by omega)] at hbehind ⊢
  omega

/-- A method has heights if notes for another method with heights can be turned into linked notes
for it, with the same notes at all labels. -/
theorem exists_heights_of_linked (hr : m.heights = .ok r) (hresult : m'.result = m.result)
    (hhandlers : m'.handlers = m.handlers) (hempty : m.code = [] → m'.code = [])
    (hlinked : ∃ B : AnnotatedCode, B.code = m'.code ∧ (∀ l, B.noteAt? l = (m.notes r).noteAt? l) ∧
      Linked wrapped (Permitted m.result 0) (m.notes r).labelHeight? ((m.notes r).heightAt? 0) B
        none) : ∃ r', m'.heights = .ok r' := by
  obtain ⟨B, hB, hnotes, hB'⟩ := hlinked
  have hlabels : B.labelHeight? = (m.notes r).labelHeight? := by
    funext l
    rw [AnnotatedCode.labelHeight?, AnnotatedCode.labelHeight?, hnotes]
  rw [← hlabels] at hB'
  exact (Notes.of_heights hr hresult hhandlers hempty hB hB' fun l _ => hnotes l).2

/-- A method has heights if it has them with the frame rate scaled. -/
theorem Scaled.exists_heights_without (h : m.Scaled w m') (hm' : ∃ r, m'.heights = .ok r) :
    ∃ r, m.heights = .ok r := by
  obtain ⟨r, hr⟩ := hm'
  exact exists_heights_of_linked hr h.result_eq.symm h.handlers_eq.symm h.code.eq_nil_iff.1
    (h.code.exists_linked_without code_notes (linked_notes hr))

/-- Where there is room for it, scaling the frame rate makes no difference to whether a method has
heights. -/
theorem Scaled.heights_iff (h : m.Scaled w m') (hroom : m.RoomToScale) :
    (∃ r, m.heights = .ok r) ↔ ∃ r, m'.heights = .ok r := by
  refine ⟨?_, h.exists_heights_without⟩
  rintro ⟨r, hr⟩
  refine exists_heights_of_linked hr h.result_eq h.handlers_eq h.code.eq_nil_iff.2
    (h.code.exists_linked code_notes (linked_notes hr) fun insn e k hmem heffect => ?_)
  obtain ⟨i, hi⟩ := List.getElem?_of_mem hmem
  have hreached := (heightAt?_notes_iff hr).1 (AnnotatedCode.heightAt?_eq_some_iff.2 ⟨insn, hi⟩)
  exact hroom ⟨r, hr⟩ _ insn e hreached (getElem?_notes_eq_some_iff.1 hi).1 heffect

end MethodDecl

end Heights

end ClassEdit
