import ClassEdit.Proofs.Parallel
import ClassEdit.Proofs.Refusals

/-!
# Operations that leave no choice which label is named

Only one refusal leaves a choice: a fragment was to be completed in which several labels are reached
and none of them is placed. A program that jumps to one label at most is never refused like this,
and neither is an operation whose fragments come of such programs, or are known beforehand. So where
all operations are of this kind, what is reported does not depend on how labels are picked.

## Main definitions

* `DefiniteResult`: results whose refusals leave no choice.
* `Assembler.AimsAt`, `Assembler.Definite`: programs that jump to one label, and programs whose
  fragment is refused without a choice.
* `FragmentSource.Definite`, `Operation.Definite`: sources and operations of this kind.

## Main results

* `Assembler.Definite.of_aimsAt`: jumping to one label leaves no choice.
* `Operation.definite_callAdvice` and the other `definite` lemmas: which operations are definite.
* `ClassRule.definite_of_operations`: the rules that are made of such operations.
-/

namespace ClassEdit

/-- A result whose refusal leaves no choice which label is named. -/
def DefiniteResult {α : Type} (x : Except EditError α) : Prop := ∀ e, x = .error e → e.Definite

namespace DefiniteResult

variable {α β : Type} {x : Except EditError α}

theorem ok {a : α} : DefiniteResult (.ok a) := nofun

theorem error {e : EditError} (h : e.Definite) :
    DefiniteResult (.error e : Except EditError α) := by
  rintro _ ⟨⟩
  exact h

theorem bind {f : α → Except EditError β} (hx : DefiniteResult x) (hf : ∀ a, DefiniteResult (f a)) :
    DefiniteResult (x >>= f) := by
  cases x with
  | ok a => exact hf a
  | error e => exact .error (hx e rfl)

theorem map {f : α → β} (hx : DefiniteResult x) : DefiniteResult (x.map f) := by
  cases x with
  | ok a => exact .ok
  | error e => exact .error (hx e rfl)

theorem ite {p : Prop} [Decidable p] {y : Except EditError α} (hx : DefiniteResult x)
    (hy : DefiniteResult y) : DefiniteResult (if p then x else y) := by
  split
  · exact hx
  · exact hy

theorem forM {as : List α} {g : α → Except EditError Unit} (h : ∀ a, DefiniteResult (g a)) :
    DefiniteResult (as.forM g) := by
  induction as with
  | nil => exact .ok
  | cons a as ih => exact .bind (h a) fun _ => ih

theorem mapError {ε : Type} {y : Except ε α} {f : ε → EditError} (h : ∀ e, (f e).Definite) :
    DefiniteResult (y.mapError f) := by
  cases y with
  | ok a => exact .ok
  | error e => exact .error (h e)

end DefiniteResult

open DefiniteResult

/-! ### What is checked -/

section Checks

theorem TypeDescriptor.definite_parsed (s : String) : DefiniteResult (parsed s) :=
  .mapError fun _ => nofun

theorem MethodDescriptor.definite_parsed (s : String) : DefiniteResult (parsed s) :=
  .mapError fun _ => nofun

theorem MethodRef.definite_consumed (call : MethodRef) : DefiniteResult call.consumed :=
  .bind (MethodDescriptor.definite_parsed _) fun _ => .ok

theorem MethodRef.definite_produced (call : MethodRef) : DefiniteResult call.produced :=
  .bind (MethodDescriptor.definite_parsed _) fun _ => .ok

theorem definite_inForm (form : OperandForm) (opcode : Opcode) (effect : Option StackEffect) :
    DefiniteResult (inForm form opcode effect) := by
  cases effect with
  | none => exact .error nofun
  | some => exact .ok

/-- An instruction without a meaning is refused for its operation or its descriptor. -/
theorem Instruction.definite_effect (insn : Instruction) : DefiniteResult insn.effect := by
  cases insn with
  | simple opcode =>
    rw [effect]
    split
    · exact .ok
    · exact .error nofun
  | immediate | localVar | typed | jump => exact definite_inForm _ _ _
  | field f => exact .bind (TypeDescriptor.definite_parsed _) fun _ => definite_inForm _ _ _
  | invoke call =>
    exact .ite (.bind call.definite_consumed fun _ => .bind call.definite_produced fun _ => .ok)
      (.error nofun)
  | invokeDynamic => exact .bind (MethodDescriptor.definite_parsed _) fun _ => .ok
  | _ => exact .ok

theorem definite_netEffect (code : List Instruction) : DefiniteResult (netEffect code) := by
  induction code with
  | nil => exact .ok
  | cons insn code ih => exact .bind insn.definite_effect fun _ => .bind ih fun _ => .ok

theorem Fragment.definite_netEffect (f : Fragment) : DefiniteResult f.netEffect := by
  unfold netEffect
  split
  · exact .ok
  · exact .ite (.error nofun) (.map (ClassEdit.definite_netEffect _))

theorem definite_checkEffect (signature : String) (f : Fragment) (place : SpliceSite) :
    DefiniteResult (checkEffect signature f place) :=
  .bind f.definite_netEffect fun _ => .ite .ok (.error nofun)

/-- What contradicts heights is no label of a fragment. -/
theorem MethodDecl.definite_heights (m : MethodDecl) : DefiniteResult m.heights := by
  intro e h
  cases contradiction_of_heights h with
  | handler | meeting => exact nofun
  | rejected _ _ hrejects =>
    cases hrejects with
    | meaning heffect => exact Instruction.definite_effect _ e heffect
    | _ => exact nofun

theorem Block.definite_finalize (m edited : MethodDecl) : DefiniteResult (finalize m edited) := by
  unfold finalize
  cases m.heights with
  | ok => exact .bind edited.definite_heights fun _ => .ok
  | error => exact .ok

theorem Site.definite_require {α : Type} (site : Site) (target : String) (found : Option α) :
    DefiniteResult (site.require target found) := by
  cases found with
  | none => exact .error nofun
  | some => exact .ok

end Checks

/-! ### Programs that assemble -/

/-- The load of a constant jumps nowhere. -/
theorem Instruction.targets_load (c : Constant) : (load c).targets = [] := by
  cases c with
  | int value =>
    rw [load, loadInt]
    split_ifs <;> rfl
  | long | float | double =>
    rw [load]
    split_ifs <;> rfl
  | string | classLiteral => rfl

namespace Assembly

variable {a b : Assembly} {l : Label}

/-- Arrivals were recorded at one label at most. -/
def AimsAt (l : Label) (a : Assembly) : Prop :=
  a.labelHeights = [] ∨ ∃ k, a.labelHeights = [(l, k)]

theorem AimsAt.record (h : a.AimsAt l) {r : Except EditError Assembly} (hr : a.record l = r) :
    DefiniteResult r ∧ ∀ b, r = .ok b → b.AimsAt l := by
  subst hr
  unfold Assembly.record heightAt?
  rcases h with hnone | ⟨k, hone⟩
  · rw [hnone]
    refine ⟨.ok, ?_⟩
    rintro _ ⟨⟩
    exact .inr ⟨a.height, by simp⟩
  · rw [hone, List.lookup_cons_self]
    dsimp only
    split
    · refine ⟨.ok, ?_⟩
      rintro _ ⟨⟩
      exact .inr ⟨k, hone⟩
    · exact ⟨.error nofun, nofun⟩

theorem AimsAt.recordAll {ls : List Label} (hls : ∀ l' ∈ ls, l' = l) (h : a.AimsAt l) :
    DefiniteResult (a.recordAll ls).1 ∧
      ((a.recordAll ls).1 = .ok () → (a.recordAll ls).2.AimsAt l) := by
  induction ls generalizing a with
  | nil => exact ⟨.ok, fun _ => h⟩
  | cons l' ls ih =>
    obtain rfl := hls l' List.mem_cons_self
    obtain ⟨hdefinite, hnext⟩ := h.record rfl
    rw [Assembly.recordAll]
    cases hrecord : a.record l' with
    | ok b => exact ih (fun l hl => hls l (List.mem_cons_of_mem _ hl)) (hnext b hrecord)
    | error e => exact ⟨.error (hdefinite e hrecord), nofun⟩

theorem AimsAt.follow {insn : Instruction} (hinsn : ∀ l' ∈ insn.targets, l' = l)
    (h : a.AimsAt l) (effect : StackEffect) :
    DefiniteResult (a.follow insn effect).1 ∧
      ((a.follow insn effect).1 = .ok () → (a.follow insn effect).2.AimsAt l) := by
  unfold Assembly.follow
  dsimp only
  split
  · exact ⟨.error nofun, nofun⟩
  · -- the height does not matter for which labels arrivals are recorded at
    have hmoved : AimsAt l { a with
        height := a.height - effect.pops.toNat + effect.pushes.toNat
        highest := max a.highest (a.height - effect.pops.toNat + effect.pushes.toNat) } := h
    exact hmoved.recordAll hinsn

theorem AimsAt.emit {insn : Instruction} (hinsn : ∀ l' ∈ insn.targets, l' = l)
    (h : a.AimsAt l) : DefiniteResult (a.emit insn).1 ∧
      ((a.emit insn).1 = .ok () → (a.emit insn).2.AimsAt l) := by
  unfold Assembly.emit
  cases heffect : insn.effect with
  | error e => exact ⟨.error (insn.definite_effect e heffect), nofun⟩
  | ok effect =>
    have hfollowed : DefiniteResult (if a.dead then (.ok (), a) else a.follow insn effect).1 ∧
        ((if a.dead then (.ok (), a) else a.follow insn effect).1 = .ok () →
          (if a.dead then (.ok (), a) else a.follow insn effect).2.AimsAt l) := by
      split
      · exact ⟨.ok, fun _ => h⟩
      · exact h.follow hinsn effect
    dsimp only
    generalize (if a.dead then (.ok (), a) else a.follow insn effect) = followed at hfollowed ⊢
    obtain ⟨e | ⟨⟩, b⟩ := followed
    · exact ⟨hfollowed.1, nofun⟩
    · exact ⟨.ok, fun _ => hfollowed.2 rfl⟩

theorem AimsAt.mark (h : a.AimsAt l) : DefiniteResult (a.mark l).1 ∧
    ((a.mark l).1 = .ok () → (a.mark l).2.AimsAt l) := by
  have hplaced : AimsAt l { a with placed := a.placed ++ [l] } := h
  unfold Assembly.mark
  split
  · exact ⟨.error nofun, nofun⟩
  · dsimp only
    split
    · rename_i e hrefused
      refine ⟨.error ?_, nofun⟩
      split at hrefused
      · split at hrefused <;> cases hrefused
      · exact (hplaced.record rfl).1 e hrefused
    · rename_i b harrived
      refine ⟨.ok, fun _ => ?_⟩
      -- where code is dead no arrival is recorded
      split at harrived
      · split at harrived <;> cases harrived <;> exact h
      · exact (hplaced.record rfl).2 b harrived

/-- A fragment with one label at most is completed, or refused for this label. -/
theorem AimsAt.build (h : a.AimsAt l) : DefiniteResult a.build.1 := by
  have hshort : a.unplaced.length ≤ 1 := by
    refine (List.length_filter_le _ _).trans ?_
    rcases h with hnone | ⟨k, hone⟩
    · simp [hnone]
    · simp [hone]
  unfold Assembly.build
  split
  · rename_i label others hunplaced
    rw [hunplaced, List.length_cons] at hshort
    obtain rfl : others = [] := List.length_eq_zero_iff.1 (by omega)
    refine .error ?_
    rintro _ _ ⟨⟩
    rfl
  · dsimp only
    split
    · exact .error nofun
    · exact .ok

end Assembly

namespace Assembler

variable {α β : Type} {l : Label}

/-- A program that jumps to one label only, and is not refused over others. -/
def AimsAt (l : Label) (p : Assembler α) : Prop :=
  ∀ a : Assembly, a.AimsAt l →
    DefiniteResult (p.run a).1 ∧ ∀ x, (p.run a).1 = .ok x → (p.run a).2.AimsAt l

namespace AimsAt

theorem bind {p : Assembler α} {f : α → Assembler β} (hp : AimsAt l p) (hf : ∀ x, AimsAt l (f x)) :
    AimsAt l (p >>= f) := by
  intro a h
  obtain ⟨hdefinite, hnext⟩ := hp a h
  -- the second program goes on where the first one has succeeded
  have hrun : (p >>= f).run a = ExceptT.bindCont f (p.run a).1 (p.run a).2 := rfl
  rw [hrun]
  generalize p.run a = first at hdefinite hnext ⊢
  obtain ⟨e | x, b⟩ := first
  · exact ⟨.error (hdefinite e rfl), nofun⟩
  · exact hf x b (hnext x rfl)

theorem emit {insn : Instruction} (hinsn : ∀ l' ∈ insn.targets, l' = l) :
    AimsAt l (Assembler.emit insn) := fun _ h =>
  ⟨(h.emit hinsn).1, fun _ => (h.emit hinsn).2⟩

theorem constant {c : Constant} : AimsAt l (Assembler.constant c) := by
  refine .emit fun l' hl => ?_
  rw [Instruction.targets_load] at hl
  cases hl

theorem mark : AimsAt l (Assembler.mark l) := fun _ h => ⟨h.mark.1, fun _ => h.mark.2⟩

end AimsAt

/-- A program whose fragment is there or refused without a choice. -/
def Definite (p : Assembler Unit) : Prop := ∀ available, DefiniteResult (p.assemble available)

/-- A program that jumps to one label leaves no choice. -/
theorem definite_of_run {p : Assembler Unit} (h : ∀ available,
    DefiniteResult (p.run (.start available)).1 ∧ ((p.run (.start available)).1 = .ok () →
      (p.run (.start available)).2.AimsAt l)) : p.Definite := by
  intro available
  obtain ⟨hdefinite, hnext⟩ := h available
  unfold assemble
  generalize p.run (Assembly.start available) = result at hdefinite hnext ⊢
  obtain ⟨e | ⟨⟩, a⟩ := result
  · exact .error (hdefinite e rfl)
  · exact (hnext rfl).build

theorem Definite.of_aimsAt {p : Assembler Unit} (h : AimsAt l p) : p.Definite :=
  definite_of_run fun available => ⟨(h _ (.inl rfl)).1, (h (.start available) (.inl rfl)).2 ()⟩

/-- The one label may be a new one. -/
theorem Definite.of_newLabel {f : Label → Assembler Unit} (h : ∀ l, AimsAt l (f l)) :
    (newLabel >>= f).Definite := by
  refine definite_of_run (l := ⟨0⟩) fun available => ?_
  have hrun : (newLabel >>= f).run (Assembly.start available) =
    (f ⟨0⟩).run (Assembly.start available).newLabel.2 := rfl
  obtain ⟨hdefinite, hnext⟩ := h ⟨0⟩ (Assembly.start available).newLabel.2 (.inl rfl)
  rw [hrun]
  exact ⟨hdefinite, hnext ()⟩

/-- It may look at the site before. -/
theorem Definite.read {x : Except EditError α} {f : α → Assembler Unit} (hx : DefiniteResult x)
    (hf : ∀ x, (f x).Definite) : ((liftM x : Assembler α) >>= f).Definite := by
  cases x with
  | ok x => exact hf x
  | error e => exact fun _ => .error (hx e rfl)

end Assembler

/-! ### Operations -/

/-- A source whose fragment is there or refused without a choice. -/
def FragmentSource.Definite (source : FragmentSource) : Prop :=
  ∀ site available, DefiniteResult (source.resolve site available)

theorem FragmentSource.Definite.assembled {program : Site → Assembler Unit}
    (h : ∀ site, (program site).Definite) : (assembled program).Definite :=
  fun site _ => h site _

/-- An operation that succeeds or is refused without a choice. -/
def Operation.Definite (op : Operation) : Prop := ∀ site, DefiniteResult (op.apply site)

section Operations

variable {source : FragmentSource} {site : Site} {calls : MemberPattern}

theorem definite_resolveOptional {source : Option FragmentSource}
    {available : Except EditError UInt16} (hsource : ∀ s ∈ source, s.Definite)
    (havailable : DefiniteResult available) :
    DefiniteResult (resolveOptional source site available) := by
  cases source with
  | none => exact .ok
  | some source => exact .bind havailable fun _ => .bind (hsource source rfl _ _) fun _ => .ok

theorem definite_planCalls {replace : MethodRef → Except EditError Replacement}
    (h : ∀ call, DefiniteResult (replace call)) (code : List Instruction) :
    DefiniteResult (planCalls calls replace code) := by
  induction code with
  | nil => exact .ok
  | cons insn code ih =>
    rw [planCalls]
    split
    · exact .bind ih fun _ => .ok
    · exact .bind (h _) fun _ => .bind ih fun _ => .ok

namespace Operation

theorem definite_spliceCalls {kind : EventKind} {detail : MethodRef → String}
    {replace : MethodRef → Except EditError Replacement}
    (h : ∀ call, DefiniteResult (replace call)) :
    DefiniteResult (spliceCalls site calls kind detail replace) := by
  unfold spliceCalls
  dsimp only
  split
  · exact .error nofun
  · exact .bind (definite_planCalls h _) fun _ => .ok

theorem definite_replaceConstant {source target : Constant} :
    (replaceConstant source target).Definite :=
  fun _ => .ite (.error nofun) (.ite .ok .ok)

theorem definite_replaceString {source target : String} :
    (replaceString source target).Definite := fun _ => .ok

theorem definite_stub {value : Option Constant} : (stub value).Definite := by
  intro site
  cases value with
  | none => exact .ok
  | some value => exact .ite .ok (.error nofun)

theorem definite_overwrite (hsource : source.Definite) : (overwrite source).Definite :=
  fun site => .bind (hsource site 0) fun _ => .ok

theorem definite_callAdvice {before after : Option FragmentSource}
    (hbefore : ∀ s ∈ before, s.Definite) (hafter : ∀ s ∈ after, s.Definite) :
    (callAdvice calls before after).Definite :=
  fun _ => definite_spliceCalls fun call =>
    .bind (definite_resolveOptional hbefore call.definite_consumed) fun _ =>
    .bind (definite_resolveOptional hafter call.definite_produced) fun _ =>
    .bind (.forM fun f => definite_checkEffect _ f _) fun _ =>
    .bind (.forM fun f => definite_checkEffect _ f _) fun _ => .ok

theorem definite_replaceCall {replacement : Option FragmentSource}
    (hreplacement : ∀ s ∈ replacement, s.Definite) : (replaceCall calls replacement).Definite := by
  refine fun site => definite_spliceCalls fun call => ?_
  cases replacement with
  | none => exact .bind (.bind (MethodDescriptor.definite_parsed _) fun _ => .ok) fun _ => .ok
  | some source =>
    exact .bind call.definite_consumed fun _ => .bind (hreplacement source rfl _ _) fun _ => .ok

theorem definite_methodExit (hsource : source.Definite) : (methodExit source).Definite :=
  fun site => .ite
    (.bind (hsource site 0) fun _ => .bind (definite_checkEffect _ _ _) fun _ => .ok)
    (.error nofun)

end Operation

end Operations

/-! ### Rules -/

theorem Block.definite_applyAll {ops : List Operation} (h : ∀ op ∈ ops, op.Definite)
    (owner : ClassDecl) (registration : String) (m : MethodDecl) :
    DefiniteResult (applyAll owner registration ops m) := by
  induction ops generalizing m with
  | nil => exact .ok
  | cons op ops ih =>
    exact .bind (h op List.mem_cons_self _) fun _ =>
      .bind (ih (fun op hop => h op (List.mem_cons_of_mem _ hop)) _) fun _ => .ok

/-- A block of definite operations leaves no choice which label is named. -/
theorem Block.definite_of_operations {b : Block} (h : ∀ op ∈ b.operations, op.Definite) :
    b.Definite := by
  intro owner m registration
  have hrun : DefiniteResult (b.run owner m registration) :=
    .bind (definite_applyAll h owner registration m) fun _ =>
      .ite (.bind (definite_finalize m _) fun _ => .ok) .ok
  exact hrun

theorem ClassRule.definite_of_operations {rule : ClassRule}
    (h : ∀ m ∈ rule.methods, ∀ b, m.block = some b → ∀ op ∈ b.operations, op.Definite) :
    rule.Definite := fun m hm b hb => Block.definite_of_operations (h m hm b hb)

end ClassEdit
