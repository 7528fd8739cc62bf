import ClassEdit.Proofs.Advice
import ClassEdit.Proofs.Loading
import Mathlib.Data.List.Nodup

/-!
# Labels of spliced code do not get mixed up

Fragments come with labels of their own, and every copy of a fragment is given numbers that neither
the body nor another copy uses. To say what this achieves, every instruction of an edited body is
given an origin: it is an instruction of the body that the block of edits found, or it belongs to
one of the copies that an operation has put in. The origins are worked out along with the edits.

After every operation of a block whose fragments are closed, each label is placed at most once. What
is left of the body refers to the same places as before, and so do its exception handlers. The
labels that a copy mentions are placed in the same copy, however many copies of the fragment there
are, and whatever later operations put between its instructions. This takes numbers: labels have 32
bits, and where the numbers for copies run out they start over with those of the body.

## Main definitions

* `Origin`, `Operation.origins`, `Block.origins`: where instructions of an edited body come from.
* `Fragment.Closed`, `Block.ClosedFragments`: fragments that mention only labels of their own.
* `Block.NumbersFit`: label numbers are left for all copies.
* `Hygiene`: the labels of an edited body refer to what they should.
* `Grafted`: a piece of edited code and what stood in its place before.

## Main results

* `Grafted.append`, `Plan.exists_grafted`: spliced code, put together from pieces.
* `Block.hygiene`: the labels after each operation of a block.
* `Block.hygiene_not_of_last_number`: a label of the body captured by a copy.
-/

namespace ClassEdit

/-! ### Origins -/

/-- Where an instruction of an edited body comes from. -/
inductive Origin where
  /-- It is an instruction of the body that the block of edits was given. -/
  | body (index : Nat)
  /-- An operation of the block has put it in, as a part of one of its copies. -/
  | copy (operation number : Nat)
deriving DecidableEq

/-- The origins of copies of fragments, and the first number left over. -/
def copyOrigins (operation number : Nat) : List Fragment → List Origin × Nat
  | [] => ([], number)
  | f :: rest =>
    let (origins, last) := copyOrigins operation (number + 1) rest
    (List.replicate f.code.length (.copy operation number) ++ origins, last)

namespace Plan

/-- The origins of what takes the place of one instruction, and the first number left over. -/
def blockOrigins (operation number : Nat) (origin : Origin) :
    Option Replacement → List Origin × Nat
  | none => ([origin], number)
  | some r =>
    let (before, middle) := copyOrigins operation number r.before
    let (after, last) := copyOrigins operation middle r.after
    (before ++ (if r.keeps then [origin] else []) ++ after, last)

/-- The origins in spliced code, if the origins before the splice are given. -/
def origins (operation number : Nat) : Plan → List Origin → List Origin
  | (_, r) :: plan, origin :: rest =>
    let (first, last) := blockOrigins operation number origin r
    first ++ origins operation last plan rest
  | _, _ => []

end Plan

/-- The origins after an operation. Instructions that are exchanged where they stand keep their
origin, and a body that is replaced as a whole counts as a copy. -/
def Operation.origins (op : Operation) (site : Site) (operation : Nat) (before : List Origin) :
    List Origin :=
  match op with
  | .replaceConstant _ _ | .replaceString _ _ => before
  | .stub value =>
    match site.method.stub value with
    | .ok (edited, _) => List.replicate edited.code.length (.copy operation 0)
    | .error _ => before
  | .overwrite source =>
    match source.resolve site 0 with
    | .ok f => List.replicate f.code.length (.copy operation 0)
    | .error _ => before
  | .callAdvice _ _ _ | .replaceCall _ _ | .methodExit _ =>
    match op.plan? site with
    | some plan => plan.origins operation 0 before
    | none => before

/-- The origins after operations, the first of which has the given number. -/
def Block.origins (owner : ClassDecl) (registration : String) (operation : Nat) :
    List Operation → MethodDecl → List Origin → List Origin
  | [], _, before => before
  | op :: rest, m, before =>
    match op.apply ⟨owner, m, registration⟩ with
    | .ok (edited, _) =>
      origins owner registration (operation + 1) rest edited
        (op.origins ⟨owner, m, registration⟩ operation before)
    | .error _ => before

/-- The origins in a body before any edit. -/
def MethodDecl.origins (m : MethodDecl) : List Origin := (List.range m.code.length).map .body

/-! ### Closed fragments -/

/-- The labels that code places, in order. -/
def placedLabels (code : List Instruction) : List Label := code.filterMap Instruction.placed?

/-- A fragment that places no label twice, and every label that it mentions. -/
structure Fragment.Closed (f : Fragment) : Prop where
  placed_once : (placedLabels f.code).Nodup
  placed : ∀ insn ∈ f.code, ∀ l ∈ insn.labels, .label l ∈ f.code

/-- The fragments that an operation makes at a site. -/
def Operation.Resolves (op : Operation) (site : Site) (f : Fragment) : Prop :=
  match op with
  | .overwrite source | .methodExit source => source.resolve site 0 = .ok f
  | .callAdvice calls before after =>
    ∃ call ∈ site.method.calls, calls.acceptsCall call = true ∧
      ((∃ source n, before = some source ∧ call.consumed = .ok n ∧ source.resolve site n = .ok f) ∨
        ∃ source n, after = some source ∧ call.produced = .ok n ∧ source.resolve site n = .ok f)
  | .replaceCall calls replacement =>
    ∃ call ∈ site.method.calls, calls.acceptsCall call = true ∧
      ∃ source n, replacement = some source ∧ call.consumed = .ok n ∧ source.resolve site n = .ok f
  | .replaceConstant _ _ | .replaceString _ _ | .stub _ => False

/-- All fragments that operations make are closed, each operation taken at what the ones before it
have left. -/
def Block.ClosedFragments (owner : ClassDecl) (registration : String) :
    List Operation → MethodDecl → Prop
  | [], _ => True
  | op :: rest, m =>
    (∀ f, op.Resolves ⟨owner, m, registration⟩ f → f.Closed) ∧
      ∀ edited done, op.apply ⟨owner, m, registration⟩ = .ok (edited, done) →
        ClosedFragments owner registration rest edited

/-- For all copies that operations make there are label numbers left, each operation taken at what
the ones before it have left. -/
def Block.NumbersFit (owner : ClassDecl) (registration : String) :
    List Operation → MethodDecl → Prop
  | [], _ => True
  | op :: rest, m =>
    (∀ plan, op.plan? ⟨owner, m, registration⟩ = some plan → plan.NumbersFit m.code) ∧
      ∀ edited done, op.apply ⟨owner, m, registration⟩ = .ok (edited, done) →
        NumbersFit owner registration rest edited

/-! ### Hygiene -/

/-- The labels of an exception handler. -/
def ExceptionHandler.labels (b : ExceptionHandler) : List Label := [b.start, b.stop, b.handler]

/-- A label is placed in an edited body where the instruction that placed it in the original one has
gone, and nowhere if it was placed nowhere. -/
def SamePlace (m edited : MethodDecl) (origins : List Origin) (l : Label) : Prop :=
  (labelPosition? l edited.code).bind (origins[·]?) = (labelPosition? l m.code).map .body

/-- The labels of an edited body refer to what they should. -/
structure Hygiene (m edited : MethodDecl) (origins : List Origin) : Prop where
  length_eq : origins.length = edited.code.length
  placed_once : (placedLabels edited.code).Nodup
  /-- What is left of the body mentions the same labels as before, and they are where they were. -/
  survivor : ∀ (p i : Nat) (insn : Instruction), edited.code[p]? = some insn →
    origins[p]? = some (.body i) → insn.labels ≠ [] →
      m.code[i]? = some insn ∧ ∀ l ∈ insn.labels, SamePlace m edited origins l
  handler : ∀ b ∈ edited.handlers, b ∈ m.handlers ∧
    ∀ l ∈ b.labels, SamePlace m edited origins l
  /-- The labels that a copy mentions are placed in the same copy. -/
  copy : ∀ (p operation number : Nat) (insn : Instruction), edited.code[p]? = some insn →
    origins[p]? = some (.copy operation number) → ∀ l ∈ insn.labels, ∃ q,
      labelPosition? l edited.code = some q ∧ origins[q]? = some (.copy operation number)

/-! ### Labels that are placed once -/

section PlacedLabels

variable {code first second : List Instruction} {insn : Instruction} {l : Label} {p q : Nat}
variable {offset : UInt32}

theorem placedLabels_cons :
    placedLabels (insn :: code) = insn.placed?.toList ++ placedLabels code := by
  rw [placedLabels, List.filterMap_cons]
  cases insn.placed? <;> rfl

@[simp] theorem placedLabels_append :
    placedLabels (first ++ second) = placedLabels first ++ placedLabels second :=
  List.filterMap_append

theorem mem_placedLabels : l ∈ placedLabels code ↔ .label l ∈ code := by
  simp only [placedLabels, List.mem_filterMap, Instruction.placed?_eq_some_iff]
  exact ⟨fun ⟨_, hmem, hinsn⟩ => hinsn ▸ hmem, fun hmem => ⟨_, hmem, rfl⟩⟩

/-- A label that is placed once is placed where it is found. -/
theorem labelPosition?_of_nodup (h : (placedLabels code).Nodup) (hp : code[p]? = some (.label l)) :
    labelPosition? l code = some p := by
  induction code generalizing p with
  | nil => cases hp
  | cons insn code ih =>
    rw [placedLabels_cons] at h
    rw [labelPosition?_cons]
    cases p with
    | zero =>
      obtain rfl : insn = .label l := by simpa using hp
      have hrest : labelPosition? l code = none := by
        -- a second place would be a second label among those placed
        rw [Option.eq_none_iff_forall_ne_some]
        intro q hq
        have hmem := mem_placedLabels.2 (List.mem_of_getElem? (getElem?_of_labelPosition? hq))
        exact (List.nodup_cons.1 h).1 hmem
      rw [hrest]
      simp [Instruction.placed?]
    | succ p =>
      rw [ih (List.Nodup.of_append_right h) (by simpa using hp)]
      rfl

theorem placedLabels_relabeled :
    placedLabels (code.map (Instruction.relabeled offset)) =
      (placedLabels code).map (Label.shift offset) := by
  rw [placedLabels, placedLabels, List.filterMap_map, List.map_filterMap]
  congr 1
  funext insn
  exact Instruction.placed?_relabeled offset insn

theorem Instruction.labels_relabeled :
    (insn.relabeled offset).labels = insn.labels.map (Label.shift offset) := by
  cases insn <;> rfl

theorem Instruction.labels_ne_nil_of_placed? (h : insn.placed? = some l) : insn.labels = [l] := by
  rw [Instruction.placed?_eq_some_iff.1 h]
  rfl

theorem Instruction.relabeled_of_labels_eq_nil (h : insn.labels = []) :
    insn.relabeled offset = insn := by
  cases insn with
  | label | jump | tableSwitch | lookupSwitch | line => cases h
  | _ => rfl

theorem placedLabels_of_labels_eq_nil (h : ∀ insn ∈ code, insn.labels = []) :
    placedLabels code = [] := by
  refine List.filterMap_eq_nil_iff.2 fun insn hinsn => ?_
  rw [Option.eq_none_iff_forall_ne_some]
  intro l hl
  have hlabels := Instruction.labels_ne_nil_of_placed? hl
  rw [h insn hinsn] at hlabels
  cases hlabels

/-- Copies of code without labels are all the same, and they take up no numbers. -/
theorem copies_of_labels_eq_nil {next : UInt32} (h : ∀ insn ∈ code, insn.labels = []) :
    copies next [.ofCode code] = (code, next) := by
  have hcode : (Fragment.ofCode code).relabeled next = code := by
    show code.map (Instruction.relabeled next) = code
    rw [List.map_congr_left fun insn hinsn =>
      Instruction.relabeled_of_labels_eq_nil (h insn hinsn), List.map_id']
  have hspan : (Fragment.ofCode code).labelSpan = 0 :=
    congrArg labelBound (placedLabels_of_labels_eq_nil h)
  simp only [copies, hcode, hspan, UInt32.add_zero, List.append_nil]

end PlacedLabels

/-! ### Pieces of edited code -/

section Grafted

variable {bound next middle last : Nat} {A A' B B' : List (Instruction × Origin)}

/-- Edited code `B` that stands in the place of code `A`, each with origins. Labels below `bound`
belong to the body that is edited. Only instructions that mention labels are spoken of. They are
those of `A` or belong to copies, whose labels are numbered between `next` and `last`. -/
structure Grafted (bound next last : Nat) (A B : List (Instruction × Origin)) : Prop where
  bound_le : bound ≤ next
  next_le : next ≤ last
  kept : ∀ e ∈ A, e.1.labels ≠ [] → e ∈ B
  entry : ∀ e ∈ B, e.1.labels ≠ [] → e ∈ A ∨ ∃ operation number, e.2 = .copy operation number ∧
    ∀ l ∈ e.1.labels, next ≤ l.number.toNat ∧ (.label l, e.2) ∈ B
  count_old : ∀ l, l.number.toNat < bound →
    (placedLabels (B.map Prod.fst)).count l = (placedLabels (A.map Prod.fst)).count l
  count_new : ∀ l, bound ≤ l.number.toNat → (placedLabels (B.map Prod.fst)).count l ≤ 1
  new_labels : ∀ l, bound ≤ l.number.toNat → l ∈ placedLabels (B.map Prod.fst) →
    next ≤ l.number.toNat ∧ l.number.toNat < last

namespace Grafted

theorem nil (h : bound ≤ next) : Grafted bound next next [] [] :=
  ⟨h, le_rfl, nofun, nofun, fun _ _ => rfl, fun _ _ => Nat.zero_le 1, nofun⟩

/-- Pieces that use different numbers can be put together. -/
theorem append (h : Grafted bound next middle A B) (h' : Grafted bound middle last A' B') :
    Grafted bound next last (A ++ A') (B ++ B') := by
  refine ⟨h.bound_le, h.next_le.trans h'.next_le, ?_, ?_, ?_, ?_, ?_⟩
  · -- what a piece keeps is kept in the whole
    intro e he hlabels
    rcases List.mem_append.1 he with he | he
    · exact List.mem_append_left _ (h.kept e he hlabels)
    · exact List.mem_append_right _ (h'.kept e he hlabels)
  · -- a copy lies in one of the pieces, with its labels
    intro e he hlabels
    rcases List.mem_append.1 he with he | he
    · refine (h.entry e he hlabels).imp (List.mem_append_left _) ?_
      rintro ⟨operation, number, horigin, hplaced⟩
      refine ⟨operation, number, horigin, fun l hl => ?_⟩
      exact ⟨(hplaced l hl).1, List.mem_append_left _ (hplaced l hl).2⟩
    · refine (h'.entry e he hlabels).imp (List.mem_append_right _) ?_
      rintro ⟨operation, number, horigin, hplaced⟩
      refine ⟨operation, number, horigin, fun l hl => ?_⟩
      exact ⟨h.next_le.trans (hplaced l hl).1, List.mem_append_right _ (hplaced l hl).2⟩
  · intro l hl
    simp only [List.map_append, placedLabels_append, List.count_append, h.count_old l hl,
      h'.count_old l hl]
  · -- no label is new in both pieces, since the numbers of the first end where the second begins
    intro l hl
    rw [List.map_append, placedLabels_append, List.count_append]
    by_cases hfirst : l ∈ placedLabels (B.map Prod.fst)
    · have hsecond : l ∉ placedLabels (B'.map Prod.fst) := fun hsecond =>
        absurd (h'.new_labels l hl hsecond).1 (not_le.2 (h.new_labels l hl hfirst).2)
      rw [List.count_eq_zero.2 hsecond]
      exact h.count_new l hl
    · rw [List.count_eq_zero.2 hfirst, Nat.zero_add]
      exact h'.count_new l hl
  · -- the numbers of both pieces lie between the two ends
    intro l hl hplaced
    rw [List.map_append, placedLabels_append, List.mem_append] at hplaced
    rcases hplaced with hplaced | hplaced
    · obtain ⟨hnext, hmiddle⟩ := h.new_labels l hl hplaced
      exact ⟨hnext, hmiddle.trans_le h'.next_le⟩
    · obtain ⟨hmiddle, hlast⟩ := h'.new_labels l hl hplaced
      exact ⟨h.next_le.trans hmiddle, hlast⟩

/-- An instruction that mentions labels of the body stands in its own place. -/
theorem own {insn : Instruction} {origin : Origin} (h : bound ≤ next)
    (hlabels : ∀ l ∈ insn.labels, l.number.toNat < bound) :
    Grafted bound next next [(insn, origin)] [(insn, origin)] := by
  have hnone (l : Label) (hl : bound ≤ l.number.toNat) : l ∉ placedLabels [insn] := by
    intro hmem
    obtain rfl := List.mem_singleton.1 (mem_placedLabels.1 hmem)
    exact absurd (hlabels l (by simp [Instruction.labels])) (not_lt.2 hl)
  refine ⟨h, le_rfl, fun _ he _ => he, fun _ he _ => .inl he, fun _ _ => rfl, ?_, ?_⟩
  · intro l hl
    show (placedLabels [insn]).count l ≤ 1
    rw [List.count_eq_zero.2 (hnone l hl)]
    exact Nat.zero_le 1
  · intro l hl hplaced
    exact absurd hplaced (hnone l hl)

/-- Code that mentions no labels stands in the place of other such code. -/
theorem plain (h : bound ≤ next) (hA : ∀ e ∈ A, e.1.labels = []) (hB : ∀ e ∈ B, e.1.labels = []) :
    Grafted bound next next A B := by
  have hplaced : placedLabels (B.map Prod.fst) = [] :=
    placedLabels_of_labels_eq_nil (by simpa using fun insn origin he => hB (insn, origin) he)
  have hplaced' : placedLabels (A.map Prod.fst) = [] :=
    placedLabels_of_labels_eq_nil (by simpa using fun insn origin he => hA (insn, origin) he)
  refine ⟨h, le_rfl, fun e he hlabels => absurd (hA e he) hlabels,
    fun e he hlabels => absurd (hB e he) hlabels, ?_, ?_, ?_⟩ <;>
    simp [hplaced, hplaced']

/-- A copy of a closed fragment stands in the place of nothing. -/
theorem copy {f : Fragment} {offset : UInt32} (operation number : Nat) (h : bound ≤ next)
    (hroom : NumbersFrom offset next f.numbers) (hclosed : f.Closed) :
    Grafted bound next (next + f.numbers) []
      ((f.relabeled offset).zip (List.replicate f.code.length (.copy operation number))) := by
  have hlength : (f.relabeled offset).length ≤ (List.replicate f.code.length
      (Origin.copy operation number)).length := by simp [Fragment.relabeled]
  have horigin {e : Instruction × Origin} (he : e ∈ (f.relabeled offset).zip
      (List.replicate f.code.length (.copy operation number))) :
      e.1 ∈ f.relabeled offset ∧ e.2 = .copy operation number := by
    obtain ⟨insn, origin⟩ := e
    obtain ⟨hinsn, hreplicate⟩ := List.of_mem_zip he
    exact ⟨hinsn, List.eq_of_mem_replicate hreplicate⟩
  have hmem {insn : Instruction} (hinsn : insn ∈ f.relabeled offset) :
      (insn, Origin.copy operation number) ∈ (f.relabeled offset).zip
        (List.replicate f.code.length (.copy operation number)) := by
    obtain ⟨i, hi⟩ := List.getElem?_of_mem hinsn
    have hlt : i < f.code.length := by
      simpa [Fragment.relabeled] using (List.getElem?_eq_some_iff.1 hi).1
    refine List.mem_of_getElem? (i := i) ?_
    rw [List.getElem?_zip_eq_some]
    exact ⟨hi, by simp [hlt]⟩
  -- moved by `offset`, the labels of the fragment are beyond those of the body
  refine ⟨h, Nat.le_add_right _ _, fun e he => absurd he List.not_mem_nil, ?_, ?_, ?_, ?_⟩
  · intro e he hlabels
    obtain ⟨hinsn, hcopy⟩ := horigin he
    refine .inr ⟨operation, number, hcopy, fun l hl => ?_⟩
    -- the label is one of the fragment, moved with the instruction that mentions it
    obtain ⟨insn, hinsn', heq⟩ := List.mem_map.1 hinsn
    rw [← heq, Instruction.labels_relabeled] at hl
    obtain ⟨l', hl', rfl⟩ := List.mem_map.1 hl
    have hplaced : Instruction.label (l'.shift offset) ∈ f.relabeled offset :=
      List.mem_map.2 ⟨_, hclosed.placed insn hinsn' l' hl', rfl⟩
    exact ⟨(f.number_of_mem_relabeled hroom hplaced).1, hcopy ▸ hmem hplaced⟩
  · intro l hl
    rw [List.map_fst_zip hlength]
    refine List.count_eq_zero.2 fun hplaced => ?_
    exact absurd (h.trans (f.number_of_mem_relabeled hroom (mem_placedLabels.1 hplaced)).1)
      (not_le.2 hl)
  · intro l _
    rw [List.map_fst_zip hlength, Fragment.relabeled, placedLabels_relabeled]
    exact List.nodup_iff_count_le_one.1 (hclosed.placed_once.map fun _ _ => Label.shift_injective) l
  · intro l _ hplaced
    rw [List.map_fst_zip hlength] at hplaced
    exact f.number_of_mem_relabeled hroom (mem_placedLabels.1 hplaced)

theorem length_copyOrigins {operation number : Nat} {fs : List Fragment} :
    (copyOrigins operation number fs).1.length = codeLength fs := by
  induction fs generalizing number with
  | nil => rfl
  | cons f fs ih =>
    rw [copyOrigins, List.length_append, ih, List.length_replicate]
    rfl

/-- Copies of closed fragments, one after the other. -/
theorem copies {fs : List Fragment} {offset : UInt32} (operation number : Nat) (h : bound ≤ next)
    (hroom : NumbersFrom offset next (numbersOf fs)) (hclosed : ∀ f ∈ fs, f.Closed) :
    Grafted bound next (next + numbersOf fs) []
      ((ClassEdit.copies offset fs).1.zip (copyOrigins operation number fs).1) := by
  induction fs generalizing next offset number with
  | nil => exact .nil h
  | cons f fs ih =>
    -- the next copy starts at the labels that the first one has left over
    rw [numbersOf] at hroom
    have hfirst := copy operation number h hroom.left (hclosed f List.mem_cons_self)
    have hrest := ih (number + 1) (h.trans (Nat.le_add_right next f.numbers)) hroom.behind
      fun f hf => hclosed f (List.mem_cons_of_mem _ hf)
    have hboth := hfirst.append hrest
    rw [← List.zip_append (by simp [Fragment.relabeled]), Nat.add_assoc] at hboth
    exact hboth

end Grafted

/-- Instructions that are replaced mention no labels, and the fragments around them and in their
place are closed. -/
def Plan.Closed (plan : Plan) : Prop :=
  ∀ insn r, (insn, some r) ∈ plan → insn.labels = [] ∧
    (∀ f ∈ r.before, f.Closed) ∧ ∀ f ∈ r.after, f.Closed

namespace Plan

variable {plan : Plan} {operation number : Nat} {offset : UInt32}

theorem length_blockOrigins {insn : Instruction} {origin : Origin} {r : Option Replacement} :
    (blockOrigins operation number origin r).1.length = (block offset insn r).1.length := by
  cases r with
  | none => rfl
  | some r =>
    simp only [blockOrigins, block, List.length_append, Grafted.length_copyOrigins, length_copies]
    cases r.keeps <;> rfl

theorem origins_cons {insn : Instruction} {r : Option Replacement} {origin : Origin}
    {rest : List Origin} :
    origins operation number ((insn, r) :: plan) (origin :: rest) =
      (blockOrigins operation number origin r).1 ++
        origins operation (blockOrigins operation number origin r).2 plan rest := rfl

theorem Closed.cons {entry : Instruction × Option Replacement} (h : Closed (entry :: plan)) :
    Closed [entry] ∧ Closed plan := by
  refine ⟨fun insn r hmem => ?_, fun insn r hmem => h insn r (List.mem_cons_of_mem _ hmem)⟩
  rw [List.mem_singleton] at hmem
  exact h insn r (hmem ▸ List.mem_cons_self)

/-- What takes the place of one instruction. -/
theorem grafted_block {insn : Instruction} {r : Option Replacement} (operation number : Nat)
    (origin : Origin) (h : bound ≤ next) (hroom : NumbersFrom offset next (numbersAt r))
    (hclosed : Closed [(insn, r)]) (hlabels : ∀ l ∈ insn.labels, l.number.toNat < bound) :
    Grafted bound next (next + numbersAt r) [(insn, origin)]
      ((block offset insn r).1.zip (blockOrigins operation number origin r).1) := by
  cases r with
  | none => exact .own h hlabels
  | some r =>
    obtain ⟨hplain, hbefore, hafter⟩ := hclosed insn r List.mem_cons_self
    rw [numbersAt] at hroom ⊢
    have hfirst := Grafted.copies operation number h hroom.left hbefore
    have hmiddle : bound ≤ next + numbersOf r.before := h.trans hfirst.next_le
    have hown : Grafted bound (next + numbersOf r.before) (next + numbersOf r.before)
        [(insn, origin)]
        ((if r.keeps then [insn] else []).zip (if r.keeps then [origin] else [])) := by
      cases r.keeps with
      | true => exact .own hmiddle hlabels
      | false => exact .plain hmiddle (by simpa using hplain) (List.forall_mem_nil _)
    have hlast := Grafted.copies operation (copyOrigins operation number r.before).2 hmiddle
      hroom.copies hafter
    have hall := (hfirst.append hown).append hlast
    -- code and origins are put together piece by piece in the same way
    rw [← List.zip_append (by rw [length_copies, Grafted.length_copyOrigins]),
      ← List.zip_append (by
        rw [List.length_append, List.length_append, length_copies, Grafted.length_copyOrigins]
        cases r.keeps <;> rfl), Nat.add_assoc] at hall
    exact hall

/-- Spliced code, with the origins of its instructions. -/
theorem exists_grafted {origins : List Origin} (operation number : Nat) (h : bound ≤ next)
    (hroom : NumbersFrom offset next plan.numbers) (hclosed : plan.Closed)
    (hlabels : ∀ insn ∈ plan.map Prod.fst, ∀ l ∈ insn.labels, l.number.toNat < bound)
    (hlength : origins.length = plan.length) :
    (plan.origins operation number origins).length = (plan.weave offset).length ∧
      ∃ last, Grafted bound next last ((plan.map Prod.fst).zip origins)
        ((plan.weave offset).zip (plan.origins operation number origins)) := by
  -- along the plan, each block uses labels and numbers beyond those of the blocks before it
  induction plan generalizing next offset number origins with
  | nil =>
    obtain rfl := List.length_eq_zero_iff.1 hlength
    exact ⟨rfl, next, .nil h⟩
  | cons entry plan ih =>
    obtain ⟨insn, r⟩ := entry
    obtain ⟨origin, origins, rfl⟩ := List.exists_cons_of_length_eq_add_one hlength
    obtain ⟨hhere, hthere⟩ := hclosed.cons
    rw [numbers] at hroom
    have hblock :=
      grafted_block operation number origin h hroom.left hhere (hlabels insn List.mem_cons_self)
    have hlater := fun insn hinsn => hlabels insn (List.mem_cons_of_mem _ hinsn)
    obtain ⟨hlength', last, hrest⟩ := ih (blockOrigins operation number origin r).2
      (h.trans hblock.next_le) (numbersFrom_block hroom) hthere hlater (Nat.succ.inj hlength)
    rw [weave_cons, origins_cons]
    have hall := hblock.append hrest
    rw [← List.zip_append length_blockOrigins.symm] at hall
    refine ⟨?_, last, hall⟩
    rw [List.length_append, List.length_append, length_blockOrigins, hlength']

end Plan

end Grafted

/-! ### What an operation does -/

section Operations

variable {site : Site} {op : Operation} {edited : MethodDecl} {done : Applied} {operation : Nat}
variable {origins : List Origin}

/-- Instructions exchanged where they stand, if those that mention labels stay as they are. -/
theorem Grafted.exchange {bound : Nat} {code : List Instruction}
    {change : Instruction → Instruction}
    (hlabels : ∀ insn ∈ code, ∀ l ∈ insn.labels, l.number.toNat < bound)
    (hsame : ∀ insn, insn.labels ≠ [] → change insn = insn)
    (hplain : ∀ insn, insn.labels = [] → (change insn).labels = [])
    (hlength : origins.length = code.length) :
    Grafted bound bound bound (code.zip origins) ((code.map change).zip origins) := by
  induction code generalizing origins with
  | nil => exact .nil le_rfl
  | cons insn code ih =>
    obtain ⟨origin, origins, rfl⟩ := List.exists_cons_of_length_eq_add_one hlength
    have hfirst : Grafted bound bound bound [(insn, origin)] [(change insn, origin)] := by
      -- an instruction that mentions labels is not exchanged
      by_cases h : insn.labels = []
      · exact .plain le_rfl (by simpa using h) (by simpa using hplain insn h)
      · rw [hsame insn h]
        exact .own le_rfl (hlabels insn List.mem_cons_self)
    exact hfirst.append (ih (fun insn hinsn => hlabels insn (List.mem_cons_of_mem _ hinsn))
      (Nat.succ.inj hlength))

theorem Instruction.labels_of_constant? {insn : Instruction} {c : Constant}
    (h : insn.constant? = some c) : insn.labels = [] := by
  cases insn with
  | label | jump | tableSwitch | lookupSwitch | line => cases h
  | _ => rfl

theorem Instruction.labels_load {c : Constant} : (Instruction.load c).labels = [] :=
  labels_of_constant? (constant?_load c)

theorem Instruction.labels_replacingConstant (source target : Constant) (insn : Instruction) :
    (insn.labels ≠ [] → insn.replacingConstant source target = insn) ∧
      (insn.labels = [] → (insn.replacingConstant source target).labels = []) := by
  unfold Instruction.replacingConstant
  split
  · rename_i h
    exact ⟨fun hlabels => absurd (labels_of_constant? h) hlabels, fun _ => labels_load⟩
  · exact ⟨fun _ => rfl, id⟩

theorem Instruction.labels_replacingString (source target : String) (insn : Instruction) :
    (insn.labels ≠ [] → insn.replacingString source target = insn) ∧
      (insn.labels = [] → (insn.replacingString source target).labels = []) := by
  obtain ⟨-, heq⟩ | ⟨value, rfl, -, heq⟩ := Instruction.replacingString_cases source target insn
  · rw [heq]
    exact ⟨fun _ => rfl, id⟩
  · rw [heq]
    exact ⟨fun hlabels => absurd rfl hlabels, fun _ => rfl⟩

theorem labels_discardArguments {call : MethodRef} {pops : List Instruction}
    (h : discardArguments call = .ok pops) : ∀ insn ∈ pops, insn.labels = [] := by
  obtain ⟨d, -, hpops⟩ := bind_eq_ok_iff.1 h
  cases hpops
  intro insn hinsn
  rcases List.mem_append.1 hinsn with hinsn | hinsn
  · obtain ⟨t, -, rfl⟩ := List.mem_map.1 hinsn
    rfl
  · split at hinsn
    · cases hinsn
    · obtain rfl := List.mem_singleton.1 hinsn
      rfl

/-- Code that only discards values is a closed fragment. -/
theorem closed_discardArguments {call : MethodRef} {pops : List Instruction}
    (h : discardArguments call = .ok pops) : (Fragment.ofCode pops).Closed := by
  have hlabels := labels_discardArguments h
  refine ⟨?_, fun insn hinsn l hl => ?_⟩
  · show (placedLabels pops).Nodup
    rw [placedLabels_of_labels_eq_nil hlabels]
    exact List.nodup_nil
  · rw [hlabels insn hinsn] at hl
    cases hl

/-- What takes the place of a call is a fragment of the source, or discards the arguments. -/
theorem substituteAt_eq_ok {replacement : Option FragmentSource} {call : MethodRef}
    {r : Replacement} (h : substituteAt site replacement call = .ok r) :
    ∃ f, r = ⟨[f], false, []⟩ ∧
      ((∃ source n, replacement = some source ∧ call.consumed = .ok n ∧
        source.resolve site n = .ok f) ∨
          ∃ pops, discardArguments call = .ok pops ∧ f = .ofCode pops) := by
  cases replacement with
  | some source =>
    obtain ⟨n, f, hn, hf, rfl⟩ := substituteAt_some_eq_ok_iff.1 h
    exact ⟨f, rfl, .inl ⟨source, n, rfl, hn, hf⟩⟩
  | none =>
    obtain ⟨pops, hpops, rfl⟩ := substituteAt_none_eq_ok_iff.1 h
    exact ⟨_, rfl, .inr ⟨pops, hpops, rfl⟩⟩

/-- Whether an operation puts fragments into the body. -/
def Operation.splices : Operation → Bool
  | .callAdvice _ _ _ | .replaceCall _ _ | .methodExit _ => true
  | _ => false

/-- An operation that splices follows a plan whose fragments are closed if those of the operation
are. -/
theorem Operation.exists_plan_closed (happly : op.apply site = .ok (edited, done))
    (hclosed : ∀ f, op.Resolves site f → f.Closed) (hsplices : op.splices = true) :
    ∃ plan, op.plan? site = some plan ∧ plan.map Prod.fst = site.method.code ∧ plan.Closed ∧
      edited = { site.method with code := plan.weave (freshLabel site.method.code) } := by
  cases op with
  | callAdvice calls before after =>
    obtain ⟨plan, hok, hedited⟩ := spliceCalls_eq happly
    obtain ⟨hfst, hmem⟩ := planCalls_eq_ok hok
    refine ⟨plan, by rw [plan?, hok]; rfl, hfst, fun insn r hr => ?_, hedited⟩
    obtain ⟨call, rfl, hinsn, haccepts, hadvice⟩ := hmem insn r hr
    obtain ⟨-, hbefore, hafter⟩ := adviceAt_eq_ok hadvice
    have hcall : call ∈ site.method.calls := List.mem_filterMap.2 ⟨_, hinsn, rfl⟩
    refine ⟨rfl, fun f hf => ?_, fun f hf => ?_⟩
    · obtain ⟨source, n, hsource, hn, hresolve, -⟩ := hbefore f hf
      exact hclosed f ⟨call, hcall, haccepts, .inl ⟨source, n, hsource, hn, hresolve⟩⟩
    · obtain ⟨source, n, hsource, hn, hresolve, -⟩ := hafter f hf
      exact hclosed f ⟨call, hcall, haccepts, .inr ⟨source, n, hsource, hn, hresolve⟩⟩
  | replaceCall calls replacement =>
    obtain ⟨plan, hok, hedited⟩ := spliceCalls_eq happly
    obtain ⟨hfst, hmem⟩ := planCalls_eq_ok hok
    refine ⟨plan, by rw [plan?, hok]; rfl, hfst, fun insn r hr => ?_, hedited⟩
    obtain ⟨call, rfl, hinsn, haccepts, hsubstitute⟩ := hmem insn r hr
    have hcall : call ∈ site.method.calls := List.mem_filterMap.2 ⟨_, hinsn, rfl⟩
    obtain ⟨f, rfl, hf⟩ := substituteAt_eq_ok hsubstitute
    refine ⟨rfl, fun f' hf' => ?_, fun f' hf' => absurd hf' List.not_mem_nil⟩
    obtain rfl := List.mem_singleton.1 hf'
    -- without a source, the arguments are discarded, by code that mentions no labels
    rcases hf with hsource | ⟨pops, hpops, rfl⟩
    · exact hclosed _ ⟨call, hcall, haccepts, hsource⟩
    · exact closed_discardArguments hpops
  | methodExit source =>
    obtain ⟨f, hresolve, -, hedited⟩ := spliceReturns_eq happly
    refine ⟨planReturns f site.method.code, by rw [plan?, hresolve]; rfl, map_fst_planReturns,
      fun insn r hr => ?_, hedited⟩
    obtain ⟨insn', -, hentry⟩ := List.mem_map.1 hr
    obtain ⟨rfl, hchoice⟩ := Prod.mk.inj hentry
    split at hchoice
    · rename_i hreturn
      cases hchoice
      refine ⟨?_, fun f' hf' => ?_, fun f' hf' => absurd hf' List.not_mem_nil⟩
      · cases insn' with
        | simple => rfl
        | _ => cases hreturn
      · obtain rfl := List.mem_singleton.1 hf'
        exact hclosed _ hresolve
    · cases hchoice
  | _ => cases hsplices

/-- A stub mentions no labels. -/
theorem MethodDecl.labels_stub {value : Option Constant} {m : MethodDecl}
    (h : m.stub value = .ok (edited, done)) :
    edited.handlers = [] ∧ ∀ insn ∈ edited.code, insn.labels = [] := by
  have hsimple (opcode : Opcode) : ∀ insn ∈ [Instruction.simple opcode], insn.labels = [] := by
    intro insn hinsn
    rw [List.mem_singleton.1 hinsn]
    rfl
  obtain ⟨-, rfl, -⟩ := stub_eq_ok h
  refine ⟨rfl, fun insn hinsn => ?_⟩
  rcases List.mem_append.1 hinsn with hinsn | hinsn
  · cases value with
    | some value =>
      rw [List.mem_singleton.1 hinsn]
      exact Instruction.labels_load
    | none =>
      -- a default value is pushed by one operation, or there is none to push
      rw [stubLoad] at hinsn
      unfold defaultLoad at hinsn
      split at hinsn
      · cases hinsn
      all_goals exact hsimple _ insn hinsn
  · exact hsimple _ insn hinsn

/-- An operation that splices grafts copies onto the body, which keeps its exception handlers. -/
theorem Operation.exists_grafted_of_splices (operation : Nat)
    (happly : op.apply site = .ok (edited, done))
    (hclosed : ∀ f, op.Resolves site f → f.Closed) (hsplices : op.splices = true)
    (hnumbers : ∀ plan, op.plan? site = some plan → plan.NumbersFit site.method.code)
    (hlength : origins.length = site.method.code.length) :
    let bound := numberBound (site.method.code.flatMap Instruction.labels)
    (op.origins site operation origins).length = edited.code.length ∧
      edited.handlers = site.method.handlers ∧
        ∃ last, Grafted bound bound last (site.method.code.zip origins)
          (edited.code.zip (op.origins site operation origins)) := by
  intro bound
  obtain ⟨plan, hplan, hfst, hplanned, rfl⟩ := exists_plan_closed happly hclosed hsplices
  have horigins : op.origins site operation origins = plan.origins operation 0 origins := by
    cases op with
    | callAdvice | replaceCall | methodExit => simp only [Operation.origins, hplan]
    | _ => cases hsplices
  have hold : ∀ insn ∈ plan.map Prod.fst, ∀ l ∈ insn.labels, l.number.toNat < bound := by
    rw [hfst]
    exact fun insn hinsn l hl => MethodDecl.number_lt_numberBound hinsn hl
  have hcount : origins.length = plan.length := by
    rw [hlength, ← hfst, List.length_map]
  obtain ⟨hlength', last, hgrafted⟩ :=
    plan.exists_grafted operation 0 le_rfl (hnumbers plan hplan).numbersFrom hplanned hold hcount
  rw [hfst] at hgrafted
  rw [horigins]
  exact ⟨hlength', rfl, last, hgrafted⟩

/-- What an operation leaves in the place of the body, or in the place of nothing if it replaces the
body as a whole. -/
theorem Operation.exists_grafted (operation : Nat) (happly : op.apply site = .ok (edited, done))
    (hclosed : ∀ f, op.Resolves site f → f.Closed)
    (hnumbers : ∀ plan, op.plan? site = some plan → plan.NumbersFit site.method.code)
    (hlength : origins.length = site.method.code.length) :
    (op.origins site operation origins).length = edited.code.length ∧ ∃ bound last A,
      Grafted bound bound last A (edited.code.zip (op.origins site operation origins)) ∧
        (A = [] ∧ edited.handlers = [] ∨
          A = site.method.code.zip origins ∧
            bound = numberBound (site.method.code.flatMap Instruction.labels) ∧
              edited.handlers = site.method.handlers) := by
  let bound := numberBound (site.method.code.flatMap Instruction.labels)
  have hbound : ∀ insn ∈ site.method.code, ∀ l ∈ insn.labels, l.number.toNat < bound :=
    fun insn hinsn l hl => MethodDecl.number_lt_numberBound hinsn hl
  have hsame : Grafted bound bound bound (site.method.code.zip origins)
      (site.method.code.zip origins) := by
    have h : Grafted _ _ _ _ ((site.method.code.map id).zip origins) :=
      Grafted.exchange hbound (fun _ _ => rfl) (fun _ => id) hlength
    rwa [List.map_id] at h
  -- an operation follows a plan, exchanges instructions one by one, or replaces the whole body
  by_cases hsplices : op.splices = true
  · obtain ⟨hlength', hhandlers, last, hgrafted⟩ :=
      exists_grafted_of_splices operation happly hclosed hsplices hnumbers hlength
    exact ⟨hlength', _, last, _, hgrafted, .inr ⟨rfl, rfl, hhandlers⟩⟩
  cases op with
  | replaceConstant source target =>
    obtain ⟨-, -, rfl | ⟨rfl, -⟩⟩ := MethodDecl.replaceConstant_eq_ok happly
    · exact ⟨hlength, _, _, _, hsame, .inr ⟨rfl, rfl, rfl⟩⟩
    · have hexchange := Grafted.exchange hbound
        (fun insn => (Instruction.labels_replacingConstant source target insn).1)
        (fun insn => (Instruction.labels_replacingConstant source target insn).2) hlength
      exact ⟨by simpa [Operation.origins] using hlength, _, _, _, hexchange, .inr ⟨rfl, rfl, rfl⟩⟩
  | replaceString source target =>
    obtain ⟨-, rfl | ⟨rfl, -⟩⟩ := MethodDecl.replaceString_cases (Except.ok.inj happly)
    · exact ⟨hlength, _, _, _, hsame, .inr ⟨rfl, rfl, rfl⟩⟩
    · have hexchange := Grafted.exchange hbound
        (fun insn => (Instruction.labels_replacingString source target insn).1)
        (fun insn => (Instruction.labels_replacingString source target insn).2) hlength
      exact ⟨by simpa [Operation.origins] using hlength, _, _, _, hexchange, .inr ⟨rfl, rfl, rfl⟩⟩
  | stub value =>
    obtain ⟨hhandlers, hlabels⟩ : edited.handlers = [] ∧ ∀ insn ∈ edited.code, insn.labels = [] :=
      MethodDecl.labels_stub happly
    have horigins : Operation.origins (.stub value) site operation origins =
        List.replicate edited.code.length (.copy operation 0) := by
      have hstub : site.method.stub value = .ok (edited, done) := happly
      simp only [Operation.origins, hstub]
    rw [horigins]
    refine ⟨List.length_replicate, 0, 0, [],
      .plain le_rfl (fun e he => absurd he List.not_mem_nil) ?_, .inl ⟨rfl, hhandlers⟩⟩
    rintro ⟨insn, origin⟩ he
    exact hlabels insn (List.of_mem_zip he).1
  | overwrite source =>
    obtain ⟨f, hresolve, hedited⟩ := bind_eq_ok_iff.1 happly
    cases hedited
    have horigins : Operation.origins (.overwrite source) site operation origins =
        List.replicate f.code.length (.copy operation 0) := by
      simp only [Operation.origins, hresolve]
    rw [horigins]
    exact ⟨by simp [MethodDecl.withBody, Fragment.relabeled], 0, _, [],
      .copy operation 0 le_rfl f.numbersFrom_zero (hclosed f hresolve), .inl ⟨rfl, rfl⟩⟩
  | _ => exact absurd rfl hsplices

end Operations

/-! ### What a block does -/

section Blocks

variable {m edited : MethodDecl} {handlers : List ExceptionHandler} {bound last : Nat}
variable {A B : List (Instruction × Origin)}

/-- Code with origins, in which labels are as a block of edits has to leave them. -/
structure Unmixed (m : MethodDecl) (handlers : List ExceptionHandler)
    (A : List (Instruction × Origin)) : Prop where
  placed_once : (placedLabels (A.map Prod.fst)).Nodup
  body : ∀ insn i, (insn, Origin.body i) ∈ A → insn.labels ≠ [] → m.code[i]? = some insn
  body_apart : ∀ insn i, (insn, Origin.body i) ∈ A → ∀ l ∈ insn.labels,
    ∀ origin, (Instruction.label l, origin) ∈ A → ∃ j, origin = .body j
  copy : ∀ insn operation number, (insn, Origin.copy operation number) ∈ A →
    ∀ l ∈ insn.labels, (Instruction.label l, Origin.copy operation number) ∈ A
  /-- Either nothing that mentions labels is left of the body, or all of its labels are. -/
  whole : (handlers = [] ∧ ∀ insn i, (insn, Origin.body i) ∈ A → insn.labels = []) ∨
    handlers = m.handlers ∧ ∀ i l, m.code[i]? = some (.label l) →
      (Instruction.label l, Origin.body i) ∈ A

namespace Unmixed

theorem nothing : Unmixed m [] [] :=
  ⟨List.nodup_nil, nofun, nofun, nofun, .inl ⟨rfl, nofun⟩⟩

/-- Labels are not mixed up before any edit. -/
theorem start (h : (placedLabels m.code).Nodup) :
    Unmixed m m.handlers (m.code.zip m.origins) := by
  have hcode : (m.code.zip m.origins).map Prod.fst = m.code :=
    List.map_fst_zip (by simp [MethodDecl.origins])
  have horigin {i : Nat} (hi : i < m.code.length) : m.origins[i]? = some (.body i) := by
    simp [MethodDecl.origins, hi]
  have hbody {insn : Instruction} {origin : Origin} (he : (insn, origin) ∈ m.code.zip m.origins) :
      ∃ i, origin = .body i ∧ m.code[i]? = some insn := by
    obtain ⟨i, hi⟩ := List.getElem?_of_mem he
    obtain ⟨hinsn, hi⟩ := List.getElem?_zip_eq_some.1 hi
    rw [horigin (List.getElem?_eq_some_iff.1 hinsn).1] at hi
    exact ⟨i, (Option.some.inj hi).symm, hinsn⟩
  -- there are no copies yet
  refine ⟨hcode.symm ▸ h, ?_, ?_, ?_, .inr ⟨rfl, fun i l hl => ?_⟩⟩
  · intro insn i he _
    obtain ⟨j, hj, hinsn⟩ := hbody he
    rwa [Origin.body.inj hj]
  · intro _ _ _ _ _ _ hl
    obtain ⟨j, hj, -⟩ := hbody hl
    exact ⟨j, hj⟩
  · intro insn operation number he
    obtain ⟨_, hj, -⟩ := hbody he
    cases hj
  · have hlt := (List.getElem?_eq_some_iff.1 hl).1
    exact List.mem_of_getElem? (List.getElem?_zip_eq_some.2 ⟨hl, horigin hlt⟩)

/-- Labels stay apart when something else is put in the place of code. -/
theorem grafted (h : Unmixed m handlers A) (hgrafted : Grafted bound bound last A B)
    (hbound : ∀ e ∈ A, ∀ l ∈ e.1.labels, l.number.toNat < bound) : Unmixed m handlers B := by
  have hplaced (l : Label) : (Instruction.label l).labels ≠ [] := List.cons_ne_nil _ _
  have hbody {insn : Instruction} {i : Nat} (he : (insn, Origin.body i) ∈ B)
      (hlabels : insn.labels ≠ []) : (insn, Origin.body i) ∈ A := by
    refine (hgrafted.entry _ he hlabels).resolve_right ?_
    rintro ⟨_, _, horigin, -⟩
    cases horigin
  refine ⟨?_, fun insn i he hlabels => h.body insn i (hbody he hlabels) hlabels, ?_, ?_, ?_⟩
  · -- old labels are placed as often as before, and new ones once
    rw [List.nodup_iff_count_le_one]
    intro l
    by_cases hl : l.number.toNat < bound
    · rw [hgrafted.count_old l hl]
      exact List.nodup_iff_count_le_one.1 h.placed_once l
    · exact hgrafted.count_new l (not_lt.1 hl)
  · intro insn i he l hl origin hlabel
    have hold := hbody he (List.ne_nil_of_mem hl)
    rcases hgrafted.entry _ hlabel (hplaced l) with hlabel | ⟨_, _, -, hnew⟩
    · exact h.body_apart insn i hold l hl origin hlabel
    · -- a label that a copy brings along is not mentioned by the body
      have hnumber := (hnew l (by simp [Instruction.labels])).1
      exact absurd (hbound _ hold l hl) (not_lt.2 hnumber)
  · -- an earlier copy keeps all that mentions labels, even if something is put into its middle
    intro insn operation number he l hl
    rcases hgrafted.entry _ he (List.ne_nil_of_mem hl) with hold | ⟨_, _, -, hnew⟩
    · exact hgrafted.kept _ (h.copy insn operation number hold l hl) (hplaced l)
    · exact (hnew l hl).2
  · -- the body is gone and stays so, or it is complete and what its labels need is kept
    rcases h.whole with ⟨hnone, hgone⟩ | ⟨hall, hlabels⟩
    · refine .inl ⟨hnone, fun insn i he => ?_⟩
      by_contra hne
      exact hne (hgone insn i (hbody he hne))
    · exact .inr ⟨hall, fun i l hl => hgrafted.kept _ (hlabels i l hl) (hplaced l)⟩

/-- What it means for labels not to be mixed up. -/
theorem keeps_hygiene {origins : List Origin}
    (hhandlers : ∀ b ∈ m.handlers, ∀ l ∈ b.labels, .label l ∈ m.code)
    (hlength : origins.length = edited.code.length)
    (h : Unmixed m edited.handlers (edited.code.zip origins)) : Hygiene m edited origins := by
  have hcode : (edited.code.zip origins).map Prod.fst = edited.code :=
    List.map_fst_zip hlength.ge
  have hplaced : (placedLabels edited.code).Nodup := hcode ▸ h.placed_once
  have hmem {p : Nat} {insn : Instruction} {origin : Origin} (hinsn : edited.code[p]? = some insn)
      (horigin : origins[p]? = some origin) : (insn, origin) ∈ edited.code.zip origins :=
    List.mem_of_getElem? (List.getElem?_zip_eq_some.2 ⟨hinsn, horigin⟩)
  have hposition {l : Label} {origin : Origin}
      (hl : (Instruction.label l, origin) ∈ edited.code.zip origins) :
      ∃ p, labelPosition? l edited.code = some p ∧ origins[p]? = some origin := by
    obtain ⟨p, hp⟩ := List.getElem?_of_mem hl
    obtain ⟨hinsn, horigin⟩ := List.getElem?_zip_eq_some.1 hp
    exact ⟨p, labelPosition?_of_nodup hplaced hinsn, horigin⟩
  -- a label of the body that is still there is found where it went
  have hfound {l : Label} {q : Nat} (hq : labelPosition? l m.code = some q)
      (hlabels : ∀ i l, m.code[i]? = some (.label l) →
        (Instruction.label l, Origin.body i) ∈ edited.code.zip origins) :
      SamePlace m edited origins l := by
    obtain ⟨p, hp, horigin⟩ := hposition (hlabels q l (getElem?_of_labelPosition? hq))
    rw [SamePlace, hp, hq]
    exact horigin
  refine ⟨hlength, hplaced, ?_, ?_, ?_⟩
  · intro p i insn hinsn horigin hne
    have he := hmem hinsn horigin
    refine ⟨h.body insn i he hne, fun l hl => ?_⟩
    obtain ⟨-, hlabels⟩ := h.whole.resolve_left fun ⟨_, hgone⟩ => hne (hgone insn i he)
    cases hq : labelPosition? l m.code with
    | some q => exact hfound hq hlabels
    | none =>
      -- no copy places a label that the body mentions
      cases hp : labelPosition? l edited.code with
      | none => rw [SamePlace, hp, hq]; rfl
      | some p' =>
        have hlabel := getElem?_of_labelPosition? hp
        have hlt : p' < origins.length := hlength ▸ labelPosition?_lt hp
        have he' := hmem hlabel (List.getElem?_eq_getElem hlt)
        obtain ⟨j, hj⟩ := h.body_apart insn i he l hl _ he'
        rw [hj] at he'
        have hbody := h.body _ j he' nofun
        have hsome := exists_labelPosition?_iff.2 (List.mem_of_getElem? hbody)
        rw [hq] at hsome
        obtain ⟨_, hnone⟩ := hsome
        cases hnone
  · intro b hb
    obtain ⟨hsame, hlabels⟩ := h.whole.resolve_left fun ⟨hnone, _⟩ => by rw [hnone] at hb; cases hb
    rw [hsame] at hb
    refine ⟨hb, fun l hl => ?_⟩
    obtain ⟨q, hq⟩ := exists_labelPosition?_iff.2 (hhandlers b hb l hl)
    exact hfound hq hlabels
  · intro p operation number insn hinsn horigin l hl
    exact hposition (h.copy insn operation number (hmem hinsn horigin) l hl)

end Unmixed

namespace Block

variable {owner : ClassDecl} {registration : String}

theorem ClosedFragments.of_prefix {ops all : List Operation} (hbegins : ops <+: all)
    (h : ClosedFragments owner registration all m) : ClosedFragments owner registration ops m := by
  induction ops generalizing all m with
  | nil => trivial
  | cons op ops ih =>
    obtain ⟨rest, rfl⟩ := hbegins
    obtain ⟨hop, hlater⟩ := h
    exact ⟨hop, fun edited done happly =>
      ih (List.prefix_append ops rest) (hlater edited done happly)⟩

theorem NumbersFit.of_prefix {ops all : List Operation} (hbegins : ops <+: all)
    (h : NumbersFit owner registration all m) : NumbersFit owner registration ops m := by
  induction ops generalizing all m with
  | nil => trivial
  | cons op ops ih =>
    obtain ⟨rest, rfl⟩ := hbegins
    obtain ⟨hop, hlater⟩ := h
    exact ⟨hop, fun edited done happly =>
      ih (List.prefix_append ops rest) (hlater edited done happly)⟩

/-- Operations with closed fragments keep the labels apart, one after the other. -/
theorem unmixed_applyAll {current : MethodDecl} {ops : List Operation} {done : List Applied}
    {origins : List Origin} (operation : Nat)
    (h : Unmixed m current.handlers (current.code.zip origins))
    (hlength : origins.length = current.code.length)
    (hclosed : ClosedFragments owner registration ops current)
    (hnumbers : NumbersFit owner registration ops current)
    (happly : applyAll owner registration ops current = .ok (edited, done)) :
    (Block.origins owner registration operation ops current origins).length = edited.code.length ∧
      Unmixed m edited.handlers
        (edited.code.zip (Block.origins owner registration operation ops current origins)) := by
  -- what one operation leaves is grafted onto what it found, so the labels stay unmixed
  induction ops generalizing current origins operation done with
  | nil =>
    cases happly
    exact ⟨hlength, h⟩
  | cons op ops ih =>
    obtain ⟨⟨next, applied⟩, hfirst, hbind⟩ := bind_eq_ok_iff.1 happly
    obtain ⟨⟨final, others⟩, hrest, hdone⟩ := bind_eq_ok_iff.1 hbind
    cases hdone
    obtain ⟨hop, hlater⟩ := hclosed
    obtain ⟨hfit, hfits⟩ := hnumbers
    obtain ⟨hlength', bound, last, A, hgrafted, hcase⟩ :=
      Operation.exists_grafted operation hfirst hop hfit hlength
    have hnext : Unmixed m next.handlers
        (next.code.zip (op.origins ⟨owner, current, registration⟩ operation origins)) := by
      rcases hcase with ⟨rfl, hnone⟩ | ⟨rfl, rfl, hsame⟩
      · rw [hnone]
        exact Unmixed.nothing.grafted hgrafted nofun
      · rw [hsame]
        refine h.grafted hgrafted fun e he l hl => ?_
        exact MethodDecl.number_lt_numberBound (List.of_mem_zip he).1 hl
    have horigins : Block.origins owner registration operation (op :: ops) current origins =
        Block.origins owner registration (operation + 1) ops next
          (op.origins ⟨owner, current, registration⟩ operation origins) := by
      rw [Block.origins, hfirst]
    rw [horigins]
    exact ih (operation + 1) hnext hlength' (hlater next applied hfirst)
      (hfits next applied hfirst) hrest

/-- After each operation of a block whose fragments are closed, the labels of the body and those of
all copies are what they were, and none is placed twice, as long as there are label numbers left for
the copies. -/
theorem hygiene {ops all : List Operation} {done : List Applied}
    (hm : (placedLabels m.code).Nodup)
    (hhandlers : ∀ b ∈ m.handlers, ∀ l ∈ b.labels, .label l ∈ m.code)
    (hclosed : ClosedFragments owner registration all m)
    (hnumbers : NumbersFit owner registration all m) (hbegins : ops <+: all)
    (happly : applyAll owner registration ops m = .ok (edited, done)) :
    Hygiene m edited (Block.origins owner registration 0 ops m m.origins) := by
  have hlength : m.origins.length = m.code.length := by simp [MethodDecl.origins]
  obtain ⟨hlength', hunmixed⟩ := unmixed_applyAll 0 (Unmixed.start hm) hlength
    (hclosed.of_prefix hbegins) (hnumbers.of_prefix hbegins) happly
  exact hunmixed.keeps_hygiene hhandlers hlength'

end Block

/-- A loop around two calls inside a handler. The same branching fragment is put before each call,
then before the return. -/
theorem Block.hygiene_of_loop :
    let call : Instruction := .invokeStatic "a" "g" "()V"
    let handler : ExceptionHandler := ⟨⟨0⟩, ⟨1⟩, ⟨1⟩, none⟩
    let m : MethodDecl := ⟨"f", "()V", ⟨8⟩, [], .void, [.label ⟨0⟩, call, call,
      .jump Opcode.goto ⟨0⟩, .label ⟨1⟩, .simple Opcode.vreturn], [handler], 1, 0⟩
    let owner : ClassDecl := ⟨"a", none, [], .none, [], [m], []⟩
    let f : Fragment :=
      ⟨[.simple Opcode.iconst0, .jump Opcode.ifeq ⟨0⟩, .label ⟨0⟩], 0, 1, some 0⟩
    let ops : List Operation := [.callAdvice .empty (some (.fixed f)) none, .methodExit (.fixed f)]
    let edited : MethodDecl := { m with code := [.label ⟨0⟩,
      .simple Opcode.iconst0, .jump Opcode.ifeq ⟨2⟩, .label ⟨2⟩, call,
      .simple Opcode.iconst0, .jump Opcode.ifeq ⟨3⟩, .label ⟨3⟩, call,
      .jump Opcode.goto ⟨0⟩, .label ⟨1⟩,
      .simple Opcode.iconst0, .jump Opcode.ifeq ⟨4⟩, .label ⟨4⟩, .simple Opcode.vreturn] }
    let done : List Applied :=
      [⟨.adviceInserted, 2, "around a.g()V"⟩, ⟨.exitInjected, 1, "3 instructions per exit"⟩]
    (placedLabels m.code).Nodup ∧ (∀ b ∈ m.handlers, ∀ l ∈ b.labels, .label l ∈ m.code) ∧
      Block.ClosedFragments owner "b" ops m ∧ Block.NumbersFit owner "b" ops m ∧
      Block.applyAll owner "b" ops m = .ok (edited, done) ∧
      Hygiene m edited [.body 0, .copy 0 0, .copy 0 0, .copy 0 0, .body 1, .copy 0 1, .copy 0 1,
        .copy 0 1, .body 2, .body 3, .body 4, .copy 1 0, .copy 1 0, .copy 1 0, .body 5] := by
  intro call handler m owner f ops edited done
  have hm : (placedLabels m.code).Nodup := by decide
  have hhandlers : ∀ b ∈ m.handlers, ∀ l ∈ b.labels, .label l ∈ m.code := by decide
  have hf : f.Closed := ⟨by decide, by decide⟩
  have hclosed : Block.ClosedFragments owner "b" ops m := by
    refine ⟨?_, fun edited done _ => ⟨?_, fun _ _ _ => trivial⟩⟩
    · rintro _ ⟨_, _, _, ⟨_, _, ⟨⟩, _, ⟨⟩⟩ | ⟨_, _, ⟨⟩, _⟩⟩
      exact hf
    · rintro _ ⟨⟩
      exact hf
  have hnumbers : Block.NumbersFit owner "b" ops m := by
    have hfits (op : Operation) (m : MethodDecl)
        (h : (op.plan? ⟨owner, m, "b"⟩).all (fun plan => plan.NumbersFit m.code) = true) :
        ∀ plan, op.plan? ⟨owner, m, "b"⟩ = some plan → plan.NumbersFit m.code := by
      intro plan hplan
      simpa [hplan] using h
    refine ⟨hfits _ _ (by cbv), fun next applied hnext => ⟨hfits _ _ ?_, fun _ _ _ => trivial⟩⟩
    -- the second operation finds what the first one has left
    let half : MethodDecl := { m with code := [.label ⟨0⟩,
      .simple Opcode.iconst0, .jump Opcode.ifeq ⟨2⟩, .label ⟨2⟩, call,
      .simple Opcode.iconst0, .jump Opcode.ifeq ⟨3⟩, .label ⟨3⟩, call,
      .jump Opcode.goto ⟨0⟩, .label ⟨1⟩, .simple Opcode.vreturn] }
    have hfirst : (Operation.callAdvice .empty (some (.fixed f)) none).apply ⟨owner, m, "b"⟩ =
      .ok (half, ⟨.adviceInserted, 2, "around a.g()V"⟩) := by cbv
    obtain rfl : next = half := congrArg Prod.fst (Except.ok.inj (hnext.symm.trans hfirst))
    cbv
  have happly : Block.applyAll owner "b" ops m = .ok (edited, done) := by cbv
  have horigins : Block.origins owner "b" 0 ops m m.origins = [.body 0, .copy 0 0, .copy 0 0,
      .copy 0 0, .body 1, .copy 0 1, .copy 0 1, .copy 0 1, .body 2, .body 3, .body 4, .copy 1 0,
      .copy 1 0, .copy 1 0, .body 5] := by cbv
  exact ⟨hm, hhandlers, hclosed, hnumbers, happly,
    horigins ▸ Block.hygiene hm hhandlers hclosed hnumbers List.prefix_rfl happly⟩

/-- A body that places two labels, the last number but one among them, and a fragment with two
labels before its return. The first label of the copy gets the last number and the second one wraps
around to the first label of the body, which is then placed twice and found in the copy. -/
theorem Block.hygiene_not_of_last_number :
    let m : MethodDecl := ⟨"f", "()V", ⟨8⟩, [], .void, [.label ⟨0⟩, .simple Opcode.iconst0,
      .jump Opcode.ifeq ⟨0⟩, .label ⟨4294967294⟩, .simple Opcode.vreturn], [], 1, 0⟩
    let owner : ClassDecl := ⟨"a", none, [], .none, [], [m], []⟩
    let f : Fragment := .ofCode [.label ⟨0⟩, .label ⟨1⟩]
    let edited : MethodDecl := { m with code := [.label ⟨0⟩, .simple Opcode.iconst0,
      .jump Opcode.ifeq ⟨0⟩, .label ⟨4294967294⟩, .label ⟨4294967295⟩, .label ⟨0⟩,
      .simple Opcode.vreturn] }
    let ops : List Operation := [.methodExit (.fixed f)]
    let origins := Block.origins owner "b" 0 ops m m.origins
    (placedLabels m.code).Nodup ∧ m.handlers = [] ∧ f.Closed ∧
      Block.applyAll owner "b" ops m =
        .ok (edited, [⟨.exitInjected, 1, "2 instructions per exit"⟩]) ∧
        ¬ (placedLabels edited.code).Nodup ∧ ¬ SamePlace m edited origins ⟨0⟩ := by
  intro m owner f edited ops origins
  have hplace : labelPosition? ⟨0⟩ m.code = some 0 := by decide
  have hplace' : labelPosition? ⟨0⟩ edited.code = some 5 := by decide
  have horigins : origins =
      [.body 0, .body 1, .body 2, .body 3, .copy 0 0, .copy 0 0, .body 4] := by
    cbv
  refine ⟨by decide, rfl, ⟨by decide, by decide⟩, by cbv, by decide, ?_⟩
  rw [SamePlace, hplace, hplace', horigins]
  decide

end Blocks

end ClassEdit
