import ClassEdit.Proofs.ControlFlow

/-!
# Code with the heights written beside it

Beside each instruction stands the height with which control reaches it, or nothing where control
does not get. Such notes are linked if every height follows from the one before it: what an
instruction leaves is noted beside the next one, if control goes on, and is known for every label
that the instruction branches to. Linked notes are kept by control, so they are a proof that no
place is reached with another height. The notes may be the heights themselves, as for a fragment, or
the heights as a search counts them, in 16 bits.

Whether notes are linked is a matter of each instruction and what comes right behind it, so linked
pieces can be put together; only the heights known for labels concern the whole.

## Main definitions

* `AnnotatedCode`, `AnnotatedCode.noteAt?`: code with heights beside it, and what is noted at the
  place of a label.
* `Linked`: notes that follow from each other.
* `AnnotatedCode.Holds`: the points that the notes speak of, the end of the code among them.

## Main results

* `Linked.append`: linked pieces put together.
* `Linked.step`: control keeps to linked notes.
* `Linked.of_forall`: notes that are right at every place are linked.
-/

namespace ClassEdit

/-- Code with the height before each instruction, or nothing where it is not reached. -/
abbrev AnnotatedCode := List (Instruction × Option Int)

namespace AnnotatedCode

variable {A B : AnnotatedCode} {insn : Instruction} {note : Option Int} {l : Label}

/-- The code without the notes. -/
def code (A : AnnotatedCode) : List Instruction := A.map Prod.fst

/-- The height noted at a place. -/
def heightAt? (A : AnnotatedCode) (i : Nat) : Option Int := A[i]?.bind Prod.snd

/-- What is noted at the place of a label, the last one if there are several. -/
def noteAt? (l : Label) : AnnotatedCode → Option (Option Int)
  | [] => none
  | (insn, note) :: rest =>
    (noteAt? l rest).or (if insn.placed? = some l then some note else none)

/-- The height noted at a label. -/
def labelHeight? (A : AnnotatedCode) (l : Label) : Option Int := (noteAt? l A).join

@[simp] theorem code_nil : code [] = [] := rfl

@[simp] theorem code_cons : code ((insn, note) :: A) = insn :: A.code := rfl

@[simp] theorem code_append : (A ++ B).code = A.code ++ B.code := List.map_append

/-- Code in which nothing is reached. -/
@[simp] theorem code_unreached (insns : List Instruction) :
    code (insns.map fun insn => (insn, none)) = insns := by
  simp [code, Function.comp_def]

@[simp] theorem length_code : A.code.length = A.length := List.length_map ..

theorem getElem?_code {i : Nat} : A.code[i]? = A[i]?.map Prod.fst := List.getElem?_map ..

theorem heightAt?_eq_some_iff {i : Nat} {k : Int} :
    A.heightAt? i = some k ↔ ∃ insn, A[i]? = some (insn, some k) := by
  rw [heightAt?, Option.bind_eq_some_iff]
  constructor
  · rintro ⟨⟨insn, note⟩, hi, hnote⟩
    exact ⟨insn, hi.trans (congrArg (fun note => some (insn, note)) hnote)⟩
  · rintro ⟨insn, hi⟩
    exact ⟨_, hi, rfl⟩

@[simp] theorem heightAt?_cons_succ {i : Nat} :
    heightAt? ((insn, note) :: A) (i + 1) = A.heightAt? i := by
  simp [heightAt?]

/-- In two parts of code, what is noted in the second part counts. -/
theorem noteAt?_append : noteAt? l (A ++ B) = (noteAt? l B).or (noteAt? l A) := by
  induction A with
  | nil => exact (Option.or_none).symm
  | cons entry A ih =>
    rw [List.cons_append, noteAt?, noteAt?, ih, Option.or_assoc]

/-- The note at a label stands at the position of the label. -/
theorem noteAt?_eq : noteAt? l A = (labelPosition? l A.code).bind fun p => A[p]?.map Prod.snd := by
  induction A with
  | nil => rfl
  | cons entry A ih =>
    obtain ⟨insn, note⟩ := entry
    rw [noteAt?, ih, code_cons, labelPosition?_cons]
    -- the last place counts, so the rest of the code is asked first
    cases hrest : labelPosition? l (code A) with
    | some p =>
      have hlt : p < A.length := by simpa using labelPosition?_lt hrest
      simp [hlt]
    | none =>
      by_cases hhere : insn.placed? = some l <;> simp [hhere]

theorem noteAt?_of_position {p : Nat} {insn : Instruction}
    (hplace : labelPosition? l A.code = some p) (hp : A[p]? = some (insn, note)) :
    noteAt? l A = some note := by
  simp [noteAt?_eq, hplace, hp]

/-- A height noted at a label is the height at its place. -/
theorem heightAt?_of_noteAt? {p : Nat} {k : Int} (hplace : labelPosition? l A.code = some p)
    (hnote : noteAt? l A = some (some k)) : A.heightAt? p = some k := by
  rw [noteAt?_eq, hplace, Option.bind_some] at hnote
  obtain ⟨⟨insn, note⟩, hentry, hsame⟩ := Option.map_eq_some_iff.1 hnote
  obtain rfl : note = some k := hsame
  exact heightAt?_eq_some_iff.2 ⟨insn, hentry⟩

theorem labelHeight?_eq_some_iff {k : Int} :
    A.labelHeight? l = some k ↔ noteAt? l A = some (some k) := by
  rw [labelHeight?, Option.join_eq_some_iff]

/-- What is noted at a label is noted beside an instruction that places it. -/
theorem mem_of_noteAt? (h : noteAt? l A = some note) : (Instruction.label l, note) ∈ A := by
  rw [noteAt?_eq] at h
  obtain ⟨p, hplace, hp⟩ := Option.bind_eq_some_iff.1 h
  obtain ⟨⟨insn, note'⟩, hentry, rfl⟩ := Option.map_eq_some_iff.1 hp
  have hinsn := getElem?_of_labelPosition? hplace
  rw [getElem?_code, hentry] at hinsn
  cases hinsn
  exact List.mem_of_getElem? hentry

/-- Something is noted at a label exactly if the label is placed. -/
theorem noteAt?_ne_none_iff : noteAt? l A ≠ none ↔ Instruction.label l ∈ A.code := by
  constructor
  · intro h
    obtain ⟨note, hnote⟩ := Option.ne_none_iff_exists'.1 h
    exact List.mem_map_of_mem (mem_of_noteAt? hnote)
  · intro h hnone
    obtain ⟨p, hp⟩ := exists_labelPosition?_iff.2 h
    have hlt : p < A.length := by simpa using labelPosition?_lt hp
    simp [noteAt?_eq, hp, hlt] at hnone

/-- The notes speak of a point: it stands beside them, or it is the end with the height left
there. -/
def Holds (A : AnnotatedCode) (leaving : Option Int) (p : Point) : Prop :=
  A.heightAt? p.index = some p.height ∨ p.index = A.length ∧ leaving = some p.height

theorem holds_cons_succ {leaving : Option Int} {i : Nat} {k : Int} :
    Holds ((insn, note) :: A) leaving ⟨i + 1, k⟩ ↔ A.Holds leaving ⟨i, k⟩ := by
  simp [Holds]

end AnnotatedCode

/-! ### Linked notes -/

section Linked

variable {count : Int → Int} {P Q : Instruction → StackEffect → Int → Prop}
variable {known known' : Label → Option Int} {arriving between leaving : Option Int}
variable {A B : AnnotatedCode}

/-- Notes that follow from each other, between the height that arrives at the code and the one that
leaves it. Each instruction that is reached has to meet the condition `P` with its effect and the
height before it, and to find the height that it leaves known for the labels it branches to. What is
noted of a height is what `count` makes of it. -/
inductive Linked (count : Int → Int) (P : Instruction → StackEffect → Int → Prop)
    (known : Label → Option Int) : Option Int → AnnotatedCode → Option Int → Prop
  | nil {arriving leaving : Option Int} (h : ∀ k, arriving = some k → leaving = some k) :
      Linked count P known arriving [] leaving
  | unreached {insn : Instruction} {rest : AnnotatedCode} {leaving : Option Int}
      (hrest : Linked count P known none rest leaving) :
      Linked count P known none ((insn, none) :: rest) leaving
  | reached {arriving leaving : Option Int} {insn : Instruction} {h : Int} {e : StackEffect}
      {rest : AnnotatedCode} (harriving : ∀ k, arriving = some k → k = h)
      (heffect : insn.effect = .ok e) (hcondition : P insn e h)
      (htargets : ∀ l ∈ insn.targets, known l = some (count (h + e.net)))
      (hrest : Linked count P known
        (if insn.flow.fallsThrough then some (count (h + e.net)) else none) rest leaving) :
      Linked count P known arriving ((insn, some h) :: rest) leaving

namespace Linked

/-- Nothing needs to arrive. -/
theorem arriving_none (h : Linked count P known arriving A leaving) :
    Linked count P known none A leaving := by
  cases h with
  | nil => exact .nil nofun
  | unreached hrest => exact .unreached hrest
  | reached _ heffect hcondition htargets hrest =>
    exact .reached nofun heffect hcondition htargets hrest

/-- An instruction that only goes on is linked if what it leaves is. -/
theorem of_sequential {insn : Instruction} {e : StackEffect} {k k' : Int}
    (hflow : insn.flow = .sequential) (heffect : insn.effect = .ok e) (hcondition : P insn e k)
    (hnet : count (k + e.net) = k') (hrest : Linked count P known (some k') A leaving) :
    Linked count P known (some k) ((insn, some k) :: A) leaving := by
  have htargets : insn.targets = [] := Instruction.targets_eq_nil (by rw [hflow]; rfl)
  refine .reached (fun _ hk => (Option.some.inj hk).symm) heffect hcondition ?_ ?_
  · simp [htargets]
  · rw [hflow, hnet]
    exact hrest

/-- Where nothing leaves, anything may be said to leave. -/
theorem leaving_none (h : Linked count P known arriving A none) :
    Linked count P known arriving A leaving := by
  -- what leaves is the same for all pieces, and it must be a variable for the induction
  generalize hleaving : (none : Option Int) = out at h
  induction h with
  | nil h =>
    subst hleaving
    exact .nil fun k hk => nomatch h k hk
  | unreached _ ih => exact .unreached (ih hleaving)
  | reached harriving heffect hcondition htargets _ ih =>
    exact .reached harriving heffect hcondition htargets (ih hleaving)

/-- Linked pieces put together are linked. -/
theorem append (h : Linked count P known arriving A between)
    (h' : Linked count P known between B leaving) :
    Linked count P known arriving (A ++ B) leaving := by
  induction h with
  | @nil arriving between hle =>
    -- less may arrive than the second piece was linked for
    cases arriving with
    | none => exact h'.arriving_none
    | some k => exact hle k rfl ▸ h'
  | unreached _ ih => exact .unreached (ih h')
  | reached harriving heffect hcondition htargets _ ih =>
    exact .reached harriving heffect hcondition htargets (ih h')

/-- Linked notes come apart behind the first instruction. -/
theorem exists_between {entry : Instruction × Option Int}
    (h : Linked count P known arriving (entry :: A) leaving) :
    ∃ between, Linked count P known arriving [entry] between ∧
      Linked count P known between A leaving ∧
      ∀ k, between = some k → ∃ h e, entry.2 = some h ∧ entry.1.effect = .ok e ∧
        P entry.1 e h ∧ k = count (h + e.net) := by
  cases h with
  | unreached hrest => exact ⟨none, .unreached (.nil nofun), hrest, nofun⟩
  | @reached _ _ insn h e _ harriving heffect hcondition htargets hrest =>
    refine ⟨_, .reached harriving heffect hcondition htargets (.nil fun _ => id), hrest,
      fun k hk => ⟨h, e, rfl, heffect, hcondition, ?_⟩⟩
    split at hk
    · exact (Option.some.inj hk).symm
    · cases hk

/-- Conditions may be weakened, and more labels may be known. -/
theorem mono (h : Linked count P known arriving A leaving)
    (hcondition : ∀ insn e k, (insn, some k) ∈ A → insn.effect = .ok e → P insn e k → Q insn e k)
    (hknown : ∀ insn ∈ A.code, ∀ l ∈ insn.targets, ∀ k, known l = some k → known' l = some k) :
    Linked count Q known' arriving A leaving := by
  induction h with
  | nil h => exact .nil h
  | unreached _ ih =>
    refine .unreached (ih ?_ ?_)
    · exact fun insn e k hmem => hcondition insn e k (List.mem_cons_of_mem _ hmem)
    · exact fun insn hmem => hknown insn (List.mem_cons_of_mem _ hmem)
  | reached harriving heffect hhere htargets _ ih =>
    refine .reached harriving heffect (hcondition _ _ _ List.mem_cons_self heffect hhere) ?_
      (ih ?_ ?_)
    · exact fun l hl => hknown _ List.mem_cons_self l hl _ (htargets l hl)
    · exact fun insn e k hmem => hcondition insn e k (List.mem_cons_of_mem _ hmem)
    · exact fun insn hmem => hknown insn (List.mem_cons_of_mem _ hmem)

/-- Code that is not reached is linked. -/
theorem unreached_code (code : List Instruction) :
    Linked count P known none (code.map fun insn => (insn, none)) leaving := by
  induction code with
  | nil => exact .nil nofun
  | cons insn code ih => exact .unreached ih

/-! ### Control keeps to the notes -/

/-- What arrives is noted. -/
theorem holds_start {k : Int} (h : Linked count P known (some k) A leaving) :
    A.Holds leaving ⟨0, k⟩ := by
  cases h with
  | nil h => exact .inr ⟨rfl, h k rfl⟩
  | reached harriving => exact .inl (by simp [AnnotatedCode.heightAt?, harriving k rfl])

/-- What linked notes say about an instruction that is reached. -/
theorem at_reached (h : Linked count P known arriving A leaving) {i : Nat} {insn : Instruction}
    {k : Int}
    (hi : A[i]? = some (insn, some k)) :
    ∃ e, insn.effect = .ok e ∧ P insn e k ∧
      (∀ l ∈ insn.targets, known l = some (count (k + e.net))) ∧
      (insn.flow.fallsThrough = true → A.Holds leaving ⟨i + 1, count (k + e.net)⟩) := by
  -- along the links; the place in question is the first one, or one of the links behind it
  induction h generalizing i with
  | nil => simp at hi
  | unreached _ ih =>
    cases i with
    | zero => simp at hi
    | succ i =>
      obtain ⟨e, heffect, hcondition, htargets, hnext⟩ := ih (by simpa using hi)
      exact ⟨e, heffect, hcondition, htargets,
        fun hflow => AnnotatedCode.holds_cons_succ.2 (hnext hflow)⟩
  | @reached _ _ _ _ e _ _ heffect hcondition htargets hrest ih =>
    cases i with
    | zero =>
      obtain ⟨rfl, rfl⟩ : _ ∧ _ := by simpa using hi
      refine ⟨e, heffect, hcondition, htargets, fun hflow => ?_⟩
      rw [if_pos hflow] at hrest
      exact AnnotatedCode.holds_cons_succ.2 hrest.holds_start
    | succ i =>
      obtain ⟨e', heffect', hcondition', htargets', hnext⟩ := ih (by simpa using hi)
      exact ⟨e', heffect', hcondition', htargets',
        fun hflow => AnnotatedCode.holds_cons_succ.2 (hnext hflow)⟩

/-- A step from a point that the notes speak of leads to another one, or to a label for which the
right height is known. -/
theorem step (h : Linked count P known arriving A leaving) {p q : Point} (hp : A.Holds leaving p)
    (hstep : FlowStep A.code p q) :
    A.Holds leaving ⟨q.index, count q.height⟩ ∨
      ∃ l, labelPosition? l A.code = some q.index ∧ known l = some (count q.height) := by
  obtain ⟨insn, e, hinsn, heffect, hheight, hwhere⟩ := flowStep_iff.1 hstep
  have hlt : p.index < A.length := by simpa using (List.getElem?_eq_some_iff.1 hinsn).1
  have hnote : A.heightAt? p.index = some p.height := hp.resolve_right fun hend => by omega
  obtain ⟨insn', hentry⟩ := AnnotatedCode.heightAt?_eq_some_iff.1 hnote
  obtain rfl : insn' = insn := by
    rw [AnnotatedCode.getElem?_code, hentry] at hinsn
    exact Option.some.inj hinsn
  -- the instruction has one effect, so both descriptions of the step speak about the same height
  obtain ⟨e', heffect', -, htargets, hnext⟩ := h.at_reached hentry
  obtain rfl := Except.ok.inj (heffect.symm.trans heffect')
  rcases hwhere with ⟨hflow, hindex⟩ | ⟨l, hl, hplace⟩
  · left
    have hafter := hnext hflow
    rw [← hheight, ← hindex] at hafter
    exact hafter
  · right
    exact ⟨l, hplace, hheight ▸ htargets l hl⟩

/-- Notes that are right at every place are linked. -/
theorem of_forall (harriving : ∀ k, arriving = some k → A.heightAt? 0 = some k)
    (hpoint : ∀ i insn k, A[i]? = some (insn, some k) →
      ∃ e, insn.effect = .ok e ∧ P insn e k ∧
        (∀ l ∈ insn.targets, known l = some (count (k + e.net))) ∧
        (insn.flow.fallsThrough = true → A.heightAt? (i + 1) = some (count (k + e.net)))) :
    Linked count P known arriving A none := by
  induction A generalizing arriving with
  | nil => exact .nil fun k hk => by simpa [AnnotatedCode.heightAt?] using harriving k hk
  | cons entry A ih =>
    obtain ⟨insn, note⟩ := entry
    have hlater : ∀ i insn k, A[i]? = some (insn, some k) →
        ∃ e, insn.effect = .ok e ∧ P insn e k ∧
          (∀ l ∈ insn.targets, known l = some (count (k + e.net))) ∧
          (insn.flow.fallsThrough = true →
            AnnotatedCode.heightAt? A (i + 1) = some (count (k + e.net))) :=
      fun i insn k hi => by simpa using hpoint (i + 1) insn k (by simpa using hi)
    cases note with
    | none =>
      obtain rfl : arriving = none := Option.eq_none_iff_forall_ne_some.2 fun k hk => by
        simpa [AnnotatedCode.heightAt?] using harriving k hk
      exact .unreached (ih nofun hlater)
    | some h =>
      obtain ⟨e, heffect, hcondition, htargets, hnext⟩ := hpoint 0 insn h rfl
      refine .reached (fun k hk => ?_) heffect hcondition htargets (ih (fun k hk => ?_) hlater)
      -- what arrives here, and what arrives behind this instruction
      · simpa [AnnotatedCode.heightAt?, eq_comm] using harriving k hk
      · split at hk
        · rename_i hflow
          cases hk
          simpa using hnext hflow
        · cases hk

end Linked

end Linked

end ClassEdit
