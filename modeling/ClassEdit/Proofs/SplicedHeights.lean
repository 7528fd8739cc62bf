import ClassEdit.Proofs.Edit
import ClassEdit.Proofs.Splice

/-!
# Heights of spliced bodies

The heights of a method are linked notes for its body, and linked notes for a body that begin at the
entries of a method show that it is consistent. Splicing neutral fragments turns notes for a body
into notes for the spliced body, so a method with heights keeps them. All notes of bodies are
counted in 16 bits, as the heights are.

## Main definitions

* `MethodDecl.Notes`: linked notes for a method, right at its entries.
* `MethodDecl.notes`: the heights of a method, written beside its body.

## Main results

* `MethodDecl.Notes.consistent`: linked notes show consistency.
* `MethodDecl.exists_heights_weave`: splicing neutral fragments keeps the heights of a method.
-/

namespace ClassEdit

namespace MethodDecl

variable {m : MethodDecl} {B : AnnotatedCode} {arriving : Option Int}

/-! ### Linked notes show consistency -/

/-- Linked notes for the body of a method, with the right heights at its entries. -/
structure Notes (m : MethodDecl) (arriving : Option Int) (B : AnnotatedCode) : Prop where
  code_eq : B.code = m.code
  linked : Linked wrapped (Permitted m.result 0) B.labelHeight? arriving B none
  entered : ∀ p, m.Entry p → B.heightAt? p.index = some p.height

/-- Control stays at points that the notes speak of. -/
theorem Notes.heightAt?_of_reaches (h : m.Notes arriving B) {p : Point} (hp : m.ReachesWrapped p) :
    B.heightAt? p.index = some p.height := by
  refine hp.of_closed (P := fun p => B.heightAt? p.index = some p.height) h.entered ?_
  intro p q hnote hstep
  rw [← h.code_eq] at hstep
  rcases h.linked.step (.inl hnote) hstep with (hq | ⟨-, hq⟩) | ⟨l, hplace, hknown⟩
  · exact hq
  · cases hq
  · have hnote := AnnotatedCode.labelHeight?_eq_some_iff.1 hknown
    exact AnnotatedCode.heightAt?_of_noteAt? hplace hnote

/-- What linked notes say about an instruction that control reaches. -/
theorem Notes.at_reached (h : m.Notes arriving B) {p : Point} (hp : m.ReachesWrapped p)
    {insn : Instruction} (hinsn : m.code[p.index]? = some insn) :
    ∃ e, insn.effect = .ok e ∧ Permitted m.result 0 insn e p.height ∧
      (∀ l ∈ insn.targets, B.labelHeight? l = some (wrapped (p.height + e.net))) ∧
        (insn.flow.fallsThrough = true →
          B.Holds none ⟨p.index + 1, wrapped (p.height + e.net)⟩) := by
  obtain ⟨insn', hentry⟩ := AnnotatedCode.heightAt?_eq_some_iff.1 (h.heightAt?_of_reaches hp)
  rw [← h.code_eq, AnnotatedCode.getElem?_code, hentry] at hinsn
  obtain rfl : insn' = insn := Option.some.inj hinsn
  exact h.linked.at_reached hentry

/-- A method with linked notes is consistent. -/
theorem Notes.consistent (h : m.Notes arriving B)
    (hhandlers : ∀ b ∈ m.handlers, ∃ p, labelPosition? b.handler m.code = some p) :
    m.ConsistentOn m.ReachesWrapped := by
  -- every point that control reaches carries a note, and the links say the rest about it
  refine ⟨hhandlers, ?_, ?_, ?_, ?_, ?_, ?_⟩
  · intro p insn hp hinsn l hl
    obtain ⟨e, -, -, htargets, -⟩ := h.at_reached hp hinsn
    have hnote := AnnotatedCode.labelHeight?_eq_some_iff.1 (htargets l hl)
    rw [exists_labelPosition?_iff, ← h.code_eq, ← AnnotatedCode.noteAt?_ne_none_iff, hnote]
    exact Option.some_ne_none _
  · intro p q hp hq hindex
    have hp' := h.heightAt?_of_reaches hp
    rw [hindex, h.heightAt?_of_reaches hq] at hp'
    exact (Option.some.inj hp').symm
  · intro p insn hp hinsn
    obtain ⟨e, heffect, hpermitted, -⟩ := h.at_reached hp hinsn
    have hpops := hpermitted.pops_le
    exact ⟨e, heffect, by omega⟩
  · intro p insn hp hinsn hflow
    obtain ⟨e, -, -, -, hnext⟩ := h.at_reached hp hinsn
    rcases hnext hflow with hnote | ⟨-, hnone⟩
    · obtain ⟨insn', hentry⟩ := AnnotatedCode.heightAt?_eq_some_iff.1 hnote
      rw [← h.code_eq, AnnotatedCode.length_code]
      exact (List.getElem?_eq_some_iff.1 hentry).1
    · cases hnone
  · intro p insn e hp hinsn hexit he
    obtain ⟨e', heffect, hpermitted, -⟩ := h.at_reached hp hinsn
    obtain rfl := Except.ok.inj (he.symm.trans heffect)
    exact hpermitted.returns_result hexit
  · intro p insn hp hinsn
    obtain ⟨e, -, hpermitted, -⟩ := h.at_reached hp hinsn
    exact hpermitted.no_subroutine

/-! ### The heights of a method as notes -/

/-- The heights of a method, written beside its body. -/
def notes (m : MethodDecl) (r : Heights) : AnnotatedCode :=
  m.code.mapIdx fun i insn => (insn, (r.at? i).map fun k => (k.toNat : Int))

variable {r : Heights}

theorem getElem?_notes {i : Nat} :
    (m.notes r)[i]? = m.code[i]?.map fun insn => (insn, (r.at? i).map fun k => (k.toNat : Int)) :=
  List.getElem?_mapIdx

theorem getElem?_notes_eq_some_iff {i : Nat} {insn : Instruction} {k : Int} :
    (m.notes r)[i]? = some (insn, some k) ↔
      m.code[i]? = some insn ∧ ∃ j, r.at? i = some j ∧ (j.toNat : Int) = k := by
  rw [getElem?_notes, Option.map_eq_some_iff]
  constructor
  · rintro ⟨insn', hinsn, hentry⟩
    obtain ⟨rfl, hnote⟩ := Prod.ext_iff.1 hentry
    exact ⟨hinsn, Option.map_eq_some_iff.1 hnote⟩
  · rintro ⟨hinsn, j, hj, rfl⟩
    exact ⟨insn, hinsn, by rw [hj]; rfl⟩

theorem code_notes : (m.notes r).code = m.code := by
  apply List.ext_getElem?
  intro i
  rw [AnnotatedCode.getElem?_code, getElem?_notes]
  cases m.code[i]? <;> rfl

/-- The heights of a method are those with which control reaches its instructions. -/
theorem at?_eq_some_iff (hr : m.heights = .ok r) {i : Nat} {k : UInt16} :
    r.at? i = some k ↔ m.ReachesWrapped ⟨i, k.toNat⟩ := by
  rw [(settled_of_heights hr).reaches_iff, Heights.at?_eq_some_iff]
  exact ⟨fun hk => ⟨k, hk, rfl⟩, fun ⟨k', hk', hsame⟩ => toNat_cast_inj.1 hsame ▸ hk'⟩

/-- The notes are the points that control reaches. -/
theorem heightAt?_notes_iff (hr : m.heights = .ok r) {i : Nat} {k : Int} :
    (m.notes r).heightAt? i = some k ↔ m.ReachesWrapped ⟨i, k⟩ := by
  have hsettled := settled_of_heights hr
  rw [hsettled.reaches_iff, AnnotatedCode.heightAt?_eq_some_iff]
  constructor
  · rintro ⟨insn, hentry⟩
    rw [getElem?_notes] at hentry
    obtain ⟨insn', -, hnote⟩ := Option.map_eq_some_iff.1 hentry
    obtain ⟨k', hk', rfl⟩ := Option.map_eq_some_iff.1 (Prod.ext_iff.1 hnote).2
    exact ⟨k', Heights.at?_eq_some_iff.1 hk', rfl⟩
  · rintro ⟨k', hk', rfl⟩
    have hlt := (List.getElem?_eq_some_iff.1 hk').1
    obtain ⟨insn, hinsn⟩ : ∃ insn, m.code[i]? = some insn :=
      ⟨_, List.getElem?_eq_getElem (hsettled.length_eq ▸ hlt)⟩
    refine ⟨insn, ?_⟩
    rw [getElem?_notes, hinsn, Heights.at?_eq_some_iff.2 hk']
    rfl

/-- The notes are counted in 16 bits. -/
theorem wrapped_of_mem_notes {insn : Instruction} {k : Int} (h : (insn, some k) ∈ m.notes r) :
    wrapped k = k := by
  obtain ⟨i, hi⟩ := List.getElem?_of_mem h
  rw [getElem?_notes] at hi
  obtain ⟨insn', -, hentry⟩ := Option.map_eq_some_iff.1 hi
  obtain ⟨k', -, rfl⟩ := Option.map_eq_some_iff.1 (Prod.ext_iff.1 hentry).2
  exact wrapped_toNat k'

/-- The height at the place of a label that is reached is noted at the label. -/
theorem noteAt?_notes (hr : m.heights = .ok r) {l : Label} {p : Nat} {k : Int}
    (hplace : labelPosition? l m.code = some p) (hreached : m.ReachesWrapped ⟨p, k⟩) :
    (m.notes r).noteAt? l = some (some k) := by
  obtain ⟨insn, hentry⟩ :=
    AnnotatedCode.heightAt?_eq_some_iff.1 ((heightAt?_notes_iff hr).2 hreached)
  exact AnnotatedCode.noteAt?_of_position (code_notes.symm ▸ hplace) hentry

/-- The heights of a method are linked notes. -/
theorem linked_notes (hr : m.heights = .ok r) :
    Linked wrapped (Permitted m.result 0) (m.notes r).labelHeight? ((m.notes r).heightAt? 0)
      (m.notes r)
      none := by
  refine .of_forall (fun _ => id) ?_
  intro i insn k hentry
  have hreached := (heightAt?_notes_iff hr).1 (AnnotatedCode.heightAt?_eq_some_iff.2 ⟨insn, hentry⟩)
  have hinsn : m.code[i]? = some insn := by
    rw [← code_notes (r := r), AnnotatedCode.getElem?_code, hentry]
    rfl
  -- the notes are the heights that control reaches, and the method is consistent
  have hconsistent := exists_heights_iff.1 ⟨r, hr⟩
  obtain ⟨e, heffect, hpops⟩ := hconsistent.pops_le _ insn hreached hinsn
  refine ⟨e, heffect, ⟨?_, ?_, ?_⟩, ?_, ?_⟩
  · simpa using hpops
  · exact hconsistent.no_subroutine _ insn hreached hinsn
  · exact fun hexit => hconsistent.returns_result _ insn e hreached hinsn hexit heffect
  · intro l hl
    obtain ⟨q, hq⟩ := hconsistent.targets_placed _ insn hreached hinsn l hl
    exact AnnotatedCode.labelHeight?_eq_some_iff.2
      (noteAt?_notes hr hq (hreached.step (.branch hinsn heffect hl hq)))
  · intro hflow
    exact (heightAt?_notes_iff hr).2 (hreached.step (.next hinsn heffect hflow))

/-! ### Splicing -/

/-- The labels of a body are numbered below the numbers that copies get. -/
theorem number_lt_numberBound {code : List Instruction} {insn : Instruction} (hinsn : insn ∈ code)
    {l : Label} (hl : l ∈ insn.labels) :
    l.number.toNat < numberBound (code.flatMap Instruction.labels) :=
  lt_numberBound (List.mem_flatMap.2 ⟨insn, hinsn, hl⟩)

/-- Linked notes with the right height at every handler are notes for the method, if the height at
the beginning of its body is nothing. -/
theorem Notes.of_linked (hcode : B.code = m.code)
    (hlinked : Linked wrapped (Permitted m.result 0) B.labelHeight? arriving B none)
    (hstart : m.code ≠ [] → arriving = some 0)
    (hhandler : ∀ b ∈ m.handlers, B.noteAt? b.handler = some (some 1)) : m.Notes arriving B := by
  refine ⟨hcode, hlinked, ?_⟩
  rintro p (hnonempty | ⟨hb, hplace⟩)
  · rw [hstart hnonempty] at hlinked
    exact hlinked.holds_start.resolve_right fun ⟨_, hnone⟩ => nomatch hnone
  · rw [← hcode] at hplace
    exact AnnotatedCode.heightAt?_of_noteAt? hplace (hhandler _ hb)

/-- A method with notes has heights, if a note stands at every handler. -/
theorem Notes.exists_heights (h : m.Notes arriving B)
    (hhandler : ∀ b ∈ m.handlers, B.noteAt? b.handler ≠ none) : ∃ r, m.heights = .ok r := by
  refine exists_heights_iff.2 (h.consistent fun b hb => ?_)
  rw [exists_labelPosition?_iff, ← h.code_eq, ← AnnotatedCode.noteAt?_ne_none_iff]
  exact hhandler b hb

/-- The heights of a method are those noted, wherever there is a height. -/
theorem Notes.note_eq (h : m.Notes arriving B) (hr : m.heights = .ok r) {i : Nat} {k : UInt16}
    (hk : r.at? i = some k) {insn : Instruction} {note : Option Int}
    (hentry : B[i]? = some (insn, note)) : note = some (k.toNat : Int) := by
  have hreached := (at?_eq_some_iff hr).1 hk
  obtain ⟨insn', hnote⟩ := AnnotatedCode.heightAt?_eq_some_iff.1 (h.heightAt?_of_reaches hreached)
  rw [hentry, Option.some.injEq, Prod.mk.injEq] at hnote
  exact hnote.2

/-- Linked notes that agree with the heights of another method at all labels that it places are
notes for a method with the same result and handlers, and so this method has heights. -/
theorem Notes.of_heights {m' : MethodDecl} (hr : m.heights = .ok r) (hresult : m'.result = m.result)
    (hhandlers : m'.handlers = m.handlers) (hempty : m.code = [] → m'.code = [])
    (hcode : B.code = m'.code)
    (hlinked :
      Linked wrapped (Permitted m.result 0) B.labelHeight? ((m.notes r).heightAt? 0) B none)
    (hnotes : ∀ l, .label l ∈ m.code → B.noteAt? l = (m.notes r).noteAt? l) :
    m'.Notes ((m.notes r).heightAt? 0) B ∧ ∃ r', m'.heights = .ok r' := by
  have hstart : m'.code ≠ [] → (m.notes r).heightAt? 0 = some 0 :=
    fun hne => (heightAt?_notes_iff hr).2 (Entry.start fun h => hne (hempty h)).reachesWrapped
  -- at a handler the height is one in both bodies, since the label kept its note
  have hhandler : ∀ b ∈ m'.handlers, B.noteAt? b.handler = some (some 1) := by
    intro b hb
    obtain ⟨p, hp⟩ := (exists_heights_iff.1 ⟨r, hr⟩).handlers_placed b (hhandlers ▸ hb)
    have hreached : m.ReachesWrapped ⟨p, 1⟩ := (Entry.handler (hhandlers ▸ hb) hp).reachesWrapped
    rw [hnotes _ (List.mem_of_getElem? (getElem?_of_labelPosition? hp)),
      noteAt?_notes hr hp hreached]
  rw [← hresult] at hlinked
  have hall : m'.Notes ((m.notes r).heightAt? 0) B := .of_linked hcode hlinked hstart hhandler
  exact ⟨hall, hall.exists_heights fun b hb => by simp [hhandler b hb]⟩

/-- Neutral fragments can be spliced into a method with heights, and the heights before the
instructions of its body stay the same. -/
theorem exists_heights_weave (hr : m.heights = .ok r) {plan : Plan}
    (hplan : plan.map Prod.fst = m.code) (hnumbers : plan.NumbersFit m.code)
    (hneutral : plan.Neutral m.result (m.notes r)) {m' : MethodDecl}
    (hresult : m'.result = m.result) (hhandlers : m'.handlers = m.handlers)
    (hcode : m'.code = plan.weave (freshLabel m.code)) :
    ∃ r', m'.heights = .ok r' ∧ ∀ i insn, m.code[i]? = some insn →
      m'.code[plan.position i]? = some insn ∧
        ∀ k, r'.at? (plan.position i) = some k → r.at? i = some k := by
  have hlabels : ∀ insn ∈ (m.notes r).code, ∀ l ∈ insn.labels,
      l.number.toNat < numberBound (m.code.flatMap Instruction.labels) := by
    rw [code_notes]
    exact fun insn hinsn l hl => number_lt_numberBound hinsn hl
  obtain ⟨B, last, hB, hstands, hposition⟩ := Plan.exists_stands (code_notes.trans hplan.symm)
    le_rfl hnumbers.numbersFrom hneutral hlabels (fun _ _ => wrapped_of_mem_notes) (linked_notes hr)
  -- the labels of the body are known from its notes, those of the copies from the new ones
  have hlinked : Linked wrapped (Permitted m.result 0) B.labelHeight?
      ((m.notes r).heightAt? 0) B none := by
    refine hstands.linked _ (fun l hl => ?_) fun _ _ _ => rfl
    rw [AnnotatedCode.labelHeight?, hstands.old_notes l hl]
    rfl
  have hempty : m.code = [] → m'.code = [] := by
    intro hempty
    rw [hempty, List.map_eq_nil_iff] at hplan
    rw [hcode, hplan]
    rfl
  obtain ⟨hnotes, r', hr'⟩ := Notes.of_heights hr hresult hhandlers hempty (hB.trans hcode.symm)
    hlinked fun l hl => hstands.old_notes l (number_lt_numberBound hl List.mem_cons_self)
  refine ⟨r', hr', ?_⟩
  intro i insn hinsn
  have hentry : B[plan.position i]? = some (insn, (r.at? i).map fun k => (k.toNat : Int)) :=
    hposition i _ (by rw [getElem?_notes, hinsn]; rfl)
  constructor
  · rw [← hnotes.code_eq, AnnotatedCode.getElem?_code, hentry]
    rfl
  · intro k hk
    obtain ⟨k', hk', hsame⟩ := Option.map_eq_some_iff.1 (hnotes.note_eq hr' hk hentry)
    rw [hk', toNat_cast_inj.1 hsame]

end MethodDecl

end ClassEdit
