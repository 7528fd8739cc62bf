import ClassEdit.Proofs.Edit
import ClassEdit.Proofs.Turns

/-!
# The report covers every change

A program that hands classes over keeps the bytes of a class whose report names no edited method,
and computes stack maps only if the report asks for it. So the report has to account for all that a
scan does: outside the bodies, handlers and limits of methods that it names, the class is what it
was, however many rules have edited it one after the other, and stack maps are left out only for a
block that asked for this and was committed with a change.

## Main definitions

* `MethodDecl.FramedBy`: what a scan may do to one method.
* `Scan.Frames`: what a scan may have done to a class.

## Main results

* `Scan.Frames.applyBlock`: a block stays within the frame.
* `Session.scan_frame`: the report covers every change.
-/

namespace ClassEdit

namespace MethodDecl

variable {m m' : MethodDecl} {transformed : List String}

/-- A method after a scan, compared with the method before. Only the body, the handlers and the
limits may differ, and nothing at all if the method is not named among the edited ones. -/
structure FramedBy (m m' : MethodDecl) (transformed : List String) : Prop where
  eq_with : m' = { m with
    code := m'.code, handlers := m'.handlers, maxStack := m'.maxStack, maxLocals := m'.maxLocals }
  maxLocals_le : m.maxLocals ≤ m'.maxLocals
  untouched : m.signature ∉ transformed → m' = m

theorem FramedBy.refl (m : MethodDecl) (transformed : List String) : m.FramedBy m transformed :=
  ⟨rfl, UInt16.le_refl _, fun _ => rfl⟩

theorem FramedBy.signature_eq (h : m.FramedBy m' transformed) : m'.signature = m.signature := by
  rw [h.eq_with]
  rfl

/-- More methods may be named. -/
theorem FramedBy.mono (h : m.FramedBy m' transformed) {others : List String}
    (hsubset : transformed ⊆ others) : m.FramedBy m' others :=
  ⟨h.eq_with, h.maxLocals_le, fun hother => h.untouched fun hmem => hother (hsubset hmem)⟩

/-- A method that is named may be edited by one more block. -/
theorem FramedBy.run (h : m.FramedBy m' transformed) (hnamed : m.signature ∈ transformed)
    {b : Block} {owner : ClassDecl} {registration : String} {final : MethodDecl} {outcome : Outcome}
    (hrun : b.run owner m' registration = .ok (final, outcome)) : m.FramedBy final transformed := by
  rcases Block.run_cases hrun with ⟨-, rfl⟩ | ⟨-, hfinal, -⟩
  · exact h
  · refine ⟨?_, ?_, fun hnot => absurd hnamed hnot⟩
    · rw [hfinal, h.eq_with]
    · rw [hfinal]
      exact UInt16.le_trans h.maxLocals_le (slots_le_max_left _ _)

end MethodDecl

namespace Report

variable {r : Report} {signature : String} {computeFrames : Bool}

theorem mem_transformed_edited {other : String} :
    other ∈ (r.edited signature computeFrames).transformed ↔
      other ∈ r.transformed ∨ other = signature := by
  unfold edited
  dsimp only
  split
  · rename_i hmem
    exact ⟨.inl, fun h => h.elim id fun h => h ▸ hmem⟩
  · simp

theorem subset_transformed_edited (r : Report) (signature : String) (computeFrames : Bool) :
    r.transformed ⊆ (r.edited signature computeFrames).transformed :=
  fun _ hmem => mem_transformed_edited.2 (.inl hmem)

theorem nodup_transformed_edited (h : r.transformed.Nodup) :
    (r.edited signature computeFrames).transformed.Nodup := by
  unfold edited
  dsimp only
  split
  · exact h
  · rename_i hnew
    rw [List.nodup_append]
    refine ⟨h, by simp, ?_⟩
    intro a ha b hb hsame
    rw [List.mem_singleton.1 hb] at hsame
    exact hnew (hsame ▸ ha)

end Report

namespace Scan

variable {before : ClassDecl} {s : Scan}

/-- The class in the course of a scan, compared with the class before. -/
structure Frames (before : ClassDecl) (s : Scan) : Prop where
  owner_eq : s.owner = { before with methods := s.owner.methods }
  length_eq : s.owner.methods.length = before.methods.length
  methods : ∀ (i : Nat) (m : MethodDecl), before.methods[i]? = some m →
    ∃ m', s.owner.methods[i]? = some m' ∧ m.FramedBy m' s.report.transformed
  nodup : s.report.transformed.Nodup

theorem Frames.start (before : ClassDecl) : Frames before (start before) :=
  ⟨rfl, rfl, fun _ m hm => ⟨m, hm, .refl m _⟩, List.nodup_nil⟩

/-- Only the class and the names of edited methods matter. -/
theorem Frames.congr {s' : Scan} (h : Frames before s) (howner : s'.owner = s.owner)
    (htransformed : s'.report.transformed = s.report.transformed) : Frames before s' := by
  refine ⟨?_, ?_, ?_, ?_⟩
  · rw [howner]
    exact h.owner_eq
  · rw [howner]
    exact h.length_eq
  · rw [howner, htransformed]
    exact h.methods
  · rw [htransformed]
    exact h.nodup

/-- A block stays within the frame. -/
theorem Frames.applyBlock (h : Frames before s) {i : Nat} {m : MethodDecl}
    (hm : s.owner.methods[i]? = some m) (naming : Naming) (label : String) (b : Block) :
    Frames before (s.applyBlock naming label i m b) := by
  obtain ⟨e, -, heq⟩ | ⟨edited, outcome, hrun, ⟨-, heq⟩ | ⟨-, heq⟩⟩ :=
    s.applyBlock_cases naming label i m b
  · exact h.congr (by rw [heq]; rfl) (by rw [heq]; rfl)
  · exact h.congr (by rw [heq]; rfl) (by rw [heq]; rfl)
  · rw [heq]
    refine ⟨?_, ?_, ?_, Report.nodup_transformed_edited h.nodup⟩
    · rw [replaced, ClassDecl.setMethod, written, h.owner_eq]
    · simp [replaced, written, ClassDecl.setMethod, h.length_eq]
    · intro j original horiginal
      obtain ⟨m', hm', hframed⟩ := h.methods j original horiginal
      -- whatever was named before is still named
      have hnamed := hframed.mono (s.report.subset_transformed_edited m.signature b.computeFrames)
      by_cases hij : i = j
      · subst hij
        obtain rfl : m = m' := Option.some.inj (hm.symm.trans hm')
        have hi := (List.getElem?_eq_some_iff.1 hm).1
        refine ⟨edited, by simp [replaced, written, ClassDecl.setMethod, hi], hnamed.run ?_ hrun⟩
        exact Report.mem_transformed_edited.2 (.inr hframed.signature_eq.symm)
      · exact ⟨m', by simpa [replaced, written, ClassDecl.setMethod, hij] using hm', hnamed⟩

/-- All rules together stay within the frame. -/
theorem Frames.applyRules (h : Frames before s) (naming : Naming) (rules : List ClassRule) :
    Frames before (s.applyRules naming rules).1 :=
  applyRules_induction (fun _ _ hsame hs => hs.congr hsame.owner_eq hsame.transformed_eq)
    (fun _ label _ _ b hm hs => hs.applyBlock hm naming label b) rules h

/-- If no method is named, the class is what it was. -/
theorem Frames.owner_eq_of_unmodified (h : Frames before s) (hnone : s.report.transformed = []) :
    s.owner = before := by
  have hmethods : s.owner.methods = before.methods := by
    apply List.ext_getElem?
    intro i
    cases hm : before.methods[i]? with
    | none =>
      rw [List.getElem?_eq_none_iff] at hm ⊢
      exact h.length_eq.trans_le hm
    | some m =>
      obtain ⟨m', hm', hframed⟩ := h.methods i m hm
      rw [hm', hframed.untouched (by simp [hnone])]
  rw [h.owner_eq, hmethods]

/-- A block takes the request for stack maps back exactly if it is committed with a change and asks
for none. -/
theorem computeFrames_applyBlock (s : Scan) (naming : Naming) (label : String) (i : Nat)
    (m : MethodDecl) (b : Block) : (s.applyBlock naming label i m b).report.computeFrames = false ↔
      s.report.computeFrames = false ∨ ∃ edited outcome,
        b.run s.owner m label = .ok (edited, outcome) ∧ edited ≠ m ∧ b.computeFrames = false := by
  obtain ⟨e, hrun, heq⟩ | ⟨edited, outcome, hrun, ⟨hsame, heq⟩ | ⟨hother, heq⟩⟩ :=
    s.applyBlock_cases naming label i m b
  · simp [heq, hrun, failed, Report.record]
  · simp [heq, hrun, hsame, written]
  · -- the request of the report goes together with that of the block
    rw [heq]
    show (s.report.computeFrames && b.computeFrames) = false ↔ _
    rw [Bool.and_eq_false_iff]
    simp [hrun, hother]

end Scan

/-- The report of a scan covers every change. The class differs from the class before only in
bodies, handlers and limits of methods that the report names, each of them once, and no method loses
local variables. A class for which no method is named is the same in all its parts. The report does
without new stack maps exactly if some block that asks for none was committed with a change. -/
theorem Session.scan_frame (session : Session) (owner : ClassDecl) :
    let naming := session.naming session.scanned
    let after := (session.scan owner).1
    after.owner = { owner with methods := after.owner.methods } ∧
      after.owner.methods.length = owner.methods.length ∧
        (∀ (i : Nat) (m m' : MethodDecl), owner.methods[i]? = some m →
          after.owner.methods[i]? = some m' →
          m' = { m with
            code := m'.code, handlers := m'.handlers,
            maxStack := m'.maxStack, maxLocals := m'.maxLocals } ∧
            m.maxLocals ≤ m'.maxLocals ∧
              (m.signature ∉ after.report.transformed → m' = m)) ∧
          after.report.transformed.Nodup ∧
            (after.report.isModified = false → after.owner = owner) ∧
              (after.report.computeFrames = false ↔
                ∃ (t : Turn session.ruleSet.rules) (i : Nat) (m : MethodDecl) (b : Block)
                    (edited : MethodDecl) (outcome : Outcome),
                  t.Tries naming owner i m b ∧
                    t.result naming owner m b = .ok (edited, outcome) ∧ edited ≠ m ∧
                      b.computeFrames = false) := by
  intro naming after
  have hframes : Scan.Frames owner after :=
    (Scan.Frames.start owner).applyRules naming session.ruleSet.rules
  refine ⟨hframes.owner_eq, hframes.length_eq, ?_, hframes.nodup, ?_, ?_⟩
  · intro i m m' hm hm'
    obtain ⟨m'', hm'', hframed⟩ := hframes.methods i m hm
    obtain rfl : m' = m'' := Option.some.inj (hm'.symm.trans hm'')
    exact ⟨hframed.eq_with, hframed.maxLocals_le, hframed.untouched⟩
  · intro hunmodified
    exact hframes.owner_eq_of_unmodified (by simpa [Report.isModified] using hunmodified)
  · have hturn := @Scan.ofClass_iff_exists_turn naming session.ruleSet.rules owner
      (fun s => s.report.computeFrames = false)
      (fun s label m b => ∃ edited outcome,
        b.run s.owner m label = .ok (edited, outcome) ∧ edited ≠ m ∧ b.computeFrames = false)
      (fun _ _ hsame => by rw [hsame.computeFrames_eq])
      (fun _ _ _ _ _ hsame => by rw [hsame.owner_eq])
      (fun s label i m b _ => s.computeFrames_applyBlock naming label i m b)
    -- a scan begins with the request for stack maps
    have hstart : (Scan.start owner).report.computeFrames ≠ false := by
      simp [Scan.start, Report.start]
    refine hturn.trans ((or_iff_right hstart).trans ?_)
    constructor
    · rintro ⟨t, i, m, b, htries, edited, outcome, hrun, hchanged, hframes⟩
      exact ⟨t, i, m, b, edited, outcome, htries, hrun, hchanged, hframes⟩
    · rintro ⟨t, i, m, b, edited, outcome, htries, hrun, hchanged, hframes⟩
      exact ⟨t, i, m, b, htries, edited, outcome, hrun, hchanged, hframes⟩

end ClassEdit
