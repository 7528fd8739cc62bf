import Mathlib.Algebra.GroupWithZero.Nat
import ClassEdit.Proofs.FailingBlock
import ClassEdit.Proofs.Firing
import ClassEdit.Proofs.Plans
import ClassEdit.Proofs.ScanFrame

/-!
# The journal agrees with the report

A report keeps lists of its own of the rules that fired, the blocks that failed and the methods that
were edited, and beside them a journal of all that happened. Whatever a scan does goes into both, so
either can be read off the other: each step of a scan writes down some events, and what it adds to
the lists is what these events tell.

That a method named in the report also has an edit in the journal comes down to single operations.
One that reports no place at which it did something has done nothing, in whatever way it counts its
places. So a block that has changed a method contains an operation that reports a place, and this
one is written down as an edit.

## Main definitions

* `Event.entry`, `Failure.entry`: a failure as it is written down, and as it is reported.
* `Journal.bindings`: the method rules that a journal tells about.
* `Scan.Writes`: what a part of a scan writes down.

## Main results

* `Operation.edited_eq_of_sites`: an operation without a place has no effect.
* `Scan.Writes.append`, `Scan.exists_writes_applyRules`: scans write down what they do.
* `Session.scan_journal`: the journal of a scan agrees with its report.
-/

namespace ClassEdit

/-! ### Operations without effect -/

section Sites

variable {site : Site} {edited : MethodDecl} {done : Applied}

theorem map_replacingConstant {source target : Constant} {code : List Instruction}
    (h : code.countP (fun insn => insn.constant? == some source) = 0) :
    code.map (Instruction.replacingConstant source target) = code := by
  have hsame (insn : Instruction) (hinsn : insn ∈ code) :
      Instruction.replacingConstant source target insn = insn := by
    have hother := List.countP_eq_zero.1 h insn hinsn
    exact if_neg (by simpa using hother)
  rw [List.map_congr_left hsame, List.map_id']

theorem map_replacingString {source target : String} {code : List Instruction}
    (h : code.countP (Instruction.loadsPart source) = 0) :
    code.map (Instruction.replacingString source target) = code := by
  have hsame (insn : Instruction) (hinsn : insn ∈ code) :
      Instruction.replacingString source target insn = insn := by
    have hother := List.countP_eq_zero.1 h insn hinsn
    obtain ⟨-, heq⟩ | ⟨value, rfl, hoccurs, -⟩ :=
      Instruction.replacingString_cases source target insn
    · exact heq
    · exact absurd (Instruction.loadsPart_iff.2 ⟨value, rfl, hoccurs⟩) hother
  rw [List.map_congr_left hsame, List.map_id']

/-- Splicing calls has a place, since it is refused if no call passes the pattern. -/
theorem Operation.spliceCalls_sites {calls : MemberPattern} {kind : EventKind}
    {detail : MethodRef → String} {replace : MethodRef → Except EditError Replacement}
    (h : Operation.spliceCalls site calls kind detail replace = .ok (edited, done)) :
    done.kind = kind ∧ done.sites ≠ 0 := by
  obtain ⟨first, plan, hfirst, hplan, -, rfl⟩ := Operation.spliceCalls_eq_ok_iff.1 h
  refine ⟨rfl, fun hnone => ?_⟩
  rw [sites_of_planCalls hplan, List.countP_eq_zero] at hnone
  rw [MethodDecl.firstCall?_eq_none_iff.2 (by simpa using hnone)] at hfirst
  cases hfirst

/-- Splicing returns has a place, since it is refused if the body has no return. -/
theorem Operation.spliceReturns_sites {source : FragmentSource}
    (h : Operation.spliceReturns site source = .ok (edited, done)) :
    done.kind = .exitInjected ∧ done.sites ≠ 0 := by
  obtain ⟨hreturns, f, -, -, -, rfl⟩ := Operation.spliceReturns_eq_ok_iff.1 h
  obtain ⟨insn, hinsn, hreturn⟩ := List.any_eq_true.1 hreturns
  refine ⟨rfl, fun hnone => ?_⟩
  rw [sites_planReturns, List.countP_eq_zero] at hnone
  exact hnone insn hinsn hreturn

/-- What an operation does is an edit of some kind, and if it has no place, it has no effect. -/
theorem Operation.edited_eq_of_sites {op : Operation} (h : op.apply site = .ok (edited, done)) :
    done.kind.isTransformation = true ∧ (done.sites = 0 → edited = site.method) := by
  cases op with
  | replaceConstant source target =>
    obtain ⟨-, hkind, rfl | ⟨rfl, hsites⟩⟩ := MethodDecl.replaceConstant_eq_ok h
    · exact ⟨hkind ▸ rfl, fun _ => rfl⟩
    · exact ⟨hkind ▸ rfl, fun hnone => by rw [map_replacingConstant (hsites ▸ hnone)]⟩
  | replaceString source target =>
    obtain ⟨hkind, rfl | ⟨rfl, hsites⟩⟩ := MethodDecl.replaceString_cases (Except.ok.inj h)
    · exact ⟨hkind ▸ rfl, fun _ => rfl⟩
    · exact ⟨hkind ▸ rfl, fun hnone => by rw [map_replacingString (hsites ▸ hnone)]⟩
  | stub value =>
    -- a body that is replaced as a whole is one place, whatever it was
    obtain ⟨-, -, hkind, hsites⟩ := MethodDecl.stub_eq_ok h
    exact ⟨hkind ▸ rfl, fun hnone => absurd (hsites ▸ hnone) Nat.one_ne_zero⟩
  | overwrite source =>
    obtain ⟨fragment, -, hdone⟩ := bind_eq_ok_iff.1 h
    cases hdone
    exact ⟨rfl, fun hnone => absurd hnone Nat.one_ne_zero⟩
  | callAdvice calls before after =>
    obtain ⟨hkind, hsites⟩ := Operation.spliceCalls_sites h
    exact ⟨hkind ▸ rfl, fun hnone => absurd hnone hsites⟩
  | replaceCall calls replacement =>
    obtain ⟨hkind, hsites⟩ := Operation.spliceCalls_sites h
    exact ⟨hkind ▸ rfl, fun hnone => absurd hnone hsites⟩
  | methodExit source =>
    obtain ⟨hkind, hsites⟩ := Operation.spliceReturns_sites h
    exact ⟨hkind ▸ rfl, fun hnone => absurd hnone hsites⟩

end Sites

/-! ### Journals -/

namespace Journal

variable {j : Journal} {kind : EventKind}

@[simp] theorem ofKind_append (j other : Journal) (kind : EventKind) :
    (j.append other).ofKind kind = j.ofKind kind ++ other.ofKind kind := List.filter_append ..

@[simp] theorem transformations_append (j other : Journal) :
    (j.append other).transformations = j.transformations ++ other.transformations :=
  List.filter_append ..

theorem ofKind_eq_nil (h : ∀ e ∈ j.events, e.kind ≠ kind) : j.ofKind kind = [] := by
  apply List.filter_eq_nil_iff.2
  intro e he
  simpa using h e he

/-- The method rules that the journal tells about, and whether they were bound. -/
def bindings (j : Journal) : List (EventKind × Option String) :=
  (j.events.filter fun e => e.kind == .methodMatched || e.kind == .registrationUnmatched).map
    fun e => (e.kind, e.registration)

@[simp] theorem bindings_append (j other : Journal) :
    (j.append other).bindings = j.bindings ++ other.bindings := by
  rw [bindings, events_append, List.filter_append, List.map_append]
  rfl

theorem bindings_eq_nil
    (h : ∀ e ∈ j.events, e.kind ≠ .methodMatched ∧ e.kind ≠ .registrationUnmatched) :
    j.bindings = [] := by
  rw [bindings, List.filter_eq_nil_iff.2, List.map_nil]
  intro e he
  simpa using h e he

end Journal

/-! ### What a block writes down -/

namespace Block

variable {owner : ClassDecl} {m edited : MethodDecl} {registration : String}

/-- Operations that are applied one after the other report one thing each, and have an effect only
if one of them reports a place. -/
theorem applyAll_sites {ops : List Operation} {applied : List Applied}
    (h : applyAll owner registration ops m = .ok (edited, applied)) :
    applied.length = ops.length ∧ (∀ done ∈ applied, done.kind.isTransformation = true) ∧
      ((∀ done ∈ applied, done.sites = 0) → edited = m) := by
  induction ops generalizing m applied with
  | nil =>
    cases h
    exact ⟨rfl, nofun, fun _ => rfl⟩
  | cons op ops ih =>
    obtain ⟨⟨m', done⟩, happly, hbind⟩ := bind_eq_ok_iff.1 h
    obtain ⟨⟨m'', others⟩, hrest, hdone⟩ := bind_eq_ok_iff.1 hbind
    cases hdone
    obtain ⟨hlength, hkinds, heffect⟩ := ih hrest
    obtain ⟨hkind, hnone⟩ := Operation.edited_eq_of_sites happly
    refine ⟨by rw [List.length_cons, hlength, List.length_cons],
      List.forall_mem_cons.2 ⟨hkind, hkinds⟩, fun hall => ?_⟩
    rw [List.forall_mem_cons] at hall
    exact (heffect hall.2).trans (hnone hall.1)

/-- A committed block reports one thing for each operation, and has changed the method only if one
of them reports a place. -/
theorem run_sites {b : Block} {outcome : Outcome}
    (h : b.run owner m registration = .ok (edited, outcome)) :
    outcome.applied.length = b.operations.length ∧
      (∀ done ∈ outcome.applied, done.kind.isTransformation = true) ∧
        (outcome.changed = true → ∃ done ∈ outcome.applied, done.sites ≠ 0) := by
  obtain ⟨last, happly, hcases⟩ := run_eq_ok_iff.1 h
  obtain ⟨hlength, hkinds, heffect⟩ := applyAll_sites happly
  refine ⟨hlength, hkinds, fun hchanged => ?_⟩
  -- otherwise the operations have left the method as it was, and it is not changed
  by_contra hnone
  push Not at hnone
  rcases hcases with ⟨-, hunchanged, -⟩ | ⟨hother, -, -⟩
  · rw [hunchanged] at hchanged
    cases hchanged
  · exact hother (heffect hnone)

/-- The kind under which an operation is written down. -/
def kindOf (done : Applied) : EventKind := if done.sites = 0 then .warning else done.kind

theorem kindOf_eq_warning_iff {done : Applied} (hkind : done.kind.isTransformation = true) :
    kindOf done = .warning ↔ done.sites = 0 := by
  unfold kindOf
  split
  · rename_i hnone
    exact iff_of_true rfl hnone
  · rename_i hsome
    refine iff_of_false (fun hwarning => ?_) hsome
    rw [hwarning] at hkind
    cases hkind

/-- A committed block writes down one event for each operation. -/
theorem kinds_events {b : Block} {outcome : Outcome}
    (h : b.run owner m registration = .ok (edited, outcome)) :
    (b.events owner m registration outcome).map Event.kind = outcome.applied.map kindOf := by
  have hkind (op : Operation) (done : Applied) :
      (event owner m registration op done).kind = kindOf done := by
    unfold event kindOf
    dsimp only
    split <;> rfl
  -- there are as many operations as there are records of what they did, so the pairing drops
  -- nothing
  calc (b.events owner m registration outcome).map Event.kind
      = (b.operations.zip outcome.applied).map fun entry => kindOf entry.2 := by
        simp only [events, List.map_map, Function.comp_def, hkind]
    _ = ((b.operations.zip outcome.applied).map Prod.snd).map kindOf := by
        rw [List.map_map]
        rfl
    _ = outcome.applied.map kindOf := by
        rw [List.map_snd_zip (run_sites h).1.le]

theorem about_of_mem_events {b : Block} {outcome : Outcome} {e : Event}
    (he : e ∈ b.events owner m registration outcome) : e.className = some owner.name ∧
      e.method = some m.signature ∧ e.registration = some registration := by
  obtain ⟨⟨op, done⟩, -, rfl⟩ := List.mem_map.1 he
  unfold event
  dsimp only
  split <;> exact ⟨rfl, rfl, rfl⟩

/-- What a committed block writes down are edits and warnings. -/
theorem kind_of_mem_events {b : Block} {outcome : Outcome}
    (h : b.run owner m registration = .ok (edited, outcome)) {e : Event}
    (he : e ∈ b.events owner m registration outcome) :
    e.kind = .warning ∨ e.kind.isTransformation = true := by
  have hkind : e.kind ∈ (b.events owner m registration outcome).map Event.kind :=
    List.mem_map_of_mem he
  rw [kinds_events h] at hkind
  obtain ⟨done, hdone, hkind⟩ := List.mem_map.1 hkind
  rw [← hkind, kindOf]
  split
  · exact .inl rfl
  · exact .inr ((run_sites h).2.1 done hdone)

theorem length_events {b : Block} {outcome : Outcome}
    (h : b.run owner m registration = .ok (edited, outcome)) :
    (b.events owner m registration outcome).length = b.operations.length := by
  rw [← List.length_map (f := Event.kind), kinds_events h, List.length_map, (run_sites h).1]

/-- An operation is written down in its place, as a warning if it has done nothing, and as an edit
otherwise. -/
theorem getElem?_events {b : Block} {outcome : Outcome}
    (h : b.run owner m registration = .ok (edited, outcome)) {j : Nat} {done : Applied}
    (hdone : outcome.applied[j]? = some done) :
    ∃ e, (b.events owner m registration outcome)[j]? = some e ∧
      (e.kind = .warning ↔ done.sites = 0) ∧
        (done.sites ≠ 0 → e.kind = done.kind ∧ e.kind.isTransformation = true) := by
  have hwritten : ((b.events owner m registration outcome).map Event.kind)[j]? =
      some (kindOf done) := by
    rw [kinds_events h, List.getElem?_map, hdone, Option.map_some]
  rw [List.getElem?_map] at hwritten
  obtain ⟨e, he, hkind⟩ := Option.map_eq_some_iff.1 hwritten
  have hedit := (run_sites h).2.1 done (List.mem_of_getElem? hdone)
  refine ⟨e, he, ?_, fun hsites => ?_⟩
  · rw [hkind]
    exact kindOf_eq_warning_iff hedit
  · rw [hkind, kindOf, if_neg hsites]
    exact ⟨rfl, hedit⟩

theorem ofKind_events {b : Block} {outcome : Outcome}
    (h : b.run owner m registration = .ok (edited, outcome)) (kind : EventKind)
    (hwarning : kind ≠ .warning) (hother : kind.isTransformation = false) :
    Journal.ofKind ⟨b.events owner m registration outcome⟩ kind = [] := by
  apply Journal.ofKind_eq_nil
  rintro e he rfl
  rcases kind_of_mem_events h he with hkind | hkind
  · exact hwarning hkind
  · rw [hkind] at hother
    cases hother

/-- If a block has changed the method, one of its operations reports a place, and is written down as
an edit. -/
theorem exists_transformation {b : Block} {outcome : Outcome}
    (h : b.run owner m registration = .ok (edited, outcome)) (hchanged : outcome.changed = true) :
    ∃ e ∈ Journal.transformations ⟨b.events owner m registration outcome⟩,
      e.method = some m.signature := by
  obtain ⟨-, hkinds, hplace⟩ := run_sites h
  obtain ⟨done, hdone, hsites⟩ := hplace hchanged
  have hwritten : kindOf done ∈ (b.events owner m registration outcome).map Event.kind := by
    rw [kinds_events h]
    exact List.mem_map_of_mem hdone
  obtain ⟨e, he, hkind⟩ := List.mem_map.1 hwritten
  refine ⟨e, List.mem_filter.2 ⟨he, ?_⟩, (about_of_mem_events he).2.1⟩
  rw [hkind, kindOf, if_neg hsites]
  exact hkinds done hdone

/-- What is written down when a block is run, with the pick among the labels that a failure may
name. -/
def journal (b : Block) (owner : ClassDecl) (m : MethodDecl) (registration : String) (pick : Nat) :
    Journal :=
  match b.run owner m registration with
  | .ok (_, outcome) => ⟨b.events owner m registration outcome⟩
  | .error e => ⟨[((((Event.ofKind .transformFailed).inClass owner.name).causedBy
      registration).inMethod m.signature).saying (e.named pick).message]⟩

theorem about_of_mem_journal {b : Block} {pick : Nat} {e : Event}
    (he : e ∈ (b.journal owner m registration pick).events) :
    e.method = some m.signature ∧ e.registration = some registration := by
  unfold journal at he
  split at he
  · exact (about_of_mem_events he).2
  · rw [List.mem_singleton.1 he]
    exact ⟨rfl, rfl⟩

/-- No block tells about matches. -/
theorem bindings_journal (b : Block) (owner : ClassDecl) (m : MethodDecl) (registration : String)
    (pick : Nat) : (b.journal owner m registration pick).bindings = [] := by
  unfold journal
  split
  · rename_i edited outcome hrun
    apply Journal.bindings_eq_nil
    intro e he
    rcases kind_of_mem_events hrun he with hkind | hkind
    · rw [hkind]
      decide
    · refine ⟨fun hmatched => ?_, fun hunmatched => ?_⟩
      · rw [hmatched] at hkind
        cases hkind
      · rw [hunmatched] at hkind
        cases hkind
  · rfl

end Block

/-! ### What a scan writes down -/

/-- A failure as it is written down: the method rule, the method, and the message. -/
def Event.entry (e : Event) : Option String × Option String × String :=
  (e.registration, e.method, e.message)

/-- A failure as it is reported. -/
def Failure.entry (f : Failure) : Option String × Option String × String :=
  (some f.registration, some f.method, f.error.message)

namespace Scan

variable {s s' s'' : Scan} {naming : Naming} {new later : Journal}

/-- A part of a scan that writes something down, and adds to the lists of the report what these
events tell. -/
structure Writes (s : Scan) (new : Journal) (s' : Scan) : Prop where
  name_eq : s'.owner.name = s.owner.name
  journal_eq : s'.report.journal = s.report.journal.append new
  inClass : ∀ e ∈ new.events, e.className = some s.owner.name
  matched : s'.report.matched.map some =
    s.report.matched.map some ++ (new.ofKind .classMatched).map Event.registration
  failures : s'.report.failures.map Failure.entry =
    s.report.failures.map Failure.entry ++ (new.ofKind .transformFailed).map Event.entry
  transformed : ∀ signature ∈ s'.report.transformed, signature ∉ s.report.transformed →
    ∃ e ∈ new.transformations, e.method = some signature

theorem Writes.refl (s : Scan) : s.Writes .empty s where
  name_eq := rfl
  journal_eq := by rw [Journal.append, Journal.empty, List.append_nil]
  inClass := nofun
  matched := (List.append_nil _).symm
  failures := (List.append_nil _).symm
  transformed := fun _ hmem hnew => absurd hmem hnew

/-- Two parts of a scan, one after the other. -/
theorem Writes.append (h : s.Writes new s') (hlater : s'.Writes later s'') :
    s.Writes (new.append later) s'' where
  name_eq := hlater.name_eq.trans h.name_eq
  journal_eq := by
    rw [hlater.journal_eq, h.journal_eq]
    simp [Journal.append]
  inClass := by
    intro e he
    rw [Journal.events_append, List.mem_append] at he
    rcases he with he | he
    · exact h.inClass e he
    · rw [hlater.inClass e he, h.name_eq]
  matched := by
    rw [hlater.matched, h.matched, Journal.ofKind_append, List.map_append, List.append_assoc]
  failures := by
    rw [hlater.failures, h.failures, Journal.ofKind_append, List.map_append, List.append_assoc]
  transformed := by
    intro signature hmem hnew
    rw [Journal.transformations_append]
    -- the event belongs to the part in which the method was named first
    by_cases hfirst : signature ∈ s'.report.transformed
    · obtain ⟨e, he, hmethod⟩ := h.transformed signature hfirst hnew
      exact ⟨e, List.mem_append_left _ he, hmethod⟩
    · obtain ⟨e, he, hmethod⟩ := hlater.transformed signature hmem hfirst
      exact ⟨e, List.mem_append_right _ he, hmethod⟩

/-- An event about a match of a method rule, or that there is none. -/
theorem writes_record (s : Scan) {e : Event} (hclass : e.className = some s.owner.name)
    (hmatched : e.kind ≠ .classMatched) (hfailed : e.kind ≠ .transformFailed) :
    s.Writes ⟨[e]⟩ { s with report := s.report.record e } where
  name_eq := rfl
  journal_eq := rfl
  inClass := by
    intro other hother
    rw [List.mem_singleton.1 hother, hclass]
  matched := by
    rw [Journal.ofKind_eq_nil (by simpa using hmatched)]
    exact (List.append_nil _).symm
  failures := by
    rw [Journal.ofKind_eq_nil (by simpa using hfailed)]
    exact (List.append_nil _).symm
  transformed := fun _ hmem hnew => absurd hmem hnew

theorem writes_fired (s : Scan) (rule : ClassRule) :
    s.Writes ⟨[s.event .classMatched rule.label]⟩ (s.fired rule) where
  name_eq := rfl
  journal_eq := rfl
  inClass := by
    intro e he
    rw [List.mem_singleton.1 he]
    rfl
  matched := List.map_append
  failures := (List.append_nil _).symm
  transformed := fun _ hmem hnew => absurd hmem hnew

theorem writes_reached (s : Scan) (label : String) (m : MethodDecl) :
    s.Writes ⟨[(s.event .methodMatched label).inMethod m.signature]⟩ (s.reached label m) :=
  s.writes_record rfl nofun nofun

theorem writes_failed (s : Scan) (label : String) (m : MethodDecl) (e : EditError) :
    s.Writes ⟨[s.failureEvent label m e]⟩ (s.failed label m e) where
  name_eq := rfl
  journal_eq := rfl
  inClass := by
    intro other hother
    rw [List.mem_singleton.1 hother]
    rfl
  matched := (List.append_nil _).symm
  failures := List.map_append
  transformed := fun _ hmem hnew => absurd hmem hnew

/-- Edits and warnings tell about neither rules that fired nor failures. -/
theorem writes_written (s : Scan) {label : String} {m edited : MethodDecl} {b : Block}
    {outcome : Outcome} (hrun : b.run s.owner m label = .ok (edited, outcome)) :
    s.Writes ⟨b.events s.owner m label outcome⟩ (s.written label m b outcome) where
  name_eq := rfl
  journal_eq := rfl
  inClass := fun _ he => (Block.about_of_mem_events he).1
  matched := by
    rw [Block.ofKind_events hrun .classMatched (by decide) rfl]
    exact (List.append_nil _).symm
  failures := by
    rw [Block.ofKind_events hrun .transformFailed (by decide) rfl]
    exact (List.append_nil _).symm
  transformed := fun _ hmem hnew => absurd hmem hnew

/-- A block writes its failure down, or else what each of its operations did. -/
theorem writes_applyBlock (s : Scan) (naming : Naming) (label : String) (i : Nat) (m : MethodDecl)
    (b : Block) : s.Writes (b.journal s.owner m label (naming s.report.failures.length))
      (s.applyBlock naming label i m b) := by
  unfold Block.journal
  obtain ⟨e, hrun, heq⟩ | ⟨edited, outcome, hrun, ⟨-, heq⟩ | ⟨hother, heq⟩⟩ :=
    s.applyBlock_cases naming label i m b
  · rw [hrun, heq]
    exact s.writes_failed label m (s.told naming e)
  · rw [hrun, heq]
    exact s.writes_written hrun
  · -- the method is named, and some event tells what was done to it
    rw [hrun, heq]
    refine { s.writes_written hrun with transformed := fun signature hmem hnew => ?_ }
    obtain rfl : signature = m.signature :=
      (Report.mem_transformed_edited.1 hmem).resolve_left hnew
    exact Block.exists_transformation hrun ((Block.changed_iff hrun).2 hother)

theorem exists_writes_applyMethod (s : Scan) (naming : Naming) (rule : MethodRule)
    (binding : Option Nat) : ∃ new, s.Writes new (s.applyMethod naming rule binding) := by
  obtain ⟨heq, -⟩ | ⟨i, m, -, -, ⟨-, heq⟩ | ⟨b, -, heq⟩⟩ :=
    s.applyMethod_cases naming rule binding
  · rw [heq]
    exact ⟨_, s.writes_record rfl nofun nofun⟩
  · rw [heq]
    exact ⟨_, s.writes_reached rule.label m⟩
  · rw [heq]
    exact ⟨_, (s.writes_reached rule.label m).append
      ((s.reached rule.label m).writes_applyBlock naming rule.label i m b)⟩

/-- Method rules, one after the other, write down what they do. -/
theorem exists_writes_applyMethods (s : Scan) (naming : Naming)
    (bound : List (MethodRule × Option Nat)) :
    ∃ new, s.Writes new (s.applyMethods naming bound) := by
  induction bound generalizing s with
  | nil => exact ⟨.empty, .refl s⟩
  | cons entry bound ih =>
    obtain ⟨new, hfirst⟩ := s.exists_writes_applyMethod naming entry.1 entry.2
    obtain ⟨later, hrest⟩ := ih (s.applyMethod naming entry.1 entry.2)
    exact ⟨new.append later, hfirst.append hrest⟩

/-- Rules, one after the other, write down what they do. -/
theorem exists_writes_applyRules (s : Scan) (naming : Naming) (rules : List ClassRule) :
    ∃ new, s.Writes new (s.applyRules naming rules).1 := by
  induction rules generalizing s with
  | nil => exact ⟨.empty, .refl s⟩
  | cons rule rules ih =>
    obtain ⟨later, hrest⟩ := ih (s.applyRule naming rule).1
    cases hfires : rule.fires s.owner with
    | false =>
      rw [applyRule_of_not_fires hfires] at hrest
      refine ⟨later, ?_⟩
      rw [applyRules_cons, applyRule_of_not_fires hfires]
      exact hrest
    | true =>
      obtain ⟨new, hrule⟩ := (s.fired rule).exists_writes_applyMethods naming (rule.bound s.owner)
      rw [applyRules_cons]
      rw [applyRule_of_fires hfires] at hrest ⊢
      -- first that the rule has fired, then what its method rules do, then what the other rules do
      exact ⟨_, ((s.writes_fired rule).append hrule).append hrest⟩

/-! ### Which method rules are written down -/

theorem bindings_applyBlock (s : Scan) (naming : Naming) (label : String) (i : Nat)
    (m : MethodDecl) (b : Block) :
    (s.applyBlock naming label i m b).report.journal.bindings = s.report.journal.bindings := by
  rw [(s.writes_applyBlock naming label i m b).journal_eq, Journal.bindings_append,
    Block.bindings_journal, List.append_nil]

theorem applyMethod_of_condition {s : Scan} {rule : MethodRule} {i : Nat} {m : MethodDecl}
    (hm : s.owner.methods[i]? = some m) (hblock : rule.block = none) :
    s.applyMethod naming rule (some i) = s.reached rule.label m := by
  simp [applyMethod, reached, hm, hblock]

/-- A method rule is written down under its label, whatever its block comes to. -/
theorem bindings_applyMethod (s : Scan) (naming : Naming) (rule : MethodRule)
    {binding : Option Nat} (hfound : ∀ i, binding = some i → i < s.owner.methods.length) :
    (s.applyMethod naming rule binding).report.journal.bindings = s.report.journal.bindings ++
      [(if binding.isSome then .methodMatched else .registrationUnmatched, some rule.label)] := by
  have hreached (m : MethodDecl) : (s.reached rule.label m).report.journal.bindings =
      s.report.journal.bindings ++ [(.methodMatched, some rule.label)] := by
    rw [(s.writes_reached rule.label m).journal_eq, Journal.bindings_append]
    rfl
  cases binding with
  | none => exact Journal.bindings_append s.report.journal ⟨[_]⟩
  | some i =>
    obtain ⟨m, hm⟩ : ∃ m, s.owner.methods[i]? = some m :=
      ⟨_, List.getElem?_eq_getElem (hfound i rfl)⟩
    cases hblock : rule.block with
    | none =>
      rw [applyMethod_of_condition hm hblock, hreached]
      rfl
    | some b =>
      rw [applyMethod_of_block hm hblock, bindings_applyBlock, hreached]
      rfl

theorem bindings_applyMethods (s : Scan) (naming : Naming)
    {bound : List (MethodRule × Option Nat)}
    (hfound : ∀ entry ∈ bound, ∀ i, entry.2 = some i → i < s.owner.methods.length) :
    (s.applyMethods naming bound).report.journal.bindings = s.report.journal.bindings ++
      bound.map fun entry =>
        (if entry.2.isSome then .methodMatched else .registrationUnmatched,
          some entry.1.label) := by
  induction bound generalizing s with
  | nil => exact (List.append_nil _).symm
  | cons entry bound ih =>
    rw [List.forall_mem_cons] at hfound
    -- no method rule adds or takes away a method
    have hlength : (s.applyMethod naming entry.1 entry.2).owner.methods.length =
        s.owner.methods.length := by
      have hsignatures := congrArg List.length (s.signatures_applyMethods naming [entry])
      rw [List.length_map, List.length_map] at hsignatures
      exact hsignatures
    have hrest := ih (s.applyMethod naming entry.1 entry.2) (by rw [hlength]; exact hfound.2)
    rw [s.bindings_applyMethod naming entry.1 hfound.1, List.append_assoc] at hrest
    exact hrest

/-- A rule that fires writes down all of its method rules. -/
theorem bindings_applyRule {s : Scan} {rule : ClassRule} (hfires : rule.fires s.owner = true) :
    (s.applyRule naming rule).1.report.journal.bindings = s.report.journal.bindings ++
      rule.methods.map fun m =>
        (if (m.bind? s.owner).isSome then .methodMatched else .registrationUnmatched,
          some m.label) := by
  have hfired : (s.fired rule).report.journal.bindings = s.report.journal.bindings := by
    rw [(s.writes_fired rule).journal_eq, Journal.bindings_append]
    exact List.append_nil _
  -- the place of a method that was found is one of the class
  have hfound : ∀ entry ∈ rule.bound s.owner, ∀ i, entry.2 = some i →
      i < (s.fired rule).owner.methods.length := by
    intro entry hentry i hi
    obtain ⟨m, -, rfl⟩ := List.mem_map.1 hentry
    obtain ⟨method, hbinds⟩ := MethodRule.bind?_eq_some_iff.1 hi
    exact (List.getElem?_eq_some_iff.1 hbinds.found).1
  rw [applyRule_of_fires hfires, bindings_applyMethods _ naming hfound, hfired, ClassRule.bound,
    List.map_map]
  rfl

theorem matched_applyRule {s : Scan} {rule : ClassRule} (hfires : rule.fires s.owner = true) :
    (s.applyRule naming rule).1.report.matched = s.report.matched ++ [rule.label] := by
  rw [applyRule_of_fires hfires]
  exact matched_applyMethods _ _ _

end Scan

/-! ### The whole scan -/

/-- The report names the rules that fire, in their order. -/
theorem Scan.matched_ofClass (naming : Naming) (rules : List ClassRule) (owner : ClassDecl) :
    (ofClass naming rules owner).1.report.matched =
      (ClassRule.firing rules owner).map fun turn => turn.2.label := by
  rw [List.map_eq_flatMap]
  exact view_ofClass (fun s => s.report.matched) (fun turn => [turn.2.label])
    (fun _ _ hfires => matched_applyRule ((fires_ofClass naming _ _ owner).trans hfires)) rules

/-- The journal tells about all method rules of the rules that fire, in their order. -/
theorem Scan.bindings_ofClass (naming : Naming) (rules : List ClassRule) (owner : ClassDecl) :
    (ofClass naming rules owner).1.report.journal.bindings =
      (ClassRule.firing rules owner).flatMap fun turn => turn.2.methods.map fun m =>
        (if (m.bind? (ClassRule.leave turn.1 owner)).isSome then .methodMatched
          else .registrationUnmatched, some m.label) := by
  refine view_ofClass (fun s => s.report.journal.bindings) _ (fun earlier rule hfires => ?_) rules
  rw [bindings_applyRule ((fires_ofClass naming earlier rule owner).trans hfires), owner_ofClass]

theorem Journal.length_bindings (j : Journal) :
    j.bindings.length = j.count .methodMatched + j.count .registrationUnmatched := by
  obtain ⟨events⟩ := j
  simp only [bindings, count, ofKind, List.length_map, ← List.countP_eq_length_filter]
  induction events with
  | nil => rfl
  | cons e events ih =>
    simp only [List.countP_cons, ih]
    cases e.kind <;> simp <;> omega

/-- A block at its turn: the events that it writes down come right behind the one that its method
rule is bound, and what comes after them are the events of later turns. -/
theorem Turn.exists_journal {rules : List ClassRule} (t : Turn rules) {naming : Naming}
    {owner : ClassDecl} {i : Nat} {m : MethodDecl} {b : Block}
    (htries : t.Tries naming owner i m b) :
    let before := t.atMethod naming owner
    let after := before.applyMethod naming t.method (some i)
    after.report.journal = (before.reached t.method.label m).report.journal.append
        (b.journal before.owner m t.method.label (naming before.report.failures.length)) ∧
      ∃ later, (Scan.ofClass naming rules owner).1.report.journal =
        after.report.journal.append later := by
  intro before after
  constructor
  · rw [show after = _ from Scan.applyMethod_of_block htries.found htries.block]
    exact (Scan.writes_applyBlock _ _ _ _ _ _).journal_eq
  · rw [t.ofClass_eq owner htries.fires, htries.bound]
    obtain ⟨new, hmethods⟩ := after.exists_writes_applyMethods naming
      (t.later.map fun m => (m, m.bind? (t.atRule naming owner).owner))
    obtain ⟨later, hrules⟩ := Scan.exists_writes_applyRules _ naming t.laterRules
    exact ⟨_, (hmethods.append hrules).journal_eq⟩

/-- The journal of a scan agrees with its report. All events are about the class. Those about rules
that fired carry the labels that the report names, in their order, and those about blocks that
failed carry method rule, method and message of the failures. Each method rule of a rule that fired
is told about once, as bound or as not bound. Between the event that a method rule is bound and
those of later turns, its block writes down a failure and nothing else, or one event for each
operation, which is a warning exactly if the operation has edited nothing. Each method that the
report names has an edit in the journal. -/
theorem Session.scan_journal (session : Session) (owner : ClassDecl) :
    let rules := session.ruleSet.rules
    let naming := session.naming session.scanned
    let report := (session.scan owner).1.report
    let journal := report.journal
    (∀ e ∈ journal.events, e.className = some owner.name) ∧
      (journal.ofKind .classMatched).map Event.registration = report.matched.map some ∧
      (journal.ofKind .transformFailed).map (fun e => (e.registration, e.method, e.message)) =
        report.failures.map (fun f => (some f.registration, some f.method, f.error.message)) ∧
      report.matched = (ClassRule.firing rules owner).map (fun turn => turn.2.label) ∧
      journal.count .methodMatched + journal.count .registrationUnmatched =
        ((ClassRule.firing rules owner).map fun turn => turn.2.methods.length).sum ∧
      (∀ (t : Turn rules) (i : Nat) (m : MethodDecl) (b : Block), t.Tries naming owner i m b →
        ∃ own later : Journal,
          ((t.atMethod naming owner).applyMethod naming t.method (some i)).report.journal =
              ((t.atMethod naming owner).reached t.method.label m).report.journal.append own ∧
            journal =
              ((t.atMethod naming owner).applyMethod naming t.method
                (some i)).report.journal.append later ∧
            (∀ e ∈ own.events, e.method = some m.signature ∧
              e.registration = some t.method.label) ∧
            (∀ e, t.result naming owner m b = .error e →
              own.events.map Event.kind = [.transformFailed]) ∧
            ∀ edited outcome, t.result naming owner m b = .ok (edited, outcome) →
              own.length = b.operations.length ∧ outcome.applied.length = b.operations.length ∧
                ∀ (j : Nat) (done : Applied), outcome.applied[j]? = some done →
                  ∃ e, own.events[j]? = some e ∧ (e.kind = .warning ↔ done.sites = 0) ∧
                    (done.sites ≠ 0 → e.kind = done.kind ∧ e.kind.isTransformation = true)) ∧
      ∀ signature ∈ report.transformed, ∃ e ∈ journal.transformations,
        e.method = some signature := by
  intro rules naming report journal
  obtain ⟨new, hwrites⟩ := (Scan.start owner).exists_writes_applyRules naming rules
  have hjournal : journal = new := hwrites.journal_eq
  refine ⟨?_, ?_, ?_, Scan.matched_ofClass naming rules owner, ?_, ?_, ?_⟩
  · rw [hjournal]
    exact hwrites.inClass
  · rw [hjournal]
    exact hwrites.matched.symm
  · rw [hjournal]
    exact hwrites.failures.symm
  · calc journal.count .methodMatched + journal.count .registrationUnmatched
        = journal.bindings.length := journal.length_bindings.symm
      _ = ((ClassRule.firing rules owner).map fun turn => turn.2.methods.length).sum := by
        rw [show journal.bindings = _ from Scan.bindings_ofClass naming rules owner,
          List.length_flatMap]
        simp only [List.length_map]
  · intro t i m b htries
    obtain ⟨hown, later, hlater⟩ := t.exists_journal htries
    refine ⟨_, later, hown, hlater, ?_, ?_, ?_⟩
    · exact fun e he => Block.about_of_mem_journal he
    · intro e hfails
      rw [Block.journal, show b.run _ m t.method.label = .error e from hfails]
      rfl
    · intro edited outcome hcommitted
      have hrun : b.run (t.atMethod naming owner).owner m t.method.label = .ok (edited, outcome) :=
        hcommitted
      rw [Block.journal, hrun]
      exact ⟨Block.length_events hrun, (Block.run_sites hrun).1,
        fun j done hdone => Block.getElem?_events hrun hdone⟩
  · intro signature hmem
    rw [hjournal]
    exact hwrites.transformed signature hmem (by simp [Scan.start, Report.start])

end ClassEdit
