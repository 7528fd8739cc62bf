import ClassEdit.Proofs.FieldTypes

/-!
# The constant pool of a class that is put together

A class is described by calls, one after the other, and built when all of them were made. The pool
is filled in then: first the strings that were given for it, in the order of the calls, and behind
them what the bodies load, method by method. Of equal constants only the first is taken. So the pool
is determined by two facts, which constants are offered to it and in which order they are offered
for the first time.

Equality is that of encodings. It is an equality like any other, so that zero and minus zero have
one entry each and an undefined number does not fill the pool with copies of itself.

## Main definitions

* `ClassDraft.Call`, `ClassDraft.described`: calls, and the class that they describe.
* `ClassDraft.offered`: everything that is offered to the pool, in order.

## Main results

* `mem_firstOccurrences`, `pairwise_firstOccurrences`: what is kept of a list, and in which order.
* `ClassDraft.pool_of_build`: the pool of a class that was built.
* `ClassDraft.pool_exact`: classes with valid descriptors are built, and what their pools hold.
-/

namespace ClassEdit

/-! ### First occurrences -/

section FirstOccurrences

variable {α : Type} [DecidableEq α] {a : α} {l : List α}

theorem mem_firstOccurrences : a ∈ firstOccurrences l ↔ a ∈ l := by
  induction l with
  | nil => exact Iff.rfl
  | cons first rest ih =>
    rw [firstOccurrences, List.mem_cons, List.mem_cons, List.mem_filter, ih, decide_eq_true_iff]
    by_cases hfirst : a = first <;> simp [hfirst]

/-- What is kept stands in the order in which it occurs for the first time. -/
theorem pairwise_firstOccurrences :
    (firstOccurrences l).Pairwise fun a b => l.idxOf a < l.idxOf b := by
  induction l with
  | nil => exact .nil
  | cons first rest ih =>
    have hne : ∀ b ∈ (firstOccurrences rest).filter (fun b => b ≠ first), first ≠ b := by
      intro b hb
      exact Ne.symm (of_decide_eq_true (List.mem_filter.1 hb).2)
    rw [firstOccurrences, List.pairwise_cons]
    constructor
    · intro b hb
      rw [List.idxOf_cons_self, List.idxOf_cons_ne _ (hne b hb)]
      exact Nat.succ_pos _
    · -- behind the first element all places are one further on
      refine (ih.filter _).imp_of_mem ?_
      intro a b ha hb hlt
      rw [List.idxOf_cons_ne _ (hne a ha), List.idxOf_cons_ne _ (hne b hb)]
      exact Nat.succ_lt_succ hlt

theorem nodup_firstOccurrences : (firstOccurrences l).Nodup := by
  refine pairwise_firstOccurrences.imp ?_
  rintro a b hlt rfl
  exact Nat.lt_irrefl _ hlt

end FirstOccurrences

/-! ### Calls that describe a class -/

namespace ClassDraft

/-- The calls that describe a class. A method is given as it was described before. -/
inductive Call where
  | enumeration
  | extending (superName : String)
  | implementing (interface : String)
  | withAccess (access : AccessFlags)
  | withField (field : FieldDraft)
  | withMethod (method : MethodDraft)
  | withString (value : String)

namespace Call

/-- What a call does. -/
def perform (d : ClassDraft) : Call → ClassDraft
  | enumeration => d.enumeration
  | extending superName => d.extending superName
  | implementing interface => d.implementing interface
  | withAccess access => d.withAccess access
  | withField field => d.withField field
  | withMethod method => d.withMethod method
  | withString value => d.withString value

/-- The field that a call adds. -/
def field? : Call → Option FieldDraft
  | withField field => some field
  | _ => none

/-- The method that a call adds. -/
def method? : Call → Option MethodDraft
  | withMethod method => some method
  | _ => none

/-- The string that a call gives for the pool. -/
def string? : Call → Option String
  | withString value => some value
  | _ => none

variable {call : Call}

theorem field?_eq_some_iff {f : FieldDraft} : call.field? = some f ↔ call = withField f := by
  cases call <;> simp [field?]

theorem method?_eq_some_iff {d : MethodDraft} : call.method? = some d ↔ call = withMethod d := by
  cases call <;> simp [method?]

theorem string?_eq_some_iff {value : String} :
    call.string? = some value ↔ call = withString value := by
  cases call <;> simp [string?]

end Call

/-- The class that is described by calls, one after the other. -/
def described (name : String) (calls : List Call) : ClassDraft :=
  calls.foldl Call.perform (named name)

/-- What calls add, each behind what is there, is what all of them add in their order. -/
theorem foldl_perform {β : Type} {view : ClassDraft → List β} {part : Call → Option β}
    (hadds : ∀ d call, view (Call.perform d call) = view d ++ (part call).toList)
    (d : ClassDraft) (calls : List Call) :
    view (calls.foldl Call.perform d) = view d ++ calls.filterMap part := by
  induction calls generalizing d with
  | nil => exact (List.append_nil _).symm
  | cons first rest ih =>
    rw [List.foldl_cons, ih, hadds, List.append_assoc]
    cases hpart : part first <;> simp [hpart]

theorem members_perform (d : ClassDraft) (call : Call) :
    (call.perform d).fields = d.fields ++ call.field?.toList ∧
      (call.perform d).methods = d.methods ++ call.method?.toList ∧
        (call.perform d).strings = d.strings ++ call.string?.toList := by
  cases call <;>
    simp [Call.perform, Call.field?, Call.method?, Call.string?, enumeration, extending,
      implementing, withAccess, withField, withMethod, withString]

variable {name : String} {calls : List Call}

theorem fields_described : (described name calls).fields = calls.filterMap Call.field? :=
  foldl_perform (fun d call => (members_perform d call).1) (named name) calls

theorem methods_described : (described name calls).methods = calls.filterMap Call.method? :=
  foldl_perform (fun d call => (members_perform d call).2.1) (named name) calls

theorem strings_described : (described name calls).strings = calls.filterMap Call.string? :=
  foldl_perform (fun d call => (members_perform d call).2.2) (named name) calls

end ClassDraft

/-! ### The class that is built -/

/-- Members built from drafts keep what each of them keeps. -/
theorem map_of_mapM_eq_ok {ε α β γ : Type} {f : α → Except ε β} {g : β → γ} {h : α → γ}
    (hkeeps : ∀ a b, f a = .ok b → g b = h a) {as : List α} {bs : List β}
    (hbuilt : as.mapM f = .ok bs) : bs.map g = as.map h := by
  induction as generalizing bs with
  | nil =>
    obtain rfl : [] = bs := Except.ok.inj hbuilt
    rfl
  | cons a as ih =>
    rw [List.mapM_cons, bind_eq_ok_iff] at hbuilt
    obtain ⟨b, hb, hbuilt⟩ := hbuilt
    rw [bind_eq_ok_iff] at hbuilt
    obtain ⟨rest, hrest, hbuilt⟩ := hbuilt
    obtain rfl : b :: rest = bs := Except.ok.inj hbuilt
    rw [List.map_cons, List.map_cons, hkeeps a b hb, ih hrest]

/-- A method is built with the code that was given for it. -/
theorem MethodDraft.code_of_build {d : MethodDraft} {m : MethodDecl} (h : d.build = .ok m) :
    m.code = d.code := by
  simp only [build, typed, MethodDecl.ofDescriptor, bind_eq_ok_iff] at h
  obtain ⟨_, ⟨_, ⟨t, -, htyped⟩, hhandlers⟩, hbuilt⟩ := h
  cases htyped
  cases hhandlers
  cases hbuilt
  rfl

theorem Instruction.string?_eq_some_iff {insn : Instruction} {text : String} :
    insn.string? = some text ↔ insn = .ldc (.string text) := by
  cases insn with
  | ldc constant => cases constant <;> simp [string?]
  | _ => simp [string?]

/-- The constant that an instruction takes from the pool. -/
def Instruction.pooled? : Instruction → Option Constant
  | .ldc constant => some constant
  | _ => none

theorem Instruction.pooled?_eq_some_iff {insn : Instruction} {constant : Constant} :
    insn.pooled? = some constant ↔ insn = .ldc constant := by
  cases insn <;> simp [pooled?]

namespace ClassDraft

variable {d : ClassDraft} {c : ClassDecl} {methods : List MethodDecl} {constant : Constant}
  {name : String} {calls : List Call}

theorem loaded_eq (methods : List MethodDecl) :
    loaded methods = methods.flatMap fun m => m.code.filterMap Instruction.pooled? := rfl

theorem mem_loaded_iff :
    constant ∈ loaded methods ↔ ∃ m ∈ methods, Instruction.ldc constant ∈ m.code := by
  simp only [loaded_eq, List.mem_flatMap, List.mem_filterMap, Instruction.pooled?_eq_some_iff,
    exists_eq_right]

/-- What methods load is what their drafts say. -/
theorem loaded_eq_of_code {drafts : List MethodDraft}
    (hcode : methods.map MethodDecl.code = drafts.map MethodDraft.code) :
    loaded methods = drafts.flatMap fun d => d.code.filterMap Instruction.pooled? :=
  calc loaded methods
    _ = (methods.map MethodDecl.code).flatMap (List.filterMap Instruction.pooled?) := by
      rw [loaded_eq, List.flatMap_map]
    _ = drafts.flatMap fun d => d.code.filterMap Instruction.pooled? := by
      rw [hcode, List.flatMap_map]

/-- The methods of a class that was built, and its pool. -/
theorem pool_of_build (h : d.build = .ok c) :
    c.methods.map MethodDecl.code = d.methods.map MethodDraft.code ∧
      c.pool = firstOccurrences (d.strings.map Constant.string ++ loaded c.methods) := by
  simp only [build, bind_eq_ok_iff] at h
  obtain ⟨fields, -, methods, hmethods, hclass⟩ := h
  cases hclass
  exact ⟨map_of_mapM_eq_ok (fun _ _ => MethodDraft.code_of_build) hmethods, rfl⟩

/-- Everything that calls offer to the pool: the strings given for it, and behind them what the
methods load. -/
def offered (calls : List Call) : List Constant :=
  (calls.filterMap Call.string?).map Constant.string ++
    (calls.filterMap Call.method?).flatMap fun d => d.code.filterMap Instruction.pooled?

/-- A class is built if all descriptors that were given for it are valid. -/
theorem exists_build_described
    (hfields : ∀ f, Call.withField f ∈ calls → FieldText f.descriptor.toList)
    (hmethods : ∀ d, Call.withMethod d ∈ calls → MethodText d.descriptor.toList) :
    ∃ c, (described name calls).build = .ok c := by
  rw [exists_build_iff, fields_described, methods_described]
  constructor
  · intro f hf
    obtain ⟨call, hcall, hfield⟩ := List.mem_filterMap.1 hf
    exact .inl (hfields f (Call.field?_eq_some_iff.1 hfield ▸ hcall))
  · intro d hd
    obtain ⟨call, hcall, hmethod⟩ := List.mem_filterMap.1 hd
    exact hmethods d (Call.method?_eq_some_iff.1 hmethod ▸ hcall)

theorem code_of_described (h : (described name calls).build = .ok c) :
    c.methods.map MethodDecl.code = (calls.filterMap Call.method?).map MethodDraft.code := by
  rw [(pool_of_build h).1, methods_described]

/-- The pool has everything that is offered to it, once. -/
theorem pool_of_described (h : (described name calls).build = .ok c) :
    c.pool = firstOccurrences (offered calls) := by
  rw [(pool_of_build h).2, strings_described, loaded_eq_of_code (code_of_described h), offered]

theorem mem_pool_iff (h : (described name calls).build = .ok c) : constant ∈ c.pool ↔
    (∃ value, Call.withString value ∈ calls ∧ Constant.string value = constant) ∨
      ∃ m ∈ c.methods, Instruction.ldc constant ∈ m.code := by
  rw [(pool_of_build h).2, strings_described, mem_firstOccurrences, List.mem_append, mem_loaded_iff]
  simp only [List.mem_map, List.mem_filterMap, Call.string?_eq_some_iff, exists_eq_right]

/-- What a body loads as a string is found in the pool. -/
theorem mem_strings_of_described (h : (described name calls).build = .ok c) {m : MethodDecl}
    (hm : m ∈ c.methods) {text : String} (htext : text ∈ m.strings) : text ∈ c.strings := by
  obtain ⟨insn, hinsn, hloads⟩ := List.mem_filterMap.1 htext
  obtain rfl := Instruction.string?_eq_some_iff.1 hloads
  have hpool : Constant.string text ∈ c.pool := (mem_pool_iff h).2 (.inr ⟨m, hm, hinsn⟩)
  exact List.mem_filterMap.2 ⟨.string text, hpool, rfl⟩

/-- A class described with valid descriptors is built, with the described code. Its pool holds the
strings given for it and what its methods load, and nothing else; it holds no constant twice, and
has them in the order in which they are first offered. So every string that a method loads is found
in it. -/
theorem pool_exact (name : String) (calls : List Call)
    (hfields : ∀ f, Call.withField f ∈ calls → FieldText f.descriptor.toList)
    (hmethods : ∀ d, Call.withMethod d ∈ calls → MethodText d.descriptor.toList) :
    ∃ c, (described name calls).build = .ok c ∧
      c.methods.map MethodDecl.code = (calls.filterMap Call.method?).map MethodDraft.code ∧
      (∀ constant, constant ∈ c.pool ↔
        (∃ value, Call.withString value ∈ calls ∧ Constant.string value = constant) ∨
          ∃ m ∈ c.methods, Instruction.ldc constant ∈ m.code) ∧
      c.pool.Nodup ∧
      c.pool.Pairwise (fun a b => (offered calls).idxOf a < (offered calls).idxOf b) ∧
      ∀ m ∈ c.methods, ∀ text ∈ m.strings, text ∈ c.strings := by
  obtain ⟨c, hc⟩ := @exists_build_described name calls hfields hmethods
  have hpool : c.pool = firstOccurrences (offered calls) := pool_of_described hc
  refine ⟨c, hc, code_of_described hc, fun constant => mem_pool_iff hc, ?_, ?_, ?_⟩
  · rw [hpool]
    exact nodup_firstOccurrences
  · rw [hpool]
    exact pairwise_firstOccurrences
  · exact fun m hm text htext => mem_strings_of_described hc hm htext

/-- A class with two bodies that load zero, minus zero, an undefined number twice, and a string that
is given for the pool as well. -/
def zeroCalls : List Call :=
  [.withMethod ⟨"a", "()V", .accStatic, [.ldc (.float 0), .ldc (.float 0x80000000),
      .ldc (.float 0x7fc00000), .simple Opcode.vreturn], [], some 3⟩,
    .withField ⟨"x", "F", .accPrivate⟩,
    .withMethod ⟨"b", "()V", .accStatic, [.ldc (.string "zero"), .ldc (.float 0x7fc00000),
      .simple Opcode.vreturn], [], some 2⟩,
    .withString "zero"]

theorem pool_exact_of_zeros :
    (∀ f, Call.withField f ∈ zeroCalls → FieldText f.descriptor.toList) ∧
      (∀ d, Call.withMethod d ∈ zeroCalls → MethodText d.descriptor.toList) ∧
        ∃ c, (described "a/A" zeroCalls).build = .ok c ∧ c.pool.Nodup ∧
          (∀ m ∈ c.methods, ∀ text ∈ m.strings, text ∈ c.strings) ∧
          c.pool = [.string "zero", .float 0, .float 0x80000000, .float 0x7fc00000] := by
  have hfields : ∀ f, Call.withField f ∈ zeroCalls → FieldText f.descriptor.toList := by
    intro f hf
    obtain rfl : f = ⟨"x", "F", .accPrivate⟩ := by simpa [zeroCalls] using hf
    exact .letter (by decide)
  have hmethods : ∀ d, Call.withMethod d ∈ zeroCalls → MethodText d.descriptor.toList := by
    intro d hd
    have hdescriptor : d.descriptor = "()V" := by
      simp only [zeroCalls, List.mem_cons, Call.withMethod.injEq, reduceCtorEq, false_or] at hd
      rcases hd with rfl | rfl | hd
      · rfl
      · rfl
      · simp at hd
    rw [hdescriptor]
    exact .intro .nil (.inr rfl)
  obtain ⟨c, hc, -, -, hnodup, -, hstrings⟩ := pool_exact "a/A" zeroCalls hfields hmethods
  refine ⟨hfields, hmethods, c, hc, hnodup, hstrings, ?_⟩
  rw [pool_of_described hc]
  decide

end ClassDraft

end ClassEdit
