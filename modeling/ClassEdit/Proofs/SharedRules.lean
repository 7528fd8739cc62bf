import ClassEdit.Proofs.TweakScripts

/-!
# Rules that two modules share

Two modules share the block that edits the frame counter: one replaces its label, the other one
scales its value. Two others share the rule about the launcher metadata, where each edits a method.
What of such a rule there is depends on which of its modules take part and on whether their options
can be read; a module whose options cannot be read adds no more than one that does not take part.

## Main definitions

* `Tweak.frameLabel`, `Tweak.frameMultiplier`: what the modules say about the frame counter.
* `Tweak.frameCounterRule`, `Tweak.metadataRule`: the rules with what the modules have added.

## Main results

* `Tweak.alone_frameCounter`, `Tweak.alone_metadata`: what the two programs make.
-/

namespace ClassEdit

theorem made_bind {σ : Type} {p : Drafting σ Unit} {q : Unit → Drafting σ Unit} {s : σ} :
    made (p >>= q) s = made (q ()) (made p s) := rfl

/-- A section of a block that reads an option and adds an operation. -/
theorem BlockDraft.made_reading {α : Type} {s : BlockDraft} {name : ModuleName}
    {read : ModuleState → Except EditError α} {program : α → Drafting BlockDraft Unit}
    (op : α → Operation) (hread : ∀ m, ReadsOwn m (read m))
    (hprogram : ∀ a, program a = add (op a)) :
    made (withModule name fun m => do
        let a ← liftM (read m)
        liftM (program a)) s = { s with
      operations := s.operations ++ ((s.registry.given name read).map op).toList
      issues := s.issues ++ s.registry.refused name read } := by
  have hback (issues : List EditError) :
      Draft.setIssues (Draft.rollback (Draft.mark s) (Draft.leave s (Draft.enter name s))) issues =
        Draft.setIssues s issues :=
    BlockDraft.Grown.rolledBack issues (Growing.refl (Draft.enter name s))
  rw [made_withModule_reading hread (fun a => by rw [hprogram]; rfl) hback]
  -- something is given or refused, or neither if the module does not take part
  cases hgiven : (Draft.registry s).given name read with
  | some a =>
    have hrefused : s.registry.refused name read = [] := Registry.refused_of_given hgiven
    dsimp only
    rw [hprogram, hrefused, List.append_nil]
    rfl
  | none =>
    rw [Option.map_none, Option.toList_none, List.append_nil]
    rfl

/-- A section of method rules that reads an option and makes a rule. -/
theorem MethodsDraft.made_reading {α : Type} {s : MethodsDraft} {name : ModuleName}
    {read : ModuleState → Except EditError α} {program : α → Drafting MethodsDraft Unit}
    {rule : α → MethodRule} (hread : ∀ m, ReadsOwn m (read m))
    (hprogram : ∀ a, made (program a) (Draft.enter name s) =
      { s with module := some name, methods := s.methods ++ [rule a] }) :
    made (withModule name fun m => do
        let a ← liftM (read m)
        liftM (program a)) s = { s with
      methods := s.methods ++ ((s.registry.given name read).map rule).toList
      issues := s.issues ++ s.registry.refused name read } := by
  -- a section that only reads has nothing to be rolled back
  have hback (issues : List EditError) :
      Draft.setIssues (Draft.rollback (Draft.mark s) (Draft.leave s (Draft.enter name s))) issues =
        Draft.setIssues s issues :=
    MethodsDraft.Grown.rolledBack issues (Growing.refl (Draft.enter name s))
  rw [made_withModule_reading hread (fun a => by rw [hprogram]; rfl) hback]
  cases hgiven : (Draft.registry s).given name read with
  | some a =>
    have hrefused : s.registry.refused name read = [] := Registry.refused_of_given hgiven
    dsimp only
    rw [hprogram, hrefused, List.append_nil]
    rfl
  | none =>
    rw [Option.map_none, Option.toList_none, List.append_nil]
    rfl

namespace Tweak

/-! ### The frame counter -/

open MethodRuleDraft MethodsDraft ClassRuleDraft RulesDraft

/-- The operation that replaces the label. -/
def labelEdit (text : String) : Operation := .replaceConstant (labeled "FPS") (labeled text)

/-- The operation that scales the value. -/
def scalingEdit (multiplier : UInt64) : Operation :=
  .callAdvice frameRateCalls none (some (.assembled fun _ => scaleInteger (single multiplier)))

/-- The label, if it is to be replaced. -/
def frameLabel (registry : Registry) : Option String :=
  registry.given .changeModStrings fun m => m.text "fps_text"

/-- The multiplier, if the value is to be scaled. -/
def frameMultiplier (registry : Registry) : Option UInt64 :=
  registry.given .fpsSpoof fun m => m.float "multiplier"

/-- The operations of the block. -/
def frameCounterEdits (registry : Registry) : List Operation :=
  ((frameLabel registry).map labelEdit).toList ++
    ((frameMultiplier registry).map scalingEdit).toList

/-- What is raised while the block is made. -/
def frameCounterIssues (registry : Registry) : List EditError :=
  (registry.refused .changeModStrings fun m => m.text "fps_text") ++
    registry.refused .fpsSpoof fun m => m.float "multiplier"

theorem made_frameCounterBlock (registry : Registry) :
    made frameCounterBlock (BlockDraft.start registry) =
      ⟨registry, frameCounterEdits registry, true, frameCounterIssues registry⟩ := by
  have hlabel (s : BlockDraft) : made (withModule .changeModStrings fun m => do
      let text ← liftM (m.text "fps_text")
      liftM (BlockDraft.replaceConstant (labeled "FPS") (labeled text))) s = _ :=
    BlockDraft.made_reading labelEdit (fun _ => readsOwn_text) fun _ => rfl
  have hscaling (s : BlockDraft) : made (withModule .fpsSpoof fun m => do
      let multiplier ← liftM (m.float "multiplier")
      liftM (BlockDraft.adviceAfter frameRateCalls fun _ => scaleInteger (single multiplier))) s =
        _ :=
    BlockDraft.made_reading scalingEdit (fun _ => readsOwn_float) fun _ => rfl
  rw [frameCounterBlock, made_bind, hlabel]
  refine (hscaling _).trans ?_
  simp only [BlockDraft.start, List.nil_append, frameCounterEdits, frameCounterIssues, frameLabel,
    frameMultiplier]

/-- The classes that the rule about the frame counter is about. -/
def frameCounterClass : ClassPattern := ⟨[.host, .contains "[1466 FPS]"]⟩

/-- The methods that it may be bound to. -/
def frameCounterText : MethodPattern := ⟨[.loads "\x01 FPS"]⟩

/-- The method rule with given operations. -/
def frameCounterMethodRule (operations : List Operation) : MethodRule :=
  ⟨"fps_mod::getText", frameCounterText, some (.ofOperations operations), none⟩

/-- The rule with given operations. -/
def frameCounterRule (operations : List Operation) : ClassRule where
  label := "fps_mod"
  pattern := frameCounterClass
  methods := [frameCounterMethodRule operations]
  module := none

/-- The rule under construction when its block is made. -/
def frameCounterDraft (registry : Registry) (block : BlockDraft) : ClassRuleDraft where
  registry := registry
  pattern := frameCounterClass
  label := some "fps_mod"
  methods := [⟨"getText", frameCounterText, some block.block, none⟩]
  issues := block.issues
  module := none
  outerModule := none
  unnamed := 0

/-- There is a rule about the frame counter if there is something to edit. -/
theorem alone_frameCounter (registry : Registry) : alone registry frameCounter =
    ⟨registry, if frameCounterEdits registry = [] then []
      else [frameCounterRule (frameCounterEdits registry)], frameCounterIssues registry, none⟩ := by
  have hmade : alone registry frameCounter =
      let draft := frameCounterDraft registry (made frameCounterBlock (BlockDraft.start registry))
      ⟨registry, if draft.rule.hasWork then [draft.rule] else [], draft.issues, none⟩ := rfl
  rw [hmade, made_frameCounterBlock]
  -- a rule with an empty block has nothing to do and is dropped
  cases frameCounterEdits registry with
  | nil => rfl
  | cons op ops => rfl

/-! ### The launcher metadata -/

/-- The operation that hides a section. -/
def hidingEdit (name : String) : Operation := .replaceConstant (.string name) (.string "xdd")

/-- The method rule that hides sections. -/
def hidingRule (hidden : List String) : MethodRule where
  label := "loadActions"
  pattern := ⟨[.loads "blogPosts"]⟩
  block := some (.ofOperations (hidden.map hidingEdit))
  module := some .metadata

/-- The method rule that exchanges the address. -/
def addressRule (url : String) : MethodRule where
  label := "makeRequest"
  pattern := ⟨[.loads "PROCESSOR_ARCHITECTURE"]⟩
  block := some (.ofOperations [.callAdvice ⟨[.named "create", .ownedBy "java/net/URI"]⟩
    (some (.assembled fun _ => exchangeText url)) none])
  module := some .metadataUrl

/-- The method rules about the metadata. -/
def metadataMethods (registry : Registry) : List MethodRule :=
  ((registry.given .metadata fun m => hiddenSections m metadataSections).map hidingRule).toList ++
    ((registry.given .metadataUrl fun m => m.text "metadata_url").map addressRule).toList

/-- What is raised while they are made. -/
def metadataIssues (registry : Registry) : List EditError :=
  (registry.refused .metadata fun m => hiddenSections m metadataSections) ++
    registry.refused .metadataUrl fun m => m.text "metadata_url"

/-- The rule with given method rules. -/
def metadataRule (methods : List MethodRule) : ClassRule where
  label := "metadata"
  pattern := ⟨[.host, .contains "metadata_fallback.json"]⟩
  methods := (methods.filter MethodRule.isKept).map fun m =>
    { m with label := "metadata::" ++ m.label }
  module := none

/-- The program that hides sections adds an operation for each of them and raises nothing. -/
theorem made_hiding (hidden : List String) (s : BlockDraft) :
    made (hidden.forM fun name => BlockDraft.replaceConstant (.string name) (.string "xdd")) s =
      { s with operations := s.operations ++ hidden.map hidingEdit } := by
  induction hidden generalizing s with
  | nil =>
    rw [List.map_nil, List.append_nil]
    rfl
  | cons name hidden ih =>
    have hfirst : made ((name :: hidden).forM fun name =>
        BlockDraft.replaceConstant (.string name) (.string "xdd")) s =
          made (hidden.forM fun name => BlockDraft.replaceConstant (.string name) (.string "xdd"))
            { s with operations := s.operations ++ [hidingEdit name] } := rfl
    rw [hfirst, ih]
    simp only [List.map_cons, List.append_assoc, List.singleton_append]

theorem made_hidingRule (hidden : List String) (s : MethodsDraft) :
    made (method "loadActions" do
      MethodRuleDraft.require (.loads "blogPosts")
      transform (hidden.forM fun name =>
        BlockDraft.replaceConstant (.string name) (.string "xdd"))) (Draft.enter .metadata s) =
      { s with module := some .metadata, methods := s.methods ++ [hidingRule hidden] } := by
  let program : Drafting BlockDraft Unit :=
    hidden.forM fun name => BlockDraft.replaceConstant (.string name) (.string "xdd")
  have hmade : made (method "loadActions" do
      MethodRuleDraft.require (.loads "blogPosts")
      transform program) (Draft.enter .metadata s) = { s with
        module := some .metadata
        methods := s.methods ++ [⟨"loadActions", ⟨[.loads "blogPosts"]⟩,
          some (made program (BlockDraft.start s.registry)).block, some .metadata⟩]
        issues := s.issues ++ (made program (BlockDraft.start s.registry)).issues } := rfl
  rw [hmade, made_hiding, BlockDraft.start, List.append_nil]
  rfl

theorem made_addressRule (url : String) (s : MethodsDraft) :
    made (method "makeRequest" do
      MethodRuleDraft.require (.loads "PROCESSOR_ARCHITECTURE")
      transform (BlockDraft.adviceBefore ⟨[.named "create", .ownedBy "java/net/URI"]⟩ fun _ =>
        exchangeText url)) (Draft.enter .metadataUrl s) =
      { s with module := some .metadataUrl, methods := s.methods ++ [addressRule url] } := by
  show ({ s with
    module := some .metadataUrl
    methods := s.methods ++ [addressRule url]
    issues := s.issues ++ [] } : MethodsDraft) = _
  rw [List.append_nil]

theorem made_metadataMethods (s : MethodsDraft) : made (do
      withModule .metadata fun m => do
        let hidden ← liftM (hiddenSections m metadataSections)
        liftM (method "loadActions" do
          MethodRuleDraft.require (.loads "blogPosts")
          transform (hidden.forM fun name =>
            BlockDraft.replaceConstant (.string name) (.string "xdd")))
      withModule .metadataUrl fun m => do
        let url ← liftM (m.text "metadata_url")
        liftM (method "makeRequest" do
          MethodRuleDraft.require (.loads "PROCESSOR_ARCHITECTURE")
          transform (BlockDraft.adviceBefore ⟨[.named "create", .ownedBy "java/net/URI"]⟩ fun _ =>
            exchangeText url)) : Drafting MethodsDraft Unit) s =
    { s with
      methods := s.methods ++ metadataMethods s.registry
      issues := s.issues ++ metadataIssues s.registry } := by
  rw [made_bind,
    MethodsDraft.made_reading (fun _ => readsOwn_hiddenSections) fun hidden =>
      made_hidingRule hidden s,
    MethodsDraft.made_reading (fun _ => readsOwn_text) fun url => made_addressRule url _]
  simp only [metadataMethods, metadataIssues, List.append_assoc]

/-- The rule under construction when its method rules are made. -/
def metadataDraft (registry : Registry) (made : MethodsDraft) : ClassRuleDraft where
  registry := registry
  pattern := ⟨[.host, .contains "metadata_fallback.json"]⟩
  label := some "metadata"
  methods := made.methods
  issues := made.issues
  module := none
  outerModule := none
  unnamed := made.unnamed

/-- There is a rule about the metadata if there is something to edit. -/
theorem alone_metadata (registry : Registry) : alone registry metadata =
    ⟨registry, if (metadataRule (metadataMethods registry)).hasWork then
      [metadataRule (metadataMethods registry)] else [], metadataIssues registry, none⟩ := by
  have hmethods := made_metadataMethods ⟨registry, [], [], none, 0⟩
  have hmade : alone registry metadata =
      let draft := metadataDraft registry (made _ ⟨registry, [], [], none, 0⟩)
      ⟨registry, if draft.rule.hasWork then [draft.rule] else [], draft.issues, none⟩ := rfl
  rw [hmade, hmethods]
  rfl

end Tweak

end ClassEdit
