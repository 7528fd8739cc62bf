import ClassEdit.Settings.Registry

/-!
# Sections of a module

Registrations are made by programs that change a draft. A section is a part of such a program that
belongs to a module: it runs only if the module takes part, it may read the options of the module,
and it may fail. If it fails, or if anything made inside it raised an issue, all that it added is
taken back and one issue takes the place of what was raised, so a section is registered completely
or not at all.

## Main definitions

* `Draft`: what a draft has to provide for sections.
* `Drafting`, `SectionBody`: programs that cannot fail, and programs that can.
* `sectionFailure?`: whether a section failed, and the issue that reports it.
* `withModule`: a section.
-/

namespace ClassEdit

/-- A program that changes a draft. -/
abbrev Drafting (σ : Type) := StateM σ

/-- A program that changes a draft and may fail. What it changed before it fails stays changed
until the section that it is the body of takes it back. -/
abbrev SectionBody (σ : Type) := ExceptT EditError (StateM σ)

/-- What a draft has to provide for sections. Drafts grow at their ends, so what a section has added
can be dropped when it is known how much there was before. -/
class Draft (σ : Type) where
  /-- The modules that take part. -/
  registry : σ → Registry
  /-- What was raised so far, in order. -/
  issues : σ → List EditError
  /-- The draft with other issues. -/
  setIssues : σ → List EditError → σ
  /-- What is noted before a section. -/
  Mark : Type
  /-- The note about a draft. -/
  mark : σ → Mark
  /-- The draft without what was added since a note was made. -/
  rollback : Mark → σ → σ
  /-- The draft as a section of a module finds it. -/
  enter : ModuleName → σ → σ
  /-- The draft after the body of a section, which belongs to the same module again as before. -/
  leave : σ → σ → σ

/-- The issue that reports a section, if its body failed or raised something. A problem of a module
that stands alone is reported as it is. -/
def sectionFailure? (name : ModuleName) (result : Except EditError Unit)
    (raised : List EditError) : Option EditError :=
  match result, raised with
  | .ok (), [] => none
  | .error (.module other problem), [] => some (.module other problem)
  | .error e, raised => some (.module name (.raised (e.message :: raised.map EditError.message)))
  | .ok (), raised => some (.module name (.raised (raised.map EditError.message)))

/-- A section of a module. What its body raised is taken from the issues in any case. -/
def withModule {σ : Type} [Draft σ] (name : ModuleName) (body : ModuleState → SectionBody σ Unit) :
    Drafting σ Unit := fun s =>
  if (Draft.registry s).isEnabled name then
    let count := (Draft.issues s).length
    let (result, after) := (body ((Draft.registry s).state name)).run (Draft.enter name s)
    let after := Draft.leave s after
    let kept := (Draft.issues after).take count
    match sectionFailure? name result ((Draft.issues after).drop count) with
    | none => ((), Draft.setIssues after kept)
    | some issue => ((), Draft.setIssues (Draft.rollback (Draft.mark s) after) (kept ++ [issue]))
  else ((), s)

end ClassEdit
