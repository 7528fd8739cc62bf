import ClassEdit.Settings.ModuleState

/-!
# The modules that take part

Registrations are made against a fixed choice of modules and options. The registry holds the state
of every module; a snapshot is what a settings document says about some of them, under names that
need not be known.

## Main definitions

* `Registry`: the state of every module.
* `ModuleSettings`, `Snapshot`: what a settings document says.
* `Registry.ofSnapshot`: the registry of a snapshot.
-/

namespace ClassEdit

/-- The state of every module, which is found under the name that it bears. -/
structure Registry where
  state : ModuleName → ModuleState
  name_state : ∀ name, (state name).name = name

/-- What a settings document says about one module. -/
structure ModuleSettings where
  enabled : Bool
  options : Table OptionValue

/-- What a settings document says about modules, by name. -/
structure Snapshot where
  modules : Table ModuleSettings

namespace Registry

/-- No module takes part, and all options are as they are from the start. -/
def initial : Registry := ⟨ModuleState.initial, fun _ => rfl⟩

/-- Changes the state of one module, which keeps its name. -/
def update (r : Registry) (name : ModuleName) (change : ModuleState → ModuleState)
    (keeps_name : ∀ m, (change m).name = m.name := by intro _; rfl) : Registry where
  state other := if other = name then change (r.state name) else r.state other
  name_state other := by
    split
    · rename_i h
      rw [keeps_name, r.name_state, h]
    · exact r.name_state other

/-- Lets a module take part, or not. -/
def setEnabled (r : Registry) (name : ModuleName) (enabled : Bool) : Registry :=
  r.update name fun m => { m with enabled }

/-- Gives an option. -/
def setOption (r : Registry) (name : ModuleName) (key : String) (value : OptionValue) : Registry :=
  r.update name fun m => m.setOption key value

/-- Whether a module takes part. -/
def isEnabled (r : Registry) (name : ModuleName) : Bool := (r.state name).enabled

/-- The modules that take part, in their order. -/
def enabled (r : Registry) : List ModuleName := ModuleName.all.filter r.isEnabled

/-- Settles one module as a document says; options that it does not mention stay as they were. -/
def settle (r : Registry) (name : ModuleName) (settings : ModuleSettings) : Registry :=
  r.update name
    (fun m => { m with enabled := settings.enabled }.setOptions settings.options.entries)
    fun _ => ModuleState.name_setOptions

/-- The registry of a snapshot. Names that are not known are passed over. -/
def ofSnapshot (s : Snapshot) : Registry :=
  s.modules.entries.foldl
    (fun r entry =>
      match ModuleName.ofText? entry.1 with
      | some name => r.settle name entry.2
      | none => r)
    initial

@[simp] theorem state_update (r : Registry) (name other : ModuleName)
    (change : ModuleState → ModuleState) (keeps_name : ∀ m, (change m).name = m.name) :
    (r.update name change keeps_name).state other =
      if other = name then change (r.state name) else r.state other := rfl

end Registry

end ClassEdit
