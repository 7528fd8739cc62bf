import ClassEdit.Error
import ClassEdit.Settings.Table

/-!
# The state of a module

Whether a module takes part, and its options. Every option has one value; some are there from the
start, the others have to be given before the module can be used. Options are read by kind, and a
missing option or one of another kind is a problem of the module.

## Main definitions

* `ModuleName.defaults`: the options that are there from the start.
* `ModuleState`: the state.
* `ModuleState.text`, `ModuleState.integer`, `ModuleState.float`, `ModuleState.boolean`: reading
  options by kind.
-/

namespace ClassEdit

/-- The encoding of the double one. -/
def doubleOne : UInt64 := 0x3ff0000000000000

/-- The options of a module that are there from the start. -/
def ModuleName.defaults : ModuleName → List (String × OptionValue)
  | .changeModStrings =>
    [("fps_text", .text "FPS"), ("cps_text", .text "CPS"), ("nickhider_text", .text "You"),
     ("auto_gg_command", .text "/achat gg"), ("level_head_text", .text "Level"),
     ("reach_text", .text "blocks")]
  | .fpsSpoof | .hurtCamShake => [("multiplier", .float doubleOne)]
  | .metadata =>
    [("remove_blog_posts", .boolean true), ("remove_client_settings", .boolean false),
     ("remove_mod_settings", .boolean false), ("remove_server_integration", .boolean false),
     ("remove_pinned_servers", .boolean false)]
  | .discordRichPresence =>
    [("client_id", .text ""), ("hook_name", .text "updateRichPresence")]
  | .toggleSprintText =>
    [("flying_text", .text "flying"), ("flying_boost_text", .text "boost"),
     ("riding_text", .text "riding"), ("descending_text", .text "descending"),
     ("dismounting_text", .text "dismounting"), ("sneaking_text", .text "sneaking"),
     ("toggled_text", .text "toggled"), ("sprinting_text", .text "sprinting")]
  | _ => []

/-- Whether a module takes part, and its options. -/
structure ModuleState where
  name : ModuleName
  enabled : Bool
  options : Table OptionValue

namespace ModuleState

/-- A module that does not take part, with the options that are there from the start. -/
def initial (name : ModuleName) : ModuleState := ⟨name, false, .ofList name.defaults⟩

/-- The value of an option. -/
def option? (m : ModuleState) (key : String) : Option OptionValue := m.options.get? key

/-- The module with an option given. -/
def setOption (m : ModuleState) (key : String) (value : OptionValue) : ModuleState :=
  { m with options := m.options.put key value }

/-- The module with several options given, one after the other. -/
def setOptions (m : ModuleState) : List (String × OptionValue) → ModuleState
  | [] => m
  | (key, value) :: rest => (m.setOption key value).setOptions rest

theorem name_setOptions {m : ModuleState} {entries : List (String × OptionValue)} :
    (m.setOptions entries).name = m.name := by
  induction entries generalizing m with
  | nil => rfl
  | cons entry rest ih => exact ih

/-- The value of an option that has to be there. -/
def required (m : ModuleState) (key : String) : Except EditError OptionValue :=
  match m.option? key with
  | some value => .ok value
  | none => .error (.module m.name (.missingOption key))

/-- The refusal of an option of another kind. -/
def mistyped (m : ModuleState) (key : String) (expected : OptionKind) (found : OptionValue) :
    EditError :=
  .module m.name (.wrongOption key expected found)

/-- The value of a text option. -/
def text (m : ModuleState) (key : String) : Except EditError String :=
  match m.required key with
  | .error e => .error e
  | .ok (.text value) => .ok value
  | .ok found => .error (m.mistyped key .text found)

/-- The value of an integer option. -/
def integer (m : ModuleState) (key : String) : Except EditError Int64 :=
  match m.required key with
  | .error e => .error e
  | .ok (.integer value) => .ok value
  | .ok found => .error (m.mistyped key .integer found)

/-- The encoding of the double nearest to an integer. -/
def widen (value : Int64) : UInt64 := .ofNat (Decimal.binary64.ofInt value.toInt)

/-- The encoding of a double option; an integer is taken as the nearest double. -/
def float (m : ModuleState) (key : String) : Except EditError UInt64 :=
  match m.required key with
  | .error e => .error e
  | .ok (.float bits) => .ok bits
  | .ok (.integer value) => .ok (widen value)
  | .ok found => .error (m.mistyped key .float found)

/-- The value of a truth option. -/
def boolean (m : ModuleState) (key : String) : Except EditError Bool :=
  match m.required key with
  | .error e => .error e
  | .ok (.boolean value) => .ok value
  | .ok found => .error (m.mistyped key .boolean found)

end ModuleState

end ClassEdit
