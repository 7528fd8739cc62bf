import ClassEdit.Settings.Registry
import Mathlib.Data.List.Nodup

/-!
# Modules are resolved one by one

A registry is made from a snapshot by going through the entries of the snapshot and settling, for
each known name, the module that bears it. Names are different, both those of modules and those
under which a snapshot has entries. So each module is settled at most once, by the entry under its
own name, and the entries before and behind that one leave it alone.

The same happens once more inside a module: the options of the entry are written over those that are
there from the start, and each of them under a key of its own.

## Main definitions

* `ModuleState.settled`: a module as one entry settles it.
* `Registry.modules`: the modules of a registry, in their order.

## Main results

* `Table.get?_foldl_put`: what a table holds after entries were written to it.
* `ModuleName.ofText?_eq_some_iff`: a module is known under its own name only.
* `Registry.state_ofSnapshot`: the state of a module comes from the entry under its name.
* `Registry.ofSnapshot_exact`: every module is there once, with what its own entry says.
-/

namespace ClassEdit

/-! ### Writing entries to a table -/

namespace Table

variable {α : Type} {entries : List (String × α)} {key : String}

theorem lookup_eq_none (h : key ∉ entries.map Prod.fst) : entries.lookup key = none := by
  rw [List.lookup_eq_none_iff]
  intro entry hentry
  have hne : key ≠ entry.1 := by
    rintro rfl
    exact h (List.mem_map_of_mem hentry)
  exact bne_iff_ne.2 hne

/-- Entries with different keys take the place of what was there under their keys. -/
theorem get?_foldl_put (t : Table α) (hdistinct : (entries.map Prod.fst).Nodup) :
    (entries.foldl (fun t entry => t.put entry.1 entry.2) t).get? key =
      (entries.lookup key).or (t.get? key) := by
  induction entries generalizing t with
  | nil => rfl
  | cons entry rest ih =>
    obtain ⟨k, value⟩ := entry
    rw [List.map_cons, List.nodup_cons] at hdistinct
    rw [List.foldl_cons, ih _ hdistinct.2, get?_put, lookup_cons_if]
    by_cases hkey : key = k
    · -- what is written here stays, because the rest does not write under this key
      have hrest : rest.lookup key = none := lookup_eq_none (hkey ▸ hdistinct.1)
      rw [hrest, if_pos hkey, if_pos hkey]
      rfl
    · rw [if_neg hkey, if_neg hkey]

theorem get?_ofList (hdistinct : (entries.map Prod.fst).Nodup) :
    (ofList entries).get? key = entries.lookup key := by
  rw [ofList, get?_foldl_put _ hdistinct, get?_empty, Option.or_none]

end Table

/-! ### Names of modules -/

namespace ModuleName

variable {name : ModuleName} {text : String}

theorem nodup_all : all.Nodup := by decide

theorem ofText?_text (name : ModuleName) : ofText? name.text = some name := by
  cases name <;> decide

/-- A module is known under its own name, and under no other. -/
theorem ofText?_eq_some_iff : ofText? text = some name ↔ name.text = text := by
  constructor
  · intro h
    simpa using List.find?_some h
  · rintro rfl
    exact ofText?_text name

/-- A module stands where its position says. -/
theorem getElem?_position (name : ModuleName) : all[name.position]? = some name :=
  List.getElem?_idxOf (mem_all name)

theorem nodup_defaults (name : ModuleName) : (name.defaults.map Prod.fst).Nodup := by
  cases name <;> decide

end ModuleName

/-! ### Settling one module -/

namespace ModuleState

variable {m : ModuleState} {settings : ModuleSettings} {key : String}

/-- The module as an entry of a snapshot settles it. -/
def settled (m : ModuleState) (settings : ModuleSettings) : ModuleState :=
  { m with enabled := settings.enabled }.setOptions settings.options.entries

theorem enabled_setOptions {entries : List (String × OptionValue)} :
    (m.setOptions entries).enabled = m.enabled := by
  induction entries generalizing m with
  | nil => rfl
  | cons entry rest ih => exact ih

theorem options_setOptions {entries : List (String × OptionValue)} :
    (m.setOptions entries).options =
      entries.foldl (fun t entry => t.put entry.1 entry.2) m.options := by
  induction entries generalizing m with
  | nil => rfl
  | cons entry rest ih => exact ih

@[simp] theorem enabled_settled : (m.settled settings).enabled = settings.enabled :=
  enabled_setOptions

/-- Options that the entry does not mention stay as they were. -/
theorem option?_settled :
    (m.settled settings).option? key = (settings.options.get? key).or (m.option? key) := by
  rw [option?, settled, options_setOptions]
  exact Table.get?_foldl_put _ settings.options.distinct

theorem option?_initial (name : ModuleName) :
    (initial name).option? key = name.defaults.lookup key :=
  Table.get?_ofList name.nodup_defaults

end ModuleState

/-! ### Settling all modules -/

namespace Registry

variable {r : Registry} {name : ModuleName}

/-- The modules of a registry, in their order. -/
def modules (r : Registry) : List ModuleState := ModuleName.all.map r.state

theorem map_name_modules (r : Registry) : r.modules.map ModuleState.name = ModuleName.all := by
  rw [modules, List.map_map]
  exact (List.map_congr_left fun name _ => r.name_state name).trans (List.map_id _)

theorem getElem?_modules (r : Registry) (name : ModuleName) :
    r.modules[name.position]? = some (r.state name) := by
  rw [modules, List.getElem?_map, ModuleName.getElem?_position, Option.map_some]

/-- A module is there once, as the state that is found under its name. -/
theorem filter_modules (r : Registry) (name : ModuleName) :
    (r.modules.filter fun m => decide (m.name = name)) = [r.state name] := by
  have hnames : ((fun m : ModuleState => decide (m.name = name)) ∘ r.state) =
      fun other => other == name := by
    funext other
    rw [Function.comp_apply, r.name_state, Bool.beq_eq_decide_eq]
  rw [modules, List.filter_map, hnames, List.filter_beq,
    List.count_eq_one_of_mem ModuleName.nodup_all (ModuleName.mem_all name)]
  rfl

/-- The registry after one entry of a snapshot. -/
def absorb (r : Registry) (entry : String × ModuleSettings) : Registry :=
  match ModuleName.ofText? entry.1 with
  | some name => r.settle name entry.2
  | none => r

theorem ofSnapshot_eq (s : Snapshot) : ofSnapshot s = s.modules.entries.foldl absorb initial := rfl

/-- An entry settles the module that bears its name, and leaves the others alone. -/
theorem state_absorb (r : Registry) (text : String) (settings : ModuleSettings)
    (name : ModuleName) : (r.absorb (text, settings)).state name =
      if name.text = text then (r.state name).settled settings else r.state name := by
  rw [absorb]
  cases hknown : ModuleName.ofText? text with
  | none =>
    -- a text that is no name is dropped
    have hother : name.text ≠ text := by
      intro hname
      rw [ModuleName.ofText?_eq_some_iff.2 hname] at hknown
      cases hknown
    rw [if_neg hother]
  | some known =>
    rw [ModuleName.ofText?_eq_some_iff] at hknown
    have hsame : name.text = text ↔ name = known := by
      rw [← ModuleName.ofText?_eq_some_iff, ← hknown, ModuleName.ofText?_text, Option.some.injEq,
        eq_comm]
    simp only [hsame]
    by_cases hname : name = known
    · subst hname
      rw [if_pos rfl]
      exact if_pos rfl
    · rw [if_neg hname]
      exact if_neg hname

/-- Of entries under different names, the one under the name of a module settles it. -/
theorem state_foldl_absorb {entries : List (String × ModuleSettings)}
    (hdistinct : (entries.map Prod.fst).Nodup) :
    (entries.foldl absorb r).state name =
      (entries.lookup name.text).elim (r.state name) (r.state name).settled := by
  induction entries generalizing r with
  | nil => rfl
  | cons entry rest ih =>
    obtain ⟨text, settings⟩ := entry
    rw [List.map_cons, List.nodup_cons] at hdistinct
    rw [List.foldl_cons, ih hdistinct.2, state_absorb, Table.lookup_cons_if]
    by_cases hname : name.text = text
    · -- the entries that follow have other names, so the module is settled here for good
      have hrest : rest.lookup name.text = none := Table.lookup_eq_none (hname ▸ hdistinct.1)
      rw [hrest, if_pos hname, if_pos hname]
      rfl
    · rw [if_neg hname, if_neg hname]

/-- The state of a module comes from the entry under its name, or is the one at the start. -/
theorem state_ofSnapshot (s : Snapshot) (name : ModuleName) :
    (ofSnapshot s).state name =
      (s.modules.get? name.text).elim (.initial name) (ModuleState.initial name).settled := by
  rw [ofSnapshot_eq, state_foldl_absorb s.modules.distinct]
  rfl

theorem isEnabled_ofSnapshot_iff (s : Snapshot) (name : ModuleName) :
    (ofSnapshot s).isEnabled name = true ↔
      ∃ settings, s.modules.get? name.text = some settings ∧ settings.enabled = true := by
  rw [isEnabled, state_ofSnapshot]
  cases s.modules.get? name.text with
  | none => simp [ModuleState.initial]
  | some settings => simp

theorem option?_ofSnapshot (s : Snapshot) (name : ModuleName) (key : String) :
    ((ofSnapshot s).state name).option? key =
      ((s.modules.get? name.text).bind fun settings => settings.options.get? key).or
        (name.defaults.lookup key) := by
  rw [state_ofSnapshot, ← ModuleState.option?_initial]
  cases s.modules.get? name.text with
  | none => rfl
  | some settings => exact ModuleState.option?_settled

/-- The registry of a snapshot has every module once, at its position. A module takes part exactly
if the entry under its name says so, and an option has the value in that entry, or else the one that
is there from the start. What a snapshot says under other names makes no difference to it. -/
theorem ofSnapshot_exact (s : Snapshot) (name : ModuleName) :
    (ofSnapshot s).modules.map ModuleState.name = ModuleName.all ∧
    ((ofSnapshot s).modules.filter fun m => decide (m.name = name)) = [(ofSnapshot s).state name] ∧
    (ofSnapshot s).modules[name.position]? = some ((ofSnapshot s).state name) ∧
    ((ofSnapshot s).isEnabled name = true ↔
      ∃ settings, s.modules.get? name.text = some settings ∧ settings.enabled = true) ∧
    (∀ key, ((ofSnapshot s).state name).option? key =
      ((s.modules.get? name.text).bind fun settings => settings.options.get? key).or
        (name.defaults.lookup key)) ∧
    ∀ s' : Snapshot, s'.modules.get? name.text = s.modules.get? name.text →
      (ofSnapshot s').state name = (ofSnapshot s).state name := by
  refine ⟨map_name_modules _, filter_modules _ name, getElem?_modules _ name,
    isEnabled_ofSnapshot_iff s name, option?_ofSnapshot s name, ?_⟩
  intro s' hsame
  rw [state_ofSnapshot, state_ofSnapshot, hsame]

/-- The camera shake is halved, and nothing else is known. -/
def halvedShake : Snapshot :=
  ⟨⟨[("no_such_module", ⟨true, .empty⟩),
    ("hurt_cam_shake", ⟨true, .ofList [("multiplier", .float 0x3fe0000000000000)]⟩)], by decide⟩⟩

/-- The same entry for the camera shake, beside others. -/
def halvedShakeAmongOthers : Snapshot :=
  ⟨⟨[("hurt_cam_shake", ⟨true, .ofList [("multiplier", .float 0x3fe0000000000000)]⟩),
    ("fps_spoof", ⟨true, .ofList [("multiplier", .integer 3)]⟩), ("privacy", ⟨false, .empty⟩)],
    by decide⟩⟩

theorem ofSnapshot_exact_of_halved_shake :
    halvedShakeAmongOthers.modules.get? ModuleName.hurtCamShake.text =
        halvedShake.modules.get? ModuleName.hurtCamShake.text ∧
      (ofSnapshot halvedShake).isEnabled .hurtCamShake = true ∧
      ((ofSnapshot halvedShake).state .hurtCamShake).option? "multiplier" =
        some (.float 0x3fe0000000000000) ∧
      (ofSnapshot halvedShakeAmongOthers).state .hurtCamShake =
        (ofSnapshot halvedShake).state .hurtCamShake := by
  have hsame : halvedShakeAmongOthers.modules.get? ModuleName.hurtCamShake.text =
      halvedShake.modules.get? ModuleName.hurtCamShake.text := rfl
  obtain ⟨-, -, -, henabled, hoption, hother⟩ := ofSnapshot_exact halvedShake .hurtCamShake
  exact ⟨hsame, henabled.2 ⟨_, rfl, rfl⟩, hoption "multiplier", hother _ hsame⟩

end Registry

end ClassEdit
