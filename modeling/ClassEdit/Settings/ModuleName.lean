/-!
# Module names

A module bundles the registrations that implement one visible change. The set of modules is fixed,
and a settings document refers to a module by its name.

## Main definitions

* `ModuleName`, `ModuleName.all`: the modules in their order.
* `ModuleName.text`, `ModuleName.ofText?`: names in documents and messages.
-/

namespace ClassEdit

/-- The modules. -/
inductive ModuleName where
  /-- Other labels for counters and chat commands. -/
  | changeModStrings
  /-- A multiple of the frame rate is shown. -/
  | fpsSpoof
  /-- Sections of the launcher metadata are hidden. -/
  | metadata
  /-- The launcher metadata comes from another address. -/
  | metadataUrl
  /-- Presence updates go through a hook. -/
  | discordRichPresence
  /-- Listings of processes and hosts are not sent. -/
  | privacy
  /-- The level shown for a nicked player is not drawn at random. -/
  | removeFakeLevelHead
  /-- The main menu has no store button. -/
  | removeStoreButton
  /-- The asset socket connects to another address. -/
  | websocketUrl
  /-- Capes are drawn as cloth without a subscription. -/
  | clothCapes
  /-- The camera shake on damage is scaled. -/
  | hurtCamShake
  /-- No warning about the polling rate of the mouse. -/
  | removeMousePopup
  /-- More than eight profiles can be made. -/
  | removeProfilesCap
  /-- Other labels for the states of the sprint toggle. -/
  | toggleSprintText
  /-- Accounts that cannot play online are let in. -/
  | allowCrackedAccounts
  /-- No delay between clicks in the old combat mode. -/
  | noHitDelay
  /-- Emotes go on while the player moves. -/
  | infiniteEmotes
deriving DecidableEq

namespace ModuleName

/-- The modules in their order. -/
def all : List ModuleName :=
  [.changeModStrings, .fpsSpoof, .metadata, .metadataUrl, .discordRichPresence, .privacy,
   .removeFakeLevelHead, .removeStoreButton, .websocketUrl, .clothCapes, .hurtCamShake,
   .removeMousePopup, .removeProfilesCap, .toggleSprintText, .allowCrackedAccounts, .noHitDelay,
   .infiniteEmotes]

/-- The name in documents and messages. -/
def text : ModuleName → String
  | .changeModStrings => "change_mod_strings"
  | .fpsSpoof => "fps_spoof"
  | .metadata => "metadata"
  | .metadataUrl => "metadata_url"
  | .discordRichPresence => "discord_rich_presence"
  | .privacy => "privacy"
  | .removeFakeLevelHead => "remove_fake_level_head"
  | .removeStoreButton => "remove_store_button"
  | .websocketUrl => "websocket_url"
  | .clothCapes => "cloth_capes"
  | .hurtCamShake => "hurt_cam_shake"
  | .removeMousePopup => "remove_mouse_popup"
  | .removeProfilesCap => "remove_profiles_cap"
  | .toggleSprintText => "toggle_sprint_text"
  | .allowCrackedAccounts => "allow_cracked_accounts"
  | .noHitDelay => "no_hit_delay"
  | .infiniteEmotes => "infinite_emotes"

instance : ToString ModuleName := ⟨text⟩

/-- The module of a name, if it is one of the known names. -/
def ofText? (name : String) : Option ModuleName := all.find? fun m => m.text == name

theorem mem_all (m : ModuleName) : m ∈ all := by
  cases m <;> decide

/-- The position of a module in the order. -/
def position (m : ModuleName) : Nat := all.idxOf m

end ModuleName

end ClassEdit
