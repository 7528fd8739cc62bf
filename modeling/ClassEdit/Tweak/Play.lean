import ClassEdit.Tweak.Texts

/-!
# Tweaks of play

Rules that change how the application behaves: what it draws, what it limits, and what it checks.

## Main definitions

* `Tweak.play`: all of these rules, in their order.
-/

namespace ClassEdit.Tweak

open BlockDraft MethodRuleDraft MethodsDraft ClassRuleDraft RulesDraft

/-- The level of a nicked player is always the same. Without the call that makes the source of
random numbers, the call that draws from it has only its bound to drop. -/
def levelHead : Drafting RulesDraft Unit :=
  withModule .removeFakeLevelHead fun _ =>
    (findHostClass do
      setLabel "level_head"
      inMethods do
        method "showLevelHead" do
          MethodRuleDraft.require (.loads "Level: ")
          transform do
            replaceCall ⟨[.named "current"]⟩ none
            replaceCall ⟨[.named "nextInt"]⟩ (some (.assembled fun _ => do
              Assembler.simple Opcode.pop
              Assembler.constant (.int (-26)))) : Drafting RulesDraft Unit)

/-- Removes the store button from the list of components of the menu. -/
def removeButton (site : Site) : Assembler Unit := do
  let store ← site.findString "store"
  let button ← site.nextFieldAfter store "store button field" fun f =>
    f.opcode == Opcode.putfield
  let components ← site.fieldReference "component list" fun f =>
    f.opcode == Opcode.getfield && f.descriptor == "Ljava/util/List;"
  Assembler.loadThis
  Assembler.field components
  Assembler.loadThis
  Assembler.getField button.owner button.name button.descriptor
  Assembler.invokeInterface "java/util/List" "remove" "(Ljava/lang/Object;)Z"
  Assembler.simple Opcode.pop

/-- The main menu has no store button. -/
def storeButton : Drafting RulesDraft Unit :=
  withModule .removeStoreButton fun _ =>
    (findHostClass do
      setLabel "main_menu"
      inMethods do
        method "init" do
          MethodRuleDraft.require .constructor
          ["singleplayer", "multiplayer", "store"].forM fun s =>
            MethodRuleDraft.require (.loads s)
          transform (methodExit (.assembled removeButton)) : Drafting RulesDraft Unit)

/-- Every cape is drawn as cloth. -/
def clothCapes : Drafting RulesDraft Unit :=
  withModule .clothCapes fun _ =>
    (findHostClass do
      setLabel "cloth_capes"
      ClassRuleDraft.require (.contains "Refreshed render target textures.")
      inMethods do
        method "checkCloth" do
          MethodRuleDraft.require (.returns .boolean)
          MethodRuleDraft.require (.loads "LunarPlus")
          transform (fixedValue (.ofBool true)) : Drafting RulesDraft Unit)

/-- The angle of the camera shake, in single precision. -/
def shakeAngle : UInt32 := 0x41600000

/-- The camera shake is scaled. -/
def cameraShake : Drafting RulesDraft Unit :=
  withModule .hurtCamShake fun m => do
    let multiplier ← m.float "multiplier"
    let scaled := Decimal.binary32.product shakeAngle.toNat (single multiplier).toNat
    findPlatformClass do
      setLabel "hurt_camera"
      ClassRuleDraft.require (.contains "Failed to load shader: ")
      ClassRuleDraft.constantReplacement (.float shakeAngle) (.float (.ofNat scaled))

/-- The warning about the polling rate is not started. -/
def mousePopup : Drafting RulesDraft Unit :=
  withModule .removeMousePopup fun _ =>
    (findHostClass do
      setLabel "polling_rate_popup"
      ClassRuleDraft.require (.contains "PollingRateDetectionThread")
      inMethods (namedTransform "start" stub) : Drafting RulesDraft Unit)

/-- Profiles are limited by the largest integer only. -/
def profilesCap : Drafting RulesDraft Unit :=
  withModule .removeProfilesCap fun _ =>
    (findHostClass do
      setLabel "profiles"
      ClassRuleDraft.require (.contains "saveNewProfile")
      inMethods do
        method "handleNewProfile" do
          MethodRuleDraft.require (.loads "profile")
          transform (replaceConstant (.int 8) (.int 2147483647)) : Drafting RulesDraft Unit)

/-- Every account may play. -/
def crackedAccounts : Drafting RulesDraft Unit :=
  withModule .allowCrackedAccounts fun _ =>
    (findHostClass do
      setLabel "launcher_accounts"
      ClassRuleDraft.require (.contains "launcher_accounts.json")
      inMethods do
        method "checkCracked" do
          MethodRuleDraft.require (.calls ⟨[.named "canPlayOnline"]⟩)
          transform (fixedValue (.ofBool true)) : Drafting RulesDraft Unit)

/-- The class through which code woven into the combat method stops it. -/
def callbackInfo : String := "org/spongepowered/asm/mixin/injection/callback/CallbackInfo"

/-- Stops the method that calls back. -/
def cancelCallback : Assembler Unit := do
  Assembler.loadVar (.ofClass callbackInfo) 1
  Assembler.invokeVirtual callbackInfo "cancel" "()V"
  Assembler.returnValue .void

/-- The delay between clicks is cancelled. The stack maps of the class are made where its code is
woven. -/
def hitDelay : Drafting RulesDraft Unit :=
  withModule .noHitDelay fun _ =>
    (findPlatformClass do
      setLabel "legacy_combat"
      inMethods do
        method "clickMouseLegacyCombat" do
          MethodRuleDraft.require (.references ⟨[.named "LEGACY_COMBAT"]⟩)
          transform do
            disableFrames
            overwrite (.assembled fun _ => cancelCallback) : Drafting RulesDraft Unit)

/-- Emotes do not stop on movement. -/
def emotes : Drafting RulesDraft Unit :=
  withModule .infiniteEmotes fun _ =>
    (findNamedClass "mchorse.emoticons.common.emotes.Emote" do
      setLabel "emote"
      inMethods (namedTransform "shouldStopOnMove" stub) : Drafting RulesDraft Unit)

/-- All rules about play. -/
def play : Drafting RulesDraft Unit := do
  levelHead
  storeButton
  clothCapes
  cameraShake
  mousePopup
  profilesCap
  crackedAccounts
  hitDelay
  emotes

end ClassEdit.Tweak
