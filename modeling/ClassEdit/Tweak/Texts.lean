import ClassEdit.Scan.Plan

/-!
# Tweaks of shown texts

Rules that change what the application shows: the labels of the counters, the commands and names
of several displays, the value of the frame counter, and the states of the sprint toggle. Where the
application joins a value and a label, its strings hold the character with the number one in the
place of the value.

## Main definitions

* `Tweak.frameCounter`, `Tweak.modTexts`, `Tweak.sprintTexts`: the rules.
-/

namespace ClassEdit.Tweak

open BlockDraft MethodRuleDraft MethodsDraft ClassRuleDraft RulesDraft

/-- A string constant whose first character stands for a value. -/
def labeled (label : String) : Constant := .string ("\x01 " ++ label)

/-- Multiplies the integer on top of the stack by a single precision number. -/
def scaleInteger (multiplier : UInt32) : Assembler Unit := do
  Assembler.simple Opcode.i2f
  Assembler.constant (.float multiplier)
  Assembler.simple Opcode.fmul
  Assembler.simple Opcode.f2i

/-- A double option as a single precision number. -/
def single (bits : UInt64) : UInt32 :=
  .ofNat (Decimal.binary64.convert Decimal.binary32 bits.toNat)

/-- Both the label and the value of the frame counter are made in one method, so two modules share
its block. -/
def frameCounterBlock : Drafting BlockDraft Unit := do
  withModule .changeModStrings fun m => do
    let text ← m.text "fps_text"
    replaceConstant (labeled "FPS") (labeled text)
  withModule .fpsSpoof fun m => do
    let multiplier ← m.float "multiplier"
    adviceAfter ⟨[.named "bridge$getDebugFPS"]⟩ fun _ => scaleInteger (single multiplier)

/-- The frame counter. -/
def frameCounter : Drafting RulesDraft Unit :=
  findHostClass do
    setLabel "fps_mod"
    ClassRuleDraft.require (.contains "[1466 FPS]")
    inMethods do
      method "getText" do
        MethodRuleDraft.require (.loads "\x01 FPS")
        transform frameCounterBlock

/-- A class of the application, known by strings in its pool, in which constants are replaced. -/
def replaceInHost (label : String) (strings : List String) (pairs : List (Constant × Constant)) :
    Drafting RulesDraft Unit :=
  findHostClass do
    setLabel label
    strings.forM fun s => ClassRuleDraft.require (.contains s)
    ClassRuleDraft.constantReplacements pairs

/-- The keystroke display is known by its constructor; its texts contain the label of the click
counter. -/
def keystrokes (clicks : String) : Drafting RulesDraft Unit :=
  findHostClass do
    setLabel "keystrokes_mod"
    inMethods do
      method "constructor" do
        MethodRuleDraft.require .constructor
        MethodRuleDraft.require (.argument 0 .string)
      unnamedMethod do
        MethodRuleDraft.require (.loadsPart "CPS")
        MethodRuleDraft.require (.calls ⟨[.named "bridge$keybindJump"]⟩)
        transform (replaceString "CPS" clicks)

/-- The labels of several displays. -/
def modTexts : Drafting RulesDraft Unit :=
  withModule .changeModStrings fun m => do
    let nickname ← m.text "nickhider_text"
    let clicks ← m.text "cps_text"
    let command ← m.text "auto_gg_command"
    let level ← m.text "level_head_text"
    let reach ← m.text "reach_text"
    replaceInHost "nick_hider" ["lastKnownHypixelNick"] [(.string "You", .string nickname)]
    replaceInHost "cps_mod" ["[16 CPS]"] [(.string " CPS", .string (" " ++ clicks))]
    keystrokes clicks
    replaceInHost "hypixel_mod" ["hypixel_mod", "auto_gg"]
      [(.string "/achat gg", .string command), (.string "Level: ", .string (level ++ ": "))]
    replaceInHost "reach_display" ["[1.3 blocks]"] [(labeled "blocks", labeled reach)]

/-- The states of the sprint toggle: the option that gives a text, and the text it replaces. -/
def sprintStates : List (String × String) :=
  [("flying_text", "flying"), ("flying_boost_text", "boost"), ("riding_text", "riding"),
   ("descending_text", "descending"), ("dismounting_text", "dismounting"),
   ("sneaking_text", "sneaking"), ("toggled_text", "toggled"), ("sprinting_text", "sprinting")]

/-- The replacements that the options of a module give for some states. -/
def stateReplacements (m : ModuleState) :
    List (String × String) → Except EditError (List (Constant × Constant))
  | [] => .ok []
  | (key, state) :: rest => do
    let text ← m.text key
    let others ← stateReplacements m rest
    return (.string state, .string text) :: others

/-- The states of the sprint toggle. -/
def sprintTexts : Drafting RulesDraft Unit :=
  withModule .toggleSprintText fun m => do
    let replacements ← stateReplacements m sprintStates
    findHostClass do
      setLabel "toggle_sprint_states"
      ClassRuleDraft.require .isEnum
      ClassRuleDraft.require (.contains "settings")
      ClassRuleDraft.require (.contains "flying")
      ClassRuleDraft.constantReplacements replacements

/-- All rules about shown texts. -/
def texts : Drafting RulesDraft Unit := do
  frameCounter
  modTexts
  sprintTexts

end ClassEdit.Tweak
