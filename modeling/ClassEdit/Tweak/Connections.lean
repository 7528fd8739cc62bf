import ClassEdit.Scan.Plan
import ClassEdit.Text.Blank

/-!
# Tweaks of connections

Rules that redirect or mute what the application exchanges with others: launcher metadata, presence
updates, listings of the computer, and the asset socket.

## Main definitions

* `Tweak.metadata`, `Tweak.presence`, `Tweak.privacy`, `Tweak.assetSocket`: the rules.
-/

namespace ClassEdit.Tweak

open BlockDraft MethodRuleDraft MethodsDraft ClassRuleDraft RulesDraft

/-- Puts a text in the place of the one on top of the stack. -/
def exchangeText (text : String) : Assembler Unit := do
  Assembler.simple Opcode.pop
  Assembler.constant (.string text)

/-- The sections of the launcher metadata: the option that hides one, and its name. -/
def metadataSections : List (String × String) :=
  [("remove_blog_posts", "blogPosts"), ("remove_client_settings", "clientSettings"),
   ("remove_mod_settings", "modSettings"), ("remove_server_integration", "serverIntegration"),
   ("remove_pinned_servers", "pinnedServers")]

/-- The names of the sections that the options of a module hide. -/
def hiddenSections (m : ModuleState) : List (String × String) → Except EditError (List String)
  | [] => .ok []
  | (key, name) :: rest => do
    let hidden ← m.boolean key
    let others ← hiddenSections m rest
    return if hidden then name :: others else others

/-- A hidden section is read under a name that does not occur. The address of the metadata is
exchanged where it is parsed. -/
def metadata : Drafting RulesDraft Unit :=
  findHostClass do
    setLabel "metadata"
    ClassRuleDraft.require (.contains "metadata_fallback.json")
    inMethods do
      withModule .metadata fun m => do
        let hidden ← hiddenSections m metadataSections
        method "loadActions" do
          MethodRuleDraft.require (.loads "blogPosts")
          transform (hidden.forM fun name => replaceConstant (.string name) (.string "xdd"))
      withModule .metadataUrl fun m => do
        let url ← m.text "metadata_url"
        method "makeRequest" do
          MethodRuleDraft.require (.loads "PROCESSOR_ARCHITECTURE")
          transform (adviceBefore ⟨[.named "create", .ownedBy "java/net/URI"]⟩ fun _ =>
            exchangeText url)

/-- The class that talks to the presence service. -/
def presenceClient : String := "com/jagrosh/discordipc/IPCClient"

/-- The states of its connection. -/
def presenceStatus : String := "com/jagrosh/discordipc/entities/pipe/PipeStatus"

/-- The updates that it sends. -/
def presenceUpdate : String := "com/jagrosh/discordipc/entities/RichPresence"

/-- The number under which the application is known to the service. -/
def defaultPresenceId : Int64 := 562286213059444737

/-- The descriptor of a class. -/
def classDescriptor (name : String) : String := "L" ++ name ++ ";"

/-- The number that a text gives, and the default one if it gives none. -/
def presenceId (text : String) : Int64 :=
  match Text.readSigned (Text.trim text.toList) with
  | some n =>
    if Int64.minValue.toInt ≤ n ∧ n ≤ Int64.maxValue.toInt then .ofInt n else defaultPresenceId
  | none => defaultPresenceId

/-- Sends the update that the hook returns, if the service is connected. -/
def sendHookedUpdate (hookOwner hookName : String) (site : Site) : Assembler Unit := do
  let client ← site.classField "IPC client field" fun f =>
    f.descriptor == classDescriptor presenceClient
  let connected ← Assembler.newLabel
  Assembler.loadThis
  Assembler.field client.getter
  Assembler.invokeVirtual presenceClient "getStatus" ("()" ++ classDescriptor presenceStatus)
  Assembler.getStatic presenceStatus "CONNECTED" (classDescriptor presenceStatus)
  Assembler.jump Opcode.ifAcmpeq connected
  Assembler.returnValue .void
  Assembler.mark connected
  Assembler.loadThis
  Assembler.field client.getter
  Assembler.invokeStatic hookOwner hookName "()Ljava/lang/Object;"
  Assembler.cast presenceUpdate
  Assembler.invokeVirtual presenceClient "sendRichPresence"
    ("(" ++ classDescriptor presenceUpdate ++ ")V")
  Assembler.returnValue .void

/-- Presence updates come from a hook, under another number if one is given. -/
def presence : Drafting RulesDraft Unit :=
  withModule .discordRichPresence fun m => do
    let hookOwner ← m.text "hook_owner"
    let hookName ← m.text "hook_name"
    let id ← m.text "client_id"
    findHostClass do
      setLabel "discord_ipc"
      ClassRuleDraft.require (.contains "Connected to Discord IPC")
      inMethods do
        method "updateRPC" do
          MethodRuleDraft.require (.loads "Lunar Client")
          transform (overwrite (.assembled (sendHookedUpdate (internalName hookOwner) hookName)))
        method "init" do
          MethodRuleDraft.require .constructor
          transform (replaceConstant (.long defaultPresenceId) (.long (presenceId id)))

/-- The files that the application reports on. -/
def privacyProbes : List String :=
  ["\x01\\system32\\tasklist.exe", "\x01\\system32\\drivers\\etc\\hosts"]

/-- Methods that send the listings do nothing. -/
def privacy : Drafting RulesDraft Unit :=
  withModule .privacy fun _ =>
    (privacyProbes.forM fun probe =>
      findHostClass do
        setLabel ("privacy " ++ Text.escaped probe)
        inMethods do
          method "sendPacket" do
            MethodRuleDraft.require (.loads probe)
            transform stub : Drafting RulesDraft Unit)

/-- The address of the asset socket is exchanged where it is parsed. -/
def assetSocket : Drafting RulesDraft Unit :=
  withModule .websocketUrl fun m => do
    let url ← m.text "url"
    findHostClass do
      setLabel "asset_socket"
      ClassRuleDraft.require (.inherits "org/java_websocket/client/WebSocketClient")
      inMethods do
        method "constructor" do
          MethodRuleDraft.require .constructor
          MethodRuleDraft.require (.loads "Assets")
          transform (adviceBefore ⟨[.constructor, .ownedBy "java/net/URI"]⟩ fun _ =>
            exchangeText url)

/-- All rules about connections. -/
def connections : Drafting RulesDraft Unit := do
  metadata
  presence
  privacy
  assetSocket

end ClassEdit.Tweak
