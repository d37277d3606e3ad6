import AutomateLinux.ClientSender
import AutomateLinux.Terminal

/-!
# Arguments between the client and the handlers

The client guesses the type of an option's value from its text; a handler that
wants a string reads the member with `get<string>()`, which throws for a number.
So an argument arrives as it was written unless its text is a number from end to
end.  The few handlers that also take numbers write them back, which gives the
text again only when it was in the form `to_string` writes.
-/

namespace AutomateLinux

namespace ClientSender

/-- The value as the daemon's parser sees it in the dumped text. -/
def parsedValue : Json → Json
  | .number_integer num =>
      if 0 ≤ num then .number_unsigned num.toNat else .number_integer num
  | value => value

/-- The command as the daemon parses it from the line the client writes. -/
def transported : Json → Json
  | .object j => .object (j.map fun member => (member.1, parsedValue member.2))
  | value => value

/-- What a handler gets for an argument. -/
inductive Argument
  | text (value : String)
  | unsigned (value : ℕ)
  | unusable
deriving DecidableEq

/-- How a handler reads an argument that it wants as a string. -/
inductive Reading
  -- `command[KEY].get<string>()`
  | required
  -- `command.contains(KEY) ? command[KEY].get<string>() : fallback`
  | guarded (fallback : String)
  -- `command.value(KEY, fallback)`
  | value (fallback : String)
  -- a number is written back with `to_string`
  | orInteger
  -- a number is taken as it is
  | orUnsigned
  -- `getJsonString(command, KEY)`
  | jsonString

structure StringArgument where
  key : String
  reading : Reading

def StringArgument.read (argument : StringArgument) (command : Json) :
    Except Exn Argument :=
  let member := (command.find? argument.key).getD .null
  match argument.reading with
  | .required => member.getString.map .text
  | .guarded fallback =>
      if command.contains argument.key then member.getString.map .text
      else .ok (.text fallback)
  | .value fallback =>
      (command.value argument.key Json.getString fallback).map .text
  | .orInteger =>
      if member.is_number then (member.getInt 64).map (.text ∘ to_string)
      else member.getString.map .text
  | .orUnsigned =>
      if member.is_string then member.getString.map .text
      else if member.is_number then (member.getUInt 32).map .unsigned
      else .ok .unusable
  | .jsonString => .ok (.text (Terminal.getJsonString command argument.key))

/-- The arguments a handler reads as strings. -/
def stringArguments : Handler → List StringArgument
  | .handleGetDir => [⟨"dirName", .required⟩]
  | .handleGetFile => [⟨"fileName", .required⟩]
  | .handleTestEcho => [⟨"message", .required⟩]
  | .handleTestLsofScript => [⟨"port", .required⟩]
  | .handleOpenedTty => [⟨"tty", .jsonString⟩]
  | .handleClosedTty => [⟨"tty", .jsonString⟩]
  | .handleUpdateDirHistory => [⟨"tty", .jsonString⟩, ⟨"pwd", .required⟩]
  | .handleCdForward => [⟨"tty", .jsonString⟩]
  | .handleCdBackward => [⟨"tty", .jsonString⟩]
  | .handleShellSignal => [⟨"signal", .required⟩]
  | .handleShowTerminalInstance => [⟨"tty", .jsonString⟩]
  | .handleShowEntriesByPrefix => [⟨"prefix", .required⟩]
  | .handleDeleteEntry => [⟨"key", .required⟩]
  | .handleUpsertEntry => [⟨"key", .required⟩, ⟨"value", .required⟩]
  | .handleGetEntry => [⟨"key", .required⟩]
  | .handleSetKeyboard =>
      [⟨"windowTitle", .required⟩, ⟨"wmClass", .required⟩,
        ⟨"wmInstance", .required⟩]
  | .handleToggleKeyboard => [⟨"enable", .required⟩]
  | .handleSimulateInput => [⟨"string", .required⟩, ⟨"key", .required⟩]
  | .handleUpdateMacros => [⟨"value", .required⟩]
  | .handleShouldLog => [⟨"enable", .orUnsigned⟩]
  | .handleSetEventFilters => [⟨"value", .required⟩]
  | .handleActiveWindowChanged =>
      [⟨"windowTitle", .required⟩, ⟨"wmClass", .required⟩,
        ⟨"wmInstance", .required⟩]
  | .handleSetActiveTabUrl => [⟨"url", .required⟩]
  | .handleGetPort => [⟨"key", .required⟩]
  | .handleSetPort => [⟨"key", .required⟩, ⟨"value", .orInteger⟩]
  | .handleDeletePort => [⟨"key", .required⟩]
  | .handlePublicTransportationOpenApp => [⟨"variant", .required⟩]
  | .handleStartApp => [⟨"app", .required⟩, ⟨"mode", .guarded "dev"⟩]
  | .handleStopApp => [⟨"app", .required⟩, ⟨"mode", .guarded "all"⟩]
  | .handleRestartApp => [⟨"app", .required⟩, ⟨"mode", .guarded "dev"⟩]
  | .handleAppStatus => [⟨"app", .guarded ""⟩]
  | .handleBuildApp =>
      [⟨"app", .required⟩, ⟨"mode", .guarded "dev"⟩,
        ⟨"component", .guarded "server"⟩]
  | .handleInstallAppDeps =>
      [⟨"app", .required⟩, ⟨"mode", .guarded "dev"⟩,
        ⟨"component", .guarded "all"⟩]
  | .handleEnableApp => [⟨"app", .required⟩, ⟨"mode", .guarded "dev"⟩]
  | .handleDisableApp => [⟨"app", .required⟩, ⟨"mode", .guarded "all"⟩]
  | .handleAddExtraApp =>
      [⟨"repoUrl", .required⟩, ⟨"serverSubdir", .required⟩,
        ⟨"clientSubdir", .required⟩, ⟨"displayName", .required⟩]
  | .handleRemoveExtraApp => [⟨"app", .required⟩]
  | .handleDeployToProd => [⟨"app", .required⟩, ⟨"commit", .guarded ""⟩]
  | .handleProdStatus => [⟨"app", .required⟩]
  | .handleCleanProd => [⟨"app", .required⟩]
  | .handleGetAppPeers => [⟨"app", .required⟩]
  | .handleInstallAppOnPeer =>
      [⟨"app", .required⟩, ⟨"peer", .required⟩, ⟨"mode", .guarded "all"⟩]
  | .handleUninstallAppOnPeer => [⟨"app", .required⟩, ⟨"peer", .required⟩]
  | .handleStartAppOnPeer =>
      [⟨"app", .required⟩, ⟨"peer", .required⟩, ⟨"mode", .required⟩]
  | .handleStopAppOnPeer =>
      [⟨"app", .required⟩, ⟨"peer", .required⟩, ⟨"mode", .guarded "all"⟩]
  | .handleInstallAppServices => [⟨"app", .required⟩]
  | .handleSetPeerConfig =>
      [⟨"role", .required⟩, ⟨"id", .required⟩, ⟨"leader", .required⟩]
  | .handleRegisterPeer =>
      [⟨"peer_id", .guarded "unknown"⟩, ⟨"ip", .guarded ""⟩,
        ⟨"mac", .guarded ""⟩, ⟨"hostname", .guarded ""⟩]
  | .handleDeletePeer => [⟨"peer", .required⟩]
  | .handleGetPeerInfo => [⟨"peer", .required⟩]
  | .handleExecOnPeer =>
      [⟨"peer", .required⟩, ⟨"directory", .required⟩, ⟨"shellCmd", .required⟩]
  | .handleExecRequest => [⟨"directory", .required⟩, ⟨"shellCmd", .required⟩]
  | .handleRemotePull => [⟨"peer", .required⟩]
  | .handleRemoteBd => [⟨"peer", .required⟩]
  | .handleRemoteDeployDaemon => [⟨"peer", .required⟩]
  | .handleUpdatePeerMacInternal => [⟨"peer_id", .required⟩, ⟨"mac", .required⟩]
  | .handleSetupWireGuardPeer =>
      [⟨"name", .required⟩, ⟨"host", .value ""⟩, ⟨"vpnIp", .value ""⟩,
        ⟨"mac", .value ""⟩, ⟨"privateKey", .value ""⟩]
  | .handleSetupRdp =>
      [⟨"rdpUsername", .value "yaniv"⟩, ⟨"rdpPassword", .value "testpass123"⟩]
  | _ => []

/-- The handler the dispatch table gives for the command. -/
def dispatched (command : Json) : Option Handler :=
  match commandNameOf command with
  | .ok commandName => lookupHandler commandName
  | .error _ => none

/-- The text is a number from end to end. -/
def IsWholeNumber (text : String) : Prop := ∃ value, IsNumber text value

/-- The handler reads exactly the text the line gives for the argument. -/
def ReadsAsGiven (commandName : String) (args : List Arg)
    (argument : StringArgument) (arg : Arg) : Prop :=
  argument.read (transported (parse_client_args (commandLine commandName args))) =
    .ok (.text arg.value)

/-- The texts that the guess of the client and the reading of the handler keep. -/
def Reading.Keeps : Reading → String → Prop
  | .orInteger, text => ∀ value, IsNumber text value → text = to_string value
  | .jsonString, text => ∀ value, IsNumber text value → text = to_string value
  | _, text => ¬ IsWholeNumber text

theorem optionValue_of_isNumber {text : String} {value : Int}
    (hnumber : IsNumber text value) :
    optionValue text = .number_integer value := by
  simp [optionValue, hnumber.stoll_eq]

theorem optionValue_of_not_isWholeNumber {text : String}
    (htext : ¬ IsWholeNumber text) : optionValue text = .string text := by
  unfold optionValue
  split
  · rename_i num pos hread
    rw [if_neg]
    rintro rfl
    exact htext ⟨num, isNumber_of_stoll_eq hread⟩
  · rfl

theorem find?_transported (j : Members) (key : String) :
    (transported (.object j)).find? key = (j.lookup key).map parsedValue := by
  simp only [transported, Json.find?]
  induction j with
  | nil => rfl
  | cons member rest ih =>
      obtain ⟨key', value⟩ := member
      rw [List.map_cons, lookup_member, lookup_member, ih]
      split <;> rfl

theorem find?_given {commandName : String} {args : List Arg}
    (hsent : sent (parse_client_args (commandLine commandName args)) = true)
    {key : String} {arg : Arg} (hgiven : given args key = some arg) :
    (transported (parse_client_args (commandLine commandName args))).find? key =
      some (parsedValue arg.stored) := by
  rw [parse_client_args_commandLine hsent, find?_transported, lookup_assignArgs,
    hgiven]
  rfl

theorem value_eq_of_find? {command member : Json} {key : String}
    (hfind : command.find? key = some member) (fallback : String) :
    command.value key Json.getString fallback = member.getString := by
  cases command with
  | object members =>
      have hlookup : members.lookup key = some member := hfind
      simp only [Json.value, hlookup]
  | _ => contradiction

theorem read_of_string {argument : StringArgument} {command : Json}
    {text : String} (hfind : command.find? argument.key = some (.string text)) :
    argument.read command = .ok (.text text) := by
  have hcontains : command.contains argument.key = true := by
    simp [Json.contains, hfind]
  obtain ⟨key, reading⟩ := argument
  cases reading with
  | value fallback =>
      simp only [StringArgument.read, value_eq_of_find? hfind]
      rfl
  | _ =>
      simp_all [StringArgument.read, Json.getString, Json.is_number,
        Json.is_string, Terminal.getJsonString, Except.map]

/-- The parser keeps a number that is not negative as an unsigned one. -/
theorem parsedValue_cases (num : Int) :
    (0 ≤ num ∧ parsedValue (.number_integer num) = .number_unsigned num.toNat) ∨
      parsedValue (.number_integer num) = .number_integer num := by
  by_cases hnonneg : 0 ≤ num
  · exact Or.inl ⟨hnonneg, by simp only [parsedValue, if_pos hnonneg]⟩
  · exact Or.inr (by simp only [parsedValue, if_neg hnonneg])

theorem getInt_parsedValue {num : Int} (hlower : LLONG_MIN ≤ num)
    (hupper : num ≤ LLONG_MAX) :
    (parsedValue (.number_integer num)).getInt 64 = .ok num := by
  have hwrap : Json.wrap 64 num = num := by
    unfold LLONG_MIN at hlower
    unfold LLONG_MAX at hupper
    apply Int.bmod_eq_of_le <;> omega
  rcases parsedValue_cases num with ⟨hnonneg, hparsed⟩ | hparsed
  · have hnum : (num.toNat : Int) = num := Int.toNat_of_nonneg hnonneg
    simp [hparsed, Json.getInt, hnum, hwrap]
  · simp [hparsed, Json.getInt, hwrap]

theorem parsedValue_number (num : Int) :
    (parsedValue (.number_integer num)).is_number = true ∧
      (parsedValue (.number_integer num)).is_string = false := by
  rcases parsedValue_cases num with ⟨-, hparsed⟩ | hparsed <;>
    rw [hparsed] <;> exact ⟨rfl, rfl⟩

/-- What a whole number becomes in a handler. -/
def Reading.ofNumber : Reading → Int → Except Exn Argument
  | .orInteger, num => .ok (.text (to_string num))
  | .orUnsigned, num =>
      ((parsedValue (.number_integer num)).getUInt 32).map .unsigned
  | .jsonString, num => .ok (.text (to_string num))
  | _, num => .error (Json.typeError "string" (parsedValue (.number_integer num)))

theorem read_of_number {argument : StringArgument} {command : Json} {num : Int}
    (hlower : LLONG_MIN ≤ num) (hupper : num ≤ LLONG_MAX)
    (hfind : command.find? argument.key =
      some (parsedValue (.number_integer num))) :
    argument.read command = argument.reading.ofNumber num := by
  have hcontains : command.contains argument.key = true := by
    simp [Json.contains, hfind]
  obtain ⟨hnumber, hstring⟩ := parsedValue_number num
  have hthrows := Json.getString_eq_error hstring
  have hint := getInt_parsedValue hlower hupper
  obtain ⟨key, reading⟩ := argument
  cases reading with
  | value fallback =>
      simp only [StringArgument.read, value_eq_of_find? hfind, hthrows]
      rfl
  | jsonString =>
      have htext : Terminal.getJsonString command key = to_string num := by
        unfold Terminal.getJsonString
        split
        · rename_i text htext
          rw [hfind] at htext
          rw [Option.some.inj htext] at hstring
          contradiction
        · rename_i member _ hmember
          rw [hfind] at hmember
          obtain rfl := Option.some.inj hmember
          rw [if_pos hnumber, hint]
        · rename_i hnone
          rw [hfind] at hnone
          contradiction
      simp only [StringArgument.read, Reading.ofNumber, htext]
  | _ =>
      simp_all [StringArgument.read, Reading.ofNumber, Except.map]

/-- A number comes back as its text only to a handler that writes numbers, and
only when the text is the one it writes. -/
theorem ofNumber_eq_text_iff {reading : Reading} {text : String} {num : Int}
    (hnumber : IsNumber text num) :
    reading.ofNumber num = .ok (.text text) ↔ reading.Keeps text := by
  have hwhole : IsWholeNumber text := ⟨num, hnumber⟩
  have hwritten : to_string num = text ↔
      ∀ value, IsNumber text value → text = to_string value := by
    constructor
    · rintro hnum value hvalue
      rw [← hnumber.unique hvalue, hnum]
    · intro hkeeps
      exact (hkeeps num hnumber).symm
  cases reading with
  | orInteger => simpa [Reading.ofNumber, Reading.Keeps] using hwritten
  | jsonString => simpa [Reading.ofNumber, Reading.Keeps] using hwritten
  | orUnsigned =>
      simp only [Reading.ofNumber, Reading.Keeps, hwhole, not_true_eq_false,
        iff_false]
      cases (parsedValue (.number_integer num)).getUInt 32 <;> simp [Except.map]
  | _ => simp [Reading.ofNumber, Reading.Keeps, hwhole]

theorem keeps_of_not_isWholeNumber {reading : Reading} {text : String}
    (htext : ¬ IsWholeNumber text) : reading.Keeps text := by
  cases reading with
  | orInteger => exact fun value hvalue => absurd ⟨value, hvalue⟩ htext
  | jsonString => exact fun value hvalue => absurd ⟨value, hvalue⟩ htext
  | _ => exact htext

/-- An argument of a sent command line is read as it was written precisely when
it is a bare word or a text that the guess of the client and the reading of the
handler keep. -/
theorem readsAsGiven_iff {commandName : String} {args : List Arg}
    (hsent : sent (parse_client_args (commandLine commandName args)) = true) :
    ∀ handler, dispatched (transported
        (parse_client_args (commandLine commandName args))) = some handler →
      ∀ argument ∈ stringArguments handler,
        ∀ arg, given args argument.key = some arg →
          (ReadsAsGiven commandName args argument arg ↔
            arg.isPositional = true ∨ argument.reading.Keeps arg.value) := by
  intro handler _ argument _ arg hgiven
  have hfind := find?_given hsent hgiven
  unfold ReadsAsGiven
  cases arg with
  | positional word hword =>
      have hread := read_of_string hfind
      simp [hread, Arg.value, Arg.isPositional]
  | option key value =>
      simp only [Arg.isPositional, Arg.value, Bool.false_eq_true, false_or]
      by_cases hwhole : IsWholeNumber value
      · obtain ⟨num, hnumber⟩ := hwhole
        have hstored : (Arg.option key value).stored = .number_integer num :=
          optionValue_of_isNumber hnumber
        rw [hstored] at hfind
        rw [read_of_number hnumber.lower hnumber.upper hfind]
        exact ofNumber_eq_text_iff hnumber
      · have hstored : (Arg.option key value).stored = .string value :=
          optionValue_of_not_isWholeNumber hwhole
        rw [hstored] at hfind
        simp [read_of_string hfind, keeps_of_not_isWholeNumber hwhole]

/-- `d upsertEntry --key theme --value 5`. -/
def numericEntry : List Arg :=
  [.option "key" "theme", .option "value" "5"]

theorem numericEntry_key_readsAsGiven :
    ReadsAsGiven "upsertEntry" numericEntry ⟨"key", .required⟩
      (.option "key" "theme") := by
  have hsent : sent (parse_client_args
      (commandLine "upsertEntry" numericEntry)) = true := by decide +kernel
  have htext : ¬ IsWholeNumber "theme" := by
    rintro ⟨value, hnumber⟩
    have hread : stoll "theme" = .error ⟨"stoll"⟩ := by decide +kernel
    rw [hnumber.stoll_eq] at hread
    contradiction
  exact (readsAsGiven_iff hsent .handleUpsertEntry (by rfl) ⟨"key", .required⟩
    List.mem_cons_self (.option "key" "theme") (by rfl)).mpr
      (Or.inr htext)

theorem numericEntry_not_readsAsGiven :
    ¬ ∀ commandName args,
      sent (parse_client_args (commandLine commandName args)) = true →
      ∀ handler, dispatched (transported
          (parse_client_args (commandLine commandName args))) = some handler →
        ∀ argument ∈ stringArguments handler,
          ∀ arg, given args argument.key = some arg →
            ReadsAsGiven commandName args argument arg := by
  intro hall
  have hread := hall "upsertEntry" numericEntry (by decide +kernel)
    .handleUpsertEntry (by rfl) ⟨"value", .required⟩ (List.mem_cons_of_mem _ List.mem_cons_self)
    (.option "value" "5") (by rfl)
  have hfind : (transported (parse_client_args
      (commandLine "upsertEntry" numericEntry))).find? "value" =
        some (.number_unsigned 5) := by rfl
  simp [ReadsAsGiven, StringArgument.read, hfind, Json.getString, Except.map] at hread

end ClientSender

end AutomateLinux
