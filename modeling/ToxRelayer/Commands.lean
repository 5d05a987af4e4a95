import ToxRelayer.CheckedMemory
import ToxRelayer.CommandLine
import ToxRelayer.GroupChats
import ToxRelayer.Masterlist

/-!
# The commands of the bot

`commands.c`: the handlers of the command table and the dispatch to them.  What toxcore
answers during a command and whether files can be used are arguments.  `argv` is the
list of the arguments behind the command's name.
-/

namespace ToxRelayer

open CString

def toxMaxNameLength : ℕ := 128
def purgeDaysMax : ℤ := 365000
def secondsInDay : UInt64 := 86400

def toxConferenceTypeText : UInt8 := 0
def toxConferenceTypeAv : UInt8 := 1

inductive UserStatus where
  | none
  | away
  | busy
  deriving DecidableEq

/-- The part of the state the commands read and write: fields of `Tox_Bot`, the file of
master keys, and what toxcore holds about the bot itself. -/
structure Bot where
  startTime : Int64
  inactiveLimit : UInt64
  defaultGroupnum : Int32
  numOnlineFriends : Int32
  groups : Groups
  masterkeys : Option Bytes
  selfName : Bytes
  selfStatus : UserStatus
  selfStatusMessage : Bytes

/-- A contact's name as toxcore keeps it, without a terminator. -/
abbrev ContactName := { name : Bytes // name.length ≤ toxMaxNameLength }

/-- What a command is answered by toxcore, the clock, the file system and the
allocator. -/
structure ToxAnswers where
  friendPublicKey : UInt32 → Option (Vector UInt8 32)
  friendName : UInt32 → ContactName
  friendListSize : UInt32
  selfAddress : Vector UInt8 38
  now : Int64
  chatlist : List UInt32
  peerCount : UInt32 → Option UInt32
  conferenceType : UInt32 → UInt8
  conferenceNew : Except ℤ UInt32
  addAvGroupchat : Int32
  conferenceDelete : UInt32 → Bool
  conferenceInvite : UInt32 → UInt32 → Except ℤ Unit
  conferenceSendMessage : UInt32 → Bytes → Except ℤ Unit
  conferenceSetTitle : UInt32 → Bytes → Except ℤ Unit
  selfSetName : Bytes → Bool
  selfSetStatusMessage : Bytes → Bool
  files : FileAccess
  fresh : ℕ → GroupChat

/-- What a command does to the outside, with the answers that matter. -/
inductive ToxCall where
  | friendSendMessage (friendnum : UInt32) (message : Bytes)
  | conferenceNew (answer : Except ℤ UInt32)
  | addAvGroupchat (answer : Int32)
  | conferenceDelete (groupnum : UInt32) (done : Bool)
  | conferenceInvite (friendnum groupnum : UInt32)
  | conferenceSendMessage (groupnum : UInt32) (message : Bytes)
  | conferenceSetTitle (groupnum : UInt32) (title : Bytes)
  | selfSetName (name : Bytes)
  | selfSetStatus (status : UserStatus)
  | selfSetStatusMessage (message : Bytes)
  | saveData
  | logTimestamp (line : Bytes)
  | logErrorTimestamp (err : ℤ) (line : Bytes)

/-- `given` is a ghost: the group the command has told the contact it now has this
password, or none.  `accesses` are the writes to arrays whose extent toxcore decides; all
others are bounded by the size of the array. -/
structure CommandResult where
  bot : Bot
  calls : List ToxCall
  given : Option (UInt32 × Option CStr)
  accesses : List CheckedMemory.Access

def CommandResult.quiet (bot : Bot) (calls : List ToxCall) : CommandResult :=
  ⟨bot, calls, none, []⟩

def CommandResult.InBounds (result : CommandResult) : Prop :=
  ∀ access ∈ result.accesses, access.InBounds

instance (result : CommandResult) : Decidable result.InBounds :=
  inferInstanceAs (Decidable (∀ access ∈ result.accesses, access.InBounds))

/-- Nothing is known of a command that writes behind one of its arrays. -/
def CommandResult.known (result : CommandResult) : Option CommandResult :=
  if result.InBounds then some result else none

/-- The conversion `%d` -/
def decimal (value : ℤ) : Bytes := formatInt 0 value

/-- Printing into a buffer for a message and sending it. -/
def message (friendnum : UInt32) (text : Bytes) : ToxCall :=
  .friendSendMessage friendnum (CStr.ofBuffer (snprintf maxCommandLength text)).val

def reply (bot : Bot) (friendnum : UInt32) (text : String) : CommandResult :=
  .quiet bot [message friendnum (bytes text)]

/-- `send_error` -/
def errorMessage (friendnum : UInt32) (text : String) (err : ℤ) : ToxCall :=
  message friendnum (bytes text ++ bytes " (error " ++ decimal err ++ bytes ")")

/-- The answer and the bot, whose file of master keys may have been created. -/
def friendIsMaster (tox : ToxAnswers) (bot : Bot) (friendnum : UInt32) : Bool × Bot :=
  match tox.friendPublicKey friendnum with
  | none => (false, bot)
  | some publicKey =>
      let found := fileContainsKey tox.files publicKey bot.masterkeys
      (found.1 = 1, { bot with masterkeys := found.2 })

/-- The check the handlers for masters begin with; otherwise `authent_failed`. -/
def masterOnly (tox : ToxAnswers) (bot : Bot) (friendnum : UInt32)
    (act : Bot → CommandResult) : CommandResult :=
  let checked := friendIsMaster tox bot friendnum
  if checked.1 then act checked.2
  else reply checked.2 friendnum "You do not have permission to use this command."

/-- The contact's name in `name`, an array of `TOX_MAX_NAME_LENGTH` bytes, and a terminator
at its end. -/
def nameAccess (name : ContactName) : CheckedMemory.Access :=
  ⟨toxMaxNameLength, name.val.length + 1⟩

def withName (tox : ToxAnswers) (friendnum : UInt32) (act : Bytes → CommandResult) :
    CommandResult :=
  let name := tox.friendName friendnum
  let result := act (CStr.ofBuffer name.val).val
  { result with accesses := nameAccess name :: result.accesses }

section

variable (tox : ToxAnswers) (friendnum : UInt32) (act : Bytes → CommandResult)

@[simp] theorem withName_bot : (withName tox friendnum act).bot =
    (act (CStr.ofBuffer (tox.friendName friendnum).val).val).bot := rfl

@[simp] theorem withName_calls : (withName tox friendnum act).calls =
    (act (CStr.ofBuffer (tox.friendName friendnum).val).val).calls := rfl

@[simp] theorem withName_given : (withName tox friendnum act).given =
    (act (CStr.ofBuffer (tox.friendName friendnum).val).val).given := rfl

@[simp] theorem withName_accesses : (withName tox friendnum act).accesses =
    nameAccess (tox.friendName friendnum) ::
      (act (CStr.ofBuffer (tox.friendName friendnum).val).val).accesses := rfl

end

abbrev CommandHandler := ToxAnswers → Bot → UInt32 → List CStr → CommandResult

def cmdDefault : CommandHandler := fun tox bot friendnum argv =>
  masterOnly tox bot friendnum fun bot =>
    match argv with
    | [] => reply bot friendnum "Error: Room number required"
    | number :: _ =>
        match parseGroupNumber number with
        | none => reply bot friendnum "Error: Invalid room number"
        | some groupnum =>
            withName tox friendnum fun name =>
              .quiet { bot with defaultGroupnum := groupnum }
                [message friendnum (bytes "Default room number set to " ++
                    decimal groupnum.toInt),
                  .logTimestamp (bytes "Default room number set to " ++ decimal groupnum.toInt ++
                    bytes " by " ++ name)]

def cmdGmessage : CommandHandler := fun tox bot friendnum argv =>
  masterOnly tox bot friendnum fun bot =>
    match argv with
    | [] => reply bot friendnum "Error: Group number required"
    | [_] => reply bot friendnum "Error: Message required"
    | number :: text :: _ =>
        match parseGroupNumber number with
        | none => reply bot friendnum "Error: Invalid group number"
        | some groupnum =>
            if bot.groups.index groupnum.toUInt32 = none then
              reply bot friendnum "Error: Invalid group number"
            else if text.val.head? ≠ some quote then
              reply bot friendnum "Error: Message must be enclosed in quotes"
            else
              let msg := (unquoteStr text maxCommandLength).val
              let sent := ToxCall.conferenceSendMessage groupnum.toUInt32 msg
              match tox.conferenceSendMessage groupnum.toUInt32 msg with
              | .error err =>
                  .quiet bot [sent, errorMessage friendnum "Error: Failed to send message." err]
              | .ok () =>
                  withName tox friendnum fun name =>
                    .quiet bot [sent, message friendnum (bytes "Message sent."),
                      .logTimestamp (bytes "<" ++ name ++ bytes "> message to group " ++
                        decimal groupnum.toInt ++ bytes ": " ++ msg)]

/-- The part of `cmd_group` after the conference has been created by `created`. -/
def registerGroup (tox : ToxAnswers) (bot : Bot) (friendnum : UInt32) (name : Bytes)
    (created : ToxCall) (groupnum : UInt32) (type : UInt8) (password : Option CStr) :
    CommandResult :=
  if ∃ text ∈ password, maxPasswordSize ≤ text.length then
    -- the conference stays, without an entry
    .quiet bot [created,
      .logErrorTimestamp (-1)
        (bytes "Group chat creation by " ++ name ++ bytes " failed: Password too long"),
      message friendnum
        (bytes "Group chat instance failed to initialize: Password too long")]
  else
    let added := bot.groups.add tox.fresh groupnum type password
    if added.1 = -1 then
      .quiet { bot with groups := added.2 } [created,
        .logErrorTimestamp (-1) (bytes "Group chat creation by " ++ name ++ bytes " failed"),
        message friendnum (bytes "Group chat creation failed"),
        .conferenceDelete groupnum (tox.conferenceDelete groupnum)]
    else
      let pw := if password.isSome then bytes " (Password protected)" else []
      let number := decimal groupnum.toInt32.toInt
      ⟨{ bot with groups := added.2 }, [created,
        .logTimestamp (bytes "Group chat " ++ number ++ bytes " created by " ++ name ++ pw),
        message friendnum (bytes "Group chat " ++ number ++ bytes " created" ++ pw)],
        some (groupnum, password), []⟩

def cmdGroup : CommandHandler := fun tox bot friendnum argv =>
  match argv with
  | [] => reply bot friendnum "Please specify the group type: audio or text"
  | kind :: rest =>
      withName tox friendnum fun name =>
        let failed := fun (call : ToxCall) (err : ℤ) =>
          CommandResult.quiet bot [call,
            .logErrorTimestamp err
              (bytes "Group chat creation by " ++ name ++ bytes " failed to initialize"),
            message friendnum (bytes "Group chat instance failed to initialize.")]
        if sameIgnoringCase kind (bytes "audio") then
          if tox.addAvGroupchat = -1 then failed (.addAvGroupchat (-1)) (-1)
          else
            registerGroup tox bot friendnum name (.addAvGroupchat tox.addAvGroupchat)
              tox.addAvGroupchat.toUInt32 toxConferenceTypeAv rest.head?
        else
          match tox.conferenceNew with
          | .error err => failed (.conferenceNew (.error err)) err
          | .ok groupnum =>
              registerGroup tox bot friendnum name (.conferenceNew (.ok groupnum)) groupnum
                toxConferenceTypeText rest.head?

def helpLines : List String :=
  [">> Web3 IM-Relayer in Metaverse Cyber",
    "/info          - Dump current status and list active group chats",
    "/list         - List all the channels that",
    "/join <ch>    - Join the msg channel",
    "/part <ch>    - Leave the channel",
    "/id           - Dump arkMeta ID",
    "/default <n>  - Sets default groupchat room to n",
    "/invite       - Request invite to default group chat",
    "/invite <n> <p>       - Request invite to group chat n (with password p if protected)",
    "/group <type> <pass>  - Creates a new groupchat with type: text | audio (optional password)"]

def cmdHelp : CommandHandler := fun tox bot friendnum _ =>
  let checked := friendIsMaster tox bot friendnum
  let lines :=
    if checked.1 then
      helpLines ++ ["For a list of master commands see the commands.txt file"]
    else helpLines
  .quiet checked.2 (lines.map fun line => message friendnum (bytes line))

def cmdId : CommandHandler := fun tox bot friendnum _ =>
  .quiet bot [message friendnum (bytes "arkMeta ID :\n"),
    message friendnum (hexString tox.selfAddress.toList).val]

/-- The line of a conference in the list of `cmd_info`. -/
def groupLine (tox : ToxAnswers) (bot : Bot) (groupnum numPeers : UInt32) : Bytes :=
  let title :=
    match bot.groups.index groupnum with
    | none => bytes "None"
    | some idx =>
        let chat := bot.groups.chat idx
        if chat.titleLen ≠ 0 then chat.title.val else bytes "None"
  let type :=
    if tox.conferenceType groupnum = toxConferenceTypeAv then bytes "Audio" else bytes "Text"
  bytes "Group " ++ decimal groupnum.toInt32.toInt ++ bytes " | " ++ type ++
    bytes " | peers: " ++ decimal numPeers.toInt32.toInt ++ bytes " | Title: " ++ title

def cmdInfo : CommandHandler := fun tox bot friendnum _ =>
  let elapsed := (tox.now - bot.startTime).toUInt64
  let status :=
    [bytes "Uptime: " ++ elapsedTimeStr elapsed,
      bytes "Friends: " ++ decimal tox.friendListSize.toInt32.toInt ++ bytes " (" ++
        decimal bot.numOnlineFriends.toInt ++ bytes " online)",
      bytes "Inactive friends are purged after " ++
        decimal (bot.inactiveLimit / secondsInDay).toNat ++ bytes " days"]
  if tox.chatlist = [] then
    .quiet bot ((status ++ [bytes "No active groupchats"]).map (message friendnum))
  else
    let groups := (tox.chatlist.take maxNumGroups).filterMap fun groupnum =>
      (tox.peerCount groupnum).map (groupLine tox bot groupnum)
    -- the loop is bounded by the size of `groupchat_list`, what toxcore puts there is not
    { CommandResult.quiet bot ((status ++ groups).map (message friendnum)) with
      accesses := [⟨maxNumGroups, tox.chatlist.length⟩] }

/-- The group an invitation is asked for. -/
def invitedGroup (bot : Bot) (argv : List CStr) : Option Int32 :=
  match argv with
  | [] => some bot.defaultGroupnum
  | number :: _ => parseGroupNumber number

def cmdInvite : CommandHandler := fun tox bot friendnum argv =>
  match invitedGroup bot argv with
  | none => reply bot friendnum "Error: Invalid group number"
  | some groupnum =>
      match bot.groups.index groupnum.toUInt32 with
      | none => reply bot friendnum "Group doesn't exist."
      | some idx =>
          withName tox friendnum fun name =>
            let chat := bot.groups.chat idx
            let number := decimal groupnum.toInt
            let passwd := argv[1]?
            if chat.hasPass ∧ passwd ≠ some chat.password then
              .quiet bot [.logErrorTimestamp (-1) (bytes "Failed to invite " ++ name ++
                  bytes " to group " ++ number ++ bytes " (invalid password)"),
                message friendnum (bytes "Invalid password.")]
            else
              let invited := ToxCall.conferenceInvite friendnum groupnum.toUInt32
              match tox.conferenceInvite friendnum groupnum.toUInt32 with
              | .error err =>
                  .quiet bot [invited, .logErrorTimestamp err (bytes "Failed to invite " ++
                      name ++ bytes " to group " ++ number),
                    errorMessage friendnum "Invite failed" err]
              | .ok () =>
                  .quiet bot [invited,
                    .logTimestamp (bytes "Invited " ++ name ++ bytes " to group " ++ number)]

def cmdLeave : CommandHandler := fun tox bot friendnum argv =>
  masterOnly tox bot friendnum fun bot =>
    match argv with
    | [] => reply bot friendnum "Error: Group number required"
    | number :: _ =>
        match parseGroupNumber number with
        | none => reply bot friendnum "Error: Invalid group number"
        | some groupnum =>
            let n := groupnum.toUInt32
            if !tox.conferenceDelete n then
              .quiet bot [.conferenceDelete n false,
                message friendnum (bytes "Error: Invalid group number")]
            else
              withName tox friendnum fun name =>
                .quiet { bot with groups := bot.groups.leave tox.fresh n }
                  [.conferenceDelete n true,
                    .logTimestamp (bytes "Left group " ++ decimal groupnum.toInt ++
                      bytes " (" ++ name ++ bytes ")"),
                    message friendnum (bytes "Left group " ++ decimal groupnum.toInt)]

def toxAddressSize : ℕ := 38

def cmdMaster : CommandHandler := fun tox bot friendnum argv =>
  masterOnly tox bot friendnum fun bot =>
    match argv with
    | [] => reply bot friendnum "Error: Tox ID required"
    | id :: _ =>
        if id.length ≠ toxAddressSize * 2 then
          reply bot friendnum "Error: Invalid Tox ID"
        else if !tox.files.appendable then
          reply bot friendnum "Error: could not find masterkeys file"
        else if !tox.files.writable then
          reply bot friendnum "Error: could not write to masterkeys file"
        else
          withName tox friendnum fun name =>
            .quiet { bot with masterkeys := some (bot.masterkeys.getD [] ++ id.val ++ [lf]) }
              [.logTimestamp (name ++ bytes " added master: " ++ id.val),
                message friendnum (bytes "ID added to masterkeys list")]

def cmdName : CommandHandler := fun tox bot friendnum argv =>
  masterOnly tox bot friendnum fun bot =>
    match argv with
    | [] => reply bot friendnum "Error: Name required"
    | text :: _ =>
        let name :=
          if text.val.head? = some quote then (unquoteStr text toxMaxNameLength).val
          else snprintf toxMaxNameLength text.val
        withName tox friendnum fun mName =>
          .quiet { bot with selfName := if tox.selfSetName name then name else bot.selfName }
            [.selfSetName name, .logTimestamp (mName ++ bytes " set name to " ++ name),
              .saveData]

def cmdPasswd : CommandHandler := fun tox bot friendnum argv =>
  masterOnly tox bot friendnum fun bot =>
    match argv with
    | [] => reply bot friendnum "Error: group number required"
    | number :: rest =>
        match parseGroupNumber number with
        | none => reply bot friendnum "Error: Invalid group number"
        | some groupnum =>
            match bot.groups.index groupnum.toUInt32 with
            | none => reply bot friendnum "Error: Invalid group number"
            | some idx =>
                withName tox friendnum fun name =>
                  match rest with
                  | [] =>
                      ⟨{ bot with groups := bot.groups.modify idx fun chat =>
                          { chat with hasPass := false, password := .empty } },
                        [message friendnum (bytes "No password set"),
                          .logTimestamp (bytes "No password set for group " ++
                            decimal groupnum.toInt ++ bytes " by " ++ name)],
                        some (groupnum.toUInt32, none), []⟩
                  | password :: _ =>
                      if maxPasswordSize ≤ password.length then
                        reply bot friendnum "Password too long"
                      else
                        ⟨{ bot with groups := bot.groups.modify idx fun chat =>
                            { chat with
                              hasPass := true
                              password := .ofBuffer (snprintf maxPasswordSize password.val) } },
                          [message friendnum (bytes "Password set"),
                            .logTimestamp (bytes "Password for group " ++
                              decimal groupnum.toInt ++ bytes " set by " ++ name)],
                          some (groupnum.toUInt32, some password), []⟩

def cmdPurge : CommandHandler := fun tox bot friendnum argv =>
  masterOnly tox bot friendnum fun bot =>
    match argv with
    | [] => reply bot friendnum "Error: number > 0 required"
    | number :: _ =>
        match parseIntRange number 1 purgeDaysMax with
        | none => reply bot friendnum "Error: number > 0 required"
        | some parsedDays =>
            let days := UInt64.ofInt parsedDays
            withName tox friendnum fun name =>
              .quiet { bot with inactiveLimit := days * secondsInDay }
                [message friendnum (bytes "Purge time set to " ++ decimal days.toNat ++
                    bytes " days"),
                  .logTimestamp (bytes "Purge time set to " ++ decimal days.toNat ++
                    bytes " days by " ++ name)]

def cmdStatus : CommandHandler := fun tox bot friendnum argv =>
  masterOnly tox bot friendnum fun bot =>
    match argv with
    | [] => reply bot friendnum "Error: status required"
    | status :: _ =>
        let set := fun (type : UserStatus) =>
          withName tox friendnum fun name =>
            .quiet { bot with selfStatus := type }
              [.selfSetStatus type, .logTimestamp (name ++ bytes " set status to " ++ status.val),
                .saveData]
        if sameIgnoringCase status (bytes "online") then set .none
        else if sameIgnoringCase status (bytes "away") then set .away
        else if sameIgnoringCase status (bytes "busy") then set .busy
        else reply bot friendnum "Invalid status. Valid statuses are: online, busy and away."

def cmdStatusmessage : CommandHandler := fun tox bot friendnum argv =>
  masterOnly tox bot friendnum fun bot =>
    match argv with
    | [] => reply bot friendnum "Error: message required"
    | text :: _ =>
        if text.val.head? ≠ some quote then
          reply bot friendnum "Error: message must be enclosed in quotes"
        else
          let msg := (unquoteStr text maxCommandLength).val
          withName tox friendnum fun name =>
            .quiet { bot with
                selfStatusMessage :=
                  if tox.selfSetStatusMessage msg then msg else bot.selfStatusMessage }
              [.selfSetStatusMessage msg,
                .logTimestamp (name ++ bytes " set status message to \"" ++ msg ++ bytes "\""),
                .saveData]

def cmdTitleSet : CommandHandler := fun tox bot friendnum argv =>
  masterOnly tox bot friendnum fun bot =>
    match argv with
    | number :: text :: _ =>
        if text.val.head? ≠ some quote then
          reply bot friendnum "Error: title must be enclosed in quotes"
        else
          match parseGroupNumber number with
          | none => reply bot friendnum "Error: Invalid group number"
          | some groupnum =>
              let title := (unquoteStr text maxCommandLength).val
              withName tox friendnum fun name =>
                let called := ToxCall.conferenceSetTitle groupnum.toUInt32 title
                match tox.conferenceSetTitle groupnum.toUInt32 title with
                | .error err =>
                    .quiet bot [called,
                      .logErrorTimestamp err (name ++ bytes " failed to set the title '" ++
                        title ++ bytes "' for group " ++ decimal groupnum.toInt),
                      errorMessage friendnum ("Failed to set title. This may be caused by an " ++
                        "invalid group number or an empty room") err]
                | .ok () =>
                    let groups :=
                      match bot.groups.index groupnum.toUInt32 with
                      | none => bot.groups
                      | some idx =>
                          bot.groups.modify idx fun chat =>
                            { chat with
                              title := .ofBuffer (snprintf toxMaxNameLength title)
                              titleLen := min title.length (toxMaxNameLength - 1) }
                    .quiet { bot with groups := groups } [called,
                      message friendnum (bytes "Group title set"),
                      .logTimestamp (name ++ bytes " set group " ++ decimal groupnum.toInt ++
                        bytes " title to " ++ title)]
    | _ => reply bot friendnum "Error: Two arguments are required"

/-! ## Dispatch -/

def commands : List (Bytes × CommandHandler) :=
  [(bytes "/default", cmdDefault),
    (bytes "/group", cmdGroup),
    (bytes "/gmessage", cmdGmessage),
    (bytes "/help", cmdHelp),
    (bytes "/id", cmdId),
    (bytes "/info", cmdInfo),
    (bytes "/invite", cmdInvite),
    (bytes "/leave", cmdLeave),
    (bytes "/master", cmdMaster),
    (bytes "/name", cmdName),
    (bytes "/passwd", cmdPasswd),
    (bytes "/purge", cmdPurge),
    (bytes "/status", cmdStatus),
    (bytes "/statusmessage", cmdStatusmessage),
    (bytes "/title", cmdTitleSet)]

/-- The code and what the command does. -/
def doCommand (tox : ToxAnswers) (bot : Bot) (friendnum : UInt32) (args : List CStr) :
    ℤ × CommandResult :=
  match commands.find? fun entry => args.head?.map (·.val) = some entry.1 with
  | none => (-1, .quiet bot [])
  | some entry => (0, entry.2 tox bot friendnum args.tail)

def execute (tox : ToxAnswers) (bot : Bot) (friendnum : UInt32) (inputMsg : CStr)
    (length : ℤ) : ℤ × CommandResult :=
  if maxCommandLength ≤ length then (-1, .quiet bot [])
  else
    match commandsParse inputMsg with
    | none => (-1, .quiet bot [])
    | some args => doCommand tox bot friendnum args

/-! ## A small deployment -/

/-- A list with one key, all of whose digits are A. -/
def oneMaster : Bytes := List.replicate 64 65 ++ [lf]

def smallBot : Bot where
  startTime := 0
  inactiveLimit := 31536000 * 5
  defaultGroupnum := 0
  numOnlineFriends := 0
  groups := .empty
  masterkeys := some oneMaster
  selfName := []
  selfStatus := .none
  selfStatusMessage := []

/-- Friend 0 has the key of the list, and everything succeeds. -/
def smallAnswers : ToxAnswers where
  friendPublicKey := fun friendnum => some (Vector.replicate 32 (if friendnum = 0 then 170 else 1))
  friendName := fun _ => ⟨[], Nat.zero_le _⟩
  friendListSize := 2
  selfAddress := Vector.replicate 38 0
  now := 0
  chatlist := []
  peerCount := fun _ => some 1
  conferenceType := fun _ => toxConferenceTypeText
  conferenceNew := .ok 0
  addAvGroupchat := 0
  conferenceDelete := fun _ => true
  conferenceInvite := fun _ _ => .ok ()
  conferenceSendMessage := fun _ _ => .ok ()
  conferenceSetTitle := fun _ _ => .ok ()
  selfSetName := fun _ => true
  selfSetStatusMessage := fun _ => true
  files := ⟨true, true, true, true⟩
  fresh := fun _ => .zero

def commandLine (text : String) : CStr := .ofBuffer (bytes text)

end ToxRelayer
