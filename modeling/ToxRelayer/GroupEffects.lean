import ToxRelayer.GroupDirectory
import ToxRelayer.MasterOnly

/-!
# What commands do to the groups

Every handler, for masters too, in terms of the table and of toxcore's conferences: it
leaves both alone, or it does one of six things.
-/

namespace ToxRelayer

open CString

/-- The conference a call has deleted. -/
def ToxCall.deleted : ToxCall → Option UInt32
  | .conferenceDelete groupnum true => some groupnum
  | _ => none

/-- The conference a call has invited a contact to. -/
def ToxCall.invited : ToxCall → Option UInt32
  | .conferenceInvite _ groupnum => some groupnum
  | _ => none

/-- A call that has nothing to do with which conferences there are and who is invited. -/
def ToxCall.idle (call : ToxCall) : Bool :=
  call.created.isNone && call.deleted.isNone && call.invited.isNone

/-- Only titles differ. -/
def Groups.Retitled (g g' : Groups) : Prop :=
  g' = g ∨ ∃ idx title titleLen, g' = g.modify idx fun chat =>
    { chat with title := title, titleLen := titleLen }

/-- What a command of this name with these arguments does to the groups and conferences. -/
inductive GroupEffect (tox : ToxAnswers) (g : Groups) (name : Bytes) (argv : List CStr) :
    CommandResult → Prop
  | quiet {result : CommandResult} (groups : g.Retitled result.bot.groups)
      (calls : ∀ call ∈ result.calls, call.idle = true) (given : result.given = none) :
      GroupEffect tox g name argv result
  | invited {result : CommandResult} {groupnum friendnum : UInt32} {rest : List ToxCall}
      (word : name = bytes "/invite")
      (idx : Fin g.table.gChats.length) (index : g.index groupnum = some idx)
      (carried : (g.chat idx).hasPass = true →
        argv[1]? = some (g.chat idx).password)
      (groups : result.bot.groups = g)
      (calls : result.calls = .conferenceInvite friendnum groupnum :: rest)
      (others : ∀ call ∈ rest, call.idle = true) (given : result.given = none) :
      GroupEffect tox g name argv result
  | unlisted {result : CommandResult} {groupnum : UInt32} {call : ToxCall} {rest : List ToxCall}
      (created : call.created = some groupnum) (groups : result.bot.groups = g)
      (calls : result.calls = call :: rest) (others : ∀ call ∈ rest, call.idle = true)
      (given : result.given = none) : GroupEffect tox g name argv result
  | refused {result : CommandResult} {groupnum : UInt32} {call : ToxCall} {rest : List ToxCall}
      {done : Bool} (created : call.created = some groupnum)
      (groups : result.bot.groups = g)
      (calls : result.calls = call :: (rest ++ [.conferenceDelete groupnum done]))
      (others : ∀ call ∈ rest, call.idle = true) (given : result.given = none) :
      GroupEffect tox g name argv result
  | added {result : CommandResult} {groupnum : UInt32} {call : ToxCall} {rest : List ToxCall}
      {type : UInt8} {password : Option CStr} (created : call.created = some groupnum)
      (fits : ∀ text ∈ password, text.length < maxPasswordSize)
      (code : (g.add tox.fresh groupnum type password).1 = 0)
      (groups : result.bot.groups = (g.add tox.fresh groupnum type password).2)
      (calls : result.calls = call :: rest) (others : ∀ call ∈ rest, call.idle = true)
      (given : result.given = some (groupnum, password)) : GroupEffect tox g name argv result
  | left {result : CommandResult} {groupnum : UInt32} {rest : List ToxCall}
      (groups : result.bot.groups = g.leave tox.fresh groupnum)
      (calls : result.calls = .conferenceDelete groupnum true :: rest)
      (others : ∀ call ∈ rest, call.idle = true) (given : result.given = none) :
      GroupEffect tox g name argv result
  | password {result : CommandResult} {groupnum : UInt32} {password : Option CStr}
      (idx : Fin g.table.gChats.length) (index : g.index groupnum = some idx)
      (groups : result.bot.groups = g.modify idx fun chat =>
        { chat with hasPass := password.isSome, password := password.getD .empty })
      (calls : ∀ call ∈ result.calls, call.idle = true)
      (given : result.given = some (groupnum, password)) : GroupEffect tox g name argv result

section

variable (friendnum groupnum : UInt32) (text : Bytes) (err : ℤ)

@[simp] theorem idle_message : (message friendnum text).idle = true := rfl

@[simp] theorem idle_errorMessage (what : String) :
    (errorMessage friendnum what err).idle = true := rfl

@[simp] theorem idle_log : (ToxCall.logTimestamp text).idle = true := rfl

@[simp] theorem idle_logError : (ToxCall.logErrorTimestamp err text).idle = true := rfl

@[simp] theorem idle_sendMessage : (ToxCall.conferenceSendMessage groupnum text).idle = true := rfl

@[simp] theorem idle_setTitle : (ToxCall.conferenceSetTitle groupnum text).idle = true := rfl

@[simp] theorem idle_setName : (ToxCall.selfSetName text).idle = true := rfl

@[simp] theorem idle_setStatus (status : UserStatus) :
    (ToxCall.selfSetStatus status).idle = true := rfl

@[simp] theorem idle_setStatusMessage : (ToxCall.selfSetStatusMessage text).idle = true := rfl

@[simp] theorem idle_saveData : ToxCall.saveData.idle = true := rfl

@[simp] theorem idle_notDeleted : (ToxCall.conferenceDelete groupnum false).idle = true := rfl

@[simp] theorem idle_notCreated : (ToxCall.conferenceNew (.error err)).idle = true := rfl

@[simp] theorem idle_notAdded : (ToxCall.addAvGroupchat (-1)).idle = true := rfl

end

theorem ToxCall.idle_iff {call : ToxCall} :
    call.idle = true ↔ call.created = none ∧ call.deleted = none ∧ call.invited = none := by
  simp [ToxCall.idle, and_assoc]

section

variable {tox : ToxAnswers} {bot : Bot} {friendnum : UInt32} {name : Bytes} {argv : List CStr}

theorem GroupEffect.of_same {bot' : Bot} {calls : List ToxCall} (hgroups : bot'.groups = bot.groups)
    (hcalls : ∀ call ∈ calls, call.idle = true) :
    GroupEffect tox bot.groups name argv (.quiet bot' calls) :=
  .quiet (.inl hgroups) hcalls rfl

theorem GroupEffect.reply (text : String) :
    GroupEffect tox bot.groups name argv (reply bot friendnum text) :=
  .of_same rfl (by simp)

/-- The check may create the file of master keys and does nothing else. -/
theorem friendIsMaster_groups (tox : ToxAnswers) (bot : Bot) (friendnum : UInt32) :
    (friendIsMaster tox bot friendnum).2.groups = bot.groups := by
  rw [friendIsMaster]
  split <;> rfl

theorem GroupEffect.masterOnly {act : Bot → CommandResult}
    (hact : ∀ bot : Bot, GroupEffect tox bot.groups name argv (act bot)) :
    GroupEffect tox bot.groups name argv (masterOnly tox bot friendnum act) := by
  rw [← friendIsMaster_groups tox bot friendnum, ToxRelayer.masterOnly]
  split
  · exact hact _
  · exact .reply _

theorem GroupEffect.withName {act : Bytes → CommandResult}
    (hact : ∀ name', GroupEffect tox bot.groups name argv (act name')) :
    GroupEffect tox bot.groups name argv (withName tox friendnum act) := by
  cases hact (CStr.ofBuffer (tox.friendName friendnum).val).val with
  | quiet hgroups hcalls hgiven => exact .quiet hgroups hcalls hgiven
  | invited hword idx hindex hcarried hgroups hcalls hothers hgiven =>
      exact .invited hword idx hindex hcarried hgroups hcalls hothers hgiven
  | unlisted hcreated hgroups hcalls hothers hgiven =>
      exact .unlisted hcreated hgroups hcalls hothers hgiven
  | refused hcreated hgroups hcalls hothers hgiven =>
      exact .refused hcreated hgroups hcalls hothers hgiven
  | added hcreated hfits hcode hgroups hcalls hothers hgiven =>
      exact .added hcreated hfits hcode hgroups hcalls hothers hgiven
  | left hgroups hcalls hothers hgiven => exact .left hgroups hcalls hothers hgiven
  | password idx hindex hgroups hcalls hgiven => exact .password idx hindex hgroups hcalls hgiven

theorem cmdDefault_effect : GroupEffect tox bot.groups name argv (cmdDefault tox bot friendnum argv) := by
  apply GroupEffect.masterOnly
  intro bot
  split
  · exact .reply _
  · split
    · exact .reply _
    · exact .withName fun name' => .of_same rfl (by simp)

theorem cmdGmessage_effect :
    GroupEffect tox bot.groups name argv (cmdGmessage tox bot friendnum argv) := by
  apply GroupEffect.masterOnly
  intro bot
  split
  · exact .reply _
  · exact .reply _
  · split
    · exact .reply _
    · split
      · exact .reply _
      · split
        · exact .reply _
        · dsimp only
          split
          · exact .of_same rfl (by simp)
          · exact .withName fun name' => .of_same rfl (by simp)

theorem cmdHelp_effect : GroupEffect tox bot.groups name argv (cmdHelp tox bot friendnum argv) := by
  apply GroupEffect.of_same (friendIsMaster_groups tox bot friendnum)
  intro call hcall
  obtain ⟨line, -, rfl⟩ := List.mem_map.mp hcall
  rfl

theorem cmdId_effect : GroupEffect tox bot.groups name argv (cmdId tox bot friendnum argv) :=
  .of_same rfl (by simp)

theorem cmdInfo_effect : GroupEffect tox bot.groups name argv (cmdInfo tox bot friendnum argv) := by
  have hidle : ∀ lines : List Bytes, ∀ call ∈ lines.map (message friendnum),
      call.idle = true := by
    intro lines call hcall
    obtain ⟨line, -, rfl⟩ := List.mem_map.mp hcall
    rfl
  unfold cmdInfo
  dsimp only
  split
  · exact .of_same rfl (hidle _)
  · exact .quiet (.inl rfl) (hidle _) rfl

theorem cmdInvite_effect :
    GroupEffect tox bot.groups (bytes "/invite") argv (cmdInvite tox bot friendnum argv) := by
  unfold cmdInvite
  split
  · exact .reply _
  · next groupnum _ =>
      split
      · exact .reply _
      · next idx hindex =>
          apply GroupEffect.withName
          intro name'
          dsimp only
          split
          · exact .of_same rfl (by simp)
          · next hcarried =>
              rw [not_and, not_not] at hcarried
              split
              · exact .invited rfl idx hindex hcarried rfl rfl (by simp) rfl
              · exact .invited rfl idx hindex hcarried rfl rfl (by simp) rfl

theorem cmdLeave_effect : GroupEffect tox bot.groups name argv (cmdLeave tox bot friendnum argv) := by
  apply GroupEffect.masterOnly
  intro bot
  split
  · exact .reply _
  · split
    · exact .reply _
    · dsimp only
      split
      · exact .of_same rfl (by simp)
      · exact .withName fun name' => .left rfl rfl (by simp) rfl

theorem cmdMaster_effect : GroupEffect tox bot.groups name argv (cmdMaster tox bot friendnum argv) := by
  apply GroupEffect.masterOnly
  intro bot
  split
  · exact .reply _
  · split
    · exact .reply _
    · split
      · exact .reply _
      · split
        · exact .reply _
        · exact .withName fun name' => .of_same rfl (by simp)

theorem cmdName_effect : GroupEffect tox bot.groups name argv (cmdName tox bot friendnum argv) := by
  apply GroupEffect.masterOnly
  intro bot
  split
  · exact .reply _
  · exact .withName fun name' => .of_same rfl (by simp)

theorem cmdPasswd_effect : GroupEffect tox bot.groups name argv (cmdPasswd tox bot friendnum argv) := by
  apply GroupEffect.masterOnly
  intro bot
  split
  · exact .reply _
  · split
    · exact .reply _
    · split
      · exact .reply _
      · next idx hindex =>
          apply GroupEffect.withName
          intro name'
          split
          · exact .password idx hindex rfl (by simp) rfl
          · split
            · exact .reply _
            · next password _ hfits =>
                refine .password idx hindex ?_ (by simp) rfl
                rw [snprintf_of_length_lt (not_le.mp hfits), CStr.ofBuffer_val]
                rfl

theorem cmdPurge_effect : GroupEffect tox bot.groups name argv (cmdPurge tox bot friendnum argv) := by
  apply GroupEffect.masterOnly
  intro bot
  split
  · exact .reply _
  · split
    · exact .reply _
    · exact .withName fun name' => .of_same rfl (by simp)

theorem cmdStatus_effect : GroupEffect tox bot.groups name argv (cmdStatus tox bot friendnum argv) := by
  apply GroupEffect.masterOnly
  intro bot
  split
  · exact .reply _
  · dsimp only
    split_ifs
    · exact .withName fun name' => .of_same rfl (by simp)
    · exact .withName fun name' => .of_same rfl (by simp)
    · exact .withName fun name' => .of_same rfl (by simp)
    · exact .reply _

theorem cmdStatusmessage_effect :
    GroupEffect tox bot.groups name argv (cmdStatusmessage tox bot friendnum argv) := by
  apply GroupEffect.masterOnly
  intro bot
  split
  · exact .reply _
  · split
    · exact .reply _
    · exact .withName fun name' => .of_same rfl (by simp)

theorem cmdTitleSet_effect :
    GroupEffect tox bot.groups name argv (cmdTitleSet tox bot friendnum argv) := by
  apply GroupEffect.masterOnly
  intro bot
  split
  · split
    · exact .reply _
    · split
      · exact .reply _
      · apply GroupEffect.withName
        intro name'
        dsimp only
        split
        · exact .of_same rfl (by simp)
        · refine .quiet ?_ (by simp [CommandResult.quiet]) rfl
          dsimp only [CommandResult.quiet]
          split
          · exact .inl rfl
          · exact .inr ⟨_, _, _, rfl⟩
  · exact .reply _

theorem registerGroup_effect {created : ToxCall} {groupnum : UInt32}
    (hcreated : created.created = some groupnum) (name' : Bytes) (type : UInt8)
    (password : Option CStr) :
    GroupEffect tox bot.groups name argv
      (registerGroup tox bot friendnum name' created groupnum type password) := by
  unfold registerGroup
  dsimp only
  split
  · exact .unlisted hcreated rfl rfl (by simp) rfl
  · next hfits =>
      rcases bot.groups.add_cases tox.fresh groupnum type password with
        ⟨-, hfull⟩ | ⟨-, hcode, -⟩
      · rw [hfull, if_pos rfl]
        exact .refused hcreated rfl (show _ = created :: ([_, _] ++ [_]) from rfl) (by simp) rfl
      · rw [if_neg (by rw [hcode]; decide)]
        refine .added hcreated ?_ hcode rfl rfl (by simp) rfl
        intro text htext
        by_contra hlong
        exact hfits ⟨text, htext, not_lt.mp hlong⟩

theorem cmdGroup_effect : GroupEffect tox bot.groups name argv (cmdGroup tox bot friendnum argv) := by
  unfold cmdGroup
  cases argv with
  | nil => exact .reply _
  | cons kind rest =>
      apply GroupEffect.withName
      intro name'
      dsimp only
      split
      · split
        · exact .of_same rfl (by simp)
        · next hanswer => exact registerGroup_effect (created_addAvGroupchat hanswer) _ _ _
      · split
        · exact .of_same rfl (by simp)
        · exact registerGroup_effect rfl _ _ _

theorem commands_effect {entry : Bytes × CommandHandler} (hentry : entry ∈ commands) :
    GroupEffect tox bot.groups entry.1 argv (entry.2 tox bot friendnum argv) := by
  simp only [commands, List.mem_cons, List.not_mem_nil, or_false] at hentry
  rcases hentry with rfl | rfl | rfl | rfl | rfl | rfl | rfl | rfl | rfl | rfl | rfl | rfl | rfl |
    rfl | rfl
  · exact cmdDefault_effect
  · exact cmdGroup_effect
  · exact cmdGmessage_effect
  · exact cmdHelp_effect
  · exact cmdId_effect
  · exact cmdInfo_effect
  · exact cmdInvite_effect
  · exact cmdLeave_effect
  · exact cmdMaster_effect
  · exact cmdName_effect
  · exact cmdPasswd_effect
  · exact cmdPurge_effect
  · exact cmdStatus_effect
  · exact cmdStatusmessage_effect
  · exact cmdTitleSet_effect

/-- What a line does is what the command it names does, unless it does nothing. -/
theorem execute_effect (inputMsg : CStr) (length : ℤ) :
    ∃ name argv, GroupEffect tox bot.groups name argv
        (execute tox bot friendnum inputMsg length).2 ∧
      ((execute tox bot friendnum inputMsg length).2.calls ≠ [] →
        ∃ word : CStr, word.val = name ∧ commandsParse inputMsg = some (word :: argv)) := by
  have hnothing : ∃ name argv, GroupEffect tox bot.groups name argv (.quiet bot []) ∧
      ((CommandResult.quiet bot []).calls ≠ [] →
        ∃ word : CStr, word.val = name ∧ commandsParse inputMsg = some (word :: argv)) :=
    ⟨[], [], .of_same rfl (by simp), fun hcalls => absurd rfl hcalls⟩
  rw [execute]
  split
  · exact hnothing
  · split
    · exact hnothing
    · next args hparse =>
        rw [doCommand]
        split
        · exact hnothing
        · next entry hfound =>
            refine ⟨entry.1, args.tail, commands_effect (List.mem_of_find?_eq_some hfound), ?_⟩
            rintro -
            have hname := List.find?_some hfound
            rw [decide_eq_true_eq] at hname
            cases args with
            | nil => cases hname
            | cons word argv => exact ⟨word, Option.some.inj hname, hparse⟩

end

end ToxRelayer
