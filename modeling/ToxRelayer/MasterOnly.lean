import ToxRelayer.Commands

/-!
# Commands of contacts that are no masters

Most handlers ask for the master list before they do anything else, and the others only
talk to the contact, invite it, or add a group.  Three of these put what toxcore hands them
into arrays without asking how much it is.
-/

namespace ToxRelayer

open CString

/-- The contact's key is not in the list. -/
def Bot.NotMaster (tox : ToxAnswers) (bot : Bot) (friendnum : UInt32) : Prop :=
  ∀ publicKey, tox.friendPublicKey friendnum = some publicKey →
    publicKey.toList ∉ keysIn bot.masterkeys

/-- An entry of a group and its slot. -/
def GroupTable.Active (t : GroupTable) (i : ℕ) (chat : GroupChat) : Prop :=
  t.Holds i chat ∧ chat.active = true

/-- The entries are the same, but for one that may have come in. -/
def GroupTable.SameButOne (before after : GroupTable) : Prop :=
  (∀ i chat, after.Active i chat ↔ before.Active i chat) ∨
    ∃ i new, (∀ chat, ¬ before.Active i chat) ∧
      ∀ j chat, after.Active j chat ↔ before.Active j chat ∨ j = i ∧ chat = new

/-- The conference a call has created. -/
def ToxCall.created : ToxCall → Option UInt32
  | .conferenceNew (.ok groupnum) => some groupnum
  | .addAvGroupchat answer => if answer = -1 then none else some answer.toUInt32
  | _ => none

theorem created_addAvGroupchat {answer : Int32} (hanswer : ¬ answer = -1) :
    (ToxCall.addAvGroupchat answer).created = some answer.toUInt32 := if_neg hanswer

/-- Calls that change nothing for anyone but the contact. -/
def ToxCall.talks : ToxCall → Bool
  | .friendSendMessage _ _ | .conferenceInvite _ _ | .logTimestamp _ | .logErrorTimestamp _ _ |
    .conferenceNew _ | .addAvGroupchat _ => true
  | _ => false

section

variable (friendnum groupnum : UInt32) (text : Bytes) (err : ℤ)

@[simp] theorem talks_message : (message friendnum text).talks = true := rfl

@[simp] theorem talks_errorMessage (what : String) :
    (errorMessage friendnum what err).talks = true := rfl

@[simp] theorem talks_invite : (ToxCall.conferenceInvite friendnum groupnum).talks = true := rfl

@[simp] theorem talks_log : (ToxCall.logTimestamp text).talks = true := rfl

@[simp] theorem talks_logError : (ToxCall.logErrorTimestamp err text).talks = true := rfl

@[simp] theorem talks_conferenceNew (answer : Except ℤ UInt32) :
    (ToxCall.conferenceNew answer).talks = true := rfl

@[simp] theorem talks_addAvGroupchat (answer : Int32) :
    (ToxCall.addAvGroupchat answer).talks = true := rfl

end

/-- A call of a command with these calls: no conference is written to or titled and nothing
of the bot's own is set; a conference is only deleted when the command itself has created
it. -/
def ToxCall.Permitted (calls : List ToxCall) (call : ToxCall) : Prop :=
  call.talks = true ∨
    ∃ groupnum done, call = .conferenceDelete groupnum done ∧
      ∃ earlier ∈ calls, earlier.created = some groupnum

/-- What a command that only a master could have given has no part in. -/
structure CommandResult.Harmless (bot : Bot) (result : CommandResult) : Prop where
  defaultGroupnum : result.bot.defaultGroupnum = bot.defaultGroupnum
  inactiveLimit : result.bot.inactiveLimit = bot.inactiveLimit
  masterkeys : keysIn result.bot.masterkeys = keysIn bot.masterkeys
  selfName : result.bot.selfName = bot.selfName
  selfStatus : result.bot.selfStatus = bot.selfStatus
  selfStatusMessage : result.bot.selfStatusMessage = bot.selfStatusMessage
  groups : bot.groups.table.SameButOne result.bot.groups.table
  calls : ∀ call ∈ result.calls, call.Permitted result.calls

section

variable {tox : ToxAnswers} {bot : Bot} {friendnum : UInt32}

theorem GroupTable.SameButOne.refl (t : GroupTable) : t.SameButOne t :=
  .inl fun _ _ => Iff.rfl

theorem GroupTable.InBounds.sameButOne_filled {t : GroupTable} (ht : t.InBounds) {i : ℕ}
    {new : GroupChat} (hi : i ≤ t.chatsIdx)
    (hfree : ∀ chat, t.Holds i chat → chat.active = false) (hnew : new.active = true) :
    t.SameButOne (t.filled i new) := by
  have hnone : ∀ chat, ¬ t.Active i chat := by
    rintro chat ⟨hchat, hactive⟩
    rw [hfree chat hchat] at hactive
    cases hactive
  refine .inr ⟨i, new, hnone, ?_⟩
  intro j chat
  rw [GroupTable.Active, ht.holds_filled hi]
  constructor
  · rintro ⟨⟨rfl, rfl⟩ | ⟨-, hchat⟩, hactive⟩
    · exact .inr ⟨rfl, rfl⟩
    · exact .inl ⟨hchat, hactive⟩
  · rintro (hbefore | ⟨rfl, rfl⟩)
    · refine ⟨.inr ⟨?_, hbefore.1⟩, hbefore.2⟩
      rintro rfl
      exact hnone chat hbefore
    · exact ⟨.inl ⟨rfl, rfl⟩, hnew⟩

theorem Groups.sameButOne_add (g : Groups) (fresh : ℕ → GroupChat) (groupnum : UInt32)
    (type : UInt8) (password : Option CStr) :
    g.table.SameButOne (g.add fresh groupnum type password).2.table := by
  rcases g.add_cases fresh groupnum type password with
    ⟨-, hfull⟩ | ⟨-, -, i, hi, hfree, hfilled⟩
  · rw [hfull]
    exact .refl _
  · rw [hfilled]
    exact g.inBounds.sameButOne_filled hi hfree rfl

/-! ## The check -/

theorem friendIsMaster_of_notMaster (hfriend : bot.NotMaster tox friendnum) :
    ∃ file, friendIsMaster tox bot friendnum = (false, { bot with masterkeys := file }) ∧
      keysIn file = keysIn bot.masterkeys := by
  rw [friendIsMaster]
  cases hkey : tox.friendPublicKey friendnum with
  | none => exact ⟨bot.masterkeys, rfl, rfl⟩
  | some publicKey =>
      refine ⟨(fileContainsKey tox.files publicKey bot.masterkeys).2, ?_,
        keysIn_created tox.files publicKey bot.masterkeys⟩
      have hno : (fileContainsKey tox.files publicKey bot.masterkeys).1 ≠ 1 := by
        rw [ne_eq, fileContainsKey_eq_one_iff]
        exact fun hfound => hfriend publicKey hkey hfound.2
      simp only [hno, decide_false]

theorem CommandResult.harmless_talk {file : Option Bytes} {calls : List ToxCall}
    (hfile : keysIn file = keysIn bot.masterkeys) (hcalls : ∀ call ∈ calls, call.talks = true) :
    (CommandResult.quiet { bot with masterkeys := file } calls).Harmless bot where
  defaultGroupnum := rfl
  inactiveLimit := rfl
  masterkeys := hfile
  selfName := rfl
  selfStatus := rfl
  selfStatusMessage := rfl
  groups := .refl _
  calls := fun call hcall => .inl (hcalls call hcall)

theorem CommandResult.harmless_calls {calls : List ToxCall}
    (hcalls : ∀ call ∈ calls, call.talks = true) :
    (CommandResult.quiet bot calls).Harmless bot :=
  CommandResult.harmless_talk rfl hcalls

theorem CommandResult.Harmless.withName {act : Bytes → CommandResult}
    (hact : ∀ name, (act name).Harmless bot) :
    (ToxRelayer.withName tox friendnum act).Harmless bot := by
  have hharmless := hact (CStr.ofBuffer (tox.friendName friendnum).val).val
  exact ⟨hharmless.defaultGroupnum, hharmless.inactiveLimit, hharmless.masterkeys,
    hharmless.selfName, hharmless.selfStatus, hharmless.selfStatusMessage, hharmless.groups,
    hharmless.calls⟩

theorem masterOnly_harmless (hfriend : bot.NotMaster tox friendnum) (act : Bot → CommandResult) :
    (masterOnly tox bot friendnum act).Harmless bot := by
  obtain ⟨file, hcheck, hfile⟩ := friendIsMaster_of_notMaster hfriend
  rw [masterOnly, hcheck]
  apply CommandResult.harmless_talk hfile
  simp

/-! ## The open handlers -/

theorem cmdHelp_harmless (hfriend : bot.NotMaster tox friendnum) (argv : List CStr) :
    (cmdHelp tox bot friendnum argv).Harmless bot := by
  obtain ⟨file, hcheck, hfile⟩ := friendIsMaster_of_notMaster hfriend
  rw [cmdHelp, hcheck]
  apply CommandResult.harmless_talk hfile
  intro call hcall
  obtain ⟨line, -, rfl⟩ := List.mem_map.mp hcall
  rfl

theorem cmdId_harmless (argv : List CStr) : (cmdId tox bot friendnum argv).Harmless bot := by
  apply CommandResult.harmless_calls
  simp

theorem cmdInfo_harmless (argv : List CStr) : (cmdInfo tox bot friendnum argv).Harmless bot := by
  have htalks : ∀ lines : List Bytes, ∀ call ∈ lines.map (message friendnum),
      call.talks = true := by
    intro lines call hcall
    obtain ⟨line, -, rfl⟩ := List.mem_map.mp hcall
    rfl
  unfold cmdInfo
  dsimp only
  split
  · exact CommandResult.harmless_calls (htalks _)
  · exact ⟨rfl, rfl, rfl, rfl, rfl, rfl, .refl _, fun call hcall => .inl (htalks _ call hcall)⟩

theorem cmdInvite_harmless (argv : List CStr) :
    (cmdInvite tox bot friendnum argv).Harmless bot := by
  unfold cmdInvite
  split
  · exact CommandResult.harmless_calls (by simp)
  · split
    · exact CommandResult.harmless_calls (by simp)
    · apply CommandResult.Harmless.withName
      intro name
      dsimp only
      split
      · exact CommandResult.harmless_calls (by simp)
      · split <;>
          exact CommandResult.harmless_calls (by simp)

theorem registerGroup_harmless {created : ToxCall} {groupnum : UInt32}
    (hcreated : created.created = some groupnum) (htalks : created.talks = true) (name : Bytes)
    (type : UInt8) (password : Option CStr) :
    (registerGroup tox bot friendnum name created groupnum type password).Harmless bot := by
  have hgroups := bot.groups.sameButOne_add tox.fresh groupnum type password
  unfold registerGroup
  dsimp only
  split
  · exact CommandResult.harmless_calls (by simp [htalks])
  · split
    · refine ⟨rfl, rfl, rfl, rfl, rfl, rfl, hgroups, ?_⟩
      intro call hcall
      simp only [CommandResult.quiet, List.mem_cons, List.not_mem_nil, or_false] at hcall ⊢
      rcases hcall with rfl | rfl | rfl | rfl
      · exact .inl htalks
      · exact .inl rfl
      · exact .inl rfl
      · exact .inr ⟨groupnum, _, rfl, created, List.mem_cons_self, hcreated⟩
    · refine ⟨rfl, rfl, rfl, rfl, rfl, rfl, hgroups, ?_⟩
      simp [ToxCall.Permitted, htalks]

theorem cmdGroup_harmless (argv : List CStr) : (cmdGroup tox bot friendnum argv).Harmless bot := by
  unfold cmdGroup
  cases argv with
  | nil => exact CommandResult.harmless_calls (by simp)
  | cons kind rest =>
      apply CommandResult.Harmless.withName
      intro name
      dsimp only
      split
      · split
        · exact CommandResult.harmless_calls (by simp)
        · next hanswer => exact registerGroup_harmless (created_addAvGroupchat hanswer) rfl _ _ _
      · split
        · exact CommandResult.harmless_calls (by simp)
        · exact registerGroup_harmless rfl rfl _ _ _

/-! ## The arrays of the handlers -/

theorem CommandResult.inBounds_of_accesses {result : CommandResult}
    (haccesses : result.accesses = []) :
    result.InBounds := by
  rw [CommandResult.InBounds, haccesses]
  exact List.forall_mem_nil _

theorem CommandResult.inBounds_of_access {result : CommandResult} {access : CheckedMemory.Access}
    (haccesses : result.accesses = [access]) : result.InBounds ↔ access.InBounds := by
  rw [CommandResult.InBounds, haccesses]
  exact List.forall_mem_singleton

theorem nameAccess_inBounds {name : ContactName} :
    (nameAccess name).InBounds ↔ name.val.length < toxMaxNameLength :=
  Iff.rfl

theorem withName_inBounds {act : Bytes → CommandResult} (hact : ∀ name, (act name).accesses = []) :
    (withName tox friendnum act).InBounds ↔
      (tox.friendName friendnum).val.length < toxMaxNameLength := by
  rw [← nameAccess_inBounds]
  apply CommandResult.inBounds_of_access
  rw [withName_accesses, hact]

theorem masterOnly_accesses (hfriend : bot.NotMaster tox friendnum) (act : Bot → CommandResult) :
    (masterOnly tox bot friendnum act).accesses = [] := by
  obtain ⟨file, hcheck, -⟩ := friendIsMaster_of_notMaster hfriend
  rw [masterOnly, hcheck]
  rfl

theorem registerGroup_accesses (name : Bytes) (created : ToxCall) (groupnum : UInt32)
    (type : UInt8) (password : Option CStr) :
    (registerGroup tox bot friendnum name created groupnum type password).accesses = [] := by
  unfold registerGroup
  dsimp only
  split_ifs <;> rfl

theorem cmdInfo_inBounds (argv : List CStr) :
    (cmdInfo tox bot friendnum argv).InBounds ↔ tox.chatlist.length ≤ maxNumGroups := by
  unfold cmdInfo
  dsimp only
  split
  · next hnone =>
      rw [hnone, List.length_nil]
      exact iff_of_true (CommandResult.inBounds_of_accesses rfl) (Nat.zero_le _)
  · rw [CommandResult.InBounds]
    exact List.forall_mem_singleton

theorem cmdGroup_inBounds (argv : List CStr) :
    (cmdGroup tox bot friendnum argv).InBounds ↔
      (argv ≠ [] → (tox.friendName friendnum).val.length < toxMaxNameLength) := by
  unfold cmdGroup
  cases argv with
  | nil => exact iff_of_true (CommandResult.inBounds_of_accesses rfl) fun hne => absurd rfl hne
  | cons kind rest =>
      rw [imp_iff_right (List.cons_ne_nil kind rest)]
      apply withName_inBounds
      intro name
      dsimp only
      split
      · split
        · rfl
        · exact registerGroup_accesses _ _ _ _ _
      · split
        · rfl
        · exact registerGroup_accesses _ _ _ _ _

/-- The line is an `/invite` for a group that has an entry. -/
def Bot.InvitesTo (bot : Bot) (argv : List CStr) : Prop :=
  ∃ groupnum ∈ invitedGroup bot argv, bot.groups.index groupnum.toUInt32 ≠ none

theorem cmdInvite_inBounds (argv : List CStr) :
    (cmdInvite tox bot friendnum argv).InBounds ↔
      (bot.InvitesTo argv → (tox.friendName friendnum).val.length < toxMaxNameLength) := by
  unfold cmdInvite
  split
  · next hnumber =>
      refine iff_of_true (CommandResult.inBounds_of_accesses rfl) ?_
      rintro ⟨groupnum, hgroupnum, -⟩
      rw [hnumber] at hgroupnum
      cases hgroupnum
  · next groupnum hnumber =>
      split
      · next hindex =>
          refine iff_of_true (CommandResult.inBounds_of_accesses rfl) ?_
          rintro ⟨groupnum', hgroupnum', hlisted⟩
          rw [hnumber] at hgroupnum'
          cases hgroupnum'
          exact absurd hindex hlisted
      · next idx hindex =>
          have hinvites : bot.InvitesTo argv := by
            refine ⟨groupnum, hnumber, ?_⟩
            rw [hindex]
            exact Option.some_ne_none idx
          rw [imp_iff_right hinvites]
          apply withName_inBounds
          intro name
          dsimp only
          split
          · rfl
          · split <;> rfl

/-- Toxcore hands a command of this name no more than its arrays hold: the conferences for
`/info`, and the contact's name with a terminator where the command asks for it. -/
structure ArgsFit (tox : ToxAnswers) (bot : Bot) (friendnum : UInt32) (name : Bytes)
    (argv : List CStr) : Prop where
  conferences : name = bytes "/info" → tox.chatlist.length ≤ maxNumGroups
  contact : name = bytes "/group" ∧ argv ≠ [] ∨ name = bytes "/invite" ∧ bot.InvitesTo argv →
    (tox.friendName friendnum).val.length < toxMaxNameLength

theorem ArgsFit.of_other {name : Bytes} {argv : List CStr}
    (hname : name ≠ bytes "/group" ∧ name ≠ bytes "/info" ∧ name ≠ bytes "/invite") :
    ArgsFit tox bot friendnum name argv := by
  refine ⟨fun hinfo => absurd hinfo hname.2.1, ?_⟩
  rintro (⟨hgroup, -⟩ | ⟨hinvite, -⟩)
  · exact absurd hgroup hname.1
  · exact absurd hinvite hname.2.2

theorem argsFit_group {argv : List CStr} :
    ArgsFit tox bot friendnum (bytes "/group") argv ↔
      (argv ≠ [] → (tox.friendName friendnum).val.length < toxMaxNameLength) := by
  constructor
  · exact fun hfits hargs => hfits.contact (.inl ⟨rfl, hargs⟩)
  · intro hshort
    refine ⟨fun hinfo => absurd hinfo (by decide), ?_⟩
    rintro (⟨-, hargs⟩ | ⟨hinvite, -⟩)
    · exact hshort hargs
    · exact absurd hinvite (by decide)

theorem argsFit_info {argv : List CStr} :
    ArgsFit tox bot friendnum (bytes "/info") argv ↔ tox.chatlist.length ≤ maxNumGroups := by
  constructor
  · exact fun hfits => hfits.conferences rfl
  · intro hroom
    refine ⟨fun _ => hroom, ?_⟩
    rintro (⟨hgroup, -⟩ | ⟨hinvite, -⟩)
    · exact absurd hgroup (by decide)
    · exact absurd hinvite (by decide)

theorem argsFit_invite {argv : List CStr} :
    ArgsFit tox bot friendnum (bytes "/invite") argv ↔
      (bot.InvitesTo argv → (tox.friendName friendnum).val.length < toxMaxNameLength) := by
  constructor
  · exact fun hfits hinvites => hfits.contact (.inr ⟨rfl, hinvites⟩)
  · intro hshort
    refine ⟨fun hinfo => absurd hinfo (by decide), ?_⟩
    rintro (⟨hgroup, -⟩ | ⟨-, hinvites⟩)
    · exact absurd hgroup (by decide)
    · exact hshort hinvites

/-! ## Every line -/

/-- A handler that begins with the check. -/
def AsksMaster (handler : CommandHandler) : Prop :=
  ∀ tox bot friendnum argv, ∃ act, handler tox bot friendnum argv =
    masterOnly tox bot friendnum act

theorem commands_cases {entry : Bytes × CommandHandler} (hentry : entry ∈ commands) :
    (AsksMaster entry.2 ∧ entry.1 ≠ bytes "/group" ∧ entry.1 ≠ bytes "/info" ∧
        entry.1 ≠ bytes "/invite") ∨
      entry = (bytes "/group", cmdGroup) ∨ entry = (bytes "/help", cmdHelp) ∨
      entry = (bytes "/id", cmdId) ∨ entry = (bytes "/info", cmdInfo) ∨
      entry = (bytes "/invite", cmdInvite) := by
  simp only [commands, List.mem_cons, List.not_mem_nil, or_false] at hentry
  rcases hentry with rfl | rfl | rfl | rfl | rfl | rfl | rfl | rfl | rfl | rfl | rfl | rfl | rfl |
    rfl | rfl
  case inr.inl => exact .inr (.inl rfl)
  case inr.inr.inr.inl => exact .inr (.inr (.inl rfl))
  case inr.inr.inr.inr.inl => exact .inr (.inr (.inr (.inl rfl)))
  case inr.inr.inr.inr.inr.inl => exact .inr (.inr (.inr (.inr (.inl rfl))))
  case inr.inr.inr.inr.inr.inr.inl => exact .inr (.inr (.inr (.inr (.inr rfl))))
  all_goals
    left
    refine ⟨?_, by decide⟩
    intro tox bot friendnum argv
    dsimp only
    exact ⟨_, rfl⟩

theorem commands_harmless (hfriend : bot.NotMaster tox friendnum) {entry : Bytes × CommandHandler}
    (hentry : entry ∈ commands) (argv : List CStr) :
    (entry.2 tox bot friendnum argv).Harmless bot := by
  rcases commands_cases hentry with ⟨hasks, -⟩ | hopen | hopen | hopen | hopen | hopen
  · obtain ⟨act, hact⟩ := hasks tox bot friendnum argv
    rw [hact]
    exact masterOnly_harmless hfriend act
  · rw [hopen]
    exact cmdGroup_harmless argv
  · rw [hopen]
    exact cmdHelp_harmless hfriend argv
  · rw [hopen]
    exact cmdId_harmless argv
  · rw [hopen]
    exact cmdInfo_harmless argv
  · rw [hopen]
    exact cmdInvite_harmless argv

theorem commands_inBounds (hfriend : bot.NotMaster tox friendnum)
    {entry : Bytes × CommandHandler} (hentry : entry ∈ commands) (argv : List CStr) :
    (entry.2 tox bot friendnum argv).InBounds ↔ ArgsFit tox bot friendnum entry.1 argv := by
  have hquiet : ∀ {name : Bytes} {result : CommandResult}, result.accesses = [] →
      (name ≠ bytes "/group" ∧ name ≠ bytes "/info" ∧ name ≠ bytes "/invite") →
      (result.InBounds ↔ ArgsFit tox bot friendnum name argv) :=
    fun haccesses hname =>
      iff_of_true (CommandResult.inBounds_of_accesses haccesses) (ArgsFit.of_other hname)
  rcases commands_cases hentry with ⟨hasks, hname⟩ | hopen | hopen | hopen | hopen | hopen
  · obtain ⟨act, hact⟩ := hasks tox bot friendnum argv
    rw [hact]
    exact hquiet (masterOnly_accesses hfriend act) hname
  · rw [hopen, cmdGroup_inBounds]
    exact argsFit_group.symm
  · rw [hopen]
    exact hquiet rfl (by decide)
  · rw [hopen]
    exact hquiet rfl (by decide)
  · rw [hopen, cmdInfo_inBounds]
    exact argsFit_info.symm
  · rw [hopen, cmdInvite_inBounds]
    exact argsFit_invite.symm

/-- `ArgsFit` for the command a line calls. -/
def LineFits (tox : ToxAnswers) (bot : Bot) (friendnum : UInt32) (inputMsg : CStr)
    (length : ℤ) : Prop :=
  length < maxCommandLength → ∀ word argv, commandsParse inputMsg = some (word :: argv) →
    ArgsFit tox bot friendnum word.val argv

theorem doCommand_inBounds (hfriend : bot.NotMaster tox friendnum) (args : List CStr) :
    (doCommand tox bot friendnum args).2.InBounds ↔
      ∀ word argv, args = word :: argv → ArgsFit tox bot friendnum word.val argv := by
  rw [doCommand]
  split
  · next hunknown =>
      refine iff_of_true (CommandResult.inBounds_of_accesses rfl) ?_
      rintro word argv rfl
      have hother : ∀ entry ∈ commands, word.val ≠ entry.1 := by
        intro entry hentry hword
        have hno := List.find?_eq_none.mp hunknown entry hentry
        rw [decide_eq_true_eq] at hno
        exact hno (congrArg some hword)
      exact ArgsFit.of_other ⟨hother (bytes "/group", cmdGroup) (by simp [commands]),
        hother (bytes "/info", cmdInfo) (by simp [commands]),
        hother (bytes "/invite", cmdInvite) (by simp [commands])⟩
  · next entry hfound =>
      rw [commands_inBounds hfriend (List.mem_of_find?_eq_some hfound)]
      have hname := List.find?_some hfound
      rw [decide_eq_true_eq] at hname
      cases args with
      | nil => cases hname
      | cons word argv =>
          rw [← Option.some.inj hname]
          constructor
          · rintro hfits word' argv' ⟨⟩
            exact hfits
          · exact fun hfits => hfits word argv rfl

theorem execute_inBounds (tox : ToxAnswers) (bot : Bot) (friendnum : UInt32)
    (inputMsg : CStr) (length : ℤ) (hfriend : bot.NotMaster tox friendnum) :
    (execute tox bot friendnum inputMsg length).2.InBounds ↔
      LineFits tox bot friendnum inputMsg length := by
  have hnothing : (CommandResult.quiet bot []).InBounds := CommandResult.inBounds_of_accesses rfl
  rw [execute]
  split
  · next hlong => exact iff_of_true hnothing fun hshort => absurd hlong (not_le.mpr hshort)
  · next hshort =>
      rw [LineFits, imp_iff_right (not_le.mp hshort)]
      split
      · next hparse =>
          refine iff_of_true hnothing ?_
          intro word argv hsome
          rw [hparse] at hsome
          cases hsome
      · next args hparse =>
          rw [hparse]
          simpa only [Option.some.injEq] using doCommand_inBounds hfriend args

/-- A line of a contact whose key is not in the list changes nothing a master decides
on, as far as its command stays inside its arrays. -/
theorem execute_harmless (tox : ToxAnswers) (bot : Bot) (friendnum : UInt32) (inputMsg : CStr)
    (length : ℤ) (hfriend : bot.NotMaster tox friendnum) :
    (execute tox bot friendnum inputMsg length).2.Harmless bot := by
  have hnothing : (CommandResult.quiet bot []).Harmless bot :=
    CommandResult.harmless_calls (by simp)
  rw [execute]
  split
  · exact hnothing
  · split
    · exact hnothing
    · rw [doCommand]
      split
      · exact hnothing
      · next entry hfound => exact commands_harmless hfriend (List.mem_of_find?_eq_some hfound) _

/-- What is known of a line of a contact whose key is not in the list is that it changes
nothing a master decides on, and this is known exactly when its arrays are large enough. -/
theorem execute_harmless_iff (tox : ToxAnswers) (bot : Bot) (friendnum : UInt32)
    (inputMsg : CStr) (length : ℤ) (hfriend : bot.NotMaster tox friendnum) :
    (∃ result ∈ (execute tox bot friendnum inputMsg length).2.known, result.Harmless bot) ↔
      LineFits tox bot friendnum inputMsg length := by
  rw [← execute_inBounds tox bot friendnum inputMsg length hfriend, CommandResult.known]
  constructor
  · rintro ⟨result, hknown, -⟩
    by_contra hoverrun
    rw [if_neg hoverrun] at hknown
    cases hknown
  · intro hbounds
    rw [if_pos hbounds]
    exact ⟨_, rfl, execute_harmless tox bot friendnum inputMsg length hfriend⟩

end

theorem smallBot_notMaster {tox : ToxAnswers}
    (htox : tox.friendPublicKey = smallAnswers.friendPublicKey) : smallBot.NotMaster tox 1 := by
  intro publicKey hkey
  rw [htox] at hkey
  cases hkey
  decide +kernel

/-- A contact that is no master creates a group. -/
theorem execute_harmless_group :
    ∃ result ∈ (execute smallAnswers smallBot 1 (commandLine "/group text secret") 18).2.known,
      result.Harmless smallBot := by
  apply (execute_harmless_iff _ _ _ _ _ (smallBot_notMaster rfl)).mpr
  rintro - word argv -
  exact ⟨fun _ => by decide, fun _ => by decide⟩

/-- One conference more than `cmd_info` has room for. -/
def crowdedAnswers : ToxAnswers :=
  { smallAnswers with chatlist := (List.range (maxNumGroups + 1)).map UInt32.ofNat }

/-- A contact with a name as long as toxcore allows. -/
def longNamed : ToxAnswers :=
  { smallAnswers with
    friendName := fun _ => ⟨List.replicate toxMaxNameLength 65, List.length_replicate.le⟩ }

/-- Contacts that are no masters ask for the conferences, and create a group. -/
theorem execute_overruns :
    (smallBot.NotMaster crowdedAnswers 1 ∧
      ¬ ∃ result ∈ (execute crowdedAnswers smallBot 1 (commandLine "/info") 5).2.known,
        result.Harmless smallBot) ∧
    (smallBot.NotMaster longNamed 1 ∧
      ¬ ∃ result ∈ (execute longNamed smallBot 1 (commandLine "/group text") 11).2.known,
        result.Harmless smallBot) := by
  refine ⟨⟨smallBot_notMaster rfl, ?_⟩, smallBot_notMaster rfl, ?_⟩
  · have hunknown : (execute crowdedAnswers smallBot 1 (commandLine "/info") 5).2.known = none := by
      decide +kernel
    rw [hunknown]
    rintro ⟨result, ⟨⟩, -⟩
  · have hunknown :
        (execute longNamed smallBot 1 (commandLine "/group text") 11).2.known = none := by
      decide +kernel
    rw [hunknown]
    rintro ⟨result, ⟨⟩, -⟩

end ToxRelayer
