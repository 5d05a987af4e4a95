import ToxRelayer.IncomingMessage
import ToxRelayer.Restart
import ToxRelayer.SettingsEntries

/-!
# Serials and flags across restarts

The table of contacts is filled from the settings at the start and whenever the
contacts change; a line typed at the console and a sign of the metaCom protocol
write to both.  Whatever comes in between, reading the settings gives a contact
the serial and the flag that the table has.
-/

namespace ToxRelayer

open CString SectionedStore

/-! ## Runs -/

/-- The node, and what a run records: the serials taken for lines, with the contact, and the
contacts that sent the sign of the protocol. -/
structure SettingsRun (Ini : Type) where
  relayer : Relayer Ini
  sent : List (ℕ × ℤ)
  marked : List ℕ

inductive SettingsEvent where
  | message (m : IncomingMessage)
  | line (cmBuffer : CStr) (curTime : Int64) (io : SqliteResult)
  | turnTo (index : Fin maxFriendNum)
  | relayKey (token : CStr)
  | contacts (tox : ToxHandle)
  | elsewhere (queue : Mq) (bot : Bot)
  | restart (tox : ToxHandle) (queue : Mq) (ready : Bool) (io : SqliteResult) (bot : Bot)

section

variable {Ini : Type} (minIni : MinIni Ini)

/-- `set_relayer_public_key`, from the second word of the line on. -/
def setRelayerPublicKey (node : Node Ini) (token : CStr) : Node Ini :=
  { node with
    ini := minIni.puts node.ini (bytes "metaCom_Relayer") (bytes "relay_public_key") token.val
    relayNumber := lookupChNum node.relayNameList token.val }

/-- `relay_recover_trackers` on a node that starts. -/
def recovered (io : SqliteResult) (node : Node Ini) : RelayState (Node Ini) :=
  (relayRecoverTrackers (relayInit minIni io node.selfPublicKeyStr) (some (relayLastStoredSn io))
    maxFriendNum ⟨node, fun _ => ⟨0, false, []⟩⟩).2

/-- The node that starts; only the trackers are recovered from the archive. -/
def relayStart (io : SqliteResult) (node : Node Ini) : RelayState (Node Ini) :=
  ⟨node, (recovered minIni io node).trackers⟩

/-- The start of `main`: only the files are left of what was there before. -/
def Relayer.restart (s : Relayer Ini) (tox : ToxHandle) (queue : Mq) (ready : Bool)
    (io : SqliteResult) (bot : Bot) : Relayer Ini :=
  { s with
    relay := relayStart minIni io (getRelayNameList minIni tox
      (nodeAtStart s.relay.ctx.ini queue { s.relay.ctx.db with ready := ready }))
    bot := bot
    preFriendnumber := ⟨0, maxFriendNum_pos⟩ }

def Relayer.withNode (s : Relayer Ini) (node : Node Ini) : Relayer Ini :=
  { s with relay := { s.relay with ctx := node } }

namespace SettingsRun

def node (s : SettingsRun Ini) : Node Ini := s.relayer.relay.ctx

def start (s : Relayer Ini) (tox : ToxHandle) (queue : Mq) (ready : Bool) (io : SqliteResult)
    (bot : Bot) : SettingsRun Ini :=
  ⟨s.restart minIni tox queue ready io bot, [], []⟩

def step (s : SettingsRun Ini) : SettingsEvent → SettingsRun Ini
  | .message m =>
      let handled := cbFriendMessage minIni s.relayer m
      { s with
        relayer := handled.state
        marked :=
          match handled.handling with
          | .metacom => s.marked ++ [m.friendnumber.toNat]
          | _ => s.marked }
  | .line cmBuffer curTime io =>
      let channel := s.relayer.preFriendnumber
      let sent := consoleSend minIni io s.node channel cmBuffer curTime
      { s with
        relayer := s.relayer.withNode sent.node
        sent := s.sent ++ [(channel.val, (sent.node.relayNameList channel).sendSn)] }
  | .turnTo index => { s with relayer := { s.relayer with preFriendnumber := index } }
  | .relayKey token =>
      { s with relayer := s.relayer.withNode (setRelayerPublicKey minIni s.node token) }
  | .contacts tox => { s with relayer := s.relayer.withNode (getRelayNameList minIni tox s.node) }
  | .elsewhere queue bot =>
      { s with relayer := { s.relayer.withNode { s.node with queue := queue } with bot := bot } }
  | .restart tox queue ready io bot =>
      { s with relayer := s.relayer.restart minIni tox queue ready io bot }

def run (s : SettingsRun Ini) (events : List SettingsEvent) : SettingsRun Ini :=
  events.foldl (step minIni) s

def sendSn (s : SettingsRun Ini) (channel : ℕ) : ℤ := (s.node.relayNameList channel).sendSn

def metaChatFlag (s : SettingsRun Ini) (channel : ℕ) : Bool :=
  (s.node.relayNameList channel).metaChatFlag

/-- The serials of the lines typed for a contact. -/
def serials (s : SettingsRun Ini) (channel : ℕ) : List ℤ :=
  (s.sent.filter fun record => record.1 = channel).map Prod.snd

end SettingsRun

/-- The table is filled for the contact: its number is below how many contacts there are, as it is
for all of them as long as none has been deleted, and there are not too many. -/
def ToxHandle.Lists (tox : ToxHandle) (channel : ℕ) : Prop :=
  channel < tox.friendListSize ∧ tox.friendListSize ≤ maxFriendNum

/-- A key that is read back from the settings as it was given. -/
structure KeptToken (token : CStr) : Prop where
  oneLine : lf ∉ token.val
  short : token.length < 128
  kept : iniReadBack token.val = token.val

/-- Every restart fills the table for the contact, and the keys of `/relay` are read back. -/
def SettingsEvent.Keeps (channel : ℕ) : SettingsEvent → Prop
  | .restart tox _ _ _ _ => tox.Lists channel
  | .relayKey token => KeptToken token
  | _ => True

/-! ## What is read of a contact -/

variable (ini : Ini) (channel : ℕ)

/-- The entries a contact has in the settings. -/
inductive ContactEntry where
  | send
  | recev
  | flag
  deriving DecidableEq

namespace ContactEntry

def sect : ContactEntry → Bytes
  | .send => bytes "outgoing_sn"
  | .recev => bytes "incoming_sn"
  | .flag => bytes "meta_chat_flag"

def word : ContactEntry → Bytes
  | .send => bytes "send"
  | .recev => bytes "recev"
  | .flag => bytes "meta"

def default : ContactEntry → Bytes
  | .flag => bytes "0"
  | _ => bytes "1"

end ContactEntry

def entryText (entry : ContactEntry) (channel : ℤ) : CStr :=
  minIni.gets ini entry.sect (entryName entry.word channel) entry.default 128

/-- The serial the table gets from the settings, over the one it had. -/
def loadedSn (old : ℤ) : ℤ :=
  if (entryText minIni ini .send channel).length < 1 then old
  else (parseIntRange (entryText minIni ini .send channel) tgSnMin tgSnMax).getD tgSnMin

/-- The flag the table gets from the settings. -/
def loadedFlag : Bool :=
  if (entryText minIni ini .flag channel).length < 1 then false
  else (parseIntRange (entryText minIni ini .flag channel) 0 1).getD 0 ≠ 0

/-- The settings have no empty entry for a serial of the contact. -/
structure HasSerials : Prop where
  send : 1 ≤ (entryText minIni ini .send channel).length
  recev : 1 ≤ (entryText minIni ini .recev channel).length

end

section

variable {Ini : Type} {minIni : MinIni Ini} {ini : Ini} {tox : ToxHandle} {channel : ℕ}
  {old : RelayName}

theorem gets_send (channel : ℤ) :
    minIni.gets ini (bytes "outgoing_sn") (bytes "send" ++ formatInt 3 channel) (bytes "1") 128 =
      entryText minIni ini .send channel := rfl

theorem gets_recev (channel : ℤ) :
    minIni.gets ini (bytes "incoming_sn") (bytes "recev" ++ formatInt 3 channel) (bytes "1") 128 =
      entryText minIni ini .recev channel := rfl

theorem gets_flag (channel : ℤ) :
    minIni.gets ini (bytes "meta_chat_flag") (bytes "meta" ++ formatInt 3 channel) (bytes "0") 128 =
      entryText minIni ini .flag channel := rfl

theorem relayNameEntry_sendSn :
    (relayNameEntry minIni ini tox channel old).sendSn =
      loadedSn minIni ini channel old.sendSn := by
  rw [relayNameEntry, loadedSn]
  dsimp only
  rw [gets_send, gets_recev, gets_flag]
  split_ifs <;> rfl

theorem relayNameEntry_metaChatFlag (hserials : HasSerials minIni ini channel) :
    (relayNameEntry minIni ini tox channel old).metaChatFlag =
      loadedFlag minIni ini channel := by
  have hsend : ¬ (entryText minIni ini .send channel).length < 1 := not_lt.mpr hserials.send
  have hrecev : ¬ (entryText minIni ini .recev channel).length < 1 := not_lt.mpr hserials.recev
  rw [relayNameEntry, loadedFlag]
  dsimp only
  rw [gets_send, gets_recev, gets_flag, if_neg hsend, if_neg hrecev]
  split_ifs <;> rfl

/-- The table of contacts after it has been filled. -/
theorem getRelayNameList_apply (node : Node Ini) :
    (getRelayNameList minIni tox node).relayNameList channel =
        node.relayNameList channel ∧ ¬ tox.Lists channel ∨
      (getRelayNameList minIni tox node).relayNameList channel =
        relayNameEntry minIni node.ini tox channel (node.relayNameList channel) := by
  unfold getRelayNameList
  split
  · rename_i hsize
    exact .inl ⟨rfl, fun hlists => hlists.2.not_gt hsize⟩
  · dsimp only
    rw [relayNameLoop_apply]
    split
    · exact .inr rfl
    · rename_i hchannel
      exact .inl ⟨rfl, fun hlists => hchannel hlists.1⟩

theorem getRelayNameList_ini (node : Node Ini) :
    (getRelayNameList minIni tox node).ini = node.ini := by
  unfold getRelayNameList
  split <;> rfl

end

/-! ## What is written -/

namespace ContactEntry

theorem iniHeading (entry : ContactEntry) : IniHeading entry.sect := by
  cases entry <;> exact ⟨by decide, by decide, by decide, by decide⟩

theorem entryWord (entry : ContactEntry) : EntryWord entry.word := by
  cases entry <;> exact ⟨by decide, by decide, by decide +kernel⟩

theorem sect_injective {entry entry' : ContactEntry}
    (hsect : lowerCase entry.sect = lowerCase entry'.sect) : entry = entry' := by
  cases entry <;> cases entry' <;> first | rfl | exact absurd hsect (by decide)

theorem sect_ne_relayer (entry : ContactEntry) :
    lowerCase entry.sect ≠ lowerCase (bytes "metaCom_Relayer") := by
  cases entry <;> decide

end ContactEntry

theorem iniHeading_relayer : IniHeading (bytes "metaCom_Relayer") :=
  ⟨by decide, by decide, by decide, by decide⟩

theorem numberText_one : NumberText (bytes "1") := ⟨by decide, by decide, by decide +kernel⟩

theorem iniWritten_length_le (value : Bytes) :
    (iniWritten value).length ≤ 2 * value.length + 2 := by
  have hescaped : (escapeQuotes value).length ≤ 2 * value.length := by
    induction value with
    | nil => exact le_rfl
    | cons b value ih =>
        rw [escapeQuotes_cons, List.length_cons]
        split <;> simp only [List.length_cons] <;> omega
  rw [iniWritten]
  split
  · rw [List.length_append, List.length_cons, List.length_singleton]
    omega
  · omega

theorem iniKey_relayPublicKey : IniKey (bytes "relay_public_key") where
  nonempty := by decide
  nulFree := by decide
  oneLine := by decide
  noEquals := by decide
  first := by rintro b ⟨⟩; decide
  last := by rintro b ⟨⟩; decide

theorem relayKey_fits {token : CStr} (htoken : KeptToken token) :
    (bytes "relay_public_key").length + (iniWritten token.val).length + 4 ≤ iniBufferSize := by
  have hwritten := iniWritten_length_le token.val
  have hshort := htoken.short
  have hname : (bytes "relay_public_key").length = 16 := by decide
  rw [CStr.length] at hshort
  rw [hname, iniBufferSize]
  omega

/-- The key given to `/relay`. -/
def relayKeyWrite (token : CStr) (htoken : KeptToken token) : IniWrite where
  sect := bytes "metaCom_Relayer"
  key := bytes "relay_public_key"
  value := token.val
  heading := iniHeading_relayer
  setting := {
    named := iniKey_relayPublicKey
    nulFree := token.nulFree
    oneLine := htoken.oneLine
    fits := relayKey_fits htoken }
  kept := htoken.kept

section

variable {access : IniAccess} (hworks : access.Works)

include hworks

/-- A number written for a contact is read in its own entry and in no other one. -/
theorem entryText_puts (entry entry' : ContactEntry) {channel : ℤ} (channel' : ℤ)
    (hchannel : channel.natAbs < 10 ^ 10) {value : Bytes} (hvalue : NumberText value)
    (ini : Option CStr) :
    entryText (iniStore access)
        ((iniStore access).puts ini entry.sect (entryName entry.word channel) value) entry'
        channel' =
      if entry' = entry ∧ channel' = channel then .ofBuffer value
      else entryText (iniStore access) ini entry' channel' := by
  have hget := iniStore_gets_puts hworks (numberWrite entry.sect entry.iniHeading
    entry.entryWord channel hchannel hvalue) ini entry'.iniHeading.nonempty
    (entry'.entryWord.iniKey channel') entry'.default 128
  have hshort := hvalue.short
  have hplace : iniPlace entry'.sect (entryName entry'.word channel') =
      iniPlace entry.sect (entryName entry.word channel) ↔ entry' = entry ∧ channel' = channel := by
    rw [iniPlace, iniPlace, entry.entryWord.lowerCase, entry'.entryWord.lowerCase, Prod.mk.injEq,
      Option.some.injEq]
    constructor
    · rintro ⟨hsect, hname⟩
      obtain rfl := ContactEntry.sect_injective hsect
      exact ⟨rfl, entryName_injective hname⟩
    · rintro ⟨rfl, rfl⟩
      exact ⟨rfl, rfl⟩
  simp only [numberWrite, hplace] at hget
  rw [List.take_of_length_le (by omega)] at hget
  exact hget

/-- The key given to `/relay` is in no entry of a contact. -/
theorem entryText_relayKey (entry : ContactEntry) (channel : ℤ) {token : CStr}
    (htoken : KeptToken token) (ini : Option CStr) :
    entryText (iniStore access) ((iniStore access).puts ini (bytes "metaCom_Relayer")
        (bytes "relay_public_key") token.val) entry channel =
      entryText (iniStore access) ini entry channel := by
  have hget := iniStore_gets_puts hworks (relayKeyWrite token htoken) ini
    entry.iniHeading.nonempty (entry.entryWord.iniKey channel) entry.default 128
  rw [if_neg] at hget
  · exact hget
  · intro hplace
    exact entry.sect_ne_relayer (Option.some.inj (Prod.mk.inj hplace).1)

end

/-! ## What leaves the entries of a contact alone -/

section

variable {Ini : Type} {minIni : MinIni Ini} {channel : ℕ} {node node' node'' : Node Ini}

/-- The table is the same, and so are the entries of the contact; the serial received last may
have been written. -/
structure SameSettings (minIni : MinIni Ini) (channel : ℕ) (node node' : Node Ini) : Prop where
  table : node'.relayNameList = node.relayNameList
  entries : ∀ entry, entry ≠ .recev →
    entryText minIni node'.ini entry channel = entryText minIni node.ini entry channel
  recev : 1 ≤ (entryText minIni node.ini .recev channel).length →
    1 ≤ (entryText minIni node'.ini .recev channel).length

theorem SameSettings.of_ini (htable : node'.relayNameList = node.relayNameList)
    (hini : node'.ini = node.ini) : SameSettings minIni channel node node' := by
  refine ⟨htable, fun entry _ => ?_, ?_⟩ <;> rw [hini]
  exact id

theorem SameSettings.trans (hfirst : SameSettings minIni channel node node')
    (hsecond : SameSettings minIni channel node' node'') :
    SameSettings minIni channel node node'' :=
  ⟨hsecond.table.trans hfirst.table,
    fun entry hentry => (hsecond.entries entry hentry).trans (hfirst.entries entry hentry),
    hsecond.recev ∘ hfirst.recev⟩

theorem friendNumberValid_fin (sender : Fin maxFriendNum) :
    friendNumberValid ((sender : ℕ) : ℤ) := by
  have hlt := sender.isLt
  exact ⟨Int.natCast_nonneg _, by omega⟩

theorem friendNumber_natAbs {channel : ℤ} (hchannel : friendNumberValid channel) :
    channel.natAbs < 10 ^ 10 := by
  obtain ⟨hlow, hhigh⟩ := hchannel
  rw [maxFriendNum] at hhigh
  omega

end

section

variable {access : IniAccess} (hworks : access.Works)

include hworks

theorem relayRememberSerial_same (channel : ℕ) (node : Node (Option CStr)) {sender sn : ℤ}
    (hsender : friendNumberValid sender) (hsn : tgSnValid sn) :
    SameSettings (iniStore access) channel node
      (relayRememberSerial (iniStore access) node sender sn) := by
  have hnumber := numberText_formatInt hsn
  have hget (entry : ContactEntry) : entryText (iniStore access)
      (relayRememberSerial (iniStore access) node sender sn).ini entry channel = _ :=
    entryText_puts hworks .recev entry channel (friendNumber_natAbs hsender) hnumber
      node.ini
  refine ⟨rfl, fun entry hentry => ?_, fun hbefore => ?_⟩
  · rw [hget, if_neg fun hsame => hentry hsame.1]
  · rw [hget]
    split
    · exact hnumber.length_pos
    · exact hbefore

theorem relayInit_keeps (channel : ℕ) (node : Node (Option CStr)) (io : SqliteResult)
    (self : CStr) {sender : ℤ} (hsender : friendNumberValid sender) :
    (relayInit (iniStore access) io self).Keeps sender
      (SameSettings (iniStore access) channel node) where
  store := by
    rintro _ hstore ctx sn timestamp from' body hctx
    obtain rfl := Option.some.inj hstore
    exact hctx.trans (.of_ini rfl rfl)
  enqueue := by
    rintro _ henqueue ctx destination payload now hctx
    obtain rfl := Option.some.inj henqueue
    exact hctx.trans (.of_ini rfl rfl)
  remember := by
    rintro _ hremember ctx sn hsn hctx
    obtain rfl := Option.some.inj hremember
    exact hctx.trans (relayRememberSerial_same hworks channel ctx hsender hsn)

/-- A message leaves the entries of every contact alone, except for the sign of the protocol. -/
theorem handleMessage_settings (channel : ℕ) (s : Relayer (Option CStr)) (m : IncomingMessage)
    (sender : Fin maxFriendNum) :
    (handleMessage (iniStore access) s m sender).handling ≠ .metacom ∧
        SameSettings (iniStore access) channel s.relay.ctx
          (handleMessage (iniStore access) s m sender).state.relay.ctx ∨
      (handleMessage (iniStore access) s m sender).handling = .metacom ∧
        (handleMessage (iniStore access) s m sender).state.relay.ctx =
          setMetaChatFlag (iniStore access) s.relay.ctx sender := by
  rw [handleMessage]
  dsimp only
  split
  · split
    · exact .inr ⟨rfl, rfl⟩
    · exact .inl ⟨nofun, .of_ini rfl rfl⟩
  · split
    · exact .inl ⟨nofun, .of_ini rfl rfl⟩
    · refine .inl ⟨nofun, ?_⟩
      have hsender := friendNumberValid_fin sender
      exact relayReceive_keeps (relayInit_keeps hworks channel s.relay.ctx m.io _ hsender)
        s.relay _ _ (.of_ini rfl rfl)

theorem cbFriendMessage_settings (channel : ℕ) (s : Relayer (Option CStr)) (m : IncomingMessage) :
    (cbFriendMessage (iniStore access) s m).handling ≠ .metacom ∧
        SameSettings (iniStore access) channel s.relay.ctx
          (cbFriendMessage (iniStore access) s m).state.relay.ctx ∨
      (cbFriendMessage (iniStore access) s m).handling = .metacom ∧
        m.friendnumber.toNat < maxFriendNum ∧
        (cbFriendMessage (iniStore access) s m).state.relay.ctx =
          setMetaChatFlag (iniStore access) s.relay.ctx m.friendnumber.toNat := by
  rw [cbFriendMessage]
  split
  · exact .inl ⟨nofun, .of_ini rfl rfl⟩
  · split
    · rename_i hvalid
      split
      · exact .inl ⟨nofun, .of_ini rfl rfl⟩
      · rename_i publicKey hkey
        dsimp only
        split
        · exact .inl ⟨nofun, .of_ini rfl rfl⟩
        · rcases handleMessage_settings hworks channel
              { s with
                blockedkeys := (fileContainsKey m.blocklist publicKey s.blockedkeys).2
                preFriendnumber := ⟨m.friendnumber.toNat, hvalid⟩ }
              m ⟨m.friendnumber.toNat, hvalid⟩ with hsame | ⟨hmetacom, hctx⟩
          · exact .inl hsame
          · exact .inr ⟨hmetacom, hvalid, hctx⟩
    · exact .inl ⟨nofun, .of_ini rfl rfl⟩

/-- The sign of the protocol touches one flag only. -/
theorem setMetaChatFlag_entryText (entry : ContactEntry) (channel : ℕ)
    (node : Node (Option CStr)) {sender : ℕ} (hsender : sender < maxFriendNum) :
    entryText (iniStore access) (setMetaChatFlag (iniStore access) node sender).ini entry channel =
      if entry = .flag ∧ channel = sender then .ofBuffer (bytes "1")
      else entryText (iniStore access) node.ini entry channel := by
  have hvalid : friendNumberValid ((sender : ℕ) : ℤ) := ⟨Int.natCast_nonneg _, by omega⟩
  have hput := entryText_puts hworks .flag entry channel (friendNumber_natAbs hvalid)
    numberText_one node.ini
  simp only [Nat.cast_inj] at hput
  exact hput

/-- A line typed at the console saves the serial it takes. -/
theorem consoleSend_entryText (entry : ContactEntry) (channel : ℕ) (node : Node (Option CStr))
    (preFriendnumber : Fin maxFriendNum) (cmBuffer : CStr) (curTime : Int64) (io : SqliteResult) :
    entryText (iniStore access)
        (consoleSend (iniStore access) io node preFriendnumber cmBuffer curTime).node.ini entry
        channel =
      if entry = .send ∧ channel = preFriendnumber then
        .ofBuffer (formatInt 4 (tgSnNext (node.relayNameList preFriendnumber).sendSn))
      else entryText (iniStore access) node.ini entry channel := by
  have hini : (consoleSend (iniStore access) io node preFriendnumber cmBuffer curTime).node.ini =
      (iniStore access).puts node.ini (bytes "outgoing_sn")
        (bytes "send" ++ formatInt 3 (preFriendnumber : ℕ))
        (formatInt 4 (tgSnNext (node.relayNameList preFriendnumber).sendSn)) := by
    rw [consoleSend]
    dsimp only
    split <;> rfl
  have hvalid := friendNumberValid_fin preFriendnumber
  have hput := entryText_puts hworks .send entry channel (friendNumber_natAbs hvalid)
    (numberText_formatInt (tgSnNext_valid (node.relayNameList preFriendnumber).sendSn)) node.ini
  simp only [Nat.cast_inj] at hput
  rw [hini]
  exact hput

end

/-! ## A small run -/

/-- A node before it has any settings. -/
def firstRelayer : Relayer (Option CStr) where
  relay := ⟨nodeAtStart none mqInit msgDatabaseOpened, fun _ => snTrackerInit tgSnMin⟩
  bot := smallBot
  blockedkeys := none
  preFriendnumber := consoleContact

def signOfContact : IncomingMessage where
  friendnumber := 0
  isNormal := true
  string := bytes "/HELLO-0001  07070707  METACOM"
  tox := smallAnswers
  blocklist := ⟨true, true, true, true⟩
  io := .ok
  now := 1700000000

namespace SettingsRun

/-- The settings have the serial of the table, both for a table that is filled again and for one
that starts empty, and it is the last of the serials taken. -/
structure SerialSaved (minIni : MinIni (Option CStr)) (channel : ℕ) (first : ℤ)
    (s : SettingsRun (Option CStr)) : Prop where
  again : loadedSn minIni s.node.ini channel (s.sendSn channel) = s.sendSn channel
  fresh : loadedSn minIni s.node.ini channel 0 = s.sendSn channel
  chain : (first :: s.serials channel).IsChain fun sn later => later = tgSnNext sn
  last : (s.serials channel).getLast?.getD first = s.sendSn channel

section

variable {minIni : MinIni (Option CStr)} {channel : ℕ} {first : ℤ}
  {s s' : SettingsRun (Option CStr)}

/-- Without a new serial nothing but the two readings is to be seen again. -/
theorem SerialSaved.of_same (hs : s.SerialSaved minIni channel first)
    (hserials : s'.serials channel = s.serials channel)
    (htext : entryText minIni s'.node.ini .send channel = entryText minIni s.node.ini .send channel)
    (hsn : s'.sendSn channel = s.sendSn channel) : s'.SerialSaved minIni channel first := by
  have hloaded (old : ℤ) : loadedSn minIni s'.node.ini channel old =
      loadedSn minIni s.node.ini channel old := by
    rw [loadedSn, loadedSn, htext]
  refine ⟨?_, ?_, ?_, ?_⟩
  · rw [hloaded, hsn]
    exact hs.again
  · rw [hloaded, hsn]
    exact hs.fresh
  · rw [hserials]
    exact hs.chain
  · rw [hserials, hsn]
    exact hs.last

theorem SerialSaved.of_sameSettings (hs : s.SerialSaved minIni channel first)
    (hsent : s'.sent = s.sent) (hsame : SameSettings minIni channel s.node s'.node) :
    s'.SerialSaved minIni channel first :=
  hs.of_same (by rw [serials, serials, hsent]) (hsame.entries .send nofun)
    (by rw [sendSn, sendSn, hsame.table])

/-- A serial that is written is the one that is loaded. -/
theorem loadedSn_of_entryText {ini : Option CStr} {sn : ℤ} (hsn : tgSnValid sn)
    (htext : entryText minIni ini .send channel = .ofBuffer (formatInt 4 sn)) (old : ℤ) :
    loadedSn minIni ini channel old = sn := by
  have hnumber := numberText_formatInt hsn
  rw [loadedSn, htext, if_neg (not_lt.mpr hnumber.length_pos),
    parseIntRange_formatInt (by decide) (by decide) hsn.1 hsn.2 hnumber.ofBuffer_val,
    Option.getD_some]

/-- The serial after the last one is taken and saved. -/
theorem SerialSaved.taken (hs : s.SerialSaved minIni channel first)
    (hserials : s'.serials channel = s.serials channel ++ [tgSnNext (s.sendSn channel)])
    (htext : entryText minIni s'.node.ini .send channel =
      .ofBuffer (formatInt 4 (tgSnNext (s.sendSn channel))))
    (hsn : s'.sendSn channel = tgSnNext (s.sendSn channel)) :
    s'.SerialSaved minIni channel first := by
  have hloaded := loadedSn_of_entryText (tgSnNext_valid _) htext
  refine ⟨by rw [hsn, hloaded], by rw [hsn, hloaded], ?_, ?_⟩
  · rw [hserials, ← List.cons_append, List.isChain_append]
    refine ⟨hs.chain, List.isChain_singleton _, ?_⟩
    intro sn hlast later hlater
    obtain rfl : tgSnNext (s.sendSn channel) = later := by simpa using hlater
    rw [List.getLast?_cons, Option.mem_some, hs.last] at hlast
    rw [hlast]
  · rw [hserials, List.getLast?_concat, hsn]
    rfl

/-- Filling the table again reads the serial it has. -/
theorem SerialSaved.contacts (hs : s.SerialSaved minIni channel first) (tox : ToxHandle) :
    (s.step minIni (.contacts tox)).SerialSaved minIni channel first := by
  have hini : (s.step minIni (.contacts tox)).node.ini = s.node.ini := getRelayNameList_ini s.node
  refine hs.of_same rfl (by rw [hini]) ?_
  rcases getRelayNameList_apply s.node with ⟨hsame, -⟩ | hentry
  · exact congrArg RelayName.sendSn hsame
  · calc (s.step minIni (.contacts tox)).sendSn channel =
          (relayNameEntry minIni s.node.ini tox channel (s.node.relayNameList channel)).sendSn :=
          congrArg RelayName.sendSn hentry
      _ = loadedSn minIni s.node.ini channel (s.sendSn channel) := relayNameEntry_sendSn
      _ = s.sendSn channel := hs.again

/-- A table that starts empty gets the serial from the settings. -/
theorem start_sendSn (minIni : MinIni (Option CStr)) (s : Relayer (Option CStr)) {tox : ToxHandle}
    (hlists : tox.Lists channel) (queue : Mq) (ready : Bool) (io : SqliteResult) (bot : Bot) :
    (start minIni s tox queue ready io bot).node.ini = s.relay.ctx.ini ∧
      (start minIni s tox queue ready io bot).sendSn channel =
        loadedSn minIni s.relay.ctx.ini channel 0 := by
  refine ⟨getRelayNameList_ini _, ?_⟩
  rw [sendSn, start, Relayer.restart, node, relayStart]
  rcases getRelayNameList_apply (nodeAtStart s.relay.ctx.ini queue
    { s.relay.ctx.db with ready := ready }) with ⟨-, hunlisted⟩ | hentry
  · exact absurd hlists hunlisted
  · rw [hentry]
    exact relayNameEntry_sendSn

theorem SerialSaved.restart (hs : s.SerialSaved minIni channel first) {tox : ToxHandle}
    (hlists : tox.Lists channel) (queue : Mq) (ready : Bool) (io : SqliteResult) (bot : Bot) :
    (s.step minIni (.restart tox queue ready io bot)).SerialSaved minIni channel first := by
  obtain ⟨hini, hsn⟩ := start_sendSn minIni s.relayer hlists queue ready io bot
  refine hs.of_same rfl ?_ (hsn.trans hs.fresh)
  exact congrArg (fun ini => entryText minIni ini .send channel) hini

end

section

variable {access : IniAccess} (hworks : access.Works) {channel : ℕ} {first : ℤ}
  {s : SettingsRun (Option CStr)}

include hworks

theorem SerialSaved.message (hs : s.SerialSaved (iniStore access) channel first)
    (m : IncomingMessage) :
    (s.step (iniStore access) (.message m)).SerialSaved (iniStore access) channel first := by
  rcases cbFriendMessage_settings hworks channel s.relayer m with
    ⟨-, hsame⟩ | ⟨-, hsender, hctx⟩
  · exact hs.of_sameSettings rfl hsame
  · have hnode : (s.step (iniStore access) (.message m)).node =
        setMetaChatFlag (iniStore access) s.node m.friendnumber.toNat := hctx
    refine hs.of_same rfl ?_ ?_
    · rw [hnode, setMetaChatFlag_entryText hworks .send channel s.node hsender,
        if_neg fun hsame => nomatch hsame.1]
    · rw [sendSn, sendSn, hnode, setMetaChatFlag]
      dsimp only
      by_cases hchannel : channel = m.friendnumber.toNat
      · rw [hchannel, Function.update_self]
      · rw [Function.update_of_ne hchannel]

theorem SerialSaved.line (hs : s.SerialSaved (iniStore access) channel first) (cmBuffer : CStr)
    (curTime : Int64) (io : SqliteResult) :
    (s.step (iniStore access) (.line cmBuffer curTime io)).SerialSaved (iniStore access) channel
      first := by
  have htext : entryText (iniStore access)
      (s.step (iniStore access) (.line cmBuffer curTime io)).node.ini .send channel = _ :=
    consoleSend_entryText hworks .send channel s.node s.relayer.preFriendnumber cmBuffer
      curTime io
  by_cases hchannel : channel = s.relayer.preFriendnumber
  · rw [if_pos ⟨rfl, hchannel⟩] at htext
    subst hchannel
    have hsn : (s.step (iniStore access) (.line cmBuffer curTime io)).sendSn
        s.relayer.preFriendnumber = tgSnNext (s.sendSn s.relayer.preFriendnumber) :=
      consoleSend_sendSn
    refine hs.taken ?_ htext hsn
    rw [← hsn, serials, serials]
    simp [step, SettingsRun.sendSn, SettingsRun.node, Relayer.withNode]
  · rw [if_neg fun hsame => hchannel hsame.2] at htext
    refine hs.of_same ?_ htext (consoleSend_sendSn_of_ne hchannel)
    rw [serials, serials]
    simp [step, Ne.symm hchannel]

theorem SerialSaved.step (hs : s.SerialSaved (iniStore access) channel first)
    {event : SettingsEvent} (hevent : event.Keeps channel) :
    (s.step (iniStore access) event).SerialSaved (iniStore access) channel first := by
  cases event with
  | message m => exact hs.message hworks m
  | line cmBuffer curTime io => exact hs.line hworks cmBuffer curTime io
  | turnTo index => exact hs.of_same rfl rfl rfl
  | relayKey token =>
      have htoken : KeptToken token := hevent
      have htext := entryText_relayKey hworks .send channel htoken s.node.ini
      refine hs.of_same ?_ htext ?_
      · rw [SettingsRun.step, serials, serials]
      · rw [SettingsRun.step, sendSn, sendSn, node, Relayer.withNode, setRelayerPublicKey]
  | contacts tox => exact hs.contacts tox
  | elsewhere queue bot => exact hs.of_same rfl rfl rfl
  | restart tox queue ready io bot => exact hs.restart hevent queue ready io bot

end

/-- The settings have the flag of the table, and it is set for the contacts that had it first and
those that sent the sign of the protocol. -/
structure FlagSaved (minIni : MinIni (Option CStr)) (channel : ℕ) (first : Bool)
    (s : SettingsRun (Option CStr)) : Prop where
  serials : HasSerials minIni s.node.ini channel
  loaded : loadedFlag minIni s.node.ini channel = s.metaChatFlag channel
  marked : s.metaChatFlag channel = true ↔ first = true ∨ channel ∈ s.marked

section

variable {minIni : MinIni (Option CStr)} {channel : ℕ} {first : Bool}
  {s s' : SettingsRun (Option CStr)}

theorem FlagSaved.of_same (hs : s.FlagSaved minIni channel first) (hmarked : s'.marked = s.marked)
    (hserials : HasSerials minIni s'.node.ini channel)
    (htext : entryText minIni s'.node.ini .flag channel = entryText minIni s.node.ini .flag channel)
    (hflag : s'.metaChatFlag channel = s.metaChatFlag channel) :
    s'.FlagSaved minIni channel first := by
  refine ⟨hserials, ?_, ?_⟩
  · rw [hflag, ← hs.loaded, loadedFlag, loadedFlag, htext]
  · rw [hflag, hmarked]
    exact hs.marked

theorem FlagSaved.of_sameSettings (hs : s.FlagSaved minIni channel first)
    (hmarked : s'.marked = s.marked) (hsame : SameSettings minIni channel s.node s'.node) :
    s'.FlagSaved minIni channel first := by
  refine hs.of_same hmarked ⟨?_, hsame.recev hs.serials.recev⟩ (hsame.entries .flag nofun) ?_
  · rw [hsame.entries .send nofun]
    exact hs.serials.send
  · rw [metaChatFlag, metaChatFlag, hsame.table]

theorem FlagSaved.contacts (hs : s.FlagSaved minIni channel first) (tox : ToxHandle) :
    (s.step minIni (.contacts tox)).FlagSaved minIni channel first := by
  have hini : (s.step minIni (.contacts tox)).node.ini = s.node.ini := getRelayNameList_ini s.node
  refine hs.of_same rfl (by rw [hini]; exact hs.serials) (by rw [hini]) ?_
  rcases getRelayNameList_apply s.node with ⟨hsame, -⟩ | hentry
  · exact congrArg RelayName.metaChatFlag hsame
  · calc (s.step minIni (.contacts tox)).metaChatFlag channel =
          (relayNameEntry minIni s.node.ini tox channel
            (s.node.relayNameList channel)).metaChatFlag := congrArg RelayName.metaChatFlag hentry
      _ = loadedFlag minIni s.node.ini channel := relayNameEntry_metaChatFlag hs.serials
      _ = s.metaChatFlag channel := hs.loaded

theorem start_metaChatFlag (minIni : MinIni (Option CStr)) (s : Relayer (Option CStr))
    (hserials : HasSerials minIni s.relay.ctx.ini channel) {tox : ToxHandle}
    (hlists : tox.Lists channel) (queue : Mq) (ready : Bool) (io : SqliteResult) (bot : Bot) :
    (start minIni s tox queue ready io bot).metaChatFlag channel =
      loadedFlag minIni s.relay.ctx.ini channel := by
  rw [metaChatFlag, start, Relayer.restart, node, relayStart]
  rcases getRelayNameList_apply (nodeAtStart s.relay.ctx.ini queue
    { s.relay.ctx.db with ready := ready }) with ⟨-, hunlisted⟩ | hentry
  · exact absurd hlists hunlisted
  · rw [hentry]
    exact relayNameEntry_metaChatFlag hserials

theorem FlagSaved.restart (hs : s.FlagSaved minIni channel first) {tox : ToxHandle}
    (hlists : tox.Lists channel) (queue : Mq) (ready : Bool) (io : SqliteResult) (bot : Bot) :
    (s.step minIni (.restart tox queue ready io bot)).FlagSaved minIni channel first := by
  have hini := (start_sendSn minIni s.relayer hlists queue ready io bot).1
  have hflag := start_metaChatFlag minIni s.relayer hs.serials hlists queue ready io bot
  refine hs.of_same rfl ?_ ?_ (hflag.trans hs.loaded)
  · exact hini.symm ▸ hs.serials
  · exact congrArg (fun ini => entryText minIni ini .flag channel) hini

end

section

variable {access : IniAccess} (hworks : access.Works) {channel : ℕ} {first : Bool}
  {s : SettingsRun (Option CStr)}

include hworks

theorem FlagSaved.message (hs : s.FlagSaved (iniStore access) channel first)
    (m : IncomingMessage) :
    (s.step (iniStore access) (.message m)).FlagSaved (iniStore access) channel first := by
  rcases cbFriendMessage_settings hworks channel s.relayer m with
    ⟨hhandling, hsame⟩ | ⟨hhandling, hsender, hctx⟩
  · refine hs.of_sameSettings ?_ hsame
    rw [SettingsRun.step]
    dsimp only
    split
    · rename_i hmetacom
      exact absurd hmetacom hhandling
    · rfl
  · have hmarked : (s.step (iniStore access) (.message m)).marked =
        s.marked ++ [m.friendnumber.toNat] := by
      rw [SettingsRun.step]
      dsimp only
      rw [hhandling]
    have hnode : (s.step (iniStore access) (.message m)).node =
        setMetaChatFlag (iniStore access) s.node m.friendnumber.toNat := hctx
    have htext (entry : ContactEntry) :=
      setMetaChatFlag_entryText hworks entry channel s.node hsender
    rw [← hnode] at htext
    have hserials : HasSerials (iniStore access) (s.step (iniStore access) (.message m)).node.ini
        channel := by
      refine ⟨?_, ?_⟩
      · rw [htext .send, if_neg fun hsame => nomatch hsame.1]
        exact hs.serials.send
      · rw [htext .recev, if_neg fun hsame => nomatch hsame.1]
        exact hs.serials.recev
    have hflag : (s.step (iniStore access) (.message m)).metaChatFlag channel =
        if channel = m.friendnumber.toNat then true else s.metaChatFlag channel := by
      rw [metaChatFlag, hnode, setMetaChatFlag]
      dsimp only
      split
      · rename_i hchannel
        rw [hchannel, Function.update_self]
      · rename_i hchannel
        rw [Function.update_of_ne hchannel]
        rfl
    refine ⟨hserials, ?_, ?_⟩
    · have hread := htext .flag
      by_cases hchannel : channel = m.friendnumber.toNat
      · rw [if_pos ⟨rfl, hchannel⟩] at hread
        rw [hflag, if_pos hchannel, loadedFlag, hread]
        decide
      · rw [if_neg fun hsame => hchannel hsame.2] at hread
        rw [hflag, if_neg hchannel, ← hs.loaded, loadedFlag, loadedFlag, hread]
    · rw [hflag, hmarked, List.mem_append, List.mem_singleton]
      by_cases hchannel : channel = m.friendnumber.toNat
      · rw [if_pos hchannel]
        exact iff_of_true rfl (.inr (.inr hchannel))
      · rw [if_neg hchannel, or_iff_left hchannel]
        exact hs.marked

theorem FlagSaved.line (hs : s.FlagSaved (iniStore access) channel first) (cmBuffer : CStr)
    (curTime : Int64) (io : SqliteResult) :
    (s.step (iniStore access) (.line cmBuffer curTime io)).FlagSaved (iniStore access) channel
      first := by
  have htext (entry : ContactEntry) : entryText (iniStore access)
      (s.step (iniStore access) (.line cmBuffer curTime io)).node.ini entry channel = _ :=
    consoleSend_entryText hworks entry channel s.node s.relayer.preFriendnumber cmBuffer
      curTime io
  refine hs.of_same rfl ⟨?_, ?_⟩ ?_ (consoleSend_metaChatFlag channel)
  · rw [htext .send]
    split
    · exact (numberText_formatInt (tgSnNext_valid _)).length_pos
    · exact hs.serials.send
  · rw [htext .recev, if_neg fun hsame => nomatch hsame.1]
    exact hs.serials.recev
  · rw [htext .flag, if_neg fun hsame => nomatch hsame.1]

theorem FlagSaved.step (hs : s.FlagSaved (iniStore access) channel first)
    {event : SettingsEvent} (hevent : event.Keeps channel) :
    (s.step (iniStore access) event).FlagSaved (iniStore access) channel first := by
  cases event with
  | message m => exact hs.message hworks m
  | line cmBuffer curTime io => exact hs.line hworks cmBuffer curTime io
  | turnTo index => exact hs.of_same rfl hs.serials rfl rfl
  | relayKey token =>
      have htoken : KeptToken token := hevent
      have htext (entry : ContactEntry) :=
        entryText_relayKey hworks entry channel htoken s.node.ini
      refine hs.of_same ?_ ⟨?_, ?_⟩ (htext .flag) ?_
      · rw [SettingsRun.step]
      · exact (htext .send).symm ▸ hs.serials.send
      · exact (htext .recev).symm ▸ hs.serials.recev
      · rw [SettingsRun.step, metaChatFlag, metaChatFlag, node, Relayer.withNode,
          setRelayerPublicKey]
  | contacts tox => exact hs.contacts tox
  | elsewhere queue bot => exact hs.of_same rfl hs.serials rfl rfl
  | restart tox queue ready io bot => exact hs.restart hevent queue ready io bot

end

end SettingsRun

end ToxRelayer
