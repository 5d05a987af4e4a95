import ToxRelayer.Relay
import ToxRelayer.MsgDatabase
import ToxRelayer.MsgQueue

/-!
# The node around the policy

What `toxrelayer.c` puts into the relay environment: the contact table and the
node's own key as `get_relay_name_list` fills them, and the callbacks that
`relay_init` installs.  toxcore and the INI file are arguments.
-/

namespace ToxRelayer

open CString

def maxFriendNum : ℕ := 4096
def mqCapacity : ℕ := 4048

/-! ## Keys as text -/

/-- A digit of the conversion `%02X`. -/
def hexDigit (d : ℕ) : UInt8 := UInt8.ofNat (if d < 10 then 48 + d else 55 + d)

def hexByte (b : UInt8) : Bytes := [hexDigit (b.toNat / 16), hexDigit (b.toNat % 16)]

theorem hexDigit_ne_zero {d : ℕ} (hd : d < 16) : hexDigit d ≠ 0 := by
  interval_cases d <;> decide

/-- The loop that appends every byte of a key to a string. -/
def hexString (key : Bytes) : CStr where
  val := key.flatMap hexByte
  nulFree := by
    intro hmem
    obtain ⟨b, -, hb⟩ := List.mem_flatMap.mp hmem
    have hlow : b.toNat % 16 < 16 := Nat.mod_lt _ (by decide)
    have hhigh : b.toNat / 16 < 16 := by
      have hbyte := b.toNat_lt
      omega
    rcases List.mem_cons.mp hb with hzero | htail
    · exact hexDigit_ne_zero hhigh hzero.symm
    · exact hexDigit_ne_zero hlow (List.mem_singleton.mp htail).symm

theorem hexString_length (key : Bytes) : (hexString key).length = 2 * key.length := by
  simp only [hexString, CStr.length]
  induction key with
  | nil => rfl
  | cons b key ih =>
      rw [List.flatMap_cons, List.length_append, ih, List.length_cons, hexByte]
      simp only [List.length_cons, List.length_nil]
      omega

/-! ## The INI file -/

/-- `minIni`: reading an entry into a buffer of the given size, the default
where there is none, and writing one.  `ini_gets` returns the length of what it
has put into the buffer. -/
structure MinIni (Ini : Type) where
  gets : Ini → Bytes → Bytes → Bytes → ℕ → CStr
  puts : Ini → Bytes → Bytes → Bytes → Ini

/-- The number at the head of a text as `strtol` reads it does not fit a
`long`, so that `errno` is `ERANGE`. -/
def strtolOutOfRange (text : Bytes) : Bool :=
  let signed := splitSign (text.dropWhile isSpace)
  match readDigits signed.2 with
  | none => false
  | some (value, _) => if signed.1 then 2 ^ 63 < value else 2 ^ 63 ≤ value

/-- `parse_int_range`; `none` is `false`. -/
def parseIntRange (text : CStr) (min max : ℤ) : Option ℤ :=
  match text.val with
  | [] => none
  | b :: rest =>
      if isSpace b then none
      else
        match strtol (b :: rest) with
        | some (value, []) =>
            if strtolOutOfRange (b :: rest) then none
            else if value.toInt < min ∨ max < value.toInt then none
            else some value.toInt
        | _ => none

/-! ## The contact table -/

structure RelayName where
  friendNumber : ℕ
  publicKeyStr : CStr
  lineConnect : Bool
  metaChatFlag : Bool
  sendSn : ℤ
  receiveSn : ℤ

/-- The global state the relay environment works on. -/
structure Node (Ini : Type) where
  relayNameList : ℕ → RelayName
  selfPublicKeyStr : CStr
  relayNumber : ℤ
  queue : Mq
  db : MsgDatabase
  ini : Ini

/-- What toxcore says about the node itself and about its friends. -/
structure ToxHandle where
  friendListSize : ℕ
  friendPublicKey : ℕ → Vector UInt8 32
  selfAddress : Vector UInt8 38

/-- The default of `relay_public_key` -/
def relayPublicKeyDefault : Bytes :=
  bytes "6803B6738011AF6CEB44BC5AF0F62BFD2C99BEA32F19D8C1663164A46272465C67C517BA4E3E"

section

variable {Ini : Type} (minIni : MinIni Ini)

/-- The slot of the table whose key occurs in the given string; the scan goes
over all slots, the empty ones included. -/
def lookupChNum (relayNameList : ℕ → RelayName) (publicKey : Bytes) : ℤ :=
  match (List.range maxFriendNum).find? fun i =>
      (strstr (relayNameList i).publicKeyStr.val publicKey).isSome with
  | some i => i
  | none => -1

/-- One round of the contact loop: the key is stored first, then the two
serials and the flag, as far as the INI file yields an entry. -/
def relayNameEntry (ini : Ini) (tox : ToxHandle) (i : ℕ) (old : RelayName) : RelayName :=
  let entry := { old with
    friendNumber := i
    publicKeyStr := hexString (tox.friendPublicKey i).toList
    metaChatFlag := false
    lineConnect := false }
  let send := minIni.gets ini (bytes "outgoing_sn") (bytes "send" ++ formatInt 3 i)
    (bytes "1") 128
  if send.length < 1 then entry
  else
    let entry := { entry with sendSn := (parseIntRange send tgSnMin tgSnMax).getD tgSnMin }
    let recev := minIni.gets ini (bytes "incoming_sn") (bytes "recev" ++ formatInt 3 i)
      (bytes "1") 128
    if recev.length < 1 then entry
    else
      let entry := { entry with
        receiveSn := (parseIntRange recev tgSnMin tgSnMax).getD tgSnMin }
      let flag := minIni.gets ini (bytes "meta_chat_flag") (bytes "meta" ++ formatInt 3 i)
        (bytes "0") 128
      if flag.length < 1 then entry
      else { entry with metaChatFlag := (parseIntRange flag 0 1).getD 0 ≠ 0 }

def relayNameLoop (ini : Ini) (tox : ToxHandle) (rounds : ℕ)
    (relayNameList : ℕ → RelayName) : ℕ → RelayName :=
  (List.range rounds).foldl (fun list i =>
    Function.update list i (relayNameEntry minIni ini tox i (list i))) relayNameList

def getRelayNameList (tox : ToxHandle) (node : Node Ini) : Node Ini :=
  if maxFriendNum < tox.friendListSize then node
  else
    let list := relayNameLoop minIni node.ini tox tox.friendListSize node.relayNameList
    let relayKey := minIni.gets node.ini (bytes "metaCom_Relayer") (bytes "relay_public_key")
      relayPublicKeyDefault 128
    { node with
      relayNameList := list
      selfPublicKeyStr := hexString tox.selfAddress.toList
      relayNumber := if relayKey.length < 1 then 0 else lookupChNum list relayKey.val }

/-! ## The callbacks -/

def friendNumberValid (channel : ℤ) : Prop := 0 ≤ channel ∧ channel < maxFriendNum

instance (channel : ℤ) : Decidable (friendNumberValid channel) :=
  inferInstanceAs (Decidable (_ ∧ _))

theorem incoming_nulFree : (0 : UInt8) ∉ bytes "incoming" := by decide

def incoming : CStr := ⟨bytes "incoming", incoming_nulFree⟩

def outgoing : CStr := ⟨bytes "outgoing", by decide⟩

def relayResolvePeer (node : Node Ini) (publicKeyHex : CStr) : ℤ :=
  lookupChNum node.relayNameList publicKeyHex.val

def relayPeerKey (node : Node Ini) (channel : ℤ) : Option CStr :=
  if friendNumberValid channel then
    some (node.relayNameList channel.toNat).publicKeyStr
  else none

def relayPeerIsMetacom (node : Node Ini) (channel : ℤ) : Bool :=
  friendNumberValid channel ∧ (node.relayNameList channel.toNat).metaChatFlag = true

/-- A pointer into `recv_tracker` -/
def relayTracker (_ : Node Ini) (channel : ℤ) : Option ℕ :=
  if friendNumberValid channel then some channel.toNat else none

def relayChannelKnown (node : Node Ini) (channel : ℤ) : Bool :=
  friendNumberValid channel ∧ (node.relayNameList channel.toNat).publicKeyStr.val ≠ []

def relayStoreAdd (io : SqliteResult) (node : Node Ini) (channel sn : ℤ) (timestamp : Int64)
    (sender body : CStr) : ℤ × Node Ini :=
  let added := msgDatabaseAdd io node.db channel sn timestamp (some sender) (some incoming)
    (some body)
  (added.1, { node with db := added.2 })

def relayEnqueue (node : Node Ini) (channel : ℤ) (payload : Bytes) (now : ℤ) :
    ℤ × Node Ini :=
  let queued := mqEnqueue mqCapacity node.queue channel (some payload) now
  (if queued.code = mqOk then 0 else -1, { node with queue := queued.queue })

def relayRecord (record : ChatMsgRecord) : RelayRecord where
  sn := record.msgSn
  timestamp := record.datetime
  body := copyBounded relayBodyMax record.message

def relayFetchRange (io : SqliteResult) (node : Node Ini) (channel start target : ℤ)
    (max : ℕ) : ℤ × List RelayRecord :=
  let fetched := msgDatabaseRange io node.db channel (some outgoing) start target
    (if max < relayMaxReplay then max else relayMaxReplay)
  if fetched.1 ≤ 0 then (fetched.1, [])
  else (fetched.1, fetched.2.map relayRecord)

def relayRememberSerial (node : Node Ini) (channel sn : ℤ) : Node Ini :=
  { node with
    ini := minIni.puts node.ini (bytes "incoming_sn") (bytes "recev" ++ formatInt 3 channel)
      (formatInt 4 sn) }

/-- The environment `relay_init` sets up, on a node whose own key is
`selfPublicKeyStr`; `io` is how SQLite ends the calls made from it. -/
def relayInit (io : SqliteResult) (selfPublicKeyStr : CStr) : RelayEnv (Node Ini) where
  selfPublicKey := some selfPublicKeyStr
  resolvePeer := some relayResolvePeer
  peerKey := some relayPeerKey
  peerIsMetacom := some relayPeerIsMetacom
  tracker := some relayTracker
  channelKnown := some relayChannelKnown
  store := some (relayStoreAdd io)
  enqueue := some relayEnqueue
  fetchRange := some (relayFetchRange io)
  rememberSerial := some (relayRememberSerial minIni)

/-- The adapter for `relay_recover_trackers` -/
def relayLastStoredSn (io : SqliteResult) (node : Node Ini) (channel : ℤ) : ℤ × ℤ :=
  let last := msgDatabaseLastSn io node.db channel (some incoming) 0
  (if last.1 = msgDbOk then 0 else -1, last.2)

/-! ## What the table holds -/

theorem relayNameLoop_apply (ini : Ini) (tox : ToxHandle) (rounds : ℕ)
    (relayNameList : ℕ → RelayName) (i : ℕ) :
    relayNameLoop minIni ini tox rounds relayNameList i =
      if i < rounds then relayNameEntry minIni ini tox i (relayNameList i)
      else relayNameList i := by
  induction rounds with
  | zero => rfl
  | succ rounds ih =>
      rw [relayNameLoop, List.range_succ, List.foldl_append, List.foldl_cons, List.foldl_nil,
        ← relayNameLoop]
      by_cases hlast : i = rounds
      · subst hlast
        rw [Function.update_self, ih, if_neg (lt_irrefl i), if_pos (Nat.lt_succ_self i)]
      · rw [Function.update_of_ne hlast, ih]
        by_cases hlt : i < rounds
        · rw [if_pos hlt, if_pos (by omega)]
        · rw [if_neg hlt, if_neg (by omega)]

@[simp] theorem relayNameEntry_publicKeyStr (ini : Ini) (tox : ToxHandle) (i : ℕ)
    (old : RelayName) :
    (relayNameEntry minIni ini tox i old).publicKeyStr =
      hexString (tox.friendPublicKey i).toList := by
  unfold relayNameEntry
  dsimp only
  split_ifs <;> rfl

end

/-! ## A small deployment -/

/-- An INI file that holds nothing. -/
def emptyIni : MinIni Unit where
  gets := fun _ _ _ default _ => CStr.ofBuffer default
  puts := fun ini _ _ _ => ini

/-- A table with one contact. -/
def oneContact : ℕ → RelayName := fun i =>
  if i = 0 then ⟨0, hexString (List.replicate 32 7), false, false, 1, 1⟩
  else ⟨0, .empty, false, false, 0, 0⟩

/-- A node that starts with this contact and the archive of its earlier runs. -/
def startedState (db : MsgDatabase) : RelayState (Node Unit) where
  ctx := ⟨oneContact, .empty, 0, mqInit, db, ()⟩
  trackers := fun _ => snTrackerInit tgSnMin

theorem startedState_db (db : MsgDatabase) : (startedState db).ctx.db = db := rfl

end ToxRelayer
