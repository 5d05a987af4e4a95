import ToxRelayer.AddressAgreement
import ToxRelayer.Commands
import ToxRelayer.ConsoleSend

/-!
# Messages from contacts

`cb_friend_message` over the whole node: a message from a contact is a sign of the
metaCom protocol, a command, a telegram or plain text.  What it may change of the
contact table and the settings is said once, for every handler.
-/

namespace ToxRelayer

open CString

/-- The state a message from a contact meets. -/
structure Relayer (Ini : Type) where
  relay : RelayState (Node Ini)
  bot : Bot
  blockedkeys : Option Bytes
  preFriendnumber : Fin maxFriendNum

/-- The arguments of the callback and what its calls are answered. -/
structure IncomingMessage where
  friendnumber : UInt32
  isNormal : Bool
  string : Bytes
  tox : ToxAnswers
  blocklist : FileAccess
  io : SqliteResult
  now : Int64

/-- What has become of a message. -/
inductive MessageHandling where
  | dropped
  | senderDeleted
  | metacom
  | command (code : ℤ) (calls : List ToxCall)
  | archived (code : ℤ)
  | received (outcome : RelayOutcome) (calls : List RelayCall)

structure MessageHandled (Ini : Type) where
  state : Relayer Ini
  handling : MessageHandling

section

variable {Ini : Type} (minIni : MinIni Ini)

/-- `copy_tox_str` into the buffer of the callback; the length is a `uint16_t`. -/
def copyToxStr (size : ℕ) (source : Bytes) : Bytes :=
  source.take (min (source.length % 2 ^ 16) (size - 1))

/-- The sign of the metaCom protocol. -/
def isHello (message : CStr) : Bool :=
  (strstr (bytes "/HELLO") message.val).isSome && (strstr (bytes "METACOM") message.val).isSome

/-- The flag of a contact is set, in the table and in the settings. -/
def setMetaChatFlag (node : Node Ini) (friendnumber : ℕ) : Node Ini :=
  { node with
    relayNameList := Function.update node.relayNameList friendnumber
      { node.relayNameList friendnumber with metaChatFlag := true }
    ini := minIni.puts node.ini (bytes "meta_chat_flag") (bytes "meta" ++ formatInt 3 friendnumber)
      (bytes "1") }

/-- A message of a contact that is neither unknown nor blocked. -/
def handleMessage (s : Relayer Ini) (m : IncomingMessage) (friendnumber : Fin maxFriendNum) :
    MessageHandled Ini :=
  let node := s.relay.ctx
  let copied := copyToxStr toxMaxMessageLength m.string
  let message := CStr.ofBuffer copied
  if message.val.head? = some slash then
    if isHello message then
      ⟨{ s with relay := { s.relay with ctx := setMetaChatFlag minIni node friendnumber } },
        .metacom⟩
    else
      let executed := execute m.tox s.bot m.friendnumber message copied.length
      let answer := if executed.1 = -1 then
          [.friendSendMessage m.friendnumber
            (bytes ">> Invalid command to server. Type help for a list of commands")]
        else []
      ⟨{ s with bot := executed.2.bot }, .command executed.1 (executed.2.calls ++ answer)⟩
  else if strstr (bytes "ZCZC") message.val = none then
    let added := msgDatabaseAdd m.io node.db (friendnumber : ℕ) 0 m.now
      (some (node.relayNameList friendnumber).publicKeyStr) (some incoming) (some message)
    ⟨{ s with relay := { s.relay with ctx := { node with db := added.2 } } }, .archived added.1⟩
  else
    let received := relayReceive (relayInit minIni m.io node.selfPublicKeyStr) s.relay
      (friendnumber : ℕ) message.val m.now.toInt
    ⟨{ s with relay := received.state }, .received received.outcome received.calls⟩

def cbFriendMessage (s : Relayer Ini) (m : IncomingMessage) : MessageHandled Ini :=
  if m.isNormal = false then ⟨s, .dropped⟩
  else if hvalid : m.friendnumber.toNat < maxFriendNum then
    match m.tox.friendPublicKey m.friendnumber with
    | none => ⟨s, .dropped⟩
    | some publicKey =>
        let listed := fileContainsKey m.blocklist publicKey s.blockedkeys
        if listed.1 = 1 then ⟨{ s with blockedkeys := listed.2 }, .senderDeleted⟩
        else
          handleMessage minIni
            { s with blockedkeys := listed.2, preFriendnumber := ⟨m.friendnumber.toNat, hvalid⟩ }
            m ⟨m.friendnumber.toNat, hvalid⟩
  else ⟨s, .dropped⟩

end

/-! ## What a telegram may change -/

section

variable {σ : Type} {env : RelayEnv σ} {P : σ → Prop}

/-- A property of the context that the callbacks of an environment keep, for one channel. -/
structure RelayEnv.Keeps (env : RelayEnv σ) (channel : ℤ) (P : σ → Prop) : Prop where
  store : ∀ store ∈ env.store, ∀ ctx sn timestamp sender body, P ctx →
    P (store ctx channel sn timestamp sender body).2
  enqueue : ∀ enqueue ∈ env.enqueue, ∀ ctx destination payload now, P ctx →
    P (enqueue ctx destination payload now).2
  remember : ∀ remember ∈ env.rememberSerial, ∀ ctx sn, tgSnValid sn → P ctx →
    P (remember ctx channel sn)

theorem relayRequestGap_keeps {channel : ℤ} (hkeeps : env.Keeps channel P) (s : RelayState σ)
    (start target now : ℤ) (hs : P s.ctx) :
    P (relayRequestGap env s channel start target now).state.ctx := by
  unfold relayRequestGap
  split
  · rename_i enqueue peerKey henqueue hpeerKey
    split
    · exact hs
    · dsimp only
      split
      · exact hs
      · exact hkeeps.enqueue enqueue henqueue _ _ _ _ hs
  · exact hs

theorem relayAccept_ctx (s : RelayState σ) (channel sn : ℤ) :
    (relayAccept env s channel sn).2.2.2.ctx = s.ctx := by
  unfold relayAccept
  split <;> rfl

theorem relayDeliver_keeps {channel : ℤ} (hkeeps : env.Keeps channel P) (s : RelayState σ)
    (tg : TgMessage) (hsn : tgSnValid tg.sn) (now : ℤ) (hs : P s.ctx) :
    P (relayDeliver env s channel tg now).state.ctx := by
  have haccepted : P (relayAccept env s channel tg.sn).2.2.2.ctx := by
    rw [relayAccept_ctx]
    exact hs
  have hstored : P (relayStore env (relayAccept env s channel tg.sn).2.2.2 channel tg).1.ctx := by
    unfold relayStore
    split
    · exact haccepted
    · rename_i store hstore
      exact hkeeps.store store hstore _ _ _ _ _ haccepted
  have hremembered : P (relayRemember env
      (relayStore env (relayAccept env s channel tg.sn).2.2.2 channel tg).1 channel
      tg.sn).1.ctx := by
    unfold relayRemember
    split
    · exact hstored
    · rename_i remember hremember
      exact hkeeps.remember remember hremember _ _ hsn hstored
  unfold relayDeliver
  dsimp only
  split
  · exact haccepted
  · split
    · exact relayRequestGap_keeps hkeeps _ _ _ _ hremembered
    · exact hremembered
    · exact hremembered
    · exact hremembered

theorem relayForward_keeps {channel : ℤ} (hkeeps : env.Keeps channel P) (s : RelayState σ)
    (raw : Bytes) (tg : TgMessage) (now : ℤ) (hs : P s.ctx) :
    P (relayForward env s channel raw tg now).state.ctx := by
  unfold relayForward
  split
  · rename_i resolvePeer enqueue hresolve henqueue
    dsimp only
    split
    · exact hs
    · exact hkeeps.enqueue enqueue henqueue _ _ _ _ hs
  · exact hs

theorem relayReplayLoop_keeps {channel : ℤ} (hkeeps : env.Keeps channel P)
    {enqueue : σ → ℤ → Bytes → ℤ → ℤ × σ} (henqueue : enqueue ∈ env.enqueue) (destination : ℤ)
    (peer : CStr) (self : Option CStr) (now : ℤ) (records : List RelayRecord) (ctx : σ)
    (hctx : P ctx) : P (relayReplayLoop enqueue destination peer self now records ctx).2.1 := by
  induction records generalizing ctx with
  | nil => exact hctx
  | cons record records ih =>
      rw [relayReplayLoop]
      dsimp only
      split
      · exact ih ctx hctx
      · exact ih _ (hkeeps.enqueue enqueue henqueue _ _ _ _ hctx)

theorem relayServeReplay_keeps {channel : ℤ} (hkeeps : env.Keeps channel P) (s : RelayState σ)
    (cmd : TgMessage) (now : ℤ) (hs : P s.ctx) :
    P (relayServeReplay env s channel cmd now).state.ctx := by
  unfold relayServeReplay
  split
  · rename_i fetchRange enqueue peerKey hfetch henqueue hpeer
    split
    · exact hs
    · dsimp only
      split
      · exact hs
      · exact relayReplayLoop_keeps hkeeps henqueue _ _ _ _ _ _ hs
  · exact hs

/-- What every callback keeps is kept by a whole telegram. -/
theorem relayReceive_keeps {channel : ℤ} (hkeeps : env.Keeps channel P) (s : RelayState σ)
    (raw : Bytes) (now : ℤ) (hs : P s.ctx) :
    P (relayReceive env s channel raw now).state.ctx := by
  unfold relayReceive
  split
  · exact hs
  · split
    · exact hs
    · split
      · exact hs
      · rename_i tg hdecode
        split
        · split
          · exact relayDeliver_keeps hkeeps s tg (tgDecode_header hdecode).2.2.1 now hs
          · exact relayForward_keeps hkeeps s raw tg now hs
        · split
          · exact hs
          · exact relayServeReplay_keeps hkeeps s tg now hs
        · exact hs

end

end ToxRelayer
