import ToxRelayer.ControlRoundTrip
import ToxRelayer.RelayNetwork
import ToxRelayer.SettingsRestart

/-!
# Telegrams and other messages

What `cb_friend_message` hands to the relay, and what becomes of the rest.  A telegram
reaches `relay_receive` byte for byte; no other message touches the trackers, the queue
or the serials, nor what a restart recovers of them.
-/

namespace ToxRelayer

open CString StepRun

/-! ## The text of a message -/

namespace IncomingMessage

/-- The message as the callback reads it. -/
def text (m : IncomingMessage) : CStr := CStr.ofBuffer (copyToxStr toxMaxMessageLength m.string)

def IsTelegram (m : IncomingMessage) : Prop :=
  m.text.val.head? ≠ some slash ∧ bytes "ZCZC" <:+: m.text.val

end IncomingMessage

theorem copyToxStr_of_short {source : Bytes} (hshort : source.length < toxMaxMessageLength) :
    copyToxStr toxMaxMessageLength source = source := by
  rw [toxMaxMessageLength] at hshort ⊢
  rw [copyToxStr, Nat.mod_eq_of_lt (by omega), Nat.min_eq_left (by omega), List.take_length]

theorem IncomingMessage.text_of_short {m : IncomingMessage} (hnul : (0 : UInt8) ∉ m.string)
    (hshort : m.string.length < toxMaxMessageLength) : m.text.val = m.string := by
  rw [text, copyToxStr_of_short hshort]
  exact CStr.ofBuffer_val_of_nulFree hnul

/-- A record of the encoders that fits into the buffer is a telegram. -/
theorem IncomingMessage.isTelegram_of_record {m : IncomingMessage}
    (hrecord : bytes "ZCZC" <+: m.string) (hnul : (0 : UInt8) ∉ m.string)
    (hshort : m.string.length < toxMaxMessageLength) : m.IsTelegram := by
  rw [IsTelegram, text_of_short hnul hshort]
  refine ⟨?_, hrecord.isInfix⟩
  obtain ⟨rest, hstring⟩ := hrecord
  have hfirst : m.string.head? = some 90 := by
    rw [← hstring]
    rfl
  rw [hfirst]
  decide

/-! ## Records -/

/-- A record of one of the encoders, whose buffers are of `int` size. -/
inductive EncodedRecord : Bytes → Prop
  | text {outSize : ℕ} (hint : outSize < 2 ^ 31) {receiver sender body : CStr} {sn : ℤ}
      {timestamp : Int64} (haccept : 0 <
        (tgEncodeText outSize (some receiver) (some sender) sn timestamp (some body)).code) :
      EncodedRecord
        (tgEncodeText outSize (some receiver) (some sender) sn timestamp (some body)).wire
  | cmd {outSize : ℕ} (hint : outSize < 2 ^ 31) {receiver sender : CStr} {start target : ℤ}
      (haccept : 0 < (tgEncodeCmd outSize (some receiver) (some sender) start target).code) :
      EncodedRecord (tgEncodeCmd outSize (some receiver) (some sender) start target).wire

theorem wire_of_fits {record : Bytes} (hfits : record.length < 2 ^ 31) :
    TgEncoded.wire ⟨intOfSize record.length, record⟩ = record := by
  have hlength : intOfSize record.length = record.length := Int.bmod_eq_of_le (by omega) (by omega)
  rw [TgEncoded.wire, hlength, Int.toNat_natCast, List.take_length]

theorem tgCmdRecord_nulFree (receiver sender : CStr) (start target : ℤ) :
    (0 : UInt8) ∉ tgCmdRecord receiver sender start target := by
  have hheader : (0 : UInt8) ∉ bytes "ZCZC CMD" := by decide
  have hterminator : (0 : UInt8) ∉ tgTerminator := by decide
  have hlf : (0 : UInt8) ≠ lf := by decide
  have hnumbers : (0 : UInt8) ∉ tgCmdMetaLine start target :=
    fun hmem => (tgCmdMetaLine_free hmem).2.2 rfl
  simp only [tgCmdRecord, List.mem_append, List.mem_cons, List.not_mem_nil, or_false, not_or]
  exact ⟨hheader, hlf, receiver.nulFree, hlf, sender.nulFree, hlf, hnumbers, hlf, hterminator,
    hlf⟩

theorem tgEncodeText_fits {outSize : ℕ} {receiver sender body : CStr} {sn : ℤ}
    {timestamp : Int64} (haccept : 0 <
      (tgEncodeText outSize (some receiver) (some sender) sn timestamp (some body)).code) :
    (tgTextRecord receiver sender sn timestamp body.val).length < outSize := by
  obtain ⟨hreceiver, hsender, hsn, hbody, -⟩ := tgEncodeText_accepted haccept
  have hsize : 0 < outSize := by
    by_contra hzero
    obtain rfl : outSize = 0 := by omega
    rw [tgEncodeText, if_pos rfl] at haccept
    exact absurd haccept (by decide)
  rw [tgEncodeText_eq hsize timestamp hreceiver hsender hsn hbody] at haccept
  split at haccept
  · assumption
  · exact absurd haccept (by decide)

theorem tgEncodeCmd_fits {outSize : ℕ} {receiver sender : CStr} {start target : ℤ}
    (haccept : 0 < (tgEncodeCmd outSize (some receiver) (some sender) start target).code) :
    (tgCmdRecord receiver sender start target).length < outSize := by
  obtain ⟨hreceiver, hsender, hstart, htarget, -⟩ := tgEncodeCmd_accepted haccept
  have hsize : 0 < outSize := by
    by_contra hzero
    obtain rfl : outSize = 0 := by omega
    rw [tgEncodeCmd, if_pos rfl] at haccept
    exact absurd haccept (by decide)
  rw [tgEncodeCmd_eq hsize hreceiver hsender hstart htarget] at haccept
  split at haccept
  · assumption
  · exact absurd haccept (by decide)

theorem EncodedRecord.shape {record : Bytes} (hrecord : EncodedRecord record) :
    bytes "ZCZC" <+: record ∧ (0 : UInt8) ∉ record := by
  cases hrecord with
  | text hint haccept =>
      have hfits := tgEncodeText_fits haccept
      obtain ⟨-, -, -, -, hencoded⟩ := tgEncodeText_accepted haccept
      rw [hencoded, tgBodyBytes, wire_of_fits (by omega)]
      exact ⟨⟨_, rfl⟩, tgTextRecord_nulFree _ _ _ _ _⟩
  | cmd hint haccept =>
      have hfits := tgEncodeCmd_fits haccept
      obtain ⟨-, -, -, -, hencoded⟩ := tgEncodeCmd_accepted haccept
      rw [hencoded, wire_of_fits (by omega)]
      exact ⟨⟨_, rfl⟩, tgCmdRecord_nulFree _ _ _ _⟩

/-! ## Telegrams -/

section

variable {Ini : Type} (minIni : MinIni Ini) {s : Relayer Ini} {m : IncomingMessage}

/-- The contact is known, the message of the kind the relay takes, and its key not blocked. -/
structure Welcome (s : Relayer Ini) (m : IncomingMessage) (friendnumber : Fin maxFriendNum)
    (publicKey : Vector UInt8 32) : Prop where
  normal : m.isNormal = true
  friendnumber_eq : m.friendnumber.toNat = friendnumber
  key : m.tox.friendPublicKey m.friendnumber = some publicKey
  listed : (fileContainsKey m.blocklist publicKey s.blockedkeys).1 ≠ 1

/-- The relay as a message finds it: the list of blocked keys has been opened, and the console
talks to the sender. -/
def Relayer.turnedTo (s : Relayer Ini) (m : IncomingMessage) (friendnumber : Fin maxFriendNum)
    (publicKey : Vector UInt8 32) : Relayer Ini :=
  { s with
    blockedkeys := (fileContainsKey m.blocklist publicKey s.blockedkeys).2
    preFriendnumber := friendnumber }

theorem cbFriendMessage_welcome {friendnumber : Fin maxFriendNum} {publicKey : Vector UInt8 32}
    (hwelcome : Welcome s m friendnumber publicKey) :
    cbFriendMessage minIni s m =
      handleMessage minIni (s.turnedTo m friendnumber publicKey) m friendnumber := by
  obtain ⟨hnormal, hfriendnumber, hkey, hlisted⟩ := hwelcome
  have hvalid : m.friendnumber.toNat < maxFriendNum := hfriendnumber ▸ friendnumber.isLt
  have hsame : (⟨m.friendnumber.toNat, hvalid⟩ : Fin maxFriendNum) = friendnumber :=
    Fin.ext hfriendnumber
  rw [cbFriendMessage, if_neg (by simp [hnormal]), dif_pos hvalid, hkey]
  dsimp only
  rw [if_neg hlisted, hsame]
  rfl

theorem handleMessage_telegram (htelegram : m.IsTelegram) (s : Relayer Ini)
    (friendnumber : Fin maxFriendNum) :
    handleMessage minIni s m friendnumber =
      let received := relayReceive (relayInit minIni m.io s.relay.ctx.selfPublicKeyStr) s.relay
        (friendnumber : ℕ) m.text.val m.now.toInt
      ⟨{ s with relay := received.state }, .received received.outcome received.calls⟩ := by
  obtain ⟨hslash, hzczc⟩ := htelegram
  have hfound : strstr (bytes "ZCZC") m.text.val ≠ none := by
    rw [← Option.isSome_iff_ne_none]
    exact (strstr_isSome_iff _ _).mpr hzczc
  rw [handleMessage]
  dsimp only
  rw [← IncomingMessage.text, if_neg hslash, if_neg hfound]

/-- A record that the queue takes is acted on byte for byte at the other end, whatever its
text looks like. -/
theorem cbFriendMessage_record {friendnumber : Fin maxFriendNum} {publicKey : Vector UInt8 32}
    (hwelcome : Welcome s m friendnumber publicKey) (hrecord : EncodedRecord m.string)
    (hqueued : m.string.length < mqPayloadMax) :
    cbFriendMessage minIni s m =
      let received := relayReceive (relayInit minIni m.io s.relay.ctx.selfPublicKeyStr) s.relay
        (friendnumber : ℕ) m.string m.now.toInt
      ⟨{ s.turnedTo m friendnumber publicKey with relay := received.state },
        .received received.outcome received.calls⟩ := by
  obtain ⟨hzczc, hnul⟩ := hrecord.shape
  have htelegram := IncomingMessage.isTelegram_of_record hzczc hnul hqueued
  have htext := IncomingMessage.text_of_short hnul hqueued
  rw [cbFriendMessage_welcome minIni hwelcome, handleMessage_telegram minIni htelegram, htext]
  rfl

end

/-- A telegram whose text looks like the sign of the protocol. -/
def recordOfContact : IncomingMessage :=
  { signOfContact with
    string := (tgEncodeText relayWireMax (some ⟨bytes "0909", by decide⟩)
      (some ⟨bytes "0707", by decide⟩) 1 1700000000
      (some ⟨bytes "/HELLO METACOM", by decide⟩)).wire }

theorem recordOfContact_welcome :
    Welcome firstRelayer recordOfContact consoleContact (.replicate 32 170) where
  normal := rfl
  friendnumber_eq := rfl
  key := rfl
  listed := by decide

theorem recordOfContact_encoded : EncodedRecord recordOfContact.string :=
  .text (by decide) (by decide)

theorem cbFriendMessage_record_greeting :
    let minIni := iniStore .reliable
    cbFriendMessage minIni firstRelayer recordOfContact =
      let received := relayReceive (relayInit minIni recordOfContact.io
        firstRelayer.relay.ctx.selfPublicKeyStr) firstRelayer.relay (consoleContact : ℕ)
        recordOfContact.string recordOfContact.now.toInt
      ⟨{ firstRelayer.turnedTo recordOfContact consoleContact (.replicate 32 170) with
          relay := received.state },
        .received received.outcome received.calls⟩ :=
  cbFriendMessage_record _ recordOfContact_welcome recordOfContact_encoded (by decide)

section

variable {Ini : Type} (minIni : MinIni Ini) {m : IncomingMessage}

/-! ## Everything else -/

end

/-! ## What a restart recovers -/

section

variable {σ : Type} {env : RelayEnv σ} {tracker : σ → ℤ → Option ℕ} {lastSn : σ → ℤ → ℤ × ℤ}

/-- The recovery of the trackers looks at nothing else. -/
structure SameRecovery (env : RelayEnv σ) (tracker : σ → ℤ → Option ℕ)
    (lastSn : σ → ℤ → ℤ × ℤ) (s s' : RelayState σ) : Prop where
  known : ∀ channel, relayKnown env s' channel = relayKnown env s channel
  tracker : ∀ channel, tracker s'.ctx channel = tracker s.ctx channel
  lastSn : ∀ channel, lastSn s'.ctx channel = lastSn s.ctx channel
  trackers : s'.trackers = s.trackers

theorem relayKnown_of_ctx {s s' : RelayState σ} (hctx : s'.ctx = s.ctx) (channel : ℤ) :
    relayKnown env s' channel = relayKnown env s channel := by
  rw [relayKnown, relayKnown, hctx]

theorem SameRecovery.channel {s s' : RelayState σ} (hsame : SameRecovery env tracker lastSn s s')
    (channel : ℤ) : SameRecovery env tracker lastSn
      (relayRecoverChannel env tracker lastSn channel s).2
      (relayRecoverChannel env tracker lastSn channel s').2 := by
  have hctx := relayRecoverChannel_ctx env tracker lastSn channel s
  have hctx' := relayRecoverChannel_ctx env tracker lastSn channel s'
  refine ⟨?_, ?_, ?_, ?_⟩
  · intro other
    rw [relayKnown_of_ctx hctx, relayKnown_of_ctx hctx', hsame.known]
  · intro other
    rw [hctx, hctx', hsame.tracker]
  · intro other
    rw [hctx, hctx', hsame.lastSn]
  · rw [relayRecoverChannel, relayRecoverChannel, hsame.known, hsame.tracker, hsame.lastSn]
    split
    · exact hsame.trackers
    · split
      · exact hsame.trackers
      · dsimp only
        rw [hsame.trackers]
        split <;> rfl

theorem SameRecovery.loop {s s' : RelayState σ} (hsame : SameRecovery env tracker lastSn s s')
    (channels : List ℕ) : (relayRecoverLoop env tracker lastSn channels s').2.trackers =
      (relayRecoverLoop env tracker lastSn channels s).2.trackers := by
  induction channels generalizing s s' with
  | nil => exact hsame.trackers
  | cons channel channels ih => exact ih (hsame.channel channel)

end

/-- Two archives that tell the same of every channel after a restart. -/
def SameLastSn (db db' : MsgDatabase) : Prop :=
  ∀ (io : SqliteResult) (ready : Bool) (channel : ℤ),
    msgDatabaseLastSn io { db' with ready := ready } channel (some incoming) 0 =
      msgDatabaseLastSn io { db with ready := ready } channel (some incoming) 0

theorem SameLastSn.trans {db db' db'' : MsgDatabase} (hfirst : SameLastSn db db')
    (hsecond : SameLastSn db' db'') : SameLastSn db db'' := fun io ready channel =>
  (hsecond io ready channel).trans (hfirst io ready channel)

section

variable {Ini : Type} (minIni : MinIni Ini)

end

/-! ## The archive -/

section

variable {Ini : Type} (minIni : MinIni Ini)

/-- A relay after messages that were no telegrams: of the contacts only the signs of the
protocol may differ. -/
structure RelayUndisturbed (relay relay' : RelayState (Node Ini)) : Prop where
  trackers : relay'.trackers = relay.trackers
  queue : relay'.ctx.queue = relay.ctx.queue
  selfPublicKeyStr : relay'.ctx.selfPublicKeyStr = relay.ctx.selfPublicKeyStr
  relayNumber : relay'.ctx.relayNumber = relay.ctx.relayNumber
  contacts : ∀ i, ∃ flag, relay'.ctx.relayNameList i =
    { relay.ctx.relayNameList i with metaChatFlag := flag }

theorem RelayUndisturbed.refl (relay : RelayState (Node Ini)) : RelayUndisturbed relay relay :=
  ⟨rfl, rfl, rfl, rfl, fun _ => ⟨_, rfl⟩⟩

theorem RelayUndisturbed.trans {relay relay' relay'' : RelayState (Node Ini)}
    (hfirst : RelayUndisturbed relay relay') (hsecond : RelayUndisturbed relay' relay'') :
    RelayUndisturbed relay relay'' where
  trackers := hsecond.trackers.trans hfirst.trackers
  queue := hsecond.queue.trans hfirst.queue
  selfPublicKeyStr := hsecond.selfPublicKeyStr.trans hfirst.selfPublicKeyStr
  relayNumber := hsecond.relayNumber.trans hfirst.relayNumber
  contacts := by
    intro i
    obtain ⟨flag, hflag⟩ := hfirst.contacts i
    obtain ⟨flag', hflag'⟩ := hsecond.contacts i
    exact ⟨flag', by rw [hflag', hflag]⟩

end

end ToxRelayer
