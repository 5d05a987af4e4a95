import ToxRelayer.Directory
import ToxRelayer.EncoderMemory
import ToxRelayer.MetadataSerials
import ToxRelayer.MsgQueueRoom
import ToxRelayer.StepRun

/-!
# Lines typed at the console

The key loop of `main` and what it does with a finished line.  The serial is
taken, saved and archived whether or not the telegram reaches the queue.
-/

namespace ToxRelayer

open CString StepRun

def toxMaxMessageLength : ℕ := 1372
def cmLineMax : ℕ := 255
def backspace : UInt8 := 8
def slash : UInt8 := 47

/-! ## The line under way -/

/-- `cm_buffer` up to `line_index` -/
structure CmBuffer where
  val : Bytes
  bounded : val.length ≤ cmLineMax

namespace CmBuffer

def empty : CmBuffer := ⟨[], Nat.zero_le _⟩

theorem dropLast_bounded (b : CmBuffer) : b.val.dropLast.length ≤ cmLineMax := by
  have hlength := b.bounded
  rw [List.length_dropLast]
  omega

theorem append_bounded {b : CmBuffer} (hroom : b.val.length < cmLineMax) (inKey : UInt8) :
    (b.val ++ [inKey]).length ≤ cmLineMax := by
  rw [List.length_append, List.length_singleton]
  omega

/-- What one key does to the line, and the line it ends. -/
def key (b : CmBuffer) (inKey : UInt8) : CmBuffer × Option CStr :=
  if inKey = lf ∨ inKey = cr then (empty, some (CStr.ofBuffer (b.val ++ [inKey])))
  else if inKey = backspace then (⟨b.val.dropLast, b.dropLast_bounded⟩, none)
  else if hroom : b.val.length < cmLineMax then
    (⟨b.val ++ [inKey], append_bounded hroom inKey⟩, none)
  else (b, none)

theorem key_length_le {b : CmBuffer} {inKey : UInt8} {line : CStr}
    (hended : (b.key inKey).2 = some line) : line.length ≤ cmLineMax + 1 := by
  have hlength := b.bounded
  unfold key at hended
  split_ifs at hended
  obtain rfl := Option.some.inj hended
  have hcut := CStr.ofBuffer_length_le (b.val ++ [inKey])
  rw [List.length_append, List.length_singleton] at hcut
  rw [CStr.length]
  omega

end CmBuffer

/-! ## Sending a line -/

/-- `wireLen` is the result of the encoder; `queued` is what `mq_enqueue` was
given and what it returned, if it was called. -/
structure ConsoleSent (Ini : Type) where
  node : Node Ini
  wireLen : ℤ
  queued : Option (Bytes × ℤ)

variable {Ini : Type}

/-- The telegram was encoded, and the queue took it. -/
def ConsoleSent.Delivered (sent : ConsoleSent Ini) : Prop :=
  0 ≤ sent.wireLen ∧ ∃ payload, sent.queued = some (payload, mqOk)

/-- What the queue took. -/
def ConsoleSent.placed (sent : ConsoleSent Ini) : List Bytes :=
  match sent.queued with
  | some (payload, code) => if code = mqOk then [payload] else []
  | none => []

/-- The record the encoder makes of a line, under the serial after the last one. -/
def consoleWire (node : Node Ini) (preFriendnumber : Fin maxFriendNum) (cmBuffer : CStr)
    (curTime : Int64) : TgEncoded :=
  tgEncodeText (toxMaxMessageLength + 1) (some (node.relayNameList preFriendnumber).publicKeyStr)
    (some node.selfPublicKeyStr) (tgSnNext (node.relayNameList preFriendnumber).sendSn) curTime
    (some cmBuffer)

/-- `main` for a line that is not a command. -/
def consoleSend (minIni : MinIni Ini) (io : SqliteResult) (node : Node Ini)
    (preFriendnumber : Fin maxFriendNum) (cmBuffer : CStr) (curTime : Int64) : ConsoleSent Ini :=
  let channel : ℕ := preFriendnumber
  let entry := node.relayNameList channel
  let sendSn := tgSnNext entry.sendSn
  let wire := consoleWire node preFriendnumber cmBuffer curTime
  let node := { node with
    relayNameList := Function.update node.relayNameList channel { entry with sendSn := sendSn }
    ini := minIni.puts node.ini (bytes "outgoing_sn") (bytes "send" ++ formatInt 3 channel)
      (formatInt 4 sendSn)
    -- also when nothing is put into the queue below
    db := (msgDatabaseAdd io node.db channel sendSn curTime (some node.selfPublicKeyStr)
      (some outgoing) (some cmBuffer)).2 }
  if wire.code < 0 ∧ entry.metaChatFlag = true then ⟨node, wire.code, none⟩
  else
    let payload := if entry.metaChatFlag then wire.out else cmBuffer.val
    let queued := mqEnqueue mqCapacity node.queue channel (some payload) curTime.toInt
    ⟨{ node with queue := queued.queue }, wire.code, some (payload, queued.code)⟩

/-! ## Runs -/

/-- `placed` lists what the queue has taken from the console, with the contact. -/
structure Console (Ini : Type) where
  node : Node Ini
  cmBuffer : CmBuffer
  preFriendnumber : Fin maxFriendNum
  placed : List (ℕ × Bytes)

/-- Between two keys the rest of the loop works on the queue and the archive,
saves serials, and an arriving message or a command turns to another contact. -/
inductive ConsoleEvent (Ini : Type) where
  | key (inKey : UInt8) (curTime : Int64) (io : SqliteResult)
  | elsewhere (queue : {q : Mq // MqSound mqCapacity q}) (db : MsgDatabase) (ini : Ini)
      (preFriendnumber : Fin maxFriendNum)

namespace Console

/-- The line this key ends, unless it is a command. -/
def ends (c : Console Ini) (inKey : UInt8) : Option CStr :=
  (c.cmBuffer.key inKey).2.filter fun line => line.val.head? ≠ some slash

def send (minIni : MinIni Ini) (c : Console Ini) (line : CStr) (curTime : Int64)
    (io : SqliteResult) : ConsoleSent Ini :=
  consoleSend minIni io c.node c.preFriendnumber line curTime

def step (minIni : MinIni Ini) (c : Console Ini) : ConsoleEvent Ini → Console Ini
  | .key inKey curTime io =>
      let typed := { c with cmBuffer := (c.cmBuffer.key inKey).1 }
      match c.ends inKey with
      | none => typed
      | some line =>
          let sent := c.send minIni line curTime io
          { typed with
            node := sent.node
            placed := c.placed ++ sent.placed.map (Prod.mk c.preFriendnumber.val) }
  | .elsewhere queue db ini preFriendnumber =>
      { c with
        node := { c.node with queue := queue.val, db := db, ini := ini }
        preFriendnumber := preFriendnumber }

/-- Nothing has been put into the queue yet. -/
def start (node : Node Ini) (cmBuffer : CmBuffer) (preFriendnumber : Fin maxFriendNum) :
    Console Ini :=
  ⟨node, cmBuffer, preFriendnumber, []⟩

def sendSn (c : Console Ini) (channel : ℕ) : ℤ := (c.node.relayNameList channel).sendSn

/-- The serials that telegrams for a contact carry on their metadata lines. -/
def serialsFor (channel : ℕ) (placed : List (ℕ × Bytes)) : List ℤ :=
  (placed.filter fun record => record.1 = channel).flatMap fun record =>
    writtenSerials .text (metadataLine record.2)

/-- A line that does not get into the queue leaves the serial of the contact and
the archive as they were. -/
def KeepsSerial (minIni : MinIni Ini) (channel : Fin maxFriendNum) (c : Console Ini) :
    ConsoleEvent Ini → Prop
  | .key inKey curTime io => ∀ line, c.ends inKey = some line → c.preFriendnumber = channel →
      ¬ (c.send minIni line curTime io).Delivered →
        ((c.send minIni line curTime io).node.relayNameList channel).sendSn = c.sendSn channel ∧
          (c.send minIni line curTime io).node.db = c.node.db
  | .elsewhere _ _ _ _ => True

/-- The run uses up a serial of the contact only for a telegram in the queue, and
the telegrams carry consecutive serials. -/
structure NoGaps (minIni : MinIni Ini) (channel : Fin maxFriendNum) (c : Console Ini)
    (events : List (ConsoleEvent Ini)) : Prop where
  keeps : Along (step minIni) (KeepsSerial minIni channel) c events
  consecutive : (c.sendSn channel ::
      serialsFor channel (events.foldl (step minIni) c).placed).IsChain
    fun sn later => later = tgSnNext sn

/-- A line typed for the contact can be encoded, and the queue is not full. -/
def Sendable (channel : Fin maxFriendNum) (c : Console Ini) : ConsoleEvent Ini → Prop
  | .key inKey _ _ => ∀ line, c.ends inKey = some line → c.preFriendnumber = channel →
      (tgFieldOk (some (c.node.relayNameList channel).publicKeyStr) = true ∧
        tgFieldOk (some c.node.selfPublicKeyStr) = true ∧ tgBodyOk (some line) = true) ∧
      c.node.queue.count < mqCapacity
  | .elsewhere _ _ _ _ => True

end Console

/-! ## The serial on a telegram -/

theorem tgSnNext_ne (sn : ℤ) : tgSnNext sn ≠ sn := by
  unfold tgSnNext tgSnValid tgSnMin tgSnMax
  split_ifs <;> omega

theorem textLines_line {line : Bytes} (hlf : lf ∉ line) (hcr : cr ∉ line) (rest : Bytes) :
    textLines (line ++ lf :: rest) = line :: textLines rest := by
  rw [textLines_append hlf hcr (textLines_lf rest), List.append_nil]

theorem metadataLine_tgTextRecord {receiver sender : CStr}
    (hreceiver : tgFieldOk (some receiver) = true) (hsender : tgFieldOk (some sender) = true)
    (sn : ℤ) (timestamp : Int64) (body : Bytes) :
    metadataLine (tgTextRecord receiver sender sn timestamp body) = tgTextMetaStr sn timestamp := by
  obtain ⟨-, -, hreceiverLf, hreceiverCr⟩ := (tgFieldOk_some_iff receiver).mp hreceiver
  obtain ⟨-, -, hsenderLf, hsenderCr⟩ := (tgFieldOk_some_iff sender).mp hsender
  have hheaderLf : lf ∉ bytes "ZCZC TEXT" := by decide
  have hheaderCr : cr ∉ bytes "ZCZC TEXT" := by decide
  rw [metadataLine, tgTextRecord, textLines_line hheaderLf hheaderCr,
    textLines_line hreceiverLf hreceiverCr, textLines_line hsenderLf hsenderCr,
    textLines_line (fun hmem => (tgTextMetaLine_free hmem).1 rfl)
      (fun hmem => (tgTextMetaLine_free hmem).2.1 rfl)]
  exact CStr.ofBuffer_val (tgTextMetaStr sn timestamp)

theorem writtenSerials_tgTextRecord {receiver sender : CStr}
    (hreceiver : tgFieldOk (some receiver) = true) (hsender : tgFieldOk (some sender) = true)
    (sn : ℤ) (timestamp : Int64) (body : Bytes) :
    writtenSerials .text (metadataLine (tgTextRecord receiver sender sn timestamp body)) =
      [sn] := by
  have hread := readInteger_formatInt 4 sn (space :: formatInt 0 timestamp.toInt) (by
    intro b hb
    obtain rfl : space = b := by simpa using hb
    decide)
  rw [metadataLine_tgTextRecord hreceiver hsender, writtenSerials, if_pos rfl]
  simp only [tgTextMetaStr, tgTextMetaLine, hread]
  rfl

/-! ## One line -/

section

variable {minIni : MinIni Ini} {io : SqliteResult} {node : Node Ini}
  {preFriendnumber : Fin maxFriendNum} {line : CStr} {curTime : Int64}

theorem consoleSend_relayNameList :
    (consoleSend minIni io node preFriendnumber line curTime).node.relayNameList =
      Function.update node.relayNameList preFriendnumber
        { node.relayNameList preFriendnumber with
          sendSn := tgSnNext (node.relayNameList preFriendnumber).sendSn } := by
  unfold consoleSend
  dsimp only
  split <;> rfl

theorem consoleSend_sendSn :
    ((consoleSend minIni io node preFriendnumber line curTime).node.relayNameList
      preFriendnumber).sendSn = tgSnNext (node.relayNameList preFriendnumber).sendSn := by
  rw [consoleSend_relayNameList, Function.update_self]

theorem consoleSend_sendSn_of_ne {channel : ℕ} (hother : channel ≠ preFriendnumber) :
    ((consoleSend minIni io node preFriendnumber line curTime).node.relayNameList channel).sendSn =
      (node.relayNameList channel).sendSn := by
  rw [consoleSend_relayNameList, Function.update_of_ne hother]

theorem consoleSend_metaChatFlag (channel : ℕ) :
    ((consoleSend minIni io node preFriendnumber line curTime).node.relayNameList
      channel).metaChatFlag = (node.relayNameList channel).metaChatFlag := by
  rw [consoleSend_relayNameList]
  by_cases hsame : channel = preFriendnumber
  · subst hsame
    rw [Function.update_self]
  · rw [Function.update_of_ne hsame]

theorem consoleSend_queue (hqueue : MqSound mqCapacity node.queue) :
    MqSound mqCapacity (consoleSend minIni io node preFriendnumber line curTime).node.queue := by
  unfold consoleSend
  dsimp only
  split
  · exact hqueue
  · exact hqueue.enqueue _ _ _

theorem consoleSend_wireLen :
    (consoleSend minIni io node preFriendnumber line curTime).wireLen =
      (consoleWire node preFriendnumber line curTime).code := by
  unfold consoleSend
  dsimp only
  split <;> rfl

theorem consoleSend_queued
    (hflag : (node.relayNameList preFriendnumber).metaChatFlag = true)
    (hwire : 0 ≤ (consoleWire node preFriendnumber line curTime).code) :
    (consoleSend minIni io node preFriendnumber line curTime).queued =
      some ((consoleWire node preFriendnumber line curTime).out,
        (mqEnqueue mqCapacity node.queue (preFriendnumber : ℕ)
          (some (consoleWire node preFriendnumber line curTime).out) curTime.toInt).code) := by
  unfold consoleSend
  dsimp only
  rw [if_neg (by omega), hflag]
  rfl

/-- What the encoder makes of a line of the console always fits. -/
theorem consoleWire_accepted (curTime : Int64)
    (hargs : TgTextArgs (some (node.relayNameList preFriendnumber).publicKeyStr)
      (some node.selfPublicKeyStr) (tgSnNext (node.relayNameList preFriendnumber).sendSn)
      (some line))
    (hline : line.length ≤ cmLineMax + 1) :
    0 ≤ (consoleWire node preFriendnumber line curTime).code ∧
      MqInRange (preFriendnumber : ℕ) (some (consoleWire node preFriendnumber line curTime).out) ∧
      writtenSerials .text (metadataLine (consoleWire node preFriendnumber line curTime).out) =
        [tgSnNext (node.relayNameList preFriendnumber).sendSn] := by
  obtain ⟨hreceiver, hsender, hsn, hbody⟩ := hargs
  have hshort : (tgBodyBytes (some line)).length ≤ 256 := hline
  have hlength := tgTextRecord_length_lt curTime (tgBodyBytes (some line)) hreceiver hsender hsn
  rw [consoleWire, tgEncodeText_of_valid curTime (by decide) hreceiver hsender hsn hbody
    (by rw [tgBodyMax]; omega)]
  refine ⟨Int.natCast_nonneg _, ⟨Int.natCast_nonneg _, _, rfl, ?_, ?_⟩, ?_⟩
  · rw [tgTextRecord, List.length_append]
    exact Nat.add_pos_left (by decide) _
  · dsimp only [mqPayloadMax]
    omega
  · exact writtenSerials_tgTextRecord hreceiver hsender _ _ _

/-- A line for a metaCom contact gets into the queue exactly when it can be
encoded and the queue is not full. -/
theorem consoleSend_delivered_iff (minIni : MinIni Ini) (io : SqliteResult) (curTime : Int64)
    (hqueue : MqSound mqCapacity node.queue)
    (hflag : (node.relayNameList preFriendnumber).metaChatFlag = true)
    (hline : line.length ≤ cmLineMax + 1) :
    (consoleSend minIni io node preFriendnumber line curTime).Delivered ↔
      TgTextArgs (some (node.relayNameList preFriendnumber).publicKeyStr)
        (some node.selfPublicKeyStr) (tgSnNext (node.relayNameList preFriendnumber).sendSn)
        (some line) ∧ node.queue.count < mqCapacity := by
  rw [ConsoleSent.Delivered, consoleSend_wireLen]
  by_cases hargs : TgTextArgs (some (node.relayNameList preFriendnumber).publicKeyStr)
      (some node.selfPublicKeyStr) (tgSnNext (node.relayNameList preFriendnumber).sendSn)
      (some line)
  · obtain ⟨hcode, hrange, -⟩ := consoleWire_accepted curTime hargs hline
    have htells := hqueue.toMqCounted.enqueue_tells (preFriendnumber : ℕ)
      (some (consoleWire node preFriendnumber line curTime).out) curTime.toInt
    rw [consoleSend_queued hflag hcode, and_iff_right hcode, and_iff_right hargs]
    constructor
    · rintro ⟨payload, htaken⟩
      have hok := (Prod.mk.inj (Option.some.inj htaken)).2
      exact (htells.ok_iff.mp hok).2
    · intro hroom
      exact ⟨_, by rw [htells.ok_iff.mpr ⟨hrange, hroom⟩]⟩
  · obtain ⟨code, hnegative, hrefused⟩ := tgEncodeText_refused
      (s := toxMaxMessageLength + 1) (by decide) curTime hargs
    rw [consoleWire, hrefused]
    refine iff_of_false ?_ fun hboth => hargs hboth.1
    exact fun hboth => absurd hboth.1 hnegative.not_ge

theorem consoleSend_placed (hqueue : MqSound mqCapacity node.queue)
    (hflag : (node.relayNameList preFriendnumber).metaChatFlag = true)
    (hline : line.length ≤ cmLineMax + 1)
    (hdelivered : (consoleSend minIni io node preFriendnumber line curTime).Delivered) :
    ∃ record, (consoleSend minIni io node preFriendnumber line curTime).placed = [record] ∧
      writtenSerials .text (metadataLine record) =
        [tgSnNext (node.relayNameList preFriendnumber).sendSn] := by
  have hargs := ((consoleSend_delivered_iff minIni io curTime hqueue hflag hline).mp hdelivered).1
  obtain ⟨hcode, -, hserial⟩ := consoleWire_accepted curTime hargs hline
  obtain ⟨-, payload, htaken⟩ := hdelivered
  refine ⟨payload, by rw [ConsoleSent.placed, htaken]; rfl, ?_⟩
  rw [consoleSend_queued hflag hcode] at htaken
  obtain rfl := (Prod.mk.inj (Option.some.inj htaken)).1
  exact hserial

end

/-! ## Every run -/

namespace Console

/-- The contact runs metaCom, and the queue is one its entry points leave. -/
structure Sound (channel : Fin maxFriendNum) (c : Console Ini) : Prop where
  queue : MqSound mqCapacity c.node.queue
  metacom : (c.node.relayNameList channel).metaChatFlag = true

/-- Every serial used so far is on a telegram in the queue. -/
structure Consecutive (channel : Fin maxFriendNum) (first : ℤ) (c : Console Ini) : Prop where
  chain : (first :: serialsFor channel c.placed).IsChain fun sn later => later = tgSnNext sn
  last : (first :: serialsFor channel c.placed).getLast? = some (c.sendSn channel)

section

variable {minIni : MinIni Ini} {channel : Fin maxFriendNum} {c : Console Ini} {first : ℤ}

theorem step_of_not_ends {inKey : UInt8} {curTime : Int64} {io : SqliteResult}
    (hnone : c.ends inKey = none) :
    c.step minIni (.key inKey curTime io) =
      { c with cmBuffer := (c.cmBuffer.key inKey).1 } := by
  simp only [step, hnone]

theorem step_of_ends {inKey : UInt8} {line : CStr} (hline : c.ends inKey = some line)
    (curTime : Int64) (io : SqliteResult) :
    c.step minIni (.key inKey curTime io) =
      { node := (c.send minIni line curTime io).node
        cmBuffer := (c.cmBuffer.key inKey).1
        preFriendnumber := c.preFriendnumber
        placed := c.placed ++
          (c.send minIni line curTime io).placed.map (Prod.mk c.preFriendnumber.val) } := by
  simp only [step, hline]

theorem ends_length_le {inKey : UInt8} {line : CStr} (hline : c.ends inKey = some line) :
    line.length ≤ cmLineMax + 1 := by
  rw [ends, Option.filter_eq_some_iff] at hline
  exact CmBuffer.key_length_le hline.1

theorem Sound.step (hc : c.Sound channel) (event : ConsoleEvent Ini) :
    (c.step minIni event).Sound channel := by
  cases event with
  | elsewhere queue db ini preFriendnumber => exact ⟨queue.property, hc.metacom⟩
  | key inKey curTime io =>
      cases hends : c.ends inKey with
      | none =>
          rw [step_of_not_ends hends]
          exact ⟨hc.queue, hc.metacom⟩
      | some line =>
          rw [step_of_ends hends]
          refine ⟨consoleSend_queue hc.queue, ?_⟩
          exact (consoleSend_metaChatFlag _).trans hc.metacom

/-- A serial that is used is never the one before it, so it is kept exactly when
the telegram gets into the queue. -/
theorem Sound.keepsSerial_iff (hc : c.Sound channel) (event : ConsoleEvent Ini) :
    c.KeepsSerial minIni channel event ↔ c.Sendable channel event := by
  cases event with
  | elsewhere queue db ini preFriendnumber => exact Iff.rfl
  | key inKey curTime io =>
      refine forall_congr' fun line => forall_congr' fun hends => forall_congr' fun hchannel => ?_
      subst hchannel
      have hsn := tgSnNext_valid (c.node.relayNameList c.preFriendnumber).sendSn
      have hdelivered := consoleSend_delivered_iff minIni io curTime hc.queue hc.metacom
        (ends_length_le hends)
      have hused : ¬ ((c.send minIni line curTime io).node.relayNameList
          c.preFriendnumber).sendSn = c.sendSn c.preFriendnumber := by
        rw [send, consoleSend_sendSn]
        exact tgSnNext_ne _
      constructor
      · intro hkeeps
        have hsent : (c.send minIni line curTime io).Delivered := by
          by_contra hlost
          exact hused (hkeeps hlost).1
        obtain ⟨⟨hreceiver, hsender, -, hbody⟩, hroom⟩ := hdelivered.mp hsent
        exact ⟨⟨hreceiver, hsender, hbody⟩, hroom⟩
      · rintro ⟨⟨hreceiver, hsender, hbody⟩, hroom⟩ hlost
        exact absurd (hdelivered.mpr ⟨⟨hreceiver, hsender, hsn, hbody⟩, hroom⟩) hlost

theorem serialsFor_append (channel : ℕ) (placed later : List (ℕ × Bytes)) :
    serialsFor channel (placed ++ later) =
      serialsFor channel placed ++ serialsFor channel later := by
  rw [serialsFor, serialsFor, serialsFor, List.filter_append, List.flatMap_append]

theorem serialsFor_of_ne {channel other : ℕ} (hother : other ≠ channel) (records : List Bytes) :
    serialsFor channel (records.map (Prod.mk other)) = [] := by
  have hnone : (records.map (Prod.mk other)).filter (fun record => record.1 = channel) = [] := by
    rw [List.filter_eq_nil_iff]
    intro record hmem
    obtain ⟨_, -, rfl⟩ := List.mem_map.mp hmem
    simpa using hother
  rw [serialsFor, hnone, List.flatMap_nil]

theorem serialsFor_singleton (channel : ℕ) (record : Bytes) :
    serialsFor channel ([record].map (Prod.mk channel)) =
      writtenSerials .text (metadataLine record) := by
  simp [serialsFor]

/-- The next telegram carries the next serial. -/
theorem Consecutive.append {c' : Console Ini} {serials : List ℤ}
    (hconsecutive : c.Consecutive channel first)
    (hserials : serialsFor channel c'.placed = serialsFor channel c.placed ++ serials)
    (hnext : serials = [] ∧ c'.sendSn channel = c.sendSn channel ∨
      serials = [tgSnNext (c.sendSn channel)] ∧ c'.sendSn channel = tgSnNext (c.sendSn channel)) :
    c'.Consecutive channel first := by
  rcases hnext with ⟨rfl, hsn⟩ | ⟨rfl, hsn⟩
  · rw [List.append_nil] at hserials
    constructor
    · rw [hserials]
      exact hconsecutive.chain
    · rw [hserials, hsn]
      exact hconsecutive.last
  · constructor
    · rw [hserials, ← List.cons_append]
      apply hconsecutive.chain.append (List.isChain_singleton _)
      intro sn hlast later hlater
      rw [hconsecutive.last] at hlast
      obtain rfl := Option.some.inj hlast
      exact (Option.some.inj hlater).symm
    · rw [hserials, hsn, ← List.cons_append, List.getLast?_append]
      rfl

theorem Consecutive.step (hconsecutive : c.Consecutive channel first) (hc : c.Sound channel)
    (event : ConsoleEvent Ini) (hsendable : c.Sendable channel event) :
    (c.step minIni event).Consecutive channel first := by
  cases event with
  | elsewhere queue db ini preFriendnumber =>
      exact ⟨hconsecutive.chain, hconsecutive.last⟩
  | key inKey curTime io =>
      cases hends : c.ends inKey with
      | none =>
          rw [step_of_not_ends hends]
          exact ⟨hconsecutive.chain, hconsecutive.last⟩
      | some line =>
          rw [step_of_ends hends]
          apply hconsecutive.append (serialsFor_append _ _ _)
          by_cases hchannel : c.preFriendnumber = channel
          · right
            subst hchannel
            obtain ⟨⟨hreceiver, hsender, hbody⟩, hroom⟩ := hsendable line hends rfl
            have hdelivered := (consoleSend_delivered_iff minIni io curTime hc.queue hc.metacom
              (ends_length_le hends)).mpr ⟨⟨hreceiver, hsender, tgSnNext_valid _, hbody⟩, hroom⟩
            obtain ⟨record, hplaced, hserial⟩ :=
              consoleSend_placed hc.queue hc.metacom (ends_length_le hends) hdelivered
            refine ⟨?_, consoleSend_sendSn⟩
            rw [send, hplaced, serialsFor_singleton]
            exact hserial
          · left
            have hother : channel.val ≠ c.preFriendnumber.val :=
              fun hsame => hchannel (Fin.ext hsame.symm)
            exact ⟨serialsFor_of_ne hother.symm _, consoleSend_sendSn_of_ne hother⟩

end

end Console

/-- In every run no serial of a metaCom contact is used up without a telegram in
the queue, and the telegrams carry consecutive serials, exactly when every line
typed for the contact can be encoded and finds room. -/
theorem console_noGaps_iff {minIni : MinIni Ini} {node : Node Ini} {channel : Fin maxFriendNum}
    (hqueue : MqSound mqCapacity node.queue)
    (hmetacom : (node.relayNameList channel).metaChatFlag = true) (cmBuffer : CmBuffer)
    (preFriendnumber : Fin maxFriendNum) (events : List (ConsoleEvent Ini)) :
    Console.NoGaps minIni channel (.start node cmBuffer preFriendnumber) events ↔
      Along (Console.step minIni) (Console.Sendable channel)
        (.start node cmBuffer preFriendnumber) events := by
  have hsound : (Console.start node cmBuffer preFriendnumber).Sound channel := ⟨hqueue, hmetacom⟩
  constructor
  · intro hnoGaps
    exact hnoGaps.keeps.of_invariant (fun _ event hc _ => hc.step event)
      (fun _ event hc hkeeps => (hc.keepsSerial_iff event).mp hkeeps) hsound
  · intro halong
    constructor
    · exact halong.of_invariant (fun _ event hc _ => hc.step event)
        (fun _ event hc hsendable => (hc.keepsSerial_iff event).mpr hsendable) hsound
    · have hfirst : (Console.start node cmBuffer preFriendnumber).Consecutive channel
          ((Console.start node cmBuffer preFriendnumber).sendSn channel) :=
        ⟨List.isChain_singleton _, rfl⟩
      have hlast := halong.last (I := fun c => c.Sound channel ∧ c.Consecutive channel
          ((Console.start node cmBuffer preFriendnumber).sendSn channel))
        (fun _ event hc hsendable => ⟨hc.1.step event, hc.2.step hc.1 event hsendable⟩)
        ⟨hsound, hfirst⟩
      exact hlast.2.chain

/-! ## A line the encoder refuses -/

def metacomNode : Node Unit where
  relayNameList := fun i =>
    if i = 0 then ⟨0, hexString (List.replicate 32 7), false, true, 1, 1⟩
    else ⟨0, .empty, false, false, 0, 0⟩
  selfPublicKeyStr := hexString (List.replicate 38 9)
  relayNumber := 0
  queue := (mqStart true true).queue
  db := msgDatabaseOpened
  ini := ()

theorem maxFriendNum_pos : 0 < maxFriendNum := by decide

def consoleContact : Fin maxFriendNum := ⟨0, maxFriendNum_pos⟩

def typed (keys : Bytes) : List (ConsoleEvent Unit) :=
  keys.map fun inKey => .key inKey 1700000000 .ok

/-- A line that is sent. -/
theorem console_noGaps_iff_hi :
    Console.NoGaps emptyIni consoleContact (.start metacomNode .empty consoleContact)
        (typed [104, 105, lf]) ↔
      Along (Console.step emptyIni) (Console.Sendable consoleContact)
        (.start metacomNode .empty consoleContact) (typed [104, 105, lf]) :=
  console_noGaps_iff (mqStart_sound (by decide) true true) rfl .empty consoleContact _

/-- The line is `NNNN`: serial 2 is used up, and the line is in the archive. -/
theorem console_uses_up_serial :
    ¬ Console.NoGaps emptyIni consoleContact (.start metacomNode .empty consoleContact)
      (typed [78, 78, 78, 78, lf]) := by
  intro hnoGaps
  have hkeeps := hnoGaps.keeps.2.2.2.2.1
  have hlost := hkeeps ⟨[78, 78, 78, 78, lf], by decide⟩ (by decide) rfl (by
    rintro ⟨hcode, -⟩
    exact absurd hcode (by decide))
  exact absurd hlost.1 (by decide)

end ToxRelayer
