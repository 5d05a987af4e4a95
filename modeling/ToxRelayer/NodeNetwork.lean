import ToxRelayer.AddressAgreement
import ToxRelayer.FriendNumberReuse
import ToxRelayer.RelayNetwork
import ToxRelayer.Routing

/-!
# The nodes as a network

The environment `relay_init` sets up keeps what a network of relays asks for, when
the table of contacts has the keys of the neighbours and all these have one length,
whatever a node takes for its own key.  The start of the program sets up such a
node, and a line typed at the console writes a telegram, queues it and archives it.
-/

namespace ToxRelayer

open CString

/-! ## The directory and the archive -/

section

variable {ι Ini : Type} (key own : ι → CStr) (far : ι → ℤ → Option (ι × ℤ)) (n : ι)

/-- The contacts are the neighbours, under their keys. -/
structure Neighbours (table : ℕ → RelayName) : Prop where
  listed : ∀ i m back, far n (i : ℕ) = some (m, back) → (table i).publicKeyStr = key m
  valid : ∀ channel m back, far n channel = some (m, back) → friendNumberValid channel

/-- The outgoing rows of the archive have been written here. -/
def SentRows (written : List (Telegram ι)) (table : KeyedTable.Table ℤ ChatRow) : Prop :=
  ∀ entry ∈ table.rows, entry.2.direction = outgoing → ∀ m back,
    far n entry.2.friendNum = some (m, back) → ∃ t ∈ written,
      key t.receiver = key m ∧ own t.sender = own n ∧
        relayRecord (chatMsgRecord entry) = RelayNetwork.record t

/-- What a node sees to: its key, its contacts and its archive. -/
structure NodeKeeps (written : List (Telegram ι)) (node : Node Ini) : Prop where
  self : node.selfPublicKeyStr = own n
  neighbours : Neighbours key far n node.relayNameList
  sent : SentRows key own far n written node.db.table

/-- The nodes, each with the environment of `relay_init`; SQLite answers the calls. -/
def nodeNetwork (minIni : MinIni Ini) : RelayNetwork ι SqliteResult fun _ => Node Ini where
  env n io := relayInit minIni io (own n)
  key := key
  own := own
  far := far
  keeps n := NodeKeeps key own far n

end

section

variable {ι Ini : Type} {key own : ι → CStr} {far : ι → ℤ → Option (ι × ℤ)} {n : ι}

theorem mem_msgDatabaseAdd {io : SqliteResult} {db : MsgDatabase} {friendNum sn : ℤ}
    {datetime : Int64} {sender chatMsg : Option CStr} {direction : CStr} {entry : ℤ × ChatRow}
    (hentry : entry ∈ (msgDatabaseAdd io db friendNum sn datetime sender (some direction)
      chatMsg).2.table.rows) :
    entry ∈ db.table.rows ∨
      entry = (datetime.toInt, chatRow friendNum sn sender direction chatMsg) := by
  unfold msgDatabaseAdd at hentry
  split at hentry
  · exact .inl hentry
  · dsimp only at hentry
    split at hentry
    · exact .inl hentry
    · cases io with
      | ok =>
          rcases KeyedTable.Table.mem_insertOrReplace.mp hentry with hnew | ⟨-, hold⟩
          · exact .inr hnew
          · exact .inl hold
      | prepareFails | bindFails | stepFails => exact .inl hentry

/-- A row that is not outgoing changes nothing, also where it takes the place of another. -/
theorem SentRows.incoming {written : List (Telegram ι)} {db : MsgDatabase}
    (hrows : SentRows key own far n written db.table) (io : SqliteResult) (friendNum sn : ℤ)
    (datetime : Int64) (sender chatMsg : Option CStr) :
    SentRows key own far n written
      (msgDatabaseAdd io db friendNum sn datetime sender (some incoming) chatMsg).2.table := by
  intro entry hentry hdirection
  rcases mem_msgDatabaseAdd hentry with hold | rfl
  · exact hrows entry hold hdirection
  · have hother : ToxRelayer.incoming ≠ ToxRelayer.outgoing := by decide
    exact absurd hdirection hother

/-- A row for a telegram that has just been written. -/
theorem SentRows.outgoing {written : List (Telegram ι)} {db : MsgDatabase}
    (hrows : SentRows key own far n written db.table) (io : SqliteResult) {t : Telegram ι} {m : ι}
    {channel back : ℤ} (hfar : far n channel = some (m, back)) (hreceiver : t.receiver = m)
    (hsender : t.sender = n) (hsn : tgSnValid t.sn) (hshort : t.body.length < relayBodyMax)
    (sender : Option CStr) :
    SentRows key own far n (written ++ [t])
      (msgDatabaseAdd io db channel t.sn t.timestamp sender (some outgoing)
        (some t.body)).2.table := by
  intro entry hentry hdirection m' back' hfar'
  rcases mem_msgDatabaseAdd hentry with hold | rfl
  · obtain ⟨earlier, hmem, hkeys⟩ := hrows entry hold hdirection m' back' hfar'
    exact ⟨earlier, List.mem_append_left _ hmem, hkeys⟩
  · obtain ⟨rfl, rfl⟩ := Prod.mk.inj (Option.some.inj (hfar'.symm.trans hfar))
    refine ⟨t, by simp, by rw [hreceiver], by rw [hsender], ?_⟩
    rw [relayRecord_chatMsgRecord hshort, outgoingRecord, RelayNetwork.record]
    dsimp only [chatRow, emptyIfNull, Option.getD_some]
    have hstored : msgDbSnMin ≤ t.sn ∧ t.sn ≤ msgDbSnMax := by
      obtain ⟨hlow, hhigh⟩ := hsn
      rw [tgSnMin] at hlow
      rw [tgSnMax] at hhigh
      rw [msgDbSnMin, msgDbSnMax]
      omega
    rw [clampSn_of_stored hstored, Int64.ofInt_toInt]

/-- The slot a key is found in leads to nobody else: keys of one length do not occur in one
another. -/
theorem Neighbours.leadsTo {table : ℕ → RelayName} (htable : Neighbours key far n table)
    (hlength : ∀ m m', (key m).length = (key m').length) (m m' : ι) (back : ℤ)
    (hfar : far n (lookupChNum table (key m).val) = some (m', back)) : key m' = key m := by
  rcases lookupChNum_cases table (key m).val with hnone | ⟨i, hslot⟩
  · rw [hnone] at hfar
    exact absurd (htable.valid _ _ _ hfar).1 (by decide)
  · rw [hslot] at hfar
    obtain ⟨-, hoccurs, -⟩ := (lookupChNum_eq_iff table (key m).val i).mp hslot
    rw [htable.listed i m' back hfar] at hoccurs
    exact CStr.ext (hoccurs.eq_of_length (hlength m' m))

end

section

variable {ι Ini : Type} {key own : ι → CStr} {far : ι → ℤ → Option (ι × ℤ)}

/-- The environment `relay_init` sets up does for a network. -/
theorem nodeNetwork_wired (minIni : MinIni Ini)
    (hlength : ∀ m m', (key m).length = (key m').length)
    (hfar : ∀ n channel m back, far n channel = some (m, back) → far m back = some (n, channel))
    (hothers : ∀ n channel m back, far n channel = some (m, back) → key m ≠ key n) :
    (nodeNetwork key own far minIni).Wired where
  self := fun _ _ => rfl
  others := hothers
  far_far := hfar
  directed := by
    rintro n written node ⟨-, htable, -⟩
    constructor
    · rintro io _ hpeerKey channel m back hchannel peer hpeer
      obtain rfl := Option.some.inj hpeerKey
      have hvalid := htable.valid channel m back hchannel
      rw [relayPeerKey, if_pos hvalid] at hpeer
      obtain rfl := Option.some.inj hpeer
      obtain ⟨i, rfl⟩ := Int.eq_ofNat_of_zero_le hvalid.1
      exact htable.listed i m back hchannel
    · rintro io _ hresolve m m' back hchannel
      obtain rfl := Option.some.inj hresolve
      exact htable.leadsTo hlength m m' back hchannel
  archives := by
    rintro n written node ⟨-, -, hrows⟩ io _ hfetch channel m back hchannel start target max fetched
      record hrecord
    obtain rfl := Option.some.inj hfetch
    obtain ⟨entry, hentry, rfl, hdirection, rfl⟩ :=
      FriendRun.mem_relayFetchRange (List.mem_of_mem_take hrecord)
    exact hrows entry hentry hdirection m back hchannel
  callbacks := by
    intro n io channel written
    constructor
    · rintro _ hstore node sn timestamp sender body ⟨hself, htable, hrows⟩
      obtain rfl := Option.some.inj hstore
      exact ⟨hself, htable, hrows.incoming io _ _ _ _ _⟩
    · rintro _ henqueue node destination payload now ⟨hself, htable, hrows⟩
      obtain rfl := Option.some.inj henqueue
      exact ⟨hself, htable, hrows⟩
    · rintro _ hremember node sn - ⟨hself, htable, hrows⟩
      obtain rfl := Option.some.inj hremember
      exact ⟨hself, htable, hrows⟩
  more := by
    rintro n written t node ⟨hself, htable, hrows⟩
    refine ⟨hself, htable, fun entry hentry hdirection m back hchannel => ?_⟩
    obtain ⟨earlier, hmem, hkeys⟩ := hrows entry hentry hdirection m back hchannel
    exact ⟨earlier, List.mem_append_left _ hmem, hkeys⟩

/-- What the start of the program sets up does for a network whose channels are the contacts toxcore
lists. -/
theorem nodeKeeps_getRelayNameList {n : ι} (minIni : MinIni Ini) {tox : ToxHandle}
    (hsize : tox.friendListSize ≤ maxFriendNum) (hown : own n = hexString tox.selfAddress.toList)
    (hlisted : ∀ channel m back, far n channel = some (m, back) → ∃ i < tox.friendListSize,
      channel = (i : ℕ) ∧ hexString (tox.friendPublicKey i).toList = key m)
    (ini : Ini) (queue : Mq) {written : List (Telegram ι)} {db : MsgDatabase}
    (hrows : SentRows key own far n written db.table) :
    NodeKeeps key own far n written
      (getRelayNameList minIni tox (nodeAtStart ini queue db)) := by
  rw [getRelayNameList, if_neg hsize.not_gt]
  refine ⟨hown.symm, ⟨?_, ?_⟩, hrows⟩
  · intro i m back hfar
    obtain ⟨i', hi, hchannel, hkey⟩ := hlisted i m back hfar
    obtain rfl := Int.natCast_inj.mp hchannel
    dsimp only
    rw [relayNameLoop_apply, if_pos hi, relayNameEntry_publicKeyStr, hkey]
  · intro channel m back hfar
    obtain ⟨i, hi, rfl, -⟩ := hlisted channel m back hfar
    exact ⟨Int.natCast_nonneg i, Int.ofNat_lt.mpr (hi.trans_le hsize)⟩

/-! ## A line typed at the console -/

/-- Every buffer that holds the record of a telegram gets the same one. -/
theorem TgTextRoundTrips.encodes {outSize outSize' : ℕ} {receiver sender body : CStr} {sn : ℤ}
    {timestamp : Int64}
    (hroundTrips : TgTextRoundTrips outSize receiver sender sn timestamp (some body))
    (hsize : tgBodyMax + 300 ≤ outSize') :
    tgEncodeText outSize' (some receiver) (some sender) sn timestamp (some body) =
      ⟨(tgTextRecord receiver sender sn timestamp body.val).length,
        tgTextRecord receiver sender sn timestamp body.val⟩ := by
  obtain ⟨hreceiver, hsender, hsn, hok, -⟩ := tgEncodeText_accepted hroundTrips.accepted
  have hshort := (tgDecode_body hroundTrips.decodes).1
  exact tgEncodeText_of_valid timestamp hsize hreceiver hsender hsn hok (Nat.lt_of_succ_lt hshort)

variable {n m : ι} {channel : Fin maxFriendNum} {back : ℤ}

/-- The telegram a line becomes. -/
def lineTelegram (node : Node Ini) (n m : ι) (channel : Fin maxFriendNum) (cmBuffer : CStr)
    (curTime : Int64) : Telegram ι :=
  ⟨m, n, tgSnNext (node.relayNameList channel).sendSn, curTime, cmBuffer⟩

section

variable {minIni : MinIni Ini} {written : List (Telegram ι)} {node : Node Ini}
  (hkeeps : NodeKeeps key own far n written node) (hfar : far n (channel : ℕ) = some (m, back))
  {cmBuffer : CStr} {curTime : Int64} (io : SqliteResult)
  (hcarries : (nodeNetwork key own far minIni).Carries
    (lineTelegram node n m channel cmBuffer curTime))

include hkeeps hfar hcarries

theorem NodeKeeps.consoleSend :
    NodeKeeps key own far n (written ++ [lineTelegram node n m channel cmBuffer curTime])
      (consoleSend minIni io node channel cmBuffer curTime).node := by
  have hshort := (tgDecode_body (TgTextRoundTrips.decodes hcarries)).1
  refine ⟨?_, ?_, ?_⟩
  · unfold ToxRelayer.consoleSend
    dsimp only
    split <;> exact hkeeps.self
  · refine ⟨fun i m' back' hfar' => ?_, hkeeps.neighbours.valid⟩
    rw [consoleSend_relayNameList, ← hkeeps.neighbours.listed i m' back' hfar']
    by_cases hi : i = channel
    · rw [hi, Function.update_self]
    · rw [Function.update_of_ne hi]
  · have hrows := hkeeps.sent.outgoing io hfar (t := lineTelegram node n m channel cmBuffer curTime)
      rfl rfl (tgSnNext_valid _) (Nat.lt_of_succ_lt hshort) (some node.selfPublicKeyStr)
    unfold ToxRelayer.consoleSend
    dsimp only
    split <;> exact hrows

/-- The console queues the record of the telegram, or its bare text. -/
theorem consoleSend_payload {payload : Bytes} {code : ℤ}
    (hqueued : (consoleSend minIni io node channel cmBuffer curTime).queued =
      some (payload, code)) :
    payload =
        (nodeNetwork key own far minIni).wire (lineTelegram node n m channel cmBuffer curTime) ∨
      payload = cmBuffer.val := by
  have hpeer := hkeeps.neighbours.listed channel m back hfar
  have hwire : (consoleWire node channel cmBuffer curTime).out =
      (nodeNetwork key own far minIni).wire (lineTelegram node n m channel cmBuffer curTime) := by
    have hsmall := TgTextRoundTrips.encodes hcarries
      (show tgBodyMax + 300 ≤ toxMaxMessageLength + 1 by decide)
    have hlarge := TgTextRoundTrips.encodes hcarries (show tgBodyMax + 300 ≤ relayWireMax by decide)
    rw [RelayNetwork.wire, TgEncoded.wire, hlarge, Int.toNat_natCast, List.take_length, consoleWire,
      hpeer, hkeeps.self]
    exact congrArg TgEncoded.out hsmall
  unfold consoleSend at hqueued
  dsimp only at hqueued
  split at hqueued
  · cases hqueued
  · obtain ⟨rfl, -⟩ := Prod.mk.inj (Option.some.inj hqueued)
    rw [hwire]
    exact ite_eq_or_eq _ _ _

end

/-- What the console does with a line is a run of the network: the telegram is written, the node
takes its new state, and what the queue is given may be queued. -/
theorem consoleSend_steps [DecidableEq ι] (minIni : MinIni Ini)
    {s : NetworkState ι fun _ => Node Ini} (hfar : far n (channel : ℕ) = some (m, back))
    (hkeeps : NodeKeeps key own far n s.written (s.relay n).ctx) (cmBuffer : CStr) (curTime : Int64)
    (io : SqliteResult) (hcarries : (nodeNetwork key own far minIni).Carries
      (lineTelegram (s.relay n).ctx n m channel cmBuffer curTime)) :
    let sent := consoleSend minIni io (s.relay n).ctx channel cmBuffer curTime
    Relation.ReflTransGen (nodeNetwork key own far minIni).Step s
      { relay := Function.update s.relay n { s.relay n with ctx := sent.node }
        written := s.written ++ [lineTelegram (s.relay n).ctx n m channel cmBuffer curTime]
        queued := s.queued ++ (sent.queued.map fun call => ⟨n, channel, call.1, false⟩).toList
        stored := s.stored } := by
  intro sent
  let net := nodeNetwork key own far minIni
  let t : Telegram ι := lineTelegram (s.relay n).ctx n m channel cmBuffer curTime
  let relay : RelayState (Node Ini) := { s.relay n with ctx := sent.node }
  have hkept := hkeeps.consoleSend hfar io hcarries
  let begun : NetworkState ι fun _ => Node Ini := { s with written := s.written ++ [t] }
  have hwrite : net.Step s begun := .write t hcarries
  have hhost : net.Step begun { begun with relay := Function.update s.relay n relay } :=
    RelayNetwork.Step.host (s := begun) n relay hkept
  refine .head hwrite (.head hhost ?_)
  cases hqueued : sent.queued with
  | none =>
      rw [Option.map_none, Option.toList_none, List.append_nil]
  | some call =>
      refine .single (.queue n channel call.1 ?_)
      intro tg hdecode hkind
      rcases consoleSend_payload hkeeps hfar io hcarries hqueued with hpayload | hpayload
      · exact ⟨t, List.mem_append_right _ List.mem_cons_self, hpayload⟩
      · have hundecodable : tgDecode cmBuffer.val = none :=
          TgTextRoundTrips.text_undecodable hcarries
        rw [hpayload, hundecodable] at hdecode
        cases hdecode

end

/-! ## Three nodes -/

/-- Node 1 has a channel to each of the others. -/
def nodeFar : Fin 3 → ℤ → Option (Fin 3 × ℤ)
  | 0, 0 => some (1, 0)
  | 1, 0 => some (0, 0)
  | 1, 1 => some (2, 0)
  | 2, 0 => some (1, 1)
  | _, _ => none

/-- The bytes of the keys and addresses of a node. -/
def nodeByte (n : Fin 3) : UInt8 := (n.val + 1).toUInt8

def nodeKey (n : Fin 3) : CStr := hexString (List.replicate 32 (nodeByte n))

def nodeAddress (n : Fin 3) : CStr := hexString (List.replicate 38 (nodeByte n))

def nodeTox (n : Fin 3) : ToxHandle where
  friendListSize := if n = 1 then 2 else 1
  friendPublicKey := fun i =>
    Vector.replicate 32 (((nodeFar n i).map fun far => nodeByte far.1).getD 0)
  selfAddress := Vector.replicate 38 (nodeByte n)

/-- Settings in which every contact has the metaCom flag. -/
def metaIni : MinIni Unit :=
  { emptyIni with
    gets := fun _ sect _ default _ =>
      CStr.ofBuffer (if sect = bytes "meta_chat_flag" then bytes "1" else default) }

/-- The nodes as the program starts them. -/
def startedNode (n : Fin 3) : Node Unit :=
  getRelayNameList metaIni (nodeTox n) (nodeAtStart () mqInit msgDatabaseOpened)

/-- The nodes as relay.h describes them know themselves by the keys their contacts list; as the
program starts them they do so by their addresses. -/
def threeNodes (own : Fin 3 → CStr) : RelayNetwork (Fin 3) SqliteResult fun _ => Node Unit :=
  nodeNetwork nodeKey own nodeFar metaIni

def threeStart (own : Fin 3 → CStr) : NetworkState (Fin 3) fun _ => Node Unit where
  relay n := ⟨{ startedNode n with selfPublicKeyStr := own n }, fun _ => snTrackerInit tgSnMin⟩
  written := []
  queued := []
  stored := []

/-- Node 0 writes to node 2, which it reaches by way of node 1. -/
def farTelegram : Telegram (Fin 3) := ⟨2, 0, 7, 1700000000, pairBody⟩

theorem nodeFar_far (n : Fin 3) (channel : ℤ) (m : Fin 3) (back : ℤ)
    (hfar : nodeFar n channel = some (m, back)) : nodeFar m back = some (n, channel) := by
  unfold nodeFar at hfar
  split at hfar <;> cases hfar <;> rfl

theorem nodeFar_others (n : Fin 3) (channel : ℤ) (m : Fin 3) (back : ℤ)
    (hfar : nodeFar n channel = some (m, back)) : nodeKey m ≠ nodeKey n := by
  unfold nodeFar at hfar
  split at hfar <;> cases hfar <;> decide

theorem threeNodes_wired (own : Fin 3 → CStr) : (threeNodes own).Wired :=
  nodeNetwork_wired metaIni (fun _ _ => rfl) nodeFar_far nodeFar_others

/-- A channel of a node is a contact toxcore lists. -/
theorem nodeTox_lists (n : Fin 3) (channel : ℤ) (m : Fin 3) (back : ℤ)
    (hfar : nodeFar n channel = some (m, back)) :
    ∃ i < (nodeTox n).friendListSize, channel = (i : ℕ) ∧
      hexString ((nodeTox n).friendPublicKey i).toList = nodeKey m := by
  have hkey : ∀ i : ℕ, channel = i →
      hexString ((nodeTox n).friendPublicKey i).toList = nodeKey m := by
    rintro i rfl
    rw [nodeTox, nodeKey]
    dsimp only
    rw [hfar, Option.map_some, Option.getD_some, Vector.toList_replicate]
  unfold nodeFar at hfar
  split at hfar <;> cases hfar
  · exact ⟨0, by decide, rfl, hkey 0 rfl⟩
  · exact ⟨0, by decide, rfl, hkey 0 rfl⟩
  · exact ⟨1, by decide, rfl, hkey 1 rfl⟩
  · exact ⟨0, by decide, rfl, hkey 0 rfl⟩

theorem startedNode_keeps (n : Fin 3) :
    NodeKeeps nodeKey nodeAddress nodeFar n [] (startedNode n) := by
  have hsize : (nodeTox n).friendListSize ≤ maxFriendNum := by
    rw [nodeTox]
    dsimp only
    split <;> decide
  have hown : nodeAddress n = hexString (nodeTox n).selfAddress.toList := by
    rw [nodeAddress, nodeTox, Vector.toList_replicate]
  have hrows : SentRows nodeKey nodeAddress nodeFar n [] msgDatabaseOpened.table :=
    fun _ hentry => absurd hentry List.not_mem_nil
  exact nodeKeeps_getRelayNameList metaIni hsize hown (nodeTox_lists n) () mqInit hrows

theorem threeStart_initial (own : Fin 3 → CStr) : (threeNodes own).Initial (threeStart own) := by
  refine ⟨fun n => ⟨rfl, (startedNode_keeps n).neighbours, ?_⟩, nofun, rfl, rfl⟩
  have hrows : (startedNode n).db.table.rows = [] := by
    rw [startedNode, getRelayNameList]
    split <;> rfl
  intro entry hentry
  rw [threeStart, hrows] at hentry
  cases hentry

section

variable (own : Fin 3 → CStr)

def toHub : QueuedPayload (Fin 3) := ⟨0, 0, (threeNodes own).wire farTelegram, false⟩

def fromHub : QueuedPayload (Fin 3) := ⟨1, 1, (threeNodes own).wire farTelegram, true⟩

/-- The record has been given to node 1, ... -/
def threeSent : NetworkState (Fin 3) fun _ => Node Unit :=
  { threeStart own with
    written := [farTelegram]
    queued := [toHub own] }

/-- ... which passes it on ... -/
def threeForwarded : NetworkState (Fin 3) fun _ => Node Unit :=
  (threeNodes own).reach (threeSent own) (toHub own) 1 0 .ok 1700000001

/-- ... to node 2. -/
def threeDelivered : NetworkState (Fin 3) fun _ => Node Unit :=
  (threeNodes own).reach (threeForwarded own) (fromHub own) 2 0 .ok 1700000002

variable {own}

theorem threeDelivered_run (hcarried : (threeNodes own).Carries farTelegram)
    (hqueued : fromHub own ∈ (threeForwarded own).queued) :
    Relation.ReflTransGen (threeNodes own).Step (threeStart own) (threeDelivered own) := by
  have hwrite : (threeNodes own).Step (threeStart own)
      { threeStart own with written := [farTelegram] } := .write farTelegram hcarried
  have hqueue : (threeNodes own).Step { threeStart own with written := [farTelegram] }
      (threeSent own) := by
    refine .queue 0 0 ((threeNodes own).wire farTelegram) fun _ _ _ => ?_
    exact ⟨farTelegram, List.mem_cons_self, rfl⟩
  have hsent : toHub own ∈ (threeSent own).queued := List.mem_cons_self
  have htoHub : (threeNodes own).far (toHub own).relay (toHub own).channel = some (1, 0) := rfl
  have hfromHub : (threeNodes own).far (fromHub own).relay (fromHub own).channel = some (2, 0) :=
    rfl
  have hforward : (threeNodes own).Step (threeSent own) (threeForwarded own) :=
    .arrive (toHub own) hsent 1 0 htoHub .ok 1700000001
  have hdeliver : (threeNodes own).Step (threeForwarded own) (threeDelivered own) :=
    .arrive (fromHub own) hqueued 2 0 hfromHub .ok 1700000002
  exact .head hwrite (.head hqueue (.head hforward (.single hdeliver)))

end

/-- Between nodes that know themselves by the keys their contacts list, the telegram is stored where
it was written for. -/
theorem stored_genuine_delivered :
    (threeDelivered nodeKey).stored = [(2, .store 0 7 1700000000 (nodeKey 0) pairBody)] ∧
      ∀ entry ∈ (threeDelivered nodeKey).stored, ∃ t ∈ (threeDelivered nodeKey).written,
        nodeKey t.receiver = nodeKey entry.1 ∧ ∃ channel,
          entry.2 = .store channel t.sn t.timestamp (nodeKey t.sender) t.body := by
  have hcarried : (threeNodes nodeKey).Carries farTelegram :=
    ⟨⟨.text, nodeKey 2, nodeKey 0, 7, 0, 1700000000, pairBody⟩, by decide +kernel, rfl, rfl, rfl,
      rfl, rfl, rfl⟩
  have hrun := threeDelivered_run hcarried (by decide +kernel)
  exact ⟨by decide +kernel,
    RelayNetwork.stored_genuine (threeNodes_wired nodeKey) (threeStart_initial nodeKey) hrun⟩

/-- Between the nodes as the program starts them, node 2 gives the telegram to a channel that leads
to nobody. -/
theorem relayed_addressed_delivered :
    (threeStart nodeAddress).relay = (fun n => ⟨startedNode n, fun _ => snTrackerInit tgSnMin⟩) ∧
      ((threeDelivered nodeAddress).queued.map fun entry => (entry.relay, entry.channel)) =
        [(0, 0), (1, 1), (2, 1)] ∧
      ∀ entry ∈ (threeDelivered nodeAddress).queued, entry.relayed = true →
        (threeNodes nodeAddress).Addressed (threeDelivered nodeAddress).written entry.relay
          entry.channel entry.payload ∧
        ∀ m back, nodeFar entry.relay entry.channel = some (m, back) →
          ∀ (relay : RelayState (Node Unit)) (answer : SqliteResult) (now : ℤ),
            let step := relayReceive ((threeNodes nodeAddress).env m answer) relay back
              entry.payload now
            (nodeAddress m = nodeKey m → ¬ step.outcome.PassesOn) ∧
            (¬ IsControl entry.payload →
              NodeKeeps nodeKey nodeAddress nodeFar m (threeDelivered nodeAddress).written
                relay.ctx →
              ∀ call ∈ step.queued, IsControl call.2 ∨ nodeFar m call.1 = none) := by
  have hcarried : (threeNodes nodeAddress).Carries farTelegram :=
    ⟨⟨.text, nodeKey 2, nodeAddress 0, 7, 0, 1700000000, pairBody⟩, by decide +kernel, rfl, rfl,
      rfl, rfl, rfl, rfl⟩
  have hrun := threeDelivered_run hcarried (by decide +kernel)
  refine ⟨?_, by decide +kernel, RelayNetwork.relayed_addressed (threeNodes_wired nodeAddress)
    (threeStart_initial nodeAddress) hrun⟩
  funext n
  have hself : (startedNode n).selfPublicKeyStr = nodeAddress n := (startedNode_keeps n).self
  rw [threeStart]
  dsimp only
  rw [← hself]

end ToxRelayer
