import ToxRelayer.ArchiveHistory
import ToxRelayer.Directory
import ToxRelayer.MsgQueueInvariant
import ToxRelayer.TelegramRoundTrip

/-!
# Answering a request for a replay

`relay_serve_replay` takes the oldest rows with a requested serial, as many as
it may.  After a full lap of the serials these are stale telegrams.
-/

namespace ToxRelayer

open CString
open KeyedTable (latestBy take_perm_latestBy_iff)
open RingIndex

/-! ## What the queue holds -/

/-- The stored messages, by friend number and bytes. -/
def Mq.held (cap : ℕ) (q : Mq) : Multiset (ℤ × Bytes) :=
  (slotsWhere cap MqEntry.Occupied q.ring).val.map fun slot =>
    ((q.ring slot).friendnum, (q.ring slot).payload)

section

variable {cap : ℕ} {q : Mq}

theorem Mq.held_place {slot : ℕ} (hslot : slot < cap) (hfree : ¬ (q.ring slot).Occupied)
    (friendnum : ℤ) (payload : Bytes) (now : ℤ) :
    (q.place cap slot (mqNewEntry friendnum payload now)).held cap =
      (friendnum, payload) ::ₘ q.held cap := by
  have hnotMem : slot ∉ slotsWhere cap MqEntry.Occupied q.ring :=
    fun hmem => hfree (mem_slotsWhere.mp hmem).2
  simp only [Mq.held, Mq.place]
  rw [slotsWhere_update_of_pos hslot (by simp [MqEntry.Occupied, mqNewEntry]),
    Finset.insert_val_of_notMem hnotMem, Multiset.map_cons, Function.update_self]
  refine congrArg _ (Multiset.map_congr rfl ?_)
  intro other hother
  have hne : other ≠ slot := by
    rintro rfl
    exact hnotMem hother
  rw [Function.update_of_ne hne]

theorem MqCounted.exists_free_iff (hq : MqCounted cap q) :
    q.count < cap ↔ ∃ slot < cap, ¬ (q.ring slot).Occupied := by
  have hsubset : slotsWhere cap MqEntry.Occupied q.ring ⊆ Finset.range cap :=
    Finset.filter_subset _ _
  rw [hq.count_eq]
  constructor
  · intro hlt
    by_contra hfull
    simp only [not_exists, not_and, not_not] at hfull
    have hall : Finset.range cap ⊆ slotsWhere cap MqEntry.Occupied q.ring := by
      intro slot hslot
      exact mem_slotsWhere.mpr ⟨Finset.mem_range.mp hslot, hfull slot (Finset.mem_range.mp hslot)⟩
    have hle := Finset.card_le_card hall
    rw [Finset.card_range] at hle
    omega
  · rintro ⟨slot, hslot, hfree⟩
    have hlt := Finset.card_lt_card (Finset.ssubset_iff_subset_ne.mpr ⟨hsubset, by
      intro hsame
      have hmem : slot ∈ slotsWhere cap MqEntry.Occupied q.ring := by
        rw [hsame]
        exact Finset.mem_range.mpr hslot
      exact hfree (mem_slotsWhere.mp hmem).2⟩)
    rwa [Finset.card_range] at hlt

/-- Where there is room, a message with valid arguments is stored; a full queue
stays as it is. -/
theorem mqEnqueue_held (hq : MqInv cap q) {friendnum : ℤ} {payload : Bytes}
    (hfriendnum : 0 ≤ friendnum) (hlength : 0 < payload.length)
    (hmax : payload.length < mqPayloadMax) (now : ℤ) :
    let after := (mqEnqueue cap q friendnum (some payload) now).queue
    MqInv cap after ∧
      (q.count < cap ∧ after.held cap = (friendnum, payload) ::ₘ q.held cap ∧
          after.count = q.count + 1 ∨
        q.count = cap ∧ after.held cap = q.held cap ∧ after.count = q.count) := by
  rcases mqEnqueue_cases hq.toMqCounted friendnum (some payload) now with
    ⟨-, ⟨rejections, hqueue⟩, hfull⟩ | ⟨k, hk, bytes, ⟨⟩, -, -, -, -, hfree, -, hresult⟩
  · have hoccupied := hfull payload rfl hfriendnum hlength hmax
    have hcount : q.count = cap := by
      have hle := hq.count_le
      by_contra hne
      obtain ⟨slot, hslot, hfree⟩ := hq.exists_free_iff.mp (by omega)
      exact hfree (hoccupied slot hslot)
    rw [hqueue]
    exact ⟨hq.withStats _, .inr ⟨hcount, rfl, rfl⟩⟩
  · have hslot : slotAt cap q.tail k < cap := slotAt_lt (by omega) k
    rw [hresult]
    exact ⟨hq.place hslot hfree rfl, .inl ⟨hq.exists_free_iff.mpr ⟨_, hslot, hfree⟩,
      Mq.held_place hslot hfree friendnum payload now, rfl⟩⟩

end

/-! ## The records of a replay -/

/-- A record that `tg_encode_text` accepts and the buffers of the replay hold. -/
structure RelayRecord.Replayable (record : RelayRecord) : Prop where
  sn : tgSnValid record.sn
  body : tgBodyOk (some record.body) = true
  short : record.body.length < relayBodyMax

/-- The telegram that is queued for a record. -/
def RelayRecord.wire (peer self : CStr) (record : RelayRecord) : Bytes :=
  tgTextRecord peer self record.sn record.timestamp record.body.val

section

variable {peer self : CStr} (hpeer : tgFieldOk (some peer) = true)
  (hself : tgFieldOk (some self) = true)

include hpeer hself

theorem RelayRecord.Replayable.encodes {record : RelayRecord} (hrecord : record.Replayable) :
    tgEncodeText relayWireMax (some peer) (some self) record.sn record.timestamp
        (some record.body) =
      ⟨(record.wire peer self).length, record.wire peer self⟩ :=
  tgEncodeText_of_valid record.timestamp (by decide) hpeer hself hrecord.sn hrecord.body
    hrecord.short

theorem RelayRecord.Replayable.wire_length {record : RelayRecord} (hrecord : record.Replayable) :
    0 < (record.wire peer self).length ∧ (record.wire peer self).length < mqPayloadMax := by
  have hshort : record.body.val.length < 1024 := hrecord.short
  have hlength := tgTextRecord_length_lt record.timestamp record.body.val hpeer hself hrecord.sn
  refine ⟨?_, ?_⟩
  · rw [RelayRecord.wire, tgTextRecord, List.length_append]
    exact Nat.add_pos_left (by decide) _
  · simp only [RelayRecord.wire, mqPayloadMax]
    omega

/-- The loop stores the telegrams of as many records as the queue has room for. -/
theorem relayReplayLoop_held {Ini : Type} {channel : ℤ} (hchannel : 0 ≤ channel) (now : ℤ)
    {records : List RelayRecord} (hrecords : ∀ record ∈ records, record.Replayable)
    {node : Node Ini} (hq : MqInv mqCapacity node.queue) :
    (relayReplayLoop relayEnqueue channel peer (some self) now records
        node).2.1.queue.held mqCapacity =
      node.queue.held mqCapacity +
        ((records.take (mqCapacity - node.queue.count)).map fun record =>
          (channel, record.wire peer self) : List (ℤ × Bytes)) := by
  induction records generalizing node with
  | nil => simp [relayReplayLoop]
  | cons record records ih =>
      have hfirst := hrecords record List.mem_cons_self
      have hrest := fun other hmem => hrecords other (List.mem_cons_of_mem record hmem)
      obtain ⟨hpositive, hfits⟩ := hfirst.wire_length hpeer hself
      have hcode : ¬ ((record.wire peer self).length : ℤ) ≤ 0 := by omega
      have hwire : TgEncoded.wire ⟨(record.wire peer self).length, record.wire peer self⟩ =
          record.wire peer self := by
        rw [TgEncoded.wire, Int.toNat_natCast, List.take_length]
      simp only [relayReplayLoop, hfirst.encodes hpeer hself, hcode, if_false, hwire]
      obtain ⟨hqAfter, hstored⟩ := mqEnqueue_held hq hchannel hpositive hfits now
      rw [ih hrest hqAfter]
      simp only [relayEnqueue]
      rcases hstored with ⟨hroom, hheld, hcount⟩ | ⟨hfull, hheld, hcount⟩
      · have hleft : mqCapacity - node.queue.count =
            mqCapacity - (node.queue.count + 1) + 1 := by omega
        rw [hheld, hcount, hleft, List.take_succ_cons, List.map_cons, ← Multiset.cons_coe,
          Multiset.cons_add, Multiset.add_cons]
      · rw [hheld, hcount, hfull, Nat.sub_self, List.take_zero, List.take_zero]

end

/-! ## The rows of a request -/

theorem copyBounded_of_lt {dstSize : ℕ} {src : CStr} (hfits : src.length < dstSize) :
    copyBounded dstSize src = src := by
  have htake := snprintf_of_length_lt hfits
  cases src
  simp only [copyBounded, CStr.mk.injEq]
  exact htake

/-- A stored row as the telegram it was stored for. -/
def outgoingRecord (entry : ℤ × ChatRow) : RelayRecord :=
  ⟨entry.2.sn, Int64.ofInt entry.1, entry.2.message⟩

theorem relayRecord_chatMsgRecord {entry : ℤ × ChatRow}
    (hshort : entry.2.message.length < relayBodyMax) :
    relayRecord (chatMsgRecord entry) = outgoingRecord entry := by
  have hmax : msgDbMessageMax = relayBodyMax := rfl
  simp only [relayRecord, chatMsgRecord, outgoingRecord, hmax, copyBounded_of_lt hshort]

/-- The rows whose serials are asked for, in the order of a history. -/
def requestedRows (start target : ℤ) (rows : List (ℤ × ChatRow)) : List (ℤ × ChatRow) :=
  rows.filter fun entry => inSnRange start target entry.2.sn

theorem relayFetchRange_eq {Ini : Type} {node : Node Ini} {channel : ℕ} {start target : ℤ}
    {rows : List (ℤ × ChatRow)} (hready : node.db.ready = true)
    (hrows : node.db.table.rows.filter (onChannel channel outgoing) = rows)
    (hshort : ∀ entry ∈ rows, entry.2.message.length < relayBodyMax)
    (hstart : tgSnValid start) (htarget : tgSnValid target) :
    let found := (requestedRows start target rows).take relayMaxReplay
    relayFetchRange .ok node channel start target relayMaxReplay =
      ((found.length : ℤ), found.map outgoingRecord) := by
  intro found
  have hargs : ¬ ((relayMaxReplay : ℤ) ≤ 0 ∨ (channel : ℤ) < 0) := by
    simp only [relayMaxReplay]
    omega
  have hvalid : ¬ (start < msgDbSnMin ∨ msgDbSnMax < start ∨ target < msgDbSnMin ∨
      msgDbSnMax < target) := by
    simp only [tgSnValid, tgSnMin, tgSnMax, msgDbSnMin, msgDbSnMax] at hstart htarget ⊢
    omega
  have hselect : node.db.table.select (fun entry =>
      onChannel channel outgoing entry && inSnRange start target entry.2.sn) relayMaxReplay =
        found := by
    rw [KeyedTable.Table.select]
    simp only [found, requestedRows, ← hrows, List.filter_filter, Bool.and_comm]
  have hrange : msgDatabaseRange .ok node.db channel (some outgoing) start target
      relayMaxReplay = ((found.length : ℤ), found.map chatMsgRecord) := by
    simp only [msgDatabaseRange, hready, Bool.not_true, Bool.false_eq_true, if_false, hargs,
      hvalid, Int.toNat_natCast, hselect, List.length_map]
  have hrecords : (found.map chatMsgRecord).map relayRecord = found.map outgoingRecord := by
    rw [List.map_map]
    refine List.map_congr_left ?_
    intro entry hmem
    exact relayRecord_chatMsgRecord
      (hshort entry (List.mem_of_mem_filter (List.mem_of_mem_take hmem)))
  simp only [relayFetchRange, lt_irrefl, if_false, hrange, hrecords]
  by_cases hempty : (found.length : ℤ) ≤ 0
  · have hnil : found = [] := List.length_eq_zero_iff.mp (by omega)
    rw [if_pos hempty, hnil]
    rfl
  · rw [if_neg hempty]

/-- A serial lies in a range when it is no further from its start than its end. -/
theorem inSnRange_iff_distance {start target sn : ℤ} (hstart : tgSnValid start)
    (htarget : tgSnValid target) (hsn : tgSnValid sn) :
    inSnRange start target sn = true ↔ tgSnDistance start sn ≤ tgSnDistance start target := by
  simp only [tgSnValid, tgSnMin, tgSnMax] at hstart htarget hsn
  rw [tgSnDistance_eq, tgSnDistance_eq]
  unfold inSnRange
  split
  · rw [decide_eq_true_iff]
    omega
  · rw [decide_eq_true_iff]
    omega

theorem length_le_of_inSnRange {start target : ℤ} {serials : List ℤ} (hstart : tgSnValid start)
    (htarget : tgSnValid target) (hnodup : serials.Nodup)
    (hvalid : ∀ sn ∈ serials, tgSnValid sn)
    (hrange : ∀ sn ∈ serials, inSnRange start target sn = true) :
    (serials.length : ℤ) ≤ tgSnDistance start target + 1 := by
  have hdistance : ∀ sn ∈ serials, 0 ≤ tgSnDistance start sn ∧
      tgSnDistance start sn ≤ tgSnDistance start target := by
    intro sn hmem
    refine ⟨?_, (inSnRange_iff_distance hstart htarget (hvalid sn hmem)).mp (hrange sn hmem)⟩
    rw [tgSnDistance_eq]
    omega
  simp only [tgSnValid, tgSnMin, tgSnMax] at hstart htarget hvalid
  let steps := serials.map fun sn => (tgSnDistance start sn).toNat
  have hdistinct : steps.Nodup := by
    refine List.Nodup.map_on ?_ hnodup
    intro a ha b hb hsame
    have hvalidA := hvalid a ha
    have hvalidB := hvalid b hb
    have hboundA := (hdistance a ha).1
    have hboundB := (hdistance b hb).1
    rw [tgSnDistance_eq] at hboundA hboundB
    rw [tgSnDistance_eq, tgSnDistance_eq] at hsame
    omega
  have hsubset : steps ⊆ List.range ((tgSnDistance start target).toNat + 1) := by
    intro step hstep
    obtain ⟨sn, hmem, rfl⟩ := List.mem_map.mp hstep
    obtain ⟨hlow, hhigh⟩ := hdistance sn hmem
    exact List.mem_range.mpr (by omega)
  have hlength := (hdistinct.subperm hsubset).length_le
  rw [List.length_map, List.length_range] at hlength
  have hnonneg : 0 ≤ tgSnDistance start target := by
    rw [tgSnDistance_eq]
    omega
  omega

/-! ## The answer -/

theorem relayServeReplay_of_fetched {σ : Type} {env : RelayEnv σ} {s : RelayState σ}
    {channel : ℤ} {cmd : TgMessage} {fetchRange : σ → ℤ → ℤ → ℤ → ℕ → ℤ × List RelayRecord}
    {enqueue : σ → ℤ → Bytes → ℤ → ℤ × σ} {peerKey : σ → ℤ → Option CStr} {peer : CStr}
    {records : List RelayRecord} (now : ℤ) (hfetch : env.fetchRange = some fetchRange)
    (henqueue : env.enqueue = some enqueue) (hkey : env.peerKey = some peerKey)
    (hpeer : peerKey s.ctx channel = some peer)
    (hfetched : fetchRange s.ctx channel cmd.sn cmd.snTo relayMaxReplay =
      ((records.length : ℤ), records)) :
    let replay := relayReplayLoop enqueue channel peer env.selfPublicKey now records s.ctx
    (relayServeReplay env s channel cmd now).state = { s with ctx := replay.2.1 } ∧
      (relayServeReplay env s channel cmd now).calls = replay.2.2 := by
  simp only [relayServeReplay, hfetch, henqueue, hkey, hpeer, hfetched, Int.toNat_natCast,
    List.take_length]
  by_cases hempty : (records.length : ℤ) ≤ 0
  · obtain rfl : records = [] := List.length_eq_zero_iff.mp (by omega)
    rw [if_pos hempty]
    exact ⟨rfl, rfl⟩
  · rw [if_neg hempty]
    exact ⟨rfl, rfl⟩

/-- What is queued: for every requested serial that has been sent, the last
telegram that carried it, once. -/
def AnswersRequest (peer self : CStr) (channel start target : ℤ) (history : List (ℤ × ChatRow))
    (before after : Mq) : Prop :=
  after.held mqCapacity = before.held mqCapacity +
    ((latestBy (·.2.sn) (requestedRows start target history)).map fun entry =>
      (channel, (outgoingRecord entry).wire peer self) : List (ℤ × Bytes))

/-- Outgoing telegrams with consecutive serials, all of them stored, each later
than the one before. -/
structure SentHistory (adds : List ArchiveAdd) (channel : ℕ) (start : ℤ) (n : ℕ) : Prop where
  start_valid : tgSnValid start
  times : (acceptedTimes adds).Nodup
  serials : (storedOn channel outgoing adds).map (·.2.sn) = serialsFrom start n
  increasing : (storedOn channel outgoing adds).Pairwise fun a b => a.1 < b.1
  bodies : ∀ entry ∈ storedOn channel outgoing adds,
    tgBodyOk (some entry.2.message) = true ∧ entry.2.message.length < relayBodyMax

section

variable {adds : List ArchiveAdd} {channel : ℕ} {start : ℤ} {n : ℕ}

theorem SentHistory.replayable (hhistory : SentHistory adds channel start n)
    {entry : ℤ × ChatRow} (hmem : entry ∈ storedOn channel outgoing adds) :
    (outgoingRecord entry).Replayable := by
  have hserial : entry.2.sn ∈ serialsFrom start n := by
    rw [← hhistory.serials]
    exact List.mem_map.mpr ⟨entry, hmem, rfl⟩
  obtain ⟨hbody, hshort⟩ := hhistory.bodies entry hmem
  exact ⟨serialsFrom_valid hhistory.start_valid hserial, hbody, hshort⟩

theorem storedOn_time {friendNum : ℤ} {direction : CStr} {entry : ℤ × ChatRow}
    (hmem : entry ∈ storedOn friendNum direction adds) :
    ∃ time : Int64, entry.1 = time.toInt := by
  obtain ⟨add, -, rfl⟩ := List.mem_map.mp (List.mem_of_mem_filter hmem)
  exact ⟨add.datetime, rfl⟩

theorem SentHistory.wires_nodup (hhistory : SentHistory adds channel start n) (peer self : CStr)
    (start' target : ℤ) :
    ((requestedRows start' target (storedOn channel outgoing adds)).map fun entry =>
      ((channel : ℤ), (outgoingRecord entry).wire peer self)).Nodup := by
  refine List.pairwise_map.mpr (List.Pairwise.imp_of_mem ?_ (hhistory.increasing.filter _))
  intro a b ha hb hlt hsame
  have hmemA := List.mem_of_mem_filter ha
  have hmemB := List.mem_of_mem_filter hb
  obtain ⟨timeA, htimeA⟩ := storedOn_time hmemA
  obtain ⟨timeB, htimeB⟩ := storedOn_time hmemB
  have hwire := (Prod.mk.inj hsame).2
  obtain ⟨-, htime⟩ := tgTextRecord_inj (hhistory.replayable hmemA).sn
    (hhistory.replayable hmemB).sn hwire
  simp only [outgoingRecord, htimeA, htimeB, Int64.ofInt_toInt] at htime
  rw [htimeA, htimeB, htime] at hlt
  exact lt_irrefl _ hlt

variable {Ini : Type} (minIni : MinIni Ini) {peer self : CStr} {s : RelayState (Node Ini)}
  (hhistory : SentHistory adds channel start n)
  (hdb : s.ctx.db = archiveAfter adds msgDatabaseOpened)
  (hqueue : MqInv mqCapacity s.ctx.queue) (hpeerKey : relayPeerKey s.ctx channel = some peer)
  (hpeer : tgFieldOk (some peer) = true) (hself : tgFieldOk (some self) = true)

include hhistory hdb hqueue hpeerKey hpeer hself

theorem relayServeReplay_held (cmd : TgMessage) (now : ℤ) (hsn : tgSnValid cmd.sn)
    (hsnTo : tgSnValid cmd.snTo) :
    (relayServeReplay (relayInit minIni .ok self) s channel cmd
        now).state.ctx.queue.held mqCapacity =
      s.ctx.queue.held mqCapacity +
        (((requestedRows cmd.sn cmd.snTo (storedOn channel outgoing adds)).take
            (min (mqCapacity - s.ctx.queue.count) relayMaxReplay)).map fun entry =>
          (channel, (outgoingRecord entry).wire peer self) : List (ℤ × Bytes)) := by
  have hready : s.ctx.db.ready = true := by
    rw [hdb]
    exact archiveAfter_ready adds rfl
  have hrows := archiveAfter_onChannel_eq hhistory.times hhistory.increasing
  rw [← hdb] at hrows
  have hfetched := relayFetchRange_eq hready hrows
    (fun entry hmem => (hhistory.bodies entry hmem).2) hsn hsnTo
  have hserved := relayServeReplay_of_fetched (s := s) now
    (show (relayInit minIni .ok self).fetchRange = _ from rfl) rfl rfl hpeerKey
    (by rw [hfetched, List.length_map])
  have hreplayable : ∀ record ∈ ((requestedRows cmd.sn cmd.snTo
      (storedOn channel outgoing adds)).take relayMaxReplay).map outgoingRecord,
      record.Replayable := by
    intro record hrecord
    obtain ⟨entry, hentry, rfl⟩ := List.mem_map.mp hrecord
    exact hhistory.replayable (List.mem_of_mem_filter (List.mem_of_mem_take hentry))
  have hloop := relayReplayLoop_held hpeer hself (Int.natCast_nonneg channel) now hreplayable
    hqueue
  rw [hserved.1]
  refine hloop.trans ?_
  rw [← List.map_take, List.take_take, List.map_map]
  rfl

/-- A request for a replay is answered as it should exactly when no requested
serial has been sent more than once and the queue has a free slot for every
requested telegram. -/
theorem relayServeReplay_answers_iff (cmd : TgMessage) (now : ℤ) (hsn : tgSnValid cmd.sn)
    (hsnTo : tgSnValid cmd.snTo)
    (hcovers : tgSnDistance cmd.sn cmd.snTo + 1 ≤ relayMaxReplay) :
    let requested := requestedRows cmd.sn cmd.snTo (storedOn channel outgoing adds)
    AnswersRequest peer self channel cmd.sn cmd.snTo (storedOn channel outgoing adds)
        s.ctx.queue
        (relayServeReplay (relayInit minIni .ok self) s channel cmd now).state.ctx.queue ↔
      (requested.map (·.2.sn)).Nodup ∧ requested.length + s.ctx.queue.count ≤ mqCapacity := by
  intro requested
  rw [AnswersRequest, relayServeReplay_held minIni hhistory hdb hqueue hpeerKey hpeer hself cmd
    now hsn hsnTo, add_right_inj, Multiset.coe_eq_coe,
    take_perm_latestBy_iff _ (hhistory.wires_nodup peer self cmd.sn cmd.snTo)]
  change (requested.map (·.2.sn)).Nodup ∧
    requested.length ≤ min (mqCapacity - s.ctx.queue.count) relayMaxReplay ↔ _
  refine and_congr_right ?_
  intro honce
  have hshort : ((requested.map (·.2.sn)).length : ℤ) ≤ tgSnDistance cmd.sn cmd.snTo + 1 := by
    refine length_le_of_inSnRange hsn hsnTo honce ?_ ?_
    · intro sn hmem
      obtain ⟨entry, hentry, rfl⟩ := List.mem_map.mp hmem
      exact (hhistory.replayable (List.mem_of_mem_filter hentry)).sn
    · intro sn hmem
      obtain ⟨entry, hentry, rfl⟩ := List.mem_map.mp hmem
      exact (List.mem_filter.mp hentry).2
  have hcount := hqueue.count_le
  rw [List.length_map] at hshort
  omega

end

/-! ## Whole laps -/

theorem lapAdds_sent {start : ℤ} (hstart : tgSnValid start) {n : ℕ} (hn : n ≤ 1000000) :
    SentHistory (lapAdds outgoing start n) 0 start n where
  start_valid := hstart
  times := lapAdds_times outgoing start hn
  serials := lapAdds_serials outgoing hstart n
  increasing := by
    rw [Nat.cast_zero, storedOn_lapAdds]
    exact lapRow_increasing outgoing start hn
  bodies := by
    intro entry hentry
    rw [Nat.cast_zero, storedOn_lapAdds] at hentry
    obtain ⟨k, -, rfl⟩ := List.mem_map.mp hentry
    exact ⟨rfl, show 0 < relayBodyMax by decide⟩

def contactKey : CStr := hexString (List.replicate 32 7)

def ownKey : CStr := hexString (List.replicate 38 9)

theorem contactKey_ok : tgFieldOk (some contactKey) = true := by decide

theorem ownKey_ok : tgFieldOk (some ownKey) = true := by decide

theorem startedState_peerKey (db : MsgDatabase) :
    relayPeerKey (startedState db).ctx (0 : ℕ) = some contactKey := rfl

theorem startedState_queue (db : MsgDatabase) : (startedState db).ctx.queue = mqInit := rfl

theorem startedState_inv (db : MsgDatabase) : MqInv mqCapacity (startedState db).ctx.queue :=
  mqInit_inv (by decide) false false

def replayRequest (start target : ℤ) : TgMessage where
  kind := .cmd
  receiver := ownKey
  sender := contactKey
  sn := start
  snTo := target
  timestamp := 0
  body := .empty

/-- Four of six telegrams, on both sides of the wrap point. -/
theorem relayServeReplay_answers_wrapped :
    AnswersRequest contactKey ownKey (0 : ℕ) 998 2
      (storedOn (0 : ℕ) outgoing (lapAdds outgoing 997 6)) mqInit
      (relayServeReplay (relayInit emptyIni .ok ownKey)
        (startedState (archiveAfter (lapAdds outgoing 997 6) msgDatabaseOpened)) (0 : ℕ)
        (replayRequest 998 2) 0).state.ctx.queue :=
  (relayServeReplay_answers_iff emptyIni (lapAdds_sent (by decide) (by decide))
    (startedState_db _) (startedState_inv _) (startedState_peerKey _) contactKey_ok ownKey_ok
    (replayRequest 998 2) 0 (by decide) (by decide) (by decide)).mpr ⟨by decide, by decide⟩

/-- After a lap and one telegram the serial of the first is answered with the
first as well. -/
theorem replay_answers_with_stale :
    ¬ ∀ (adds : List ArchiveAdd) (start : ℤ) (n : ℕ) (cmd : TgMessage),
      SentHistory adds 0 start n → tgSnValid cmd.sn → tgSnValid cmd.snTo →
        tgSnDistance cmd.sn cmd.snTo + 1 ≤ relayMaxReplay →
          AnswersRequest contactKey ownKey (0 : ℕ) cmd.sn cmd.snTo
            (storedOn (0 : ℕ) outgoing adds) mqInit
            (relayServeReplay (relayInit emptyIni .ok ownKey)
              (startedState (archiveAfter adds msgDatabaseOpened)) (0 : ℕ) cmd
              0).state.ctx.queue := by
  intro hall
  have hsent : SentHistory (lapAdds outgoing 1 1000) 0 1 1000 :=
    lapAdds_sent (by decide) (by norm_num)
  have hanswers := hall (lapAdds outgoing 1 1000) 1 1000 (replayRequest 1 1) hsent (by decide)
    (by decide) (by decide)
  have hheld := relayServeReplay_held emptyIni hsent
    (startedState_db _) (startedState_inv _) (startedState_peerKey _) contactKey_ok ownKey_ok
    (replayRequest 1 1) 0 (by decide) (by decide)
  rw [AnswersRequest, hheld, startedState_queue, add_right_inj, Multiset.coe_eq_coe,
    take_perm_latestBy_iff _ (hsent.wires_nodup contactKey ownKey _ _), Nat.cast_zero,
    storedOn_lapAdds] at hanswers
  have hserial : tgSerialAt 1 999 = 1 := by
    rw [tgSerialAt_eq (by decide)]
    rfl
  have hrequested : ∀ k < 1000, tgSerialAt 1 k = 1 →
      lapRow outgoing 1 k ∈ requestedRows 1 1 ((List.range 1000).map (lapRow outgoing 1)) := by
    intro k hk hone
    refine List.mem_filter.mpr ⟨List.mem_map.mpr ⟨k, List.mem_range.mpr hk, rfl⟩, ?_⟩
    simp only [lapRow, hone]
    decide
  have hsame := List.inj_on_of_nodup_map hanswers.1 (hrequested 0 (by norm_num) rfl)
    (hrequested 999 (by norm_num) hserial) (by rw [lapRow_sn, lapRow_sn, hserial]; rfl)
  have htimes := congrArg Prod.fst hsame
  revert htimes
  decide

end ToxRelayer
