import ToxRelayer.FriendNumbers
import ToxRelayer.MqPersistRoundTrip
import ToxRelayer.Restart

/-!
# Reuse of friend numbers

The queue, its file and the archive outlive the contact they were written for.
As long as a number is given out only when what is left for it is addressed to
its new holder, toxcore is handed nothing that was meant for somebody else.
-/

namespace ToxRelayer

open CString RingIndex

/-! ## Messages that stay -/

/-- Every message of the second queue is in the same slot of the first. -/
def Mq.Keeps (cap : ℕ) (q q' : Mq) : Prop :=
  ∀ slot < cap, (q'.ring slot).Occupied →
    (q.ring slot).Occupied ∧ (q'.ring slot).friendnum = (q.ring slot).friendnum ∧
      (q'.ring slot).payload = (q.ring slot).payload ∧ (q'.ring slot).len = (q.ring slot).len

section

variable {cap : ℕ} {q : Mq}

theorem Mq.keeps_of_ring {q' : Mq} (hring : q'.ring = q.ring) : q.Keeps cap q' := by
  intro slot _ hoccupied
  rw [hring] at hoccupied ⊢
  exact ⟨hoccupied, rfl, rfl, rfl⟩

theorem mqConfirm_keeps (q : Mq) (friendnum receipt : ℤ) :
    q.Keeps cap (mqConfirm cap q friendnum receipt).queue := by
  apply mqConfirm_entries (P := fun slot e => (q.ring slot).Occupied ∧
    e.friendnum = (q.ring slot).friendnum ∧ e.payload = (q.ring slot).payload ∧
      e.len = (q.ring slot).len)
  exact fun slot _ hoccupied => ⟨hoccupied, rfl, rfl, rfl⟩

theorem MqInv.service_keeps (hq : MqInv cap q) (tx : Option (ℤ → Bytes → ℕ → ℤ)) (now : ℤ) :
    q.Keeps cap (mqService cap q tx now).queue := by
  rcases hq.service_cases tx now with hidle | ⟨k, hk, -, q', hacted⟩
  · rw [hidle]
    exact Mq.keeps_of_ring rfl
  · apply hacted.entries (P := fun slot e => (q.ring slot).Occupied ∧
      e.friendnum = (q.ring slot).friendnum ∧ e.payload = (q.ring slot).payload ∧
        e.len = (q.ring slot).len)
    · exact fun slot _ hoccupied => ⟨hoccupied, rfl, rfl, rfl⟩
    · intro _
      obtain ⟨hfriendnum, hpayload, hlen⟩ := hacted.touched.unaltered (slotAt cap q.head k)
      exact ⟨hacted.occupied, hfriendnum, hpayload, hlen⟩

theorem MqActed.transport_friendnum {slot : ℕ} {q' : Mq} {serviced : MqServiced}
    (hacted : MqActed cap slot q q' serviced) {friendnum : ℤ} {payload : Bytes} {len : ℕ}
    (hmem : .transport friendnum payload len ∈ serviced.calls) :
    friendnum = (q.ring slot).friendnum := by
  have hretire : .transport friendnum payload len ∉ (mqRetire q' slot).2 := by
    intro hcall
    have hnone := List.any_eq_false.mp (mqRetire_not_transport q' slot) _ hcall
    exact hnone rfl
  by_cases hdropped : serviced.outcome = .dropped
  · rcases (hacted.dropped hdropped).2 with ⟨hcalls, -⟩ | hcalls
    · rw [hcalls] at hmem
      exact absurd hmem hretire
    · rw [hcalls, List.mem_cons] at hmem
      rcases hmem with hfirst | hlater
      · cases hfirst
        rfl
      · exact absurd hlater hretire
  · rw [(hacted.kept hdropped).2.2, List.mem_singleton] at hmem
    cases hmem
    rfl

end

/-! ## Fewer contacts -/

/-- Every holder of a number was its holder before. -/
def Contacts.Within (contacts contacts' : Contacts) : Prop :=
  ∀ number, ∀ key ∈ contacts number, key ∈ contacts' number

theorem Contacts.Within.refl (contacts : Contacts) : contacts.Within contacts :=
  fun _ _ hkey => hkey

theorem Contacts.Within.trans {contacts contacts' contacts'' : Contacts}
    (hfirst : contacts.Within contacts') (hsecond : contacts'.Within contacts'') :
    contacts.Within contacts'' :=
  fun number key hkey => hsecond number key (hfirst number key hkey)

theorem toxFriendDelete_within (contacts : Contacts) (friendnumber : ℕ) :
    (toxFriendDelete contacts friendnumber).Within contacts := by
  intro number key hkey
  unfold toxFriendDelete at hkey
  by_cases hsame : number = friendnumber
  · subst hsame
    rw [Function.update_self] at hkey
    cases hkey
  · rwa [Function.update_of_ne hsame] at hkey

theorem purgeRound_within (now inactiveLimit : UInt64) (lastOnline : ℕ → Option UInt64)
    (contacts : Contacts) (friendnum : ℕ) :
    (purgeRound now inactiveLimit lastOnline contacts friendnum).Within contacts := by
  unfold purgeRound
  split
  · split
    · exact toxFriendDelete_within contacts friendnum
    · exact .refl contacts
  · exact .refl contacts

theorem purgeInactiveFriends_within (now inactiveLimit : UInt64) (lastOnline : ℕ → Option UInt64)
    (friendList : List ℕ) (contacts : Contacts) :
    (purgeInactiveFriends now inactiveLimit lastOnline friendList contacts).Within contacts := by
  induction friendList generalizing contacts with
  | nil => exact .refl contacts
  | cons friendnum friendList ih =>
      rw [purgeInactiveFriends, List.foldl_cons, ← purgeInactiveFriends]
      apply (ih _).trans
      exact purgeRound_within now inactiveLimit lastOnline contacts friendnum

theorem deleteBlockedSender_within (publicKeyIsBlocked : PublicKey → Bool) (contacts : Contacts)
    (friendnumber : ℕ) :
    (deleteBlockedSender publicKeyIsBlocked contacts friendnumber).Within contacts := by
  unfold deleteBlockedSender
  split
  · exact .refl contacts
  · split
    · exact .refl contacts
    · split
      · exact toxFriendDelete_within contacts friendnumber
      · exact .refl contacts

/-! ## A queue and its addressees -/

theorem mqCapacity_pos : 0 < mqCapacity := by decide

namespace FriendRun

/-- The ring invariant holds, the messages can be saved, and whoever holds the
number of one is its addressee. -/
structure Addressed (contacts : Contacts) (q : Mq) (queuedFor : ℕ → PublicKey) : Prop where
  inv : MqInv mqCapacity q
  savable : ∀ slot < mqCapacity, (q.ring slot).Occupied →
    MqSavable ((q.ring slot).friendnum, (q.ring slot).payload, (q.ring slot).len)
  fits : MessagesFit contacts q queuedFor

section

variable {contacts : Contacts} {q q' : Mq} {queuedFor : ℕ → PublicKey}

theorem addressed_start (contacts : Contacts) (queuedFor : ℕ → PublicKey) :
    Addressed contacts (mqStart true true).queue queuedFor where
  inv := mqInit_inv mqCapacity_pos true true
  savable := fun _ _ hoccupied => absurd rfl hoccupied
  fits := fun _ _ hoccupied => absurd rfl hoccupied

theorem Addressed.of_keeps (hq : Addressed contacts q queuedFor) (hinv : MqInv mqCapacity q')
    (hkeeps : q.Keeps mqCapacity q') : Addressed contacts q' queuedFor where
  inv := hinv
  savable := by
    intro slot hslot hoccupied
    obtain ⟨hbefore, hfriendnum, hpayload, hlen⟩ := hkeeps slot hslot hoccupied
    rw [hfriendnum, hpayload, hlen]
    exact hq.savable slot hslot hbefore
  fits := by
    intro slot hslot hoccupied
    obtain ⟨hbefore, hfriendnum, -⟩ := hkeeps slot hslot hoccupied
    rw [hfriendnum]
    exact hq.fits slot hslot hbefore

theorem Addressed.of_contacts (hq : Addressed contacts q queuedFor) {contacts' : Contacts}
    (hfits : MessagesFit contacts' q queuedFor) : Addressed contacts' q queuedFor :=
  ⟨hq.inv, hq.savable, hfits⟩

theorem Addressed.place (hq : Addressed contacts q queuedFor) {slot : ℕ} (hslot : slot < mqCapacity)
    (hfree : ¬ (q.ring slot).Occupied) {friendnum : ℤ} {payload : Bytes}
    (hrecord : MqSavable (friendnum, payload, payload.length)) (now : ℤ) {addressee : PublicKey}
    (hfits : contacts.Fits friendnum addressee) :
    Addressed contacts (q.place mqCapacity slot (mqNewEntry friendnum payload now))
      (Function.update queuedFor slot addressee) where
  inv := hq.inv.place hslot hfree rfl
  savable := by
    intro other hother hoccupied
    simp only [Mq.place] at hoccupied ⊢
    by_cases hsame : other = slot
    · subst hsame
      rw [Function.update_self]
      exact hrecord
    · rw [Function.update_of_ne hsame] at hoccupied ⊢
      exact hq.savable other hother hoccupied
  fits := by
    intro other hother hoccupied
    simp only [Mq.place] at hoccupied ⊢
    by_cases hsame : other = slot
    · subst hsame
      rw [Function.update_self, Function.update_self]
      exact hfits
    · rw [Function.update_of_ne hsame] at hoccupied ⊢
      rw [Function.update_of_ne hsame]
      exact hq.fits other hother hoccupied

/-- The messages of a queue, with their positions, as `mq_foreach` visits them. -/
theorem foreach_of_visited {slot position : ℕ}
    (hat : (mqVisited mqCapacity q)[position]? = some slot) :
    (mqForeach mqCapacity q)[position]? =
      some ((q.ring slot).friendnum, (q.ring slot).payload, (q.ring slot).len) := by
  rw [mqForeach, List.getElem?_map, hat, Option.map_some]

/-- Two queues with the same messages in the same order. -/
theorem Addressed.of_foreach (hq : Addressed contacts q queuedFor) (hinv : MqInv mqCapacity q')
    (hlisted : mqForeach mqCapacity q' = mqForeach mqCapacity q) :
    Addressed contacts q' (carriedOver q q' queuedFor) := by
  have hsame : ∀ slot < mqCapacity, (q'.ring slot).Occupied → ∃ other < mqCapacity,
      (q.ring other).Occupied ∧ carriedOver q q' queuedFor slot = queuedFor other ∧
        (q'.ring slot).friendnum = (q.ring other).friendnum ∧
        (q'.ring slot).payload = (q.ring other).payload ∧
        (q'.ring slot).len = (q.ring other).len := by
    intro slot hslot hoccupied
    have hmem := hinv.toMqCounted.mem_visited.mpr ⟨hslot, hoccupied⟩
    have hat := List.getElem?_idxOf hmem
    generalize hposition : (mqVisited mqCapacity q').idxOf slot = position at hat
    have hmessage := foreach_of_visited hat
    rw [hlisted, mqForeach, List.getElem?_map, Option.map_eq_some_iff] at hmessage
    obtain ⟨other, hother, hentry⟩ := hmessage
    obtain ⟨hlt, hstored⟩ := hq.inv.toMqCounted.mem_visited.mp (List.mem_of_getElem? hother)
    rw [Prod.mk.injEq, Prod.mk.injEq] at hentry
    refine ⟨other, hlt, hstored, ?_, hentry.1.symm, hentry.2.1.symm, hentry.2.2.symm⟩
    rw [carriedOver, hposition, List.getD_eq_getElem?_getD, hother, Option.getD_some]
  refine ⟨hinv, ?_, ?_⟩
  · intro slot hslot hoccupied
    obtain ⟨other, hother, hstored, -, hfriendnum, hpayload, hlen⟩ := hsame slot hslot hoccupied
    rw [hfriendnum, hpayload, hlen]
    exact hq.savable other hother hstored
  · intro slot hslot hoccupied
    obtain ⟨other, hother, hstored, haddressee, hfriendnum, -⟩ := hsame slot hslot hoccupied
    rw [hfriendnum, haddressee]
    exact hq.fits other hother hstored

theorem Addressed.load (hq : Addressed contacts q queuedFor) {files : FileSystem}
    (hfile : files queueFile.val = some (mqSaveBytes mqCapacity q)) (now : ℤ) :
    let loaded := mqPersistLoad mqCapacity (some queueFile) (mqStart true true).queue files now
    Addressed contacts loaded.queue (carriedOver q loaded.queue queuedFor) := by
  intro loaded
  have hmessages : ∀ message ∈ mqForeach mqCapacity q, MqSavable message := by
    intro message hmem
    obtain ⟨slot, hslot, rfl⟩ := List.mem_map.mp hmem
    obtain ⟨hlt, hoccupied⟩ := hq.inv.toMqCounted.mem_visited.mp hslot
    exact hq.savable slot hlt hoccupied
  obtain ⟨-, hinv, hlisted, -⟩ := mqPersistLoad_saved mqCapacity_pos (by decide)
    hq.inv.toMqCounted hmessages queueFile_usable hfile true true now
  exact hq.of_foreach hinv hlisted

end

/-! ## The invariant -/

variable {Ini : Type}

structure Sound (s : FriendRun Ini) : Prop where
  queued : Addressed s.contacts s.queue s.queuedFor
  saved : ∀ snapshot ∈ s.saved, Addressed s.contacts snapshot.1 snapshot.2
  file : s.files queueFile.val = s.saved.map fun snapshot => mqSaveBytes mqCapacity snapshot.1
  stored : s.RowsFit s.contacts
  keys : ∀ entry ∈ s.rows, (Int64.ofInt entry.1).toInt = entry.1

section

variable {s : FriendRun Ini}

/-- A new list of contacts, and a queue, that fit what is kept. -/
theorem Sound.replaced (hs : s.Sound) {relay : RelayState (Node Ini)} {contacts : Contacts}
    {queuedFor : ℕ → PublicKey} (hqueued : Addressed contacts relay.ctx.queue queuedFor)
    (hsaved : ∀ snapshot ∈ s.saved, MessagesFit contacts snapshot.1 snapshot.2)
    (hstored : s.RowsFit contacts) (htable : relay.ctx.db.table = s.relay.ctx.db.table) :
    Sound { s with relay := relay, contacts := contacts, queuedFor := queuedFor } where
  queued := hqueued
  saved := fun snapshot hsnapshot =>
    (hs.saved snapshot hsnapshot).of_contacts (hsaved snapshot hsnapshot)
  file := hs.file
  stored := by
    unfold RowsFit rows at hstored ⊢
    rw [htable]
    exact hstored
  keys := by
    have hkeys := hs.keys
    unfold rows at hkeys ⊢
    rw [htable]
    exact hkeys

theorem Sound.of_contacts (hs : s.Sound) {contacts : Contacts} (hapart : s.KeepsApart contacts) :
    Sound { s with contacts := contacts } :=
  hs.replaced (hs.queued.of_contacts hapart.queued) hapart.saved hapart.stored rfl

/-- With fewer contacts there is less to mix up. -/
theorem Sound.keepsApart (hs : s.Sound) {contacts : Contacts}
    (hwithin : contacts.Within s.contacts) : s.KeepsApart contacts where
  queued := by
    intro slot hslot hoccupied key hkey
    exact hs.queued.fits slot hslot hoccupied key (hwithin _ key hkey)
  saved := by
    intro snapshot hsnapshot slot hslot hoccupied key hkey
    exact (hs.saved snapshot hsnapshot).fits slot hslot hoccupied key (hwithin _ key hkey)
  stored := by
    intro entry hentry hdirection key hkey
    exact hs.stored entry hentry hdirection key (hwithin _ key hkey)

theorem Sound.of_within (hs : s.Sound) {contacts : Contacts}
    (hwithin : contacts.Within s.contacts) : Sound { s with contacts := contacts } :=
  hs.of_contacts (hs.keepsApart hwithin)

theorem Sound.withQueue (hs : s.Sound) {q : Mq} (hinv : MqInv mqCapacity q)
    (hkeeps : s.queue.Keeps mqCapacity q) : (s.withQueue q).Sound where
  queued := hs.queued.of_keeps hinv hkeeps
  saved := hs.saved
  file := hs.file
  stored := hs.stored
  keys := hs.keys

theorem Sound.confirm (hs : s.Sound) (friendnum receipt : ℤ) :
    (s.withQueue (mqConfirm mqCapacity s.queue friendnum receipt).queue).Sound := by
  apply hs.withQueue
  · exact hs.queued.inv.confirm friendnum receipt
  · exact mqConfirm_keeps s.queue friendnum receipt

theorem Sound.service (hs : s.Sound) (m : ToxNetwork) (now : ℤ) :
    (s.withQueue (s.service m now).queue).Sound := by
  apply hs.withQueue
  · exact hs.queued.inv.service _ now
  · exact hs.queued.inv.service_keeps _ now

/-! ## Writing -/

theorem enqueue_queue (s : FriendRun Ini) (channel : ℤ) (addressee : PublicKey) (payload : Bytes)
    (now : ℤ) : (s.enqueue channel addressee payload now).queue =
      (mqEnqueue mqCapacity s.queue channel (some payload) now).queue := rfl

theorem enqueue_queuedFor (s : FriendRun Ini) (channel : ℤ) (addressee : PublicKey)
    (payload : Bytes) (now : ℤ) :
    (s.enqueue channel addressee payload now).queuedFor =
      if (mqEnqueue mqCapacity s.queue channel (some payload) now).code = mqOk then
        match (mqFindFreeSlot mqCapacity s.queue).1 with
        | none => s.queuedFor
        | some slot => Function.update s.queuedFor slot addressee
      else s.queuedFor := by
  have haccepted : (relayEnqueue s.relay.ctx channel payload now).1 = 0 ↔
      (mqEnqueue mqCapacity s.queue channel (some payload) now).code = mqOk := by
    simp [relayEnqueue, FriendRun.queue]
  exact if_congr haccepted rfl rfl

theorem Sound.enqueue (hs : s.Sound) {channel : ℤ} (hint : channel < 2 ^ 31)
    {addressee : PublicKey} (hfits : 0 ≤ channel → s.contacts.Fits channel addressee)
    (payload : Bytes) (now : ℤ) : (s.enqueue channel addressee payload now).Sound := by
  refine ⟨?_, hs.saved, hs.file, hs.stored, hs.keys⟩
  rw [enqueue_queue, enqueue_queuedFor]
  rcases mqEnqueue_cases hs.queued.inv.toMqCounted channel (some payload) now with
    ⟨hcode, ⟨rejections, hqueue⟩, -⟩ |
    ⟨k, hk, bytes, ⟨⟩, hnonneg, hpos, hmax, -, hfree, hfound, hresult⟩
  · rw [if_neg hcode, hqueue]
    apply hs.queued.of_keeps
    · exact hs.queued.inv.withStats _
    · exact Mq.keeps_of_ring rfl
  · simp only [hresult, hfound, if_true]
    apply hs.queued.place (slotAt_lt (by omega) k) hfree
    · exact ⟨hnonneg, hint, rfl, hpos, hmax⟩
    · exact hfits hnonneg

theorem Sound.of_rows (hs : s.Sound) {db : MsgDatabase} {storedFor : ℤ → PublicKey}
    (hstored : ∀ entry ∈ db.table.rows, entry.2.direction = outgoing →
      s.contacts.Fits entry.2.friendNum (storedFor entry.1))
    (hkeys : ∀ entry ∈ db.table.rows, (Int64.ofInt entry.1).toInt = entry.1) :
    Sound { s with
      relay := { s.relay with ctx := { s.relay.ctx with db := db } }, storedFor := storedFor } where
  queued := hs.queued
  saved := hs.saved
  file := hs.file
  stored := hstored
  keys := hkeys

theorem Sound.store (hs : s.Sound) {add : ArchiveAdd} {addressee : PublicKey}
    (hfits : add.Accepted → add.direction = some outgoing →
      s.contacts.Fits add.friendNum addressee) : (s.store add addressee).Sound := by
  unfold FriendRun.store
  by_cases hready : s.relay.ctx.db.ready = true
  · by_cases haccepted : add.Accepted
    · rw [ArchiveAdd.run_of_accepted hready haccepted]
      dsimp only
      have hkey : add.datetime.toInt = add.record.1 := rfl
      rw [if_pos rfl, hkey]
      apply hs.of_rows
      · intro entry hentry hdirection
        rcases KeyedTable.Table.mem_insertOrReplace.mp hentry with rfl | ⟨hother, hold⟩
        · rw [Function.update_self]
          apply hfits haccepted
          obtain ⟨direction, hsome⟩ := Option.isSome_iff_exists.mp haccepted.2.1
          rw [hsome, ← hdirection]
          simp only [ArchiveAdd.record, chatRow, hsome, emptyIfNull, Option.getD_some]
        · rw [Function.update_of_ne hother]
          exact hs.stored entry hold hdirection
      · intro entry hentry
        rcases KeyedTable.Table.mem_insertOrReplace.mp hentry with rfl | ⟨-, hold⟩
        · rw [← hkey, Int64.ofInt_toInt]
        · exact hs.keys entry hold
    · obtain ⟨hcode, hdb⟩ := ArchiveAdd.run_of_not_accepted s.relay.ctx.db haccepted
      dsimp only
      rw [if_neg hcode, hdb]
      exact hs
  · rw [ArchiveAdd.run_of_not_ready add (Bool.not_eq_true _ ▸ hready)]
    exact hs

/-! ## Answers to a replay request -/

/-- Queueing answers changes nothing but the queue and its addressees. -/
theorem enqueueAll_eq (s : FriendRun Ini) (channel now : ℤ) (answers : List (Bytes × PublicKey)) :
    s.enqueueAll channel now answers =
      { s with
        relay := (s.enqueueAll channel now answers).relay
        queuedFor := (s.enqueueAll channel now answers).queuedFor } := by
  induction answers generalizing s with
  | nil => rfl
  | cons answer answers ih =>
      rw [enqueueAll, List.foldl_cons, ← enqueueAll, ih]
      rfl

theorem enqueueAll_relay (s : FriendRun Ini) (channel now : ℤ) (peer : CStr) (self : Option CStr)
    (addressee : RelayRecord → PublicKey) (records : List RelayRecord) :
    (s.enqueueAll channel now (records.filterMap fun record =>
        let encoded := tgEncodeText relayWireMax (some peer) self record.sn record.timestamp
          (some record.body)
        if encoded.code ≤ 0 then none else some (encoded.wire, addressee record))).relay =
      { s.relay with
        ctx := (relayReplayLoop relayEnqueue channel peer self now records s.relay.ctx).2.1 } := by
  induction records generalizing s with
  | nil => rfl
  | cons record records ih =>
      rw [List.filterMap_cons, relayReplayLoop]
      dsimp only at ih ⊢
      by_cases hcode : (tgEncodeText relayWireMax (some peer) self record.sn record.timestamp
          (some record.body)).code ≤ 0
      · rw [if_pos hcode, if_pos hcode]
        exact ih s
      · rw [if_neg hcode, if_neg hcode]
        dsimp only
        rw [enqueueAll, List.foldl_cons, ← enqueueAll, ih]
        rfl

theorem serveReplay_eq (minIni : MinIni Ini) (s : FriendRun Ini) (io : SqliteResult)
    (channel : ℤ) (cmd : TgMessage) (now : ℤ) :
    s.serveReplay minIni io channel cmd now =
      s.enqueueAll channel now (s.answers io channel cmd) := by
  rw [enqueueAll_eq, FriendRun.serveReplay]
  congr 1
  simp only [relayServeReplay, relayInit, answers]
  cases hpeer : relayPeerKey s.relay.ctx channel with
  | none => rfl
  | some peer =>
      dsimp only
      rw [enqueueAll_relay]
      split
      · rename_i hnothing
        rw [Int.toNat_of_nonpos hnothing, List.take_zero]
        rfl
      · rfl

theorem mem_msgDatabaseRange {io : SqliteResult} {db : MsgDatabase} {friendNum start target max : ℤ}
    {direction : CStr} {record : ChatMsgRecord}
    (hmem : record ∈ (msgDatabaseRange io db friendNum (some direction) start target max).2) :
    ∃ entry ∈ db.table.rows, entry.2.friendNum = friendNum ∧ entry.2.direction = direction ∧
      record = chatMsgRecord entry := by
  unfold msgDatabaseRange at hmem
  split at hmem
  · cases hmem
  · dsimp only at hmem
    split at hmem
    · cases hmem
    · split at hmem
      · cases hmem
      · cases io with
        | ok =>
            obtain ⟨entry, hselected, rfl⟩ := List.mem_map.mp hmem
            obtain ⟨hentry, hwanted⟩ := List.mem_filter.mp (List.mem_of_mem_take hselected)
            have hchannel := (Bool.and_eq_true _ _ ▸ hwanted).1
            rw [onChannel, decide_eq_true_iff] at hchannel
            exact ⟨entry, hentry, hchannel.1, hchannel.2, rfl⟩
        | prepareFails => cases hmem
        | bindFails => cases hmem
        | stepFails => cases hmem

theorem mem_relayFetchRange {io : SqliteResult} {node : Node Ini} {channel start target : ℤ}
    {max : ℕ} {record : RelayRecord}
    (hmem : record ∈ (relayFetchRange io node channel start target max).2) :
    ∃ entry ∈ node.db.table.rows, entry.2.friendNum = channel ∧ entry.2.direction = outgoing ∧
      record = relayRecord (chatMsgRecord entry) := by
  unfold relayFetchRange at hmem
  generalize hfetch : msgDatabaseRange io node.db channel (some outgoing) start target
    (if max < relayMaxReplay then max else relayMaxReplay) = fetched at hmem
  dsimp only at hmem
  by_cases hnothing : fetched.1 ≤ 0
  · rw [if_pos hnothing] at hmem
    cases hmem
  · rw [if_neg hnothing] at hmem
    obtain ⟨found, hfound, rfl⟩ := List.mem_map.mp hmem
    rw [← hfetch] at hfound
    obtain ⟨entry, hentry, hchannel, hdirection, rfl⟩ := mem_msgDatabaseRange hfound
    exact ⟨entry, hentry, hchannel, hdirection, rfl⟩

theorem Sound.enqueueAll (hs : s.Sound) {channel : ℤ} (hint : channel < 2 ^ 31) (now : ℤ)
    {answers : List (Bytes × PublicKey)}
    (hfits : ∀ answer ∈ answers, s.contacts.Fits channel answer.2) :
    (s.enqueueAll channel now answers).Sound := by
  induction answers generalizing s with
  | nil => exact hs
  | cons answer answers ih =>
      have hfirst := hfits answer List.mem_cons_self
      rw [FriendRun.enqueueAll, List.foldl_cons, ← FriendRun.enqueueAll]
      apply ih
      · exact hs.enqueue hint (fun _ => hfirst) answer.1 now
      · exact fun later hlater => hfits later (List.mem_cons_of_mem _ hlater)

/-- An answer is for the addressee of a row that was stored for the channel. -/
theorem Sound.answers_fit (hs : s.Sound) {io : SqliteResult} {channel : ℤ} {cmd : TgMessage} :
    ∀ answer ∈ s.answers io channel cmd, s.contacts.Fits channel answer.2 := by
  intro answer hmem
  unfold FriendRun.answers at hmem
  split at hmem
  · cases hmem
  · obtain ⟨record, hrecord, hanswer⟩ := List.mem_filterMap.mp hmem
    obtain ⟨entry, hentry, hchannel, hdirection, rfl⟩ :=
      mem_relayFetchRange (List.mem_of_mem_take hrecord)
    have hfits := hs.stored entry hentry hdirection
    dsimp only at hanswer
    split at hanswer
    · cases hanswer
    · rw [Option.some.injEq] at hanswer
      rw [← hanswer, ← hchannel]
      dsimp only [relayRecord, chatMsgRecord]
      rw [hs.keys entry hentry]
      exact hfits

theorem Sound.serveReplay (hs : s.Sound) (minIni : MinIni Ini) (io : SqliteResult) {channel : ℤ}
    (hint : channel < 2 ^ 31) (cmd : TgMessage) (now : ℤ) :
    (s.serveReplay minIni io channel cmd now).Sound := by
  rw [serveReplay_eq]
  exact hs.enqueueAll hint now hs.answers_fit

/-! ## Contacts -/

theorem getRelayNameList_queue (minIni : MinIni Ini) (tox : ToxHandle) (node : Node Ini) :
    (getRelayNameList minIni tox node).queue = node.queue := by
  unfold getRelayNameList
  split <;> rfl

theorem getRelayNameList_db (minIni : MinIni Ini) (tox : ToxHandle) (node : Node Ini) :
    (getRelayNameList minIni tox node).db = node.db := by
  unfold getRelayNameList
  split <;> rfl

theorem Sound.cbFriendRequest (hs : s.Sound) (minIni : MinIni Ini)
    {publicKeyIsBlocked : PublicKey → Bool} {key : PublicKey} {added : Option ℕ} (tox : ToxHandle)
    (hapart : publicKeyIsBlocked key = false → ∀ number ∈ added,
      s.KeepsApart (Function.update s.contacts number (some key))) :
    (s.cbFriendRequest minIni publicKeyIsBlocked key added tox).Sound := by
  have hlisted : ∀ {s : FriendRun Ini}, s.Sound → Sound { s with
      relay := { s.relay with ctx := getRelayNameList minIni tox s.relay.ctx } } := by
    intro s hs
    apply hs.replaced
    · rw [getRelayNameList_queue]
      exact hs.queued
    · exact fun snapshot hsnapshot => (hs.saved snapshot hsnapshot).fits
    · exact hs.stored
    · rw [getRelayNameList_db]
  unfold FriendRun.cbFriendRequest
  split
  · exact hs
  · rename_i hwelcome
    cases added with
    | none => exact hlisted hs
    | some number =>
        have hadded := hs.of_contacts (hapart (Bool.not_eq_true _ ▸ hwelcome) number rfl)
        exact hlisted hadded

/-! ## The queue file -/

theorem Sound.save (hs : s.Sound) : s.save.Sound where
  queued := hs.queued
  saved := by
    rintro snapshot ⟨⟩
    exact hs.queued
  file := (mqPersistSave_files queueFile_usable s.queue s.files).2
  stored := hs.stored
  keys := hs.keys

theorem mqPersistLoad_missing (q : Mq) {files : FileSystem} (hfile : files queueFile.val = none)
    (now : ℤ) : (mqPersistLoad mqCapacity (some queueFile) q files now).queue = q := by
  simp only [mqPersistLoad, queueFile_usable.1, if_false, mqReadAll, hfile]

theorem Sound.restart (hs : s.Sound) (minIni : MinIni Ini) (io : SqliteResult)
    {contacts : Contacts} (tox : ToxHandle) (ready : Bool) (now : ℤ)
    (hsaved : ∀ snapshot ∈ s.saved, MessagesFit contacts snapshot.1 snapshot.2)
    (hrows : s.RowsFit contacts) :
    (s.restart minIni io contacts tox ready now).Sound := by
  unfold FriendRun.restart
  dsimp only
  apply hs.replaced
  · rw [relayRecoverTrackers_ctx, getRelayNameList_queue]
    have hfile := hs.file
    cases hsnapshot : s.saved with
    | none =>
        rw [hsnapshot] at hfile
        rw [mqPersistLoad_missing _ hfile]
        exact addressed_start contacts s.queuedFor
    | some snapshot =>
        rw [hsnapshot] at hfile
        have hbefore := (hs.saved snapshot hsnapshot).of_contacts (hsaved snapshot hsnapshot)
        exact hbefore.load hfile now
  · exact hsaved
  · exact hrows
  · rw [relayRecoverTrackers_ctx, getRelayNameList_db]
    rfl

/-! ## Every run -/

theorem Sound.step (hs : s.Sound) (minIni : MinIni Ini) {op : FriendOp} (hcareful : s.Careful op) :
    (s.step minIni op).Sound := by
  cases op with
  | enqueue channel addressee payload now =>
      exact hs.enqueue channel.toInt_lt hcareful payload now
  | confirm friendnum receipt => exact hs.confirm friendnum receipt
  | service m now => exact hs.service m now
  | store add addressee => exact hs.store hcareful
  | serveReplay io channel cmd now => exact hs.serveReplay minIni io channel.toInt_lt cmd now
  | friendRequest publicKeyIsBlocked key added tox => exact hs.cbFriendRequest minIni tox hcareful
  | friendAdd key number => exact hs.of_contacts hcareful
  | purge now inactiveLimit lastOnline friendList =>
      apply hs.of_within
      exact purgeInactiveFriends_within now inactiveLimit lastOnline friendList s.contacts
  | blockedSender publicKeyIsBlocked friendnumber =>
      apply hs.of_within
      exact deleteBlockedSender_within publicKeyIsBlocked s.contacts friendnumber
  | save => exact hs.save
  | restart io contacts tox ready now =>
      exact hs.restart minIni io tox ready now hcareful.1 hcareful.2

theorem toxSent_some {m : ToxNetwork} {call : MqCall} {sent : ℤ × Bytes}
    (hsent : toxSent m call = some sent) :
    ∃ payload len, call = .transport sent.1 payload len ∧
      m.friendConnected sent.1.toNat = true := by
  unfold toxSent at hsent
  split at hsent
  · split at hsent
    · rename_i hreached
      rw [Option.some.injEq] at hsent
      subst hsent
      exact ⟨_, _, rfl, hreached.2⟩
    · cases hsent
  · cases hsent

/-- What is handed to toxcore is a message of the queue, and toxcore reaches only
contacts it has. -/
theorem Sound.rightful (hs : s.Sound) (op : FriendOp) : s.Rightful op := by
  intro sent hsent
  cases op with
  | service m now =>
      rcases hs.queued.inv.service_cases
          (some (toxTransport (some (s.contacts.network m)))) now with
        hidle | ⟨k, hk, -, q', hacted⟩
      · rw [← FriendRun.service] at hidle
        simp only [handed, hidle] at hsent
        cases hsent
      · rw [← FriendRun.service] at hacted
        have hfits := hs.queued.fits _ (slotAt_lt (by omega) k) hacted.occupied
        simp only [handed, hacted.slot_eq] at hsent
        generalize slotAt mqCapacity s.queue.head k = slot at hacted hsent hfits
        obtain ⟨⟨friendnum, payload⟩, hmem, rfl⟩ := List.mem_map.mp hsent
        obtain ⟨call, hcall, hreached⟩ := List.mem_filterMap.mp hmem
        obtain ⟨body, len, rfl, hconnected⟩ := toxSent_some hreached
        rw [← hacted.transport_friendnum hcall] at hfits
        obtain ⟨key, hkey⟩ := Option.isSome_iff_exists.mp (Bool.and_eq_true _ _ ▸ hconnected).1
        rw [hfits key hkey]
        exact hkey
  | _ => cases hsent

theorem friendStart_sound (relay : RelayState (Node Ini)) (contacts : Contacts) :
    (friendStart relay contacts).Sound where
  queued := addressed_start _ _
  saved := fun snapshot hsnapshot => by cases hsnapshot
  file := rfl
  stored := fun entry hentry => by cases hentry
  keys := fun entry hentry => by cases hentry

end

end FriendRun

/-- In a run that mixes nobody up, every payload handed to toxcore for a number
was addressed to the contact that holds it. -/
theorem handed_rightful {Ini : Type} (minIni : MinIni Ini) (relay : RelayState (Node Ini))
    (contacts : Contacts) (ops : List FriendOp)
    (hcareful : StepRun.Along (FriendRun.step minIni) FriendRun.Careful
      (friendStart relay contacts) ops) :
    StepRun.Along (FriendRun.step minIni) FriendRun.Rightful (friendStart relay contacts) ops := by
  refine StepRun.Along.of_invariant ?_ ?_ (FriendRun.friendStart_sound relay contacts) hcareful
  · exact fun s op hs hop => hs.step minIni hop
  · exact fun s op hs _ => hs.rightful op

/-! ## Two contacts, one number -/

def firstContact : PublicKey := Vector.replicate 32 1

def secondContact : PublicKey := Vector.replicate 32 2

/-- A message is queued for the first contact, which is purged.  Friend number 0
then goes to the given contact, and the queue is serviced with it online. -/
def reuseOps (next : PublicKey) : List FriendOp :=
  [.enqueue 0 firstContact [65] 0,
    .purge 2 1 (fun _ => some 0) [0],
    .friendRequest (fun _ => false) next (some 0) ⟨1, fun _ => next, Vector.replicate 38 9⟩,
    .service ⟨fun _ => true, fun _ _ => some 1⟩ 2]

def reuseStart : FriendRun Unit :=
  friendStart (startedState msgDatabaseOpened) fun number =>
    if number = 0 then some firstContact else none

theorem reuseStart_careful : reuseStart.Careful (.enqueue 0 firstContact [65] 0) := by
  rintro - key ⟨⟩
  rfl

/-- A contact that returns may have its number back. -/
theorem handed_rightful_return :
    StepRun.Along (FriendRun.step emptyIni) FriendRun.Rightful reuseStart
      (reuseOps firstContact) := by
  apply handed_rightful
  refine ⟨reuseStart_careful, trivial, ?_, trivial, trivial⟩
  rintro - number ⟨⟩
  have hqueued := (FriendRun.friendStart_sound _ _).step emptyIni reuseStart_careful
  have hwithin : Contacts.Within (Function.update (purgeInactiveFriends 2 1 (fun _ => some 0) [0]
      reuseStart.contacts) 0 (some firstContact)) reuseStart.contacts := by
    intro number key hkey
    by_cases hsame : number = 0
    · subst hsame
      rw [Function.update_self] at hkey
      exact hkey
    · rw [Function.update_of_ne hsame] at hkey
      exact purgeInactiveFriends_within 2 1 (fun _ => some 0) [0] _ number key hkey
  obtain ⟨hmessages, hsnapshots, hrows⟩ := hqueued.keepsApart hwithin
  exact ⟨hmessages, hsnapshots, hrows⟩

/-- The second contact is sent what was meant for the first. -/
theorem reused_number_discloses :
    ¬ ∀ (relay : RelayState (Node Unit)) (contacts : Contacts) (ops : List FriendOp),
      StepRun.Along (FriendRun.step emptyIni) FriendRun.Promised (friendStart relay contacts) ops →
        StepRun.Along (FriendRun.step emptyIni) FriendRun.Rightful
          (friendStart relay contacts) ops := by
  intro hall
  have hpromised : StepRun.Along (FriendRun.step emptyIni) FriendRun.Promised reuseStart
      (reuseOps secondContact) := by
    refine ⟨rfl, trivial, fun number hnumber => ?_, trivial, trivial⟩
    obtain rfl : 0 = number := Option.some.inj hnumber
    decide +kernel
  have hrightful := hall _ _ _ hpromised
  have hsecond : ¬ ((((reuseStart.step emptyIni (reuseOps secondContact)[0]).step emptyIni
      (reuseOps secondContact)[1]).step emptyIni (reuseOps secondContact)[2]).Rightful
        (reuseOps secondContact)[3]) := by decide +kernel
  exact hsecond hrightful.2.2.2.1

end ToxRelayer
