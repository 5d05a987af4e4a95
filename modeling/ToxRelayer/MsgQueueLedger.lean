import ToxRelayer.MsgQueueInvariant

/-!
# Accounting for every message

A ledger written beside a run of the queue: every accepted message has a number,
and the ledger records which message each slot was last given and which
messages a confirmation or a retirement has removed.
-/

namespace ToxRelayer

open CString RingIndex

/-! ## Runs -/

inductive MqOp where
  | enqueue (friendnum : ℤ) (payload : Option Bytes) (now : ℤ)
  | confirm (friendnum receipt : ℤ)
  | service (tx : Option (ℤ → Bytes → ℕ → ℤ)) (now : ℤ)
  | foreach
  | statsGet

/-- `born` lists friend number and bytes of the accepted messages, the message
numbers are positions in it; `drops` are the calls of the drop hook and `handed`
the messages handed to the transport. -/
structure MqLedger where
  born : List (ℤ × Bytes)
  owner : ℕ → ℕ
  confirmed : List ℕ
  retired : List ℕ
  drops : List ℤ
  handed : List ℕ

structure MqRun where
  queue : Mq
  ledger : MqLedger

/-- The queue after `mq_init`, with or without the two hooks installed. -/
def mqStart (dropFn changeFn : Bool) : MqRun where
  queue := mqSetChangeHook (mqSetDropHook mqInit dropFn) changeFn
  ledger := ⟨[], fun _ => 0, [], [], [], []⟩

def MqCall.droppedFriend : MqCall → Option ℤ
  | .drop friendnum _ => some friendnum
  | _ => none

def MqCall.isTransport : MqCall → Bool
  | .transport _ _ _ => true
  | _ => false

namespace MqLedger

/-- A message has been put into a slot. -/
def recordBirth (ledger : MqLedger) (slot : ℕ) (friendnum : ℤ) (payload : Bytes) : MqLedger :=
  { ledger with
    born := ledger.born ++ [(friendnum, payload)]
    owner := Function.update ledger.owner slot ledger.born.length }

def recordConfirm (ledger : MqLedger) (slot : ℕ) : MqLedger :=
  { ledger with confirmed := ledger.confirmed ++ [ledger.owner slot] }

def recordService (ledger : MqLedger) (serviced : MqServiced) : MqLedger :=
  match serviced.slot with
  | none => ledger
  | some slot =>
      { ledger with
        retired := if serviced.outcome = .dropped then ledger.retired ++ [ledger.owner slot]
          else ledger.retired
        drops := ledger.drops ++ serviced.calls.filterMap MqCall.droppedFriend
        handed := if serviced.calls.any MqCall.isTransport then
          ledger.handed ++ [ledger.owner slot] else ledger.handed }

end MqLedger

namespace MqRun

def enqueue (cap : ℕ) (s : MqRun) (friendnum : ℤ) (payload : Option Bytes) (now : ℤ) : MqRun :=
  let result := mqEnqueue cap s.queue friendnum payload now
  ⟨result.queue,
    if result.code = mqOk then
      match (mqFindFreeSlot cap s.queue).1, payload with
      | some slot, some payload => s.ledger.recordBirth slot friendnum payload
      | _, _ => s.ledger
    else s.ledger⟩

def confirm (cap : ℕ) (s : MqRun) (friendnum receipt : ℤ) : MqRun :=
  let result := mqConfirm cap s.queue friendnum receipt
  ⟨result.queue,
    if result.code = mqOk then
      match mqFindInFlight cap s.queue friendnum receipt with
      | some slot => s.ledger.recordConfirm slot
      | none => s.ledger
    else s.ledger⟩

def service (cap : ℕ) (s : MqRun) (tx : Option (ℤ → Bytes → ℕ → ℤ)) (now : ℤ) : MqRun :=
  let serviced := mqService cap s.queue tx now
  ⟨serviced.queue, s.ledger.recordService serviced⟩

def step (cap : ℕ) (s : MqRun) : MqOp → MqRun
  | .enqueue friendnum payload now => s.enqueue cap friendnum payload now
  | .confirm friendnum receipt => s.confirm cap friendnum receipt
  | .service tx now => s.service cap tx now
  | .foreach => s
  | .statsGet => s

def after (cap : ℕ) (s : MqRun) (ops : List MqOp) : MqRun :=
  ops.foldl (step cap) s

/-- The slots in which message `number` is stored. -/
def storedIn (cap : ℕ) (s : MqRun) (number : ℕ) : Finset ℕ :=
  (slotsWhere cap MqEntry.Occupied s.queue.ring).filter fun slot =>
    s.ledger.owner slot = number

/-- Every accepted message is stored once, confirmed once or retired once, and
a stored message is the one that was accepted. -/
structure Accounted (cap : ℕ) (s : MqRun) : Prop where
  exactlyOnce : ∀ number < s.ledger.born.length,
    (s.storedIn cap number).card + s.ledger.confirmed.count number +
      s.ledger.retired.count number = 1
  unaltered : ∀ slot < cap, (s.queue.ring slot).Occupied →
    s.ledger.born[s.ledger.owner slot]? =
        some ((s.queue.ring slot).friendnum, (s.queue.ring slot).payload) ∧
      (s.queue.ring slot).len = (s.queue.ring slot).payload.length
  droppedOnce : s.ledger.drops.map some =
    if s.queue.dropFn then s.ledger.retired.map fun number =>
      s.ledger.born[number]?.map Prod.fst
    else []
  enqueued : s.queue.stats.totalEnqueued = s.ledger.born.length
  confirmedTotal : s.queue.stats.totalConfirmed = s.ledger.confirmed.length
  droppedTotal : s.queue.stats.totalDropped = s.ledger.retired.length
  balance : s.queue.stats.totalEnqueued =
    s.queue.count + s.queue.stats.totalConfirmed + s.queue.stats.totalDropped

end MqRun

/-! ## The ledger invariant -/

/-- The numbers of the stored messages. -/
def MqRun.stored (cap : ℕ) (s : MqRun) : Multiset ℕ :=
  (slotsWhere cap MqEntry.Occupied s.queue.ring).val.map s.ledger.owner

structure MqLedgerInv (cap : ℕ) (s : MqRun) : Prop where
  queue : MqInv cap s.queue
  partition : s.stored cap + s.ledger.confirmed + s.ledger.retired =
    Multiset.range s.ledger.born.length
  unaltered : ∀ slot < cap, (s.queue.ring slot).Occupied →
    s.ledger.born[s.ledger.owner slot]? =
        some ((s.queue.ring slot).friendnum, (s.queue.ring slot).payload) ∧
      (s.queue.ring slot).len = (s.queue.ring slot).payload.length
  droppedOnce : s.ledger.drops.map some =
    if s.queue.dropFn then s.ledger.retired.map fun number =>
      s.ledger.born[number]?.map Prod.fst
    else []
  enqueued : s.queue.stats.totalEnqueued = s.ledger.born.length
  confirmedTotal : s.queue.stats.totalConfirmed = s.ledger.confirmed.length
  droppedTotal : s.queue.stats.totalDropped = s.ledger.retired.length
  handed : ∀ slot < cap, (s.queue.ring slot).Occupied →
    (s.queue.ring slot).attempted = true → s.ledger.owner slot ∈ s.ledger.handed

section

variable {cap : ℕ} {s : MqRun}

theorem MqLedgerInv.owner_lt (hs : MqLedgerInv cap s) {slot : ℕ} (hslot : slot < cap)
    (hoccupied : (s.queue.ring slot).Occupied) :
    s.ledger.owner slot < s.ledger.born.length := by
  obtain ⟨hborn, -⟩ := hs.unaltered slot hslot hoccupied
  exact (List.getElem?_eq_some_iff.mp hborn).1

theorem MqLedgerInv.retired_lt (hs : MqLedgerInv cap s) {number : ℕ}
    (hretired : number ∈ s.ledger.retired) : number < s.ledger.born.length := by
  have hmem : number ∈ s.stored cap + s.ledger.confirmed + s.ledger.retired :=
    Multiset.mem_add.mpr (.inr (Multiset.mem_coe.mpr hretired))
  rwa [hs.partition, Multiset.mem_range] at hmem

theorem MqLedgerInv.accounted (hs : MqLedgerInv cap s) : s.Accounted cap where
  exactlyOnce := by
    intro number hnumber
    have hcount := congrArg (Multiset.count number) hs.partition
    have hstored : (s.stored cap).count number = (s.storedIn cap number).card := by
      rw [MqRun.stored, Multiset.count_map, MqRun.storedIn, Finset.card_def, Finset.filter_val]
      congr 1
      exact Multiset.filter_congr fun slot _ => eq_comm
    have hrange : (Multiset.range s.ledger.born.length).count number = 1 :=
      Multiset.count_eq_one_of_mem (Multiset.nodup_range _) (Multiset.mem_range.mpr hnumber)
    rw [Multiset.count_add, Multiset.count_add, Multiset.coe_count, Multiset.coe_count, hstored,
      hrange] at hcount
    exact hcount
  unaltered := hs.unaltered
  droppedOnce := hs.droppedOnce
  enqueued := hs.enqueued
  confirmedTotal := hs.confirmedTotal
  droppedTotal := hs.droppedTotal
  balance := by
    have hcard := congrArg Multiset.card hs.partition
    have hstored : (s.stored cap).card = s.queue.count := by
      rw [MqRun.stored, Multiset.card_map, hs.queue.count_eq]
      rfl
    rw [Multiset.card_add, Multiset.card_add, Multiset.coe_card, Multiset.coe_card, hstored,
      Multiset.card_range] at hcard
    rw [hs.enqueued, hs.confirmedTotal, hs.droppedTotal, ← hcard]

theorem mqStart_inv (hcap : 0 < cap) (dropFn changeFn : Bool) :
    MqLedgerInv cap (mqStart dropFn changeFn) where
  queue := mqInit_inv hcap dropFn changeFn
  partition := by
    have hempty : slotsWhere cap MqEntry.Occupied (mqStart dropFn changeFn).queue.ring = ∅ := by
      simp [slotsWhere, mqStart, mqInit, mqSetChangeHook, mqSetDropHook, MqEntry.Occupied]
    rw [MqRun.stored, hempty]
    rfl
  unaltered := by simp [mqStart, mqInit, mqSetChangeHook, mqSetDropHook, MqEntry.Occupied]
  droppedOnce := by simp [mqStart]
  enqueued := rfl
  confirmedTotal := rfl
  droppedTotal := rfl
  handed := by simp [mqStart, mqInit, mqSetChangeHook, mqSetDropHook, MqEntry.Occupied]

/-! ## One step -/

/-- An enqueue is rejected, and then only the count of rejections changes, or it puts the
message into a free slot. -/
theorem MqRun.enqueue_cases (hq : MqCounted cap s.queue) (friendnum : ℤ)
    (payload : Option Bytes) (now : ℤ) :
    (∃ rejections, s.enqueue cap friendnum payload now =
        ⟨{ s.queue with
            stats := { s.queue.stats with totalFullRejections := rejections } }, s.ledger⟩) ∨
      ∃ slot < cap, ∃ bytes, ¬ (s.queue.ring slot).Occupied ∧
        s.enqueue cap friendnum payload now =
          ⟨s.queue.place cap slot (mqNewEntry friendnum bytes now),
            s.ledger.recordBirth slot friendnum bytes⟩ := by
  rcases mqEnqueue_cases hq friendnum payload now with
    ⟨hcode, ⟨rejections, hqueue⟩, -⟩ |
    ⟨k, hk, bytes, rfl, -, -, -, -, hfree, hfound, hresult⟩
  · refine .inl ⟨rejections, ?_⟩
    simp only [MqRun.enqueue, hqueue, hcode, if_false]
  · refine .inr ⟨slotAt cap s.queue.tail k, slotAt_lt (by omega) k, bytes, hfree, ?_⟩
    simp only [MqRun.enqueue, hresult, hfound, if_true]

/-- A confirmation changes nothing, or it releases the slot that was found. -/
theorem MqRun.confirm_cases (cap : ℕ) (s : MqRun) (friendnum receipt : ℤ) :
    s.confirm cap friendnum receipt = s ∨
      ∃ slot < cap, (s.queue.ring slot).Awaiting ∧
        mqFindInFlight cap s.queue friendnum receipt = some slot ∧
        s.confirm cap friendnum receipt =
          ⟨s.queue.confirmed cap slot, s.ledger.recordConfirm slot⟩ := by
  rcases mqConfirm_cases cap s.queue friendnum receipt with
    ⟨hcode, hqueue⟩ | ⟨slot, hslot, hawaiting, hfound, hresult⟩
  · left
    simp only [MqRun.confirm, hqueue, hcode, if_false]
  · refine .inr ⟨slot, hslot, hawaiting, hfound, ?_⟩
    simp only [MqRun.confirm, hresult, hfound, if_true]

theorem MqRun.service_of_idle {tx : Option (ℤ → Bytes → ℕ → ℤ)} {now : ℤ}
    (hidle : mqService cap s.queue tx now = ⟨.idle, s.queue, none, []⟩) :
    s.service cap tx now = s := by
  simp only [MqRun.service, hidle, MqLedger.recordService]

@[simp] theorem MqRun.service_owner (tx : Option (ℤ → Bytes → ℕ → ℤ)) (now : ℤ) :
    (s.service cap tx now).ledger.owner = s.ledger.owner := by
  unfold MqRun.service MqLedger.recordService
  dsimp only
  split <;> rfl

@[simp] theorem MqRun.service_born (tx : Option (ℤ → Bytes → ℕ → ℤ)) (now : ℤ) :
    (s.service cap tx now).ledger.born = s.ledger.born := by
  unfold MqRun.service MqLedger.recordService
  dsimp only
  split <;> rfl

theorem MqRun.enqueue_inv (hs : MqLedgerInv cap s) (friendnum : ℤ) (payload : Option Bytes)
    (now : ℤ) : MqLedgerInv cap (s.enqueue cap friendnum payload now) := by
  rcases MqRun.enqueue_cases hs.queue.toMqCounted friendnum payload now with
    ⟨rejections, hstep⟩ | ⟨slot, hslot, bytes, hfree, hstep⟩
  · rw [hstep]
    exact ⟨hs.queue.withStats _, hs.partition, hs.unaltered, hs.droppedOnce, hs.enqueued,
      hs.confirmedTotal, hs.droppedTotal, hs.handed⟩
  · rw [hstep]
    have hring : ((s.queue.place cap slot (mqNewEntry friendnum bytes now)).ring) =
        Function.update s.queue.ring slot (mqNewEntry friendnum bytes now) := rfl
    refine ⟨hs.queue.place hslot hfree rfl, ?_, ?_, ?_, ?_, hs.confirmedTotal, hs.droppedTotal,
      ?_⟩
    · have hnotMem : slot ∉ slotsWhere cap MqEntry.Occupied s.queue.ring :=
        fun hmem => hfree (mem_slotsWhere.mp hmem).2
      have hothers : (slotsWhere cap MqEntry.Occupied s.queue.ring).val.map
            (Function.update s.ledger.owner slot s.ledger.born.length) =
          s.stored cap := by
        refine Multiset.map_congr rfl ?_
        intro other hother
        refine Function.update_of_ne ?_ _ _
        rintro rfl
        exact hnotMem hother
      simp only [MqRun.stored, MqLedger.recordBirth, hring]
      rw [slotsWhere_update_of_pos hslot (by simp [MqEntry.Occupied, mqNewEntry]),
        Finset.insert_val_of_notMem hnotMem, Multiset.map_cons, Function.update_self, hothers,
        Multiset.cons_add, Multiset.cons_add, hs.partition, List.length_append,
        List.length_singleton, Multiset.range_succ]
    · intro other hother hoccupied
      simp only [MqLedger.recordBirth, hring] at hoccupied ⊢
      by_cases hsame : other = slot
      · subst hsame
        simp [mqNewEntry]
      · rw [Function.update_of_ne hsame] at hoccupied ⊢
        rw [Function.update_of_ne hsame]
        rw [List.getElem?_append_left (hs.owner_lt hother hoccupied)]
        exact hs.unaltered other hother hoccupied
    · have hfriends : (s.ledger.retired.map fun number =>
            (s.ledger.born ++ [(friendnum, bytes)])[number]?.map Prod.fst) =
          s.ledger.retired.map fun number => s.ledger.born[number]?.map Prod.fst := by
        refine List.map_congr_left ?_
        intro number hretired
        rw [List.getElem?_append_left (hs.retired_lt hretired)]
      simp only [MqLedger.recordBirth, Mq.place]
      rw [hfriends]
      exact hs.droppedOnce
    · simp only [MqLedger.recordBirth, Mq.place]
      rw [hs.enqueued, List.length_append, List.length_singleton]
    · intro other hother hoccupied hattempted
      simp only [MqLedger.recordBirth, hring] at hoccupied hattempted ⊢
      by_cases hsame : other = slot
      · subst hsame
        simp [mqNewEntry] at hattempted
      · rw [Function.update_of_ne hsame] at hoccupied hattempted ⊢
        exact hs.handed other hother hoccupied hattempted

theorem stored_releaseSlot (q : Mq) {slot : ℕ} (owner : ℕ → ℕ) (hslot : slot < cap)
    (hoccupied : (q.ring slot).Occupied) :
    (slotsWhere cap MqEntry.Occupied q.ring).val.map owner =
      owner slot ::ₘ (slotsWhere cap MqEntry.Occupied (mqReleaseSlot q slot).ring).val.map owner := by
  have hmem : slot ∈ slotsWhere cap MqEntry.Occupied q.ring :=
    mem_slotsWhere.mpr ⟨hslot, hoccupied⟩
  simp only [mqReleaseSlot]
  rw [slotsWhere_update_of_neg (by simp [MqEntry.Occupied]), Finset.erase_val,
    ← Multiset.map_cons, Multiset.cons_erase hmem]

theorem MqRun.confirm_inv (hs : MqLedgerInv cap s) (friendnum receipt : ℤ) :
    MqLedgerInv cap (s.confirm cap friendnum receipt) := by
  rcases MqRun.confirm_cases cap s friendnum receipt with
    hstep | ⟨slot, hslot, hawaiting, -, hstep⟩
  · rw [hstep]
    exact hs
  · rw [hstep]
    have hring := Mq.confirmed_ring cap s.queue slot
    refine ⟨hs.queue.confirmed hslot hawaiting, ?_, ?_, ?_, ?_, ?_, ?_, ?_⟩
    · have hstored := stored_releaseSlot s.queue s.ledger.owner hslot hawaiting.occupied
      have hpartition := hs.partition
      rw [MqRun.stored, hstored] at hpartition
      simp only [MqRun.stored, MqLedger.recordConfirm, hring]
      rw [← Multiset.coe_add, Multiset.coe_singleton, ← hpartition, ← Multiset.singleton_add]
      abel
    · intro other hother hoccupied
      rw [hring] at hoccupied ⊢
      have hsame := occupied_releaseSlot hoccupied
      rw [hsame] at hoccupied ⊢
      exact hs.unaltered other hother hoccupied
    · rw [Mq.confirmed, mqAdvanceHead_dropFn]
      exact hs.droppedOnce
    · rw [Mq.confirmed, mqAdvanceHead_stats]
      exact hs.enqueued
    · rw [Mq.confirmed, mqAdvanceHead_stats]
      simp only [MqLedger.recordConfirm, List.length_append, List.length_singleton,
        hs.confirmedTotal]
    · rw [Mq.confirmed, mqAdvanceHead_stats]
      exact hs.droppedTotal
    · intro other hother hoccupied hattempted
      rw [hring] at hoccupied hattempted
      have hsame := occupied_releaseSlot hoccupied
      rw [hsame] at hoccupied hattempted
      exact hs.handed other hother hoccupied hattempted

theorem MqTouched.occupied_iff {slot : ℕ} {q q' : Mq} (htouched : MqTouched cap slot q q')
    (hoccupied : (q.ring slot).Occupied) (other : ℕ) :
    (q'.ring other).Occupied ↔ (q.ring other).Occupied := by
  by_cases hsame : other = slot
  · subst hsame
    exact iff_of_true htouched.occupied hoccupied
  · rw [htouched.others other hsame]

theorem MqTouched.slotsWhere_eq {slot : ℕ} {q q' : Mq} (htouched : MqTouched cap slot q q')
    (hoccupied : (q.ring slot).Occupied) :
    slotsWhere cap MqEntry.Occupied q'.ring = slotsWhere cap MqEntry.Occupied q.ring := by
  ext other
  rw [mem_slotsWhere, mem_slotsWhere, htouched.occupied_iff hoccupied]

theorem MqTouched.unaltered {slot : ℕ} {q q' : Mq} (htouched : MqTouched cap slot q q')
    (other : ℕ) :
    (q'.ring other).friendnum = (q.ring other).friendnum ∧
      (q'.ring other).payload = (q.ring other).payload ∧
      (q'.ring other).len = (q.ring other).len := by
  by_cases hsame : other = slot
  · subst hsame
    exact ⟨htouched.friendnum_eq, htouched.payload_eq, htouched.len_eq⟩
  · rw [htouched.others other hsame]
    exact ⟨rfl, rfl, rfl⟩

theorem mqRetire_drops (q : Mq) (slot : ℕ) :
    (mqRetire q slot).2.filterMap MqCall.droppedFriend =
      if q.dropFn then [(q.ring slot).friendnum] else [] := by
  cases hdrop : q.dropFn <;> cases hchange : q.changeFn <;>
    simp [mqRetire, mqNotifyChange, hdrop, hchange, MqCall.droppedFriend]

theorem mqRetire_not_transport (q : Mq) (slot : ℕ) :
    (mqRetire q slot).2.any MqCall.isTransport = false := by
  cases hdrop : q.dropFn <;> cases hchange : q.changeFn <;>
    simp [mqRetire, mqNotifyChange, hdrop, hchange, MqCall.isTransport]

/-- The part of the ledger a service call leaves to itself. -/
theorem MqLedgerInv.of_touched (hs : MqLedgerInv cap s) {slot : ℕ} {q' : Mq}
    (htouched : MqTouched cap slot s.queue q') (hoccupied : (s.queue.ring slot).Occupied)
    (hslot : slot < cap) (hinv : MqInv cap q') (hattempted : (q'.ring slot).attempted = true) :
    MqLedgerInv cap ⟨q', { s.ledger with
      handed := s.ledger.handed ++ [s.ledger.owner slot] }⟩ where
  queue := hinv
  partition := by
    have hpartition := hs.partition
    simp only [MqRun.stored] at hpartition ⊢
    rw [htouched.slotsWhere_eq hoccupied]
    exact hpartition
  unaltered := by
    intro other hother hstored
    dsimp only at hstored ⊢
    obtain ⟨hfriendnum, hpayload, hlen⟩ := htouched.unaltered other
    rw [htouched.occupied_iff hoccupied] at hstored
    rw [hfriendnum, hpayload, hlen]
    exact hs.unaltered other hother hstored
  droppedOnce := by
    rw [htouched.dropFn_eq]
    exact hs.droppedOnce
  enqueued := htouched.enqueued_eq.trans hs.enqueued
  confirmedTotal := htouched.confirmed_eq.trans hs.confirmedTotal
  droppedTotal := htouched.dropped_eq.trans hs.droppedTotal
  handed := by
    intro other hother hstored hdone
    dsimp only at hstored hdone ⊢
    rw [htouched.occupied_iff hoccupied] at hstored
    by_cases hsame : other = slot
    · subst hsame
      simp
    · rw [htouched.others other hsame] at hdone
      exact List.mem_append_left _ (hs.handed other hother hstored hdone)

theorem MqLedgerInv.of_retired (hs : MqLedgerInv cap s) {slot : ℕ} {q' : Mq}
    (htouched : MqTouched cap slot s.queue q') (hoccupied : (s.queue.ring slot).Occupied)
    (hslot : slot < cap) (hinv : MqInv cap (mqAdvanceHead cap (mqRetire q' slot).1))
    {handed : List ℕ} (hhanded : ∀ number ∈ s.ledger.handed, number ∈ handed) :
    MqLedgerInv cap ⟨mqAdvanceHead cap (mqRetire q' slot).1, { s.ledger with
      retired := s.ledger.retired ++ [s.ledger.owner slot]
      drops := s.ledger.drops ++ (mqRetire q' slot).2.filterMap MqCall.droppedFriend
      handed := handed }⟩ where
  queue := hinv
  partition := by
    have hstored := stored_releaseSlot q' s.ledger.owner hslot htouched.occupied
    have hpartition := hs.partition
    rw [MqRun.stored, ← htouched.slotsWhere_eq hoccupied, hstored] at hpartition
    simp only [MqRun.stored, mqAdvanceHead_ring, mqRetire]
    rw [← Multiset.coe_add, Multiset.coe_singleton, ← hpartition, ← Multiset.singleton_add]
    abel
  unaltered := by
    intro other hother hstored
    simp only [mqAdvanceHead_ring, mqRetire] at hstored ⊢
    have hkept := occupied_releaseSlot hstored
    obtain ⟨hfriendnum, hpayload, hlen⟩ := htouched.unaltered other
    rw [hkept] at hstored
    rw [htouched.occupied_iff hoccupied] at hstored
    rw [hkept, hfriendnum, hpayload, hlen]
    exact hs.unaltered other hother hstored
  droppedOnce := by
    have hfriend : s.ledger.born[s.ledger.owner slot]?.map Prod.fst =
        some (q'.ring slot).friendnum := by
      rw [(hs.unaltered slot hslot hoccupied).1, htouched.friendnum_eq]
      rfl
    have hdropFn : (mqRetire q' slot).1.dropFn = s.queue.dropFn := htouched.dropFn_eq
    rw [mqAdvanceHead_dropFn, hdropFn]
    simp only [List.map_append, hs.droppedOnce, mqRetire_drops, htouched.dropFn_eq]
    split
    · rw [List.map_singleton, List.map_singleton, hfriend]
    · rfl
  enqueued := by
    rw [mqAdvanceHead_stats]
    exact htouched.enqueued_eq.trans hs.enqueued
  confirmedTotal := by
    rw [mqAdvanceHead_stats]
    exact htouched.confirmed_eq.trans hs.confirmedTotal
  droppedTotal := by
    rw [mqAdvanceHead_stats]
    simp only [mqRetire, htouched.dropped_eq, hs.droppedTotal, List.length_append,
      List.length_singleton]
  handed := by
    intro other hother hstored hdone
    simp only [mqAdvanceHead_ring, mqRetire] at hstored hdone ⊢
    have hkept := occupied_releaseSlot hstored
    have hne : other ≠ slot := by
      rintro rfl
      simp [mqReleaseSlot, MqEntry.Occupied] at hstored
    rw [hkept] at hstored hdone
    rw [htouched.occupied_iff hoccupied] at hstored
    rw [htouched.others other hne] at hdone
    exact hhanded _ (hs.handed other hother hstored hdone)

theorem MqRun.service_inv (hs : MqLedgerInv cap s) (tx : Option (ℤ → Bytes → ℕ → ℤ))
    (now : ℤ) : MqLedgerInv cap (s.service cap tx now) := by
  rcases hs.queue.service_cases tx now with hidle | ⟨k, hk, -, q', hacted⟩
  · rw [MqRun.service_of_idle hidle]
    exact hs
  · have hslot : slotAt cap s.queue.head k < cap := slotAt_lt (by omega) k
    have hinv := hacted.inv hslot hs.queue
    have htouched := hacted.touched
    have hoccupied := hacted.occupied
    rw [MqRun.service, MqLedger.recordService, hacted.slot_eq]
    generalize mqService cap s.queue tx now = serviced at hacted hinv
    generalize slotAt cap s.queue.head k = slot at hacted hslot htouched hoccupied
    dsimp only
    by_cases hdropped : serviced.outcome = .dropped
    · obtain ⟨hqueue, hcalls⟩ := hacted.dropped hdropped
      have hdrops : serviced.calls.filterMap MqCall.droppedFriend =
          (mqRetire q' slot).2.filterMap MqCall.droppedFriend := by
        rcases hcalls with ⟨hcalls, -⟩ | hcalls
        · rw [hcalls]
        · rw [hcalls]
          rfl
      rw [hqueue] at hinv
      rw [if_pos hdropped, hqueue, hdrops]
      refine hs.of_retired htouched hoccupied hslot hinv ?_
      intro number hnumber
      split
      · exact List.mem_append_left _ hnumber
      · exact hnumber
    · obtain ⟨hqueue, hattempted, hcalls⟩ := hacted.kept hdropped
      rw [if_neg hdropped, hqueue, hcalls]
      rw [hqueue] at hinv
      have hnone : [MqCall.transport (s.queue.ring slot).friendnum (s.queue.ring slot).payload
          (s.queue.ring slot).len].filterMap MqCall.droppedFriend = [] := rfl
      rw [hnone, List.append_nil]
      exact hs.of_touched htouched hoccupied hslot hinv hattempted

/-! ## Every run -/

theorem MqRun.step_inv (hs : MqLedgerInv cap s) (op : MqOp) : MqLedgerInv cap (s.step cap op) := by
  cases op with
  | enqueue friendnum payload now => exact MqRun.enqueue_inv hs friendnum payload now
  | confirm friendnum receipt => exact MqRun.confirm_inv hs friendnum receipt
  | service tx now => exact MqRun.service_inv hs tx now
  | foreach => exact hs
  | statsGet => exact hs

theorem MqRun.after_inv (hs : MqLedgerInv cap s) (ops : List MqOp) :
    MqLedgerInv cap (s.after cap ops) := by
  induction ops generalizing s with
  | nil => exact hs
  | cons op ops ih => exact ih (MqRun.step_inv hs op)

end

/-- In every run of the queue every accepted message is accounted for. -/
theorem msgQueue_accounted {cap : ℕ} (hcap : 0 < cap) (dropFn changeFn : Bool)
    (ops : List MqOp) : ((mqStart dropFn changeFn).after cap ops).Accounted cap :=
  (MqRun.after_inv (mqStart_inv hcap dropFn changeFn) ops).accounted

/-- Two messages for two friends: one is confirmed, the other is refused by the
transport and retired. -/
theorem msgQueue_accounted_two :
    ((mqStart true true).after 4
      [.enqueue 1 (some [65]) 0, .enqueue 2 (some [66]) 0,
        .service (some fun _ _ _ => 7) 1, .confirm 1 7,
        .service (some fun _ _ _ => -1) 2]).Accounted 4 :=
  msgQueue_accounted (by decide) true true _

end ToxRelayer
