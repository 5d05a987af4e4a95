import ToxRelayer.MsgQueueSound

/-!
# Room in the delivery queue

`mq_enqueue` finds a slot whenever there is one, wherever the free slots lie.
-/

namespace ToxRelayer

open CString RingIndex

/-- The range check of `mq_enqueue` lets these arguments pass. -/
def MqInRange (friendnum : ℤ) (payload : Option Bytes) : Prop :=
  0 ≤ friendnum ∧ ∃ bytes, payload = some bytes ∧ 0 < bytes.length ∧ bytes.length < mqPayloadMax

/-- The queue `q'` holds one message more than `q`, in a slot that was free, and
every message of `q` where it was. -/
structure Mq.Stores (cap : ℕ) (q q' : Mq) (e : MqEntry) : Prop where
  count_eq : q'.count = q.count + 1
  stored : ∃ slot < cap, ¬ (q.ring slot).Occupied ∧ q'.ring slot = e
  kept : ∀ slot < cap, (q.ring slot).Occupied → q'.ring slot = q.ring slot

def Mq.rejected (q : Mq) : Mq :=
  { q with stats := { q.stats with totalFullRejections := q.stats.totalFullRejections + 1 } }

section

variable {cap : ℕ} {q : Mq} {friendnum now : ℤ} {payload : Option Bytes}

theorem Mq.place_stores {slot : ℕ} {e : MqEntry} (hslot : slot < cap)
    (hfree : ¬ (q.ring slot).Occupied) : q.Stores cap (q.place cap slot e) e where
  count_eq := rfl
  stored := ⟨slot, hslot, hfree, Function.update_self _ _ _⟩
  kept := by
    intro other _ hoccupied
    apply Function.update_of_ne
    rintro rfl
    exact hfree hoccupied

theorem mqEnqueue_of_not_inRange (hargs : ¬ MqInRange friendnum payload) :
    mqEnqueue cap q friendnum payload now = ⟨mqErrRange, q, []⟩ := by
  cases payload with
  | none => rfl
  | some bytes =>
      rw [mqEnqueue, if_pos]
      by_contra hpassed
      apply hargs
      exact ⟨by omega, bytes, rfl, by omega, by omega⟩

/-- A search that fails has gone round the ring once: the tail is where it was. -/
theorem MqCounted.findFreeSlot_full (hq : MqCounted cap q) (hfull : q.count = cap) :
    mqFindFreeSlot cap q = (none, q) := by
  rcases mqFindFreeLoop_spec q.ring cap q.tail hq.tail_lt with
    ⟨k, hk, -, -, hfree⟩ | ⟨hnone, -⟩
  · exact absurd (hq.count_eq_cap_iff.mp hfull _ (slotAt_lt (by omega) k)) hfree
  · rw [mqFindFreeSlot, hnone, slotAt_cap hq.tail_lt]

theorem MqCounted.enqueue_full (hq : MqCounted cap q) (hargs : MqInRange friendnum payload)
    (hfull : q.count = cap) :
    mqEnqueue cap q friendnum payload now = ⟨mqErrFull, q.rejected, []⟩ := by
  obtain ⟨hfriendnum, bytes, rfl, hlength, hmax⟩ := hargs
  rw [mqEnqueue, if_neg (by omega), hq.findFreeSlot_full hfull]
  rfl

/-- A slot is found if the queue is not full: the search passes every slot. -/
theorem MqCounted.enqueue_room (hq : MqCounted cap q) (hargs : MqInRange friendnum payload)
    (hroom : q.count < cap) :
    ∃ bytes slot, payload = some bytes ∧ slot < cap ∧ ¬ (q.ring slot).Occupied ∧
      mqEnqueue cap q friendnum payload now =
        ⟨mqOk, q.place cap slot (mqNewEntry friendnum bytes now), mqNotifyChange q⟩ := by
  rcases mqEnqueue_cases hq friendnum payload now with
    ⟨-, -, hfull⟩ | ⟨k, hk, bytes, hpayload, -, -, -, -, hfree, -, hresult⟩
  · obtain ⟨hfriendnum, bytes, hpayload, hlength, hmax⟩ := hargs
    have hall := hfull bytes hpayload hfriendnum hlength hmax
    exact absurd (hq.count_eq_cap_iff.mpr hall) hroom.ne
  · exact ⟨bytes, slotAt cap q.tail k, hpayload, slotAt_lt (by omega) k, hfree, hresult⟩

/-- What a call says of the queue it leaves. -/
structure MqReturn.Tells (cap : ℕ) (q : Mq) (friendnum : ℤ) (payload : Option Bytes) (now : ℤ)
    (result : MqReturn) : Prop where
  ok_iff : result.code = mqOk ↔ MqInRange friendnum payload ∧ q.count < cap
  ok : result.code = mqOk →
    ∃ bytes, payload = some bytes ∧ q.Stores cap result.queue (mqNewEntry friendnum bytes now)
  errRange : result.code = mqErrRange → result.queue = q ∧ result.calls = []
  errFull : result.code = mqErrFull → result.queue = q.rejected ∧ result.calls = []
  codes : result.code = mqOk ∨ result.code = mqErrRange ∨ result.code = mqErrFull

theorem MqCounted.enqueue_tells (hq : MqCounted cap q) (friendnum : ℤ) (payload : Option Bytes)
    (now : ℤ) :
    (mqEnqueue cap q friendnum payload now).Tells cap q friendnum payload now := by
  have hrange : mqErrRange ≠ mqOk := by decide
  have hfullOk : mqErrFull ≠ mqOk := by decide
  have hfullRange : mqErrFull ≠ mqErrRange := by decide
  by_cases hargs : MqInRange friendnum payload
  · rcases hq.count_le.lt_or_eq with hroom | hfull
    · obtain ⟨bytes, slot, hpayload, hslot, hfree, hresult⟩ := hq.enqueue_room hargs hroom
      rw [hresult]
      refine ⟨iff_of_true rfl ⟨hargs, hroom⟩, ?_, ?_, ?_, .inl rfl⟩
      · exact fun _ => ⟨bytes, hpayload, Mq.place_stores hslot hfree⟩
      · exact fun hcode => absurd hcode.symm hrange
      · exact fun hcode => absurd hcode.symm hfullOk
    · rw [hq.enqueue_full hargs hfull]
      refine ⟨iff_of_false hfullOk fun hroom => hroom.2.ne hfull, ?_, ?_, ?_, .inr (.inr rfl)⟩
      · exact fun hcode => absurd hcode hfullOk
      · exact fun hcode => absurd hcode hfullRange
      · exact fun _ => ⟨rfl, rfl⟩
  · rw [mqEnqueue_of_not_inRange hargs]
    refine ⟨iff_of_false hrange fun hroom => hargs hroom.1, ?_, ?_, ?_, .inr (.inl rfl)⟩
    · exact fun hcode => absurd hcode hrange
    · exact fun _ => ⟨rfl, rfl⟩
    · exact fun hcode => absurd hcode.symm hfullRange

end

/-- After every run an enqueue succeeds exactly when the arguments are in range
and the queue is not full; then the message is stored and every other message
kept.  A refusal changes the counter of refusals at most. -/
theorem mqEnqueue_ok_iff_room {cap : ℕ} (hcap : 0 < cap) (dropFn changeFn : Bool)
    (ops : List MqOp) (friendnum : ℤ) (payload : Option Bytes) (now : ℤ) :
    let q := ((mqStart dropFn changeFn).after cap ops).queue
    (mqEnqueue cap q friendnum payload now).Tells cap q friendnum payload now :=
  ((mqStart_sound hcap dropFn changeFn).after ops).toMqCounted.enqueue_tells friendnum payload now

/-- The first of two messages has gone: the third finds its slot behind the
second, the fourth finds none. -/
theorem mqEnqueue_ok_iff_room_hole :
    let q := ((mqStart false true).after 2
      [.enqueue 1 (some [65]) 0, .enqueue 1 (some [66]) 0, .service (some fun _ _ _ => 7) 1,
        .confirm 1 7, .enqueue 1 (some [67]) 2]).queue
    (mqEnqueue 2 q 1 (some [68]) 3).Tells 2 q 1 (some [68]) 3 :=
  mqEnqueue_ok_iff_room (by decide) false true _ 1 (some [68]) 3

end ToxRelayer
