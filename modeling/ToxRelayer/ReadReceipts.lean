import ToxRelayer.MsgQueueReceipts
import ToxRelayer.ToxTransport

/-!
# Read receipts from toxcore

A receipt of `tox_friend_send_message` is an unsigned 32-bit number.  On its way into
the queue and back out of it, it is a signed `int`, whose negative values report a
failure.
-/

namespace ToxRelayer

open CString RingIndex

/-- The callback hands both numbers to `mq_confirm`; the line it prints is left out. -/
def cbFriendReadReceipt (cap : ℕ) (s : MqRun) (friendnumber receipt : UInt32) : MqRun :=
  s.confirm cap friendnumber.toInt32.toInt receipt.toInt32.toInt

namespace MqRun

/-- The service call hands the message in the slot to toxcore, which accepts it and
answers with a receipt. -/
structure HandsOver (cap : ℕ) (s : MqRun) (m : ToxNetwork) (now : ℤ) (slot : ℕ)
    (friendnumber receipt : UInt32) : Prop where
  turned : (mqService cap s.queue (some (toxTransport (some m))) now).slot = some slot
  called : (mqService cap s.queue (some (toxTransport (some m))) now).calls.any
    MqCall.isTransport = true
  friend : (s.queue.ring slot).friendnum = friendnumber.toNat
  valid : friendNumberValid friendnumber.toNat
  connected : m.friendConnected friendnumber.toNat = true
  accepted : m.friendSendMessage friendnumber.toNat
    ((s.queue.ring slot).payload.take (s.queue.ring slot).len) = some receipt

/-- A message that was stored is not stored any more. -/
def Removes (cap : ℕ) (before after : MqRun) (number : ℕ) : Prop :=
  (before.storedIn cap number).Nonempty ∧ after.storedIn cap number = ∅

/-- The slot still holds the message it held, in the same state and with the same
receipt. -/
structure LeftAsIs (slot : ℕ) (before after : MqRun) : Prop where
  owner : after.ledger.owner slot = before.ledger.owner slot
  state : (after.queue.ring slot).state = (before.queue.ring slot).state
  friendnum : (after.queue.ring slot).friendnum = (before.queue.ring slot).friendnum
  receipt : (after.queue.ring slot).receipt = (before.queue.ring slot).receipt

end MqRun

/-! ## Casts -/

theorem toInt32_nonneg_iff (value : UInt32) : 0 ≤ value.toInt32.toInt ↔ value.toNat < 2 ^ 31 := by
  have hcast : value.toInt32.toInt = value.toBitVec.toInt := rfl
  have hnat : value.toNat = value.toBitVec.toNat := rfl
  rw [hcast, hnat, BitVec.toInt_pos_iff]
  omega

theorem toInt32_eq_toNat {value : UInt32} (hvalue : value.toNat < 2 ^ 31) :
    value.toInt32.toInt = value.toNat := by
  have hnat : value.toNat = value.toBitVec.toNat := rfl
  have hsmall : 2 * value.toBitVec.toNat < 2 ^ 32 := by omega
  exact BitVec.toInt_eq_toNat_of_lt hsmall

/-! ## A message stays in its slot -/

section

variable {cap : ℕ} {s : MqRun}

theorem MqRun.mem_storedIn {number slot : ℕ} :
    slot ∈ s.storedIn cap number ↔
      slot < cap ∧ (s.queue.ring slot).Occupied ∧ s.ledger.owner slot = number := by
  rw [MqRun.storedIn, Finset.mem_filter, mem_slotsWhere, and_assoc]

/-- A message that was accepted before the call is stored nowhere it was not. -/
theorem MqLedgerInv.storedIn_step (hs : MqLedgerInv cap s) (op : MqOp) {number : ℕ}
    (hnumber : number < s.ledger.born.length) :
    (s.step cap op).storedIn cap number ⊆ s.storedIn cap number ∧
      number < (s.step cap op).ledger.born.length := by
  cases op with
  | enqueue friendnum payload now =>
      simp only [MqRun.step]
      rcases MqRun.enqueue_cases hs.queue.toMqCounted friendnum payload now with
        ⟨rejections, hstep⟩ | ⟨placed, hplaced, bytes, hfree, hstep⟩
      · rw [hstep]
        exact ⟨subset_rfl, hnumber⟩
      · rw [hstep]
        simp only [MqLedger.recordBirth, List.length_append, List.length_singleton]
        refine ⟨?_, by omega⟩
        intro slot hmem
        obtain ⟨hslot, hoccupied, howner⟩ := MqRun.mem_storedIn.mp hmem
        simp only [Mq.place] at hoccupied howner
        have hne : slot ≠ placed := by
          rintro rfl
          rw [Function.update_self] at howner
          omega
        rw [Function.update_of_ne hne] at hoccupied howner
        exact MqRun.mem_storedIn.mpr ⟨hslot, hoccupied, howner⟩
  | confirm friendnum receipt =>
      simp only [MqRun.step]
      rcases MqRun.confirm_cases cap s friendnum receipt with
        hstep | ⟨released, hreleased, -, -, hstep⟩
      · rw [hstep]
        exact ⟨subset_rfl, hnumber⟩
      · rw [hstep]
        refine ⟨?_, hnumber⟩
        intro slot hmem
        obtain ⟨hslot, hoccupied, howner⟩ := MqRun.mem_storedIn.mp hmem
        dsimp only at hoccupied
        rw [Mq.confirmed_ring] at hoccupied
        rw [occupied_releaseSlot hoccupied] at hoccupied
        exact MqRun.mem_storedIn.mpr ⟨hslot, hoccupied, howner⟩
  | service tx now =>
      rw [MqRun.step, MqRun.service_born]
      refine ⟨?_, hnumber⟩
      rcases hs.queue.service_cases tx now with hidle | ⟨k, hk, -, q', hacted⟩
      · rw [MqRun.service_of_idle hidle]
      · intro slot hmem
        rw [MqRun.mem_storedIn, MqRun.service_owner] at hmem
        obtain ⟨hslot, hoccupied, howner⟩ := hmem
        refine MqRun.mem_storedIn.mpr ⟨hslot, ?_, howner⟩
        rw [MqRun.service] at hoccupied
        dsimp only at hoccupied
        by_cases hsame : slot = slotAt cap s.queue.head k
        · rw [hsame]
          exact hacted.occupied
        · rwa [hacted.ring_of_ne hsame] at hoccupied
  | foreach => exact ⟨subset_rfl, hnumber⟩
  | statsGet => exact ⟨subset_rfl, hnumber⟩

theorem MqLedgerInv.storedIn_after (hs : MqLedgerInv cap s) (ops : List MqOp) {number : ℕ}
    (hnumber : number < s.ledger.born.length) :
    (s.after cap ops).storedIn cap number ⊆ s.storedIn cap number := by
  induction ops generalizing s with
  | nil => exact subset_rfl
  | cons op ops ih =>
      obtain ⟨hsubset, hnumber'⟩ := hs.storedIn_step op hnumber
      exact (ih (MqRun.step_inv hs op) hnumber').trans hsubset

/-! ## What a confirmation removes -/

theorem MqRun.confirm_of_negative {friendnum receipt : ℤ} (hreceipt : receipt < 0) :
    s.confirm cap friendnum receipt = s := by
  have hrange : friendnum < 0 ∨ receipt < 0 := .inr hreceipt
  have hcode : mqErrRange ≠ mqOk := by decide
  simp only [MqRun.confirm, mqConfirm, hrange, hcode, if_true, if_false]

/-- A confirmation removes the message in the first slot that waits for the receipt. -/
theorem MqLedgerInv.confirm_removes_iff (hs : MqLedgerInv cap s) {friendnum receipt : ℤ}
    (hfriendnum : 0 ≤ friendnum) {number : ℕ} :
    s.Removes cap (s.confirm cap friendnum receipt) number ↔
      0 ≤ receipt ∧ ∃ slot < cap, s.ledger.owner slot = number ∧
        (s.queue.ring slot).InFlightTo friendnum receipt ∧
        ∀ other < slot, ¬ (s.queue.ring other).InFlightTo friendnum receipt := by
  constructor
  · rintro ⟨⟨slot, hstored⟩, hgone⟩
    have hchanged : s.confirm cap friendnum receipt ≠ s := by
      intro hsame
      rw [hsame] at hgone
      rw [hgone] at hstored
      exact absurd hstored (Finset.notMem_empty slot)
    refine ⟨?_, ?_⟩
    · by_contra hnegative
      exact hchanged (MqRun.confirm_of_negative (Int.not_le.mp hnegative))
    · rcases MqRun.confirm_cases cap s friendnum receipt with
        hsame | ⟨released, hreleased, -, hfound, hstep⟩
      · exact absurd hsame hchanged
      · obtain ⟨-, hinFlight, hfirst⟩ := mqFindInFlight_eq_some.mp hfound
        refine ⟨released, hreleased, ?_, hinFlight, hfirst⟩
        obtain ⟨hslot, hoccupied, howner⟩ := MqRun.mem_storedIn.mp hstored
        -- were it another slot, the message would still be stored there
        by_contra hother
        have hne : slot ≠ released := by
          rintro rfl
          exact hother howner
        have hkept : slot ∈ (s.confirm cap friendnum receipt).storedIn cap number := by
          rw [hstep, MqRun.mem_storedIn, Mq.confirmed_ring]
          refine ⟨hslot, ?_, howner⟩
          simp only [mqReleaseSlot]
          rwa [Function.update_of_ne hne]
        rw [hgone] at hkept
        exact absurd hkept (Finset.notMem_empty slot)
  · rintro ⟨hreceipt, slot, hslot, howner, hinFlight, hfirst⟩
    have hfound := mqFindInFlight_eq_some.mpr ⟨hslot, hinFlight, hfirst⟩
    have hoccupied := hinFlight.1.occupied
    refine ⟨⟨slot, MqRun.mem_storedIn.mpr ⟨hslot, hoccupied, howner⟩⟩, ?_⟩
    rw [MqRun.confirm_eq_of_found hfriendnum hreceipt hfound, Finset.eq_empty_iff_forall_notMem]
    intro other hmem
    obtain ⟨hother, hstored, howner'⟩ := MqRun.mem_storedIn.mp hmem
    dsimp only at hstored
    rw [Mq.confirmed_ring] at hstored
    have hkept := occupied_releaseSlot hstored
    have hsame : other = slot := by
      rw [hkept] at hstored
      exact hs.owner_inj hother hslot hstored hoccupied (howner'.trans howner.symm)
    rw [hsame] at hstored
    exact absurd hstored (by simp [mqReleaseSlot, MqEntry.Occupied])

/-! ## What the service call leaves -/

theorem MqTried.inFlightTo {tx : ℤ → Bytes → ℕ → ℤ} {now : ℤ} {e e' : MqEntry}
    {outcome : MqOutcome} (htried : MqTried tx now e e' outcome)
    (hrc : 0 ≤ tx e.friendnum e.payload e.len) :
    outcome = .sent ∧ e'.InFlightTo e.friendnum (tx e.friendnum e.payload e.len) := by
  cases htried with
  | sent _ hentry =>
      subst hentry
      exact ⟨rfl, rfl, rfl, rfl⟩
  | deferred hnegative => omega
  | dropped hnegative => omega

/-- A message that the transport was called for and gave a receipt is in flight. -/
theorem MqServed.inFlightTo {tx : ℤ → Bytes → ℕ → ℤ} {now : ℤ} {slot : ℕ} {q q' : Mq}
    {serviced : MqServiced} (hserved : MqServed cap tx now slot q q' serviced)
    (hcalled : serviced.calls.any MqCall.isTransport = true)
    (hrc : 0 ≤ tx (q.ring slot).friendnum (q.ring slot).payload (q.ring slot).len) :
    (serviced.queue.ring slot).InFlightTo (q.ring slot).friendnum
      (tx (q.ring slot).friendnum (q.ring slot).payload (q.ring slot).len) := by
  obtain ⟨calls, hmoved, hcalls⟩ := hserved.moved
  have hsent (houtcome : serviced.outcome = .sent) : serviced.queue.ring slot = q'.ring slot := by
    rw [(hserved.kept (by rw [houtcome]; decide)).1]
  generalize houtcome : serviced.outcome = outcome at hmoved
  cases hmoved with
  | attempt hpending htried =>
      obtain ⟨hsame, hinFlight⟩ := htried.inFlightTo hrc
      rw [hsent (houtcome.trans hsame)]
      exact hinFlight
  | retry hawaiting hbudget htried =>
      obtain ⟨hsame, hinFlight⟩ := htried.inFlightTo hrc
      rw [hsent (houtcome.trans hsame)]
      exact hinFlight
  | spent hawaiting hbudget hentry =>
      rw [houtcome, if_pos rfl, List.nil_append] at hcalls
      rw [hcalls, mqRetire_not_transport] at hcalled
      exact absurd hcalled (by decide)

theorem MqRun.HandsOver.transport_eq {m : ToxNetwork} {now : ℤ} {slot : ℕ}
    {friendnumber receipt : UInt32} (hover : s.HandsOver cap m now slot friendnumber receipt) :
    toxTransport (some m) (s.queue.ring slot).friendnum (s.queue.ring slot).payload
      (s.queue.ring slot).len = receipt.toInt32.toInt := by
  have hnonneg : ¬ ((friendnumber.toNat : ℤ) < 0) := by omega
  have hvalid := hover.valid
  have hconnected := hover.connected
  have haccepted := hover.accepted
  rw [hover.friend]
  simp only [toxTransport, hnonneg, hvalid, Int.toNat_natCast, hconnected, haccepted, not_true,
    if_false, Bool.true_eq_false]

theorem MqRun.HandsOver.served {m : ToxNetwork} {now : ℤ} {slot : ℕ}
    {friendnumber receipt : UInt32} (hover : s.HandsOver cap m now slot friendnumber receipt)
    (hs : MqInv cap s.queue) : slot < cap ∧ ∃ q',
      MqServed cap (toxTransport (some m)) now slot s.queue q'
        (mqService cap s.queue (some (toxTransport (some m))) now) := by
  have hturned := hover.turned
  rcases hs.service_moves (toxTransport (some m)) now with ⟨hidle, -⟩ | ⟨k, hk, -, q', hserved⟩
  · rw [hidle] at hturned
    cases hturned
  · obtain rfl : slotAt cap s.queue.head k = slot :=
      Option.some.inj (hserved.slot_eq.symm.trans hturned)
    exact ⟨slotAt_lt (by omega) k, q', hserved⟩

/-- A receipt that is not negative as an `int` is what the queue holds afterwards. -/
theorem MqRun.HandsOver.inFlightTo {m : ToxNetwork} {now : ℤ} {slot : ℕ}
    {friendnumber receipt : UInt32} (hover : s.HandsOver cap m now slot friendnumber receipt)
    (hs : MqInv cap s.queue) (hreceipt : receipt.toNat < 2 ^ 31) :
    ((s.service cap (some (toxTransport (some m))) now).queue.ring slot).InFlightTo
      friendnumber.toNat receipt.toNat := by
  obtain ⟨-, q', hserved⟩ := hover.served hs
  have htransport := hover.transport_eq
  rw [toInt32_eq_toNat hreceipt] at htransport
  have hinFlight := hserved.inFlightTo hover.called (by rw [htransport]; omega)
  rwa [htransport, hover.friend] at hinFlight

end

/-- A message that toxcore accepts and answers with a receipt waits for it and is removed
by its read receipt exactly if the receipt is below `2 ^ 31`, the message is as the
service call left it when the read receipt comes, and no slot before it waits for the
same receipt of the same friend. -/
theorem readReceipt_honoured_iff {cap : ℕ} (hcap : 0 < cap) (dropFn changeFn : Bool)
    (ops later : List MqOp) (m : ToxNetwork) (now : ℤ) (slot : ℕ)
    (friendnumber receipt : UInt32) :
    let s := (mqStart dropFn changeFn).after cap ops
    let sent := s.service cap (some (toxTransport (some m))) now
    let waiting := sent.after cap later
    s.HandsOver cap m now slot friendnumber receipt →
      ((sent.queue.ring slot).Awaiting ∧
          waiting.Removes cap (cbFriendReadReceipt cap waiting friendnumber receipt)
            (s.ledger.owner slot) ↔
        receipt.toNat < 2 ^ 31 ∧ MqRun.LeftAsIs slot sent waiting ∧
          ∀ other < slot, ¬ (waiting.queue.ring other).InFlightTo friendnumber.toNat
            receipt.toNat) := by
  intro s sent waiting hover
  have hs : MqLedgerInv cap s := MqRun.after_inv (mqStart_inv hcap dropFn changeFn) ops
  have hsent : MqLedgerInv cap sent := MqRun.service_inv hs _ _
  have hwaiting : MqLedgerInv cap waiting := MqRun.after_inv hsent later
  have hfriend : friendnumber.toInt32.toInt = friendnumber.toNat := by
    have hbelow := hover.valid.2
    rw [maxFriendNum] at hbelow
    exact toInt32_eq_toNat (by omega)
  by_cases hreceipt : receipt.toNat < 2 ^ 31
  · have hslot := (hover.served hs.queue).1
    have howner : sent.ledger.owner slot = s.ledger.owner slot := by
      rw [MqRun.service_owner]
    have hinFlight : (sent.queue.ring slot).InFlightTo friendnumber.toNat receipt.toNat :=
      hover.inFlightTo hs.queue hreceipt
    have hoccupied := hinFlight.1.occupied
    rw [cbFriendReadReceipt, hfriend, toInt32_eq_toNat hreceipt,
      hwaiting.confirm_removes_iff (by omega), ← howner]
    constructor
    · rintro ⟨-, -, held, hheld, hsame, hstill, hfirst⟩
      have hstored := hsent.storedIn_after later (hsent.owner_lt hslot hoccupied)
        (MqRun.mem_storedIn.mpr ⟨hheld, hstill.1.occupied, hsame⟩)
      obtain ⟨-, hbefore, howner'⟩ := MqRun.mem_storedIn.mp hstored
      obtain rfl := hsent.owner_inj hheld hslot hbefore hoccupied howner'
      refine ⟨hreceipt, ⟨hsame, ?_, ?_, ?_⟩, hfirst⟩
      · exact hstill.1.trans hinFlight.1.symm
      · exact hstill.2.1.trans hinFlight.2.1.symm
      · exact hstill.2.2.trans hinFlight.2.2.symm
    · rintro ⟨-, hleft, hfirst⟩
      refine ⟨hinFlight.1, by omega, slot, hslot, hleft.owner, ⟨?_, ?_, ?_⟩, hfirst⟩
      · exact hleft.state.trans hinFlight.1
      · exact hleft.friendnum.trans hinFlight.2.1
      · exact hleft.receipt.trans hinFlight.2.2
  · refine iff_of_false ?_ fun hholds => hreceipt hholds.1
    rintro ⟨-, hremoves⟩
    have hnonneg := ((hwaiting.confirm_removes_iff (by rw [hfriend]; omega)).mp hremoves).1
    exact hreceipt ((toInt32_nonneg_iff receipt).mp hnonneg)

/-! ## Two receipts -/

/-- A friend that is online and accepts every message, with the given receipt. -/
def acceptingNetwork (receipt : UInt32) : ToxNetwork :=
  ⟨fun _ => true, fun _ _ => some receipt⟩

/-- The largest receipt below the bound. -/
theorem readReceipt_honoured_iff_largest :
    let s := (mqStart false false).after 2 [.enqueue 0 (some [65]) 0]
    let sent := s.service 2 (some (toxTransport (some (acceptingNetwork 0x7FFFFFFF)))) 1
    (sent.queue.ring 0).Awaiting ∧
      sent.Removes 2 (cbFriendReadReceipt 2 sent 0 0x7FFFFFFF) (s.ledger.owner 0) := by
  intro s sent
  have hover : s.HandsOver 2 (acceptingNetwork 0x7FFFFFFF) 1 0 0 0x7FFFFFFF :=
    ⟨by decide, by decide, by decide, by decide, by decide, by decide⟩
  refine (readReceipt_honoured_iff (by decide) false false _ [] _ 1 0 0 0x7FFFFFFF hover).mpr ?_
  refine ⟨by decide, ⟨rfl, rfl, rfl, rfl⟩, ?_⟩
  exact fun other hother => absurd hother (Nat.not_lt_zero other)

/-- As an `int` the largest receipt is `MQ_SEND_FATAL`. -/
theorem readReceipt_lost :
    let s := (mqStart false false).after 2 [.enqueue 0 (some [65]) 0]
    let m := acceptingNetwork 0xFFFFFFFF
    let sent := s.service 2 (some (toxTransport (some m))) 1
    s.HandsOver 2 m 1 0 0 0xFFFFFFFF ∧
      ¬ ((sent.queue.ring 0).Awaiting ∧
        sent.Removes 2 (cbFriendReadReceipt 2 sent 0 0xFFFFFFFF) (s.ledger.owner 0)) ∧
      s.ledger.owner 0 ∈ sent.ledger.retired := by
  refine ⟨⟨by decide, by decide, by decide, by decide, by decide, by decide⟩, ?_, by decide⟩
  rintro ⟨hawaiting, -⟩
  exact absurd hawaiting (by decide)

end ToxRelayer
