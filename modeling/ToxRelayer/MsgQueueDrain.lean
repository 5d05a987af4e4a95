import ToxRelayer.MsgQueueBudget

/-!
# The queue drains

A stored message has a bounded number of calls of `mq_service` left in it.  When
no message waits, a call uses up one of them.
-/

namespace ToxRelayer

open CString RingIndex

/-! ## Calls that only drain -/

/-- A call of `mq_confirm`, or of `mq_service` with a transport. -/
inductive DrainCall where
  | confirm (friendnum receipt : ℤ)
  | service (tx : ℤ → Bytes → ℕ → ℤ) (now : ℤ)

def DrainCall.op : DrainCall → MqOp
  | .confirm friendnum receipt => .confirm friendnum receipt
  | .service tx now => .service (some tx) now

/-- The time of a service call. -/
def DrainCall.time : DrainCall → Option ℤ
  | .confirm _ _ => none
  | .service _ now => some now

/-! ## The calls left -/

/-- How many calls of `mq_service` can still act on the stored messages. -/
def mqCallsLeft (cap : ℕ) (q : Mq) : ℕ :=
  ∑ slot ∈ slotsWhere cap MqEntry.Occupied q.ring, (mqMaxAttempts + 1 - (q.ring slot).handings)

section

variable {cap : ℕ} {q : Mq}

theorem mqCallsLeft_le (hq : MqCounted cap q) :
    mqCallsLeft cap q ≤ q.count * (mqMaxAttempts + 1) := by
  rw [hq.count_eq, ← smul_eq_mul]
  exact Finset.sum_le_card_nsmul _ _ _ fun _ _ => Nat.sub_le _ _

/-- A stored message has a call left. -/
theorem MqSound.count_eq_zero (hq : MqSound cap q) (hnone : mqCallsLeft cap q = 0) :
    q.count = 0 := by
  by_contra hcount
  obtain ⟨slot, hslot, hoccupied⟩ := hq.exists_occupied hcount
  have hhandings := (hq.entries slot hslot hoccupied).handings_le
  have hleft := Finset.sum_eq_zero_iff.mp hnone slot (mem_slotsWhere.mpr ⟨hslot, hoccupied⟩)
  omega

theorem mqCallsLeft_eq {slot : ℕ} (hslot : slot < cap) (hoccupied : (q.ring slot).Occupied) :
    mqCallsLeft cap q =
      (mqMaxAttempts + 1 - (q.ring slot).handings) +
        ∑ other ∈ (slotsWhere cap MqEntry.Occupied q.ring).erase slot,
          (mqMaxAttempts + 1 - (q.ring other).handings) :=
  (Finset.add_sum_erase _ _ (mem_slotsWhere.mpr ⟨hslot, hoccupied⟩)).symm

theorem mqCallsLeft_release {slot : ℕ} {q' : Mq}
    (hring : q'.ring = (mqReleaseSlot q slot).ring) :
    mqCallsLeft cap q' =
      ∑ other ∈ (slotsWhere cap MqEntry.Occupied q.ring).erase slot,
        (mqMaxAttempts + 1 - (q.ring other).handings) := by
  rw [mqCallsLeft, hring]
  simp only [mqReleaseSlot]
  rw [slotsWhere_update_of_neg (by simp [MqEntry.Occupied])]
  refine Finset.sum_congr rfl ?_
  intro other hother
  rw [Function.update_of_ne (Finset.ne_of_mem_erase hother)]

/-- The messages other than the one acted on have as many calls left as before. -/
theorem MqTouched.callsLeft_others {slot : ℕ} {q' : Mq} (htouched : MqTouched cap slot q q')
    (hoccupied : (q.ring slot).Occupied) :
    ∑ other ∈ (slotsWhere cap MqEntry.Occupied q'.ring).erase slot,
        (mqMaxAttempts + 1 - (q'.ring other).handings) =
      ∑ other ∈ (slotsWhere cap MqEntry.Occupied q.ring).erase slot,
        (mqMaxAttempts + 1 - (q.ring other).handings) := by
  rw [htouched.slotsWhere_eq hoccupied]
  refine Finset.sum_congr rfl ?_
  intro other hother
  rw [htouched.others other (Finset.ne_of_mem_erase hother)]

/-! ## One call -/

theorem mqConfirm_callsLeft (cap : ℕ) (q : Mq) (friendnum receipt : ℤ) :
    mqCallsLeft cap (mqConfirm cap q friendnum receipt).queue ≤ mqCallsLeft cap q := by
  rcases mqConfirm_cases cap q friendnum receipt with
    ⟨-, hqueue⟩ | ⟨slot, hslot, hawaiting, -, hresult⟩
  · rw [hqueue]
  · rw [hresult, mqCallsLeft_release (Mq.confirmed_ring cap q slot),
      mqCallsLeft_eq hslot hawaiting.occupied]
    exact Nat.le_add_left _ _

theorem MqMoved.calls_length {tx : ℤ → Bytes → ℕ → ℤ} {now : ℤ} {e e' : MqEntry}
    {outcome : MqOutcome} {calls : List MqCall} (hmoved : MqMoved tx now e e' outcome calls)
    (hkept : outcome ≠ .dropped) : calls.length = 1 := by
  cases hmoved with
  | attempt => rfl
  | retry => rfl
  | spent => exact absurd rfl hkept

theorem MqServed.callsLeft {tx : ℤ → Bytes → ℕ → ℤ} {now : ℤ} {slot : ℕ} {q' : Mq}
    {serviced : MqServiced} (hserved : MqServed cap tx now slot q q' serviced) (hslot : slot < cap)
    (hq : MqSound cap q) : mqCallsLeft cap serviced.queue + 1 ≤ mqCallsLeft cap q := by
  have he := hq.entries slot hslot hserved.occupied
  have hhandings := he.handings_le
  have hothers := hserved.touched.callsLeft_others hserved.occupied
  rw [mqCallsLeft_eq hslot hserved.occupied, ← hothers]
  by_cases hdropped : serviced.outcome = .dropped
  · have hring : serviced.queue.ring = (mqReleaseSlot q' slot).ring := by
      rw [(hserved.dropped hdropped).1, mqAdvanceHead_ring]
      rfl
    rw [mqCallsLeft_release hring]
    omega
  · obtain ⟨calls, hmoved, -⟩ := hserved.moved
    have hone := hmoved.calls_length hdropped
    have hmore := hmoved.handings
    have hwithin := (hmoved.sound hdropped he).handings_le
    rw [(hserved.kept hdropped).1, mqCallsLeft_eq hslot hserved.touched.occupied]
    omega

/-- When no stored message waits, a call of `mq_service` uses up a call. -/
theorem MqSound.service_callsLeft (hq : MqSound cap q) (tx : ℤ → Bytes → ℕ → ℤ) {now : ℤ}
    (hready : ∀ slot < cap, (q.ring slot).Occupied → ¬ (q.ring slot).Waits now) :
    mqCallsLeft cap (mqService cap q (some tx) now).queue ≤ mqCallsLeft cap q - 1 := by
  rcases hq.service_moves tx now with ⟨hidle, hwaits⟩ | ⟨k, hk, -, q', hserved⟩
  · have hempty : slotsWhere cap MqEntry.Occupied q.ring = ∅ := by
      refine Finset.eq_empty_of_forall_notMem ?_
      intro slot hmem
      obtain ⟨hslot, hoccupied⟩ := mem_slotsWhere.mp hmem
      exact hready slot hslot hoccupied (hwaits slot hslot hoccupied)
    rw [hidle, mqCallsLeft, hempty, Finset.sum_empty]
    exact Nat.zero_le _
  · have hless := hserved.callsLeft (slotAt_lt (by omega) k) hq
    omega

/-! ## A run of such calls -/

/-- Every stored message was last attempted an acknowledgement window before. -/
def Mq.RestedAt (cap : ℕ) (q : Mq) (now : ℤ) : Prop :=
  ∀ slot < cap, (q.ring slot).Occupied → (q.ring slot).lastAttempt + mqAckTimeoutSec ≤ now

theorem Mq.RestedAt.ready {now : ℤ} (hrested : q.RestedAt cap now) {slot : ℕ} (hslot : slot < cap)
    (hoccupied : (q.ring slot).Occupied) : ¬ (q.ring slot).Waits now := by
  have hlong := hrested slot hslot hoccupied
  rintro ⟨-, hwindow⟩
  simp only [mqAckTimeoutSec, mqRetryBackoffSec] at hlong hwindow
  split at hwindow <;> omega

theorem Mq.RestedAt.confirm {now : ℤ} (hrested : q.RestedAt cap now) (friendnum receipt : ℤ) :
    (mqConfirm cap q friendnum receipt).queue.RestedAt cap now := by
  exact mqConfirm_entries (P := fun _ e => e.lastAttempt + mqAckTimeoutSec ≤ now) hrested
    friendnum receipt

theorem MqMoved.lastAttempt {tx : ℤ → Bytes → ℕ → ℤ} {now : ℤ} {e e' : MqEntry}
    {outcome : MqOutcome} {calls : List MqCall} (hmoved : MqMoved tx now e e' outcome calls)
    (hkept : outcome ≠ .dropped) : e'.lastAttempt = now := by
  cases hmoved with
  | attempt hpending htried => cases htried <;> rename_i hentry <;> rw [hentry]
  | retry hawaiting hbudget htried => cases htried <;> rename_i hentry <;> rw [hentry]
  | spent => exact absurd rfl hkept

theorem Mq.RestedAt.service (hq : MqInv cap q) {now next : ℤ} (hrested : q.RestedAt cap now)
    (hnext : now + mqAckTimeoutSec ≤ next) (tx : ℤ → Bytes → ℕ → ℤ) :
    (mqService cap q (some tx) now).queue.RestedAt cap next := by
  have hlater : q.RestedAt cap next := by
    intro slot hslot hoccupied
    have hlong := hrested slot hslot hoccupied
    simp only [mqAckTimeoutSec] at hlong hnext ⊢
    omega
  rcases hq.service_moves tx now with ⟨hidle, -⟩ | ⟨k, hk, -, q', hserved⟩
  · rw [hidle]
    exact hlater
  · obtain ⟨calls, hmoved, -⟩ := hserved.moved
    apply hserved.entries (P := fun _ e => e.lastAttempt + mqAckTimeoutSec ≤ next) hlater
    intro hkept
    rw [hmoved.lastAttempt hkept]
    exact hnext

theorem MqSound.drain_callsLeft {s : MqRun} (hs : MqSound cap s.queue) (calls : List DrainCall)
    (hfirst : ∀ time ∈ (calls.filterMap DrainCall.time).head?, s.queue.RestedAt cap time)
    (hspaced : (calls.filterMap DrainCall.time).IsChain fun a b => a + mqAckTimeoutSec ≤ b) :
    mqCallsLeft cap (s.after cap (calls.map DrainCall.op)).queue ≤
      mqCallsLeft cap s.queue - (calls.filterMap DrainCall.time).length := by
  induction calls generalizing s with
  | nil => exact le_rfl
  | cons call calls ih =>
      cases call with
      | confirm friendnum receipt =>
          have hrest := ih (s := s.confirm cap friendnum receipt)
            (hs.confirm friendnum receipt)
            (fun time htime => (hfirst time htime).confirm friendnum receipt) hspaced
          have hless := mqConfirm_callsLeft cap s.queue friendnum receipt
          exact hrest.trans (Nat.sub_le_sub_right hless _)
      | service tx now =>
          obtain ⟨hnext, htail⟩ := List.isChain_cons.mp hspaced
          have hrested := hfirst now rfl
          have hrest := ih (s := s.service cap (some tx) now) (hs.service (some tx) now)
            (fun time htime => Mq.RestedAt.service hs.toMqInv hrested (hnext time htime) tx) htail
          have hless := hs.service_callsLeft tx fun slot hslot => hrested.ready hslot
          have hlength : ((DrainCall.service tx now :: calls).filterMap DrainCall.time).length =
              (calls.filterMap DrainCall.time).length + 1 := rfl
          rw [hlength]
          have hstep : mqCallsLeft cap (s.service cap (some tx) now).queue ≤
              mqCallsLeft cap s.queue - 1 := hless
          change mqCallsLeft cap ((s.service cap (some tx) now).after cap
            (calls.map DrainCall.op)).queue ≤ _
          omega

end

/-- Nine calls for each stored message, an acknowledgement window apart, empty the
queue. -/
theorem msgQueue_drains {cap : ℕ} (hcap : 0 < cap) (dropFn changeFn : Bool) (ops : List MqOp)
    (calls : List DrainCall) :
    let s := (mqStart dropFn changeFn).after cap ops
    let times := calls.filterMap DrainCall.time
    times.length = s.queue.count * (mqMaxAttempts + 1) →
      (∀ first ∈ times.head?, ∀ slot < cap, (s.queue.ring slot).Occupied →
        (s.queue.ring slot).lastAttempt + mqAckTimeoutSec ≤ first) →
      times.IsChain (fun a b => a + mqAckTimeoutSec ≤ b) →
      (s.after cap (calls.map DrainCall.op)).queue.count = 0 := by
  intro s times hlength hfirst hspaced
  have hs : MqSound cap s.queue := (mqStart_sound hcap dropFn changeFn).after ops
  have hleft := hs.drain_callsLeft calls hfirst hspaced
  have htotal := mqCallsLeft_le hs.toMqCounted
  refine (hs.after (calls.map DrainCall.op)).count_eq_zero ?_
  change _ ≤ _ - times.length at hleft
  omega

/-- Two messages, of which the first is acknowledged and the second never. -/
theorem msgQueue_drains_two :
    let tx : ℤ → Bytes → ℕ → ℤ := fun friendnum _ _ => friendnum
    let s := (mqStart true true).after 2 [.enqueue 1 (some [65]) 0, .enqueue 2 (some [66]) 0]
    let calls := [.service tx 25, .confirm 1 1] ++
      (List.range 17).map fun i => DrainCall.service tx (25 * (i + 2))
    (s.after 2 (calls.map DrainCall.op)).queue.count = 0 :=
  msgQueue_drains (by decide) true true _ _ (by decide) (by decide) (by decide)

end ToxRelayer
