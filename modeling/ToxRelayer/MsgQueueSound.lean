import ToxRelayer.MsgQueueLedger

/-!
# No assertion of the queue can fail

The assertions `msg_queue.c` evaluates, each at the state in which it does, and
the invariant under which all of them hold.
-/

namespace ToxRelayer

open CString RingIndex

/-! ## What the code asserts -/

/-- `mq_check_invariants` -/
def mqCheckInvariants (cap : ℕ) (q : Mq) : Prop :=
  q.head < cap ∧ q.tail < cap ∧ q.count ≤ cap ∧
    (List.range cap).countP (fun slot => (q.ring slot).state ≠ .free) = q.count ∧
    (List.range cap).countP (fun slot => (q.ring slot).state = .awaitingAck) = q.inFlight

/-- The condition of the loop in `mq_advance_head` -/
def mqAdvanceGuard (q : Mq) (head : ℕ) : Prop :=
  0 < q.count ∧ (q.ring head).state = .free

/-- The loop in `mq_advance_head` ends within one turn of the ring. -/
def mqAdvanceEnds (cap : ℕ) (q : Mq) : Prop :=
  ∃ steps ≤ cap, ¬ mqAdvanceGuard q ((q.head + steps) % cap)

def mqReleaseAsserts (q : Mq) (slot : ℕ) : Prop :=
  (q.ring slot).state ≠ .free ∧ ((q.ring slot).state = .awaitingAck → 0 < q.inFlight) ∧
    0 < q.count

def mqEnqueueAsserts (cap : ℕ) (q : Mq) (friendnum : ℤ) (payload : Option Bytes) (now : ℤ) :
    Prop :=
  (mqEnqueue cap q friendnum payload now).code = mqOk →
    mqCheckInvariants cap (mqEnqueue cap q friendnum payload now).queue

def mqConfirmAsserts (cap : ℕ) (q : Mq) (friendnum receipt : ℤ) : Prop :=
  if friendnum < 0 ∨ receipt < 0 then True
  else
    match mqFindInFlight cap q friendnum receipt with
    | none => True
    | some slot =>
        mqReleaseAsserts q slot ∧ mqAdvanceEnds cap (mqReleaseSlot q slot) ∧
          mqCheckInvariants cap (mqConfirm cap q friendnum receipt).queue

def mqDropAsserts (cap : ℕ) (q : Mq) (slot : ℕ) : Prop :=
  mqReleaseAsserts q slot ∧ mqAdvanceEnds cap (mqRetire q slot).1 ∧
    mqCheckInvariants cap (mqDrop cap q slot []).queue

def mqAttemptAsserts (cap : ℕ) (tx : ℤ → Bytes → ℕ → ℤ) (now : ℤ) (q : Mq) (slot : ℕ) : Prop :=
  let e := q.ring slot
  let rc := tx e.friendnum e.payload e.len
  if 0 ≤ rc then mqCheckInvariants cap (mqAttempt cap tx now q slot).queue
  else
    let q := q.setEntry slot
      { e with lastAttempt := now, attempted := true, attempts := e.attempts + 1 }
    if rc = mqSendFatal ∨ mqMaxAttempts ≤ e.attempts + 1 then mqDropAsserts cap q slot
    else mqCheckInvariants cap q

def mqTryPendingAsserts (cap : ℕ) (tx : ℤ → Bytes → ℕ → ℤ) (now : ℤ) (q : Mq) (slot : ℕ) :
    Prop :=
  let e := q.ring slot
  if e.attempted ∧ now - e.lastAttempt < mqRetryBackoffSec then True
  else mqAttemptAsserts cap tx now q slot

def mqInspectAsserts (cap : ℕ) (tx : ℤ → Bytes → ℕ → ℤ) (now : ℤ) (q : Mq) (slot : ℕ) : Prop :=
  let e := q.ring slot
  match e.state with
  | .free => True
  | .awaitingAck =>
      if now - e.lastAttempt < mqAckTimeoutSec then True
      else
        0 < q.inFlight ∧
          if mqMaxAttempts ≤ e.attempts + 1 then mqDropAsserts cap (mqExpire q slot) slot
          else mqTryPendingAsserts cap tx now (mqExpire q slot) slot
  | .pending => mqTryPendingAsserts cap tx now q slot

def mqServiceLoopAsserts (cap : ℕ) (tx : ℤ → Bytes → ℕ → ℤ) (now : ℤ) : ℕ → ℕ → Mq → Prop
  | 0, _, _ => True
  | rounds + 1, slot, q =>
      mqInspectAsserts cap tx now q slot ∧
        match mqInspect cap tx now q slot with
        | .skip q => mqServiceLoopAsserts cap tx now rounds ((slot + 1) % cap) q
        | .acted _ => True

def mqServiceAsserts (cap : ℕ) (q : Mq) (tx : Option (ℤ → Bytes → ℕ → ℤ)) (now : ℤ) : Prop :=
  match tx with
  | none => True
  | some tx =>
      if q.count = 0 then True
      else
        mqAdvanceEnds cap q ∧
          mqServiceLoopAsserts cap tx now cap (mqAdvanceHead cap q).head (mqAdvanceHead cap q)

/-- Every assertion one call evaluates holds. -/
def MqRun.AssertsHold (cap : ℕ) (s : MqRun) : MqOp → Prop
  | .enqueue friendnum payload now => mqEnqueueAsserts cap s.queue friendnum payload now
  | .confirm friendnum receipt => mqConfirmAsserts cap s.queue friendnum receipt
  | .service tx now => mqServiceAsserts cap s.queue tx now
  | .foreach => True
  | .statsGet => True

/-! ## The assertions and the ring invariant -/

section

variable {cap : ℕ} {q : Mq}

theorem slotsWhere_card (p : MqEntry → Prop) [DecidablePred p] (ring : ℕ → MqEntry) :
    (slotsWhere cap p ring).card = (List.range cap).countP fun slot => p (ring slot) := by
  rw [slotsWhere, Finset.card_def, Finset.filter_val, Finset.range_val, Multiset.range,
    Multiset.filter_coe, Multiset.coe_card, List.countP_eq_length_filter]

theorem MqCounted.checkInvariants (hq : MqCounted cap q) : mqCheckInvariants cap q :=
  ⟨hq.head_lt, hq.tail_lt, hq.count_le, by rw [hq.count_eq, slotsWhere_card]; rfl,
    by rw [hq.inFlight_eq, slotsWhere_card]; rfl⟩

theorem MqCounted.advanceEnds (hq : MqCounted cap q) : mqAdvanceEnds cap q := by
  by_cases hcount : q.count = 0
  · refine ⟨0, Nat.zero_le cap, ?_⟩
    rintro ⟨hpos, -⟩
    omega
  · obtain ⟨k, hk, -, -, hoccupied⟩ := hq.advanceHead_spec hcount
    refine ⟨k, hk.le, ?_⟩
    rintro ⟨-, hfree⟩
    exact hoccupied hfree

theorem MqCounted.inFlight_pos (hq : MqCounted cap q) {slot : ℕ} (hslot : slot < cap)
    (hawaiting : (q.ring slot).Awaiting) : 0 < q.inFlight := by
  rw [hq.inFlight_eq]
  exact Finset.card_pos.mpr ⟨slot, mem_slotsWhere.mpr ⟨hslot, hawaiting⟩⟩

theorem MqCounted.releaseAsserts (hq : MqCounted cap q) {slot : ℕ} (hslot : slot < cap)
    (hoccupied : (q.ring slot).Occupied) : mqReleaseAsserts q slot :=
  ⟨hoccupied, hq.inFlight_pos hslot, Nat.pos_of_ne_zero (hq.count_ne_zero hslot hoccupied)⟩

theorem MqCounted.dropAsserts (hq : MqCounted cap q) {slot : ℕ} (hslot : slot < cap)
    (hoccupied : (q.ring slot).Occupied) : mqDropAsserts cap q slot := by
  have hreleased := hq.releaseSlot hslot hoccupied
    { q.stats with totalDropped := q.stats.totalDropped + 1 }
  exact ⟨hq.releaseAsserts hslot hoccupied, hreleased.advanceEnds,
    hreleased.advanceHead.checkInvariants⟩

theorem MqCounted.attemptAsserts (hq : MqCounted cap q) {slot : ℕ} (hslot : slot < cap)
    (hpending : (q.ring slot).state = .pending) (tx : ℤ → Bytes → ℕ → ℤ) (now : ℤ) :
    mqAttemptAsserts cap tx now q slot := by
  have hfailed := hq.failed hslot hpending now
  unfold mqAttemptAsserts mqAttempt
  dsimp only
  split
  · exact (hq.sent hslot hpending _ now).counted.checkInvariants
  · split
    · exact hfailed.counted.dropAsserts hslot hfailed.occupied
    · exact hfailed.counted.checkInvariants

theorem MqCounted.tryPendingAsserts (hq : MqCounted cap q) {slot : ℕ} (hslot : slot < cap)
    (hpending : (q.ring slot).state = .pending) (tx : ℤ → Bytes → ℕ → ℤ) (now : ℤ) :
    mqTryPendingAsserts cap tx now q slot := by
  unfold mqTryPendingAsserts
  dsimp only
  split
  · trivial
  · exact hq.attemptAsserts hslot hpending tx now

theorem MqCounted.inspectAsserts (hq : MqCounted cap q) {slot : ℕ} (hslot : slot < cap)
    (tx : ℤ → Bytes → ℕ → ℤ) (now : ℤ) : mqInspectAsserts cap tx now q slot := by
  unfold mqInspectAsserts
  dsimp only
  cases hstate : (q.ring slot).state with
  | free => trivial
  | pending => exact hq.tryPendingAsserts hslot hstate tx now
  | awaitingAck =>
      have hexpire := hq.expire hslot hstate
      have hpending : ((mqExpire q slot).ring slot).state = .pending := by
        simp [mqExpire, Mq.setEntry]
      dsimp only
      split
      · trivial
      · refine ⟨hq.inFlight_pos hslot hstate, ?_⟩
        split
        · exact hexpire.counted.dropAsserts hslot hexpire.occupied
        · exact hexpire.counted.tryPendingAsserts hslot hpending tx now

theorem MqCounted.serviceLoopAsserts (hq : MqCounted cap q) (tx : ℤ → Bytes → ℕ → ℤ) (now : ℤ)
    (rounds start : ℕ) (hstart : start < cap) :
    mqServiceLoopAsserts cap tx now rounds start q := by
  induction rounds generalizing start with
  | zero => trivial
  | succ rounds ih =>
      rw [mqServiceLoopAsserts]
      refine ⟨hq.inspectAsserts hstart tx now, ?_⟩
      rcases hq.inspect_cases hstart tx now with ⟨hskip, -⟩ | ⟨q', serviced, hact, -⟩
      · rw [hskip]
        exact ih _ (Nat.mod_lt _ (by omega))
      · rw [hact]
        trivial

/-- Whatever is called next, its assertions hold. -/
theorem MqInv.assertsHold {s : MqRun} (hq : MqInv cap s.queue) (op : MqOp) :
    s.AssertsHold cap op := by
  cases op with
  | enqueue friendnum payload now =>
      intro hcode
      rcases mqEnqueue_cases hq.toMqCounted friendnum payload now with
        ⟨hrejected, -⟩ | ⟨k, hk, bytes, -, -, -, -, -, hfree, -, hresult⟩
      · exact absurd hcode hrejected
      · rw [hresult]
        exact (hq.place (slotAt_lt (by omega) k) hfree rfl).checkInvariants
  | confirm friendnum receipt =>
      simp only [MqRun.AssertsHold, mqConfirmAsserts, mqConfirm]
      by_cases hargs : friendnum < 0 ∨ receipt < 0
      · rw [if_pos hargs]
        trivial
      · rw [if_neg hargs, if_neg hargs]
        cases hfound : mqFindInFlight cap s.queue friendnum receipt with
        | none => trivial
        | some slot =>
            obtain ⟨hslot, ⟨hawaiting, -⟩, -⟩ := mqFindInFlight_eq_some.mp hfound
            exact ⟨hq.releaseAsserts hslot hawaiting.occupied,
              (hq.releaseSlot hslot hawaiting.occupied _).advanceEnds,
              (hq.confirmed hslot hawaiting).checkInvariants⟩
  | service tx now =>
      simp only [MqRun.AssertsHold, mqServiceAsserts]
      cases tx with
      | none => trivial
      | some tx =>
          dsimp only
          split
          · trivial
          · rename_i hcount
            rw [hq.advanceHead_eq hcount]
            exact ⟨hq.advanceEnds, hq.serviceLoopAsserts tx now cap _ hq.head_lt⟩
  | foreach => trivial
  | statsGet => trivial

/-! ## What a stored message looks like -/

/-- What holds of every stored message between two calls. -/
structure MqEntry.Sound (e : MqEntry) : Prop where
  friendnum_nonneg : 0 ≤ e.friendnum
  len_pos : 0 < e.len
  len_lt : e.len < mqPayloadMax
  attempts_lt : e.attempts < mqMaxAttempts
  awaiting : e.Awaiting → e.attempted = true ∧ 0 ≤ e.receipt

structure MqSound (cap : ℕ) (q : Mq) : Prop extends MqInv cap q where
  entries : ∀ slot < cap, (q.ring slot).Occupied → (q.ring slot).Sound

theorem mqNewEntry_sound {friendnum : ℤ} {payload : Bytes} (hfriendnum : 0 ≤ friendnum)
    (hlength : 0 < payload.length) (hmax : payload.length < mqPayloadMax) (now : ℤ) :
    (mqNewEntry friendnum payload now).Sound where
  friendnum_nonneg := hfriendnum
  len_pos := hlength
  len_lt := hmax
  attempts_lt := by simp [mqNewEntry, mqMaxAttempts]
  awaiting := by simp [mqNewEntry, MqEntry.Awaiting]

section

variable {tx : ℤ → Bytes → ℕ → ℤ} {now : ℤ} {e e' : MqEntry} {outcome : MqOutcome}
  {calls : List MqCall}

/-- A message that is not dropped is pending within its budget or awaits an
acknowledgement. -/
theorem MqTried.sound (htried : MqTried tx now e e' outcome) (hkept : outcome ≠ .dropped)
    (hpending : e.state = .pending) (he : e.Sound) : e'.Sound := by
  cases htried with
  | sent hrc hentry =>
      subst hentry
      exact ⟨he.friendnum_nonneg, he.len_pos, he.len_lt, he.attempts_lt, fun _ => ⟨rfl, hrc⟩⟩
  | deferred hrc hretryable hbudget hentry =>
      subst hentry
      refine ⟨he.friendnum_nonneg, he.len_pos, he.len_lt, hbudget, ?_⟩
      intro hawaiting
      exact absurd (hpending.symm.trans hawaiting) (by decide)
  | dropped => exact absurd rfl hkept

theorem MqMoved.sound (hmoved : MqMoved tx now e e' outcome calls) (hkept : outcome ≠ .dropped)
    (he : e.Sound) : e'.Sound := by
  cases hmoved with
  | attempt hpending htried => exact htried.sound hkept hpending he
  | retry hawaiting hbudget htried =>
      refine htried.sound hkept rfl ⟨he.friendnum_nonneg, he.len_pos, he.len_lt, hbudget, ?_⟩
      intro hpending
      cases hpending
  | spent => exact absurd rfl hkept

end

/-! ## Every run -/

theorem mqStart_sound (hcap : 0 < cap) (dropFn changeFn : Bool) :
    MqSound cap (mqStart dropFn changeFn).queue where
  toMqInv := mqInit_inv hcap dropFn changeFn
  entries := by simp [mqStart, mqInit, mqSetChangeHook, mqSetDropHook, MqEntry.Occupied]

theorem MqSound.enqueue (hq : MqSound cap q) (friendnum : ℤ) (payload : Option Bytes)
    (now : ℤ) : MqSound cap (mqEnqueue cap q friendnum payload now).queue := by
  rcases mqEnqueue_cases hq.toMqCounted friendnum payload now with
    ⟨-, ⟨rejections, hqueue⟩, -⟩ | ⟨k, hk, bytes, -, hfriendnum, hlength, hmax, -, hfree, -, hresult⟩
  · rw [hqueue]
    exact ⟨hq.withStats _, hq.entries⟩
  · rw [hresult]
    refine ⟨hq.place (slotAt_lt (by omega) k) hfree rfl, ?_⟩
    intro other hother hoccupied
    simp only [Mq.place] at hoccupied ⊢
    by_cases hsame : other = slotAt cap q.tail k
    · rw [hsame, Function.update_self]
      exact mqNewEntry_sound hfriendnum hlength hmax now
    · rw [Function.update_of_ne hsame] at hoccupied ⊢
      exact hq.entries other hother hoccupied

theorem MqSound.confirm (hq : MqSound cap q) (friendnum receipt : ℤ) :
    MqSound cap (mqConfirm cap q friendnum receipt).queue := by
  constructor
  · exact hq.toMqInv.confirm friendnum receipt
  · exact mqConfirm_entries (P := fun _ e => e.Sound) hq.entries friendnum receipt

theorem MqSound.service (hq : MqSound cap q) (tx : Option (ℤ → Bytes → ℕ → ℤ)) (now : ℤ) :
    MqSound cap (mqService cap q tx now).queue := by
  cases tx with
  | none => exact hq
  | some tx =>
      rcases hq.service_moves tx now with ⟨hidle, -⟩ | ⟨k, hk, -, q', hserved⟩
      · rw [hidle]
        exact hq
      · have hslot : slotAt cap q.head k < cap := slotAt_lt (by omega) k
        have he := hq.entries _ hslot hserved.occupied
        obtain ⟨calls, hmoved, -⟩ := hserved.moved
        constructor
        · exact hserved.inv hslot hq.toMqInv
        · apply hserved.entries (P := fun _ e => e.Sound) hq.entries
          exact fun hkept => hmoved.sound hkept he

theorem MqSound.step {s : MqRun} (hq : MqSound cap s.queue) (op : MqOp) :
    MqSound cap (s.step cap op).queue := by
  cases op with
  | enqueue friendnum payload now => exact hq.enqueue friendnum payload now
  | confirm friendnum receipt => exact hq.confirm friendnum receipt
  | service tx now => exact hq.service tx now
  | foreach => exact hq
  | statsGet => exact hq

theorem MqSound.after {s : MqRun} (hq : MqSound cap s.queue) (ops : List MqOp) :
    MqSound cap (s.after cap ops).queue := by
  induction ops generalizing s with
  | nil => exact hq
  | cons op ops ih => exact ih (hq.step op)

end

/-- In every run the ring invariant holds, every stored message is sound, the
next call cannot fail an assertion, and the head is found within one turn. -/
theorem msgQueue_sound {cap : ℕ} (hcap : 0 < cap) (dropFn changeFn : Bool) (ops : List MqOp) :
    let s := (mqStart dropFn changeFn).after cap ops
    mqCheckInvariants cap s.queue ∧
      (s.queue.count ≠ 0 → (s.queue.ring s.queue.head).Occupied) ∧
      (∀ slot < cap, (s.queue.ring slot).Occupied → (s.queue.ring slot).Sound) ∧
      mqAdvanceEnds cap s.queue ∧
      ∀ op, s.AssertsHold cap op := by
  intro s
  have hs : MqSound cap s.queue := (mqStart_sound hcap dropFn changeFn).after ops
  exact ⟨hs.checkInvariants, hs.head_occupied, hs.entries, hs.advanceEnds, hs.assertsHold⟩

/-- One message, sent and not yet acknowledged. -/
theorem msgQueue_sound_one :
    let s := (mqStart true true).after 3
      [.enqueue 1 (some [65]) 0, .service (some fun _ _ _ => 7) 1]
    mqCheckInvariants 3 s.queue ∧
      (s.queue.count ≠ 0 → (s.queue.ring s.queue.head).Occupied) ∧
      (∀ slot < 3, (s.queue.ring slot).Occupied → (s.queue.ring slot).Sound) ∧
      mqAdvanceEnds 3 s.queue ∧
      ∀ op, s.AssertsHold 3 op :=
  msgQueue_sound (by decide) true true _

end ToxRelayer
