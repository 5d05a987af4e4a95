import ToxRelayer.MsgQueue
import ToxRelayer.RingIndex

/-!
# The ring invariant

`mq_check_invariants` as a predicate, what every entry point does to the slots,
and that every entry point keeps the invariant.
-/

namespace ToxRelayer

open CString RingIndex

/-! ## Slots in a given state -/

def slotsWhere (cap : ℕ) (p : MqEntry → Prop) [DecidablePred p] (ring : ℕ → MqEntry) :
    Finset ℕ :=
  (Finset.range cap).filter fun slot => p (ring slot)

section

variable {cap slot : ℕ} {p : MqEntry → Prop} [DecidablePred p] {ring : ℕ → MqEntry}
  {e : MqEntry}

theorem mem_slotsWhere : slot ∈ slotsWhere cap p ring ↔ slot < cap ∧ p (ring slot) := by
  rw [slotsWhere, Finset.mem_filter, Finset.mem_range]

theorem slotsWhere_update_of_pos (hslot : slot < cap) (he : p e) :
    slotsWhere cap p (Function.update ring slot e) = insert slot (slotsWhere cap p ring) := by
  ext other
  by_cases hother : other = slot
  · subst hother
    simp [mem_slotsWhere, hslot, he]
  · simp [mem_slotsWhere, hother]

theorem slotsWhere_update_of_neg (he : ¬ p e) :
    slotsWhere cap p (Function.update ring slot e) = (slotsWhere cap p ring).erase slot := by
  ext other
  by_cases hother : other = slot
  · subst hother
    simp [mem_slotsWhere, he]
  · simp [mem_slotsWhere, hother]

end

def MqEntry.Occupied (e : MqEntry) : Prop := e.state ≠ .free

def MqEntry.Awaiting (e : MqEntry) : Prop := e.state = .awaitingAck

instance : DecidablePred MqEntry.Occupied := fun e =>
  inferInstanceAs (Decidable (e.state ≠ .free))

instance : DecidablePred MqEntry.Awaiting := fun e =>
  inferInstanceAs (Decidable (e.state = .awaitingAck))

theorem MqEntry.Awaiting.occupied {e : MqEntry} (hawaiting : e.Awaiting) : e.Occupied := by
  intro hfree
  exact absurd (hawaiting.symm.trans hfree) (by decide)

/-- What `mq_check_invariants` asserts, and that a message in flight has been
attempted. -/
structure MqCounted (cap : ℕ) (q : Mq) : Prop where
  head_lt : q.head < cap
  tail_lt : q.tail < cap
  count_eq : q.count = (slotsWhere cap MqEntry.Occupied q.ring).card
  inFlight_eq : q.inFlight = (slotsWhere cap MqEntry.Awaiting q.ring).card
  attempted : ∀ slot < cap, (q.ring slot).Awaiting → (q.ring slot).attempted = true

/-- Between two calls the head is also at an occupied slot, if there is one. -/
structure MqInv (cap : ℕ) (q : Mq) : Prop extends MqCounted cap q where
  head_occupied : q.count ≠ 0 → (q.ring q.head).Occupied

section

variable {cap : ℕ} {q : Mq}

theorem MqCounted.count_le (hq : MqCounted cap q) : q.count ≤ cap := by
  rw [hq.count_eq]
  calc (slotsWhere cap MqEntry.Occupied q.ring).card
      ≤ (Finset.range cap).card := Finset.card_filter_le _ _
    _ = cap := Finset.card_range cap

theorem MqCounted.count_eq_cap_iff (hq : MqCounted cap q) :
    q.count = cap ↔ ∀ slot < cap, (q.ring slot).Occupied := by
  have hcard := Finset.card_filter_eq_iff (s := Finset.range cap)
    (p := fun slot => (q.ring slot).Occupied)
  rw [Finset.card_range] at hcard
  rw [hq.count_eq, slotsWhere, hcard]
  simp only [Finset.mem_range]

theorem MqCounted.exists_occupied (hq : MqCounted cap q) (hcount : q.count ≠ 0) :
    ∃ slot < cap, (q.ring slot).Occupied := by
  rw [hq.count_eq, Finset.card_ne_zero] at hcount
  obtain ⟨slot, hslot⟩ := hcount
  exact ⟨slot, mem_slotsWhere.mp hslot⟩

theorem MqCounted.count_ne_zero (hq : MqCounted cap q) {slot : ℕ} (hslot : slot < cap)
    (hoccupied : (q.ring slot).Occupied) : q.count ≠ 0 := by
  rw [hq.count_eq]
  exact Finset.card_ne_zero_of_mem (mem_slotsWhere.mpr ⟨hslot, hoccupied⟩)

theorem mqInit_inv (hcap : 0 < cap) (dropFn changeFn : Bool) :
    MqInv cap (mqSetChangeHook (mqSetDropHook mqInit dropFn) changeFn) where
  head_lt := hcap
  tail_lt := hcap
  count_eq := by simp [slotsWhere, mqInit, mqSetChangeHook, mqSetDropHook, MqEntry.Occupied]
  inFlight_eq := by simp [slotsWhere, mqInit, mqSetChangeHook, mqSetDropHook, MqEntry.Awaiting]
  attempted := by simp [mqInit, mqSetChangeHook, mqSetDropHook, MqEntry.Awaiting]
  head_occupied := by simp [mqInit, mqSetChangeHook, mqSetDropHook]

/-! ## Walking the ring -/

/-- The head walks over free slots and stops at the first occupied one. -/
theorem mqAdvanceLoop_spec (ring : ℕ → MqEntry) (rounds head : ℕ) (hhead : head < cap) :
    ∃ k ≤ rounds, mqAdvanceLoop cap ring rounds head = slotAt cap head k ∧
      (∀ j < k, ¬ (ring (slotAt cap head j)).Occupied) ∧
      (k < rounds → (ring (slotAt cap head k)).Occupied) := by
  induction rounds generalizing head with
  | zero => exact ⟨0, le_rfl, (slotAt_zero hhead).symm, by simp, by simp⟩
  | succ rounds ih =>
      rw [mqAdvanceLoop]
      split
      · rename_i hfree
        obtain ⟨k, hk, hresult, hskipped, hstop⟩ :=
          ih (slotAt cap head 1) (slotAt_lt (by omega) 1)
        refine ⟨1 + k, by omega, ?_, ?_, ?_⟩
        · rw [← slotAt_slotAt, ← hresult]
          rfl
        · intro j hj
          cases j with
          | zero =>
              rw [slotAt_zero hhead]
              exact fun hoccupied => hoccupied hfree
          | succ j =>
              rw [Nat.add_comm j 1, ← slotAt_slotAt]
              exact hskipped j (by omega)
        · intro hlt
          rw [← slotAt_slotAt]
          exact hstop (by omega)
      · rename_i hoccupied
        refine ⟨0, by omega, (slotAt_zero hhead).symm, by simp, ?_⟩
        intro _
        rwa [slotAt_zero hhead]

theorem MqCounted.advanceHead_spec (hq : MqCounted cap q) (hcount : q.count ≠ 0) :
    ∃ k < cap, mqAdvanceHead cap q = { q with head := slotAt cap q.head k } ∧
      (∀ j < k, ¬ (q.ring (slotAt cap q.head j)).Occupied) ∧
      (q.ring (slotAt cap q.head k)).Occupied := by
  obtain ⟨k, hk, hresult, hskipped, hstop⟩ := mqAdvanceLoop_spec q.ring cap q.head hq.head_lt
  obtain ⟨slot, hslot, hoccupied⟩ := hq.exists_occupied hcount
  obtain ⟨position, hposition, rfl⟩ := exists_slotAt hq.head_lt hslot
  have hlt : k < cap := by
    by_contra hge
    exact hskipped position (by omega) hoccupied
  exact ⟨k, hlt, by rw [mqAdvanceHead, if_neg hcount, hresult], hskipped, hstop hlt⟩

theorem MqCounted.advanceHead (hq : MqCounted cap q) : MqInv cap (mqAdvanceHead cap q) := by
  by_cases hcount : q.count = 0
  · rw [mqAdvanceHead, if_pos hcount]
    exact ⟨⟨hq.tail_lt, hq.tail_lt, hq.count_eq, hq.inFlight_eq, hq.attempted⟩,
      fun hne => absurd hcount hne⟩
  · obtain ⟨k, hk, hresult, -, hoccupied⟩ := hq.advanceHead_spec hcount
    rw [hresult]
    exact ⟨⟨slotAt_lt (by omega) k, hq.tail_lt, hq.count_eq, hq.inFlight_eq, hq.attempted⟩,
      fun _ => hoccupied⟩

@[simp] theorem mqAdvanceHead_ring : (mqAdvanceHead cap q).ring = q.ring := by
  unfold mqAdvanceHead
  split <;> rfl

@[simp] theorem mqAdvanceHead_stats : (mqAdvanceHead cap q).stats = q.stats := by
  unfold mqAdvanceHead
  split <;> rfl

@[simp] theorem mqAdvanceHead_count : (mqAdvanceHead cap q).count = q.count := by
  unfold mqAdvanceHead
  split <;> rfl

@[simp] theorem mqAdvanceHead_tail : (mqAdvanceHead cap q).tail = q.tail := by
  unfold mqAdvanceHead
  split <;> rfl

@[simp] theorem mqAdvanceHead_dropFn : (mqAdvanceHead cap q).dropFn = q.dropFn := by
  unfold mqAdvanceHead
  split <;> rfl

/-- The tail walks over occupied slots and stops at the first free one. -/
theorem mqFindFreeLoop_spec (ring : ℕ → MqEntry) (rounds tail : ℕ) (htail : tail < cap) :
    (∃ k < rounds, mqFindFreeLoop cap ring rounds tail =
        (some (slotAt cap tail k), slotAt cap tail k) ∧
      (∀ j < k, (ring (slotAt cap tail j)).Occupied) ∧
      ¬ (ring (slotAt cap tail k)).Occupied) ∨
    mqFindFreeLoop cap ring rounds tail = (none, slotAt cap tail rounds) ∧
      ∀ j < rounds, (ring (slotAt cap tail j)).Occupied := by
  induction rounds generalizing tail with
  | zero =>
      refine .inr ⟨?_, by simp⟩
      rw [slotAt_zero htail]
      rfl
  | succ rounds ih =>
      rw [mqFindFreeLoop]
      split
      · rename_i hfree
        refine .inl ⟨0, by omega, by rw [slotAt_zero htail], by simp, ?_⟩
        rw [slotAt_zero htail]
        exact fun hoccupied => hoccupied hfree
      · rename_i hoccupied
        have hpassed : ∀ k, (∀ j < k, (ring (slotAt cap (slotAt cap tail 1) j)).Occupied) →
            ∀ j < 1 + k, (ring (slotAt cap tail j)).Occupied := by
          intro k hpassed j hj
          cases j with
          | zero => rwa [slotAt_zero htail]
          | succ j =>
              rw [Nat.add_comm j 1, ← slotAt_slotAt]
              exact hpassed j (by omega)
        rcases ih (slotAt cap tail 1) (slotAt_lt (by omega) 1) with
          ⟨k, hk, hresult, hskipped, hfree⟩ | ⟨hresult, hfull⟩
        · refine .inl ⟨1 + k, by omega, ?_, hpassed k hskipped, ?_⟩
          · rw [← slotAt_slotAt, ← hresult]
            rfl
          · rwa [← slotAt_slotAt]
        · refine .inr ⟨?_, ?_⟩
          · rw [Nat.add_comm rounds 1, ← slotAt_slotAt, ← hresult]
            rfl
          · rw [Nat.add_comm rounds 1]
            exact hpassed rounds hfull

/-! ## Enqueueing -/

/-- The queue after a message has been put into a slot. -/
def Mq.place (cap : ℕ) (q : Mq) (slot : ℕ) (e : MqEntry) : Mq :=
  { q with
    ring := Function.update q.ring slot e
    count := q.count + 1
    stats := { q.stats with totalEnqueued := q.stats.totalEnqueued + 1 }
    head := if q.count + 1 = 1 then slot else q.head
    tail := (slot + 1) % cap }

/-- An enqueue is rejected, for its arguments or because every slot is taken, or
puts the message into the first free slot from the tail on. -/
theorem mqEnqueue_cases (hq : MqCounted cap q) (friendnum : ℤ) (payload : Option Bytes)
    (now : ℤ) :
    (mqEnqueue cap q friendnum payload now).code ≠ mqOk ∧
        (∃ rejections, (mqEnqueue cap q friendnum payload now).queue =
          { q with stats := { q.stats with totalFullRejections := rejections } }) ∧
        (∀ bytes, payload = some bytes → 0 ≤ friendnum → 0 < bytes.length →
          bytes.length < mqPayloadMax → ∀ slot < cap, (q.ring slot).Occupied) ∨
      ∃ k < cap, ∃ bytes, payload = some bytes ∧ 0 ≤ friendnum ∧ 0 < bytes.length ∧
        bytes.length < mqPayloadMax ∧
        (∀ j < k, (q.ring (slotAt cap q.tail j)).Occupied) ∧
        ¬ (q.ring (slotAt cap q.tail k)).Occupied ∧
        (mqFindFreeSlot cap q).1 = some (slotAt cap q.tail k) ∧
        mqEnqueue cap q friendnum payload now =
          ⟨mqOk, q.place cap (slotAt cap q.tail k) (mqNewEntry friendnum bytes now),
            mqNotifyChange q⟩ := by
  have hrange : mqErrRange ≠ mqOk := by decide
  have hrejected : mqErrFull ≠ mqOk := by decide
  cases payload with
  | none => exact .inl ⟨hrange, ⟨_, rfl⟩, by simp⟩
  | some bytes =>
      by_cases hargs : friendnum < 0 ∨ bytes.length = 0 ∨ mqPayloadMax ≤ bytes.length
      · rw [mqEnqueue, if_pos hargs]
        refine .inl ⟨hrange, ⟨_, rfl⟩, ?_⟩
        rintro _ ⟨⟩ hfriendnum hlength hmax
        omega
      · rw [mqEnqueue, if_neg hargs]
        simp only [not_or, not_lt, not_le] at hargs
        rcases mqFindFreeLoop_spec q.ring cap q.tail hq.tail_lt with
          ⟨k, hk, hfound, hskipped, hfree⟩ | ⟨hnone, hfull⟩
        · have hslot : mqFindFreeSlot cap q =
              (some (slotAt cap q.tail k), { q with tail := slotAt cap q.tail k }) := by
            rw [mqFindFreeSlot, hfound]
          rw [hslot]
          exact .inr ⟨k, hk, bytes, rfl, hargs.1, by omega, hargs.2.2, hskipped, hfree, rfl, rfl⟩
        · have hsame : mqFindFreeSlot cap q = (none, q) := by
            rw [mqFindFreeSlot, hnone, slotAt_cap hq.tail_lt]
          rw [hsame]
          refine .inl ⟨hrejected, ⟨_, rfl⟩, ?_⟩
          intro _ _ _ _ _ slot hslot
          obtain ⟨position, hposition, rfl⟩ := exists_slotAt hq.tail_lt hslot
          exact hfull position hposition

theorem MqInv.withStats (hq : MqInv cap q) (stats : MqStats) :
    MqInv cap { q with stats := stats } :=
  ⟨⟨hq.head_lt, hq.tail_lt, hq.count_eq, hq.inFlight_eq, hq.attempted⟩, hq.head_occupied⟩

theorem MqInv.place (hq : MqInv cap q) {slot : ℕ} {e : MqEntry} (hslot : slot < cap)
    (hfree : ¬ (q.ring slot).Occupied) (he : e.state = .pending) :
    MqInv cap (q.place cap slot e) where
  head_lt := by
    simp only [Mq.place]
    split
    · exact hslot
    · exact hq.head_lt
  tail_lt := Nat.mod_lt _ (by omega)
  count_eq := by
    have hoccupied : e.Occupied := by simp [MqEntry.Occupied, he]
    have hnotMem : slot ∉ slotsWhere cap MqEntry.Occupied q.ring :=
      fun hmem => hfree (mem_slotsWhere.mp hmem).2
    simp only [Mq.place]
    rw [slotsWhere_update_of_pos hslot hoccupied, Finset.card_insert_of_notMem hnotMem,
      ← hq.count_eq]
  inFlight_eq := by
    have hpending : ¬ e.Awaiting := by simp [MqEntry.Awaiting, he]
    have hnotMem : slot ∉ slotsWhere cap MqEntry.Awaiting q.ring :=
      fun hmem => hfree (mem_slotsWhere.mp hmem).2.occupied
    simp only [Mq.place]
    rw [slotsWhere_update_of_neg hpending, Finset.erase_eq_of_notMem hnotMem, ← hq.inFlight_eq]
  attempted := by
    intro other hother hawaiting
    simp only [Mq.place] at hawaiting ⊢
    by_cases hsame : other = slot
    · subst hsame
      rw [Function.update_self] at hawaiting
      exact absurd (he.symm.trans hawaiting) (by decide)
    · rw [Function.update_of_ne hsame] at hawaiting ⊢
      exact hq.attempted other hother hawaiting
  head_occupied := by
    intro _
    simp only [Mq.place]
    split
    · rw [Function.update_self]
      simp [MqEntry.Occupied, he]
    · rename_i hcount
      by_cases hsame : q.head = slot
      · rw [hsame, Function.update_self]
        simp [MqEntry.Occupied, he]
      · rw [Function.update_of_ne hsame]
        exact hq.head_occupied (by omega)

/-! ## Releasing a slot -/

theorem MqCounted.releaseSlot (hq : MqCounted cap q) {slot : ℕ} (hslot : slot < cap)
    (hoccupied : (q.ring slot).Occupied) (stats : MqStats) :
    MqCounted cap { mqReleaseSlot q slot with stats := stats } where
  head_lt := hq.head_lt
  tail_lt := hq.tail_lt
  count_eq := by
    simp only [mqReleaseSlot]
    rw [slotsWhere_update_of_neg (by simp [MqEntry.Occupied]),
      Finset.card_erase_of_mem (mem_slotsWhere.mpr ⟨hslot, hoccupied⟩), ← hq.count_eq]
  inFlight_eq := by
    simp only [mqReleaseSlot]
    rw [slotsWhere_update_of_neg (by simp [MqEntry.Awaiting])]
    split
    · rename_i hawaiting
      rw [Finset.card_erase_of_mem (mem_slotsWhere.mpr ⟨hslot, hawaiting⟩), ← hq.inFlight_eq]
    · rename_i hpending
      rw [Finset.erase_eq_of_notMem fun hmem => hpending (mem_slotsWhere.mp hmem).2,
        ← hq.inFlight_eq]
  attempted := by
    intro other hother hawaiting
    simp only [mqReleaseSlot] at hawaiting ⊢
    by_cases hsame : other = slot
    · subst hsame
      simp [MqEntry.Awaiting] at hawaiting
    · rw [Function.update_of_ne hsame] at hawaiting ⊢
      exact hq.attempted other hother hawaiting

/-- The entry `mq_confirm` looks for. -/
def MqEntry.InFlightTo (e : MqEntry) (friendnum receipt : ℤ) : Prop :=
  e.Awaiting ∧ e.friendnum = friendnum ∧ e.receipt = receipt

instance (e : MqEntry) (friendnum receipt : ℤ) : Decidable (e.InFlightTo friendnum receipt) :=
  inferInstanceAs (Decidable (e.Awaiting ∧ e.friendnum = friendnum ∧ e.receipt = receipt))

theorem mqFindInFlight_eq_some {friendnum receipt : ℤ} {slot : ℕ} :
    mqFindInFlight cap q friendnum receipt = some slot ↔
      slot < cap ∧ (q.ring slot).InFlightTo friendnum receipt ∧
        ∀ other < slot, ¬ (q.ring other).InFlightTo friendnum receipt := by
  rw [mqFindInFlight, List.find?_range_eq_some, List.mem_range, decide_eq_true_eq, and_left_comm]
  simp only [Bool.not_eq_true', decide_eq_false_iff_not]
  rfl

/-- The queue after a confirmation. -/
def Mq.confirmed (cap : ℕ) (q : Mq) (slot : ℕ) : Mq :=
  mqAdvanceHead cap { mqReleaseSlot q slot with
    stats := { q.stats with totalConfirmed := q.stats.totalConfirmed + 1 } }

@[simp] theorem Mq.confirmed_ring (cap : ℕ) (q : Mq) (slot : ℕ) :
    (q.confirmed cap slot).ring = (mqReleaseSlot q slot).ring := by
  rw [Mq.confirmed, mqAdvanceHead_ring]

theorem mqConfirm_cases (cap : ℕ) (q : Mq) (friendnum receipt : ℤ) :
    (mqConfirm cap q friendnum receipt).code ≠ mqOk ∧
        (mqConfirm cap q friendnum receipt).queue = q ∨
      ∃ slot < cap, (q.ring slot).Awaiting ∧
        mqFindInFlight cap q friendnum receipt = some slot ∧
        mqConfirm cap q friendnum receipt = ⟨mqOk, q.confirmed cap slot, mqNotifyChange q⟩ := by
  unfold mqConfirm
  split
  · exact .inl ⟨by simp [mqErrRange, mqOk], rfl⟩
  · cases hfound : mqFindInFlight cap q friendnum receipt with
    | none => exact .inl ⟨by simp [mqErrNotFound, mqOk], rfl⟩
    | some slot =>
        obtain ⟨hslot, hinFlight, -⟩ := mqFindInFlight_eq_some.mp hfound
        exact .inr ⟨slot, hslot, hinFlight.1, rfl, rfl⟩

theorem MqInv.confirmed (hq : MqInv cap q) {slot : ℕ} (hslot : slot < cap)
    (hawaiting : (q.ring slot).Awaiting) : MqInv cap (q.confirmed cap slot) :=
  (hq.releaseSlot hslot hawaiting.occupied _).advanceHead

/-! ## Servicing -/

/-- A step that leaves every message where it is: `q'` differs from `q` in how
far the delivery of the message in `slot` has got. -/
structure MqTouched (cap : ℕ) (slot : ℕ) (q q' : Mq) : Prop where
  counted : MqCounted cap q'
  head_eq : q'.head = q.head
  tail_eq : q'.tail = q.tail
  count_eq : q'.count = q.count
  dropFn_eq : q'.dropFn = q.dropFn
  enqueued_eq : q'.stats.totalEnqueued = q.stats.totalEnqueued
  confirmed_eq : q'.stats.totalConfirmed = q.stats.totalConfirmed
  dropped_eq : q'.stats.totalDropped = q.stats.totalDropped
  others : ∀ other, other ≠ slot → q'.ring other = q.ring other
  occupied : (q'.ring slot).Occupied
  friendnum_eq : (q'.ring slot).friendnum = (q.ring slot).friendnum
  payload_eq : (q'.ring slot).payload = (q.ring slot).payload
  len_eq : (q'.ring slot).len = (q.ring slot).len

theorem MqTouched.trans {slot : ℕ} {q₁ q₂ q₃ : Mq} (hfirst : MqTouched cap slot q₁ q₂)
    (hsecond : MqTouched cap slot q₂ q₃) : MqTouched cap slot q₁ q₃ where
  counted := hsecond.counted
  head_eq := hsecond.head_eq.trans hfirst.head_eq
  tail_eq := hsecond.tail_eq.trans hfirst.tail_eq
  count_eq := hsecond.count_eq.trans hfirst.count_eq
  dropFn_eq := hsecond.dropFn_eq.trans hfirst.dropFn_eq
  enqueued_eq := hsecond.enqueued_eq.trans hfirst.enqueued_eq
  confirmed_eq := hsecond.confirmed_eq.trans hfirst.confirmed_eq
  dropped_eq := hsecond.dropped_eq.trans hfirst.dropped_eq
  others := fun other hother =>
    (hsecond.others other hother).trans (hfirst.others other hother)
  occupied := hsecond.occupied
  friendnum_eq := hsecond.friendnum_eq.trans hfirst.friendnum_eq
  payload_eq := hsecond.payload_eq.trans hfirst.payload_eq
  len_eq := hsecond.len_eq.trans hfirst.len_eq

theorem MqCounted.touched (hq : MqCounted cap q) {slot : ℕ} (hslot : slot < cap)
    (hoccupied : (q.ring slot).Occupied) (e : MqEntry) (he : e.Occupied)
    (hattempted : e.Awaiting → e.attempted = true)
    (hfriendnum : e.friendnum = (q.ring slot).friendnum)
    (hpayload : e.payload = (q.ring slot).payload) (hlen : e.len = (q.ring slot).len)
    (inFlight totalSent : ℕ)
    (hinFlight : inFlight =
      (slotsWhere cap MqEntry.Awaiting (Function.update q.ring slot e)).card) :
    MqTouched cap slot q
      { q.setEntry slot e with
        inFlight := inFlight, stats := { q.stats with totalSent := totalSent } } where
  counted :=
    { head_lt := hq.head_lt
      tail_lt := hq.tail_lt
      count_eq := by
        have hmem : slot ∈ slotsWhere cap MqEntry.Occupied q.ring :=
          mem_slotsWhere.mpr ⟨hslot, hoccupied⟩
        simp only [Mq.setEntry]
        rw [slotsWhere_update_of_pos hslot he, Finset.insert_eq_of_mem hmem, ← hq.count_eq]
      inFlight_eq := hinFlight
      attempted := by
        intro other hother hawaiting
        simp only [Mq.setEntry] at hawaiting ⊢
        by_cases hsame : other = slot
        · subst hsame
          rw [Function.update_self] at hawaiting ⊢
          exact hattempted hawaiting
        · rw [Function.update_of_ne hsame] at hawaiting ⊢
          exact hq.attempted other hother hawaiting }
  head_eq := rfl
  tail_eq := rfl
  count_eq := rfl
  dropFn_eq := rfl
  enqueued_eq := rfl
  confirmed_eq := rfl
  dropped_eq := rfl
  others := fun other hother => Function.update_of_ne hother _ _
  occupied := by
    simp only [Mq.setEntry, Function.update_self]
    exact he
  friendnum_eq := by
    simp only [Mq.setEntry, Function.update_self]
    exact hfriendnum
  payload_eq := by
    simp only [Mq.setEntry, Function.update_self]
    exact hpayload
  len_eq := by
    simp only [Mq.setEntry, Function.update_self]
    exact hlen

theorem MqCounted.expire (hq : MqCounted cap q) {slot : ℕ} (hslot : slot < cap)
    (hawaiting : (q.ring slot).Awaiting) :
    MqTouched cap slot q (mqExpire q slot) := by
  refine hq.touched hslot hawaiting.occupied
    { q.ring slot with
      receipt := -1, state := .pending, attempts := (q.ring slot).attempts + 1 }
    (by simp [MqEntry.Occupied]) (by simp [MqEntry.Awaiting]) rfl rfl rfl (q.inFlight - 1)
    q.stats.totalSent ?_
  rw [slotsWhere_update_of_neg (by simp [MqEntry.Awaiting]),
    Finset.card_erase_of_mem (mem_slotsWhere.mpr ⟨hslot, hawaiting⟩), ← hq.inFlight_eq]

/-- `mq_service` passes over a message whose acknowledgement window or backoff has
not passed. -/
def MqEntry.Waits (now : ℤ) (e : MqEntry) : Prop :=
  e.attempted = true ∧
    now - e.lastAttempt < if e.Awaiting then mqAckTimeoutSec else mqRetryBackoffSec

instance (now : ℤ) : DecidablePred (MqEntry.Waits now) := fun e =>
  inferInstanceAs (Decidable (e.attempted = true ∧
    now - e.lastAttempt < if e.Awaiting then mqAckTimeoutSec else mqRetryBackoffSec))

/-- The message once its acknowledgement window has passed. -/
def MqEntry.expired (e : MqEntry) : MqEntry :=
  { e with receipt := -1, state := .pending, attempts := e.attempts + 1 }

/-- What an attempt makes of a pending message. -/
inductive MqTried (tx : ℤ → Bytes → ℕ → ℤ) (now : ℤ) (e e' : MqEntry) : MqOutcome → Prop
  | sent (hrc : 0 ≤ tx e.friendnum e.payload e.len)
      (he : e' = { e with
        lastAttempt := now, attempted := true, receipt := tx e.friendnum e.payload e.len,
        state := .awaitingAck }) :
      MqTried tx now e e' .sent
  | deferred (hrc : tx e.friendnum e.payload e.len < 0)
      (hretryable : tx e.friendnum e.payload e.len ≠ mqSendFatal)
      (hbudget : e.attempts + 1 < mqMaxAttempts)
      (he : e' = { e with lastAttempt := now, attempted := true, attempts := e.attempts + 1 }) :
      MqTried tx now e e' .deferred
  | dropped (hrc : tx e.friendnum e.payload e.len < 0)
      (hlast : tx e.friendnum e.payload e.len = mqSendFatal ∨ mqMaxAttempts ≤ e.attempts + 1)
      (he : e' = { e with lastAttempt := now, attempted := true, attempts := e.attempts + 1 }) :
      MqTried tx now e e' .dropped

/-- What a service call makes of the message it acts on, and the calls of the
transport in it. -/
inductive MqMoved (tx : ℤ → Bytes → ℕ → ℤ) (now : ℤ) (e e' : MqEntry) :
    MqOutcome → List MqCall → Prop
  | attempt {outcome : MqOutcome} (hpending : e.state = .pending)
      (htried : MqTried tx now e e' outcome) :
      MqMoved tx now e e' outcome [.transport e.friendnum e.payload e.len]
  | retry {outcome : MqOutcome} (hawaiting : e.Awaiting)
      (hbudget : e.attempts + 1 < mqMaxAttempts) (htried : MqTried tx now e.expired e' outcome) :
      MqMoved tx now e e' outcome [.transport e.friendnum e.payload e.len]
  | spent (hawaiting : e.Awaiting) (hbudget : mqMaxAttempts ≤ e.attempts + 1)
      (he : e' = e.expired) :
      MqMoved tx now e e' .dropped []

/-- How a service call ends that acted on `slot`: `q'` is the queue with the
outcome of the attempt recorded, from which a dropped message is still to be
removed. -/
structure MqActed (cap : ℕ) (slot : ℕ) (q q' : Mq) (serviced : MqServiced) : Prop where
  touched : MqTouched cap slot q q'
  occupied : (q.ring slot).Occupied
  slot_eq : serviced.slot = some slot
  kept : serviced.outcome ≠ .dropped →
    serviced.queue = q' ∧ (q'.ring slot).attempted = true ∧
      serviced.calls =
        [.transport (q.ring slot).friendnum (q.ring slot).payload (q.ring slot).len]
  dropped : serviced.outcome = .dropped →
    serviced.queue = mqAdvanceHead cap (mqRetire q' slot).1 ∧
      (serviced.calls = (mqRetire q' slot).2 ∧ (q.ring slot).attempted = true ∨
        serviced.calls =
          .transport (q.ring slot).friendnum (q.ring slot).payload (q.ring slot).len ::
            (mqRetire q' slot).2)

/-- As `MqActed`, with what became of the message. -/
structure MqServed (cap : ℕ) (tx : ℤ → Bytes → ℕ → ℤ) (now : ℤ) (slot : ℕ) (q q' : Mq)
    (serviced : MqServiced) : Prop extends MqActed cap slot q q' serviced where
  ready : ¬ (q.ring slot).Waits now
  moved : ∃ calls, MqMoved tx now (q.ring slot) (q'.ring slot) serviced.outcome calls ∧
    serviced.calls =
      calls ++ if serviced.outcome = .dropped then (mqRetire q' slot).2 else []

theorem notMem_awaiting_of_pending {slot : ℕ} (hpending : (q.ring slot).state = .pending) :
    slot ∉ slotsWhere cap MqEntry.Awaiting q.ring := fun hmem =>
  absurd (hpending.symm.trans (mem_slotsWhere.mp hmem).2) (by decide)

theorem MqCounted.sent (hq : MqCounted cap q) {slot : ℕ} (hslot : slot < cap)
    (hpending : (q.ring slot).state = .pending) (receipt now : ℤ) :
    MqTouched cap slot q
      { q.setEntry slot { q.ring slot with
          lastAttempt := now, attempted := true, receipt := receipt, state := .awaitingAck } with
        inFlight := q.inFlight + 1
        stats := { q.stats with totalSent := q.stats.totalSent + 1 } } := by
  refine hq.touched hslot (by simp [MqEntry.Occupied, hpending])
    { q.ring slot with
      lastAttempt := now, attempted := true, receipt := receipt, state := .awaitingAck }
    (by simp [MqEntry.Occupied]) (fun _ => rfl) rfl rfl rfl _ _ ?_
  rw [slotsWhere_update_of_pos hslot (by simp [MqEntry.Awaiting]),
    Finset.card_insert_of_notMem (notMem_awaiting_of_pending hpending), ← hq.inFlight_eq]

theorem MqCounted.failed (hq : MqCounted cap q) {slot : ℕ} (hslot : slot < cap)
    (hpending : (q.ring slot).state = .pending) (now : ℤ) :
    MqTouched cap slot q
      (q.setEntry slot { q.ring slot with
        lastAttempt := now, attempted := true, attempts := (q.ring slot).attempts + 1 }) := by
  refine hq.touched hslot (by simp [MqEntry.Occupied, hpending])
    { q.ring slot with
      lastAttempt := now, attempted := true, attempts := (q.ring slot).attempts + 1 }
    (by simp [MqEntry.Occupied, hpending]) (fun _ => rfl) rfl rfl rfl q.inFlight
    q.stats.totalSent ?_
  rw [slotsWhere_update_of_neg (by simp [MqEntry.Awaiting, hpending]),
    Finset.erase_eq_of_notMem (notMem_awaiting_of_pending hpending), ← hq.inFlight_eq]

theorem MqCounted.attempt (hq : MqCounted cap q) {slot : ℕ} (hslot : slot < cap)
    (hpending : (q.ring slot).state = .pending) (tx : ℤ → Bytes → ℕ → ℤ) (now : ℤ) :
    ∃ q', MqActed cap slot q q' (mqAttempt cap tx now q slot) ∧
      MqTried tx now (q.ring slot) (q'.ring slot) (mqAttempt cap tx now q slot).outcome ∧
      (mqAttempt cap tx now q slot).calls =
        .transport (q.ring slot).friendnum (q.ring slot).payload (q.ring slot).len ::
          if (mqAttempt cap tx now q slot).outcome = .dropped then (mqRetire q' slot).2
          else [] := by
  have hoccupied : (q.ring slot).Occupied := by simp [MqEntry.Occupied, hpending]
  unfold mqAttempt
  dsimp only
  split
  · rename_i hrc
    refine ⟨_, ⟨hq.sent hslot hpending _ now, hoccupied, rfl, fun _ => ⟨rfl, ?_, rfl⟩,
      fun hdropped => by simp at hdropped⟩, .sent hrc (by simp [Mq.setEntry]), rfl⟩
    simp [Mq.setEntry]
  · rename_i hrc
    have htouched := hq.failed hslot hpending now
    split
    · rename_i hlast
      exact ⟨_, ⟨htouched, hoccupied, rfl, fun hkept => absurd rfl hkept,
        fun _ => ⟨rfl, .inr rfl⟩⟩, .dropped (by omega) hlast (by simp [Mq.setEntry]), rfl⟩
    · rename_i hlast
      rw [not_or, not_le] at hlast
      refine ⟨_, ⟨htouched, hoccupied, rfl, fun _ => ⟨rfl, ?_, rfl⟩,
        fun hdropped => by simp at hdropped⟩,
        .deferred (by omega) hlast.1 hlast.2 (by simp [Mq.setEntry]), rfl⟩
      simp [Mq.setEntry]

/-- One round of the scan skips a slot without changing the queue, or acts. -/
theorem MqCounted.inspect_cases (hq : MqCounted cap q) {slot : ℕ} (hslot : slot < cap)
    (tx : ℤ → Bytes → ℕ → ℤ) (now : ℤ) :
    mqInspect cap tx now q slot = .skip q ∧
        ((q.ring slot).Occupied → (q.ring slot).Waits now) ∨
      ∃ q' serviced, mqInspect cap tx now q slot = .acted serviced ∧
        MqServed cap tx now slot q q' serviced := by
  unfold mqInspect
  dsimp only
  cases hstate : (q.ring slot).state with
  | free => exact .inl ⟨rfl, fun hoccupied => absurd hstate hoccupied⟩
  | pending =>
      dsimp only
      have hpending : ¬ (q.ring slot).Awaiting := by simp [MqEntry.Awaiting, hstate]
      unfold mqTryPending
      dsimp only
      split
      · rename_i hbackoff
        refine .inl ⟨rfl, fun _ => ⟨hbackoff.1, ?_⟩⟩
        rw [if_neg hpending]
        exact hbackoff.2
      · rename_i hready
        obtain ⟨q', hacted, htried, hcalls⟩ := hq.attempt hslot hstate tx now
        refine .inr ⟨q', _, rfl, hacted, ?_, _, .attempt hstate htried, hcalls⟩
        intro hwaits
        rw [MqEntry.Waits, if_neg hpending] at hwaits
        exact hready hwaits
  | awaitingAck =>
      dsimp only
      have hawaiting : (q.ring slot).Awaiting := hstate
      have hattempted := hq.attempted slot hslot hawaiting
      split
      · rename_i hwindow
        refine .inl ⟨rfl, fun _ => ⟨hattempted, ?_⟩⟩
        rw [if_pos hawaiting]
        exact hwindow
      · rename_i hexpired
        have hready : ¬ (q.ring slot).Waits now := by
          intro hwaits
          rw [MqEntry.Waits, if_pos hawaiting] at hwaits
          exact hexpired hwaits.2
        have hexpire := hq.expire hslot hstate
        have hentry : (mqExpire q slot).ring slot = (q.ring slot).expired := by
          simp [mqExpire, Mq.setEntry, MqEntry.expired]
        split
        · rename_i hbudget
          exact .inr ⟨_, _, rfl, ⟨hexpire, by simp [MqEntry.Occupied, hstate], rfl,
            fun hkept => absurd rfl hkept, fun _ => ⟨rfl, .inl ⟨rfl, hattempted⟩⟩⟩, hready, _,
            .spent hstate hbudget hentry, rfl⟩
        · rename_i hbudget
          have hpending : ((mqExpire q slot).ring slot).state = .pending := by rw [hentry]; rfl
          unfold mqTryPending
          dsimp only
          -- a message just out of its acknowledgement window is past the backoff
          have hbackoff : ¬ (((mqExpire q slot).ring slot).attempted = true ∧
              now - ((mqExpire q slot).ring slot).lastAttempt < mqRetryBackoffSec) := by
            rintro ⟨-, hlate⟩
            simp only [hentry, MqEntry.expired, mqRetryBackoffSec] at hlate
            simp only [mqAckTimeoutSec] at hexpired
            omega
          rw [if_neg hbackoff]
          obtain ⟨q', hacted, htried, hcalls⟩ := hexpire.counted.attempt hslot hpending tx now
          rw [hentry] at htried
          refine .inr ⟨q', _, rfl, ⟨hexpire.trans hacted.touched,
            by simp [MqEntry.Occupied, hstate], hacted.slot_eq, ?_, ?_⟩, hready, _,
            .retry hstate (by omega) htried, ?_⟩
          · rw [← hexpire.friendnum_eq, ← hexpire.payload_eq, ← hexpire.len_eq]
            exact hacted.kept
          · rw [← hexpire.friendnum_eq, ← hexpire.payload_eq, ← hexpire.len_eq]
            intro hdropped
            obtain ⟨hqueue, hcalls⟩ := hacted.dropped hdropped
            refine ⟨hqueue, ?_⟩
            rcases hcalls with ⟨hcalls, -⟩ | hcalls
            · exact .inl ⟨hcalls, hattempted⟩
            · exact .inr hcalls
          · rw [hcalls, hexpire.friendnum_eq, hexpire.payload_eq, hexpire.len_eq]
            rfl

theorem MqCounted.serviceLoop_cases (hq : MqCounted cap q) (tx : ℤ → Bytes → ℕ → ℤ) (now : ℤ)
    (rounds start : ℕ) (hstart : start < cap) :
    mqServiceLoop cap tx now rounds start q = ⟨.idle, q, none, []⟩ ∧
        (∀ j < rounds, (q.ring (slotAt cap start j)).Occupied →
          (q.ring (slotAt cap start j)).Waits now) ∨
      ∃ k < rounds, (∀ j < k, (q.ring (slotAt cap start j)).Occupied →
          (q.ring (slotAt cap start j)).Waits now) ∧
        ∃ q', MqServed cap tx now (slotAt cap start k) q q'
          (mqServiceLoop cap tx now rounds start q) := by
  induction rounds generalizing start with
  | zero => exact .inl ⟨rfl, by simp⟩
  | succ rounds ih =>
      rw [mqServiceLoop]
      rcases hq.inspect_cases hstart tx now with ⟨hskip, hwaits⟩ | ⟨q', serviced, hact, hserved⟩
      · have hpassed : ∀ k, (∀ j < k, (q.ring (slotAt cap (slotAt cap start 1) j)).Occupied →
              (q.ring (slotAt cap (slotAt cap start 1) j)).Waits now) →
            ∀ j < 1 + k, (q.ring (slotAt cap start j)).Occupied →
              (q.ring (slotAt cap start j)).Waits now := by
          intro k hpassed j hj
          cases j with
          | zero => rwa [slotAt_zero hstart]
          | succ j =>
              rw [Nat.add_comm j 1, ← slotAt_slotAt]
              exact hpassed j (by omega)
        rw [hskip]
        rcases ih (slotAt cap start 1) (slotAt_lt (by omega) 1) with
          ⟨hidle, hskipped⟩ | ⟨k, hk, hskipped, q', hserved⟩
        · refine .inl ⟨hidle, ?_⟩
          rw [Nat.add_comm rounds 1]
          exact hpassed rounds hskipped
        · refine .inr ⟨1 + k, by omega, hpassed k hskipped, q', ?_⟩
          rw [← slotAt_slotAt]
          exact hserved
      · rw [hact]
        refine .inr ⟨0, by omega, by simp, q', ?_⟩
        rwa [slotAt_zero hstart]

/-- Between two calls the head is where `mq_advance_head` would put it. -/
theorem MqInv.advanceHead_eq (hq : MqInv cap q) (hcount : q.count ≠ 0) :
    mqAdvanceHead cap q = q := by
  obtain ⟨k, hk, hadvance, hskipped, -⟩ := hq.advanceHead_spec hcount
  cases k with
  | zero =>
      rw [slotAt_zero hq.head_lt] at hadvance
      exact hadvance
  | succ k =>
      refine absurd (hq.head_occupied hcount) ?_
      have hfirst := hskipped 0 (by omega)
      rwa [slotAt_zero hq.head_lt] at hfirst

/-- A service call acts on the first message from the head on that does not
wait, if there is one. -/
theorem MqInv.service_moves (hq : MqInv cap q) (tx : ℤ → Bytes → ℕ → ℤ) (now : ℤ) :
    mqService cap q (some tx) now = ⟨.idle, q, none, []⟩ ∧
        (∀ slot < cap, (q.ring slot).Occupied → (q.ring slot).Waits now) ∨
      ∃ k < cap, (∀ j < k, (q.ring (slotAt cap q.head j)).Occupied →
          (q.ring (slotAt cap q.head j)).Waits now) ∧
        ∃ q', MqServed cap tx now (slotAt cap q.head k) q q' (mqService cap q (some tx) now) := by
  unfold mqService
  dsimp only
  split
  · rename_i hcount
    exact .inl ⟨rfl, fun slot hslot hoccupied =>
      absurd hcount (hq.count_ne_zero hslot hoccupied)⟩
  · rename_i hcount
    rw [hq.advanceHead_eq hcount]
    rcases hq.serviceLoop_cases tx now cap q.head hq.head_lt with ⟨hidle, hwaits⟩ | hserved
    · refine .inl ⟨hidle, ?_⟩
      intro slot hslot hoccupied
      obtain ⟨position, hposition, rfl⟩ := exists_slotAt hq.head_lt hslot
      exact hwaits position hposition hoccupied
    · exact .inr hserved

/-- A service call does nothing, or advances the head and acts on the first
slot from there that is not to be skipped. -/
theorem MqInv.service_cases (hq : MqInv cap q) (tx : Option (ℤ → Bytes → ℕ → ℤ)) (now : ℤ) :
    mqService cap q tx now = ⟨.idle, q, none, []⟩ ∨
      ∃ k < cap, (∀ j < k, (q.ring (slotAt cap q.head j)).Occupied →
          (q.ring (slotAt cap q.head j)).attempted = true) ∧
        ∃ q', MqActed cap (slotAt cap q.head k) q q' (mqService cap q tx now) := by
  cases tx with
  | none => exact .inl rfl
  | some tx =>
      rcases hq.service_moves tx now with ⟨hidle, -⟩ | ⟨k, hk, hskipped, q', hserved⟩
      · exact .inl hidle
      · exact .inr ⟨k, hk, fun j hj hoccupied => (hskipped j hj hoccupied).1, q',
          hserved.toMqActed⟩

theorem MqActed.inv {slot : ℕ} {q' : Mq} {serviced : MqServiced} (hslot : slot < cap)
    (hacted : MqActed cap slot q q' serviced) (hq : MqInv cap q) : MqInv cap serviced.queue := by
  by_cases hdropped : serviced.outcome = .dropped
  · rw [(hacted.dropped hdropped).1]
    exact (hacted.touched.counted.releaseSlot hslot hacted.touched.occupied _).advanceHead
  · rw [(hacted.kept hdropped).1]
    refine ⟨hacted.touched.counted, ?_⟩
    rw [hacted.touched.head_eq, hacted.touched.count_eq]
    intro hcount
    by_cases hsame : q.head = slot
    · rw [hsame]
      exact hacted.touched.occupied
    · rw [hacted.touched.others _ hsame]
      exact hq.head_occupied hcount

theorem MqInv.confirm (hq : MqInv cap q) (friendnum receipt : ℤ) :
    MqInv cap (mqConfirm cap q friendnum receipt).queue := by
  rcases mqConfirm_cases cap q friendnum receipt with
    ⟨-, hqueue⟩ | ⟨slot, hslot, hawaiting, -, hresult⟩
  · rw [hqueue]
    exact hq
  · rw [hresult]
    exact hq.confirmed hslot hawaiting

theorem MqInv.service (hq : MqInv cap q) (tx : Option (ℤ → Bytes → ℕ → ℤ)) (now : ℤ) :
    MqInv cap (mqService cap q tx now).queue := by
  rcases hq.service_cases tx now with hidle | ⟨k, hk, -, q', hacted⟩
  · rw [hidle]
    exact hq
  · exact hacted.inv (slotAt_lt (by omega) k) hq

/-! ## What holds of every stored message -/

/-- A slot that is occupied after a release was so before, with the same entry. -/
theorem occupied_releaseSlot {q : Mq} {slot other : ℕ}
    (hoccupied : ((mqReleaseSlot q slot).ring other).Occupied) :
    (mqReleaseSlot q slot).ring other = q.ring other := by
  simp only [mqReleaseSlot] at hoccupied ⊢
  by_cases hsame : other = slot
  · subst hsame
    simp [MqEntry.Occupied] at hoccupied
  · rw [Function.update_of_ne hsame]

theorem MqActed.ring_of_ne {slot other : ℕ} {q' : Mq} {serviced : MqServiced}
    (hacted : MqActed cap slot q q' serviced) (hne : other ≠ slot) :
    serviced.queue.ring other = q.ring other := by
  by_cases hdropped : serviced.outcome = .dropped
  · rw [(hacted.dropped hdropped).1, mqAdvanceHead_ring]
    simp only [mqRetire, mqReleaseSlot]
    rw [Function.update_of_ne hne, hacted.touched.others other hne]
  · rw [(hacted.kept hdropped).1, hacted.touched.others other hne]

/-- The message acted on is stored afterwards only if it is kept. -/
theorem MqActed.ring_self {slot : ℕ} {q' : Mq} {serviced : MqServiced}
    (hacted : MqActed cap slot q q' serviced)
    (hoccupied : (serviced.queue.ring slot).Occupied) :
    serviced.outcome ≠ .dropped ∧ serviced.queue.ring slot = q'.ring slot := by
  by_cases hdropped : serviced.outcome = .dropped
  · rw [(hacted.dropped hdropped).1, mqAdvanceHead_ring] at hoccupied
    simp [mqRetire, mqReleaseSlot, MqEntry.Occupied] at hoccupied
  · rw [(hacted.kept hdropped).1]
    exact ⟨hdropped, rfl⟩

/-- What holds of every stored message, and of the one acted on unless it is
dropped, holds of every stored message afterwards. -/
theorem MqActed.entries {slot : ℕ} {q' : Mq} {serviced : MqServiced} {P : ℕ → MqEntry → Prop}
    (hacted : MqActed cap slot q q' serviced)
    (hq : ∀ other < cap, (q.ring other).Occupied → P other (q.ring other))
    (hself : serviced.outcome ≠ .dropped → P slot (q'.ring slot)) :
    ∀ other < cap, (serviced.queue.ring other).Occupied → P other (serviced.queue.ring other) := by
  intro other hother hoccupied
  by_cases hsame : other = slot
  · subst hsame
    obtain ⟨hkept, hring⟩ := hacted.ring_self hoccupied
    rw [hring]
    exact hself hkept
  · rw [hacted.ring_of_ne hsame] at hoccupied ⊢
    exact hq other hother hoccupied

theorem mqConfirm_entries {P : ℕ → MqEntry → Prop}
    (hq : ∀ slot < cap, (q.ring slot).Occupied → P slot (q.ring slot)) (friendnum receipt : ℤ) :
    ∀ slot < cap, ((mqConfirm cap q friendnum receipt).queue.ring slot).Occupied →
      P slot ((mqConfirm cap q friendnum receipt).queue.ring slot) := by
  rcases mqConfirm_cases cap q friendnum receipt with
    ⟨-, hqueue⟩ | ⟨released, hreleased, hawaiting, -, hresult⟩
  · rw [hqueue]
    exact hq
  · rw [hresult]
    intro slot hslot hoccupied
    rw [Mq.confirmed_ring] at hoccupied ⊢
    have hkept := occupied_releaseSlot hoccupied
    rw [hkept] at hoccupied ⊢
    exact hq slot hslot hoccupied

end

end ToxRelayer
