import ToxRelayer.MsgQueueLedger

/-!
# The order of the queue

`mq_foreach` promises first in, first out.  Confirmations leave holes, and when
the tail has come round to the head a new message goes into the first of them,
before older ones.  The order holds along a run exactly when no message is
enqueued like that.
-/

namespace ToxRelayer

open CString RingIndex

/-! ## What first in, first out asks -/

/-- `mq_foreach` visits the stored messages, oldest first. -/
structure MqRun.VisitsInOrder (cap : ℕ) (s : MqRun) : Prop where
  all : ((mqVisited cap s.queue).map s.ledger.owner : Multiset ℕ) = s.stored cap
  oldestFirst : ((mqVisited cap s.queue).map s.ledger.owner).Pairwise (· < ·)

/-- A message handed to the transport for the first time has no stored message
before it that is still waiting for its own first time. -/
def MqRun.HandsInOrder (cap : ℕ) (s : MqRun) : MqOp → Prop
  | .service tx now =>
      ∀ slot, (mqService cap s.queue tx now).slot = some slot →
        (mqService cap s.queue tx now).calls.any MqCall.isTransport = true →
        s.ledger.owner slot ∉ s.ledger.handed →
        ∀ other < cap, (s.queue.ring other).Occupied →
          s.ledger.owner other < s.ledger.owner slot →
          s.ledger.owner other ∈ s.ledger.handed
  | _ => True

/-- First in, first out in every state a sequence of calls goes through. -/
def MqRun.FirstInFirstOut (cap : ℕ) : MqRun → List MqOp → Prop
  | s, [] => s.VisitsInOrder cap
  | s, op :: ops => s.VisitsInOrder cap ∧ s.HandsInOrder cap op ∧
      FirstInFirstOut cap (s.step cap op) ops

/-- No free slot lies between the head and a stored message. -/
def Mq.HoleFree (cap : ℕ) (q : Mq) : Prop :=
  ∀ j < cap, ∀ i < j, (q.ring (slotAt cap q.head j)).Occupied →
    (q.ring (slotAt cap q.head i)).Occupied

/-- A message that is accepted finds the slot at the tail free, or no hole. -/
def MqRun.EnqueuesBehind (cap : ℕ) (s : MqRun) : MqOp → Prop
  | .enqueue friendnum (some payload) _ =>
      0 ≤ friendnum → 0 < payload.length → payload.length < mqPayloadMax →
        ¬ (s.queue.ring s.queue.tail).Occupied ∨ s.queue.HoleFree cap
  | _ => True

def MqRun.AlwaysEnqueuesBehind (cap : ℕ) : MqRun → List MqOp → Prop
  | _, [] => True
  | s, op :: ops => s.EnqueuesBehind cap op ∧ AlwaysEnqueuesBehind cap (s.step cap op) ops

/-! ## The order by position -/

/-- Ages grow with the distance from the head, and the tail is behind every
stored message. -/
structure MqFifo (cap : ℕ) (q : Mq) (owner : ℕ → ℕ) : Prop where
  ordered : ∀ i j, i < j → j < cap → (q.ring (slotAt cap q.head i)).Occupied →
    (q.ring (slotAt cap q.head j)).Occupied →
    owner (slotAt cap q.head i) < owner (slotAt cap q.head j)
  span : ∃ n ≤ cap, q.tail = slotAt cap q.head n ∧
    ∀ j < cap, (q.ring (slotAt cap q.head j)).Occupied → j < n

section

variable {cap : ℕ} {q : Mq} {owner : ℕ → ℕ}

theorem slotAt_walk {head : ℕ} (hhead : head < cap) :
    (((List.range cap).map (slotAt cap head) : List ℕ) : Multiset ℕ) =
      (Finset.range cap).val := by
  have hinj : Set.InjOn (slotAt cap head) (Finset.range cap) := by
    intro i hi j hj hslot
    rw [Finset.coe_range, Set.mem_Iio] at hi hj
    exact slotAt_inj hi hj hslot
  have himage : (Finset.range cap).image (slotAt cap head) = Finset.range cap := by
    ext slot
    rw [Finset.mem_image, Finset.mem_range]
    constructor
    · rintro ⟨position, -, rfl⟩
      exact slotAt_lt (by omega) position
    · intro hslot
      obtain ⟨position, hposition, hat⟩ := exists_slotAt hhead hslot
      exact ⟨position, Finset.mem_range.mpr hposition, hat⟩
  rw [← himage, Finset.image_val_of_injOn hinj]
  rfl

theorem MqCounted.visited_eq (hq : MqCounted cap q) :
    mqVisited cap q =
      ((List.range cap).map (slotAt cap q.head)).filter fun slot =>
        (q.ring slot).Occupied := by
  have hvisited : (((List.range cap).map (slotAt cap q.head)).filter
      fun slot => (q.ring slot).Occupied : Multiset ℕ) =
        (slotsWhere cap MqEntry.Occupied q.ring).val := by
    rw [← Multiset.filter_coe, slotAt_walk hq.head_lt]
    rfl
  have hlength := congrArg Multiset.card hvisited
  rw [Multiset.coe_card] at hlength
  refine List.take_of_length_le ?_
  rw [hq.count_eq]
  exact hlength.le

theorem MqCounted.visited_val (hq : MqCounted cap q) :
    (mqVisited cap q : Multiset ℕ) = (slotsWhere cap MqEntry.Occupied q.ring).val := by
  rw [hq.visited_eq, ← Multiset.filter_coe, slotAt_walk hq.head_lt]
  rfl

theorem MqCounted.mem_visited (hq : MqCounted cap q) {slot : ℕ} :
    slot ∈ mqVisited cap q ↔ slot < cap ∧ (q.ring slot).Occupied := by
  rw [← Multiset.mem_coe, hq.visited_val, Finset.mem_val, mem_slotsWhere]

theorem MqCounted.nodup_visited (hq : MqCounted cap q) : (mqVisited cap q).Nodup := by
  rw [← Multiset.coe_nodup, hq.visited_val]
  exact Finset.nodup _

/-- Moving the head over free slots leaves the order as it is. -/
theorem MqCounted.visited_advanceHead (hq : MqCounted cap q) :
    mqVisited cap (mqAdvanceHead cap q) = mqVisited cap q := by
  by_cases hcount : q.count = 0
  · rw [mqVisited, mqVisited, mqAdvanceHead_count, hcount, List.take_zero, List.take_zero]
  · obtain ⟨k, hk, hadvance, hskipped, -⟩ := hq.advanceHead_spec hcount
    have hfree : ((List.range k).map (slotAt cap q.head)).filter
        (fun slot => (q.ring slot).Occupied) = [] := by
      rw [List.filter_eq_nil_iff]
      intro slot hmem
      obtain ⟨j, hj, rfl⟩ := List.mem_map.mp hmem
      rw [decide_eq_true_eq]
      exact hskipped j (List.mem_range.mp hj)
    rw [hq.advanceHead.visited_eq, hq.visited_eq, hadvance]
    dsimp only
    rw [map_slotAt_rotate hk.le, map_slotAt_split hk.le, List.filter_append, List.filter_append,
      hfree, List.append_nil, List.nil_append]

theorem MqCounted.pairwise_visited_iff (hq : MqCounted cap q) (r : ℕ → ℕ → Prop) :
    (mqVisited cap q).Pairwise r ↔
      ∀ i j, i < j → j < cap → (q.ring (slotAt cap q.head i)).Occupied →
        (q.ring (slotAt cap q.head j)).Occupied →
        r (slotAt cap q.head i) (slotAt cap q.head j) := by
  rw [hq.visited_eq, List.pairwise_filter, List.pairwise_map, List.pairwise_iff_getElem]
  simp only [List.length_range, List.getElem_range, decide_eq_true_eq]
  constructor
  · intro hpairs i j hij hj hi hoccupied
    exact hpairs i j (by omega) hj hij hi hoccupied
  · intro hpositions i j hi hj hij hfirst hsecond
    exact hpositions i j hij hj hfirst hsecond

theorem MqRun.visitsInOrder_iff {s : MqRun} (hq : MqCounted cap s.queue) :
    s.VisitsInOrder cap ↔
      ∀ i j, i < j → j < cap → (s.queue.ring (slotAt cap s.queue.head i)).Occupied →
        (s.queue.ring (slotAt cap s.queue.head j)).Occupied →
        s.ledger.owner (slotAt cap s.queue.head i) <
          s.ledger.owner (slotAt cap s.queue.head j) := by
  have holdest := hq.pairwise_visited_iff fun i j => s.ledger.owner i < s.ledger.owner j
  rw [← holdest, ← List.pairwise_map]
  refine ⟨VisitsInOrder.oldestFirst, fun hordered => ⟨?_, hordered⟩⟩
  rw [← Multiset.map_coe, hq.visited_val]
  rfl

/-! ## Keeping the order -/

theorem mqStart_fifo (dropFn changeFn : Bool) :
    MqFifo cap (mqStart dropFn changeFn).queue (mqStart dropFn changeFn).ledger.owner where
  ordered := by simp [mqStart, mqInit, mqSetChangeHook, mqSetDropHook, MqEntry.Occupied]
  span := by
    refine ⟨0, Nat.zero_le cap, ?_, ?_⟩
    · simp [mqStart, mqInit, mqSetChangeHook, mqSetDropHook, slotAt]
    · simp [mqStart, mqInit, mqSetChangeHook, mqSetDropHook, MqEntry.Occupied]

theorem MqFifo.of_fewer (hfifo : MqFifo cap q owner) {q' : Mq} (hhead : q'.head = q.head)
    (htail : q'.tail = q.tail)
    (hfewer : ∀ slot, (q'.ring slot).Occupied → (q.ring slot).Occupied) :
    MqFifo cap q' owner where
  ordered := by
    rw [hhead]
    intro i j hij hj hi hoccupied
    exact hfifo.ordered i j hij hj (hfewer _ hi) (hfewer _ hoccupied)
  span := by
    obtain ⟨n, hn, htailAt, hwithin⟩ := hfifo.span
    rw [hhead, htail]
    exact ⟨n, hn, htailAt, fun j hj hoccupied => hwithin j hj (hfewer _ hoccupied)⟩

/-- Positions after the head has moved `k` free slots on. -/
theorem occupied_after_advance {head k j : ℕ} {ring : ℕ → MqEntry} (hj : j < cap)
    (hskipped : ∀ i < k, ¬ (ring (slotAt cap head i)).Occupied)
    (hoccupied : (ring (slotAt cap (slotAt cap head k) j)).Occupied) : k + j < cap := by
  by_contra hwrapped
  have hposition : k + j = (k + j - cap) + cap := by omega
  rw [slotAt_slotAt, hposition, slotAt_add_cap] at hoccupied
  exact hskipped _ (by omega) hoccupied

theorem MqFifo.advanceHead (hfifo : MqFifo cap q owner) (hq : MqCounted cap q) :
    MqFifo cap (mqAdvanceHead cap q) owner := by
  by_cases hcount : q.count = 0
  · have hnone : ∀ slot < cap, ¬ (q.ring slot).Occupied := fun slot hslot hoccupied =>
      hq.count_ne_zero hslot hoccupied hcount
    have hcap : 0 < cap := Nat.zero_lt_of_lt hq.tail_lt
    rw [mqAdvanceHead, if_pos hcount]
    refine ⟨?_, 0, Nat.zero_le cap, (slotAt_zero hq.tail_lt).symm, ?_⟩
    · intro i j _ _ hi
      exact absurd hi (hnone _ (slotAt_lt hcap i))
    · intro j _ hj
      exact absurd hj (hnone _ (slotAt_lt hcap j))
  · obtain ⟨k, hk, hadvance, hskipped, hstop⟩ := hq.advanceHead_spec hcount
    obtain ⟨n, hn, htail, hwithin⟩ := hfifo.span
    have hkn := hwithin k hk hstop
    rw [hadvance]
    refine ⟨?_, n - k, by omega, ?_, ?_⟩
    · intro i j hij hj hi hoccupied
      have hend := occupied_after_advance hj hskipped hoccupied
      dsimp only at hi hoccupied ⊢
      rw [slotAt_slotAt] at hi hoccupied
      rw [slotAt_slotAt, slotAt_slotAt]
      exact hfifo.ordered (k + i) (k + j) (by omega) hend hi hoccupied
    · dsimp only
      rw [slotAt_slotAt, htail]
      congr 1
      omega
    · intro j hj hoccupied
      have hend := occupied_after_advance hj hskipped hoccupied
      dsimp only at hoccupied
      rw [slotAt_slotAt] at hoccupied
      have hlt := hwithin (k + j) hend hoccupied
      omega

theorem MqFifo.released (hfifo : MqFifo cap q owner) {slot : ℕ} {stats : MqStats}
    (hq : MqCounted cap { mqReleaseSlot q slot with stats := stats }) :
    MqFifo cap (mqAdvanceHead cap { mqReleaseSlot q slot with stats := stats }) owner := by
  refine MqFifo.advanceHead ?_ hq
  refine hfifo.of_fewer rfl rfl ?_
  intro other hoccupied
  have hkept := occupied_releaseSlot hoccupied
  rwa [← hkept]

theorem MqFifo.touched (hfifo : MqFifo cap q owner) {slot : ℕ} {q' : Mq}
    (htouched : MqTouched cap slot q q') (hoccupied : (q.ring slot).Occupied) :
    MqFifo cap q' owner :=
  hfifo.of_fewer htouched.head_eq htouched.tail_eq fun other =>
    (htouched.occupied_iff hoccupied other).mp

theorem MqCounted.empty (hq : MqCounted cap q) (hcount : q.count = 0) {slot : ℕ}
    (hslot : slot < cap) : ¬ (q.ring slot).Occupied :=
  fun hoccupied => hq.count_ne_zero hslot hoccupied hcount

theorem MqCounted.place_empty (hq : MqCounted cap q) (hcount : q.count = 0) {slot : ℕ}
    (hslot : slot < cap) (e : MqEntry) :
    ∀ j < cap, ((q.place cap slot e).ring (slotAt cap slot j)).Occupied → j = 0 := by
  intro j hj hoccupied
  by_contra hne
  have hcap : 0 < cap := by omega
  have hother : slotAt cap slot j ≠ slot := by
    intro hsame
    rw [← slotAt_zero hslot, slotAt_slotAt, Nat.zero_add] at hsame
    exact hne (slotAt_inj hj hcap hsame)
  simp only [Mq.place] at hoccupied
  rw [Function.update_of_ne hother] at hoccupied
  exact hq.empty hcount (slotAt_lt hcap j) hoccupied

theorem MqFifo.place_empty (hq : MqCounted cap q) (hcount : q.count = 0) {slot : ℕ}
    (hslot : slot < cap) (e : MqEntry) (owner : ℕ → ℕ) :
    MqFifo cap (q.place cap slot e) owner := by
  have hcap : 0 < cap := by omega
  have honly := hq.place_empty hcount hslot e
  have hhead : (q.place cap slot e).head = slot := by simp [Mq.place, hcount]
  refine ⟨?_, 1, hcap, ?_, ?_⟩
  · rw [hhead]
    intro i j hij hj _ hoccupied
    have hzero := honly j hj hoccupied
    omega
  · rw [hhead]
    rfl
  · rw [hhead]
    intro j hj hoccupied
    have hzero := honly j hj hoccupied
    omega

/-- The entry at a position of the ring after a message has been put at
position `m`. -/
theorem place_occupied {m j : ℕ} {e : MqEntry} (hm : m < cap) (hj : j < cap)
    (hoccupied : ((q.place cap (slotAt cap q.head m) e).ring (slotAt cap q.head j)).Occupied) :
    j = m ∨ j ≠ m ∧ slotAt cap q.head j ≠ slotAt cap q.head m ∧
      (q.ring (slotAt cap q.head j)).Occupied := by
  by_cases hsame : slotAt cap q.head j = slotAt cap q.head m
  · exact .inl (slotAt_inj hj hm hsame)
  · simp only [Mq.place] at hoccupied
    rw [Function.update_of_ne hsame] at hoccupied
    refine .inr ⟨?_, hsame, hoccupied⟩
    rintro rfl
    exact hsame rfl

theorem MqFifo.place_behind (hfifo : MqFifo cap q owner) (hcount : q.count ≠ 0) {m number : ℕ}
    (hm : m < cap) (hbehind : ∀ j < cap, (q.ring (slotAt cap q.head j)).Occupied → j < m)
    (hnewest : ∀ slot < cap, (q.ring slot).Occupied → owner slot < number) (e : MqEntry) :
    MqFifo cap (q.place cap (slotAt cap q.head m) e)
      (Function.update owner (slotAt cap q.head m) number) := by
  have hcap : 0 < cap := by omega
  have hhead : (q.place cap (slotAt cap q.head m) e).head = q.head := by
    simp [Mq.place, hcount]
  refine ⟨?_, m + 1, hm, ?_, ?_⟩
  · rw [hhead]
    intro i j hij hj hi hoccupied
    rcases place_occupied hm (by omega) hi with rfl | ⟨hne, hslot, hold⟩
    · rcases place_occupied hm hj hoccupied with rfl | ⟨-, -, hlater⟩
      · omega
      · have hlt := hbehind j hj hlater
        omega
    · rw [Function.update_of_ne hslot]
      rcases place_occupied hm hj hoccupied with rfl | ⟨-, hother, hlater⟩
      · rw [Function.update_self]
        exact hnewest _ (slotAt_lt hcap i) hold
      · rw [Function.update_of_ne hother]
        exact hfifo.ordered i j hij hj hold hlater
  · rw [hhead, ← slotAt_slotAt]
    rfl
  · rw [hhead]
    intro j hj hoccupied
    rcases place_occupied hm hj hoccupied with rfl | ⟨-, -, hold⟩
    · omega
    · have hlt := hbehind j hj hold
      omega

/-- Where a message goes that is accepted while others are stored: behind all
of them exactly when the tail is free or there is no hole. -/
theorem MqFifo.found_behind_iff (hfifo : MqFifo cap q owner) (hq : MqInv cap q)
    (hcount : q.count ≠ 0) {k m : ℕ} (hm : m < cap)
    (hslot : slotAt cap q.tail k = slotAt cap q.head m)
    (hskipped : ∀ j < k, (q.ring (slotAt cap q.tail j)).Occupied)
    (hfree : ¬ (q.ring (slotAt cap q.tail k)).Occupied) (hk : k < cap) :
    (∀ j < cap, (q.ring (slotAt cap q.head j)).Occupied → j < m) ↔
      ¬ (q.ring q.tail).Occupied ∨ q.HoleFree cap := by
  obtain ⟨n, hn, htail, hwithin⟩ := hfifo.span
  have hhead := hq.head_occupied hcount
  by_cases htailFree : (q.ring q.tail).Occupied
  · -- the tail has come round to the head
    have hround : q.tail = q.head := by
      rcases Nat.lt_or_eq_of_le hn with hlt | rfl
      · rw [htail] at htailFree
        exact absurd (hwithin n hlt htailFree) (lt_irrefl n)
      · rw [htail, slotAt_cap hq.head_lt]
    rw [hround] at hslot hskipped hfree
    obtain rfl : k = m := slotAt_inj hk hm hslot
    constructor
    · intro hbehind
      refine .inr ?_
      intro j hj i hij hoccupied
      exact hskipped i (hij.trans (hbehind j hj hoccupied))
    · rintro (hfreeTail | hholes)
      · exact absurd htailFree hfreeTail
      · intro j hj hoccupied
        by_contra hge
        rcases Nat.lt_or_eq_of_le (Nat.le_of_not_lt hge) with hlt | rfl
        · exact hfree (hholes j hj k hlt hoccupied)
        · exact hfree hoccupied
  · refine iff_of_true ?_ (.inl htailFree)
    obtain rfl : k = 0 := by
      by_contra hne
      have hfirst := hskipped 0 (by omega)
      rw [slotAt_zero hq.tail_lt] at hfirst
      exact htailFree hfirst
    rw [slotAt_zero hq.tail_lt, htail] at hslot
    rcases Nat.lt_or_eq_of_le hn with hlt | rfl
    · obtain rfl : n = m := slotAt_inj hlt hm hslot
      exact hwithin
    · rw [htail, slotAt_cap hq.head_lt] at htailFree
      exact absurd hhead htailFree

/-! ## One step and every run -/

variable {s : MqRun}

theorem MqLedgerInv.service_handsInOrder (hs : MqLedgerInv cap s)
    (hfifo : MqFifo cap s.queue s.ledger.owner) (op : MqOp) : s.HandsInOrder cap op := by
  cases op with
  | service tx now =>
      intro slot hslot _ _ other hother hoccupied hearlier
      rcases hs.queue.service_cases tx now with hidle | ⟨k, hk, hskipped, q', hacted⟩
      · rw [hidle] at hslot
        simp at hslot
      · rw [hacted.slot_eq, Option.some.injEq] at hslot
        subst hslot
        obtain ⟨j, hj, rfl⟩ := exists_slotAt hs.queue.head_lt hother
        have hbefore : j < k := by
          by_contra hge
          rcases Nat.lt_or_eq_of_le (Nat.le_of_not_lt hge) with hlt | rfl
          · have hage := hfifo.ordered k j hlt hj hacted.occupied hoccupied
            omega
          · omega
        exact hs.handed _ hother hoccupied (hskipped j hbefore hoccupied)
  | enqueue friendnum payload now => trivial
  | confirm friendnum receipt => trivial
  | foreach => trivial
  | statsGet => trivial

theorem MqLedgerInv.enqueue_fifo (hs : MqLedgerInv cap s)
    (hfifo : MqFifo cap s.queue s.ledger.owner) {friendnum : ℤ} {payload : Option Bytes}
    {now : ℤ} (hbehind : s.EnqueuesBehind cap (.enqueue friendnum payload now)) :
    MqFifo cap (s.enqueue cap friendnum payload now).queue
      (s.enqueue cap friendnum payload now).ledger.owner := by
  rcases mqEnqueue_cases hs.queue.toMqCounted friendnum payload now with
    ⟨hcode, ⟨rejections, hqueue⟩, -⟩ |
    ⟨k, hk, bytes, rfl, hfriendnum, hlength, hmax, hskipped, hfree, hfound, hresult⟩
  · simp only [MqRun.enqueue, hqueue, hcode, if_false]
    exact hfifo.of_fewer rfl rfl fun _ => id
  · simp only [MqRun.enqueue, hresult, hfound, if_true, MqLedger.recordBirth]
    have hslot : slotAt cap s.queue.tail k < cap := slotAt_lt (by omega) k
    by_cases hcount : s.queue.count = 0
    · exact MqFifo.place_empty hs.queue.toMqCounted hcount hslot _ _
    · obtain ⟨m, hm, hat⟩ := exists_slotAt hs.queue.head_lt hslot
      have hlast := (hfifo.found_behind_iff hs.queue hcount hm hat.symm hskipped hfree hk).mpr
        (hbehind hfriendnum hlength hmax)
      rw [← hat]
      exact hfifo.place_behind hcount hm hlast
        (fun slot hlt hoccupied => hs.owner_lt hlt hoccupied) _

/-- Where the visit is in order after an enqueue, the message went behind the
others. -/
theorem MqLedgerInv.enqueuesBehind_of_visits (hs : MqLedgerInv cap s)
    (hfifo : MqFifo cap s.queue s.ledger.owner) (op : MqOp)
    (hvisits : (s.step cap op).VisitsInOrder cap) : s.EnqueuesBehind cap op := by
  cases op with
  | enqueue friendnum payload now =>
      rcases mqEnqueue_cases hs.queue.toMqCounted friendnum payload now with
        ⟨-, -, hfull⟩ |
        ⟨k, hk, bytes, rfl, -, -, -, hskipped, hfree, hfound, hresult⟩
      · cases payload with
        | none => trivial
        | some bytes =>
            intro hfriendnum hlength hmax
            have hall := hfull bytes rfl hfriendnum hlength hmax
            exact .inr fun j hj i _ _ => hall _ (slotAt_lt (by omega) i)
      · intro _ _ _
        have hslot : slotAt cap s.queue.tail k < cap := slotAt_lt (by omega) k
        by_cases hcount : s.queue.count = 0
        · exact .inl (hs.queue.empty hcount hs.queue.tail_lt)
        · obtain ⟨m, hm, hat⟩ := exists_slotAt hs.queue.head_lt hslot
          refine (hfifo.found_behind_iff hs.queue hcount hm hat.symm hskipped hfree hk).mp ?_
          intro j hj hoccupied
          by_contra hge
          have hne : slotAt cap s.queue.head j ≠ slotAt cap s.queue.head m := by
            intro hsame
            rw [hsame, hat] at hoccupied
            exact hfree hoccupied
          have hlt : m < j := by
            rcases Nat.lt_or_eq_of_le (Nat.le_of_not_lt hge) with hlt | rfl
            · exact hlt
            · exact absurd rfl hne
          have hinv := MqRun.enqueue_inv hs friendnum (some bytes) now
          have hordered := (MqRun.visitsInOrder_iff hinv.queue.toMqCounted).mp hvisits m j hlt hj
          have hage := hs.owner_lt (slotAt_lt (by omega) j) hoccupied
          simp only [MqRun.enqueue, hresult, hfound, if_true, MqLedger.recordBirth, Mq.place,
            hcount, Nat.add_eq_right, if_false, ← hat, Function.update_self,
            Function.update_of_ne hne] at hordered
          have hnewer := hordered (by simp [MqEntry.Occupied, mqNewEntry]) hoccupied
          omega
  | confirm friendnum receipt => trivial
  | service tx now => trivial
  | foreach => trivial
  | statsGet => trivial

theorem MqLedgerInv.step_fifo (hs : MqLedgerInv cap s)
    (hfifo : MqFifo cap s.queue s.ledger.owner) (op : MqOp)
    (hbehind : s.EnqueuesBehind cap op) :
    MqFifo cap (s.step cap op).queue (s.step cap op).ledger.owner := by
  cases op with
  | enqueue friendnum payload now => exact hs.enqueue_fifo hfifo hbehind
  | confirm friendnum receipt =>
      simp only [MqRun.step]
      rcases MqRun.confirm_cases cap s friendnum receipt with
        hstep | ⟨slot, hslot, hawaiting, -, hstep⟩
      · rw [hstep]
        exact hfifo
      · rw [hstep]
        exact hfifo.released (hs.queue.releaseSlot hslot hawaiting.occupied _)
  | service tx now =>
      rcases hs.queue.service_cases tx now with hidle | ⟨k, hk, -, q', hacted⟩
      · rw [MqRun.step, MqRun.service_of_idle hidle]
        exact hfifo
      · have hmoved := hfifo.touched hacted.touched hacted.occupied
        have hslot : slotAt cap s.queue.head k < cap := slotAt_lt (by omega) k
        simp only [MqRun.step, MqRun.service, MqLedger.recordService, hacted.slot_eq]
        by_cases hdropped : (mqService cap s.queue tx now).outcome = .dropped
        · rw [(hacted.dropped hdropped).1]
          exact hmoved.released
            (hacted.touched.counted.releaseSlot hslot hacted.touched.occupied _)
        · rw [(hacted.kept hdropped).1]
          exact hmoved
  | foreach => exact hfifo
  | statsGet => exact hfifo

theorem MqRun.FirstInFirstOut.visits {ops : List MqOp} (hfifo : s.FirstInFirstOut cap ops) :
    s.VisitsInOrder cap := by
  cases ops with
  | nil => exact hfifo
  | cons op ops => exact hfifo.1

theorem MqLedgerInv.firstInFirstOut_iff (hs : MqLedgerInv cap s)
    (hfifo : MqFifo cap s.queue s.ledger.owner) (ops : List MqOp) :
    s.FirstInFirstOut cap ops ↔ s.AlwaysEnqueuesBehind cap ops := by
  induction ops generalizing s with
  | nil =>
      refine iff_of_true ?_ trivial
      exact (MqRun.visitsInOrder_iff hs.queue.toMqCounted).mpr hfifo.ordered
  | cons op ops ih =>
      have hvisits := (MqRun.visitsInOrder_iff hs.queue.toMqCounted).mpr hfifo.ordered
      have hhands := hs.service_handsInOrder hfifo op
      constructor
      · rintro ⟨-, -, hrest⟩
        have hbehind := hs.enqueuesBehind_of_visits hfifo op hrest.visits
        exact ⟨hbehind,
          (ih (MqRun.step_inv hs op) (hs.step_fifo hfifo op hbehind)).mp hrest⟩
      · rintro ⟨hbehind, hrest⟩
        exact ⟨hvisits, hhands,
          (ih (MqRun.step_inv hs op) (hs.step_fifo hfifo op hbehind)).mpr hrest⟩

end

/-- A run is first in, first out exactly when every message it enqueues finds
the tail free or the ring without a hole. -/
theorem msgQueue_firstInFirstOut_iff {cap : ℕ} (hcap : 0 < cap) (dropFn changeFn : Bool)
    (ops : List MqOp) :
    (mqStart dropFn changeFn).FirstInFirstOut cap ops ↔
      (mqStart dropFn changeFn).AlwaysEnqueuesBehind cap ops :=
  (mqStart_inv hcap dropFn changeFn).firstInFirstOut_iff (mqStart_fifo dropFn changeFn) ops

theorem msgQueue_firstInFirstOut_iff_two :
    (mqStart false false).FirstInFirstOut 2
        [.enqueue 1 (some [65]) 0, .enqueue 2 (some [66]) 0] ↔
      (mqStart false false).AlwaysEnqueuesBehind 2
        [.enqueue 1 (some [65]) 0, .enqueue 2 (some [66]) 0] :=
  msgQueue_firstInFirstOut_iff (by decide) false false _

/-- A full ring of four, the second message confirmed and a fifth enqueued: it
takes the hole before the third. -/
def holeRun : List MqOp :=
  [.enqueue 0 (some [65]) 0, .enqueue 1 (some [66]) 0, .enqueue 2 (some [67]) 0,
    .enqueue 3 (some [68]) 0, .service (some fun _ _ _ => 1) 0, .service (some fun _ _ _ => 2) 0,
    .confirm 1 2, .enqueue 4 (some [69]) 0]

theorem msgQueue_not_firstInFirstOut :
    ¬ ∀ cap, 0 < cap → ∀ ops, (mqStart false false).FirstInFirstOut cap ops := by
  intro hall
  have hrun := hall 4 (by decide) holeRun
  have hlast : ((mqStart false false).after 4 holeRun).VisitsInOrder 4 :=
    hrun.2.2.2.2.2.2.2.2.2.2.2.2.2.2.2.2
  have hsorted := hlast.oldestFirst
  revert hsorted
  decide

end ToxRelayer
