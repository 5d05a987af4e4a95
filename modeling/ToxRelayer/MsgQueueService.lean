import ToxRelayer.MsgQueueBudget
import ToxRelayer.MsgQueueOrder

/-!
# The queue as a list

`mq_foreach` gives the stored messages as a list.  On that list `mq_service` looks
for the first message that is due, treats it by the retry policy and leaves the
others alone.
-/

namespace ToxRelayer

open CString RingIndex

/-- The stored messages, in the order of `mq_foreach`. -/
def mqEntries (cap : ℕ) (q : Mq) : List MqEntry := (mqVisited cap q).map q.ring

/-! ## The retry policy -/

/-- A message whose backoff or acknowledgement window has passed. -/
def MqEntry.Actionable (now : ℤ) (e : MqEntry) : Prop :=
  e.state = .pending ∧ (e.attempted = false ∨ mqRetryBackoffSec ≤ now - e.lastAttempt) ∨
    e.state = .awaitingAck ∧ mqAckTimeoutSec ≤ now - e.lastAttempt

instance (now : ℤ) : DecidablePred (MqEntry.Actionable now) := fun e =>
  inferInstanceAs (Decidable
    (e.state = .pending ∧ (e.attempted = false ∨ mqRetryBackoffSec ≤ now - e.lastAttempt) ∨
      e.state = .awaitingAck ∧ mqAckTimeoutSec ≤ now - e.lastAttempt))

/-- What the policy makes of a message: `message` is the message with the attempt
recorded, which is retired if the outcome is `dropped`. -/
structure MqVerdict where
  outcome : MqOutcome
  message : MqEntry
  calls : List MqCall

/-- A message is sent. -/
def mqSendPolicy (tx : ℤ → Bytes → ℕ → ℤ) (now : ℤ) (e : MqEntry) : MqVerdict :=
  let rc := tx e.friendnum e.payload e.len
  let tried := { e with lastAttempt := now, attempted := true }
  let calls := [MqCall.transport e.friendnum e.payload e.len]
  if 0 ≤ rc then ⟨.sent, { tried with receipt := rc, state := .awaitingAck }, calls⟩
  else if rc = mqSendFatal ∨ mqMaxAttempts ≤ e.attempts + 1 then
    ⟨.dropped, { tried with attempts := e.attempts + 1 }, calls⟩
  else ⟨.deferred, { tried with attempts := e.attempts + 1 }, calls⟩

/-- A message that was not acknowledged in time has used up an attempt first. -/
def mqRetryPolicy (tx : ℤ → Bytes → ℕ → ℤ) (now : ℤ) (e : MqEntry) : MqVerdict :=
  if e.state = .awaitingAck then
    if mqMaxAttempts ≤ e.attempts + 1 then ⟨.dropped, e.expired, []⟩
    else mqSendPolicy tx now e.expired
  else mqSendPolicy tx now e

/-- What is left of the message in the queue. -/
def MqVerdict.stored (v : MqVerdict) : List MqEntry :=
  if v.outcome = .dropped then [] else [v.message]

section

variable {tx : ℤ → Bytes → ℕ → ℤ} {now : ℤ} {e e' : MqEntry} {outcome : MqOutcome}
  {calls : List MqCall}

theorem MqEntry.actionable_iff (hoccupied : e.Occupied)
    (hattempted : e.Awaiting → e.attempted = true) : e.Actionable now ↔ ¬ e.Waits now := by
  rw [MqEntry.Actionable, MqEntry.Waits, not_and, not_lt]
  cases hstate : e.state with
  | free => exact absurd hstate hoccupied
  | pending =>
      have hpending : ¬ e.Awaiting := by simp [MqEntry.Awaiting, hstate]
      rw [if_neg hpending, imp_iff_not_or, Bool.not_eq_true]
      simp
  | awaitingAck =>
      have hawaiting : e.Awaiting := hstate
      rw [if_pos hawaiting]
      simp [hattempted hawaiting]

theorem MqTried.policy (htried : MqTried tx now e e' outcome) :
    mqSendPolicy tx now e =
      ⟨outcome, e', [.transport e.friendnum e.payload e.len]⟩ := by
  rw [mqSendPolicy]
  cases htried with
  | sent hrc he => rw [if_pos hrc, he]
  | deferred hrc hretryable hbudget he =>
      rw [if_neg (by omega), if_neg (not_or.mpr ⟨hretryable, by omega⟩), he]
  | dropped hrc hlast he => rw [if_neg (by omega), if_pos hlast, he]

theorem MqMoved.policy (hmoved : MqMoved tx now e e' outcome calls) :
    mqRetryPolicy tx now e = ⟨outcome, e', calls⟩ := by
  rw [mqRetryPolicy]
  cases hmoved with
  | attempt hpending htried =>
      rw [if_neg (by rw [hpending]; decide)]
      exact htried.policy
  | retry hawaiting hbudget htried =>
      have hstate : e.state = .awaitingAck := hawaiting
      rw [if_pos hstate, if_neg (by omega)]
      exact htried.policy
  | spent hawaiting hbudget he =>
      have hstate : e.state = .awaitingAck := hawaiting
      rw [if_pos hstate, if_pos hbudget, he]

theorem MqMoved.outcome_ne_idle (hmoved : MqMoved tx now e e' outcome calls) : outcome ≠ .idle := by
  rintro rfl
  cases hmoved with
  | attempt hpending htried => cases htried
  | retry hawaiting hbudget htried => cases htried

end

/-! ## The list after a message has been removed -/

section

variable {cap : ℕ} {q : Mq}

/-- A message that is released is left out, and nothing else. -/
theorem MqCounted.visited_release (hq : MqCounted cap q) {slot : ℕ} (hslot : slot < cap)
    (hoccupied : (q.ring slot).Occupied) (stats : MqStats) :
    mqVisited cap (mqAdvanceHead cap { mqReleaseSlot q slot with stats := stats }) =
      (mqVisited cap q).filter (· ≠ slot) := by
  have hreleased := hq.releaseSlot hslot hoccupied stats
  rw [hreleased.visited_advanceHead, hreleased.visited_eq, hq.visited_eq, List.filter_filter]
  refine List.filter_congr fun other _ => ?_
  by_cases hsame : other = slot
  · subst hsame
    simp [mqReleaseSlot, MqEntry.Occupied]
  · simp [mqReleaseSlot, hsame]

theorem filter_ne_split {front back : List ℕ} {slot : ℕ} (hfront : slot ∉ front)
    (hback : slot ∉ back) : (front ++ slot :: back).filter (· ≠ slot) = front ++ back := by
  have hothers {slots : List ℕ} (hnot : slot ∉ slots) : slots.filter (· ≠ slot) = slots := by
    rw [List.filter_eq_self]
    intro other hmem
    rw [decide_eq_true_eq]
    rintro rfl
    exact hnot hmem
  rw [List.filter_append, List.filter_cons_of_neg (by simp), hothers hfront, hothers hback]

/-! ## The message a call acts on -/

/-- The stored message in the slot `k` places behind the head, between those before it
and those after it. -/
theorem MqCounted.visited_split (hq : MqCounted cap q) {k : ℕ} (hk : k < cap)
    (hoccupied : (q.ring (slotAt cap q.head k)).Occupied) :
    ∃ front back, mqVisited cap q = front ++ slotAt cap q.head k :: back ∧
      (∀ slot ∈ front, (q.ring slot).Occupied ∧ ∃ j < k, slotAt cap q.head j = slot) ∧
      slotAt cap q.head k ∉ front ∧ slotAt cap q.head k ∉ back := by
  have hwalk : (List.range cap).map (slotAt cap q.head) = _ :=
    map_slotAt_split (Nat.succ_le_of_lt hk)
  rw [List.range_succ, List.map_append, List.map_singleton, List.append_assoc,
    List.singleton_append] at hwalk
  have hvisited := hq.visited_eq
  rw [hwalk, List.filter_append, List.filter_cons, if_pos (decide_eq_true hoccupied)] at hvisited
  refine ⟨_, _, hvisited, ?_, ?_, ?_⟩
  · intro slot hmem
    obtain ⟨hmem, hstored⟩ := List.mem_filter.mp hmem
    obtain ⟨j, hj, rfl⟩ := List.mem_map.mp hmem
    exact ⟨of_decide_eq_true hstored, j, List.mem_range.mp hj, rfl⟩
  · intro hmem
    obtain ⟨j, hj, hsame⟩ := List.mem_map.mp (List.mem_filter.mp hmem).1
    have hlt := List.mem_range.mp hj
    have heq := slotAt_inj (by omega) hk hsame
    omega
  · intro hmem
    obtain ⟨j, hj, hsame⟩ := List.mem_map.mp (List.mem_filter.mp hmem).1
    have hlt := List.mem_range.mp hj
    have heq := slotAt_inj (by omega) hk hsame
    omega

/-- A call that acts on a message replaces it in the list, or takes it out. -/
theorem MqActed.entries_eq {slot : ℕ} {q' : Mq} {serviced : MqServiced} {front back : List ℕ}
    (hacted : MqActed cap slot q q' serviced) (hq : MqCounted cap q) (hslot : slot < cap)
    (hvisited : mqVisited cap q = front ++ slot :: back) (hfront : slot ∉ front)
    (hback : slot ∉ back) :
    mqEntries cap serviced.queue = front.map q.ring ++
      (if serviced.outcome = .dropped then [] else [q'.ring slot]) ++ back.map q.ring := by
  have htouched := hacted.touched
  have hsame : mqVisited cap q' = mqVisited cap q := by
    rw [htouched.counted.visited_eq, hq.visited_eq, htouched.head_eq]
    refine List.filter_congr fun other _ => ?_
    rw [decide_eq_decide]
    exact htouched.occupied_iff hacted.occupied other
  have hothers {slots : List ℕ} (hnot : slot ∉ slots) :
      slots.map serviced.queue.ring = slots.map q.ring := by
    refine List.map_congr_left fun other hmem => hacted.ring_of_ne ?_
    rintro rfl
    exact hnot hmem
  rw [mqEntries]
  by_cases hdropped : serviced.outcome = .dropped
  · have hfilter : mqVisited cap serviced.queue = front ++ back := by
      rw [(hacted.dropped hdropped).1, mqRetire,
        htouched.counted.visited_release hslot htouched.occupied, hsame, hvisited,
        filter_ne_split hfront hback]
    rw [hfilter, List.map_append, hothers hfront, hothers hback, if_pos hdropped, List.append_nil]
  · have hself : serviced.queue.ring slot = q'.ring slot := by rw [(hacted.kept hdropped).1]
    have hkept : mqVisited cap serviced.queue = front ++ slot :: back := by
      rw [(hacted.kept hdropped).1, hsame, hvisited]
    rw [hkept, List.map_append, List.map_cons, hothers hfront, hothers hback, hself,
      if_neg hdropped, List.append_assoc, List.singleton_append]

/-! ## Every call -/

/-- The call treats `e` by the policy, and leaves the messages before and after it as
they are. -/
structure MqServiced.TreatsOnly (cap : ℕ) (tx : ℤ → Bytes → ℕ → ℤ) (now : ℤ) (q : Mq)
    (serviced : MqServiced) (front : List MqEntry) (e : MqEntry) (back : List MqEntry) : Prop where
  outcome : serviced.outcome = (mqRetryPolicy tx now e).outcome
  entries : mqEntries cap serviced.queue = front ++ (mqRetryPolicy tx now e).stored ++ back
  transports : serviced.calls.filter MqCall.isTransport = (mqRetryPolicy tx now e).calls
  drops : serviced.calls.filterMap MqCall.droppedAttempts =
    if serviced.outcome = .dropped ∧ q.dropFn = true then [(mqRetryPolicy tx now e).message.attempts]
    else []

theorem MqServed.treatsOnly {slot : ℕ} {tx : ℤ → Bytes → ℕ → ℤ} {now : ℤ} {q' : Mq}
    {serviced : MqServiced} {front back : List ℕ}
    (hserved : MqServed cap tx now slot q q' serviced) (hq : MqCounted cap q) (hslot : slot < cap)
    (hvisited : mqVisited cap q = front ++ slot :: back) (hfront : slot ∉ front)
    (hback : slot ∉ back) :
    serviced.TreatsOnly cap tx now q (front.map q.ring) (q.ring slot) (back.map q.ring) := by
  obtain ⟨calls, hmoved, hcalls⟩ := hserved.moved
  have hpolicy := hmoved.policy
  obtain ⟨htransports, -, hnoDrops⟩ := hmoved.transports
  rw [List.countP_eq_length] at htransports
  refine ⟨?_, ?_, ?_, ?_⟩
  · rw [hpolicy]
  · rw [hserved.entries_eq hq hslot hvisited hfront hback, hpolicy]
    rfl
  · have hretire : (if serviced.outcome = .dropped then (mqRetire q' slot).2 else []).filter
        MqCall.isTransport = [] := by
      have hnone := mqRetire_not_transport q' slot
      rw [List.any_eq_false] at hnone
      split
      · exact List.filter_eq_nil_iff.mpr hnone
      · rfl
    rw [hcalls, List.filter_append, List.filter_eq_self.mpr htransports, hretire, hpolicy,
      List.append_nil]
  · rw [hcalls, List.filterMap_append, hnoDrops, List.nil_append, hpolicy]
    by_cases hdropped : serviced.outcome = .dropped
    · rw [if_pos hdropped, mqRetire_droppedAttempts, hserved.touched.dropFn_eq]
      simp only [hdropped, true_and]
    · simp only [hdropped, false_and, if_false, List.filterMap_nil]

/-- A call finds no message due and changes nothing, or treats the first that is. -/
theorem MqInv.service_treats (hq : MqInv cap q) (tx : ℤ → Bytes → ℕ → ℤ) (now : ℤ) :
    mqService cap q (some tx) now = ⟨.idle, q, none, []⟩ ∧
        (∀ e ∈ mqEntries cap q, ¬ e.Actionable now) ∨
      (mqService cap q (some tx) now).outcome ≠ .idle ∧
        ∃ front e back, mqEntries cap q = front ++ e :: back ∧
          (∀ other ∈ front, ¬ other.Actionable now) ∧ e.Actionable now ∧
          (mqService cap q (some tx) now).TreatsOnly cap tx now q front e back := by
  have hactionable {slot : ℕ} (hslot : slot < cap) (hoccupied : (q.ring slot).Occupied) :
      (q.ring slot).Actionable now ↔ ¬ (q.ring slot).Waits now :=
    MqEntry.actionable_iff hoccupied (hq.attempted slot hslot)
  rcases hq.service_moves tx now with ⟨hidle, hwaits⟩ | ⟨k, hk, hskipped, q', hserved⟩
  · refine .inl ⟨hidle, ?_⟩
    intro e hmem
    obtain ⟨slot, hvisited, rfl⟩ := List.mem_map.mp hmem
    rw [hq.visited_eq] at hvisited
    obtain ⟨hwalk, hoccupied⟩ := List.mem_filter.mp hvisited
    obtain ⟨j, -, rfl⟩ := List.mem_map.mp hwalk
    have hslot : slotAt cap q.head j < cap := slotAt_lt (Nat.zero_lt_of_lt hq.head_lt) j
    rw [hactionable hslot (of_decide_eq_true hoccupied), not_not]
    exact hwaits _ hslot (of_decide_eq_true hoccupied)
  · have hslot : slotAt cap q.head k < cap := slotAt_lt (by omega) k
    obtain ⟨front, back, hvisited, hbefore, hfront, hback⟩ := hq.visited_split hk hserved.occupied
    obtain ⟨calls, hmoved, -⟩ := hserved.moved
    refine .inr ⟨?_, front.map q.ring, q.ring (slotAt cap q.head k), back.map q.ring, ?_, ?_, ?_,
      hserved.treatsOnly hq.toMqCounted hslot hvisited hfront hback⟩
    · exact hmoved.outcome_ne_idle
    · rw [mqEntries, hvisited, List.map_append, List.map_cons]
    · intro other hmem
      obtain ⟨slot, hslots, rfl⟩ := List.mem_map.mp hmem
      obtain ⟨hoccupied, j, hj, rfl⟩ := hbefore slot hslots
      rw [hactionable (slotAt_lt (by omega) j) hoccupied, not_not]
      exact hskipped j hj hoccupied
    · exact (hactionable hslot hserved.occupied).mpr hserved.ready

end

/-- In every run a service call is idle exactly when no stored message is due, and then
changes nothing; otherwise it treats the first that is due by the retry policy, and
nothing else. -/
theorem mqService_firstActionable {cap : ℕ} (hcap : 0 < cap) (dropFn changeFn : Bool)
    (ops : List MqOp) (tx : ℤ → Bytes → ℕ → ℤ) (now : ℤ) :
    let q := ((mqStart dropFn changeFn).after cap ops).queue
    let serviced := mqService cap q (some tx) now
    (serviced.outcome = .idle ↔ ∀ e ∈ mqEntries cap q, ¬ e.Actionable now) ∧
      (serviced.outcome = .idle → serviced.queue = q ∧ serviced.calls = []) ∧
      (serviced.outcome ≠ .idle → ∃ front e back, mqEntries cap q = front ++ e :: back ∧
        (∀ other ∈ front, ¬ other.Actionable now) ∧ e.Actionable now ∧
        serviced.TreatsOnly cap tx now q front e back) := by
  intro q serviced
  have hq : MqSound cap q := (mqStart_sound hcap dropFn changeFn).after ops
  rcases hq.service_treats tx now with ⟨hidle, hnone⟩ | ⟨hbusy, htreats⟩
  · have houtcome : serviced.outcome = .idle := congrArg MqServiced.outcome hidle
    refine ⟨iff_of_true houtcome hnone, ?_, fun hbusy => absurd houtcome hbusy⟩
    exact fun _ => ⟨congrArg MqServiced.queue hidle, congrArg MqServiced.calls hidle⟩
  · refine ⟨iff_of_false hbusy ?_, fun hidle => absurd hidle hbusy, fun _ => htreats⟩
    intro hnone
    obtain ⟨front, e, back, hentries, -, hdue, -⟩ := htreats
    refine hnone e ?_ hdue
    rw [hentries]
    exact List.mem_append_right _ List.mem_cons_self

/-- Of two messages in flight the first is due again. -/
theorem mqService_firstActionable_two :
    let q := ((mqStart true true).after 3
      [.enqueue 1 (some [65]) 0, .enqueue 2 (some [66]) 0, .service (some fun _ _ _ => 7) 1,
        .service (some fun _ _ _ => 8) 9]).queue
    (mqService 3 q (some fun _ _ _ => -2) 26).outcome = .deferred ∧
      ∃ front e back, mqEntries 3 q = front ++ e :: back ∧
        (∀ other ∈ front, ¬ other.Actionable 26) ∧ e.Actionable 26 ∧
        (mqService 3 q (some fun _ _ _ => -2) 26).TreatsOnly 3 (fun _ _ _ => -2) 26 q
          front e back := by
  intro q
  have hdeferred : (mqService 3 q (some fun _ _ _ => -2) 26).outcome = .deferred := by decide
  obtain ⟨-, -, htreats⟩ := mqService_firstActionable (by decide : 0 < 3) true true
    [.enqueue 1 (some [65]) 0, .enqueue 2 (some [66]) 0, .service (some fun _ _ _ => 7) 1,
      .service (some fun _ _ _ => 8) 9] (fun _ _ _ => -2) 26
  exact ⟨hdeferred, htreats (by rw [hdeferred]; decide)⟩

end ToxRelayer
