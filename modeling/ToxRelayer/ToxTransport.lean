import ToxRelayer.MsgQueueBudget
import ToxRelayer.Directory

/-!
# The transport of the delivery queue

`tox_transport` maps what toxcore answers onto the retry policy of the queue.  A
contact that is offline makes it answer `MQ_SEND_RETRYABLE`, which the queue
counts as an attempt.
-/

namespace ToxRelayer

open CString RingIndex

def mqSendRetryable : ℤ := -2

/-- What toxcore answers: whether the connection status of a friend is other than
`TOX_CONNECTION_NONE`, and the receipt of `tox_friend_send_message`, if it
reports no error. -/
structure ToxNetwork where
  friendConnected : ℕ → Bool
  friendSendMessage : ℕ → Bytes → Option UInt32

def toxTransport (m : Option ToxNetwork) (friendnum : ℤ) (payload : Bytes) (len : ℕ) : ℤ :=
  match m with
  | none => mqSendFatal
  | some m =>
      if friendnum < 0 then mqSendFatal
      else if ¬ friendNumberValid friendnum then mqSendFatal
      else if m.friendConnected friendnum.toNat = false then mqSendRetryable
      else
        match m.friendSendMessage friendnum.toNat (payload.take len) with
        | none => mqSendRetryable
        | some receipt => receipt.toInt32.toInt

/-- The friend number is one of the table, and the friend is offline. -/
def ToxNetwork.Offline (m : ToxNetwork) (friendnum : ℤ) : Prop :=
  friendNumberValid friendnum ∧ m.friendConnected friendnum.toNat = false

instance (m : ToxNetwork) (friendnum : ℤ) : Decidable (m.Offline friendnum) :=
  inferInstanceAs (Decidable (_ ∧ _))

theorem toxTransport_of_offline {m : ToxNetwork} {friendnum : ℤ} (hoffline : m.Offline friendnum)
    (payload : Bytes) (len : ℕ) :
    toxTransport (some m) friendnum payload len = mqSendRetryable := by
  obtain ⟨hvalid, hdisconnected⟩ := hoffline
  have hnonneg : ¬ friendnum < 0 := by
    have hlow := hvalid.1
    omega
  simp only [toxTransport, hnonneg, hvalid, hdisconnected, not_true, if_false, if_true]

/-! ## The event loop -/

/-- The calls of the queue in the event loop, and the callbacks between them. -/
inductive LoopCall where
  | enqueue (friendnum : ℤ) (payload : Bytes) (now : ℤ)
  | confirm (friendnum receipt : ℤ)
  | service (m : ToxNetwork) (now : ℤ)

def LoopCall.op : LoopCall → MqOp
  | .enqueue friendnum payload now => .enqueue friendnum (some payload) now
  | .confirm friendnum receipt => .confirm friendnum receipt
  | .service m now => .service (some (toxTransport (some m))) now

/-- A condition on the state before every call of a run. -/
def MqRun.Along (cap : ℕ) (p : MqRun → LoopCall → Prop) : MqRun → List LoopCall → Prop
  | _, [] => True
  | s, call :: calls => p s call ∧ Along cap p (s.step cap call.op) calls

/-- If the call hands message `number` to the transport, its friend is offline. -/
def MqRun.OfflineFor (cap number : ℕ) (s : MqRun) : LoopCall → Prop
  | .service m now =>
      let serviced := mqService cap s.queue (some (toxTransport (some m))) now
      ∀ slot ∈ serviced.slot, s.ledger.owner slot = number →
        serviced.calls.any MqCall.isTransport = true →
          m.Offline (s.queue.ring slot).friendnum
  | _ => True

/-- The message `mq_service` turns to: the first from the head on whose
acknowledgement window and backoff have passed. -/
def mqNext (cap : ℕ) (q : Mq) (now : ℤ) : Option ℕ :=
  ((List.range cap).map fun i => (q.head + i) % cap).find? fun slot =>
    (q.ring slot).Occupied ∧ ¬ (q.ring slot).Waits now

/-- If the call turns to message `number`, another attempt is left after this one. -/
def MqRun.LeavesAttempt (cap number : ℕ) (s : MqRun) : LoopCall → Prop
  | .service _ now =>
      ∀ slot ∈ mqNext cap s.queue now, s.ledger.owner slot = number →
        (s.queue.ring slot).attempts + 1 < mqMaxAttempts
  | _ => True

instance (cap number : ℕ) (s : MqRun) :
    (call : LoopCall) → Decidable (s.OfflineFor cap number call)
  | .enqueue _ _ _ => instDecidableTrue
  | .confirm _ _ => instDecidableTrue
  | .service _ _ => Option.decidableForallMem _

instance (cap number : ℕ) (s : MqRun) :
    (call : LoopCall) → Decidable (s.LeavesAttempt cap number call)
  | .enqueue _ _ _ => instDecidableTrue
  | .confirm _ _ => instDecidableTrue
  | .service _ _ => Option.decidableForallMem _

instance MqRun.decidableAlong (cap : ℕ) (p : MqRun → LoopCall → Prop)
    [∀ s call, Decidable (p s call)] :
    (s : MqRun) → (calls : List LoopCall) → Decidable (s.Along cap p calls)
  | _, [] => instDecidableTrue
  | s, call :: calls =>
      have := decidableAlong cap p (s.step cap call.op) calls
      inferInstanceAs (Decidable (p s call ∧ Along cap p (s.step cap call.op) calls))

/-- The message has not been retired and is in the queue. -/
def MqRun.Keeps (cap : ℕ) (s : MqRun) (number : ℕ) : Prop :=
  number ∉ s.ledger.retired ∧ (s.storedIn cap number).Nonempty

/-! ## The message a call turns to -/

section

variable {cap : ℕ} {q : Mq} {now : ℤ}

theorem mqNext_of_waits (hhead : q.head < cap)
    (hwaits : ∀ slot < cap, (q.ring slot).Occupied → (q.ring slot).Waits now) :
    mqNext cap q now = none := by
  rw [mqNext, List.find?_eq_none]
  intro slot hmem
  obtain ⟨i, -, rfl⟩ := List.mem_map.mp hmem
  rw [decide_eq_true_eq]
  rintro ⟨hoccupied, hready⟩
  exact hready (hwaits _ (Nat.mod_lt _ (by omega)) hoccupied)

theorem mqNext_of_ready {k : ℕ} (hk : k < cap)
    (hskipped : ∀ j < k, (q.ring (slotAt cap q.head j)).Occupied →
      (q.ring (slotAt cap q.head j)).Waits now)
    (hoccupied : (q.ring (slotAt cap q.head k)).Occupied)
    (hready : ¬ (q.ring (slotAt cap q.head k)).Waits now) :
    mqNext cap q now = some (slotAt cap q.head k) := by
  rw [mqNext, List.find?_map, List.find?_range_eq_some.mpr ⟨?_, List.mem_range.mpr hk, ?_⟩]
  · rfl
  · exact decide_eq_true ⟨hoccupied, hready⟩
  · intro j hj
    rw [Bool.not_eq_true', Function.comp_apply, decide_eq_false_iff_not]
    rintro ⟨hstored, hpast⟩
    exact hpast (hskipped j hj hstored)

end

/-! ## A message that has never been sent -/

/-- The message is not accepted yet, or pending in some slot. -/
def MqRun.Unsent (cap : ℕ) (s : MqRun) (number : ℕ) : Prop :=
  s.ledger.born.length ≤ number ∨
    ∃ slot < cap, s.ledger.owner slot = number ∧ (s.queue.ring slot).state = .pending

section

variable {cap number : ℕ} {s : MqRun}

theorem MqRun.retired_step (op : MqOp) (hmem : number ∈ s.ledger.retired) :
    number ∈ (s.step cap op).ledger.retired := by
  cases op with
  | enqueue friendnum payload now =>
      simp only [MqRun.step, MqRun.enqueue]
      split
      · split <;> exact hmem
      · exact hmem
  | confirm friendnum receipt =>
      simp only [MqRun.step, MqRun.confirm]
      split
      · split <;> exact hmem
      · exact hmem
  | service tx now =>
      simp only [MqRun.step, MqRun.service, MqLedger.recordService]
      split
      · exact hmem
      · dsimp only
        split
        · exact List.mem_append_left _ hmem
        · exact hmem
  | foreach => exact hmem
  | statsGet => exact hmem

theorem MqRun.retired_after (ops : List MqOp) (hmem : number ∈ s.ledger.retired) :
    number ∈ (s.after cap ops).ledger.retired := by
  induction ops generalizing s with
  | nil => exact hmem
  | cons op ops ih => exact ih (MqRun.retired_step op hmem)

theorem MqBudget.unsent_enqueue (hs : MqBudget cap s) (hunsent : s.Unsent cap number)
    (friendnum : ℤ) (payload : Bytes) (now : ℤ) :
    (s.enqueue cap friendnum (some payload) now).Unsent cap number := by
  rcases MqRun.enqueue_cases hs.sound.toMqCounted friendnum (some payload) now with
    ⟨rejections, hstep⟩ | ⟨placed, hplaced, bytes, hfree, hstep⟩
  · rw [hstep]
    exact hunsent
  · rw [hstep]
    simp only [MqRun.Unsent, MqLedger.recordBirth, Mq.place, List.length_append,
      List.length_singleton]
    rcases hunsent with hlater | ⟨slot, hlt, howner, hpending⟩
    · rcases Nat.lt_or_eq_of_le hlater with hlt | rfl
      · exact .inl hlt
      · refine .inr ⟨_, hplaced, Function.update_self _ _ _, ?_⟩
        rw [Function.update_self]
        rfl
    · have hne : slot ≠ placed := by
        rintro rfl
        exact hfree (by simp [MqEntry.Occupied, hpending])
      refine .inr ⟨slot, hlt, ?_, ?_⟩
      · rw [Function.update_of_ne hne]
        exact howner
      · rw [Function.update_of_ne hne]
        exact hpending

theorem MqRun.unsent_confirm (hunsent : s.Unsent cap number) (friendnum receipt : ℤ) :
    (s.confirm cap friendnum receipt).Unsent cap number := by
  rcases MqRun.confirm_cases cap s friendnum receipt with hstep | ⟨slot, -, hawaiting, -, hstep⟩
  · rw [hstep]
    exact hunsent
  · rw [hstep]
    simp only [MqRun.Unsent, MqLedger.recordConfirm, Mq.confirmed_ring]
    rcases hunsent with hlater | ⟨other, hlt, howner, hpending⟩
    · exact .inl hlater
    · have hne : other ≠ slot := by
        rintro rfl
        exact absurd (hpending.symm.trans hawaiting) (by decide)
      refine .inr ⟨other, hlt, howner, ?_⟩
      simp only [mqReleaseSlot]
      rw [Function.update_of_ne hne]
      exact hpending

theorem MqMoved.tried_of_pending {tx : ℤ → Bytes → ℕ → ℤ} {now : ℤ} {e e' : MqEntry}
    {outcome : MqOutcome} {calls : List MqCall} (hmoved : MqMoved tx now e e' outcome calls)
    (hpending : e.state = .pending) :
    MqTried tx now e e' outcome ∧ calls = [.transport e.friendnum e.payload e.len] := by
  cases hmoved with
  | attempt _ htried => exact ⟨htried, rfl⟩
  | retry hawaiting => exact absurd (hpending.symm.trans hawaiting) (by decide)
  | spent hawaiting => exact absurd (hpending.symm.trans hawaiting) (by decide)

/-- The queue counts an attempt that the transport defers, and drops the message
with the last. -/
theorem MqTried.of_retryable {tx : ℤ → Bytes → ℕ → ℤ} {now : ℤ} {e e' : MqEntry}
    {outcome : MqOutcome} (htried : MqTried tx now e e' outcome)
    (hrc : tx e.friendnum e.payload e.len = mqSendRetryable) :
    outcome ≠ .dropped ∧ e'.state = e.state ∧ e.attempts + 1 < mqMaxAttempts ∨
      outcome = .dropped ∧ mqMaxAttempts ≤ e.attempts + 1 := by
  cases htried with
  | sent hsent =>
      rw [hrc] at hsent
      exact absurd hsent (by decide)
  | deferred _ _ hbudget hentry =>
      rw [hentry]
      exact .inl ⟨by decide, rfl, hbudget⟩
  | dropped _ hlast =>
      rcases hlast with hfatal | hspent
      · rw [hrc] at hfatal
        exact absurd hfatal (by decide)
      · exact .inr ⟨rfl, hspent⟩

/-- The message the call acts on stays pending exactly when another attempt is
left; every other message is left alone. -/
theorem MqBudget.unsent_service (hs : MqBudget cap s) (hunsent : s.Unsent cap number)
    {m : ToxNetwork} {now : ℤ} (hoffline : s.OfflineFor cap number (.service m now)) :
    let after := s.service cap (some (toxTransport (some m))) now
    (s.LeavesAttempt cap number (.service m now) → after.Unsent cap number) ∧
      (¬ s.LeavesAttempt cap number (.service m now) → number ∈ after.ledger.retired) := by
  rcases hs.sound.service_moves (toxTransport (some m)) now with
    ⟨hidle, hwaits⟩ | ⟨k, hk, hskipped, q', hserved⟩
  · have hleaves : s.LeavesAttempt cap number (.service m now) := by
      intro slot hslot
      rw [mqNext_of_waits hs.sound.head_lt hwaits] at hslot
      cases hslot
    refine ⟨fun _ => ?_, fun hnot => absurd hleaves hnot⟩
    rw [MqRun.service_of_idle hidle]
    exact hunsent
  · have hslot : slotAt cap s.queue.head k < cap := slotAt_lt (by omega) k
    have hnext := mqNext_of_ready hk hskipped hserved.occupied hserved.ready
    simp only [MqRun.service, MqRun.LeavesAttempt, hnext, Option.mem_some_iff, forall_eq',
      MqLedger.recordService, hserved.slot_eq]
    simp only [MqRun.OfflineFor, hserved.slot_eq, Option.mem_some_iff, forall_eq'] at hoffline
    have hoccupied := hserved.occupied
    obtain ⟨calls, hmoved, hcalls⟩ := hserved.moved
    generalize slotAt cap s.queue.head k = slot at hslot hserved hoffline hmoved hoccupied
    by_cases howner : s.ledger.owner slot = number
    · obtain ⟨other, hother, hsame, hpending⟩ : ∃ other < cap, s.ledger.owner other = number ∧
          (s.queue.ring other).state = .pending := by
        rcases hunsent with hlater | hfound
        · have hlt := hs.ledger.owner_lt hslot hoccupied
          omega
        · exact hfound
      obtain rfl : other = slot := hs.ledger.owner_inj hother hslot
        (by simp [MqEntry.Occupied, hpending]) hoccupied (hsame.trans howner.symm)
      obtain ⟨htried, hone⟩ := hmoved.tried_of_pending hpending
      have htransport : (mqService cap s.queue (some (toxTransport (some m))) now).calls.any
          MqCall.isTransport = true := by
        rw [hcalls, hone]
        rfl
      have hrc := toxTransport_of_offline (hoffline howner htransport)
        (s.queue.ring other).payload (s.queue.ring other).len
      rcases htried.of_retryable hrc with ⟨hkept, hstate, hbudget⟩ | ⟨hdropped, hspent⟩
      · refine ⟨fun _ => .inr ⟨other, hother, howner, ?_⟩, fun hnot => absurd (fun _ => hbudget) hnot⟩
        dsimp only
        rw [(hserved.kept hkept).1, hstate]
        exact hpending
      · refine ⟨fun hleaves => ?_, fun _ => ?_⟩
        · have hbudget := hleaves howner
          omega
        · rw [if_pos hdropped, howner]
          exact List.mem_append_right _ (List.mem_singleton.mpr rfl)
    · refine ⟨fun _ => ?_, fun hnot => absurd (fun hsame => absurd hsame howner) hnot⟩
      rcases hunsent with hlater | ⟨other, hother, hsame, hpending⟩
      · exact .inl hlater
      · have hne : other ≠ slot := by
          rintro rfl
          exact howner hsame
        refine .inr ⟨other, hother, hsame, ?_⟩
        rw [hserved.ring_of_ne hne]
        exact hpending

/-! ## Every run -/

theorem MqBudget.unsent_step (hs : MqBudget cap s) (hunsent : s.Unsent cap number)
    {call : LoopCall} (hoffline : s.OfflineFor cap number call) :
    (s.LeavesAttempt cap number call → (s.step cap call.op).Unsent cap number) ∧
      (¬ s.LeavesAttempt cap number call → number ∈ (s.step cap call.op).ledger.retired) := by
  cases call with
  | enqueue friendnum payload now =>
      exact ⟨fun _ => hs.unsent_enqueue hunsent friendnum payload now,
        fun hnot => absurd trivial hnot⟩
  | confirm friendnum receipt =>
      exact ⟨fun _ => MqRun.unsent_confirm hunsent friendnum receipt,
        fun hnot => absurd trivial hnot⟩
  | service m now => exact hs.unsent_service hunsent hoffline

theorem MqBudget.notMem_retired_iff (hs : MqBudget cap s) (hunsent : s.Unsent cap number)
    (calls : List LoopCall) (hoffline : s.Along cap (MqRun.OfflineFor cap number) calls) :
    ((s.after cap (calls.map LoopCall.op)).Unsent cap number ∧
        s.Along cap (MqRun.LeavesAttempt cap number) calls) ∨
      number ∈ (s.after cap (calls.map LoopCall.op)).ledger.retired ∧
        ¬ s.Along cap (MqRun.LeavesAttempt cap number) calls := by
  induction calls generalizing s with
  | nil => exact .inl ⟨hunsent, trivial⟩
  | cons call calls ih =>
      obtain ⟨hfirst, hrest⟩ := hoffline
      obtain ⟨hkeeps, hretires⟩ := hs.unsent_step hunsent hfirst
      by_cases hleaves : s.LeavesAttempt cap number call
      · rcases ih (hs.step call.op) (hkeeps hleaves) hrest with
          ⟨hafter, halong⟩ | ⟨hretired, hnot⟩
        · exact .inl ⟨hafter, hleaves, halong⟩
        · exact .inr ⟨hretired, fun halong => hnot halong.2⟩
      · exact .inr ⟨MqRun.retired_after (calls.map LoopCall.op) (hretires hleaves),
          fun halong => hleaves halong.1⟩

theorem MqLedgerInv.keeps_of_unsent (hs : MqLedgerInv cap s) (hunsent : s.Unsent cap number)
    (haccepted : number < s.ledger.born.length) : s.Keeps cap number := by
  rcases hunsent with hlater | ⟨slot, hslot, howner, hpending⟩
  · omega
  · have hstored : slot ∈ s.storedIn cap number := by
      rw [MqRun.storedIn, Finset.mem_filter, mem_slotsWhere]
      exact ⟨⟨hslot, by simp [MqEntry.Occupied, hpending]⟩, howner⟩
    have honce := hs.accounted.exactlyOnce number haccepted
    have hcard := Finset.card_pos.mpr ⟨slot, hstored⟩
    refine ⟨?_, slot, hstored⟩
    intro hretired
    have hcount := List.count_pos_iff.mpr hretired
    omega

end

/-- A telegram whose friend is offline at every attempt is kept exactly as long
as no call turns to it with its last attempt. -/
theorem offline_keeps_iff {cap : ℕ} (hcap : 0 < cap) (dropFn changeFn : Bool)
    (calls : List LoopCall) (number : ℕ) :
    let start := mqStart dropFn changeFn
    let s := start.after cap (calls.map LoopCall.op)
    number < s.ledger.born.length →
      start.Along cap (MqRun.OfflineFor cap number) calls →
      (s.Keeps cap number ↔ start.Along cap (MqRun.LeavesAttempt cap number) calls) := by
  intro start s haccepted hoffline
  have hstart := mqStart_budget hcap dropFn changeFn
  rcases hstart.notMem_retired_iff (.inl (Nat.zero_le number)) calls hoffline with
    ⟨hunsent, hleaves⟩ | ⟨hretired, hnot⟩
  · have hs : MqBudget cap s := hstart.after (calls.map LoopCall.op)
    exact iff_of_true (hs.ledger.keeps_of_unsent hunsent haccepted) hleaves
  · exact iff_of_false (fun hkeeps => hkeeps.1 hretired) hnot

/-! ## Eight ticks -/

/-- A telegram for the first friend, then the given number of ticks of the event
loop with nobody online. -/
def offlineCalls (ticks : ℕ) : List LoopCall :=
  .enqueue 0 [65] 0 :: (List.range ticks).map fun i =>
    .service ⟨fun _ => false, fun _ _ => none⟩ (2 * (i + 1))

theorem offline_keeps_iff_one :
    let start := mqStart false false
    (start.after 2 ((offlineCalls 1).map LoopCall.op)).Keeps 2 0 ↔
      start.Along 2 (MqRun.LeavesAttempt 2 0) (offlineCalls 1) :=
  offline_keeps_iff (by decide) false false (offlineCalls 1) 0 (by decide +kernel)
    (by decide +kernel)

theorem offline_retires :
    ¬ ∀ (calls : List LoopCall) (number : ℕ),
      let start := mqStart false false
      let s := start.after 2 (calls.map LoopCall.op)
      number < s.ledger.born.length → start.Along 2 (MqRun.OfflineFor 2 number) calls →
        s.Keeps 2 number := by
  intro hall
  have haccepted : 0 < ((mqStart false false).after 2
      ((offlineCalls 8).map LoopCall.op)).ledger.born.length := by decide +kernel
  have hretired : 0 ∈ ((mqStart false false).after 2
      ((offlineCalls 8).map LoopCall.op)).ledger.retired := by decide +kernel
  have hkeeps := hall (offlineCalls 8) 0 haccepted (by decide +kernel)
  exact hkeeps.1 hretired

end ToxRelayer
