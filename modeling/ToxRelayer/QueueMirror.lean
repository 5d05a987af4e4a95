import ToxRelayer.MqPersistAtomic

/-!
# The mirror of the queue on disk

The change hook sets a flag in the event loop, and the loop saves the queue while
the flag is set.  What a save writes can change only in operations that call the
hook, so the file is current whenever the flag is not set.
-/

namespace ToxRelayer

open CString RingIndex

/-! ## The calls of the hook -/

/-- The calls of the change hook that one operation makes. -/
def MqRun.changeCallsOf (cap : ℕ) (s : MqRun) : MqOp → ℕ
  | .enqueue friendnum payload now =>
      (mqEnqueue cap s.queue friendnum payload now).calls.count .change
  | .confirm friendnum receipt => (mqConfirm cap s.queue friendnum receipt).calls.count .change
  | .service tx now => (mqService cap s.queue tx now).calls.count .change
  | .foreach => 0
  | .statsGet => 0

/-- The calls of the change hook in a run. -/
def MqRun.changeCalls (cap : ℕ) : MqRun → List MqOp → ℕ
  | _, [] => 0
  | s, op :: ops => s.changeCallsOf cap op + changeCalls cap (s.step cap op) ops

/-- A message is added, confirmed or retired. -/
def MqRun.Changes (cap : ℕ) (s : MqRun) (op : MqOp) : Prop :=
  (s.step cap op).ledger.born ≠ s.ledger.born ∨
    (s.step cap op).ledger.confirmed ≠ s.ledger.confirmed ∨
    (s.step cap op).ledger.retired ≠ s.ledger.retired

/-- The queue as the change hook finds it.  Only a retirement calls the hook before
it has finished: the head is still to be advanced. -/
inductive MqRun.HookFinds (cap : ℕ) (s : MqRun) : MqOp → Mq → Prop
  | enqueued (friendnum : ℤ) (payload : Option Bytes) (now : ℤ) :
      HookFinds cap s (.enqueue friendnum payload now)
        (mqEnqueue cap s.queue friendnum payload now).queue
  | confirmed (friendnum receipt : ℤ) :
      HookFinds cap s (.confirm friendnum receipt) (mqConfirm cap s.queue friendnum receipt).queue
  | retired (tx : ℤ → Bytes → ℕ → ℤ) (now : ℤ) (slot : ℕ) (q' : Mq)
      (hserved : MqServed cap tx now slot s.queue q' (mqService cap s.queue (some tx) now)) :
      HookFinds cap s (.service (some tx) now) (mqRetire q' slot).1

/-- The hook is called once by what changes the stored messages and never by
anything else, and finds them as they are afterwards. -/
structure MqRun.Announces (cap : ℕ) (s : MqRun) (op : MqOp) : Prop where
  once : s.Changes cap op → s.changeCallsOf cap op = 1
  never : ¬ s.Changes cap op → s.changeCallsOf cap op = 0
  listed : s.changeCallsOf cap op = 0 →
    mqForeach cap (s.step cap op).queue = mqForeach cap s.queue
  found : s.changeCallsOf cap op = 1 → (∃ q', s.HookFinds cap op q') ∧
    ∀ q', s.HookFinds cap op q' → mqForeach cap q' = mqForeach cap (s.step cap op).queue

/-! ## The event loop -/

def queueSaveInterval : ℤ := 5

def timedOut (timestamp curtime timeout : ℤ) : Bool :=
  if curtime ≤ timestamp then false else timeout ≤ curtime - timestamp

/-- The queue and the variables of `main` that go with it; `saved` tells whether the
loop has saved it before. -/
structure QueueLoop where
  run : MqRun
  queueDirty : Bool
  lastQueueSave : ℤ
  files : FileSystem
  saved : Bool

/-- What happens in the loop: a call of the queue, or the flush at the end of a turn. -/
inductive QueueLoopStep where
  | call (op : MqOp)
  | flush (curTime : ℤ) (io : MqSaveIo)

/-- The hooks are set and the queue of the last run is restored. -/
def queueLoopStart (cap : ℕ) (files : FileSystem) (now : ℤ) : QueueLoop where
  run := (mqStart true true).load cap (some queueFile) files now
  queueDirty := (mqPersistLoad cap (some queueFile) (mqStart true true).queue files now).calls.count
    .change ≠ 0
  lastQueueSave := now
  files := files
  saved := false

def QueueLoop.step (cap : ℕ) (loop : QueueLoop) : QueueLoopStep → QueueLoop
  | .call op =>
      { loop with
        run := loop.run.step cap op
        -- `on_queue_changed`
        queueDirty := loop.queueDirty || loop.run.changeCallsOf cap op ≠ 0 }
  | .flush curTime io =>
      if loop.queueDirty && timedOut loop.lastQueueSave curTime queueSaveInterval then
        let written := mqPersistSaveIo cap io (some queueFile) loop.run.queue loop.files
        { loop with
          queueDirty := if written.code = mqPersistOk then false else loop.queueDirty
          lastQueueSave := curTime
          files := written.files
          saved := loop.saved || written.code = mqPersistOk }
      else loop

def QueueLoop.after (cap : ℕ) (loop : QueueLoop) (steps : List QueueLoopStep) : QueueLoop :=
  steps.foldl (QueueLoop.step cap) loop

/-- After the first save the file is what a save would write now, unless the flag is
set. -/
def QueueLoop.Mirrored (cap : ℕ) (loop : QueueLoop) : Prop :=
  loop.saved = true → loop.queueDirty = false →
    loop.files queueFile.val =
      (mqPersistSave cap (some queueFile) loop.run.queue loop.files).files queueFile.val

/-! ## What is listed -/

section

variable {cap : ℕ} {q : Mq}

theorem MqCounted.foreach_advanceHead (hq : MqCounted cap q) :
    mqForeach cap (mqAdvanceHead cap q) = mqForeach cap q := by
  rw [mqForeach, mqForeach, hq.visited_advanceHead, mqAdvanceHead_ring]

/-- How far a delivery has got is not listed. -/
theorem MqTouched.foreach_eq {slot : ℕ} {q' : Mq} (htouched : MqTouched cap slot q q')
    (hoccupied : (q.ring slot).Occupied) : mqForeach cap q' = mqForeach cap q := by
  have hvisited : mqVisited cap q' = mqVisited cap q := by
    rw [mqVisited, mqVisited, htouched.head_eq, htouched.count_eq]
    congr 1
    refine List.filter_congr ?_
    intro other _
    exact decide_eq_decide.mpr (htouched.occupied_iff hoccupied other)
  rw [mqForeach, mqForeach, hvisited]
  refine List.map_congr_left ?_
  intro other _
  obtain ⟨hfriendnum, hpayload, hlen⟩ := htouched.unaltered other
  rw [hfriendnum, hpayload, hlen]

/-! ## The hook stays installed -/

@[simp] theorem mqAdvanceHead_changeFn : (mqAdvanceHead cap q).changeFn = q.changeFn := by
  unfold mqAdvanceHead
  split <;> rfl

@[simp] theorem mqDrop_changeFn (slot : ℕ) (calls : List MqCall) :
    (mqDrop cap q slot calls).queue.changeFn = q.changeFn := by
  rw [mqDrop, mqAdvanceHead_changeFn]
  rfl

theorem mqAttempt_changeFn (tx : ℤ → Bytes → ℕ → ℤ) (now : ℤ) (slot : ℕ) :
    (mqAttempt cap tx now q slot).queue.changeFn = q.changeFn := by
  unfold mqAttempt
  dsimp only
  split
  · rfl
  · split
    · rw [mqDrop_changeFn]
      rfl
    · rfl

theorem MqInspected.changeFn_of_acted {tx : ℤ → Bytes → ℕ → ℤ} {now : ℤ} {slot : ℕ}
    {serviced : MqServiced} (hacted : mqInspect cap tx now q slot = .acted serviced) :
    serviced.queue.changeFn = q.changeFn := by
  have htry : ∀ q', mqTryPending cap tx now q' slot = .acted serviced →
      serviced.queue.changeFn = q'.changeFn := by
    intro q' hpending
    unfold mqTryPending at hpending
    dsimp only at hpending
    split at hpending
    · cases hpending
    · cases hpending
      exact mqAttempt_changeFn tx now slot
  unfold mqInspect at hacted
  dsimp only at hacted
  split at hacted
  · cases hacted
  · split at hacted
    · cases hacted
    · split at hacted
      · cases hacted
        rw [mqDrop_changeFn]
        rfl
      · exact htry (mqExpire q slot) hacted
  · exact htry q hacted

theorem MqCounted.serviceLoop_changeFn (hq : MqCounted cap q) (tx : ℤ → Bytes → ℕ → ℤ)
    (now : ℤ) (rounds : ℕ) {slot : ℕ} (hslot : slot < cap) :
    (mqServiceLoop cap tx now rounds slot q).queue.changeFn = q.changeFn := by
  induction rounds generalizing slot with
  | zero => rfl
  | succ rounds ih =>
      rw [mqServiceLoop]
      rcases hq.inspect_cases hslot tx now with ⟨hskip, -⟩ | ⟨q', serviced, hact, -⟩
      · rw [hskip]
        exact ih (slotAt_lt (by omega) 1)
      · rw [hact]
        exact MqInspected.changeFn_of_acted hact

theorem MqCounted.service_changeFn (hq : MqCounted cap q) (tx : Option (ℤ → Bytes → ℕ → ℤ))
    (now : ℤ) : (mqService cap q tx now).queue.changeFn = q.changeFn := by
  cases tx with
  | none => rfl
  | some tx =>
      rw [mqService]
      split
      · rfl
      · have hcounted := hq.advanceHead.toMqCounted
        rw [hcounted.serviceLoop_changeFn tx now cap hcounted.head_lt, mqAdvanceHead_changeFn]

theorem mqNotifyChange_count (hhook : q.changeFn = true) :
    (mqNotifyChange q).count .change = 1 := by
  rw [mqNotifyChange, if_pos hhook]
  rfl

theorem mqRetire_count (hhook : q.changeFn = true) (slot : ℕ) :
    (mqRetire q slot).2.count .change = 1 := by
  rw [mqRetire]
  dsimp only
  rw [List.count_append, mqNotifyChange_count hhook, Nat.add_eq_right]
  split <;> rfl

theorem MqMoved.count_change {tx : ℤ → Bytes → ℕ → ℤ} {now : ℤ} {e e' : MqEntry}
    {outcome : MqOutcome} {calls : List MqCall} (hmoved : MqMoved tx now e e' outcome calls) :
    calls.count .change = 0 := by
  cases hmoved <;> rfl

end

/-! ## One operation -/

section

variable {cap : ℕ} {s : MqRun} {op : MqOp}

theorem MqRun.not_changes_of_ledger (hledger : (s.step cap op).ledger = s.ledger) :
    ¬ s.Changes cap op := by
  simp [MqRun.Changes, hledger]

theorem MqRun.Announces.of_unchanged (hsame : ¬ s.Changes cap op)
    (hcalls : s.changeCallsOf cap op = 0)
    (hlisted : mqForeach cap (s.step cap op).queue = mqForeach cap s.queue) :
    s.Announces cap op where
  once := fun hchanges => absurd hchanges hsame
  never := fun _ => hcalls
  listed := fun _ => hlisted
  found := by
    intro honce
    omega

theorem MqRun.Announces.of_changed (hchanges : s.Changes cap op)
    (hcalls : s.changeCallsOf cap op = 1) (hfinds : ∃ q', s.HookFinds cap op q')
    (hlisted : ∀ q', s.HookFinds cap op q' →
      mqForeach cap q' = mqForeach cap (s.step cap op).queue) : s.Announces cap op where
  once := fun _ => hcalls
  never := fun hsame => absurd hchanges hsame
  listed := by
    intro hnone
    omega
  found := fun _ => ⟨hfinds, hlisted⟩

theorem mqEnqueue_calls (cap : ℕ) (q : Mq) (friendnum : ℤ) (payload : Option Bytes) (now : ℤ) :
    (mqEnqueue cap q friendnum payload now).calls =
      if (mqEnqueue cap q friendnum payload now).code = mqOk then mqNotifyChange q else [] := by
  unfold mqEnqueue
  split
  · rfl
  · split
    · rfl
    · rw [mqFindFreeSlot]
      cases (mqFindFreeLoop cap q.ring cap q.tail).1 <;> rfl

theorem mqConfirm_calls (cap : ℕ) (q : Mq) (friendnum receipt : ℤ) :
    (mqConfirm cap q friendnum receipt).calls =
      if (mqConfirm cap q friendnum receipt).code = mqOk then mqNotifyChange q else [] := by
  unfold mqConfirm
  split
  · rfl
  · split <;> rfl

theorem MqInv.enqueue_announces (hs : MqInv cap s.queue) (hhook : s.queue.changeFn = true)
    (friendnum : ℤ) (payload : Option Bytes) (now : ℤ) :
    s.Announces cap (.enqueue friendnum payload now) := by
  have hcalls := mqEnqueue_calls cap s.queue friendnum payload now
  rcases mqEnqueue_cases hs.toMqCounted friendnum payload now with
    ⟨hcode, ⟨rejections, hqueue⟩, -⟩ | ⟨k, hk, bytes, rfl, -, -, -, -, -, hfound, hresult⟩
  · rw [if_neg hcode] at hcalls
    refine .of_unchanged (MqRun.not_changes_of_ledger ?_) ?_ ?_
    · simp only [MqRun.step, MqRun.enqueue, hcode, if_false]
    · rw [MqRun.changeCallsOf, hcalls, List.count_nil]
    · simp only [MqRun.step, MqRun.enqueue, hqueue]
      rfl
  · have hcode : (mqEnqueue cap s.queue friendnum (some bytes) now).code = mqOk := by
      rw [hresult]
    rw [if_pos hcode] at hcalls
    refine .of_changed (.inl ?_) ?_ ⟨_, .enqueued _ _ _⟩ ?_
    · simp only [MqRun.step, MqRun.enqueue, hcode, if_true, hfound, MqLedger.recordBirth]
      simp
    · rw [MqRun.changeCallsOf, hcalls, mqNotifyChange_count hhook]
    · rintro q' ⟨⟩
      rfl

theorem MqInv.confirm_announces (hhook : s.queue.changeFn = true) (friendnum receipt : ℤ) :
    s.Announces cap (.confirm friendnum receipt) := by
  have hcalls := mqConfirm_calls cap s.queue friendnum receipt
  rcases mqConfirm_cases cap s.queue friendnum receipt with
    ⟨hcode, hqueue⟩ | ⟨slot, -, -, hfound, hresult⟩
  · rw [if_neg hcode] at hcalls
    refine .of_unchanged (MqRun.not_changes_of_ledger ?_) ?_ ?_
    · simp only [MqRun.step, MqRun.confirm, hcode, if_false]
    · rw [MqRun.changeCallsOf, hcalls, List.count_nil]
    · simp only [MqRun.step, MqRun.confirm, hqueue]
  · have hcode : (mqConfirm cap s.queue friendnum receipt).code = mqOk := by
      rw [hresult]
    rw [if_pos hcode] at hcalls
    refine .of_changed (.inr (.inl ?_)) ?_ ⟨_, .confirmed _ _⟩ ?_
    · simp only [MqRun.step, MqRun.confirm, hcode, if_true, hfound, MqLedger.recordConfirm]
      simp
    · rw [MqRun.changeCallsOf, hcalls, mqNotifyChange_count hhook]
    · rintro q' ⟨⟩
      rfl

/-- A retirement is announced before the head is advanced, which changes nothing in
the list. -/
theorem MqServed.retired_foreach {tx : ℤ → Bytes → ℕ → ℤ} {now : ℤ} {slot : ℕ} {q q' : Mq}
    {serviced : MqServiced} (hserved : MqServed cap tx now slot q q' serviced)
    (hslot : slot < cap) (hdropped : serviced.outcome = .dropped) :
    mqForeach cap (mqRetire q' slot).1 = mqForeach cap serviced.queue := by
  have hretired : MqCounted cap (mqRetire q' slot).1 :=
    hserved.touched.counted.releaseSlot hslot hserved.touched.occupied _
  rw [(hserved.dropped hdropped).1, hretired.foreach_advanceHead]

theorem MqInv.service_announces (hs : MqInv cap s.queue) (hhook : s.queue.changeFn = true)
    (tx : Option (ℤ → Bytes → ℕ → ℤ)) (now : ℤ) : s.Announces cap (.service tx now) := by
  cases tx with
  | none => exact .of_unchanged (MqRun.not_changes_of_ledger rfl) rfl rfl
  | some tx =>
      rcases hs.service_moves tx now with ⟨hidle, -⟩ | ⟨k, hk, -, q', hserved⟩
      · refine .of_unchanged (MqRun.not_changes_of_ledger ?_) ?_ ?_
        · rw [MqRun.step, MqRun.service_of_idle hidle]
        · rw [MqRun.changeCallsOf, hidle, List.count_nil]
        · rw [MqRun.step, MqRun.service_of_idle hidle]
      · have hslot : slotAt cap s.queue.head k < cap := slotAt_lt (by omega) k
        generalize slotAt cap s.queue.head k = slot at hslot hserved
        obtain ⟨calls, hmoved, hcalls⟩ := hserved.moved
        by_cases hdropped : (mqService cap s.queue (some tx) now).outcome = .dropped
        · rw [if_pos hdropped] at hcalls
          have hinstalled : q'.changeFn = true := by
            rw [← hhook, ← hs.toMqCounted.service_changeFn (some tx) now,
              (hserved.dropped hdropped).1, mqAdvanceHead_changeFn]
            rfl
          refine .of_changed (.inr (.inr ?_)) ?_ ⟨_, .retired tx now slot q' hserved⟩ ?_
          · simp only [MqRun.step, MqRun.service, MqLedger.recordService, hserved.slot_eq,
              hdropped, if_true]
            simp
          · rw [MqRun.changeCallsOf, hcalls, List.count_append, hmoved.count_change,
              mqRetire_count hinstalled]
          · rintro found hfinds
            cases hfinds with
            | retired _ _ other q'' hother =>
                have hsame := hother.slot_eq.symm.trans hserved.slot_eq
                cases hsame
                exact hother.retired_foreach hslot hdropped
        · rw [if_neg hdropped, List.append_nil] at hcalls
          refine .of_unchanged ?_ ?_ ?_
          · simp [MqRun.Changes, MqRun.step, MqRun.service, MqLedger.recordService,
              hserved.slot_eq, hdropped]
          · rw [MqRun.changeCallsOf, hcalls, hmoved.count_change]
          · simp only [MqRun.step, MqRun.service]
            rw [(hserved.kept hdropped).1]
            exact hserved.touched.foreach_eq hserved.occupied

theorem MqInv.announces (hs : MqInv cap s.queue) (hhook : s.queue.changeFn = true) (op : MqOp) :
    s.Announces cap op := by
  cases op with
  | enqueue friendnum payload now => exact hs.enqueue_announces hhook friendnum payload now
  | confirm friendnum receipt => exact MqInv.confirm_announces hhook friendnum receipt
  | service tx now => exact hs.service_announces hhook tx now
  | foreach => exact .of_unchanged (MqRun.not_changes_of_ledger rfl) rfl rfl
  | statsGet => exact .of_unchanged (MqRun.not_changes_of_ledger rfl) rfl rfl

/-! ## Runs -/

/-- What every state of a run with the hook installed satisfies. -/
structure MqHooked (cap : ℕ) (s : MqRun) : Prop where
  ledger : MqLedgerInv cap s
  hook : s.queue.changeFn = true

theorem mqEnqueue_changeFn (friendnum : ℤ) (payload : Option Bytes) (now : ℤ) (q : Mq) :
    (mqEnqueue cap q friendnum payload now).queue.changeFn = q.changeFn := by
  unfold mqEnqueue
  split
  · rfl
  · split
    · rfl
    · rw [mqFindFreeSlot]
      cases (mqFindFreeLoop cap q.ring cap q.tail).1 <;> rfl

theorem mqConfirm_changeFn (friendnum receipt : ℤ) (q : Mq) :
    (mqConfirm cap q friendnum receipt).queue.changeFn = q.changeFn := by
  rcases mqConfirm_cases cap q friendnum receipt with ⟨-, hqueue⟩ | ⟨slot, -, -, -, hresult⟩
  · rw [hqueue]
  · rw [hresult, Mq.confirmed, mqAdvanceHead_changeFn]
    rfl

theorem MqHooked.step (hs : MqHooked cap s) (op : MqOp) : MqHooked cap (s.step cap op) := by
  refine ⟨s.step_inv hs.ledger op, ?_⟩
  cases op with
  | enqueue friendnum payload now =>
      exact (mqEnqueue_changeFn friendnum payload now s.queue).trans hs.hook
  | confirm friendnum receipt =>
      exact (mqConfirm_changeFn friendnum receipt s.queue).trans hs.hook
  | service tx now =>
      exact (hs.ledger.queue.toMqCounted.service_changeFn tx now).trans hs.hook
  | foreach => exact hs.hook
  | statsGet => exact hs.hook

theorem MqHooked.after (hs : MqHooked cap s) (ops : List MqOp) :
    MqHooked cap (s.after cap ops) := by
  induction ops generalizing s with
  | nil => exact hs
  | cons op ops ih => exact ih (hs.step op)

theorem mqStart_hooked (hcap : 0 < cap) (dropFn : Bool) : MqHooked cap (mqStart dropFn true) :=
  ⟨mqStart_inv hcap dropFn true, rfl⟩

/-- Without a call of the hook the list stays as it is. -/
theorem MqHooked.foreach_after (hs : MqHooked cap s) {ops : List MqOp}
    (hquiet : s.changeCalls cap ops = 0) :
    mqForeach cap (s.after cap ops).queue = mqForeach cap s.queue := by
  induction ops generalizing s with
  | nil => rfl
  | cons op ops ih =>
      rw [MqRun.changeCalls, Nat.add_eq_zero_iff] at hquiet
      have hlisted := (hs.ledger.queue.announces hs.hook op).listed hquiet.1
      exact (ih (hs.step op) hquiet.2).trans hlisted

end

/-! ## The loop -/

section

variable {cap : ℕ} {loop : QueueLoop}

structure QueueLoopInv (cap : ℕ) (loop : QueueLoop) : Prop where
  hooked : MqHooked cap loop.run
  mirrored : loop.saved = true → loop.queueDirty = false →
    loop.files queueFile.val = some (mqSerialised (mqForeach cap loop.run.queue))

theorem queueLoopStart_inv (hcap : 0 < cap) (files : FileSystem) (now : ℤ) :
    QueueLoopInv cap (queueLoopStart cap files now) where
  hooked := by
    obtain ⟨ops, hops⟩ := MqRun.load_after (some queueFile) files now (mqStart true true)
    rw [queueLoopStart, hops]
    exact (mqStart_hooked hcap true).after ops
  mirrored := by
    rintro ⟨⟩

theorem QueueLoopInv.call (hloop : QueueLoopInv cap loop) (op : MqOp) :
    QueueLoopInv cap (loop.step cap (.call op)) where
  hooked := hloop.hooked.step op
  mirrored := by
    intro hsaved hclean
    simp only [QueueLoop.step, Bool.or_eq_false_iff, decide_eq_false_iff_not, not_not] at hclean
    have hlisted := (hloop.hooked.ledger.queue.announces hloop.hooked.hook op).listed hclean.2
    simp only [QueueLoop.step]
    rw [hlisted]
    exact hloop.mirrored hsaved hclean.1

theorem QueueLoopInv.flush (hloop : QueueLoopInv cap loop) (curTime : ℤ) (io : MqSaveIo) :
    QueueLoopInv cap (loop.step cap (.flush curTime io)) := by
  rw [QueueLoop.step]
  split
  · next hdue =>
      rw [Bool.and_eq_true] at hdue
      refine ⟨hloop.hooked, ?_⟩
      dsimp only
      intro _ hclean
      obtain ⟨-, ⟨-, hfile, -⟩ | ⟨hcode, -⟩⟩ :=
        @mqPersistSaveIo_cases cap loop.run.queue loop.files io queueFile
      · rw [hfile, hloop.hooked.ledger.queue.toMqCounted.saveBytes_eq]
      · rw [if_neg hcode, hdue.1] at hclean
        cases hclean
  · exact hloop

theorem QueueLoopInv.step (hloop : QueueLoopInv cap loop) (step : QueueLoopStep) :
    QueueLoopInv cap (loop.step cap step) := by
  cases step with
  | call op => exact hloop.call op
  | flush curTime io => exact hloop.flush curTime io

theorem QueueLoopInv.after (hloop : QueueLoopInv cap loop) (steps : List QueueLoopStep) :
    QueueLoopInv cap (loop.after cap steps) := by
  induction steps generalizing loop with
  | nil => exact hloop
  | cons step steps ih => exact ih (hloop.step step)

theorem QueueLoopInv.current (hloop : QueueLoopInv cap loop) : loop.Mirrored cap := by
  intro hsaved hclean
  rw [(mqPersistSave_files queueFile_usable loop.run.queue loop.files).2,
    hloop.hooked.ledger.queue.toMqCounted.saveBytes_eq]
  exact hloop.mirrored hsaved hclean

end

/-- The mirror is never stale while it is believed clean: the hook is called where the
stored messages change and nowhere else, the list stays the same from one call to the
next, and in the event loop the file is current unless the flag is set. -/
theorem queueFile_current {cap : ℕ} (hcap : 0 < cap) :
    (∀ (dropFn : Bool) (ops : List MqOp) (op : MqOp),
      ((mqStart dropFn true).after cap ops).Announces cap op) ∧
    (∀ (dropFn : Bool) (ops quiet : List MqOp),
      ((mqStart dropFn true).after cap ops).changeCalls cap quiet = 0 →
        mqForeach cap (((mqStart dropFn true).after cap ops).after cap quiet).queue =
          mqForeach cap ((mqStart dropFn true).after cap ops).queue) ∧
    ∀ (files : FileSystem) (now : ℤ) (steps : List QueueLoopStep),
      ((queueLoopStart cap files now).after cap steps).Mirrored cap := by
  refine ⟨?_, ?_, ?_⟩
  · intro dropFn ops op
    have hhooked := (mqStart_hooked hcap dropFn).after ops
    exact hhooked.ledger.queue.announces hhooked.hook op
  · intro dropFn ops quiet hquiet
    exact ((mqStart_hooked hcap dropFn).after ops).foreach_after hquiet
  · intro files now steps
    exact ((queueLoopStart_inv hcap files now).after steps).current

theorem queueFile_current_two :
    (∀ (dropFn : Bool) (ops : List MqOp) (op : MqOp),
      ((mqStart dropFn true).after 2 ops).Announces 2 op) ∧
    (∀ (dropFn : Bool) (ops quiet : List MqOp),
      ((mqStart dropFn true).after 2 ops).changeCalls 2 quiet = 0 →
        mqForeach 2 (((mqStart dropFn true).after 2 ops).after 2 quiet).queue =
          mqForeach 2 ((mqStart dropFn true).after 2 ops).queue) ∧
    ∀ (files : FileSystem) (now : ℤ) (steps : List QueueLoopStep),
      ((queueLoopStart 2 files now).after 2 steps).Mirrored 2 :=
  queueFile_current (by decide)

end ToxRelayer
