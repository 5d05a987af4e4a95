import ToxRelayer.MsgQueueSound

/-!
# The attempt budget

An attempt is counted when it fails or when its acknowledgement window passes.
Either way every call of the transport is counted once, so the number a message
is retired with is the number of times it was handed to the transport.
-/

namespace ToxRelayer

open CString RingIndex

/-! ## What is counted -/

/-- The number of attempts a call of the drop hook reports. -/
def MqCall.droppedAttempts : MqCall → Option ℕ
  | .drop _ attempts => some attempts
  | _ => none

/-- The calls of the transport that one call makes. -/
def MqRun.transportCallsOf (cap : ℕ) (s : MqRun) : MqOp → ℕ
  | .service tx now => (mqService cap s.queue tx now).calls.countP MqCall.isTransport
  | _ => 0

/-- The calls of the transport in a run. -/
def MqRun.transportCalls (cap : ℕ) : MqRun → List MqOp → ℕ
  | _, [] => 0
  | s, op :: ops => s.transportCallsOf cap op + transportCalls cap (s.step cap op) ops

/-- A retirement reports how often the message was handed to the transport.
That is the whole budget, unless the transport has just refused it for good. -/
def MqRun.RetiresExactly (cap : ℕ) (s : MqRun) : MqOp → Prop
  | .service (some tx) now =>
      let serviced := mqService cap s.queue (some tx) now
      serviced.outcome = .dropped → ∃ slot, serviced.slot = some slot ∧
        let e := s.queue.ring slot
        let times := (s.service cap (some tx) now).ledger.handed.count (s.ledger.owner slot)
        serviced.calls.filterMap MqCall.droppedAttempts =
            (if s.queue.dropFn then [times] else []) ∧
          (times = mqMaxAttempts ∨
            .transport e.friendnum e.payload e.len ∈ serviced.calls ∧
              tx e.friendnum e.payload e.len = mqSendFatal)
  | _ => True

/-! ## One message -/

/-- How often a stored message has been handed to the transport: the call that
is not answered yet is not counted in `attempts`. -/
def MqEntry.handings (e : MqEntry) : ℕ := e.attempts + if e.Awaiting then 1 else 0

section

variable {tx : ℤ → Bytes → ℕ → ℤ} {now : ℤ} {e e' : MqEntry} {outcome : MqOutcome}
  {calls : List MqCall}

theorem MqEntry.handings_of_pending (hpending : e.state = .pending) : e.handings = e.attempts := by
  have hnot : ¬ e.Awaiting := by simp [MqEntry.Awaiting, hpending]
  rw [MqEntry.handings, if_neg hnot, Nat.add_zero]

theorem MqEntry.handings_of_awaiting (hawaiting : e.Awaiting) : e.handings = e.attempts + 1 := by
  rw [MqEntry.handings, if_pos hawaiting]

theorem MqEntry.Sound.handings_le (he : e.Sound) : e.handings ≤ mqMaxAttempts := by
  have hbudget := he.attempts_lt
  unfold MqEntry.handings
  split <;> omega

theorem MqTried.handings (htried : MqTried tx now e e' outcome) (hpending : e.state = .pending) :
    e'.handings = e.attempts + 1 := by
  cases htried with
  | sent hrc hentry =>
      subst hentry
      exact MqEntry.handings_of_awaiting rfl
  | deferred hrc hretryable hbudget hentry =>
      subst hentry
      exact MqEntry.handings_of_pending hpending
  | dropped hrc hlast hentry =>
      subst hentry
      exact MqEntry.handings_of_pending hpending

theorem MqMoved.handings (hmoved : MqMoved tx now e e' outcome calls) :
    e'.handings = e.handings + calls.length := by
  cases hmoved with
  | attempt hpending htried =>
      rw [htried.handings hpending, MqEntry.handings_of_pending hpending]
      rfl
  | retry hawaiting hbudget htried =>
      rw [htried.handings rfl, MqEntry.handings_of_awaiting hawaiting]
      rfl
  | spent hawaiting hbudget hentry =>
      subst hentry
      rw [MqEntry.handings_of_awaiting hawaiting]
      exact MqEntry.handings_of_pending rfl

theorem MqTried.dropped_last (htried : MqTried tx now e e' .dropped)
    (hbudget : e.attempts < mqMaxAttempts) :
    e'.state = e.state ∧ e'.attempts = e.attempts + 1 ∧
      (e'.attempts = mqMaxAttempts ∨ tx e.friendnum e.payload e.len = mqSendFatal) := by
  cases htried with
  | dropped hrc hlast hentry =>
      subst hentry
      refine ⟨rfl, rfl, ?_⟩
      rcases hlast with hfatal | hspent
      · exact .inr hfatal
      · left
        dsimp only
        omega

/-- A dropped message has spent its budget or was refused for good. -/
theorem MqMoved.dropped (hmoved : MqMoved tx now e e' .dropped calls) (he : e.Sound) :
    e'.state = .pending ∧ e'.attempts ≤ mqMaxAttempts ∧ (e'.attempts = mqMaxAttempts ∨
      calls = [.transport e.friendnum e.payload e.len] ∧
        tx e.friendnum e.payload e.len = mqSendFatal) := by
  have hwithin := he.attempts_lt
  cases hmoved with
  | attempt hpending htried =>
      obtain ⟨hstate, hattempts, hlast⟩ := htried.dropped_last hwithin
      exact ⟨hstate.trans hpending, by omega, hlast.imp_right fun hfatal => ⟨rfl, hfatal⟩⟩
  | retry hawaiting hbudget htried =>
      obtain ⟨hstate, hattempts, hlast⟩ := htried.dropped_last hbudget
      simp only [MqEntry.expired] at hattempts
      exact ⟨hstate, by omega, hlast.imp_right fun hfatal => ⟨rfl, hfatal⟩⟩
  | spent hawaiting hbudget hentry =>
      subst hentry
      have hattempts : e.expired.attempts = e.attempts + 1 := rfl
      exact ⟨rfl, by omega, .inl (by omega)⟩

theorem MqMoved.transports (hmoved : MqMoved tx now e e' outcome calls) :
    calls.countP MqCall.isTransport = calls.length ∧ calls.length ≤ 1 ∧
      calls.filterMap MqCall.droppedAttempts = [] := by
  cases hmoved <;> exact ⟨rfl, by simp, rfl⟩

end

theorem mqRetire_droppedAttempts (q : Mq) (slot : ℕ) :
    (mqRetire q slot).2.filterMap MqCall.droppedAttempts =
      if q.dropFn then [(q.ring slot).attempts] else [] := by
  cases hdrop : q.dropFn <;> cases hchange : q.changeFn <;>
    simp [mqRetire, mqNotifyChange, hdrop, hchange, MqCall.droppedAttempts]

/-! ## One call -/

structure MqBudget (cap : ℕ) (s : MqRun) : Prop where
  sound : MqSound cap s.queue
  ledger : MqLedgerInv cap s
  stored : ∀ slot < cap, (s.queue.ring slot).Occupied →
    s.ledger.handed.count (s.ledger.owner slot) = (s.queue.ring slot).handings
  bounded : ∀ number, s.ledger.handed.count number ≤ mqMaxAttempts
  known : ∀ number ∈ s.ledger.handed, number < s.ledger.born.length

section

variable {cap : ℕ} {s : MqRun}

theorem MqLedgerInv.owner_inj (hs : MqLedgerInv cap s) {slot other : ℕ} (hslot : slot < cap)
    (hother : other < cap) (hoccupied : (s.queue.ring slot).Occupied)
    (hstored : (s.queue.ring other).Occupied)
    (hsame : s.ledger.owner slot = s.ledger.owner other) : slot = other := by
  have hle : s.stored cap ≤ Multiset.range s.ledger.born.length := by
    rw [← hs.partition, add_assoc]
    exact Multiset.le_add_right _ _
  have hnodup := Multiset.nodup_of_le hle (Multiset.nodup_range _)
  exact Multiset.inj_on_of_nodup_map hnodup slot (mem_slotsWhere.mpr ⟨hslot, hoccupied⟩) other
    (mem_slotsWhere.mpr ⟨hother, hstored⟩) hsame

theorem mqStart_budget (hcap : 0 < cap) (dropFn changeFn : Bool) :
    MqBudget cap (mqStart dropFn changeFn) where
  sound := mqStart_sound hcap dropFn changeFn
  ledger := mqStart_inv hcap dropFn changeFn
  stored := by simp [mqStart, mqInit, mqSetChangeHook, mqSetDropHook, MqEntry.Occupied]
  bounded := by simp [mqStart]
  known := by simp [mqStart]

theorem MqBudget.enqueue (hs : MqBudget cap s) (friendnum : ℤ) (payload : Option Bytes)
    (now : ℤ) : MqBudget cap (s.enqueue cap friendnum payload now) := by
  have hsound : MqSound cap (s.enqueue cap friendnum payload now).queue :=
    hs.sound.enqueue friendnum payload now
  have hledger := MqRun.enqueue_inv hs.ledger friendnum payload now
  rcases MqRun.enqueue_cases hs.sound.toMqCounted friendnum payload now with
    ⟨rejections, hstep⟩ | ⟨slot, -, bytes, -, hstep⟩
  · rw [hstep] at hsound hledger ⊢
    exact ⟨hsound, hledger, hs.stored, hs.bounded, hs.known⟩
  · rw [hstep] at hsound hledger ⊢
    refine ⟨hsound, hledger, ?_, hs.bounded, ?_⟩
    · intro other hother hoccupied
      simp only [MqLedger.recordBirth, Mq.place] at hoccupied ⊢
      by_cases hsame : other = slot
      · have hnew : s.ledger.born.length ∉ s.ledger.handed := fun hmem =>
          lt_irrefl _ (hs.known _ hmem)
        rw [hsame, Function.update_self, Function.update_self, List.count_eq_zero.mpr hnew]
        rfl
      · rw [Function.update_of_ne hsame] at hoccupied ⊢
        rw [Function.update_of_ne hsame]
        exact hs.stored other hother hoccupied
    · intro number hmem
      have hlt := hs.known number hmem
      simp only [MqLedger.recordBirth, List.length_append, List.length_singleton]
      omega

theorem MqBudget.confirm (hs : MqBudget cap s) (friendnum receipt : ℤ) :
    MqBudget cap (s.confirm cap friendnum receipt) := by
  have hsound : MqSound cap (s.confirm cap friendnum receipt).queue :=
    hs.sound.confirm friendnum receipt
  have hledger := MqRun.confirm_inv hs.ledger friendnum receipt
  rcases MqRun.confirm_cases cap s friendnum receipt with hstep | ⟨slot, -, -, -, hstep⟩
  · rw [hstep]
    exact hs
  · rw [hstep] at hsound hledger ⊢
    refine ⟨hsound, hledger, ?_, hs.bounded, hs.known⟩
    intro other hother hoccupied
    rw [Mq.confirmed_ring] at hoccupied ⊢
    have hkept := occupied_releaseSlot hoccupied
    rw [hkept] at hoccupied ⊢
    exact hs.stored other hother hoccupied

theorem mqRetire_countP_transport (q : Mq) (slot : ℕ) :
    (mqRetire q slot).2.countP MqCall.isTransport = 0 := by
  have hnone := mqRetire_not_transport q slot
  rw [List.any_eq_false] at hnone
  rw [List.countP_eq_zero]
  exact hnone

section

variable {tx : ℤ → Bytes → ℕ → ℤ} {now : ℤ} {slot : ℕ} {q' : Mq} {serviced : MqServiced}

theorem MqServed.handed_eq (hserved : MqServed cap tx now slot s.queue q' serviced) :
    (s.ledger.recordService serviced).handed =
        s.ledger.handed ++
          List.replicate (serviced.calls.countP MqCall.isTransport) (s.ledger.owner slot) ∧
      (q'.ring slot).handings =
        (s.queue.ring slot).handings + serviced.calls.countP MqCall.isTransport := by
  obtain ⟨calls, hmoved, hcalls⟩ := hserved.moved
  obtain ⟨hcount, hle, -⟩ := hmoved.transports
  have hretire : (if serviced.outcome = .dropped then (mqRetire q' slot).2 else []).countP
      MqCall.isTransport = 0 := by
    split
    · exact mqRetire_countP_transport q' slot
    · rfl
  have htotal : serviced.calls.countP MqCall.isTransport = calls.length := by
    rw [hcalls, List.countP_append, hcount, hretire, Nat.add_zero]
  refine ⟨?_, by rw [htotal, hmoved.handings]⟩
  simp only [MqLedger.recordService, hserved.slot_eq]
  by_cases hany : serviced.calls.any MqCall.isTransport = true
  · have hone : serviced.calls.countP MqCall.isTransport = 1 := by
      have hpos := List.countP_pos_iff.mpr (List.any_eq_true.mp hany)
      omega
    rw [if_pos hany, hone, List.replicate_one]
  · have hzero : serviced.calls.countP MqCall.isTransport = 0 := by
      rw [Bool.not_eq_true, List.any_eq_false] at hany
      exact List.countP_eq_zero.mpr hany
    rw [if_neg hany, hzero, List.replicate_zero, List.append_nil]

theorem MqBudget.count_after (hs : MqBudget cap s) (hslot : slot < cap)
    (hserved : MqServed cap tx now slot s.queue q' serviced) (number : ℕ) :
    (s.ledger.recordService serviced).handed.count number =
      if number = s.ledger.owner slot then (q'.ring slot).handings
      else s.ledger.handed.count number := by
  obtain ⟨hhanded, hhandings⟩ := hserved.handed_eq
  rw [hhanded, List.count_append, List.count_replicate, hhandings,
    ← hs.stored slot hslot hserved.occupied]
  by_cases hnumber : number = s.ledger.owner slot
  · rw [if_pos hnumber, if_pos (by simp [hnumber]), hnumber]
  · rw [if_neg hnumber, if_neg (by simpa using Ne.symm hnumber), Nat.add_zero]

theorem MqBudget.handings_le (hs : MqBudget cap s) (hslot : slot < cap)
    (hserved : MqServed cap tx now slot s.queue q' serviced) :
    (q'.ring slot).handings ≤ mqMaxAttempts := by
  have he := hs.sound.entries slot hslot hserved.occupied
  obtain ⟨calls, hmoved, -⟩ := hserved.moved
  by_cases hdropped : serviced.outcome = .dropped
  · rw [hdropped] at hmoved
    obtain ⟨hpending, hattempts, -⟩ := hmoved.dropped he
    rwa [MqEntry.handings_of_pending hpending]
  · exact (hmoved.sound hdropped he).handings_le

end

theorem MqBudget.service (hs : MqBudget cap s) (tx : Option (ℤ → Bytes → ℕ → ℤ)) (now : ℤ) :
    MqBudget cap (s.service cap tx now) := by
  have hsound := hs.sound.service tx now
  have hledger := MqRun.service_inv hs.ledger tx now
  cases tx with
  | none => exact hs
  | some tx =>
      rcases hs.sound.service_moves tx now with ⟨hidle, -⟩ | ⟨k, hk, -, q', hserved⟩
      · rw [MqRun.service_of_idle hidle]
        exact hs
      · have hslot : slotAt cap s.queue.head k < cap := slotAt_lt (by omega) k
        have hcount := hs.count_after hslot hserved
        have hkept : ∀ other < cap, ((s.service cap (some tx) now).queue.ring other).Occupied →
            (s.service cap (some tx) now).queue.ring other = q'.ring other := by
          intro other _ hoccupied
          by_cases hsame : other = slotAt cap s.queue.head k
          · subst hsame
            exact (hserved.ring_self hoccupied).2
          · rw [hserved.touched.others other hsame]
            exact hserved.ring_of_ne hsame
        refine ⟨hsound, hledger, ?_, ?_, ?_⟩
        · intro other hother hoccupied
          rw [MqRun.service_owner, hkept other hother hoccupied]
          rw [hkept other hother hoccupied, hserved.touched.occupied_iff hserved.occupied]
            at hoccupied
          rw [MqRun.service]
          dsimp only
          rw [hcount]
          by_cases hsame : other = slotAt cap s.queue.head k
          · rw [hsame, if_pos rfl]
          · have hne : s.ledger.owner other ≠ s.ledger.owner (slotAt cap s.queue.head k) :=
              fun howner => hsame
                (hs.ledger.owner_inj hother hslot hoccupied hserved.occupied howner)
            rw [if_neg hne, hserved.touched.others other hsame]
            exact hs.stored other hother hoccupied
        · intro number
          rw [MqRun.service]
          dsimp only
          rw [hcount]
          split
          · exact hs.handings_le hslot hserved
          · exact hs.bounded number
        · intro number hmem
          rw [MqRun.service_born]
          rw [MqRun.service] at hmem
          dsimp only at hmem
          rw [hserved.handed_eq.1, List.mem_append, List.mem_replicate] at hmem
          rcases hmem with hold | ⟨-, rfl⟩
          · exact hs.known number hold
          · exact hs.ledger.owner_lt hslot hserved.occupied

theorem MqBudget.retiresExactly (hs : MqBudget cap s) (op : MqOp) : s.RetiresExactly cap op := by
  cases op with
  | service tx now =>
      cases tx with
      | none => trivial
      | some tx =>
          intro hdropped
          rcases hs.sound.service_moves tx now with ⟨hidle, -⟩ | ⟨k, hk, -, q', hserved⟩
          · rw [hidle] at hdropped
            cases hdropped
          · have hslot : slotAt cap s.queue.head k < cap := slotAt_lt (by omega) k
            refine ⟨_, hserved.slot_eq, ?_⟩
            have hcount := hs.count_after hslot hserved
              (s.ledger.owner (slotAt cap s.queue.head k))
            obtain ⟨calls, hmoved, hcalls⟩ := hserved.moved
            rw [if_pos rfl] at hcount
            rw [hdropped] at hmoved
            rw [hdropped, if_pos rfl] at hcalls
            obtain ⟨hpending, -, hlast⟩ := hmoved.dropped
              (hs.sound.entries _ hslot hserved.occupied)
            rw [MqEntry.handings_of_pending hpending] at hcount
            intro e times
            have htimes : times = (q'.ring (slotAt cap s.queue.head k)).attempts := hcount
            rw [htimes]
            refine ⟨?_, hlast.imp_right ?_⟩
            · rw [hcalls, List.filterMap_append, hmoved.transports.2.2, List.nil_append,
                mqRetire_droppedAttempts, hserved.touched.dropFn_eq]
            · rintro ⟨hcall, hfatal⟩
              refine ⟨?_, hfatal⟩
              rw [hcalls, hcall]
              exact List.mem_append_left _ (List.mem_singleton.mpr rfl)
  | enqueue friendnum payload now => trivial
  | confirm friendnum receipt => trivial
  | foreach => trivial
  | statsGet => trivial

/-! ## Every run -/

theorem MqBudget.step (hs : MqBudget cap s) (op : MqOp) : MqBudget cap (s.step cap op) := by
  cases op with
  | enqueue friendnum payload now => exact hs.enqueue friendnum payload now
  | confirm friendnum receipt => exact hs.confirm friendnum receipt
  | service tx now => exact hs.service tx now
  | foreach => exact hs
  | statsGet => exact hs

theorem MqBudget.after (hs : MqBudget cap s) (ops : List MqOp) : MqBudget cap (s.after cap ops) := by
  induction ops generalizing s with
  | nil => exact hs
  | cons op ops ih => exact ih (hs.step op)

theorem MqBudget.handed_length_step (hs : MqBudget cap s) (op : MqOp) :
    (s.step cap op).ledger.handed.length =
      s.ledger.handed.length + s.transportCallsOf cap op := by
  cases op with
  | service tx now =>
      cases tx with
      | none => rfl
      | some tx =>
          simp only [MqRun.step, MqRun.service, MqRun.transportCallsOf]
          rcases hs.sound.service_moves tx now with ⟨hidle, -⟩ | ⟨k, hk, -, q', hserved⟩
          · rw [hidle]
            rfl
          · rw [hserved.handed_eq.1, List.length_append, List.length_replicate]
  | enqueue friendnum payload now =>
      simp only [MqRun.step, MqRun.enqueue, MqRun.transportCallsOf]
      split
      · split <;> rfl
      · rfl
  | confirm friendnum receipt =>
      simp only [MqRun.step, MqRun.confirm, MqRun.transportCallsOf]
      split
      · split <;> rfl
      · rfl
  | foreach => rfl
  | statsGet => rfl

theorem MqBudget.handed_length (hs : MqBudget cap s) (ops : List MqOp) :
    (s.after cap ops).ledger.handed.length =
      s.ledger.handed.length + s.transportCalls cap ops := by
  induction ops generalizing s with
  | nil => rfl
  | cons op ops ih =>
      have hrest := ih (hs.step op)
      rw [hs.handed_length_step op] at hrest
      rw [MqRun.transportCalls, ← Nat.add_assoc]
      exact hrest

theorem MqBudget.handed_length_le (hs : MqBudget cap s) :
    s.ledger.handed.length ≤ mqMaxAttempts * s.ledger.born.length := by
  have hsubset : s.ledger.handed.toFinset ⊆ Finset.range s.ledger.born.length := by
    intro number hmem
    exact Finset.mem_range.mpr (hs.known number (List.mem_toFinset.mp hmem))
  calc s.ledger.handed.length
      = ∑ number ∈ s.ledger.handed.toFinset, s.ledger.handed.count number :=
        (List.sum_toFinset_count_eq_length s.ledger.handed).symm
    _ ≤ ∑ _number ∈ s.ledger.handed.toFinset, mqMaxAttempts :=
        Finset.sum_le_sum fun number _ => hs.bounded number
    _ = s.ledger.handed.toFinset.card * mqMaxAttempts := by
        rw [Finset.sum_const, smul_eq_mul]
    _ ≤ s.ledger.born.length * mqMaxAttempts := by
        refine Nat.mul_le_mul_right _ ?_
        simpa using Finset.card_le_card hsubset
    _ = mqMaxAttempts * s.ledger.born.length := Nat.mul_comm _ _

end

/-- In every run each message is handed to the transport within its budget, and
one that is retired as often as the drop hook is told. -/
theorem msgQueue_attemptsExact {cap : ℕ} (hcap : 0 < cap) (dropFn changeFn : Bool)
    (ops : List MqOp) :
    let s := (mqStart dropFn changeFn).after cap ops
    (∀ number, s.ledger.handed.count number ≤ mqMaxAttempts) ∧
      (mqStart dropFn changeFn).transportCalls cap ops ≤
        mqMaxAttempts * s.queue.stats.totalEnqueued ∧
      ∀ op, s.RetiresExactly cap op := by
  intro s
  have hstart := mqStart_budget hcap dropFn changeFn
  have hs : MqBudget cap s := hstart.after ops
  refine ⟨hs.bounded, ?_, hs.retiresExactly⟩
  have hlength := hstart.handed_length ops
  have hle := hs.handed_length_le
  rw [← hs.ledger.enqueued] at hle
  rw [show (mqStart dropFn changeFn).ledger.handed.length = 0 from rfl, Nat.zero_add] at hlength
  rwa [← hlength]

/-- One message that the transport refuses for good. -/
theorem msgQueue_attemptsExact_one :
    let ops : List MqOp := [.enqueue 1 (some [65]) 0, .service (some fun _ _ _ => -1) 1]
    let s := (mqStart true true).after 3 ops
    (∀ number, s.ledger.handed.count number ≤ mqMaxAttempts) ∧
      (mqStart true true).transportCalls 3 ops ≤ mqMaxAttempts * s.queue.stats.totalEnqueued ∧
      ∀ op, s.RetiresExactly 3 op :=
  msgQueue_attemptsExact (by decide) true true _

end ToxRelayer
