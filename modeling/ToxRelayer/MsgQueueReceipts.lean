import ToxRelayer.MsgQueueService
import ToxRelayer.StepRun

/-!
# Receipts and the messages they belong to

A record beside a run of what the transport returned for the most recent transmission
of every message.  As long as no receipt is handed out that another message in flight
to the same friend holds, a confirmation finds the message its receipt was returned
for.
-/

namespace ToxRelayer

open CString RingIndex StepRun

/-- What the transport returned in a service call, if it was called. -/
def MqServiced.transmitted (tx : ℤ → Bytes → ℕ → ℤ) (serviced : MqServiced) : Option ℤ :=
  serviced.calls.findSome? fun
    | .transport friendnum payload len => some (tx friendnum payload len)
    | _ => none

/-- `returned` holds, by message number, what the transport returned for the most recent
transmission of the message. -/
structure MqReceiptRun where
  run : MqRun
  returned : ℕ → Option ℤ

namespace MqReceiptRun

def recordReturned (s : MqReceiptRun) (tx : ℤ → Bytes → ℕ → ℤ) (serviced : MqServiced) :
    ℕ → Option ℤ :=
  match serviced.slot, serviced.transmitted tx with
  | some slot, some rc => Function.update s.returned (s.run.ledger.owner slot) (some rc)
  | _, _ => s.returned

def step (cap : ℕ) (s : MqReceiptRun) (op : MqOp) : MqReceiptRun :=
  ⟨s.run.step cap op,
    match op with
    | .service (some tx) now => s.recordReturned tx (mqService cap s.run.queue (some tx) now)
    | _ => s.returned⟩

def start (dropFn changeFn : Bool) : MqReceiptRun := ⟨mqStart dropFn changeFn, fun _ => none⟩

/-- The stored messages with their numbers, in the order of `mq_foreach`. -/
def messages (cap : ℕ) (s : MqReceiptRun) : List (ℕ × MqEntry) :=
  (mqVisited cap s.run.queue).map fun slot => (s.run.ledger.owner slot, s.run.queue.ring slot)

/-- The message is in flight to the friend, and its most recent transmission returned the
receipt. -/
def AwaitsReceipt (s : MqReceiptRun) (friendnum receipt : ℤ) (m : ℕ × MqEntry) : Prop :=
  m.2.Awaiting ∧ m.2.friendnum = friendnum ∧ s.returned m.1 = some receipt

/-- If the call transmits a message, the transport does not return a receipt that another
message in flight to the same friend holds. -/
def ReturnsFresh (cap : ℕ) (s : MqReceiptRun) : MqOp → Prop
  | .service (some tx) now =>
      let serviced := mqService cap s.run.queue (some tx) now
      ∀ slot ∈ serviced.slot, ∀ rc ∈ serviced.transmitted tx, ∀ other < cap, other ≠ slot →
        ¬ s.AwaitsReceipt (s.run.queue.ring slot).friendnum rc
          (s.run.ledger.owner other, s.run.queue.ring other)
  | _ => True

instance (s : MqReceiptRun) (friendnum receipt : ℤ) (m : ℕ × MqEntry) :
    Decidable (s.AwaitsReceipt friendnum receipt m) :=
  inferInstanceAs (Decidable
    (m.2.Awaiting ∧ m.2.friendnum = friendnum ∧ s.returned m.1 = some receipt))

instance (cap : ℕ) (s : MqReceiptRun) : (op : MqOp) → Decidable (s.ReturnsFresh cap op)
  | .service (some _) _ => Option.decidableForallMem _
  | .service none _ => instDecidableTrue
  | .enqueue _ _ _ => instDecidableTrue
  | .confirm _ _ => instDecidableTrue
  | .foreach => instDecidableTrue
  | .statsGet => instDecidableTrue

end MqReceiptRun

/-! ## The invariant -/

/-- A message in flight holds what the transport returned for it, and no two messages in
flight to one friend hold the same. -/
structure MqReceiptInv (cap : ℕ) (s : MqReceiptRun) : Prop where
  ledger : MqLedgerInv cap s.run
  held : ∀ slot < cap, (s.run.queue.ring slot).Awaiting →
    s.returned (s.run.ledger.owner slot) = some (s.run.queue.ring slot).receipt
  unique : ∀ slot < cap, ∀ other < cap, (s.run.queue.ring slot).Awaiting →
    (s.run.queue.ring other).Awaiting →
    (s.run.queue.ring slot).friendnum = (s.run.queue.ring other).friendnum →
    (s.run.queue.ring slot).receipt = (s.run.queue.ring other).receipt → slot = other

section

variable {cap : ℕ} {s : MqReceiptRun}

theorem MqTried.receipt_eq {tx : ℤ → Bytes → ℕ → ℤ} {now : ℤ} {e e' : MqEntry}
    {outcome : MqOutcome} (htried : MqTried tx now e e' outcome) (hpending : e.state = .pending)
    (hawaiting : e'.Awaiting) : tx e.friendnum e.payload e.len = e'.receipt := by
  cases htried with
  | sent hrc hentry => rw [hentry]
  | deferred hrc hretryable hbudget hentry =>
      rw [hentry] at hawaiting
      exact absurd (hpending.symm.trans hawaiting) (by decide)
  | dropped hrc hlast hentry =>
      rw [hentry] at hawaiting
      exact absurd (hpending.symm.trans hawaiting) (by decide)

/-- A message that a call acts on and leaves in flight was transmitted in it, and holds
what the transport returned. -/
theorem MqServed.transmitted_eq {tx : ℤ → Bytes → ℕ → ℤ} {now : ℤ} {slot : ℕ} {q q' : Mq}
    {serviced : MqServiced} (hserved : MqServed cap tx now slot q q' serviced)
    (hawaiting : (serviced.queue.ring slot).Awaiting) :
    serviced.transmitted tx = some (serviced.queue.ring slot).receipt ∧
      (serviced.queue.ring slot).friendnum = (q.ring slot).friendnum := by
  obtain ⟨hkept, hring⟩ := hserved.ring_self hawaiting.occupied
  obtain ⟨calls, hmoved, hcalls⟩ := hserved.moved
  rw [hring] at hawaiting ⊢
  refine ⟨?_, hserved.touched.friendnum_eq⟩
  rw [if_neg hkept, List.append_nil] at hcalls
  rw [MqServiced.transmitted, hcalls]
  generalize serviced.outcome = outcome at hmoved
  cases hmoved with
  | attempt hpending htried => exact congrArg some (htried.receipt_eq hpending hawaiting)
  | retry hretried hbudget htried => exact congrArg some (htried.receipt_eq rfl hawaiting)
  | spent hretried hbudget hentry =>
      rw [hentry] at hawaiting
      exact absurd hawaiting (by simp [MqEntry.expired, MqEntry.Awaiting])

theorem mqReceiptRun_start_inv (hcap : 0 < cap) (dropFn changeFn : Bool) :
    MqReceiptInv cap (.start dropFn changeFn) := by
  have hfree (slot : ℕ) :
      ¬ ((MqReceiptRun.start dropFn changeFn).run.queue.ring slot).Awaiting := by
    simp [MqReceiptRun.start, mqStart, mqInit, mqSetChangeHook, mqSetDropHook, MqEntry.Awaiting]
  refine ⟨mqStart_inv hcap dropFn changeFn, ?_, ?_⟩
  · exact fun slot _ hawaiting => absurd hawaiting (hfree slot)
  · exact fun slot _ _ _ hawaiting => absurd hawaiting (hfree slot)

/-- If every message in flight was so before, under its number, the invariant is kept. -/
theorem MqReceiptInv.of_kept (hs : MqReceiptInv cap s) {s' : MqReceiptRun}
    (hledger : MqLedgerInv cap s'.run) (hreturned : s'.returned = s.returned)
    (hkept : ∀ slot < cap, (s'.run.queue.ring slot).Awaiting →
      s'.run.queue.ring slot = s.run.queue.ring slot ∧
        s'.run.ledger.owner slot = s.run.ledger.owner slot) :
    MqReceiptInv cap s' := by
  refine ⟨hledger, ?_, ?_⟩
  · intro slot hslot hawaiting
    obtain ⟨hring, howner⟩ := hkept slot hslot hawaiting
    rw [hring] at hawaiting
    rw [hreturned, howner, hring]
    exact hs.held slot hslot hawaiting
  · intro slot hslot other hother hawaiting hawaiting' hfriend hreceipt
    have hring := (hkept slot hslot hawaiting).1
    have hring' := (hkept other hother hawaiting').1
    rw [hring] at hawaiting hfriend hreceipt
    rw [hring'] at hawaiting' hfriend hreceipt
    exact hs.unique slot hslot other hother hawaiting hawaiting' hfriend hreceipt

theorem MqReceiptInv.enqueue (hs : MqReceiptInv cap s) (friendnum : ℤ) (payload : Option Bytes)
    (now : ℤ) : MqReceiptInv cap (s.step cap (.enqueue friendnum payload now)) := by
  refine hs.of_kept (MqRun.enqueue_inv hs.ledger friendnum payload now) rfl ?_
  intro slot hslot hawaiting
  simp only [MqReceiptRun.step, MqRun.step] at hawaiting ⊢
  rcases MqRun.enqueue_cases hs.ledger.queue.toMqCounted friendnum payload now with
    ⟨rejections, hstep⟩ | ⟨placed, hplaced, bytes, hfree, hstep⟩
  · rw [hstep]
    exact ⟨rfl, rfl⟩
  · rw [hstep] at hawaiting ⊢
    simp only [Mq.place, MqLedger.recordBirth] at hawaiting ⊢
    have hne : slot ≠ placed := by
      rintro rfl
      rw [Function.update_self] at hawaiting
      exact absurd hawaiting (by simp [mqNewEntry, MqEntry.Awaiting])
    rw [Function.update_of_ne hne, Function.update_of_ne hne]
    exact ⟨rfl, rfl⟩

theorem MqReceiptInv.confirm (hs : MqReceiptInv cap s) (friendnum receipt : ℤ) :
    MqReceiptInv cap (s.step cap (.confirm friendnum receipt)) := by
  refine hs.of_kept (MqRun.confirm_inv hs.ledger friendnum receipt) rfl ?_
  intro slot hslot hawaiting
  simp only [MqReceiptRun.step, MqRun.step] at hawaiting ⊢
  rcases MqRun.confirm_cases cap s.run friendnum receipt with
    hstep | ⟨released, hreleased, -, -, hstep⟩
  · rw [hstep]
    exact ⟨rfl, rfl⟩
  · rw [hstep, Mq.confirmed_ring] at hawaiting
    rw [hstep, Mq.confirmed_ring]
    exact ⟨occupied_releaseSlot hawaiting.occupied, rfl⟩

/-- What a call that acts on a message leaves of the record. -/
theorem MqReceiptInv.served (hs : MqReceiptInv cap s) {tx : ℤ → Bytes → ℕ → ℤ} {now : ℤ}
    {slot : ℕ} {q' : Mq} (hslot : slot < cap)
    (hserved : MqServed cap tx now slot s.run.queue q' (mqService cap s.run.queue (some tx) now)) :
    let s' := s.step cap (.service (some tx) now)
    s'.run.ledger.owner = s.run.ledger.owner ∧
      (∀ other < cap, other ≠ slot → s'.run.queue.ring other = s.run.queue.ring other ∧
        ((s.run.queue.ring other).Occupied →
          s'.returned (s.run.ledger.owner other) = s.returned (s.run.ledger.owner other))) ∧
      ((s'.run.queue.ring slot).Awaiting →
        s'.returned (s.run.ledger.owner slot) = some (s'.run.queue.ring slot).receipt) := by
  dsimp only [MqReceiptRun.step, MqRun.step, MqRun.service, MqReceiptRun.recordReturned,
    MqLedger.recordService]
  generalize mqService cap s.run.queue (some tx) now = serviced at hserved
  rw [hserved.slot_eq]
  refine ⟨rfl, ?_, ?_⟩
  · intro other hother hne
    refine ⟨hserved.ring_of_ne hne, fun hoccupied => ?_⟩
    have howner : s.run.ledger.owner other ≠ s.run.ledger.owner slot := fun hsame =>
      hne (hs.ledger.owner_inj hother hslot hoccupied hserved.occupied hsame)
    cases serviced.transmitted tx with
    | none => rfl
    | some rc => exact Function.update_of_ne howner _ _
  · intro hawaiting
    rw [(hserved.transmitted_eq hawaiting).1]
    exact Function.update_self _ _ _

theorem MqReceiptInv.service (hs : MqReceiptInv cap s) (tx : Option (ℤ → Bytes → ℕ → ℤ))
    (now : ℤ) (hfresh : s.ReturnsFresh cap (.service tx now)) :
    MqReceiptInv cap (s.step cap (.service tx now)) := by
  have hledger : MqLedgerInv cap (s.step cap (.service tx now)).run :=
    MqRun.service_inv hs.ledger tx now
  cases tx with
  | none => exact hs
  | some tx =>
      rcases hs.ledger.queue.service_moves tx now with ⟨hidle, -⟩ | ⟨k, hk, -, q', hserved⟩
      · have hstep : s.step cap (.service (some tx) now) = s := by
          simp only [MqReceiptRun.step, MqRun.step, MqRun.service_of_idle hidle, hidle,
            MqReceiptRun.recordReturned]
        rw [hstep]
        exact hs
      · have hslot : slotAt cap s.run.queue.head k < cap := slotAt_lt (by omega) k
        generalize slotAt cap s.run.queue.head k = slot at hslot hserved
        obtain ⟨howner, hothers, hself⟩ := hs.served hslot hserved
        have htransmitted := hserved.transmitted_eq
        -- the receipt a message now holds is not one another message to the friend holds
        have hclash : ∀ other < cap, other ≠ slot →
            ((s.step cap (.service (some tx) now)).run.queue.ring slot).Awaiting →
            (s.run.queue.ring other).Awaiting →
            (s.run.queue.ring other).friendnum =
              ((s.step cap (.service (some tx) now)).run.queue.ring slot).friendnum →
            (s.run.queue.ring other).receipt ≠
              ((s.step cap (.service (some tx) now)).run.queue.ring slot).receipt := by
          intro other hother hne hawaiting hinFlight hfriend hreceipt
          obtain ⟨hreturned, hsame⟩ := htransmitted hawaiting
          refine hfresh slot hserved.slot_eq _ hreturned other hother hne ⟨hinFlight, ?_, ?_⟩
          · exact hfriend.trans hsame
          · rw [hs.held other hother hinFlight]
            exact congrArg some hreceipt
        generalize s.step cap (.service (some tx) now) = s' at hledger howner hothers hself hclash ⊢
        refine ⟨hledger, ?_, ?_⟩
        · intro other hother hawaiting
          rw [howner]
          by_cases hsame : other = slot
          · rw [hsame] at hawaiting ⊢
            exact hself hawaiting
          · obtain ⟨hring, hreturned⟩ := hothers other hother hsame
            rw [hring] at hawaiting ⊢
            rw [hreturned hawaiting.occupied]
            exact hs.held other hother hawaiting
        · intro first hfirst second hsecond hawaiting hawaiting' hfriend hreceipt
          by_cases hsame : first = slot
          · rw [hsame] at hawaiting hfriend hreceipt ⊢
            by_contra hne
            rw [(hothers second hsecond (Ne.symm hne)).1] at hawaiting' hfriend hreceipt
            exact hclash second hsecond (Ne.symm hne) hawaiting hawaiting' hfriend.symm
              hreceipt.symm
          · rw [(hothers first hfirst hsame).1] at hawaiting hfriend hreceipt
            by_cases hsame' : second = slot
            · rw [hsame'] at hawaiting' hfriend hreceipt
              exact absurd hreceipt (hclash first hfirst hsame hawaiting' hawaiting hfriend)
            · rw [(hothers second hsecond hsame').1] at hawaiting' hfriend hreceipt
              exact hs.unique first hfirst second hsecond hawaiting hawaiting' hfriend hreceipt

/-! ## Every run -/

theorem MqReceiptInv.step (hs : MqReceiptInv cap s) (op : MqOp) (hfresh : s.ReturnsFresh cap op) :
    MqReceiptInv cap (s.step cap op) := by
  cases op with
  | enqueue friendnum payload now => exact hs.enqueue friendnum payload now
  | confirm friendnum receipt => exact hs.confirm friendnum receipt
  | service tx now => exact hs.service tx now hfresh
  | foreach => exact hs
  | statsGet => exact hs

/-! ## What a confirmation finds and removes -/

theorem MqReceiptRun.mem_messages (hq : MqCounted cap s.run.queue) {m : ℕ × MqEntry} :
    m ∈ s.messages cap ↔ ∃ slot < cap, (s.run.queue.ring slot).Occupied ∧
      (s.run.ledger.owner slot, s.run.queue.ring slot) = m := by
  simp only [messages, List.mem_map, hq.mem_visited, and_assoc]

theorem MqRun.confirm_eq_of_found {s : MqRun} {friendnum receipt : ℤ} {slot : ℕ}
    (hfriendnum : 0 ≤ friendnum) (hreceipt : 0 ≤ receipt)
    (hfound : mqFindInFlight cap s.queue friendnum receipt = some slot) :
    s.confirm cap friendnum receipt =
      ⟨s.queue.confirmed cap slot, s.ledger.recordConfirm slot⟩ := by
  have hrange : ¬ (friendnum < 0 ∨ receipt < 0) := by omega
  simp only [MqRun.confirm, mqConfirm, hrange, hfound, if_false, if_true]
  rfl

/-- The search finds the message the receipt was returned for, wherever it is stored. -/
theorem MqReceiptInv.find_iff (hs : MqReceiptInv cap s) {friendnum receipt : ℤ} {slot : ℕ} :
    mqFindInFlight cap s.run.queue friendnum receipt = some slot ↔
      slot < cap ∧ s.AwaitsReceipt friendnum receipt
        (s.run.ledger.owner slot, s.run.queue.ring slot) := by
  constructor
  · intro hfound
    obtain ⟨hslot, ⟨hawaiting, hfriend, hreceipt⟩, -⟩ := mqFindInFlight_eq_some.mp hfound
    refine ⟨hslot, hawaiting, hfriend, ?_⟩
    rw [hs.held slot hslot hawaiting, hreceipt]
  · rintro ⟨hslot, hawaiting, hfriend, hreturned⟩
    have hreceipt : (s.run.queue.ring slot).receipt = receipt := by
      have hheld := hs.held slot hslot hawaiting
      exact Option.some.inj (hheld.symm.trans hreturned)
    cases hfound : mqFindInFlight cap s.run.queue friendnum receipt with
    | none =>
        have hnone := List.find?_eq_none.mp hfound slot (List.mem_range.mpr hslot)
        exact absurd (decide_eq_true ⟨hawaiting, hfriend, hreceipt⟩) hnone
    | some other =>
        obtain ⟨hother, ⟨hawaiting', hfriend', hreceipt'⟩, -⟩ := mqFindInFlight_eq_some.mp hfound
        rw [hs.unique other hother slot hslot hawaiting' hawaiting (hfriend'.trans hfriend.symm)
          (hreceipt'.trans hreceipt.symm)]

theorem MqReceiptInv.awaits_iff (hs : MqReceiptInv cap s) {friendnum receipt : ℤ}
    {m : ℕ × MqEntry} :
    m ∈ s.messages cap ∧ s.AwaitsReceipt friendnum receipt m ↔
      ∃ slot, mqFindInFlight cap s.run.queue friendnum receipt = some slot ∧
        (s.run.ledger.owner slot, s.run.queue.ring slot) = m := by
  constructor
  · rintro ⟨hmem, hawaits⟩
    obtain ⟨slot, hslot, -, rfl⟩ :=
      (MqReceiptRun.mem_messages hs.ledger.queue.toMqCounted).mp hmem
    exact ⟨slot, hs.find_iff.mpr ⟨hslot, hawaits⟩, rfl⟩
  · rintro ⟨slot, hfound, rfl⟩
    obtain ⟨hslot, hawaits⟩ := hs.find_iff.mp hfound
    refine ⟨?_, hawaits⟩
    rw [MqReceiptRun.mem_messages hs.ledger.queue.toMqCounted]
    exact ⟨slot, hslot, hawaits.1.occupied, rfl⟩

/-- The message in the slot is taken out of the list, and nothing else changes. -/
theorem MqReceiptInv.messages_confirm (hs : MqReceiptInv cap s) {friendnum receipt : ℤ} {slot : ℕ}
    (hslot : slot < cap) (hawaiting : (s.run.queue.ring slot).Awaiting)
    (hstep : s.run.confirm cap friendnum receipt =
      ⟨s.run.queue.confirmed cap slot, s.run.ledger.recordConfirm slot⟩) :
    ∃ front back,
      s.messages cap = front ++ (s.run.ledger.owner slot, s.run.queue.ring slot) :: back ∧
        (s.step cap (.confirm friendnum receipt)).messages cap = front ++ back := by
  have hq := hs.ledger.queue.toMqCounted
  obtain ⟨front, back, hvisited⟩ :=
    List.append_of_mem (hq.mem_visited.mpr ⟨hslot, hawaiting.occupied⟩)
  have hnodup := hq.nodup_visited
  rw [hvisited, List.nodup_middle, List.nodup_cons, List.mem_append, not_or] at hnodup
  obtain ⟨⟨hfront, hback⟩, -⟩ := hnodup
  have hreleased := hq.visited_release hslot hawaiting.occupied
    { s.run.queue.stats with totalConfirmed := s.run.queue.stats.totalConfirmed + 1 }
  rw [hvisited, filter_ne_split hfront hback] at hreleased
  have hothers {slots : List ℕ} (hnot : slot ∉ slots) :
      (slots.map fun other =>
          (s.run.ledger.owner other, (mqReleaseSlot s.run.queue slot).ring other)) =
        slots.map fun other => (s.run.ledger.owner other, s.run.queue.ring other) := by
    refine List.map_congr_left fun other hmem => ?_
    have hne : other ≠ slot := by
      rintro rfl
      exact hnot hmem
    simp only [mqReleaseSlot]
    rw [Function.update_of_ne hne]
  refine ⟨_, _, by rw [MqReceiptRun.messages, hvisited, List.map_append, List.map_cons], ?_⟩
  simp only [MqReceiptRun.messages, MqReceiptRun.step, MqRun.step, hstep, Mq.confirmed_ring,
    MqLedger.recordConfirm]
  rw [Mq.confirmed, hreleased, List.map_append, hothers hfront, hothers hback]

end

/-- In every run whose transport hands out no receipt that another message in flight to
the friend holds, a confirmation removes the message its receipt was returned for, and
leaves the others where they are; if there is none it changes nothing. -/
theorem mqConfirm_removesExactly {cap : ℕ} (hcap : 0 < cap) (dropFn changeFn : Bool)
    (ops : List MqOp)
    (hfresh : Along (MqReceiptRun.step cap) (MqReceiptRun.ReturnsFresh cap)
      (.start dropFn changeFn) ops)
    (friendnum receipt : ℤ) (hfriendnum : 0 ≤ friendnum) (hreceipt : 0 ≤ receipt) :
    let s := ops.foldl (MqReceiptRun.step cap) (.start dropFn changeFn)
    let result := mqConfirm cap s.run.queue friendnum receipt
    (result.code = mqOk ↔ ∃ m ∈ s.messages cap, s.AwaitsReceipt friendnum receipt m) ∧
      (∀ m ∈ s.messages cap, s.AwaitsReceipt friendnum receipt m →
        ∃ front back, s.messages cap = front ++ m :: back ∧
          (s.step cap (.confirm friendnum receipt)).messages cap = front ++ back) ∧
      (result.code ≠ mqOk →
        result.code < 0 ∧ result.queue = s.run.queue ∧ result.calls = []) := by
  intro s result
  have hs : MqReceiptInv cap s :=
    hfresh.last (fun _ op hinv hop => hinv.step op hop) (mqReceiptRun_start_inv hcap _ _)
  have hrange : ¬ (friendnum < 0 ∨ receipt < 0) := by omega
  cases hfound : mqFindInFlight cap s.run.queue friendnum receipt with
  | none =>
      have hresult : result = ⟨mqErrNotFound, s.run.queue, []⟩ := by
        simp only [result, mqConfirm, hrange, hfound, if_false]
      have hnone (m : ℕ × MqEntry) (hmem : m ∈ s.messages cap) :
          ¬ s.AwaitsReceipt friendnum receipt m := by
        intro hawaits
        obtain ⟨slot, hslot, -⟩ := hs.awaits_iff.mp ⟨hmem, hawaits⟩
        exact absurd (hfound.symm.trans hslot) (by simp)
      have hcode : mqErrNotFound ≠ mqOk := by decide
      have hnegative : mqErrNotFound < 0 := by decide
      rw [hresult]
      refine ⟨iff_of_false hcode ?_, fun m hmem hawaits => absurd hawaits (hnone m hmem),
        fun _ => ⟨hnegative, rfl, rfl⟩⟩
      rintro ⟨m, hmem, hawaits⟩
      exact hnone m hmem hawaits
  | some slot =>
      have hok : result.code = mqOk := by
        simp only [result, mqConfirm, hrange, hfound, if_false]
      have hstep := MqRun.confirm_eq_of_found hfriendnum hreceipt hfound
      obtain ⟨hslot, hawaits⟩ := hs.find_iff.mp hfound
      obtain ⟨hstored, -⟩ := hs.awaits_iff.mpr ⟨slot, hfound, rfl⟩
      refine ⟨iff_of_true hok ⟨_, hstored, hawaits⟩, ?_, fun hcode => absurd hok hcode⟩
      intro m hmem hother
      obtain ⟨other, hfound', rfl⟩ := hs.awaits_iff.mp ⟨hmem, hother⟩
      obtain rfl : slot = other := Option.some.inj (hfound.symm.trans hfound')
      exact hs.messages_confirm hslot hawaits.1 hstep

/-- Two messages for one friend; the receipt of the second comes first. -/
theorem mqConfirm_removesExactly_second :
    let ops : List MqOp := [.enqueue 3 (some [65]) 0, .enqueue 3 (some [66]) 0,
      .service (some fun _ payload _ => if payload = [65] then 7 else 8) 1,
      .service (some fun _ payload _ => if payload = [65] then 7 else 8) 2]
    let s := ops.foldl (MqReceiptRun.step 4) (.start true true)
    (mqConfirm 4 s.run.queue 3 8).code = mqOk ∧
      ∃ m ∈ s.messages 4, s.AwaitsReceipt 3 8 m := by
  intro ops s
  have hfresh : Along (MqReceiptRun.step 4) (MqReceiptRun.ReturnsFresh 4)
      (.start true true) ops :=
    ⟨trivial, trivial, by decide, by decide, trivial⟩
  have hcode : (mqConfirm 4 s.run.queue 3 8).code = mqOk := by decide
  obtain ⟨hiff, -, -⟩ := mqConfirm_removesExactly (by decide) true true ops hfresh 3 8 (by decide)
    (by decide)
  exact ⟨hcode, hiff.mp hcode⟩

end ToxRelayer
