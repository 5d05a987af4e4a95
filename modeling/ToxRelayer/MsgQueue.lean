import ToxRelayer.CString
import Mathlib.Data.Finset.Card

/-!
# The delivery queue

The ring buffer of `msg_queue.c` with `cap` for `MQ_CAPACITY`.  Slots are
numbered below `cap`; a `time_t` is an integer.  An entry point returns, beside
its code and the new queue, the calls it made to the hooks and the transport.
-/

namespace ToxRelayer

open CString

def mqPayloadMax : ℕ := 1372
def mqAckTimeoutSec : ℤ := 25
def mqRetryBackoffSec : ℤ := 1
def mqMaxAttempts : ℕ := 8

def mqOk : ℤ := 0
def mqErrRange : ℤ := -1
def mqErrFull : ℤ := -2
def mqErrNotFound : ℤ := -3

def mqSendFatal : ℤ := -1

inductive MqSlotState where
  | free
  | pending
  | awaitingAck
  deriving DecidableEq

/-- `payload` holds the array up to the NUL the queue itself writes. -/
structure MqEntry where
  len : ℕ
  enqueuedAt : ℤ
  lastAttempt : ℤ
  receipt : ℤ
  friendnum : ℤ
  attempts : ℕ
  state : MqSlotState
  attempted : Bool
  payload : Bytes
  deriving DecidableEq

/-- The counters of `mq_stats` the queue maintains. -/
structure MqStats where
  totalEnqueued : ℕ
  totalSent : ℕ
  totalConfirmed : ℕ
  totalDropped : ℕ
  totalFullRejections : ℕ
  deriving DecidableEq

structure Mq where
  ring : ℕ → MqEntry
  head : ℕ
  tail : ℕ
  count : ℕ
  inFlight : ℕ
  stats : MqStats
  dropFn : Bool
  changeFn : Bool

inductive MqCall where
  | drop (friendnum : ℤ) (attempts : ℕ)
  | change
  | transport (friendnum : ℤ) (payload : Bytes) (len : ℕ)
  deriving DecidableEq

structure MqReturn where
  code : ℤ
  queue : Mq
  calls : List MqCall

def mqInit : Mq where
  ring := fun _ => ⟨0, 0, 0, -1, 0, 0, .free, false, []⟩
  head := 0
  tail := 0
  count := 0
  inFlight := 0
  stats := ⟨0, 0, 0, 0, 0⟩
  dropFn := false
  changeFn := false

def mqSetDropHook (q : Mq) (installed : Bool) : Mq := { q with dropFn := installed }

def mqSetChangeHook (q : Mq) (installed : Bool) : Mq := { q with changeFn := installed }

def Mq.setEntry (q : Mq) (slot : ℕ) (e : MqEntry) : Mq :=
  { q with ring := Function.update q.ring slot e }

def mqNotifyChange (q : Mq) : List MqCall :=
  if q.changeFn then [.change] else []

/-- Release a slot and account for it. -/
def mqReleaseSlot (q : Mq) (slot : ℕ) : Mq :=
  let e := q.ring slot
  { q with
    inFlight := if e.state = .awaitingAck then q.inFlight - 1 else q.inFlight
    count := q.count - 1
    ring := Function.update q.ring slot
      { e with state := .free, receipt := -1, len := 0, attempts := 0, attempted := false,
               payload := [] } }

/-- Retire a message that exhausted its attempt budget. -/
def mqRetire (q : Mq) (slot : ℕ) : Mq × List MqCall :=
  let e := q.ring slot
  let released := mqReleaseSlot q slot
  let dropped := if q.dropFn then [MqCall.drop e.friendnum e.attempts] else []
  ({ released with stats := { q.stats with totalDropped := q.stats.totalDropped + 1 } },
    dropped ++ mqNotifyChange q)

/-- The loop of `mq_find_free_slot` -/
def mqFindFreeLoop (cap : ℕ) (ring : ℕ → MqEntry) : ℕ → ℕ → Option ℕ × ℕ
  | 0, tail => (none, tail)
  | rounds + 1, tail =>
      if (ring tail).state = .free then (some tail, tail)
      else mqFindFreeLoop cap ring rounds ((tail + 1) % cap)

/-- Advance the tail to a free slot. -/
def mqFindFreeSlot (cap : ℕ) (q : Mq) : Option ℕ × Mq :=
  let found := mqFindFreeLoop cap q.ring cap q.tail
  (found.1, { q with tail := found.2 })

/-- The loop of `mq_advance_head`.  One turn of the ring is enough when a slot
is occupied. -/
def mqAdvanceLoop (cap : ℕ) (ring : ℕ → MqEntry) : ℕ → ℕ → ℕ
  | 0, head => head
  | rounds + 1, head =>
      if (ring head).state = .free then mqAdvanceLoop cap ring rounds ((head + 1) % cap)
      else head

def mqAdvanceHead (cap : ℕ) (q : Mq) : Mq :=
  if q.count = 0 then { q with head := q.tail }
  else { q with head := mqAdvanceLoop cap q.ring cap q.head }

/-- The slots `mq_foreach` visits, in order. -/
def mqVisited (cap : ℕ) (q : Mq) : List ℕ :=
  (((List.range cap).map fun i => (q.head + i) % cap).filter fun slot =>
    (q.ring slot).state ≠ .free).take q.count

/-- `mq_foreach`: the arguments of the calls it makes. -/
def mqForeach (cap : ℕ) (q : Mq) : List (ℤ × Bytes × ℕ) :=
  (mqVisited cap q).map fun slot =>
    ((q.ring slot).friendnum, (q.ring slot).payload, (q.ring slot).len)

/-- `mq_stats_get`: capacity, occupancy, messages in flight and the counters. -/
def mqStatsGet (cap : ℕ) (q : Mq) : ℕ × ℕ × ℕ × MqStats :=
  (cap, q.count, q.inFlight, q.stats)

def mqNewEntry (friendnum : ℤ) (payload : Bytes) (now : ℤ) : MqEntry where
  len := payload.length
  enqueuedAt := now
  lastAttempt := 0
  receipt := -1
  friendnum := friendnum
  attempts := 0
  state := .pending
  attempted := false
  payload := payload

/-- `payload` is the pointer together with the `len` bytes behind it. -/
def mqEnqueue (cap : ℕ) (q : Mq) (friendnum : ℤ) (payload : Option Bytes) (now : ℤ) :
    MqReturn :=
  match payload with
  | none => ⟨mqErrRange, q, []⟩
  | some payload =>
      if friendnum < 0 ∨ payload.length = 0 ∨ mqPayloadMax ≤ payload.length then
        ⟨mqErrRange, q, []⟩
      else
        match mqFindFreeSlot cap q with
        | (none, q) =>
            ⟨mqErrFull, { q with
              stats := { q.stats with
                totalFullRejections := q.stats.totalFullRejections + 1 } }, []⟩
        | (some slot, q) =>
            ⟨mqOk,
              { q with
                ring := Function.update q.ring slot (mqNewEntry friendnum payload now)
                count := q.count + 1
                stats := { q.stats with totalEnqueued := q.stats.totalEnqueued + 1 }
                head := if q.count + 1 = 1 then slot else q.head
                tail := (slot + 1) % cap },
              mqNotifyChange q⟩

/-- The slot the loop of `mq_confirm` stops at. -/
def mqFindInFlight (cap : ℕ) (q : Mq) (friendnum receipt : ℤ) : Option ℕ :=
  (List.range cap).find? fun slot =>
    (q.ring slot).state = .awaitingAck ∧ (q.ring slot).friendnum = friendnum ∧
      (q.ring slot).receipt = receipt

def mqConfirm (cap : ℕ) (q : Mq) (friendnum receipt : ℤ) : MqReturn :=
  if friendnum < 0 ∨ receipt < 0 then ⟨mqErrRange, q, []⟩
  else
    match mqFindInFlight cap q friendnum receipt with
    | none => ⟨mqErrNotFound, q, []⟩
    | some slot =>
        let released := mqReleaseSlot q slot
        ⟨mqOk,
          mqAdvanceHead cap { released with
            stats := { q.stats with totalConfirmed := q.stats.totalConfirmed + 1 } },
          mqNotifyChange q⟩

inductive MqOutcome where
  | idle
  | sent
  | deferred
  | dropped
  deriving DecidableEq

/-- What `mq_service` returns; `slot` is the one it acted on. -/
structure MqServiced where
  outcome : MqOutcome
  queue : Mq
  slot : Option ℕ
  calls : List MqCall

/-- The end of one round of the scan: go on to the next slot, or return. -/
inductive MqInspected where
  | skip (q : Mq)
  | acted (serviced : MqServiced)

def mqDrop (cap : ℕ) (q : Mq) (slot : ℕ) (calls : List MqCall) : MqServiced :=
  let retired := mqRetire q slot
  ⟨.dropped, mqAdvanceHead cap retired.1, some slot, calls ++ retired.2⟩

/-- Hand a pending message to the transport. -/
def mqAttempt (cap : ℕ) (tx : ℤ → Bytes → ℕ → ℤ) (now : ℤ) (q : Mq) (slot : ℕ) : MqServiced :=
  let e := q.ring slot
  let rc := tx e.friendnum e.payload e.len
  let calls := [MqCall.transport e.friendnum e.payload e.len]
  let tried := { e with lastAttempt := now, attempted := true }
  if 0 ≤ rc then
    ⟨.sent,
      { q.setEntry slot { tried with receipt := rc, state := .awaitingAck } with
        inFlight := q.inFlight + 1
        stats := { q.stats with totalSent := q.stats.totalSent + 1 } },
      some slot, calls⟩
  else
    let q := q.setEntry slot { tried with attempts := e.attempts + 1 }
    if rc = mqSendFatal ∨ mqMaxAttempts ≤ e.attempts + 1 then mqDrop cap q slot calls
    else ⟨.deferred, q, some slot, calls⟩

/-- The acknowledgement window has passed: the message is pending again. -/
def mqExpire (q : Mq) (slot : ℕ) : Mq :=
  let e := q.ring slot
  { q.setEntry slot { e with receipt := -1, state := .pending, attempts := e.attempts + 1 } with
    inFlight := q.inFlight - 1 }

/-- The backoff test and the attempt, for an entry that is pending. -/
def mqTryPending (cap : ℕ) (tx : ℤ → Bytes → ℕ → ℤ) (now : ℤ) (q : Mq) (slot : ℕ) :
    MqInspected :=
  let e := q.ring slot
  if e.attempted ∧ now - e.lastAttempt < mqRetryBackoffSec then .skip q
  else .acted (mqAttempt cap tx now q slot)

/-- One round of the scan in `mq_service` -/
def mqInspect (cap : ℕ) (tx : ℤ → Bytes → ℕ → ℤ) (now : ℤ) (q : Mq) (slot : ℕ) :
    MqInspected :=
  let e := q.ring slot
  match e.state with
  | .free => .skip q
  | .awaitingAck =>
      if now - e.lastAttempt < mqAckTimeoutSec then .skip q
      else
        let q := mqExpire q slot
        if mqMaxAttempts ≤ e.attempts + 1 then .acted (mqDrop cap q slot [])
        else mqTryPending cap tx now q slot
  | .pending => mqTryPending cap tx now q slot

def mqServiceLoop (cap : ℕ) (tx : ℤ → Bytes → ℕ → ℤ) (now : ℤ) : ℕ → ℕ → Mq → MqServiced
  | 0, _, q => ⟨.idle, q, none, []⟩
  | rounds + 1, slot, q =>
      match mqInspect cap tx now q slot with
      | .skip q => mqServiceLoop cap tx now rounds ((slot + 1) % cap) q
      | .acted serviced => serviced

def mqService (cap : ℕ) (q : Mq) (tx : Option (ℤ → Bytes → ℕ → ℤ)) (now : ℤ) : MqServiced :=
  match tx with
  | none => ⟨.idle, q, none, []⟩
  | some tx =>
      if q.count = 0 then ⟨.idle, q, none, []⟩
      else
        let q := mqAdvanceHead cap q
        mqServiceLoop cap tx now cap q.head q

end ToxRelayer
