import ToxRelayer.ControlRoundTrip
import ToxRelayer.Replay
import ToxRelayer.TrackerStream

/-!
# Two relays joined by a channel

Relay `A` sends numbered telegrams to relay `B`.  The channel keeps everything
that was ever queued on it and hands over any of it at any time, again and
again or never.
-/

namespace ToxRelayer

open CString
open NumberedStream (Followable)

/-! ## The two ends -/

/-- Both environments, and what `A` sends: telegram `k` has the serial `k` steps
after `start`.  `outgoing` is the history that `A` has stored in its context, and
`handle` the tracker that `B` keeps for the channel. -/
structure Link (σA σB : Type) where
  envA : RelayEnv σA
  envB : RelayEnv σB
  channelA : ℤ
  channelB : ℤ
  keyA : CStr
  keyB : CStr
  outgoing : σA → List RelayRecord
  handle : ℕ
  start : ℤ
  total : ℕ
  timestamp : ℕ → Int64
  body : ℕ → CStr

namespace Link

variable {σA σB : Type} (link : Link σA σB)

def record (k : ℕ) : RelayRecord :=
  ⟨tgSerialAt link.start k, link.timestamp k, link.body k⟩

/-- A record as `A` puts it on the wire, the first time or for a replay. -/
def encode (record : RelayRecord) : TgEncoded :=
  tgEncodeText relayWireMax (some link.keyB) (some link.keyA) record.sn record.timestamp
    (some record.body)

def wire (k : ℕ) : Bytes := (link.encode (link.record k)).wire

/-- The control record of `B` that asks for telegrams `first` to `last`. -/
def request (first last : ℕ) : Bytes :=
  tgCmdRecord link.keyA link.keyB (tgSerialAt link.start first) (tgSerialAt link.start last)

/-- The call that stores telegram `k` at `B`, unaltered. -/
def storeCall (k : ℕ) : RelayCall :=
  .store link.channelB (tgSerialAt link.start k) (link.timestamp k) link.keyA (link.body k)

/-- Each relay knows the other by its key, no call fails, and `A` finds what it
has stored. -/
structure Wired : Prop where
  channelA_nonneg : 0 ≤ link.channelA
  channelB_nonneg : 0 ≤ link.channelB
  keyA_ok : tgFieldOk (some link.keyA) = true
  keyB_ok : tgFieldOk (some link.keyB) = true
  selfA : link.envA.selfPublicKey = some link.keyA
  selfB : link.envB.selfPublicKey = some link.keyB
  peerA : ∃ peerKey, link.envA.peerKey = some peerKey ∧
    ∀ ctx, peerKey ctx link.channelA = some link.keyB
  peerB : ∃ peerKey, link.envB.peerKey = some peerKey ∧
    ∀ ctx, peerKey ctx link.channelB = some link.keyA
  enqueueA : ∃ enqueue, link.envA.enqueue = some enqueue ∧ ∀ ctx payload now,
    (enqueue ctx link.channelA payload now).1 = 0 ∧
      link.outgoing (enqueue ctx link.channelA payload now).2 = link.outgoing ctx
  enqueueB : ∃ enqueue, link.envB.enqueue = some enqueue ∧ ∀ ctx payload now,
    (enqueue ctx link.channelB payload now).1 = 0
  fetchA : ∃ fetchRange, link.envA.fetchRange = some fetchRange ∧ ∀ ctx start target max,
    let found := ((link.outgoing ctx).filter fun record =>
      inSnRange start target record.sn).take max
    fetchRange ctx link.channelA start target max = ((found.length : ℤ), found)
  trackerB : ∃ tracker, link.envB.tracker = some tracker ∧
    ∀ ctx, tracker ctx link.channelB = some link.handle
  storeB : link.envB.store.isSome = true
  start_valid : tgSnValid link.start
  total_le : link.total ≤ 499
  roundTrips : ∀ k < link.total, TgTextRoundTrips relayWireMax link.keyB link.keyA
    (tgSerialAt link.start k) (link.timestamp k) (some (link.body k))

end Link

/-! ## The channel -/

def RelayCall.isStore : RelayCall → Bool
  | .store _ _ _ _ _ => true
  | _ => false

/-- The payload of a call that queues on the given channel. -/
def RelayCall.queuedOn (channel : ℤ) : RelayCall → Option Bytes
  | .enqueue destination payload => if destination = channel then some payload else none
  | _ => none

/-- `sent` counts the telegrams `A` has sent.  `requests` and `replays` are the
payloads `B` and `A` have queued, `served` and `arrived` the payloads that have
reached `A` and `B`, and `stored` the calls of `B` to `store`. -/
structure LinkState (σA σB : Type) where
  a : RelayState σA
  b : RelayState σB
  sent : ℕ
  requests : List Bytes
  replays : List Bytes
  served : List Bytes
  arrived : List Bytes
  stored : List RelayCall

namespace Link

variable {σA σB : Type} (link : Link σA σB)

def reachB (s : LinkState σA σB) (payload : Bytes) (now : ℤ) : LinkState σA σB :=
  let step := relayReceive link.envB s.b link.channelB payload now
  { s with
    b := step.state
    requests := s.requests ++ step.calls.filterMap (RelayCall.queuedOn link.channelB)
    arrived := s.arrived ++ [payload]
    stored := s.stored ++ step.calls.filter RelayCall.isStore }

def reachA (s : LinkState σA σB) (payload : Bytes) (now : ℤ) : LinkState σA σB :=
  let step := relayReceive link.envA s.a link.channelA payload now
  { s with
    a := step.state
    replays := s.replays ++ step.calls.filterMap (RelayCall.queuedOn link.channelA)
    served := s.served ++ [payload] }

/-- The numbers of the telegrams that have reached `B`. -/
def arrivedNumbers (s : LinkState σA σB) : Finset ℕ :=
  (Finset.range link.total).filter fun k => link.wire k ∈ s.arrived

structure Initial (s : LinkState σA σB) : Prop where
  outgoing : link.outgoing s.a.ctx = []
  tracker : ∃ firstExpected, s.b.trackers link.handle = snTrackerInit firstExpected
  sent : s.sent = 0
  requests : s.requests = []
  replays : s.replays = []
  served : s.served = []
  arrived : s.arrived = []
  stored : s.stored = []

/-- `A` sends and stores its next telegram, or something that was queued
arrives.  Arrivals at `B` begin with the first telegram, skip at most
`RELAY_MAX_GAP` serials and leave at most `SN_MAX_PENDING` outstanding. -/
inductive Step : LinkState σA σB → LinkState σA σB → Prop
  | send {s : LinkState σA σB} (ctx : σA) (hmore : s.sent < link.total)
      (hstored : link.outgoing ctx = link.outgoing s.a.ctx ++ [link.record s.sent]) :
      Step s { s with a := { s.a with ctx := ctx }, sent := s.sent + 1 }
  | reachB {s : LinkState σA σB} (payload : Bytes) (now : ℤ)
      (hqueued : payload ∈ (List.range s.sent).map link.wire ∨ payload ∈ s.replays)
      (hfollowable : ∀ k < link.total, payload = link.wire k →
        Followable relayMaxGap snMaxPending (link.arrivedNumbers s) k) :
      Step s (link.reachB s payload now)
  | reachA {s : LinkState σA σB} (payload : Bytes) (now : ℤ) (hqueued : payload ∈ s.requests) :
      Step s (link.reachA s payload now)

end Link

/-! ## One delivery -/

section

variable {σ : Type} {env : RelayEnv σ} {s : RelayState σ} {channel : ℤ}

theorem relayAccept_of_handle {handle : ℕ}
    (hhandle : env.tracker.bind (fun tracker => tracker s.ctx channel) = some handle) (sn : ℤ) :
    let verdict := snTrackerAccept (s.trackers handle) sn relayMaxGap
    relayAccept env s channel sn = (verdict.result, verdict.gapFrom, verdict.gapTo,
      { s with trackers := Function.update s.trackers handle verdict.tracker }) := by
  simp only [relayAccept, hhandle]

@[simp] theorem relayStore_trackers (tg : TgMessage) :
    (relayStore env s channel tg).1.trackers = s.trackers := by
  unfold relayStore
  split <;> rfl

theorem relayStore_calls (hstore : env.store.isSome = true) (tg : TgMessage) :
    (relayStore env s channel tg).2 =
      [.store channel tg.sn tg.timestamp tg.sender tg.body] := by
  obtain ⟨store, hsome⟩ := Option.isSome_iff_exists.mp hstore
  simp only [relayStore, hsome]

@[simp] theorem relayRemember_trackers (sn : ℤ) :
    (relayRemember env s channel sn).1.trackers = s.trackers := by
  unfold relayRemember
  split <;> rfl

@[simp] theorem relayRemember_stores (sn : ℤ) :
    (relayRemember env s channel sn).2.filter RelayCall.isStore = [] := by
  unfold relayRemember
  split <;> rfl

@[simp] theorem relayRemember_queued (sn destination : ℤ) :
    (relayRemember env s channel sn).2.filterMap (RelayCall.queuedOn destination) = [] := by
  unfold relayRemember
  split <;> rfl

@[simp] theorem relayRequestGap_trackers (start target now : ℤ) :
    (relayRequestGap env s channel start target now).state.trackers = s.trackers := by
  unfold relayRequestGap
  split
  · split
    · rfl
    · dsimp only
      split <;> rfl
  · rfl

@[simp] theorem relayRequestGap_stores (start target now : ℤ) :
    (relayRequestGap env s channel start target now).calls.filter RelayCall.isStore = [] := by
  unfold relayRequestGap
  split
  · split
    · rfl
    · dsimp only
      split <;> rfl
  · rfl

theorem relayAccount_calls (channel : ℤ) (hstore : env.store.isSome = true) (tg : TgMessage)
    (sn : ℤ) :
    let calls := (relayStore env s channel tg).2 ++
      (relayRemember env (relayStore env s channel tg).1 channel sn).2
    calls.filter RelayCall.isStore = [.store channel tg.sn tg.timestamp tg.sender tg.body] ∧
      calls.filterMap (RelayCall.queuedOn channel) = [] := by
  intro calls
  simp only [calls]
  rw [relayStore_calls hstore, List.filter_append, List.filterMap_append, relayRemember_stores,
    relayRemember_queued]
  exact ⟨rfl, rfl⟩

/-- A telegram addressed to us is stored unless it is a duplicate, and a gap
before it is asked for. -/
theorem relayDeliver_spec {handle : ℕ}
    (hhandle : env.tracker.bind (fun tracker => tracker s.ctx channel) = some handle)
    (hstore : env.store.isSome = true) (tg : TgMessage) (now : ℤ) :
    let verdict := snTrackerAccept (s.trackers handle) tg.sn relayMaxGap
    let step := relayDeliver env s channel tg now
    step.state.trackers handle = verdict.tracker ∧
      step.calls.filter RelayCall.isStore =
        (if verdict.result = .duplicate then []
          else [.store channel tg.sn tg.timestamp tg.sender tg.body]) ∧
      (verdict.result ≠ .gap → step.calls.filterMap (RelayCall.queuedOn channel) = []) ∧
      (verdict.result = .gap → ∃ s', step.calls.filterMap (RelayCall.queuedOn channel) =
        (relayRequestGap env s' channel verdict.gapFrom verdict.gapTo now).calls.filterMap
          (RelayCall.queuedOn channel)) := by
  have haccept := relayAccept_of_handle hhandle tg.sn
  dsimp only at haccept ⊢
  simp only [relayDeliver, haccept]
  generalize snTrackerAccept (s.trackers handle) tg.sn relayMaxGap = verdict
  let accepted : RelayState σ :=
    { s with trackers := Function.update s.trackers handle verdict.tracker }
  let remembered := (relayRemember env (relayStore env accepted channel tg).1 channel tg.sn).1
  obtain ⟨hstored, hqueued⟩ := relayAccount_calls (s := accepted) channel hstore tg tg.sn
  have htracker : accepted.trackers handle = verdict.tracker := Function.update_self _ _ _
  cases hresult : verdict.result with
  | duplicate => exact ⟨htracker, rfl, fun _ => rfl, fun hgap => by cases hgap⟩
  | gap =>
      simp only [reduceCtorEq, if_false]
      refine ⟨?_, ?_, fun hne => absurd rfl hne, fun _ => ⟨remembered, ?_⟩⟩
      · rw [relayRequestGap_trackers, relayRemember_trackers, relayStore_trackers]
        exact htracker
      · rw [List.filter_append, relayRequestGap_stores, List.append_nil]
        exact hstored
      · rw [List.filterMap_append, hqueued, List.nil_append]
  | inOrder | resync | recovered =>
      simp only [reduceCtorEq, if_false]
      refine ⟨?_, hstored, fun _ => hqueued, fun hgap => by cases hgap⟩
      rw [relayRemember_trackers, relayStore_trackers]
      exact htracker

theorem relayRequestGap_calls {peer self : CStr} {enqueue : σ → ℤ → Bytes → ℤ → ℤ × σ}
    {peerKey : σ → ℤ → Option CStr} {start target : ℤ} (now : ℤ)
    (hself : env.selfPublicKey = some self) (henqueue : env.enqueue = some enqueue)
    (hkey : env.peerKey = some peerKey) (hpeer : peerKey s.ctx channel = some peer)
    (hpeerOk : tgFieldOk (some peer) = true) (hselfOk : tgFieldOk (some self) = true)
    (hstart : tgSnValid start) (htarget : tgSnValid target) :
    (relayRequestGap env s channel start target now).calls =
      [.enqueue channel (tgCmdRecord peer self start target)] := by
  obtain ⟨-, hencoded⟩ := tgEncodeCmd_of_valid (show 300 ≤ relayWireMax by decide) hpeerOk hselfOk
    hstart htarget
  have hpositive : ¬ ((tgCmdRecord peer self start target).length : ℤ) ≤ 0 := by
    have hheader : 0 < (bytes "ZCZC CMD").length := by decide
    rw [tgCmdRecord, List.length_append]
    omega
  simp only [relayRequestGap, henqueue, hkey, hpeer, hself, hencoded, hpositive, if_false,
    TgEncoded.wire, Int.toNat_natCast, List.take_length]

/-- Every record that can be encoded is queued; whatever queuing leaves alone
stays as it is. -/
theorem relayReplayLoop_calls {View : Type} {view : σ → View} {peer : CStr}
    {self : Option CStr} {enqueue : σ → ℤ → Bytes → ℤ → ℤ × σ} (now : ℤ)
    (hview : ∀ ctx payload now, view (enqueue ctx channel payload now).2 = view ctx)
    {records : List RelayRecord} (hencodes : ∀ record ∈ records,
      0 < (tgEncodeText relayWireMax (some peer) self record.sn record.timestamp
        (some record.body)).code) (ctx : σ) :
    view (relayReplayLoop enqueue channel peer self now records ctx).2.1 = view ctx ∧
      (relayReplayLoop enqueue channel peer self now records ctx).2.2 =
        records.map fun record => .enqueue channel (tgEncodeText relayWireMax (some peer) self
          record.sn record.timestamp (some record.body)).wire := by
  induction records generalizing ctx with
  | nil => exact ⟨rfl, rfl⟩
  | cons record records ih =>
      have hfirst := hencodes record List.mem_cons_self
      obtain ⟨hkept, hcalls⟩ := ih (fun other hmem => hencodes other (List.mem_cons_of_mem _ hmem))
        (enqueue ctx channel (tgEncodeText relayWireMax (some peer) self record.sn
          record.timestamp (some record.body)).wire now).2
      simp only [relayReplayLoop]
      rw [if_neg (by omega)]
      refine ⟨hkept.trans (hview _ _ _), ?_⟩
      rw [hcalls, List.map_cons]

end

/-! ## What an arrival does -/

namespace Link

variable {σA σB : Type} {link : Link σA σB} (hwired : link.Wired)

include hwired

theorem Wired.wire_decodes {k : ℕ} (hk : k < link.total) :
    ∃ tg, tgDecode (link.wire k) = some tg ∧ tg.kind = .text ∧ tg.receiver = link.keyB ∧
      tg.sender = link.keyA ∧ tg.sn = tgSerialAt link.start k ∧
      tg.timestamp = link.timestamp k ∧ tg.body = link.body k := by
  obtain ⟨tg, hdecode, hkind, hreceiver, hsender, hsn, htimestamp, hbody⟩ :=
    hwired.roundTrips k hk
  exact ⟨tg, hdecode, hkind, hreceiver, hsender, hsn, htimestamp, CStr.ext hbody⟩

theorem Wired.encodes {k : ℕ} (hk : k < link.total) :
    0 < (link.encode (link.record k)).code := by
  obtain ⟨tg, hdecode, -⟩ := hwired.wire_decodes hk
  by_contra hcode
  have hempty : link.wire k = [] := by
    rw [wire, TgEncoded.wire, Int.toNat_of_nonpos (by omega), List.take_zero]
  rw [hempty] at hdecode
  cases hdecode

theorem Wired.serial_inj {i j : ℕ} (hi : i < link.total) (hj : j < link.total)
    (hserial : tgSerialAt link.start i = tgSerialAt link.start j) : i = j := by
  have htotal := hwired.total_le
  exact tgSerialAt_inj_of_near hwired.start_valid hserial (by omega) (by omega)

theorem Wired.wire_inj {i j : ℕ} (hi : i < link.total) (hj : j < link.total)
    (hwire : link.wire i = link.wire j) : i = j := by
  obtain ⟨tgI, hdecodeI, -, -, -, hsnI, -⟩ := hwired.wire_decodes hi
  obtain ⟨tgJ, hdecodeJ, -, -, -, hsnJ, -⟩ := hwired.wire_decodes hj
  rw [hwire, hdecodeJ] at hdecodeI
  cases hdecodeI
  exact hwired.serial_inj hi hj (hsnI.symm.trans hsnJ)

theorem Wired.request_decodes (first last : ℕ) :
    tgDecode (link.request first last) =
      some { kind := .cmd, receiver := link.keyA, sender := link.keyB,
             sn := tgSerialAt link.start first, snTo := tgSerialAt link.start last,
             timestamp := 0, body := CStr.empty } :=
  tgDecode_tgCmdRecord hwired.keyA_ok hwired.keyB_ok (tgSerialAt_valid hwired.start_valid first)
    (tgSerialAt_valid hwired.start_valid last)

theorem Wired.request_inj {first last first' last' : ℕ} (hfirst : first ≤ last)
    (hlast : last < link.total) (hfirst' : first' ≤ last') (hlast' : last' < link.total)
    (hrequest : link.request first last = link.request first' last') :
    first = first' ∧ last = last' := by
  have hdecode := hwired.request_decodes first last
  rw [hrequest, hwired.request_decodes first' last', Option.some.injEq, TgMessage.mk.injEq]
    at hdecode
  obtain ⟨-, -, -, hsn, hsnTo, -⟩ := hdecode
  exact ⟨hwired.serial_inj (by omega) (by omega) hsn.symm,
    hwired.serial_inj hlast hlast' hsnTo.symm⟩

/-- A telegram of `A` that reaches `B` goes through the tracker of the channel. -/
theorem Wired.reachB_wire {k : ℕ} (hk : k < link.total) (s : LinkState σA σB) (now : ℤ) :
    let verdict := snTrackerAccept (s.b.trackers link.handle) (tgSerialAt link.start k)
      relayMaxGap
    let after := link.reachB s (link.wire k) now
    after.b.trackers link.handle = verdict.tracker ∧
      after.stored = s.stored ++
        (if verdict.result = .duplicate then [] else [link.storeCall k]) ∧
      (verdict.result ≠ .gap → after.requests = s.requests) ∧
      (verdict.result = .gap → tgSnValid verdict.gapFrom → tgSnValid verdict.gapTo →
        after.requests = s.requests ++
          [tgCmdRecord link.keyA link.keyB verdict.gapFrom verdict.gapTo]) := by
  obtain ⟨tg, hdecode, hkind, hreceiver, hsender, hsn, htimestamp, hbody⟩ :=
    hwired.wire_decodes hk
  obtain ⟨tracker, htracker, hhandle⟩ := hwired.trackerB
  obtain ⟨enqueue, henqueue, -⟩ := hwired.enqueueB
  obtain ⟨peerKey, hkey, hpeer⟩ := hwired.peerB
  have hguard : ¬ (link.wire k = [] ∨ link.channelB < 0) := by
    have hchannel := hwired.channelB_nonneg
    rintro (hempty | hnegative)
    · rw [hempty] at hdecode
      cases hdecode
    · omega
  have hreceive : relayReceive link.envB s.b link.channelB (link.wire k) now =
      relayDeliver link.envB s.b link.channelB tg now := by
    simp only [relayReceive, hwired.selfB, hguard, if_false, hdecode, hkind, hreceiver, if_true]
  have hbound : link.envB.tracker.bind (fun tracker => tracker s.b.ctx link.channelB) =
      some link.handle := by
    rw [htracker]
    exact hhandle s.b.ctx
  have hdeliver := relayDeliver_spec hbound hwired.storeB tg now
  rw [hsn, htimestamp, hsender, hbody] at hdeliver
  dsimp only at hdeliver ⊢
  obtain ⟨hafter, hstored, hquiet, hasked⟩ := hdeliver
  simp only [Link.reachB, hreceive]
  refine ⟨hafter, by rw [hstored]; rfl, ?_, ?_⟩
  · intro hgap
    rw [hquiet hgap, List.append_nil]
  · intro hgap hfrom hto
    obtain ⟨s', hcalls⟩ := hasked hgap
    rw [hcalls, relayRequestGap_calls now hwired.selfB henqueue hkey (hpeer s'.ctx)
      hwired.keyA_ok hwired.keyB_ok hfrom hto]
    simp [RelayCall.queuedOn]

/-- The numbers whose serials lie in a range of serials. -/
def numbersAsked (link : Link σA σB) (sent first last : ℕ) : List ℕ :=
  (List.range sent).filter fun k =>
    inSnRange (tgSerialAt link.start first) (tgSerialAt link.start last)
      (tgSerialAt link.start k)

theorem Wired.reachA_request {s : LinkState σA σB} (first last : ℕ) (now : ℤ)
    (hsent : s.sent ≤ link.total)
    (hstored : link.outgoing s.a.ctx = (List.range s.sent).map link.record) :
    let after := link.reachA s (link.request first last) now
    link.outgoing after.a.ctx = link.outgoing s.a.ctx ∧
      after.replays = s.replays ++
        ((link.numbersAsked s.sent first last).take relayMaxReplay).map link.wire := by
  obtain ⟨fetchRange, hfetch, hfound⟩ := hwired.fetchA
  obtain ⟨enqueue, henqueue, hkept⟩ := hwired.enqueueA
  obtain ⟨peerKey, hkey, hpeer⟩ := hwired.peerA
  have hdecode := hwired.request_decodes first last
  have hguard : ¬ (link.request first last = [] ∨ link.channelA < 0) := by
    have hchannel := hwired.channelA_nonneg
    rintro (hempty | hnegative)
    · rw [hempty] at hdecode
      cases hdecode
    · omega
  let cmd : TgMessage :=
    { kind := .cmd, receiver := link.keyA, sender := link.keyB,
      sn := tgSerialAt link.start first, snTo := tgSerialAt link.start last,
      timestamp := 0, body := CStr.empty }
  have hreceive : relayReceive link.envA s.a link.channelA (link.request first last) now =
      relayServeReplay link.envA s.a link.channelA cmd now := by
    simp only [relayReceive, hwired.selfA, hguard, if_false, hdecode, ne_eq, not_true]
    rfl
  let numbers := (link.numbersAsked s.sent first last).take relayMaxReplay
  have hfetched : fetchRange s.a.ctx link.channelA cmd.sn cmd.snTo relayMaxReplay =
      (((numbers.map link.record).length : ℤ), numbers.map link.record) := by
    have hrecords : ((link.outgoing s.a.ctx).filter fun record =>
        inSnRange cmd.sn cmd.snTo record.sn).take relayMaxReplay = numbers.map link.record := by
      rw [hstored, List.filter_map, ← List.map_take]
      rfl
    have hanswer := hfound s.a.ctx cmd.sn cmd.snTo relayMaxReplay
    dsimp only at hanswer
    rw [hanswer, hrecords]
  obtain ⟨hstate, hcalls⟩ := relayServeReplay_of_fetched now hfetch henqueue hkey
    (hpeer s.a.ctx) hfetched
  have hencodes : ∀ record ∈ numbers.map link.record,
      0 < (tgEncodeText relayWireMax (some link.keyB) link.envA.selfPublicKey record.sn
        record.timestamp (some record.body)).code := by
    intro record hrecord
    obtain ⟨k, hk, rfl⟩ := List.mem_map.mp hrecord
    have hrange := List.mem_range.mp (List.mem_of_mem_filter (List.mem_of_mem_take hk))
    rw [hwired.selfA]
    exact hwired.encodes (by omega)
  obtain ⟨hview, hqueued⟩ := relayReplayLoop_calls now
    (fun ctx payload now => (hkept ctx payload now).2) hencodes s.a.ctx
  simp only [Link.reachA, hreceive, hstate, hcalls, hqueued]
  refine ⟨hview, ?_⟩
  rw [List.map_map, List.filterMap_map, ← List.filterMap_eq_map]
  refine congrArg (fun payload => s.replays ++ numbers.filterMap payload) ?_
  funext k
  simp only [Function.comp_apply, RelayCall.queuedOn, if_true, hwired.selfA]
  rfl

end Link

end ToxRelayer
