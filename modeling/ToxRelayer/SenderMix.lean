import ToxRelayer.RoutingSeparation

/-!
# Several senders on one channel

The receive tracker belongs to the channel, the serial to the sender.  Streams
that are each in order and complete disturb each other on one channel unless the
serials of the mixed stream happen to follow on.
-/

namespace ToxRelayer

open CString

/-! ## The streams and their interleavings -/

/-- Telegram `k` of each sender, as a record and decoded. -/
structure Senders (ι : Type) where
  key : ι → CStr
  first : ι → ℤ
  record : ι → ℕ → Bytes
  telegram : ι → ℕ → TgMessage

namespace Senders

variable {ι : Type} (senders : Senders ι)

/-- Every sender addresses its telegrams to the key and numbers them
consecutively. -/
structure AddressedTo (own : CStr) : Prop where
  first_valid : ∀ i, tgSnValid (senders.first i)
  decodes : ∀ i k, tgDecode (senders.record i k) = some (senders.telegram i k)
  text : ∀ i k, (senders.telegram i k).kind = .text
  receiver : ∀ i k, (senders.telegram i k).receiver = own
  sender : ∀ i k, (senders.telegram i k).sender = senders.key i
  sn : ∀ i k, (senders.telegram i k).sn = tgSerialAt (senders.first i) k

def serial (i : ι) (k : ℕ) : ℤ := tgSerialAt (senders.first i) k

def storeCall (channel : ℤ) (i : ι) (k : ℕ) : RelayCall :=
  let tg := senders.telegram i k
  .store channel tg.sn tg.timestamp tg.sender tg.body

end Senders

/-- A telegram of some sender and the time at which it arrives. -/
structure Arrival (ι : Type) where
  sender : ι
  number : ℕ
  now : ℤ

/-- The interleaving in which the telegrams arrive in the given order of
senders, each sender's in order; `seen` counts those that have arrived. -/
def interleave {ι : Type} [DecidableEq ι] : (ι → ℕ) → List (ι × ℤ) → List (Arrival ι)
  | _, [] => []
  | seen, (i, now) :: order =>
      ⟨i, seen i, now⟩ :: interleave (Function.update seen i (seen i + 1)) order

section

variable {σ ι : Type} (env : RelayEnv σ) (senders : Senders ι) (channel : ℤ)

/-- Every telegram is stored, none is reported a duplicate and no replay is
asked for. -/
def Undisturbed : RelayState σ → List (Arrival ι) → Prop
  | _, [] => True
  | s, arrival :: arrivals =>
      let step := relayReceive env s channel (senders.record arrival.sender arrival.number)
        arrival.now
      (step.stores = [senders.storeCall channel arrival.sender arrival.number] ∧
        step.outcome ≠ .duplicate ∧ step.outcome ≠ .gapRequested ∧ step.queued = []) ∧
      Undisturbed step.state arrivals

end

/-- The serial is the expected one, or so far ahead of it that no replay would
be asked for. -/
def SerialFollows (expected sn : ℤ) : Prop :=
  tgSnDistance expected sn = 0 ∨
    relayMaxGap < tgSnDistance expected sn ∧ tgSnDistance expected sn ≤ tgSnRange / 2

instance (expected sn : ℤ) : Decidable (SerialFollows expected sn) :=
  inferInstanceAs (Decidable (_ ∨ _))

/-- Every serial follows the one before it, whoever sent it, and the first the
one the tracker expects. -/
def SerialsFollow (t : SnTracker) (serials : List ℤ) : Prop :=
  (t.synced = true → ∀ sn ∈ serials.head?, SerialFollows t.expected sn) ∧
    serials.IsChain fun last sn => SerialFollows (tgSnNext last) sn

/-- A relay with a key, a tracker and a known peer on the channel, that can store
and queue. -/
structure RelayEnv.Listens {σ : Type} (env : RelayEnv σ) (own : CStr) (channel : ℤ)
    (handle : ℕ) : Prop where
  channel_nonneg : 0 ≤ channel
  ownKey : env.selfPublicKey = some own
  own_ok : tgFieldOk (some own) = true
  peer : ∃ peerKey, env.peerKey = some peerKey ∧
    ∀ ctx, ∃ peer, peerKey ctx channel = some peer ∧ tgFieldOk (some peer) = true
  enqueue : env.enqueue.isSome = true
  tracker : ∃ tracker, env.tracker = some tracker ∧ ∀ ctx, tracker ctx channel = some handle
  store : env.store.isSome = true

/-- A tracker with nothing outstanding. -/
structure SnTracker.Clear (t : SnTracker) : Prop where
  expected : t.synced = true → tgSnValid t.expected
  pending : t.pending = []

/-! ## One arrival -/

theorem snTrackerInit_clear (firstExpected : ℤ) : (snTrackerInit firstExpected).Clear :=
  ⟨nofun, rfl⟩

theorem SnTracker.Clear.accept {t : SnTracker} (hclear : t.Clear) {sn : ℤ} (hsn : tgSnValid sn) :
    let verdict := snTrackerAccept t sn relayMaxGap
    (t.synced = true → SerialFollows t.expected sn) ∧
        (verdict.result = .inOrder ∨ verdict.result = .resync) ∧
        verdict.tracker = ⟨tgSnNext sn, true, []⟩ ∨
      (t.synced = true ∧ ¬ SerialFollows t.expected sn) ∧
        (verdict.result = .duplicate ∨
          verdict.result = .gap ∧ tgSnValid verdict.gapFrom ∧ tgSnValid verdict.gapTo) := by
  have hmem : sn ∉ t.pending := by
    rw [hclear.pending]
    exact List.not_mem_nil
  cases hsynced : t.synced with
  | false =>
      rw [snTrackerAccept_of_unsynced hsn relayMaxGap hmem hsynced, hclear.pending]
      exact .inl ⟨by simp, .inl rfl, rfl⟩
  | true =>
      have hexpected := hclear.expected hsynced
      obtain ⟨d, hd, hat, hdistance⟩ := exists_tgSerialAt hexpected hsn
      have hhalf : tgSnRange / 2 = 499 := by decide
      have hgap : (relayMaxGap : ℤ) = 64 := rfl
      have hfollows : SerialFollows t.expected sn ↔ (d : ℤ) = 0 ∨ 64 < (d : ℤ) ∧ (d : ℤ) ≤ 499 := by
        rw [SerialFollows, hdistance, hhalf, hgap]
      rw [snTrackerAccept_of_synced hsn relayMaxGap hmem hsynced, hdistance, hhalf, hgap, hfollows]
      dsimp only
      by_cases hnext : (d : ℤ) = 0
      · rw [if_pos hnext, hclear.pending, hsynced]
        exact .inl ⟨fun _ => .inl hnext, .inl rfl, rfl⟩
      · rw [if_neg hnext]
        by_cases hbehind : (499 : ℤ) < d
        · rw [if_pos hbehind]
          exact .inr ⟨⟨rfl, by omega⟩, .inl rfl⟩
        · rw [if_neg hbehind]
          by_cases hnear : (d : ℤ) ≤ 64
          · have hadded := snPendingAddRange_skipped hexpected t.pending (d := d) (by omega)
              (by rw [hclear.pending, List.length_nil, snMaxPending]; omega)
            rw [← hat] at hadded
            rw [if_pos ⟨hnear, by rw [hadded]⟩]
            refine .inr ⟨⟨rfl, by omega⟩, .inr ⟨rfl, hexpected, ?_⟩⟩
            obtain ⟨skipped, rfl⟩ := Nat.exists_eq_succ_of_ne_zero (by omega : d ≠ 0)
            rw [hat, tgSnPrev_tgSerialAt_succ hexpected]
            exact tgSerialAt_valid hexpected skipped
          · rw [if_neg (by omega), hsynced]
            exact .inl ⟨fun _ => .inr (by omega), .inr rfl, rfl⟩

section

variable {σ : Type} {env : RelayEnv σ} {s s' : RelayState σ} {channel : ℤ}

theorem relayDeliver_quiet {tg : TgMessage} {result : SnResult} {gapFrom gapTo : ℤ}
    (haccept : relayAccept env s channel tg.sn = (result, gapFrom, gapTo, s'))
    (hresult : result = .inOrder ∨ result = .resync) (hstore : env.store.isSome = true)
    (now : ℤ) :
    let step := relayDeliver env s channel tg now
    (step.stores = [.store channel tg.sn tg.timestamp tg.sender tg.body] ∧
      step.outcome ≠ .duplicate ∧ step.outcome ≠ .gapRequested ∧ step.queued = []) ∧
      step.state.trackers = s'.trackers := by
  obtain ⟨hstored, -⟩ := relayAccount_calls (s := s') channel hstore tg tg.sn
  have hquiet : ((relayStore env s' channel tg).2 ++ (relayRemember env
      (relayStore env s' channel tg).1 channel tg.sn).2).filterMap RelayCall.queued = [] := by
    rw [List.filterMap_append, relayStore_queued, relayRemember_queued_none]
    rfl
  have htrackers : (relayRemember env (relayStore env s' channel tg).1 channel
      tg.sn).1.trackers = s'.trackers := by
    rw [relayRemember_trackers, relayStore_trackers]
  simp only [relayDeliver, haccept]
  rcases hresult with rfl | rfl
  · exact ⟨⟨hstored, by simp, by simp, hquiet⟩, htrackers⟩
  · exact ⟨⟨hstored, by simp, by simp, hquiet⟩, htrackers⟩

theorem relayDeliver_asks {tg : TgMessage} {own : CStr} {handle : ℕ} {gapFrom gapTo : ℤ}
    (hlistens : env.Listens own channel handle)
    (haccept : relayAccept env s channel tg.sn = (.gap, gapFrom, gapTo, s'))
    (hfrom : tgSnValid gapFrom) (hto : tgSnValid gapTo) (now : ℤ) :
    (relayDeliver env s channel tg now).queued ≠ [] := by
  obtain ⟨peerKey, hkey, hknown⟩ := hlistens.peer
  obtain ⟨enqueue, henqueue⟩ := Option.isSome_iff_exists.mp hlistens.enqueue
  let remembered := (relayRemember env (relayStore env s' channel tg).1 channel tg.sn).1
  obtain ⟨peer, hpeer, hpeerOk⟩ := hknown remembered.ctx
  have hasked := relayRequestGap_calls (s := remembered) now hlistens.ownKey henqueue hkey hpeer
    hpeerOk hlistens.own_ok hfrom hto
  simp only [relayDeliver, haccept, reduceCtorEq, if_false, RelayStep.queued,
    List.filterMap_append]
  rw [hasked]
  simp [RelayCall.queued]

/-- One arrival on a channel with nothing outstanding. -/
theorem RelayEnv.Listens.receive {ι : Type} {senders : Senders ι} {own : CStr} {handle : ℕ}
    (hlistens : env.Listens own channel handle) (haddressed : senders.AddressedTo own)
    (hclear : (s.trackers handle).Clear) (i : ι) (k : ℕ) (now : ℤ) :
    let t := s.trackers handle
    let step := relayReceive env s channel (senders.record i k) now
    (t.synced = true → SerialFollows t.expected (senders.serial i k)) ∧
        (step.stores = [senders.storeCall channel i k] ∧ step.outcome ≠ .duplicate ∧
          step.outcome ≠ .gapRequested ∧ step.queued = []) ∧
        step.state.trackers handle = ⟨tgSnNext (senders.serial i k), true, []⟩ ∨
      (t.synced = true ∧ ¬ SerialFollows t.expected (senders.serial i k)) ∧
        (step.outcome = .duplicate ∨ step.queued ≠ []) := by
  obtain ⟨tracker, htracker, hhandle⟩ := hlistens.tracker
  have hbind : env.tracker.bind (fun tracker => tracker s.ctx channel) = some handle := by
    rw [htracker]
    exact hhandle s.ctx
  have hdecode := haddressed.decodes i k
  have hraw : senders.record i k ≠ [] := by
    intro hempty
    rw [hempty] at hdecode
    cases hdecode
  have hown : env.selfPublicKey = some (senders.telegram i k).receiver := by
    rw [haddressed.receiver]
    exact hlistens.ownKey
  have hdeliver : relayReceive env s channel (senders.record i k) now =
      relayDeliver env s channel (senders.telegram i k) now := by
    rw [relayReceive_ownText hdecode (haddressed.text i k) hown, if_neg]
    rintro (hempty | hnegative)
    · exact hraw hempty
    · exact absurd hlistens.channel_nonneg (by omega)
  have hsn : (senders.telegram i k).sn = senders.serial i k := haddressed.sn i k
  have haccept := relayAccept_of_handle hbind (senders.telegram i k).sn
  have hvalid : tgSnValid (senders.telegram i k).sn := by
    rw [hsn]
    exact tgSerialAt_valid (haddressed.first_valid i) k
  have hverdict := hclear.accept hvalid
  dsimp only at haccept hverdict ⊢
  rw [hdeliver, ← hsn]
  rcases hverdict with ⟨hfollows, hresult, hafter⟩ | ⟨hbroken, hresult⟩
  · obtain ⟨hquiet, htrackers⟩ := relayDeliver_quiet haccept hresult hlistens.store now
    refine .inl ⟨hfollows, hquiet, ?_⟩
    rw [htrackers]
    exact (Function.update_self _ _ _).trans hafter
  · refine .inr ⟨hbroken, ?_⟩
    rcases hresult with hduplicate | ⟨hgap, hfrom, hto⟩
    · refine .inl ?_
      rw [hduplicate] at haccept
      simp only [relayDeliver, haccept, if_true]
    · rw [hgap] at haccept
      exact .inr (relayDeliver_asks hlistens haccept hfrom hto now)

/-! ## Every interleaving -/

theorem RelayEnv.Listens.undisturbed_iff {ι : Type} {senders : Senders ι} {own : CStr}
    {handle : ℕ} (hlistens : env.Listens own channel handle)
    (haddressed : senders.AddressedTo own) (arrivals : List (Arrival ι))
    (hclear : (s.trackers handle).Clear) :
    Undisturbed env senders channel s arrivals ↔
      SerialsFollow (s.trackers handle)
        (arrivals.map fun arrival => senders.serial arrival.sender arrival.number) := by
  induction arrivals generalizing s with
  | nil => simp [Undisturbed, SerialsFollow]
  | cons arrival arrivals ih =>
      have hserial := tgSnNext_valid (senders.serial arrival.sender arrival.number)
      rcases hlistens.receive haddressed hclear arrival.sender arrival.number arrival.now with
        ⟨hfollows, hquiet, hafter⟩ | ⟨⟨hsynced, hbroken⟩, hloud⟩
      · have hrest := ih (s := (relayReceive env s channel
          (senders.record arrival.sender arrival.number) arrival.now).state) (by
            rw [hafter]
            exact ⟨fun _ => hserial, rfl⟩)
        rw [hafter] at hrest
        rw [Undisturbed, SerialsFollow, List.map_cons, List.isChain_cons, List.head?_cons]
        simp only [hrest, SerialsFollow, Option.mem_some_iff, forall_eq', true_imp_iff]
        constructor
        · rintro ⟨-, hnext, hchain⟩
          exact ⟨hfollows, hnext, hchain⟩
        · rintro ⟨-, hnext, hchain⟩
          exact ⟨hquiet, hnext, hchain⟩
      · refine iff_of_false ?_ ?_
        · rintro ⟨⟨-, hnot, -, hnothing⟩, -⟩
          rcases hloud with hduplicate | hqueued
          · exact hnot hduplicate
          · exact hqueued hnothing
        · rintro ⟨hfirst, -⟩
          exact hbroken (hfirst hsynced _ rfl)

end

/-- Streams that arrive over one channel, in any interleaving. -/
theorem senders_undisturbed_iff {σ ι : Type} [DecidableEq ι] {env : RelayEnv σ}
    {senders : Senders ι} {own : CStr} {channel : ℤ} {handle : ℕ}
    (hlistens : env.Listens own channel handle) (haddressed : senders.AddressedTo own)
    {s : RelayState σ} (hclear : (s.trackers handle).Clear) (order : List (ι × ℤ)) :
    let arrivals := interleave (fun _ => 0) order
    Undisturbed env senders channel s arrivals ↔
      SerialsFollow (s.trackers handle)
        (arrivals.map fun arrival => senders.serial arrival.sender arrival.number) :=
  hlistens.undisturbed_iff haddressed _ hclear

/-! ## Two senders -/

def mixEnv : RelayEnv Unit where
  selfPublicKey := some ownKey
  resolvePeer := none
  peerKey := some fun _ _ => some contactKey
  peerIsMetacom := none
  tracker := some fun _ _ => some 0
  channelKnown := none
  store := some fun _ _ _ _ _ _ => (0, ())
  enqueue := some fun _ _ _ _ => (0, ())
  fetchRange := none
  rememberSerial := none

def senderKey (second : Bool) : CStr :=
  if second then hexString (List.replicate 38 5) else hexString (List.replicate 38 6)

theorem senderKey_ok (second : Bool) : tgFieldOk (some (senderKey second)) = true := by
  cases second <;> decide

/-- Two senders that start with serial one, with empty bodies. -/
def twoSenders : Senders Bool where
  key := senderKey
  first := fun _ => 1
  record := fun i k => tgTextRecord ownKey (senderKey i) (tgSerialAt 1 k) 0 []
  telegram := fun i k =>
    ⟨.text, ownKey, senderKey i, tgSerialAt 1 k, 0, 0, CStr.ofBuffer []⟩

theorem mixEnv_listens : mixEnv.Listens ownKey 0 0 where
  channel_nonneg := le_rfl
  ownKey := rfl
  own_ok := ownKey_ok
  peer := ⟨_, rfl, fun _ => ⟨_, rfl, contactKey_ok⟩⟩
  enqueue := rfl
  tracker := ⟨_, rfl, fun _ => rfl⟩
  store := rfl

theorem twoSenders_addressed : twoSenders.AddressedTo ownKey where
  first_valid := fun _ => by simp only [twoSenders]; decide
  decodes := by
    intro i k
    have hbody : tgReadBody ([] ++ (tgTerminator ++ [lf])).length
        ([] ++ (tgTerminator ++ [lf])) [] = some [] := by decide
    rw [twoSenders, tgDecode_tgTextRecord 0 [] ownKey_ok (senderKey_ok i)
      (tgSerialAt_valid (by decide) k), hbody]
    rfl
  text := fun _ _ => rfl
  receiver := fun _ _ => rfl
  sender := fun _ _ => rfl
  sn := fun _ _ => rfl

def mixStart : RelayState Unit := ⟨(), fun _ => snTrackerInit tgSnMin⟩

theorem senders_undisturbed_iff_two :
    let arrivals := interleave (fun _ => 0) [(false, 0), (true, 1), (false, 2)]
    Undisturbed mixEnv twoSenders 0 mixStart arrivals ↔
      SerialsFollow (mixStart.trackers 0)
        (arrivals.map fun arrival => twoSenders.serial arrival.sender arrival.number) :=
  senders_undisturbed_iff mixEnv_listens twoSenders_addressed (snTrackerInit_clear _) _

/-- The first telegrams of two senders, one after the other: the second is taken
for a repetition of the first. -/
theorem senders_disturbed :
    ¬ ∀ (env : RelayEnv Unit) (senders : Senders Bool) (own : CStr) (channel : ℤ) (handle : ℕ)
        (s : RelayState Unit) (order : List (Bool × ℤ)),
      env.Listens own channel handle → senders.AddressedTo own → (s.trackers handle).Clear →
        Undisturbed env senders channel s (interleave (fun _ => 0) order) := by
  intro hall
  have hrun := hall mixEnv twoSenders ownKey 0 0 mixStart [(false, 0), (true, 1)] mixEnv_listens
    twoSenders_addressed (snTrackerInit_clear _)
  have hfollow :=
    (mixEnv_listens.undisturbed_iff twoSenders_addressed _ (snTrackerInit_clear _)).mp hrun
  have hsecond : SerialFollows 2 1 := (List.isChain_cons_cons.mp hfollow.2).1
  revert hsecond
  decide

end ToxRelayer
