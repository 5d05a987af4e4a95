import ToxRelayer.GapLink
import Mathlib.Logic.Relation

/-!
# Every gap is recovered

Along every run of two relays, what `B` has stored is what has arrived, each
telegram once.  Once its requests have been served and the replays have arrived
nothing is missing below the newest telegram it knows of.
-/

namespace ToxRelayer

open CString
open NumberedStream

namespace Link

variable {σA σB : Type} {link : Link σA σB}

/-! ## Serials below half a lap -/

section

variable (hwired : link.Wired)

include hwired

theorem Wired.inSnRange_iff {first last k : ℕ} (hle : first ≤ last) (hlast : last < link.total)
    (hk : k < link.total) :
    inSnRange (tgSerialAt link.start first) (tgSerialAt link.start last)
        (tgSerialAt link.start k) = true ↔
      first ≤ k ∧ k ≤ last := by
  have htotal := hwired.total_le
  have hstart := hwired.start_valid
  rw [inSnRange_iff_distance (tgSerialAt_valid hstart first) (tgSerialAt_valid hstart last)
    (tgSerialAt_valid hstart k), tgSnDistance_tgSerialAt hstart, tgSnDistance_tgSerialAt hstart]
  omega

theorem Wired.mem_numbersAsked {sent first last k : ℕ} (hsent : sent ≤ link.total)
    (hle : first ≤ last) (hlast : last < sent) :
    k ∈ link.numbersAsked sent first last ↔ first ≤ k ∧ k ≤ last := by
  rw [numbersAsked, List.mem_filter, List.mem_range]
  constructor
  · rintro ⟨hk, hrange⟩
    exact (hwired.inSnRange_iff hle (by omega) (by omega)).mp hrange
  · intro hbetween
    exact ⟨by omega, (hwired.inSnRange_iff hle (by omega) (by omega)).mpr hbetween⟩

theorem Wired.numbersAsked_length {sent first last : ℕ} (hsent : sent ≤ link.total)
    (hle : first ≤ last) (hlast : last < sent) (hshort : last < first + relayMaxReplay) :
    (link.numbersAsked sent first last).length ≤ relayMaxReplay := by
  have hnodup : (link.numbersAsked sent first last).Nodup := List.nodup_range.filter _
  have hsubset : link.numbersAsked sent first last ⊆ List.range' first (last + 1 - first) := by
    intro k hk
    have hbetween := (hwired.mem_numbersAsked hsent hle hlast).mp hk
    exact List.mem_range'_1.mpr (by omega)
  have hlength := (hnodup.subperm hsubset).length_le
  rw [List.length_range'] at hlength
  omega

end

/-! ## The invariant -/

structure Inv (link : Link σA σB) (s : LinkState σA σB) : Prop where
  sent_le : s.sent ≤ link.total
  outgoing : link.outgoing s.a.ctx = (List.range s.sent).map link.record
  tracker : ∃ state, Shows link.start (s.b.trackers link.handle) state ∧
    Knows (link.arrivedNumbers s) state
  arrived : ∀ payload ∈ s.arrived, ∃ k < s.sent, payload = link.wire k
  replays : ∀ payload ∈ s.replays, ∃ k < s.sent, payload = link.wire k
  requests : ∀ payload ∈ s.requests, ∃ first last, payload = link.request first last ∧
    first ≤ last ∧ last < first + relayMaxReplay ∧ last < s.sent
  covered : ∀ k ∈ outstanding (link.arrivedNumbers s), ∃ first last,
    link.request first last ∈ s.requests ∧ first ≤ k ∧ k ≤ last ∧ last < s.sent
  answered : ∀ payload ∈ s.served, ∃ first last, payload = link.request first last ∧
    first ≤ last ∧ last < s.sent ∧ ∀ k, first ≤ k → k ≤ last → link.wire k ∈ s.replays
  stored : (s.stored : Multiset RelayCall) = (link.arrivedNumbers s).val.map link.storeCall

theorem Initial.inv {s : LinkState σA σB} (hinitial : link.Initial s) : link.Inv s := by
  have hnone : link.arrivedNumbers s = ∅ := by
    rw [arrivedNumbers, hinitial.arrived]
    simp
  obtain ⟨firstExpected, htracker⟩ := hinitial.tracker
  constructor
  · rw [hinitial.sent]
    exact Nat.zero_le _
  · rw [hinitial.outgoing, hinitial.sent]
    rfl
  · rw [htracker]
    exact ⟨none, ⟨rfl, rfl⟩, hnone⟩
  · simp [hinitial.arrived]
  · simp [hinitial.replays]
  · simp [hinitial.requests]
  · rw [hnone]
    simp [outstanding, expectedAfter]
  · simp [hinitial.served]
  · rw [hnone, hinitial.stored]
    rfl

theorem Inv.send {s : LinkState σA σB} (hs : link.Inv s) {ctx : σA}
    (hmore : s.sent < link.total)
    (hstored : link.outgoing ctx = link.outgoing s.a.ctx ++ [link.record s.sent]) :
    link.Inv { s with a := { s.a with ctx := ctx }, sent := s.sent + 1 } where
  sent_le := hmore
  outgoing := by
    rw [hstored, hs.outgoing, List.range_succ, List.map_append]
    rfl
  tracker := hs.tracker
  arrived := by
    intro payload hpayload
    obtain ⟨k, hk, heq⟩ := hs.arrived payload hpayload
    exact ⟨k, Nat.lt_succ_of_lt hk, heq⟩
  replays := by
    intro payload hpayload
    obtain ⟨k, hk, heq⟩ := hs.replays payload hpayload
    exact ⟨k, Nat.lt_succ_of_lt hk, heq⟩
  requests := by
    intro payload hpayload
    obtain ⟨first, last, heq, hle, hshort, hlast⟩ := hs.requests payload hpayload
    exact ⟨first, last, heq, hle, hshort, Nat.lt_succ_of_lt hlast⟩
  covered := by
    intro k hk
    obtain ⟨first, last, hmem, hfirst, hle, hlast⟩ := hs.covered k hk
    exact ⟨first, last, hmem, hfirst, hle, Nat.lt_succ_of_lt hlast⟩
  answered := by
    intro payload hpayload
    obtain ⟨first, last, heq, hle, hlast, hreplayed⟩ := hs.answered payload hpayload
    exact ⟨first, last, heq, hle, Nat.lt_succ_of_lt hlast, hreplayed⟩
  stored := hs.stored

section

variable (hwired : link.Wired) {s : LinkState σA σB}

theorem mem_arrivedNumbers {k : ℕ} :
    k ∈ link.arrivedNumbers s ↔ k < link.total ∧ link.wire k ∈ s.arrived := by
  rw [arrivedNumbers, Finset.mem_filter, Finset.mem_range]

include hwired

theorem Inv.arrived_lt (hs : link.Inv s) {k : ℕ} (hk : k ∈ link.arrivedNumbers s) :
    k < s.sent := by
  obtain ⟨hlt, hmem⟩ := mem_arrivedNumbers.mp hk
  obtain ⟨j, hj, hwire⟩ := hs.arrived _ hmem
  have hsent := hs.sent_le
  rw [hwired.wire_inj hlt (by omega) hwire]
  exact hj

theorem Inv.expectedAfter_le (hs : link.Inv s) :
    expectedAfter (link.arrivedNumbers s) ≤ s.sent :=
  Finset.sup_le fun _ hk => hs.arrived_lt hwired hk

theorem Wired.arrivedNumbers_reachB {k : ℕ} (hk : k < link.total) (now : ℤ) :
    link.arrivedNumbers (link.reachB s (link.wire k) now) =
      insert k (link.arrivedNumbers s) := by
  ext other
  simp only [mem_arrivedNumbers, Finset.mem_insert, Link.reachB, List.mem_append,
    List.mem_singleton]
  constructor
  · rintro ⟨hlt, hold | hnew⟩
    · exact .inr ⟨hlt, hold⟩
    · exact .inl (hwired.wire_inj hlt hk hnew)
  · rintro (rfl | ⟨hlt, hold⟩)
    · exact ⟨hk, .inr rfl⟩
    · exact ⟨hlt, .inl hold⟩

/-- Fewer than half a lap of telegrams share no serials. -/
theorem Wired.noStaleAhead {t : SnTracker} {receiver : Receiver} {k : ℕ}
    (hshows : ShowsReceiver link.start t receiver) (hk : k < link.total)
    (hahead : receiver.next ≤ k) :
    NoStaleAhead link.start t receiver.next k := by
  have hfresh : ∀ i, receiver.next ≤ i → i < link.total →
      tgSerialAt link.start i ∉ t.pending := by
    intro i hi htotal hmem
    obtain ⟨number, hmissing, hserial⟩ := hshows.mem_pending.mp hmem
    have hlt := receiver.missing_lt number hmissing
    have hsame := hwired.serial_inj (by omega) htotal hserial
    omega
  refine ⟨hfresh k hahead hk, fun _ i hi => ?_⟩
  obtain ⟨hle, hlt⟩ := Finset.mem_Ico.mp hi
  exact hfresh i hle (by omega)

theorem Inv.follows (hs : link.Inv s) {k : ℕ} (hk : k < link.total)
    (hfollowable : Followable relayMaxGap snMaxPending (link.arrivedNumbers s) k) :
    let verdict := snTrackerAccept (s.b.trackers link.handle) (tgSerialAt link.start k)
      relayMaxGap
    let expected := expectedAfter (link.arrivedNumbers s)
    ∃ answer, Followed relayMaxGap (link.arrivedNumbers s) k answer ∧
      verdict.result = .ofVerdict answer.1 ∧
      Shows link.start verdict.tracker (some answer.2) ∧
      (answer.1 = .gap → verdict.gapFrom = tgSerialAt link.start expected ∧
        verdict.gapTo = tgSerialAt link.start (k - 1)) := by
  obtain ⟨state, hshows, hknows⟩ := hs.tracker
  have hexpected := hs.expectedAfter_le hwired
  have hsent := hs.sent_le
  have htotal := hwired.total_le
  have hfollowed := hknows.accept hfollowable
  have hreceiver : ∀ receiver ∈ state, ShowsReceiver link.start (s.b.trackers link.handle) receiver ∧
      receiver.next = expectedAfter (link.arrivedNumbers s) := by
    rintro receiver hsome
    obtain rfl : state = some receiver := hsome
    exact ⟨hshows, hknows.next⟩
  have hnear : ∀ receiver ∈ state, receiver.next ≤ k + 499 ∧ k ≤ receiver.next + 499 := by
    intro receiver hsome
    have hbound := (hreceiver receiver hsome).2
    constructor <;> omega
  obtain ⟨hresult, hnext⟩ := hshows.accept hwired.start_valid relayMaxGap hnear
    (fun receiver hsome hahead =>
      hwired.noStaleAhead (hreceiver receiver hsome).1 hk hahead)
  refine ⟨_, hfollowed, hresult, hnext, ?_⟩
  intro hgap
  obtain ⟨hfrom, hto⟩ := snTrackerAccept_gap (hresult.trans (congrArg SnResult.ofVerdict hgap))
  have hbeyond := (hfollowed.gap hgap).1
  rw [hfrom, hto]
  cases state with
  | none => cases hgap
  | some receiver =>
      obtain ⟨hview, hbound⟩ := hreceiver receiver rfl
      refine ⟨by rw [hview.expected, hbound], ?_⟩
      have hpred : k = k - 1 + 1 := by omega
      rw [hpred, tgSnPrev_tgSerialAt_succ hwired.start_valid, Nat.add_sub_cancel]

theorem Inv.reachB (hs : link.Inv s) {k : ℕ} (hk : k < s.sent) (now : ℤ)
    (hfollowable : Followable relayMaxGap snMaxPending (link.arrivedNumbers s) k) :
    link.Inv (link.reachB s (link.wire k) now) := by
  have hsent := hs.sent_le
  have htotal : k < link.total := by omega
  have hexpected := hs.expectedAfter_le hwired
  obtain ⟨answer, hfollowed, hresult, hshows, hrange⟩ := hs.follows hwired htotal hfollowable
  obtain ⟨htracker, hstored, hquiet, hasked⟩ := hwired.reachB_wire htotal s now
  have hnumbers := hwired.arrivedNumbers_reachB (s := s) htotal now
  have hrequests : (link.reachB s (link.wire k) now).requests = s.requests ++
      if answer.1 = .gap then
        [link.request (expectedAfter (link.arrivedNumbers s)) (k - 1)] else [] := by
    by_cases hgap : answer.1 = .gap
    · obtain ⟨hfrom, hto⟩ := hrange hgap
      rw [hasked (by rw [hresult, hgap]; rfl)
        (by rw [hfrom]; exact tgSerialAt_valid hwired.start_valid _)
        (by rw [hto]; exact tgSerialAt_valid hwired.start_valid _), hfrom, hto, if_pos hgap]
      rfl
    · rw [hquiet (fun hresultGap => hgap (SnResult.ofVerdict_inj (hresult.symm.trans hresultGap))),
        if_neg hgap, List.append_nil]
  have hkept : ∀ payload ∈ s.requests,
      payload ∈ (link.reachB s (link.wire k) now).requests := by
    intro payload hpayload
    rw [hrequests]
    exact List.mem_append_left _ hpayload
  refine ⟨hs.sent_le, hs.outgoing, ⟨some answer.2, ?_, ?_⟩, ?_, hs.replays, ?_, ?_, hs.answered,
    ?_⟩
  · rw [htracker]
    exact hshows
  · rw [hnumbers]
    exact hfollowed.knows
  · intro payload hpayload
    rcases List.mem_append.mp hpayload with hold | hnew
    · exact hs.arrived payload hold
    · exact ⟨k, hk, List.mem_singleton.mp hnew⟩
  · intro payload hpayload
    rw [hrequests] at hpayload
    rcases List.mem_append.mp hpayload with hold | hnew
    · exact hs.requests payload hold
    · split at hnew
      · rename_i hgap
        obtain ⟨hbeyond, hclose⟩ := hfollowed.gap hgap
        simp only [relayMaxGap] at hclose
        refine ⟨_, _, List.mem_singleton.mp hnew, by omega, ?_, ?_⟩
        · simp only [relayMaxReplay]
          omega
        · change k - 1 < s.sent
          omega
      · cases hnew
  · intro other hother
    rw [hnumbers] at hother
    rcases hfollowed.skips other hother with hold | ⟨hgap, hle, hlt⟩
    · obtain ⟨first, last, hmem, hcovers⟩ := hs.covered other hold
      exact ⟨first, last, hkept _ hmem, hcovers⟩
    · refine ⟨expectedAfter (link.arrivedNumbers s), k - 1, ?_, hle, by omega, ?_⟩
      · rw [hrequests, if_pos hgap]
        exact List.mem_append_right _ (List.mem_singleton.mpr rfl)
      · change k - 1 < s.sent
        omega
  · rw [hstored, hnumbers, hresult, ← Multiset.coe_add, hs.stored]
    by_cases hold : k ∈ link.arrivedNumbers s
    · rw [hfollowed.duplicate_iff.mpr hold, Finset.insert_eq_of_mem hold]
      exact add_zero _
    · have htaken : SnResult.ofVerdict answer.1 ≠ .duplicate := fun hduplicate =>
        hold (hfollowed.duplicate_iff.mp (SnResult.ofVerdict_inj hduplicate))
      rw [if_neg htaken, Finset.insert_val_of_notMem hold, Multiset.map_cons, add_comm]
      rfl

theorem Inv.reachA (hs : link.Inv s) {payload : Bytes} (hqueued : payload ∈ s.requests)
    (now : ℤ) : link.Inv (link.reachA s payload now) := by
  obtain ⟨first, last, rfl, hle, hshort, hlast⟩ := hs.requests payload hqueued
  obtain ⟨houtgoing, hreplays⟩ := hwired.reachA_request first last now hs.sent_le hs.outgoing
  have hasked := fun k => hwired.mem_numbersAsked (k := k) hs.sent_le hle hlast
  rw [List.take_of_length_le (hwired.numbersAsked_length hs.sent_le hle hlast hshort)] at hreplays
  have hkept : ∀ payload ∈ s.replays,
      payload ∈ (link.reachA s (link.request first last) now).replays := by
    intro payload hpayload
    rw [hreplays]
    exact List.mem_append_left _ hpayload
  refine ⟨hs.sent_le, ?_, hs.tracker, hs.arrived, ?_, hs.requests, hs.covered, ?_, hs.stored⟩
  · rw [houtgoing, hs.outgoing]
    rfl
  · intro payload hpayload
    rw [hreplays] at hpayload
    rcases List.mem_append.mp hpayload with hold | hnew
    · exact hs.replays payload hold
    · obtain ⟨k, hk, rfl⟩ := List.mem_map.mp hnew
      have hbetween := (hasked k).mp hk
      exact ⟨k, by change k < s.sent; omega, rfl⟩
  · intro payload hpayload
    rcases List.mem_append.mp hpayload with hold | hnew
    · obtain ⟨first', last', heq, hle', hlast', hreplayed⟩ := hs.answered payload hold
      exact ⟨first', last', heq, hle', hlast', fun k hfirst hk => hkept _ (hreplayed k hfirst hk)⟩
    · refine ⟨first, last, List.mem_singleton.mp hnew, hle, hlast, ?_⟩
      intro k hfirst hk
      rw [hreplays]
      exact List.mem_append_right _ (List.mem_map_of_mem ((hasked k).mpr ⟨hfirst, hk⟩))

theorem Inv.step (hs : link.Inv s) {s' : LinkState σA σB} (hstep : link.Step s s') :
    link.Inv s' := by
  cases hstep with
  | send ctx hmore hstored => exact hs.send hmore hstored
  | reachB payload now hqueued hfollowable =>
      obtain ⟨k, hk, rfl⟩ : ∃ k < s.sent, payload = link.wire k := by
        rcases hqueued with hsent | hreplay
        · obtain ⟨k, hk, rfl⟩ := List.mem_map.mp hsent
          exact ⟨k, List.mem_range.mp hk, rfl⟩
        · exact hs.replays payload hreplay
      have hsent := hs.sent_le
      exact hs.reachB hwired hk now (hfollowable k (by omega) rfl)
  | reachA payload now hqueued => exact hs.reachA hwired hqueued now

theorem Wired.inv_of_run {s₀ : LinkState σA σB} (hinitial : link.Initial s₀)
    (hrun : Relation.ReflTransGen link.Step s₀ s) : link.Inv s := by
  induction hrun with
  | refl => exact hinitial.inv
  | tail _ hstep ih => exact ih.step hwired hstep

/-! ## Nothing is lost or doubled -/

/-- Everything that was asked for has arrived. -/
theorem Inv.nothing_outstanding (hs : link.Inv s)
    (hserved : ∀ payload ∈ s.requests, payload ∈ s.served)
    (hreplayed : ∀ payload ∈ s.replays, payload ∈ s.arrived) :
    outstanding (link.arrivedNumbers s) = ∅ := by
  refine Finset.eq_empty_of_forall_notMem ?_
  intro k hk
  have hsent := hs.sent_le
  obtain ⟨first, last, hmem, hfirst, hle, hlast⟩ := hs.covered k hk
  obtain ⟨first', last', hsame, hle', hlast', hanswered⟩ := hs.answered _ (hserved _ hmem)
  obtain ⟨rfl, rfl⟩ := hwired.request_inj (by omega) (by omega) hle' (by omega) hsame
  have harrived := hreplayed _ (hanswered k hfirst hle)
  exact (mem_outstanding.mp hk).2 (mem_arrivedNumbers.mpr ⟨by omega, harrived⟩)

end

theorem eq_range_of_nothing_outstanding {arrived : Finset ℕ}
    (hnone : outstanding arrived = ∅) : arrived = Finset.range (expectedAfter arrived) := by
  ext k
  rw [Finset.mem_range]
  refine ⟨lt_expectedAfter, ?_⟩
  intro hlt
  by_contra hnew
  have hmem : k ∈ outstanding arrived := mem_outstanding.mpr ⟨hlt, hnew⟩
  rw [hnone] at hmem
  exact Finset.notMem_empty k hmem

/-- When every control record has reached `A` and every replay `B`, then `B` has
stored every telegram up to the newest one that reached it, each once and
unaltered, and waits for none. -/
theorem gapRecovery_exactlyOnce (hwired : link.Wired) {s₀ s : LinkState σA σB}
    (hinitial : link.Initial s₀) (hrun : Relation.ReflTransGen link.Step s₀ s)
    (hserved : ∀ payload ∈ s.requests, payload ∈ s.served)
    (hreplayed : ∀ payload ∈ s.replays, payload ∈ s.arrived) :
    s.stored.Perm
        ((List.range (expectedAfter (link.arrivedNumbers s))).map link.storeCall) ∧
      (s.b.trackers link.handle).pending = [] ∧
      (s.sent - 1 ∈ link.arrivedNumbers s → expectedAfter (link.arrivedNumbers s) = s.sent) := by
  have hs := hwired.inv_of_run hinitial hrun
  have hnone := hs.nothing_outstanding hwired hserved hreplayed
  refine ⟨?_, ?_, ?_⟩
  · have hstored := hs.stored
    rw [eq_range_of_nothing_outstanding hnone] at hstored
    rw [← Multiset.coe_eq_coe, hstored]
    rfl
  · obtain ⟨state, hshows, hknows⟩ := hs.tracker
    cases state with
    | none => exact hshows.2
    | some receiver =>
        have hview : ShowsReceiver link.start (s.b.trackers link.handle) receiver := hshows
        have hlength := hview.pending_length
        rw [hknows.missing, hnone, Finset.card_empty] at hlength
        exact List.length_eq_zero_iff.mp hlength
  · intro hnewest
    have hlt := lt_expectedAfter hnewest
    have hle := hs.expectedAfter_le hwired
    omega

/-! ## A telegram lost at the wrap point -/

def quietEnv (σ : Type) (self peer : CStr) : RelayEnv σ where
  selfPublicKey := some self
  resolvePeer := none
  peerKey := some fun _ _ => some peer
  peerIsMetacom := none
  tracker := some fun _ _ => some 0
  channelKnown := none
  store := some fun ctx _ _ _ _ _ => (0, ctx)
  enqueue := some fun ctx _ _ _ => (0, ctx)
  fetchRange := none
  rememberSerial := none

/-- Three telegrams with the serials 998, 999 and 1. -/
def wrapLink : Link (List RelayRecord) Unit where
  envA := { quietEnv (List RelayRecord) contactKey ownKey with
    fetchRange := some fun ctx _ start target max =>
      let found := (ctx.filter fun record => inSnRange start target record.sn).take max
      ((found.length : ℤ), found) }
  envB := quietEnv Unit ownKey contactKey
  channelA := 0
  channelB := 0
  keyA := contactKey
  keyB := ownKey
  outgoing := id
  handle := 0
  start := 998
  total := 3
  timestamp := fun k => Int64.ofNat k
  body := fun _ => .empty

theorem wrapLink_wired : wrapLink.Wired where
  channelA_nonneg := le_rfl
  channelB_nonneg := le_rfl
  keyA_ok := contactKey_ok
  keyB_ok := ownKey_ok
  selfA := rfl
  selfB := rfl
  peerA := ⟨_, rfl, fun _ => rfl⟩
  peerB := ⟨_, rfl, fun _ => rfl⟩
  enqueueA := ⟨_, rfl, fun _ _ _ => ⟨rfl, rfl⟩⟩
  enqueueB := ⟨_, rfl, fun _ _ _ => rfl⟩
  fetchA := ⟨_, rfl, fun _ _ _ _ => rfl⟩
  trackerB := ⟨_, rfl, fun _ => rfl⟩
  storeB := rfl
  start_valid := by decide
  total_le := by decide
  roundTrips := by
    intro k hk
    change k < 3 at hk
    refine ⟨⟨.text, ownKey, contactKey, tgSerialAt 998 k, 0, Int64.ofNat k, .empty⟩, ?_, rfl,
      rfl, rfl, rfl, rfl, rfl⟩
    interval_cases k <;> decide +kernel

def wrapStart : LinkState (List RelayRecord) Unit :=
  ⟨⟨[], fun _ => snTrackerInit tgSnMin⟩, ⟨(), fun _ => snTrackerInit tgSnMin⟩, 0, [], [], [], [], []⟩

def wrapSent : LinkState (List RelayRecord) Unit :=
  { wrapStart with
    a := { wrapStart.a with ctx := (List.range 3).map wrapLink.record }
    sent := 3 }

/-- The second telegram is lost, the third makes `B` ask for it. -/
def wrapAsked : LinkState (List RelayRecord) Unit :=
  wrapLink.reachB (wrapLink.reachB wrapSent (wrapLink.wire 0) 0) (wrapLink.wire 2) 0

/-- `A` replays it, and the replay arrives. -/
def wrapDone : LinkState (List RelayRecord) Unit :=
  wrapLink.reachB (wrapLink.reachA wrapAsked (wrapLink.request 1 1) 0) (wrapLink.wire 1) 0

theorem wrapStart_run : Relation.ReflTransGen wrapLink.Step wrapStart wrapDone := by
  have hsent : Relation.ReflTransGen wrapLink.Step wrapStart wrapSent :=
    ((Relation.ReflTransGen.single (.send [wrapLink.record 0] (by decide) rfl)).tail
      (.send ([0, 1].map wrapLink.record) (by decide) rfl)).tail
        (.send ([0, 1, 2].map wrapLink.record) (by decide) rfl)
  have hfirst := hsent.tail (.reachB (wrapLink.wire 0) 0 (.inl (by decide +kernel))
    (by decide +kernel))
  have hthird := hfirst.tail (.reachB (wrapLink.wire 2) 0 (.inl (by decide +kernel))
    (by decide +kernel))
  have hserved := hthird.tail (.reachA (wrapLink.request 1 1) 0 (by decide +kernel))
  exact hserved.tail (.reachB (wrapLink.wire 1) 0 (.inr (by decide +kernel))
    (by decide +kernel))

theorem gapRecovery_exactlyOnce_wrap :
    wrapDone.stored.Perm ((List.range (expectedAfter (wrapLink.arrivedNumbers wrapDone))).map
        wrapLink.storeCall) ∧
      (wrapDone.b.trackers wrapLink.handle).pending = [] ∧
      (wrapDone.sent - 1 ∈ wrapLink.arrivedNumbers wrapDone →
        expectedAfter (wrapLink.arrivedNumbers wrapDone) = wrapDone.sent) :=
  gapRecovery_exactlyOnce wrapLink_wired
    ⟨rfl, ⟨tgSnMin, rfl⟩, rfl, rfl, rfl, rfl, rfl, rfl⟩ wrapStart_run (by decide +kernel)
    (by decide +kernel)

end Link

end ToxRelayer
