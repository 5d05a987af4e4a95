import ToxRelayer.Telegram

/-!
# The receive sequence tracker

The second half of `telegram.c`.  `pending` stands for the first
`pending_count` entries of the array, in order.
-/

namespace ToxRelayer

def snMaxPending : ℕ := 256

structure SnTracker where
  expected : ℤ
  synced : Bool
  pending : List ℤ
  deriving DecidableEq

inductive SnResult where
  | inOrder
  | duplicate
  | gap
  | resync
  | recovered
  deriving DecidableEq, Repr

/-- What `sn_tracker_accept` returns, in its result, its two output arguments
and the tracker. -/
structure SnVerdict where
  result : SnResult
  gapFrom : ℤ
  gapTo : ℤ
  tracker : SnTracker
  deriving DecidableEq

def snTrackerInit (firstExpected : ℤ) : SnTracker where
  expected := if tgSnValid firstExpected then firstExpected else tgSnMin
  synced := false
  pending := []

def snTrackerResume (lastReceived : ℤ) : SnTracker :=
  if ¬ tgSnValid lastReceived then snTrackerInit tgSnMin
  else { snTrackerInit (tgSnNext lastReceived) with synced := true }

/-- Removal by moving the last entry into the place of the first match;
`none` when the serial is not outstanding. -/
def snPendingTake (pending : List ℤ) (sn : ℤ) : Option (List ℤ) :=
  if sn ∈ pending then
    some ((pending.set (pending.idxOf sn) (pending.getLastD 0)).dropLast)
  else none

/-- The loop of `sn_pending_add_range`.  A round adds one entry or returns, so
`SN_MAX_PENDING + 1` rounds are enough. -/
def snPendingAddLoop : ℕ → List ℤ → ℤ → ℤ → Bool × List ℤ
  | 0, pending, _, _ => (false, pending)
  | rounds + 1, pending, sn, target =>
      if snMaxPending ≤ pending.length then (false, pending)
      else if sn = target then (true, pending ++ [sn])
      else snPendingAddLoop rounds (pending ++ [sn]) (tgSnNext sn) target

def snPendingAddRange (pending : List ℤ) (start target : ℤ) : Bool × List ℤ :=
  if snMaxPending ≤ pending.length then (false, pending)
  else snPendingAddLoop (snMaxPending + 1) pending start target

def snTrackerAccept (t : SnTracker) (sn : ℤ) (maxGap : ℤ) : SnVerdict :=
  if ¬ tgSnValid sn then ⟨.resync, 0, 0, t⟩
  else
    match snPendingTake t.pending sn with
    | some pending => ⟨.recovered, 0, 0, { t with pending := pending }⟩
    | none =>
        if t.synced = false then
          ⟨.inOrder, 0, 0, { t with synced := true, expected := tgSnNext sn }⟩
        else
          let dist := tgSnDistance t.expected sn
          if dist = 0 then ⟨.inOrder, 0, 0, { t with expected := tgSnNext sn }⟩
          else if tgSnRange / 2 < dist then ⟨.duplicate, 0, 0, t⟩
          else if dist ≤ maxGap then
            let added := snPendingAddRange t.pending t.expected (tgSnPrev sn)
            if added.1 then
              ⟨.gap, t.expected, tgSnPrev sn,
                { t with expected := tgSnNext sn, pending := added.2 }⟩
            else ⟨.resync, 0, 0, { t with expected := tgSnNext sn, pending := [] }⟩
          else ⟨.resync, 0, 0, { t with expected := tgSnNext sn, pending := [] }⟩

/-! ## Serials along a stream -/

/-- The serial of telegram `k`, counted from zero, of a peer whose first
telegram carries `start`. -/
def tgSerialAt (start : ℤ) (k : ℕ) : ℤ := tgSnNext^[k] start

@[simp] theorem tgSerialAt_zero (start : ℤ) : tgSerialAt start 0 = start := rfl

theorem tgSerialAt_succ (start : ℤ) (k : ℕ) :
    tgSerialAt start (k + 1) = tgSnNext (tgSerialAt start k) :=
  Function.iterate_succ_apply' tgSnNext k start

theorem tgSnNext_valid (sn : ℤ) : tgSnValid (tgSnNext sn) := by
  unfold tgSnNext tgSnValid tgSnMin tgSnMax
  split <;> omega

theorem tgSerialAt_eq {start : ℤ} (hstart : tgSnValid start) (k : ℕ) :
    tgSerialAt start k = (start - 1 + k) % 999 + 1 := by
  simp only [tgSnValid, tgSnMin, tgSnMax] at hstart
  induction k with
  | zero =>
      rw [tgSerialAt_zero]
      omega
  | succ k ih =>
      rw [tgSerialAt_succ, ih]
      simp only [tgSnNext, tgSnValid, tgSnMin, tgSnMax]
      push_cast
      split_ifs <;> omega

theorem tgSerialAt_valid {start : ℤ} (hstart : tgSnValid start) (k : ℕ) :
    tgSnValid (tgSerialAt start k) := by
  rw [tgSerialAt_eq hstart]
  simp only [tgSnValid, tgSnMin, tgSnMax]
  omega

/-- Two telegrams share a serial exactly when whole laps lie between them. -/
theorem tgSerialAt_eq_iff {start : ℤ} (hstart : tgSnValid start) (i j : ℕ) :
    tgSerialAt start i = tgSerialAt start j ↔ (i : ℤ) % 999 = j % 999 := by
  rw [tgSerialAt_eq hstart, tgSerialAt_eq hstart]
  omega

theorem tgSnPrev_tgSerialAt_succ {start : ℤ} (hstart : tgSnValid start) (k : ℕ) :
    tgSnPrev (tgSerialAt start (k + 1)) = tgSerialAt start k := by
  rw [tgSerialAt_eq hstart, tgSerialAt_eq hstart]
  simp only [tgSnPrev, tgSnValid, tgSnMin, tgSnMax]
  push_cast
  split_ifs <;> omega

theorem tgSnDistance_eq (start target : ℤ) :
    tgSnDistance start target = (target - start) % 999 := by
  have htmod := Int.tmod_eq_emod (a := target - start) (b := 999)
  have hrange : tgSnRange = 999 := by decide
  simp only [tgSnDistance, hrange]
  split_ifs at htmod ⊢ <;> omega

theorem tgSnDistance_tgSerialAt {start : ℤ} (hstart : tgSnValid start) (i j : ℕ) :
    tgSnDistance (tgSerialAt start i) (tgSerialAt start j) = ((j : ℤ) - i) % 999 := by
  rw [tgSnDistance_eq, tgSerialAt_eq hstart, tgSerialAt_eq hstart]
  omega

/-- The serials of `n` telegrams. -/
def serialsFrom (start : ℤ) (n : ℕ) : List ℤ := (List.range n).map (tgSerialAt start)

theorem mem_serialsFrom {start sn : ℤ} {n : ℕ} :
    sn ∈ serialsFrom start n ↔ ∃ k < n, tgSerialAt start k = sn := by
  simp [serialsFrom]

theorem serialsFrom_valid {start : ℤ} (hstart : tgSnValid start) {n : ℕ} {sn : ℤ}
    (hmem : sn ∈ serialsFrom start n) : tgSnValid sn := by
  obtain ⟨k, -, rfl⟩ := mem_serialsFrom.mp hmem
  exact tgSerialAt_valid hstart k

/-! ## The outstanding set -/

theorem snPendingTake_of_notMem {pending : List ℤ} {sn : ℤ} (hmem : sn ∉ pending) :
    snPendingTake pending sn = none := by
  simp [snPendingTake, hmem]

theorem snPendingTake_of_mem {pending : List ℤ} {sn : ℤ} (hmem : sn ∈ pending) :
    ∃ rest, snPendingTake pending sn = some rest ∧ pending.Perm (sn :: rest) := by
  refine ⟨_, if_pos hmem, ?_⟩
  obtain ⟨before, after, rfl, hbefore⟩ := List.eq_append_cons_of_mem hmem
  have hindex : (before ++ sn :: after).idxOf sn = before.length := by
    simp [List.idxOf_append_of_notMem hbefore]
  rw [hindex]
  rcases List.eq_nil_or_concat after with rfl | ⟨middle, last, rfl⟩
  · simp
  · have hlast : (before ++ sn :: (middle ++ [last])).getLastD 0 = last := by
      rw [← List.cons_append, ← List.append_assoc, List.getLastD_concat]
    have hset : ((before ++ sn :: (middle ++ [last])).set before.length last).dropLast =
        before ++ last :: middle := by
      rw [List.set_append_right _ _ (le_refl _), Nat.sub_self, List.set_cons_zero,
        ← List.cons_append, ← List.append_assoc, List.dropLast_concat]
    rw [List.concat_eq_append, hlast, hset]
    calc (before ++ sn :: (middle ++ [last])).Perm (sn :: (before ++ (middle ++ [last]))) :=
          List.perm_middle
      _ = sn :: (before ++ middle ++ [last]) := by rw [List.append_assoc]
      _ |>.Perm (sn :: (last :: (before ++ middle))) :=
          (List.perm_append_singleton last (before ++ middle)).cons sn
      _ |>.Perm (sn :: (before ++ last :: middle)) := List.perm_middle.symm.cons sn

/-! ## The cases of an acceptance -/

section

variable {t : SnTracker} {sn : ℤ} (hvalid : tgSnValid sn) (maxGap : ℤ)

include hvalid

theorem snTrackerAccept_of_mem (hmem : sn ∈ t.pending) :
    ∃ rest, t.pending.Perm (sn :: rest) ∧
      snTrackerAccept t sn maxGap = ⟨.recovered, 0, 0, { t with pending := rest }⟩ := by
  obtain ⟨rest, htake, hperm⟩ := snPendingTake_of_mem hmem
  refine ⟨rest, hperm, ?_⟩
  simp only [snTrackerAccept, hvalid, not_true, if_false, htake]

theorem snTrackerAccept_of_unsynced (hmem : sn ∉ t.pending) (hsynced : t.synced = false) :
    snTrackerAccept t sn maxGap =
      ⟨.inOrder, 0, 0, { t with synced := true, expected := tgSnNext sn }⟩ := by
  simp only [snTrackerAccept, hvalid, not_true, if_false, snPendingTake_of_notMem hmem, hsynced,
    if_true]

theorem snTrackerAccept_of_synced (hmem : sn ∉ t.pending) (hsynced : t.synced = true) :
    snTrackerAccept t sn maxGap =
      let dist := tgSnDistance t.expected sn
      let added := snPendingAddRange t.pending t.expected (tgSnPrev sn)
      if dist = 0 then ⟨.inOrder, 0, 0, { t with expected := tgSnNext sn }⟩
      else if tgSnRange / 2 < dist then ⟨.duplicate, 0, 0, t⟩
      else if dist ≤ maxGap ∧ added.1 = true then
        ⟨.gap, t.expected, tgSnPrev sn, { t with expected := tgSnNext sn, pending := added.2 }⟩
      else ⟨.resync, 0, 0, { t with expected := tgSnNext sn, pending := [] }⟩ := by
  simp only [snTrackerAccept, hvalid, not_true, if_false, snPendingTake_of_notMem hmem, hsynced,
    Bool.true_eq_false]
  split_ifs <;> first | rfl | simp_all

end

/-- The exits of `sn_tracker_accept`. -/
inductive SnAccepted (t : SnTracker) (sn maxGap : ℤ) : SnVerdict → Prop where
  | invalid : ¬ tgSnValid sn → SnAccepted t sn maxGap ⟨.resync, 0, 0, t⟩
  | recovered (rest : List ℤ) : tgSnValid sn → t.pending.Perm (sn :: rest) →
      SnAccepted t sn maxGap ⟨.recovered, 0, 0, { t with pending := rest }⟩
  | first : tgSnValid sn → sn ∉ t.pending → t.synced = false →
      SnAccepted t sn maxGap
        ⟨.inOrder, 0, 0, { t with synced := true, expected := tgSnNext sn }⟩
  | inOrder : tgSnValid sn → sn ∉ t.pending → t.synced = true →
      tgSnDistance t.expected sn = 0 →
      SnAccepted t sn maxGap ⟨.inOrder, 0, 0, { t with expected := tgSnNext sn }⟩
  | duplicate : tgSnValid sn → sn ∉ t.pending → t.synced = true →
      tgSnRange / 2 < tgSnDistance t.expected sn →
      SnAccepted t sn maxGap ⟨.duplicate, 0, 0, t⟩
  | gap (pending : List ℤ) : tgSnValid sn → sn ∉ t.pending → t.synced = true →
      tgSnDistance t.expected sn ≠ 0 → tgSnDistance t.expected sn ≤ tgSnRange / 2 →
      tgSnDistance t.expected sn ≤ maxGap →
      snPendingAddRange t.pending t.expected (tgSnPrev sn) = (true, pending) →
      SnAccepted t sn maxGap
        ⟨.gap, t.expected, tgSnPrev sn,
          { t with expected := tgSnNext sn, pending := pending }⟩
  | resync : tgSnValid sn → sn ∉ t.pending → t.synced = true →
      tgSnDistance t.expected sn ≠ 0 → tgSnDistance t.expected sn ≤ tgSnRange / 2 →
      (tgSnDistance t.expected sn ≤ maxGap →
        (snPendingAddRange t.pending t.expected (tgSnPrev sn)).1 = false) →
      SnAccepted t sn maxGap
        ⟨.resync, 0, 0, { t with expected := tgSnNext sn, pending := [] }⟩

theorem snTrackerAccept_accepted (t : SnTracker) (sn maxGap : ℤ) :
    SnAccepted t sn maxGap (snTrackerAccept t sn maxGap) := by
  by_cases hvalid : tgSnValid sn
  · by_cases hmem : sn ∈ t.pending
    · obtain ⟨rest, hperm, haccept⟩ := snTrackerAccept_of_mem hvalid maxGap hmem
      rw [haccept]
      exact .recovered rest hvalid hperm
    · cases hsynced : t.synced with
      | false =>
          rw [snTrackerAccept_of_unsynced hvalid maxGap hmem hsynced]
          exact .first hvalid hmem hsynced
      | true =>
          rw [snTrackerAccept_of_synced hvalid maxGap hmem hsynced]
          dsimp only
          split_ifs with hnext hbehind hgap
          · exact .inOrder hvalid hmem hsynced hnext
          · exact .duplicate hvalid hmem hsynced hbehind
          · exact .gap _ hvalid hmem hsynced hnext (not_lt.mp hbehind) hgap.1
              (Prod.ext hgap.2 rfl)
          · refine .resync hvalid hmem hsynced hnext (not_lt.mp hbehind) ?_
            intro hnear
            rw [← Bool.not_eq_true]
            exact fun hadded => hgap ⟨hnear, hadded⟩
  · rw [snTrackerAccept, if_pos hvalid]
    exact .invalid hvalid

/-- The range reported with a gap runs up to the serial before the one that
arrived. -/
theorem snTrackerAccept_gap {t : SnTracker} {sn maxGap : ℤ}
    (hgap : (snTrackerAccept t sn maxGap).result = .gap) :
    (snTrackerAccept t sn maxGap).gapFrom = t.expected ∧
      (snTrackerAccept t sn maxGap).gapTo = tgSnPrev sn := by
  have haccepted := snTrackerAccept_accepted t sn maxGap
  generalize snTrackerAccept t sn maxGap = verdict at haccepted hgap
  cases haccepted with
  | gap => exact ⟨rfl, rfl⟩
  | invalid | recovered | first | inOrder | duplicate | resync => cases hgap

theorem snTrackerAccept_duplicate {t : SnTracker} {sn maxGap : ℤ}
    (hduplicate : (snTrackerAccept t sn maxGap).result = .duplicate) :
    (snTrackerAccept t sn maxGap).tracker = t := by
  have haccepted := snTrackerAccept_accepted t sn maxGap
  generalize snTrackerAccept t sn maxGap = verdict at haccepted hduplicate
  cases haccepted with
  | duplicate => rfl
  | invalid | recovered | first | inOrder | gap | resync => cases hduplicate

end ToxRelayer
