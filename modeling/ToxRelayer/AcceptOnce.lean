import ToxRelayer.TrackerStream

/-!
# Accepting each telegram at most once

`sn_tracker_accept` promises that `expected` always ends one past the highest
serial it accepted.  An outstanding serial of the lap before breaks that: the
telegram that carries it one lap later is taken for the one still missing.
-/

namespace ToxRelayer

open NumberedStream (Receiver Verdict verdicts takenCount nextOf)

/-- The results of one tracker on a sequence of serials. -/
def snAcceptAll (maxGap : ℤ) : SnTracker → List ℤ → List SnResult
  | _, [] => []
  | t, sn :: serials =>
      (snTrackerAccept t sn maxGap).result ::
        snAcceptAll maxGap (snTrackerAccept t sn maxGap).tracker serials

/-- How often a sequence of arrivals of telegrams was given a result other
than `SN_DUPLICATE` for telegram `k`. -/
def acceptedCount (k : ℕ) (arrivals : List ℕ) (results : List SnResult) : ℕ :=
  (arrivals.zip results).countP fun arrival =>
    arrival.1 = k ∧ arrival.2 ≠ .duplicate

/-- Each arrival is less than 499 telegrams behind the newest one that arrived
and at most `maxGap` beyond it. -/
def Admissible (maxGap : ℕ) : Option ℕ → List ℕ → Prop
  | _, [] => True
  | none, k :: arrivals => Admissible maxGap (some k) arrivals
  | some newest, k :: arrivals =>
      newest < k + 499 ∧ k ≤ newest + maxGap ∧
        Admissible maxGap (some (max newest k)) arrivals

/-- Every arrival newer than all before it meets no outstanding serial of an
older lap. -/
def FreshRun (start : ℤ) (maxGap : ℕ) : SnTracker → Option ℕ → List ℕ → Prop
  | _, _, [] => True
  | t, none, k :: arrivals =>
      FreshRun start maxGap (snTrackerAccept t (tgSerialAt start k) maxGap).tracker
        (some k) arrivals
  | t, some newest, k :: arrivals =>
      (newest < k → NoStaleAhead start t (newest + 1) k) ∧
        FreshRun start maxGap (snTrackerAccept t (tgSerialAt start k) maxGap).tracker
          (some (max newest k)) arrivals

def decidableAdmissible (maxGap : ℕ) :
    (newest : Option ℕ) → (arrivals : List ℕ) → Decidable (Admissible maxGap newest arrivals)
  | _, [] => isTrue trivial
  | none, k :: arrivals => decidableAdmissible maxGap (some k) arrivals
  | some newest, k :: arrivals =>
      have := decidableAdmissible maxGap (some (max newest k)) arrivals
      inferInstanceAs (Decidable (_ ∧ _ ∧ _))

instance (maxGap : ℕ) (newest : Option ℕ) (arrivals : List ℕ) :
    Decidable (Admissible maxGap newest arrivals) :=
  decidableAdmissible maxGap newest arrivals

def decidableFreshRun (start : ℤ) (maxGap : ℕ) :
    (t : SnTracker) → (newest : Option ℕ) → (arrivals : List ℕ) →
      Decidable (FreshRun start maxGap t newest arrivals)
  | _, _, [] => isTrue trivial
  | _, none, _ :: arrivals => decidableFreshRun start maxGap _ _ arrivals
  | t, some newest, k :: arrivals =>
      have := decidableFreshRun start maxGap
        (snTrackerAccept t (tgSerialAt start k) maxGap).tracker (some (max newest k)) arrivals
      inferInstanceAs (Decidable ((_ → _) ∧ _))

instance (start : ℤ) (maxGap : ℕ) (t : SnTracker) (newest : Option ℕ) (arrivals : List ℕ) :
    Decidable (FreshRun start maxGap t newest arrivals) :=
  decidableFreshRun start maxGap t newest arrivals

theorem SnResult.ofVerdict_eq_duplicate_iff (verdict : Verdict) :
    SnResult.ofVerdict verdict = .duplicate ↔ verdict = .duplicate :=
  ⟨fun hsame => SnResult.ofVerdict_inj hsame, congrArg SnResult.ofVerdict⟩

/-- Along an admissible fresh run the tracker gives the verdicts of the
receiver that sees whole numbers. -/
theorem snAcceptAll_eq_verdicts {start : ℤ} (hstart : tgSnValid start) {maxGap : ℕ}
    (hmaxGap : maxGap ≤ 499) (arrivals : List ℕ) {t : SnTracker} {state : Option Receiver}
    {newest : Option ℕ} (hshows : Shows start t state)
    (hnewest : newest.map (· + 1) = state.map Receiver.next)
    (hadmissible : Admissible maxGap newest arrivals)
    (hfresh : FreshRun start maxGap t newest arrivals) :
    snAcceptAll maxGap t (arrivals.map (tgSerialAt start)) =
      (verdicts maxGap snMaxPending state arrivals).map .ofVerdict := by
  induction arrivals generalizing t state newest with
  | nil => rfl
  | cons k rest ih =>
      cases state with
      | none =>
          obtain rfl : newest = none := Option.map_eq_none_iff.mp hnewest
          obtain ⟨hresult, hnext⟩ := hshows.accept hstart (k := k) maxGap
            (by simp) (by simp)
          rw [List.map_cons, snAcceptAll, verdicts, List.map_cons, hresult]
          congr 1
          exact ih hnext rfl hadmissible hfresh
      | some receiver =>
          obtain ⟨newest, rfl, hlast⟩ : ∃ n, newest = some n ∧ n + 1 = receiver.next := by
            simpa using hnewest
          obtain ⟨hbehind, hahead, hadmissible⟩ := hadmissible
          obtain ⟨hstale, hfresh⟩ := hfresh
          obtain ⟨hresult, hnext⟩ := hshows.accept hstart (k := k) maxGap
            (by
              rintro _ ⟨⟩
              omega)
            (by
              rintro _ ⟨⟩ hle
              rw [← hlast]
              exact hstale (by omega))
          have hmax := NumberedStream.accept_next maxGap snMaxPending (some receiver) k
          rw [List.map_cons, snAcceptAll, verdicts, List.map_cons, hresult]
          congr 1
          refine ih hnext ?_ hadmissible hfresh
          rw [Option.map_some, Option.map_some, hmax, nextOf]
          congr 1
          omega

theorem acceptedCount_ofVerdict (k : ℕ) (arrivals : List ℕ) (answers : List Verdict) :
    acceptedCount k arrivals (answers.map .ofVerdict) = takenCount k arrivals answers := by
  rw [acceptedCount, takenCount, List.zip_map_right, List.countP_map]
  refine List.countP_congr ?_
  intro arrival _
  simp [SnResult.ofVerdict_eq_duplicate_iff]

/-- Every telegram is accepted at most once in a run in which no newer arrival
meets a stale outstanding serial. -/
theorem snTrackerAccept_atMostOnce {start : ℤ} (hstart : tgSnValid start)
    (firstExpected : ℤ) (arrivals : List ℕ)
    (hadmissible : Admissible 64 none arrivals)
    (hfresh : FreshRun start 64 (snTrackerInit firstExpected) none arrivals) (k : ℕ) :
    acceptedCount k arrivals
      (snAcceptAll 64 (snTrackerInit firstExpected) (arrivals.map (tgSerialAt start))) ≤ 1 := by
  have hinitial : Shows start (snTrackerInit firstExpected) none := ⟨rfl, rfl⟩
  have hverdicts := snAcceptAll_eq_verdicts hstart (by omega) arrivals hinitial rfl hadmissible
    hfresh
  rw [Nat.cast_ofNat] at hverdicts
  rw [hverdicts, acceptedCount_ofVerdict]
  exact NumberedStream.takenCount_le_one none k arrivals

/-- Telegram `2` is lost and sent again across the wrap point. -/
theorem snTrackerAccept_atMostOnce_replayed :
    acceptedCount 2 [0, 1, 3, 2, 2]
      (snAcceptAll 64 (snTrackerInit 1) ([0, 1, 3, 2, 2].map (tgSerialAt 998))) ≤ 1 :=
  snTrackerAccept_atMostOnce (by decide) 1 [0, 1, 3, 2, 2] (by decide) (by decide) 2

/-! ## A stale serial is accepted twice -/

theorem acceptedCount_cons_of_ne_duplicate (k : ℕ) {result : SnResult}
    (hresult : result ≠ .duplicate) (arrivals : List ℕ) (results : List SnResult) :
    acceptedCount k (k :: arrivals) (result :: results) =
      acceptedCount k arrivals results + 1 := by
  rw [acceptedCount, List.zip_cons_cons, List.countP_cons_of_pos (by simpa using hresult)]
  rfl

theorem snTrackerAccept_ne_duplicate {start : ℤ} (hstart : tgSnValid start) {t : SnTracker}
    {next k : ℕ} (maxGap : ℤ) (hsynced : t.synced = true)
    (hexpected : t.expected = tgSerialAt start next)
    (hfresh : tgSerialAt start k ∈ t.pending ∨ next ≤ k ∧ k ≤ next + 499) :
    (snTrackerAccept t (tgSerialAt start k) maxGap).result ≠ .duplicate := by
  have hvalid := tgSerialAt_valid hstart k
  by_cases hmem : tgSerialAt start k ∈ t.pending
  · obtain ⟨rest, -, haccept⟩ := snTrackerAccept_of_mem hvalid maxGap hmem
    simp [haccept]
  · obtain ⟨hahead, hclose⟩ := hfresh.resolve_left hmem
    have hdist := tgSnDistance_tgSerialAt hstart next k
    have hhalf : tgSnRange / 2 = 499 := by decide
    rw [snTrackerAccept_of_synced hvalid maxGap hmem hsynced, hexpected]
    simp only [hhalf]
    split_ifs with hzero hbehind hgap
    · simp
    · omega
    · simp
    · simp

/-- A serial that is outstanding twice is accepted twice. -/
theorem snTrackerAccept_twice_of_count {t : SnTracker} {sn : ℤ} (hvalid : tgSnValid sn)
    (maxGap : ℤ) (hcount : 2 ≤ t.pending.count sn) :
    (snTrackerAccept t sn maxGap).result ≠ .duplicate ∧
      (snTrackerAccept (snTrackerAccept t sn maxGap).tracker sn maxGap).result ≠ .duplicate := by
  obtain ⟨rest, hperm, hfirst⟩ := snTrackerAccept_of_mem hvalid maxGap
    (List.count_pos_iff.mp (by omega) : sn ∈ t.pending)
  have hremains : sn ∈ rest := by
    have hrest := hperm.count_eq sn
    rw [List.count_cons_self] at hrest
    exact List.count_pos_iff.mp (by omega)
  obtain ⟨last, -, hsecond⟩ := snTrackerAccept_of_mem hvalid maxGap
    (t := (snTrackerAccept t sn maxGap).tracker)
    (by
      rw [hfirst]
      exact hremains)
  exact ⟨by simp [hfirst], by simp [hsecond]⟩

/-- A telegram ahead makes the serials it skips outstanding when they fit. -/
theorem snTrackerAccept_skips {start : ℤ} (hstart : tgSnValid start) {t : SnTracker}
    {next skipped : ℕ} (hsynced : t.synced = true) (hexpected : t.expected = tgSerialAt start next)
    (hmem : tgSerialAt start (next + skipped + 1) ∉ t.pending) (hclose : skipped + 1 ≤ 64)
    (hroom : t.pending.length + (skipped + 1) ≤ snMaxPending) :
    snTrackerAccept t (tgSerialAt start (next + skipped + 1)) 64 =
      ⟨.gap, t.expected, tgSerialAt start (next + skipped),
        ⟨tgSnNext (tgSerialAt start (next + skipped + 1)), true, t.pending ++
          (List.range' next (skipped + 1)).map (tgSerialAt start)⟩⟩ := by
  have hvalid := tgSerialAt_valid hstart (next + skipped + 1)
  have hadd := snPendingAddRange_of_fits hstart t.pending next skipped hroom
  have hhalf : tgSnRange / 2 = 499 := by decide
  have hdist : tgSnDistance (tgSerialAt start next) (tgSerialAt start (next + skipped + 1)) =
      skipped + 1 := by
    rw [tgSnDistance_tgSerialAt hstart]
    push_cast
    omega
  rw [snTrackerAccept_of_synced hvalid 64 hmem hsynced, tgSnPrev_tgSerialAt_succ hstart]
  simp only [hexpected, hdist, hhalf, hadd, hsynced, and_true]
  rw [if_neg (by omega), if_neg (by omega), if_pos (by omega)]

/-- Where `NoStaleAhead` fails, some admissible continuation accepts a telegram
twice. -/
theorem acceptedCount_two_of_stale {start : ℤ} (hstart : tgSnValid start) {t : SnTracker}
    {newest k : ℕ} (hsynced : t.synced = true)
    (hexpected : t.expected = tgSerialAt start (newest + 1))
    (hnewer : newest < k) (hclose : k ≤ newest + 64)
    (hstale : ¬ NoStaleAhead start t (newest + 1) k) :
    ∃ arrivals twice, Admissible 64 (some newest) arrivals ∧
      2 ≤ acceptedCount twice arrivals
        (snAcceptAll 64 t (arrivals.map (tgSerialAt start))) := by
  have hvalid := tgSerialAt_valid hstart k
  by_cases hmem : tgSerialAt start k ∈ t.pending
  · -- It is accepted as recovered, and then as the next one or as a gap.
    refine ⟨[k, k], k, ?_, ?_⟩
    · simp only [Admissible, max_eq_right hnewer.le, and_true]
      omega
    · obtain ⟨rest, -, haccept⟩ := snTrackerAccept_of_mem hvalid 64 hmem
      have hfirst : (snTrackerAccept t (tgSerialAt start k) 64).result ≠ .duplicate := by
        simp [haccept]
      have hsecond : (snTrackerAccept (snTrackerAccept t (tgSerialAt start k) 64).tracker
          (tgSerialAt start k) 64).result ≠ .duplicate := by
        rw [haccept]
        exact snTrackerAccept_ne_duplicate hstart 64 hsynced hexpected
          (.inr ⟨hnewer, by omega⟩)
      simp only [List.map_cons, List.map_nil, snAcceptAll]
      rw [acceptedCount_cons_of_ne_duplicate k hfirst,
        acceptedCount_cons_of_ne_duplicate k hsecond]
      omega
  · -- It skips a serial that is outstanding already, which then is so twice.
    obtain ⟨hroom, i, hi, hagain⟩ : t.pending.length + (k - (newest + 1)) ≤ snMaxPending ∧
        ∃ i ∈ Finset.Ico (newest + 1) k, tgSerialAt start i ∈ t.pending := by
      simpa [NoStaleAhead, hmem, and_assoc] using hstale
    obtain ⟨hle, hlt⟩ := Finset.mem_Ico.mp hi
    obtain ⟨skipped, rfl⟩ : ∃ skipped, k = newest + 1 + skipped + 1 :=
      ⟨k - newest - 2, by omega⟩
    have hgap := snTrackerAccept_skips hstart hsynced hexpected hmem (by omega) (by omega)
    refine ⟨[newest + 1 + skipped + 1, i, i], i, ?_, ?_⟩
    · simp only [Admissible, and_true]
      omega
    · have hskipped : tgSerialAt start i ∈
          (List.range' (newest + 1) (skipped + 1)).map (tgSerialAt start) :=
        List.mem_map_of_mem (List.mem_range'_1.mpr ⟨hle, by omega⟩)
      have hcount : 2 ≤ (snTrackerAccept t (tgSerialAt start (newest + 1 + skipped + 1))
          64).tracker.pending.count (tgSerialAt start i) := by
        have hold := List.count_pos_iff.mpr hagain
        have hnew := List.count_pos_iff.mpr hskipped
        rw [hgap, List.count_append]
        omega
      obtain ⟨hfirst, hsecond⟩ :=
        snTrackerAccept_twice_of_count (tgSerialAt_valid hstart i) 64 hcount
      have hne : newest + 1 + skipped + 1 ≠ i := by omega
      simp only [List.map_cons, List.map_nil, snAcceptAll]
      rw [acceptedCount, List.zip_cons_cons, List.countP_cons_of_neg (by simp [hne]),
        ← acceptedCount, acceptedCount_cons_of_ne_duplicate i hfirst,
        acceptedCount_cons_of_ne_duplicate i hsecond]
      omega

theorem snAcceptAll_consecutive {start : ℤ} (hstart : tgSnValid start) (maxGap : ℤ)
    (pending : List ℤ) (count next : ℕ) (serials : List ℤ)
    (hfresh : ∀ i, next ≤ i → i < next + count → tgSerialAt start i ∉ pending) :
    snAcceptAll maxGap ⟨tgSerialAt start next, true, pending⟩
        ((List.range' next count).map (tgSerialAt start) ++ serials) =
      List.replicate count .inOrder ++
        snAcceptAll maxGap ⟨tgSerialAt start (next + count), true, pending⟩ serials := by
  induction count generalizing next with
  | zero => rfl
  | succ count ih =>
      have hfirst : snTrackerAccept ⟨tgSerialAt start next, true, pending⟩
          (tgSerialAt start next) maxGap =
            ⟨.inOrder, 0, 0, ⟨tgSerialAt start (next + 1), true, pending⟩⟩ := by
        rw [snTrackerAccept_of_synced (tgSerialAt_valid hstart next) maxGap
          (hfresh next le_rfl (by omega)) rfl, tgSerialAt_succ]
        simp only [tgSnDistance_tgSerialAt hstart, sub_self, Int.zero_emod, if_true]
      have hrest := ih (next + 1) (fun i hle hlt => hfresh i (by omega) (by omega))
      rw [List.range'_succ, List.map_cons, List.cons_append, snAcceptAll, hfirst, hrest,
        List.replicate_succ, List.cons_append, Nat.add_right_comm, Nat.add_assoc]

theorem admissible_consecutive {maxGap : ℕ} (hmaxGap : 0 < maxGap) (count newest : ℕ)
    (arrivals : List ℕ) :
    Admissible maxGap (some newest) (List.range' (newest + 1) count ++ arrivals) ↔
      Admissible maxGap (some (newest + count)) arrivals := by
  induction count generalizing newest with
  | zero => rfl
  | succ count ih =>
      have hmax : max newest (newest + 1) = newest + 1 := by omega
      have hcount : newest + 1 + count = newest + (count + 1) := by omega
      rw [List.range'_succ, List.cons_append, Admissible, hmax, ih, hcount]
      constructor
      · rintro ⟨-, -, hrest⟩
        exact hrest
      · intro hrest
        exact ⟨by omega, by omega, hrest⟩

theorem acceptedCount_append (k : ℕ) {first second : List ℕ}
    {firstResults secondResults : List SnResult} (hlength : first.length = firstResults.length) :
    acceptedCount k (first ++ second) (firstResults ++ secondResults) =
      acceptedCount k first firstResults + acceptedCount k second secondResults := by
  rw [acceptedCount, List.zip_append hlength, List.countP_append]
  rfl

theorem acceptedCount_of_notMem {k : ℕ} {arrivals : List ℕ} (hmem : k ∉ arrivals)
    (results : List SnResult) : acceptedCount k arrivals results = 0 := by
  rw [acceptedCount, List.countP_eq_zero]
  rintro ⟨arrival, result⟩ harrival
  have hne : arrival ≠ k := by
    rintro rfl
    exact hmem (List.of_mem_zip harrival).1
  simp [hne]

/-- Telegram `1` is lost for good and telegram `1000`, which carries its serial
one lap later, arrives twice. -/
def lappedArrivals : List ℕ := [0, 2] ++ (List.range' 3 997 ++ [1000, 1000])

theorem snTrackerAccept_not_atMostOnce :
    Admissible 64 none lappedArrivals ∧
      acceptedCount 1000 lappedArrivals
        (snAcceptAll 64 (snTrackerInit 1) (lappedArrivals.map (tgSerialAt 1))) = 2 := by
  have hstart : tgSnValid 1 := by decide
  constructor
  · have hconsecutive := admissible_consecutive (by decide : 0 < 64) 997 2 [1000, 1000]
    exact ⟨by decide, by decide, hconsecutive.mpr (by decide)⟩
  · have hlap : tgSerialAt 1 1000 = 2 := by
      rw [tgSerialAt_eq hstart]
      rfl
    have hopening (serials : List ℤ) :
        snAcceptAll 64 (snTrackerInit 1) ([0, 2].map (tgSerialAt 1) ++ serials) =
          [.inOrder, .gap] ++ snAcceptAll 64 ⟨tgSerialAt 1 3, true, [2]⟩ serials := rfl
    have hclosing : snAcceptAll 64 ⟨tgSerialAt 1 (3 + 997), true, [2]⟩
        ([1000, 1000].map (tgSerialAt 1)) = [.recovered, .inOrder] := by
      rw [List.map_cons, List.map_cons, List.map_nil, hlap]
      rfl
    have hmiddle := snAcceptAll_consecutive hstart 64 [2] 997 3
      ([1000, 1000].map (tgSerialAt 1)) (by
        intro i hle hlt hmem
        rw [List.mem_singleton, tgSerialAt_eq hstart] at hmem
        omega)
    have hnone : 1000 ∉ List.range' 3 997 := by
      rw [List.mem_range'_1]
      omega
    rw [lappedArrivals, List.map_append, List.map_append, hopening, hmiddle, hclosing,
      acceptedCount_append 1000 (by rfl),
      acceptedCount_append 1000 (by rw [List.length_range', List.length_replicate]),
      acceptedCount_of_notMem hnone]
    rfl

end ToxRelayer
