import ToxRelayer.StepRun
import ToxRelayer.TrackerStream

/-!
# Outstanding serials

`sn_tracker_accept` takes an arrival for one it asked for before it looks at the
expected serial, since a replayed telegram "arrives behind `expected` by
construction".  That holds until the tracker has come round to a serial that
never arrived.
-/

namespace ToxRelayer

open StepRun

/-! ## Runs of one tracker -/

/-- The two ways to prepare a tracker. -/
inductive SnStart where
  | init (firstExpected : ℤ)
  | resume (lastReceived : ℤ)

def SnStart.tracker : SnStart → SnTracker
  | .init firstExpected => snTrackerInit firstExpected
  | .resume lastReceived => snTrackerResume lastReceived

structure SnArrival where
  sn : ℤ
  verdict : SnVerdict

/-- The tracker with its arrivals so far, the newest first. -/
structure SnRun where
  tracker : SnTracker
  arrivals : List SnArrival

def SnStart.run (start : SnStart) : SnRun := ⟨start.tracker, []⟩

/-- A telegram arrives at a tracker with a budget of 64. -/
def SnRun.step (s : SnRun) (sn : ℤ) : SnRun :=
  let verdict := snTrackerAccept s.tracker sn 64
  ⟨verdict.tracker, ⟨sn, verdict⟩ :: s.arrivals⟩

def SnVerdict.Reports (verdict : SnVerdict) (sn : ℤ) : Prop :=
  verdict.result = .gap ∧ snBetween verdict.gapFrom verdict.gapTo sn

/-- The serial has been reported missing and has not been accepted since. -/
def MissingIn (sn : ℤ) : List SnArrival → Prop
  | [] => False
  | arrival :: earlier =>
      arrival.verdict.Reports sn ∨
        ¬ (arrival.sn = sn ∧ arrival.verdict.result ≠ .duplicate) ∧ MissingIn sn earlier

/-- What the tracker relies on: the outstanding serials are distinct and missing, the
expected one is not among them, and its arrival is in order. -/
structure SnRun.OutstandingBehind (s : SnRun) : Prop where
  nodup : s.tracker.pending.Nodup
  notExpected : s.tracker.expected ∉ s.tracker.pending
  missing : ∀ sn ∈ s.tracker.pending, MissingIn sn s.arrivals
  inOrder : s.tracker.synced = true →
    snTrackerAccept s.tracker s.tracker.expected 64 =
      ⟨.inOrder, 0, 0, { s.tracker with expected := tgSnNext s.tracker.expected }⟩

/-- The serials `expected` is moved over by this arrival, and the one it is moved to,
are not outstanding. -/
def SnRun.PassesNone (s : SnRun) (sn : ℤ) : Prop :=
  let d := tgSnDistance s.tracker.expected sn
  s.tracker.synced = true → sn ∉ s.tracker.pending → d ≤ 64 →
    s.tracker.pending.length + d ≤ snMaxPending →
      ∀ passed ∈ serialsFrom s.tracker.expected (d.toNat + 2), passed ∉ s.tracker.pending

instance (s : SnRun) (sn : ℤ) : Decidable (s.PassesNone sn) :=
  inferInstanceAs (Decidable (_ → _))

/-! ## The trackers a run can reach -/

structure SnTracker.WithinRange (t : SnTracker) : Prop where
  expected : tgSnValid t.expected
  pending : ∀ sn ∈ t.pending, tgSnValid sn
  length_le : t.pending.length ≤ snMaxPending
  unsynced : t.synced = false → t.pending = []

theorem snTrackerInit_withinRange (firstExpected : ℤ) :
    (snTrackerInit firstExpected).WithinRange where
  expected := by
    unfold snTrackerInit
    dsimp only
    split
    · assumption
    · decide
  pending := by simp [snTrackerInit]
  length_le := by simp [snTrackerInit]
  unsynced := fun _ => rfl

theorem SnStart.withinRange (start : SnStart) : start.tracker.WithinRange := by
  cases start with
  | init firstExpected => exact snTrackerInit_withinRange firstExpected
  | resume lastReceived =>
      simp only [SnStart.tracker, snTrackerResume]
      split
      · exact snTrackerInit_withinRange tgSnMin
      · have hinit := snTrackerInit_withinRange (tgSnNext lastReceived)
        exact ⟨hinit.expected, hinit.pending, hinit.length_le, fun hfalse => by cases hfalse⟩

/-- What an arrival at a reachable tracker comes to. -/
inductive SnMoved (t : SnTracker) (sn maxGap : ℤ) : SnVerdict → Prop where
  | invalid : ¬ tgSnValid sn → SnMoved t sn maxGap ⟨.resync, 0, 0, t⟩
  | recovered (rest : List ℤ) : t.pending.Perm (sn :: rest) →
      SnMoved t sn maxGap ⟨.recovered, 0, 0, { t with pending := rest }⟩
  | first : t.synced = false →
      SnMoved t sn maxGap ⟨.inOrder, 0, 0, ⟨tgSnNext sn, true, []⟩⟩
  | inOrder : t.synced = true → sn = t.expected → sn ∉ t.pending →
      SnMoved t sn maxGap ⟨.inOrder, 0, 0, { t with expected := tgSnNext t.expected }⟩
  | duplicate : t.synced = true → sn ∉ t.pending → 499 < tgSnDistance t.expected sn →
      SnMoved t sn maxGap ⟨.duplicate, 0, 0, t⟩
  | gap (d : ℕ) : t.synced = true → sn = tgSerialAt t.expected d → sn ∉ t.pending →
      tgSnDistance t.expected sn = d → d ≠ 0 → d ≤ 499 → d ≤ maxGap →
      t.pending.length + d ≤ snMaxPending →
      SnMoved t sn maxGap
        ⟨.gap, t.expected, tgSnPrev sn,
          ⟨tgSerialAt t.expected (d + 1), true, t.pending ++ serialsFrom t.expected d⟩⟩
  | resync (d : ℕ) : t.synced = true → sn = tgSerialAt t.expected d → sn ∉ t.pending →
      tgSnDistance t.expected sn = d → d ≠ 0 → d ≤ 499 →
      ¬ (d ≤ maxGap ∧ t.pending.length + d ≤ snMaxPending) →
      SnMoved t sn maxGap ⟨.resync, 0, 0, ⟨tgSnNext sn, true, []⟩⟩

section

variable {t : SnTracker} {sn : ℤ}

theorem SnTracker.WithinRange.accept_moved (ht : t.WithinRange) (sn maxGap : ℤ) :
    SnMoved t sn maxGap (snTrackerAccept t sn maxGap) := by
  by_cases hvalid : tgSnValid sn
  · by_cases hmem : sn ∈ t.pending
    · obtain ⟨rest, hperm, haccept⟩ := snTrackerAccept_of_mem hvalid maxGap hmem
      rw [haccept]
      exact .recovered rest hperm
    · cases hsynced : t.synced with
      | false =>
          rw [snTrackerAccept_of_unsynced hvalid maxGap hmem hsynced, ht.unsynced hsynced]
          exact .first hsynced
      | true =>
          obtain ⟨d, hd, rfl, hdistance⟩ := exists_tgSerialAt ht.expected hvalid
          rw [snTrackerAccept_ahead ht.expected hsynced hd hmem maxGap]
          split_ifs with hzero hbehind hfits
          · subst hzero
            exact .inOrder hsynced rfl hmem
          · exact .duplicate hsynced hmem (by omega)
          · rw [hsynced, ← tgSerialAt_succ]
            exact .gap d hsynced rfl hmem hdistance hzero (by omega) hfits.1 hfits.2
          · rw [hsynced]
            exact .resync d hsynced rfl hmem hdistance hzero (by omega) hfits
  · rw [snTrackerAccept, if_pos hvalid]
    exact .invalid hvalid

theorem SnTracker.WithinRange.accept (ht : t.WithinRange) (sn maxGap : ℤ) :
    (snTrackerAccept t sn maxGap).tracker.WithinRange := by
  have hmoved := ht.accept_moved sn maxGap
  generalize snTrackerAccept t sn maxGap = verdict at hmoved
  cases hmoved with
  | invalid => exact ht
  | duplicate => exact ht
  | recovered rest hperm =>
      have hlength := hperm.length_eq
      have hle := ht.length_le
      rw [List.length_cons] at hlength
      refine ⟨ht.expected, ?_, ?_, ?_⟩
      · intro other hmem
        exact ht.pending other (hperm.symm.subset (List.mem_cons_of_mem _ hmem))
      · dsimp only
        omega
      · intro hunsynced
        rw [ht.unsynced hunsynced, List.length_nil] at hlength
        omega
  | first => exact ⟨tgSnNext_valid _, by simp, by simp, fun _ => rfl⟩
  | resync => exact ⟨tgSnNext_valid _, by simp, by simp, fun _ => rfl⟩
  | inOrder => exact ⟨tgSnNext_valid _, ht.pending, ht.length_le, ht.unsynced⟩
  | gap d hsynced _ _ _ _ _ _ hfits =>
      refine ⟨tgSerialAt_valid ht.expected _, ?_, ?_, fun hfalse => by cases hfalse⟩
      · intro other hmem
        rcases List.mem_append.mp hmem with hold | hskipped
        · exact ht.pending other hold
        · exact serialsFrom_valid ht.expected hskipped
      · simpa [serialsFrom] using hfits

theorem SnTracker.WithinRange.accept_expected (ht : t.WithinRange) (hsynced : t.synced = true)
    (hexpected : t.expected ∉ t.pending) (maxGap : ℤ) :
    snTrackerAccept t t.expected maxGap =
      ⟨.inOrder, 0, 0, { t with expected := tgSnNext t.expected }⟩ := by
  have hahead := snTrackerAccept_ahead ht.expected hsynced (by omega : 0 < 999) hexpected maxGap
  rwa [tgSerialAt_zero, if_pos rfl] at hahead

/-! ## One arrival -/

variable {s : SnRun}

theorem MissingIn.later {arrivals : List SnArrival} {missing : ℤ}
    (hmissing : MissingIn missing arrivals) {arrival : SnArrival}
    (hother : arrival.sn = missing → arrival.verdict.result = .duplicate) :
    MissingIn missing (arrival :: arrivals) := by
  refine .inr ⟨?_, hmissing⟩
  rintro ⟨hsame, haccepted⟩
  exact haccepted (hother hsame)

theorem SnRun.OutstandingBehind.of_pending (hs : s.tracker.WithinRange)
    (hnodup : s.tracker.pending.Nodup) (hexpected : s.tracker.expected ∉ s.tracker.pending)
    (hmissing : ∀ sn ∈ s.tracker.pending, MissingIn sn s.arrivals) : s.OutstandingBehind :=
  ⟨hnodup, hexpected, hmissing, fun hsynced => hs.accept_expected hsynced hexpected 64⟩

theorem SnRun.step_withinRange (hs : s.tracker.WithinRange) (sn : ℤ) :
    (s.step sn).tracker.WithinRange := hs.accept sn 64

/-- After a gap the outstanding serials are distinct and behind exactly when the
serials skipped, and the one now expected, were not outstanding. -/
theorem SnRun.OutstandingBehind.skip_iff (hs : s.tracker.WithinRange)
    (hbehind : s.OutstandingBehind) {d : ℕ} (hd : d ≤ 499) :
    ((s.tracker.pending ++ serialsFrom s.tracker.expected d).Nodup ∧
        tgSerialAt s.tracker.expected (d + 1) ∉
          s.tracker.pending ++ serialsFrom s.tracker.expected d) ↔
      (∀ passed ∈ serialsFrom s.tracker.expected d, passed ∉ s.tracker.pending) ∧
        tgSerialAt s.tracker.expected (d + 1) ∉ s.tracker.pending := by
  have hskipped := serialsFrom_nodup hs.expected (by omega : d ≤ 999)
  have hahead : tgSerialAt s.tracker.expected (d + 1) ∉ serialsFrom s.tracker.expected d := by
    rw [mem_serialsFrom]
    rintro ⟨k, hk, hserial⟩
    have hsame := tgSerialAt_inj_of_near hs.expected hserial (by omega) (by omega)
    omega
  rw [List.nodup_append', List.mem_append, not_or]
  constructor
  · rintro ⟨⟨-, -, hdisjoint⟩, hnext, -⟩
    exact ⟨fun passed hpassed hmem => hdisjoint hmem hpassed, hnext⟩
  · rintro ⟨hnone, hnext⟩
    exact ⟨⟨hbehind.nodup, hskipped, fun missing hmem hpassed => hnone missing hpassed hmem⟩,
      hnext, hahead⟩

theorem forall_serialsFrom_add_two {start : ℤ} {d : ℕ} {p : ℤ → Prop} :
    (∀ sn ∈ serialsFrom start (d + 2), p sn) ↔
      (∀ sn ∈ serialsFrom start d, p sn) ∧ p (tgSerialAt start d) ∧
        p (tgSerialAt start (d + 1)) := by
  simp only [serialsFrom, List.range_succ, List.map_append, List.map_singleton, List.mem_append,
    List.mem_singleton, or_imp, forall_and, forall_eq, and_assoc]

/-- One arrival keeps the outstanding serials behind exactly when it moves `expected`
over none of them. -/
theorem SnRun.step_outstandingBehind_iff (hs : s.tracker.WithinRange) {sn : ℤ}
    (hvalid : tgSnValid sn) (hbehind : s.OutstandingBehind) :
    (s.step sn).OutstandingBehind ↔ s.PassesNone sn := by
  have hmoved := hs.accept_moved sn 64
  have hnext := s.step_withinRange hs sn
  have hstep : s.step sn = ⟨(snTrackerAccept s.tracker sn 64).tracker,
    ⟨sn, snTrackerAccept s.tracker sn 64⟩ :: s.arrivals⟩ := rfl
  rw [hstep] at hnext ⊢
  generalize snTrackerAccept s.tracker sn 64 = verdict at hmoved hnext
  cases hmoved with
  | invalid hinvalid => exact absurd hvalid hinvalid
  | recovered rest hperm =>
      have hnodup := hperm.nodup_iff.mp hbehind.nodup
      have hsubset : ∀ other ∈ rest, other ∈ s.tracker.pending := fun other hmem =>
        hperm.symm.subset (List.mem_cons_of_mem _ hmem)
      refine iff_of_true (.of_pending hnext hnodup.of_cons ?_ ?_) ?_
      · exact fun hmem => hbehind.notExpected (hsubset _ hmem)
      · intro missing hmem
        refine (hbehind.missing missing (hsubset _ hmem)).later ?_
        rintro rfl
        exact absurd hmem (List.nodup_cons.mp hnodup).1
      · intro _ hnotMem
        exact absurd (hperm.symm.subset List.mem_cons_self) hnotMem
  | first hunsynced =>
      refine iff_of_true (.of_pending hnext ?_ ?_ ?_) ?_
      · exact List.nodup_nil
      · exact List.not_mem_nil
      · exact fun missing hmem => absurd hmem List.not_mem_nil
      · intro hsynced
        rw [hunsynced] at hsynced
        cases hsynced
  | duplicate _ _ hfar =>
      refine iff_of_true (.of_pending hnext hbehind.nodup hbehind.notExpected ?_) ?_
      · exact fun missing hmem => (hbehind.missing missing hmem).later fun _ => rfl
      · intro _ _ hnear
        omega
  | resync d _ _ _ hdistance _ _ hfits =>
      refine iff_of_true (.of_pending hnext ?_ ?_ ?_) ?_
      · exact List.nodup_nil
      · exact List.not_mem_nil
      · exact fun missing hmem => absurd hmem List.not_mem_nil
      · intro _ _ hnear hroom
        rw [hdistance] at hnear hroom
        exact absurd ⟨hnear, by omega⟩ hfits
  | inOrder hsynced hsame hmem =>
      have hdistance : tgSnDistance s.tracker.expected sn = (0 : ℕ) := by
        rw [hsame, tgSnDistance_eq]
        simp
      have hroom := hs.length_le
      simp only [SnRun.PassesNone, hdistance, Int.toNat_natCast, forall_serialsFrom_add_two]
      constructor
      · intro hafter _ _ _ _
        refine ⟨by simp [serialsFrom], ?_, ?_⟩
        · rw [tgSerialAt_zero]
          exact hbehind.notExpected
        · rw [tgSerialAt_succ, tgSerialAt_zero]
          exact hafter.notExpected
      · intro hnone
        have hfree := (hnone hsynced hmem (by omega) (by omega)).2.2
        rw [tgSerialAt_succ, tgSerialAt_zero] at hfree
        refine .of_pending hnext hbehind.nodup hfree ?_
        intro missing hmissing
        refine (hbehind.missing missing hmissing).later ?_
        rintro rfl
        exact absurd hmissing hmem
  | gap d hsynced hserial hmem hdistance hpos hhalf hnear hfits =>
      have hskip := hbehind.skip_iff hs hhalf
      simp only [SnRun.PassesNone, hdistance, Int.toNat_natCast, forall_serialsFrom_add_two]
      constructor
      · intro hafter _ _ _ _
        obtain ⟨hnone, hfree⟩ := hskip.mp ⟨hafter.nodup, hafter.notExpected⟩
        rw [hserial] at hmem
        exact ⟨hnone, hmem, hfree⟩
      · intro hnone
        obtain ⟨hskipped, -, hfree⟩ := hnone hsynced hmem hnear (by omega)
        obtain ⟨hnodup, hexpected⟩ := hskip.mpr ⟨hskipped, hfree⟩
        refine .of_pending hnext hnodup hexpected ?_
        intro missing hmissing
        rcases List.mem_append.mp hmissing with hold | hnew
        · refine (hbehind.missing missing hold).later ?_
          rintro rfl
          exact absurd hold hmem
        · refine .inl ⟨rfl, ?_⟩
          rw [hserial]
          exact (snBetween_skipped_iff hs.expected hpos (by omega) missing).mpr hnew

end

/-- In every state of a run the outstanding serials are distinct and behind the
tracker exactly when no arrival moves `expected` over one of them. -/
theorem outstandingBehind_iff (start : SnStart) {serials : List ℤ}
    (hvalid : ∀ sn ∈ serials, tgSnValid sn) :
    Throughout SnRun.step SnRun.OutstandingBehind start.run serials ↔
      Along SnRun.step SnRun.PassesNone start.run serials := by
  have hrange : start.run.tracker.WithinRange := start.withinRange
  have hempty : start.run.tracker.pending = [] := by
    cases start with
    | init firstExpected => rfl
    | resume lastReceived =>
        simp only [SnStart.run, SnStart.tracker, snTrackerResume]
        split <;> rfl
  refine throughout_iff_along (I := fun s : SnRun => s.tracker.WithinRange) ?_ ?_ hrange ?_ hvalid
  · exact fun s sn hs _ => s.step_withinRange hs sn
  · exact fun s sn hs hsn hbehind => SnRun.step_outstandingBehind_iff hs hsn hbehind
  · refine .of_pending hrange ?_ ?_ ?_
    · rw [hempty]
      exact List.nodup_nil
    · rw [hempty]
      exact List.not_mem_nil
    · rw [hempty]
      exact fun missing hmem => absurd hmem List.not_mem_nil

/-- Serials `1` and `2` are lost, and recovered after later telegrams. -/
theorem outstandingBehind_iff_recovered :
    Throughout SnRun.step SnRun.OutstandingBehind (SnStart.resume 999).run [3, 4, 2, 5, 1, 6] ↔
      Along SnRun.step SnRun.PassesNone (SnStart.resume 999).run [3, 4, 2, 5, 1, 6] :=
  outstandingBehind_iff (.resume 999) (by decide)

/-! ## A serial that never arrives -/

theorem SnRun.foldl_consecutive {start : ℤ} (hstart : tgSnValid start) (pending : List ℤ)
    (count next : ℕ) {s : SnRun} (hs : s.tracker = ⟨tgSerialAt start next, true, pending⟩)
    (hfresh : ∀ i, next ≤ i → i < next + count → tgSerialAt start i ∉ pending) :
    (((List.range' next count).map (tgSerialAt start)).foldl SnRun.step s).tracker =
      ⟨tgSerialAt start (next + count), true, pending⟩ := by
  induction count generalizing next s with
  | zero => exact hs
  | succ count ih =>
      have hfirst : (s.step (tgSerialAt start next)).tracker =
          ⟨tgSerialAt start (next + 1), true, pending⟩ := by
        have hexpected : s.tracker.expected = tgSerialAt start next := by rw [hs]
        have hahead := snTrackerAccept_ahead (t := s.tracker) (d := 0)
          (hexpected ▸ tgSerialAt_valid hstart next) (by rw [hs]) (by omega)
          (by
            rw [tgSerialAt_zero, hexpected, hs]
            exact hfresh next le_rfl (by omega)) 64
        rw [if_pos rfl, tgSerialAt_zero, hexpected] at hahead
        rw [SnRun.step, hahead, hs, tgSerialAt_succ]
      rw [List.range'_succ, List.map_cons, List.foldl_cons,
        ih (next + 1) hfirst (fun i hle hlt => hfresh i (by omega) (by omega))]
      congr 2
      omega

/-- Serial `2` is lost, and the tracker comes round to it. -/
def roundTrip : List ℤ := [1, 3] ++ (List.range' 3 997).map (tgSerialAt 1)

theorem outstandingBehind_roundTrip :
    ¬ ∀ (start : SnStart) (serials : List ℤ), (∀ sn ∈ serials, tgSnValid sn) →
      Throughout SnRun.step SnRun.OutstandingBehind start.run serials := by
  intro hall
  have hstart : tgSnValid 1 := by decide
  have hopen : ∀ sn ∈ ([1, 3] : List ℤ), tgSnValid sn := by decide
  have hvalid : ∀ sn ∈ roundTrip, tgSnValid sn := by
    intro sn hmem
    rcases List.mem_append.mp hmem with hopening | hlap
    · exact hopen sn hopening
    · obtain ⟨i, -, rfl⟩ := List.mem_map.mp hlap
      exact tgSerialAt_valid hstart i
  have hlast := (hall (.init 1) roundTrip hvalid).last.notExpected
  rw [roundTrip, List.foldl_append] at hlast
  have hround := SnRun.foldl_consecutive hstart [2] 997 3
    (s := [1, 3].foldl SnRun.step (SnStart.init 1).run) rfl (by
      intro i hle hlt hmem
      rw [List.mem_singleton, tgSerialAt_eq hstart] at hmem
      omega)
  have hlap : tgSerialAt 1 (3 + 997) = 2 := by
    rw [tgSerialAt_eq hstart]
    rfl
  rw [hround, hlap] at hlast
  exact hlast (List.mem_singleton.mpr rfl)

/-! ## The next arrival of a skipped serial -/

structure SnCall where
  sn : ℤ
  maxGap : ℤ

def snStep (t : SnTracker) (call : SnCall) : SnTracker :=
  (snTrackerAccept t call.sn call.maxGap).tracker

/-- The call is not an arrival of `sn`, and does not make the tracker forget what it
asked for. -/
def SnCall.LeavesOutstanding (sn : ℤ) (t : SnTracker) (call : SnCall) : Prop :=
  call.sn ≠ sn ∧ (snTrackerAccept t call.sn call.maxGap).result ≠ .resync

instance (sn : ℤ) (t : SnTracker) (call : SnCall) : Decidable (call.LeavesOutstanding sn t) :=
  inferInstanceAs (Decidable (_ ∧ _))

section

variable {t : SnTracker}

theorem SnTracker.WithinRange.after (ht : t.WithinRange) (calls : List SnCall) :
    (calls.foldl snStep t).WithinRange := by
  induction calls generalizing t with
  | nil => exact ht
  | cons call calls ih => exact ih (ht.accept call.sn call.maxGap)

theorem SnTracker.WithinRange.mem_pending_step (ht : t.WithinRange) {sn : ℤ}
    (hmem : sn ∈ t.pending) {call : SnCall} (hleaves : call.LeavesOutstanding sn t) :
    sn ∈ (snStep t call).pending := by
  obtain ⟨hother, hresync⟩ := hleaves
  have hmoved := ht.accept_moved call.sn call.maxGap
  unfold snStep
  generalize snTrackerAccept t call.sn call.maxGap = verdict at hmoved hresync
  cases hmoved with
  | invalid => exact absurd rfl hresync
  | resync => exact absurd rfl hresync
  | inOrder => exact hmem
  | duplicate => exact hmem
  | recovered rest hperm =>
      rcases List.mem_cons.mp (hperm.subset hmem) with hsame | hrest
      · exact absurd hsame.symm hother
      · exact hrest
  | first hunsynced =>
      rw [ht.unsynced hunsynced] at hmem
      exact absurd hmem List.not_mem_nil
  | gap => exact List.mem_append_left _ hmem

theorem SnTracker.WithinRange.mem_pending_gap (ht : t.WithinRange) {call : SnCall}
    (hgap : (snTrackerAccept t call.sn call.maxGap).result = .gap) {sn : ℤ}
    (hskipped : snBetween (snTrackerAccept t call.sn call.maxGap).gapFrom
      (snTrackerAccept t call.sn call.maxGap).gapTo sn) :
    sn ∈ (snStep t call).pending := by
  have hmoved := ht.accept_moved call.sn call.maxGap
  unfold snStep
  generalize snTrackerAccept t call.sn call.maxGap = verdict at hmoved hgap hskipped
  cases hmoved with
  | gap d _ hserial _ _ hpos hhalf =>
      rw [hserial] at hskipped
      apply List.mem_append_right
      exact (snBetween_skipped_iff ht.expected hpos (by omega) sn).mp hskipped
  | invalid | recovered | first | inOrder | duplicate | resync => cases hgap

end

/-- Every serial of a reported gap is recognised when it next arrives, unless the
tracker has resynchronised in between. -/
theorem skipped_recovered (start : SnStart) (before : List SnCall) (arrival : SnCall)
    (later : List SnCall) (sn maxGap : ℤ) :
    let t := before.foldl snStep start.tracker
    let verdict := snTrackerAccept t arrival.sn arrival.maxGap
    let t' := later.foldl snStep verdict.tracker
    verdict.result = .gap → snBetween verdict.gapFrom verdict.gapTo sn →
      Along snStep (fun t call => call.LeavesOutstanding sn t) verdict.tracker later →
      (snTrackerAccept t' sn maxGap).result = .recovered ∧
        (snTrackerAccept t' sn maxGap).tracker.expected = t'.expected := by
  intro t verdict t' hgap hskipped hlater
  have ht : t.WithinRange := start.withinRange.after before
  have hpending : t'.WithinRange ∧ sn ∈ t'.pending := by
    refine hlater.last (I := fun t => t.WithinRange ∧ sn ∈ t.pending) ?_ ?_
    · rintro t call ⟨ht, hmem⟩ hleaves
      exact ⟨ht.accept call.sn call.maxGap, ht.mem_pending_step hmem hleaves⟩
    · exact ⟨ht.accept arrival.sn arrival.maxGap, ht.mem_pending_gap hgap hskipped⟩
  have hvalid := hpending.1.pending sn hpending.2
  obtain ⟨rest, -, haccept⟩ := snTrackerAccept_of_mem hvalid maxGap hpending.2
  rw [haccept]
  exact ⟨rfl, rfl⟩

/-- `999` and `1` are skipped; `1` arrives after another gap and a recovery. -/
theorem skipped_recovered_wrapped :
    let calls : List SnCall := [⟨5, 64⟩, ⟨999, 64⟩, ⟨998, 0⟩]
    let t' := calls.foldl snStep (snTrackerAccept (snTrackerResume 998) 2 64).tracker
    (snTrackerAccept t' 1 0).result = .recovered ∧
      (snTrackerAccept t' 1 0).tracker.expected = t'.expected :=
  skipped_recovered (.resume 998) [] ⟨2, 64⟩ [⟨5, 64⟩, ⟨999, 64⟩, ⟨998, 0⟩] 1 0 (by decide)
    (by decide) ⟨by decide, by decide, by decide, trivial⟩

end ToxRelayer
