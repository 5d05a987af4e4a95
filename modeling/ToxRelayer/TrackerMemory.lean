import ToxRelayer.CheckedMemory
import ToxRelayer.TrackerStream

/-!
# The array of the tracker

`SnTracker` has a list for the outstanding serials.  Here they are the array of
`SN_MAX_PENDING` cells that the code indexes, with every access checked; a loop
that does not return within its rounds is `none` too.
-/

namespace ToxRelayer

open CheckedMemory

structure SnTrackerMem where
  expected : ℤ
  synced : Bool
  pending : List ℤ
  pendingCount : ℕ
  deriving DecidableEq

/-- The loop of `sn_pending_take` from index `i` on. -/
def snPendingTakeFrom (m : SnTrackerMem) (sn : ℤ) : ℕ → ℕ → Option (Bool × SnTrackerMem)
  | 0, _ => none
  | rounds + 1, i =>
      if i < m.pendingCount then do
        let entry ← load m.pending i
        if entry = sn then
          let last ← load m.pending (m.pendingCount - 1)
          let pending ← store m.pending i last
          some (true, { m with pending := pending, pendingCount := m.pendingCount - 1 })
        else snPendingTakeFrom m sn rounds (i + 1)
      else some (false, m)

def snPendingTakeMem (m : SnTrackerMem) (sn : ℤ) : Option (Bool × SnTrackerMem) :=
  snPendingTakeFrom m sn (m.pendingCount + 1) 0

/-- The loop of `sn_pending_add_range` -/
def snPendingAddLoopMem : ℕ → SnTrackerMem → ℤ → ℤ → Option (Bool × SnTrackerMem)
  | 0, _, _, _ => none
  | rounds + 1, m, sn, target =>
      if snMaxPending ≤ m.pendingCount then some (false, m)
      else do
        let pending ← store m.pending m.pendingCount sn
        let m := { m with pending := pending, pendingCount := m.pendingCount + 1 }
        if sn = target then some (true, m)
        else snPendingAddLoopMem rounds m (tgSnNext sn) target

def snPendingAddRangeMem (m : SnTrackerMem) (start target : ℤ) : Option (Bool × SnTrackerMem) :=
  if snMaxPending ≤ m.pendingCount then some (false, m)
  else snPendingAddLoopMem (snMaxPending + 1) m start target

/-- `SnVerdict` with the tracker in memory. -/
structure SnVerdictMem where
  result : SnResult
  gapFrom : ℤ
  gapTo : ℤ
  tracker : SnTrackerMem
  deriving DecidableEq

def snTrackerAcceptMem (m : SnTrackerMem) (sn maxGap : ℤ) : Option SnVerdictMem :=
  if ¬ tgSnValid sn then some ⟨.resync, 0, 0, m⟩
  else do
    let (taken, m) ← snPendingTakeMem m sn
    if taken then some ⟨.recovered, 0, 0, m⟩
    else if m.synced = false then
      some ⟨.inOrder, 0, 0, { m with synced := true, expected := tgSnNext sn }⟩
    else
      let dist := tgSnDistance m.expected sn
      if dist = 0 then some ⟨.inOrder, 0, 0, { m with expected := tgSnNext sn }⟩
      else if tgSnRange / 2 < dist then some ⟨.duplicate, 0, 0, m⟩
      else if dist ≤ maxGap then do
        let (added, m) ← snPendingAddRangeMem m m.expected (tgSnPrev sn)
        if added then
          some ⟨.gap, m.expected, tgSnPrev sn, { m with expected := tgSnNext sn }⟩
        else some ⟨.resync, 0, 0, { m with pendingCount := 0, expected := tgSnNext sn }⟩
      else some ⟨.resync, 0, 0, { m with pendingCount := 0, expected := tgSnNext sn }⟩

/-! ## The list the array stands for -/

namespace SnTrackerMem

/-- The outstanding serials are the cells below `pending_count`. -/
def outstanding (m : SnTrackerMem) : List ℤ := m.pending.take m.pendingCount

def shown (m : SnTrackerMem) : SnTracker := ⟨m.expected, m.synced, m.outstanding⟩

structure Bounded (m : SnTrackerMem) : Prop where
  size : m.pending.length = snMaxPending
  count_le : m.pendingCount ≤ snMaxPending

variable {m : SnTrackerMem}

theorem Bounded.length_outstanding (hm : m.Bounded) : m.outstanding.length = m.pendingCount := by
  rw [outstanding, List.length_take, hm.size]
  exact min_eq_left hm.count_le

end SnTrackerMem

def SnVerdictMem.shown (v : SnVerdictMem) : SnVerdict :=
  ⟨v.result, v.gapFrom, v.gapTo, v.tracker.shown⟩

section

variable {m : SnTrackerMem} {sn : ℤ}

theorem SnTrackerMem.Bounded.load_outstanding (hm : m.Bounded) {i : ℕ} (hi : i < m.pendingCount) :
    ∃ entry, load m.pending i = some entry ∧ m.outstanding[i]? = some entry := by
  have hsize : i < m.pending.length := by
    have hle := hm.count_le
    have hlength := hm.size
    omega
  refine ⟨_, load_of_lt hsize, ?_⟩
  rw [SnTrackerMem.outstanding, List.getElem?_take, if_pos hi, List.getElem?_eq_getElem hsize]

/-- The search passes over every entry when the serial is not outstanding. -/
theorem snPendingTakeFrom_of_absent (hm : m.Bounded) (habsent : sn ∉ m.outstanding)
    {n i : ℕ} (hrounds : m.pendingCount < n + i) :
    snPendingTakeFrom m sn n i = some (false, m) ∨ m.pendingCount < i := by
  induction n generalizing i with
  | zero => exact .inr (by omega)
  | succ n ih =>
      rw [snPendingTakeFrom]
      by_cases hi : i < m.pendingCount
      · obtain ⟨entry, hload, hentry⟩ := hm.load_outstanding hi
        have hne : entry ≠ sn := by
          rintro rfl
          exact habsent (List.mem_of_getElem? hentry)
        rcases ih (i := i + 1) (by omega) with hrest | hpast
        · left
          rw [if_pos hi, hload]
          simp only [Option.bind_eq_bind, Option.bind_some, if_neg hne, hrest]
        · omega
      · left
        rw [if_neg hi]

/-- The search stops at the first entry that is the serial, and moves the last one
there. -/
theorem snPendingTakeFrom_of_first (hm : m.Bounded) {k : ℕ} (hk : k < m.pendingCount)
    (hfound : m.outstanding[k]? = some sn) (hbefore : ∀ j < k, m.outstanding[j]? ≠ some sn)
    {n i : ℕ} (hi : i ≤ k) (hrounds : k < n + i) :
    ∃ last, m.outstanding[m.pendingCount - 1]? = some last ∧
      snPendingTakeFrom m sn n i = some (true, { m with
        pending := m.pending.set k last, pendingCount := m.pendingCount - 1 }) := by
  induction n generalizing i with
  | zero => omega
  | succ n ih =>
      obtain ⟨entry, hload, hentry⟩ := hm.load_outstanding (hi.trans_lt hk)
      rw [snPendingTakeFrom, if_pos (hi.trans_lt hk), hload]
      simp only [Option.bind_eq_bind, Option.bind_some]
      rcases Nat.lt_or_eq_of_le hi with hlt | rfl
      · have hne : entry ≠ sn := by
          rintro rfl
          exact hbefore i hlt hentry
        rw [if_neg hne]
        exact ih hlt (by omega)
      · obtain rfl : entry = sn := Option.some.inj (hentry.symm.trans hfound)
        obtain ⟨last, hlast, hshown⟩ := hm.load_outstanding
          (by omega : m.pendingCount - 1 < m.pendingCount)
        have hsize : i < m.pending.length := by
          have hle := hm.count_le
          have hlength := hm.size
          omega
        refine ⟨last, hshown, ?_⟩
        rw [if_pos rfl, hlast, Option.bind_some, store_of_lt hsize, Option.bind_some]

/-- Removal from the array is removal from the list. -/
theorem snPendingTakeMem_shows (hm : m.Bounded) (sn : ℤ) :
    snPendingTake m.outstanding sn = none ∧ snPendingTakeMem m sn = some (false, m) ∨
      ∃ pending, snPendingTake m.outstanding sn = some pending ∧
        ∃ m', snPendingTakeMem m sn = some (true, m') ∧ m'.Bounded ∧
          m'.shown = { m.shown with pending := pending } := by
  have hlength := hm.length_outstanding
  by_cases hmem : sn ∈ m.outstanding
  · have hk : m.outstanding.idxOf sn < m.outstanding.length := List.idxOf_lt_length_iff.mpr hmem
    obtain ⟨last, hlast, htake⟩ := snPendingTakeFrom_of_first hm (k := m.outstanding.idxOf sn)
      (by omega) (by rw [List.getElem?_eq_getElem hk, List.getElem_idxOf hk])
      (by
        intro j hj hsame
        obtain ⟨hlt, hentry⟩ := List.getElem?_eq_some_iff.mp hsame
        have hne := List.not_of_lt_findIdx hj
        simp [hentry] at hne)
      (Nat.zero_le _) (n := m.pendingCount + 1) (by omega)
    have hgetLast : m.outstanding.getLastD 0 = last := by
      rw [List.getLastD_eq_getLast?, List.getLast?_eq_getElem?, hlength, hlast]
      rfl
    refine .inr ⟨_, if_pos hmem, _, htake, ⟨?_, ?_⟩, ?_⟩
    · dsimp only
      rw [List.length_set, hm.size]
    · have hle := hm.count_le
      dsimp only
      omega
    · simp only [SnTrackerMem.shown, hgetLast, SnTracker.mk.injEq, true_and]
      rw [List.dropLast_eq_take, List.length_set, hlength]
      simp only [SnTrackerMem.outstanding, List.take_set, List.take_take]
      rw [min_eq_left (by omega)]
  · refine .inl ⟨snPendingTake_of_notMem hmem, ?_⟩
    rcases snPendingTakeFrom_of_absent hm hmem (n := m.pendingCount + 1) (i := 0) (by omega)
      with htake | hpast
    · exact htake
    · omega

/-- The range is added to the array as it is to the list, within as many rounds as
there are cells left and one. -/
theorem snPendingAddLoopMem_shows (hm : m.Bounded) {rounds : ℕ} (sn target : ℤ)
    (hrounds : snMaxPending < rounds + m.pendingCount) :
    ∃ m', snPendingAddLoopMem rounds m sn target =
        some ((snPendingAddLoop rounds m.outstanding sn target).1, m') ∧
      m'.Bounded ∧
      m'.shown = { m.shown with
        pending := (snPendingAddLoop rounds m.outstanding sn target).2 } := by
  induction rounds generalizing m sn with
  | zero =>
      have hle := hm.count_le
      omega
  | succ rounds ih =>
      have hlength := hm.length_outstanding
      rw [snPendingAddLoopMem, snPendingAddLoop, hlength]
      split
      · exact ⟨m, rfl, hm, rfl⟩
      · rename_i hroom
        obtain ⟨pending, hstore, hwritten, hsize⟩ := store_of_prefix sn
          (List.take_prefix m.pendingCount m.pending)
          (by
            rw [show (m.pending.take m.pendingCount).length = m.pendingCount from hlength, hm.size]
            omega)
        rw [show (m.pending.take m.pendingCount).length = m.pendingCount from hlength] at hstore
        simp only [Option.bind_eq_bind, hstore, Option.bind_some]
        have hnext : SnTrackerMem.Bounded
            ⟨m.expected, m.synced, pending, m.pendingCount + 1⟩ := by
          refine ⟨hsize.trans hm.size, ?_⟩
          dsimp only
          omega
        have hadded : pending.take (m.pendingCount + 1) = m.outstanding ++ [sn] := by
          have htake := List.prefix_iff_eq_take.mp hwritten
          rw [List.length_append, List.length_singleton,
            show (m.pending.take m.pendingCount).length = m.pendingCount from hlength] at htake
          exact htake.symm
        split
        · refine ⟨_, rfl, hnext, ?_⟩
          simp only [SnTrackerMem.shown, SnTrackerMem.outstanding, hadded]
        · obtain ⟨m', hloop, hbounded, hshown⟩ := ih hnext (tgSnNext sn)
            (by dsimp only; omega)
          simp only [SnTrackerMem.shown, SnTrackerMem.outstanding, hadded] at hloop hshown ⊢
          exact ⟨m', hloop, hbounded, hshown⟩

theorem snPendingAddRangeMem_shows (hm : m.Bounded) (start target : ℤ) :
    ∃ m', snPendingAddRangeMem m start target =
        some ((snPendingAddRange m.outstanding start target).1, m') ∧
      m'.Bounded ∧
      m'.shown = { m.shown with
        pending := (snPendingAddRange m.outstanding start target).2 } := by
  rw [snPendingAddRangeMem, snPendingAddRange, hm.length_outstanding]
  split
  · exact ⟨m, rfl, hm, rfl⟩
  · exact snPendingAddLoopMem_shows hm start target (by omega)

/-- An acceptance in memory is the acceptance of the lists, with every access inside
the array. -/
theorem snTrackerAcceptMem_shows (hm : m.Bounded) (sn maxGap : ℤ) :
    ∃ v, snTrackerAcceptMem m sn maxGap = some v ∧
      v.shown = snTrackerAccept m.shown sn maxGap ∧ v.tracker.Bounded ∧
      (v.result = .duplicate → v.tracker = m) := by
  rw [snTrackerAcceptMem, snTrackerAccept]
  split
  · exact ⟨_, rfl, rfl, hm, fun hduplicate => by cases hduplicate⟩
  · simp only [SnTrackerMem.shown, Option.bind_eq_bind]
    rcases snPendingTakeMem_shows hm sn with
      ⟨hnone, htake⟩ | ⟨pending, hsome, m', htake, hbounded, hshown⟩
    · simp only [hnone, htake, Option.bind_some, Bool.false_eq_true, if_false]
      have hcleared (expected : ℤ) (synced : Bool) {pending : List ℤ}
          (hsize : pending.length = snMaxPending) :
          SnTrackerMem.Bounded ⟨expected, synced, pending, 0⟩ :=
        ⟨hsize, Nat.zero_le _⟩
      by_cases hsynced : m.synced = false
      · simp only [hsynced, if_true]
        exact ⟨_, rfl, rfl, ⟨hm.size, hm.count_le⟩, fun hduplicate => by cases hduplicate⟩
      · rw [Bool.not_eq_false] at hsynced
        simp only [hsynced, Bool.true_eq_false, if_false]
        by_cases hnext : tgSnDistance m.expected sn = 0
        · simp only [hnext, if_true]
          exact ⟨_, rfl, rfl, ⟨hm.size, hm.count_le⟩, fun hduplicate => by cases hduplicate⟩
        · simp only [hnext, if_false]
          by_cases hbehind : tgSnRange / 2 < tgSnDistance m.expected sn
          · simp only [hbehind, if_true]
            refine ⟨_, rfl, ?_, hm, fun _ => rfl⟩
            simp only [SnVerdictMem.shown, SnTrackerMem.shown, hsynced]
          · simp only [hbehind, if_false]
            by_cases hnear : tgSnDistance m.expected sn ≤ maxGap
            · simp only [hnear, if_true]
              obtain ⟨m', hadd, hbounded, hshown⟩ :=
                snPendingAddRangeMem_shows hm m.expected (tgSnPrev sn)
              simp only [SnTrackerMem.shown, SnTracker.mk.injEq] at hshown
              obtain ⟨hexpected, hsame, hpending⟩ := hshown
              simp only [hadd, Option.bind_some]
              cases hadded : (snPendingAddRange m.outstanding m.expected (tgSnPrev sn)).1 with
              | true =>
                  refine ⟨_, rfl, ?_, ⟨hbounded.size, hbounded.count_le⟩,
                    fun hduplicate => by cases hduplicate⟩
                  simp only [SnVerdictMem.shown, SnTrackerMem.shown, hexpected, hsame, hsynced,
                    if_true, ← hpending]
                  rfl
              | false =>
                  refine ⟨_, rfl, ?_, hcleared _ _ hbounded.size,
                    fun hduplicate => by cases hduplicate⟩
                  simp only [SnVerdictMem.shown, SnTrackerMem.shown, hsame, hsynced,
                    Bool.false_eq_true, if_false]
                  rfl
            · simp only [hnear, if_false]
              exact ⟨_, rfl, rfl, hcleared _ _ hm.size, fun hduplicate => by cases hduplicate⟩
    · simp only [hsome, htake, Option.bind_some, if_true]
      refine ⟨_, rfl, ?_, hbounded, fun hduplicate => by cases hduplicate⟩
      rw [SnVerdictMem.shown, hshown]
      rfl

/-! ## The exact verdict -/

/-- The bounds on a tracker in memory. -/
structure SnTrackerMem.WithinRange (m : SnTrackerMem) : Prop extends SnTrackerMem.Bounded m where
  expected : tgSnValid m.expected
  outstanding : ∀ sn ∈ m.outstanding, tgSnValid sn

theorem SnTrackerMem.Bounded.withinRange (hm : m.Bounded) {expected : ℤ} {synced : Bool}
    {pending : List ℤ} (hshown : m.shown = ⟨expected, synced, pending⟩)
    (hexpected : tgSnValid expected) (hpending : ∀ sn ∈ pending, tgSnValid sn) :
    m.WithinRange where
  toBounded := hm
  expected := by
    have hsame : m.expected = expected := congrArg SnTracker.expected hshown
    rwa [hsame]
  outstanding := by
    have hsame : m.outstanding = pending := congrArg SnTracker.pending hshown
    rwa [hsame]

/-- On a synchronised tracker the verdict on a serial that is not outstanding depends
only on how far ahead it is, the budget and the room left; the array is never left. -/
theorem snTrackerAccept_exactVerdict (hm : m.WithinRange) (hsynced : m.synced = true)
    (hvalid : tgSnValid sn) (hmem : sn ∉ m.outstanding) (maxGap : ℤ) :
    let d := tgSnDistance m.expected sn
    ∃ v, snTrackerAcceptMem m sn maxGap = some v ∧ v.tracker.WithinRange ∧
      (d = 0 → v.result = .inOrder ∧
        v.tracker.shown = ⟨tgSnNext m.expected, true, m.outstanding⟩) ∧
      (499 < d → v.result = .duplicate ∧ v.tracker = m) ∧
      (0 < d → d ≤ 499 →
        (v.result = .gap ↔ d ≤ maxGap ∧ m.pendingCount + d ≤ snMaxPending) ∧
        (v.result = .gap →
          v.gapFrom = m.expected ∧ v.gapTo = tgSnPrev sn ∧
          (∀ missing, snBetween v.gapFrom v.gapTo missing ↔
            missing ∈ serialsFrom m.expected d.toNat) ∧
          (serialsFrom m.expected d.toNat).Nodup ∧
          v.tracker.shown =
            ⟨tgSnNext sn, true, m.outstanding ++ serialsFrom m.expected d.toNat⟩) ∧
        (v.result ≠ .gap → v.result = .resync ∧ v.tracker.shown = ⟨tgSnNext sn, true, []⟩)) := by
  obtain ⟨v, haccept, hshown, hbounded, hsame⟩ :=
    snTrackerAcceptMem_shows hm.toBounded sn maxGap
  obtain ⟨steps, hsteps, rfl, hdistance⟩ := exists_tgSerialAt hm.expected hvalid
  have hlength := hm.length_outstanding
  have hexact := snTrackerAccept_ahead (t := m.shown) hm.expected hsynced hsteps hmem maxGap
  rw [show m.shown.expected = m.expected from rfl] at hexact
  rw [hexact] at hshown
  rw [hdistance]
  dsimp only
  refine ⟨v, haccept, ?_⟩
  by_cases hzero : steps = 0
  · subst hzero
    simp only [if_true, SnVerdictMem.shown, SnVerdict.mk.injEq] at hshown
    obtain ⟨hresult, -, -, htracker⟩ := hshown
    have hnext : v.tracker.shown = ⟨tgSnNext m.expected, true, m.outstanding⟩ := by
      rw [htracker, ← hsynced]
      rfl
    exact ⟨hbounded.withinRange hnext (tgSnNext_valid _) hm.outstanding,
      fun _ => ⟨hresult, hnext⟩, fun hbehind => by omega, fun hpos => by omega⟩
  · rw [if_neg hzero] at hshown
    by_cases hbehind : 499 < steps
    · simp only [if_pos hbehind, SnVerdictMem.shown, SnVerdict.mk.injEq] at hshown
      have hunchanged := hsame hshown.1
      exact ⟨hunchanged ▸ hm, fun hnext => by omega, fun _ => ⟨hshown.1, hunchanged⟩,
        fun _ hahead => by omega⟩
    · rw [if_neg hbehind] at hshown
      have hroom : (steps ≤ maxGap ∧ m.shown.pending.length + steps ≤ snMaxPending) ↔
          (steps ≤ maxGap ∧ m.pendingCount + (steps : ℤ) ≤ snMaxPending) := by
        rw [show m.shown.pending = m.outstanding from rfl, hlength]
        omega
      by_cases hfits : steps ≤ maxGap ∧ m.shown.pending.length + steps ≤ snMaxPending
      · simp only [if_pos hfits, SnVerdictMem.shown, SnVerdict.mk.injEq] at hshown
        obtain ⟨hresult, hfrom, hto, htracker⟩ := hshown
        have hnext : v.tracker.shown = ⟨tgSnNext (tgSerialAt m.expected steps), true,
            m.outstanding ++ serialsFrom m.expected steps⟩ := by
          rw [htracker, ← hsynced]
          rfl
        refine ⟨hbounded.withinRange hnext (tgSnNext_valid _) ?_, fun heq => by omega,
          fun hfar => by omega, fun _ _ => ⟨?_, fun _ => ⟨hfrom, hto, ?_, ?_, hnext⟩, ?_⟩⟩
        · intro missing hmissing
          rcases List.mem_append.mp hmissing with hold | hadded
          · exact hm.outstanding missing hold
          · exact serialsFrom_valid hm.expected hadded
        · exact iff_of_true hresult (hroom.mp hfits)
        · rw [hfrom, hto]
          exact snBetween_skipped_iff hm.expected hzero hsteps
        · exact serialsFrom_nodup hm.expected hsteps.le
        · exact fun hne => absurd hresult hne
      · simp only [if_neg hfits, SnVerdictMem.shown, SnVerdict.mk.injEq] at hshown
        obtain ⟨hresult, -, -, htracker⟩ := hshown
        have hnext : v.tracker.shown =
            ⟨tgSnNext (tgSerialAt m.expected steps), true, []⟩ := by
          rw [htracker, ← hsynced]
          rfl
        have hnotGap : v.result ≠ .gap := by
          rw [hresult]
          decide
        refine ⟨hbounded.withinRange hnext (tgSnNext_valid _) (by simp), fun heq => by omega,
          fun hfar => by omega, fun _ _ => ⟨?_, fun hgap => absurd hgap hnotGap,
            fun _ => ⟨hresult, hnext⟩⟩⟩
        exact iff_of_false hnotGap fun hspace => hfits (hroom.mpr hspace)

end

/-- One serial is outstanding, and three are skipped across the wrap point. -/
theorem snTrackerAccept_exactVerdict_wrapped :
    ∃ v, snTrackerAcceptMem ⟨998, true, 990 :: List.replicate 255 0, 1⟩ 2 64 = some v ∧
      v.result = .gap ∧ v.tracker.shown = ⟨3, true, [990, 998, 999, 1]⟩ := by
  obtain ⟨v, haccept, -, -, -, hahead⟩ := snTrackerAccept_exactVerdict
    (m := ⟨998, true, 990 :: List.replicate 255 0, 1⟩)
    ⟨⟨by rw [List.length_cons, List.length_replicate, snMaxPending], by decide⟩, by decide,
      by decide⟩ rfl (by decide : tgSnValid 2) (by decide) 64
  obtain ⟨hgap, hskipped, -⟩ := hahead (by decide) (by decide)
  have hresult := hgap.mpr (by decide)
  exact ⟨v, haccept, hresult, (hskipped hresult).2.2.2.2⟩

end ToxRelayer
