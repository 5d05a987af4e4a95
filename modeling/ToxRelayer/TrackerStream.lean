import ToxRelayer.NumberedStream
import ToxRelayer.SnTracker

/-!
# The tracker as a receiver of numbered telegrams

Serials show a telegram number only modulo the 999 values of a lap.  As long as
no outstanding serial of an older lap lies ahead of the receiver, the tracker
answers as the receiver of `NumberedStream` does.
-/

namespace ToxRelayer

open NumberedStream (Receiver Verdict accept)

def SnResult.ofVerdict : Verdict → SnResult
  | .recovered => .recovered
  | .inOrder => .inOrder
  | .duplicate => .duplicate
  | .gap => .gap
  | .resync => .resync

theorem SnResult.ofVerdict_inj {v w : Verdict}
    (hsame : SnResult.ofVerdict v = SnResult.ofVerdict w) : v = w := by
  cases v <;> cases w <;> first | rfl | cases hsame

/-- The tracker holds the serials of what the receiver knows by number. -/
structure ShowsReceiver (start : ℤ) (t : SnTracker) (receiver : Receiver) : Prop where
  synced : t.synced = true
  expected : t.expected = tgSerialAt start receiver.next
  pending : (t.pending : Multiset ℤ) = receiver.missing.val.map (tgSerialAt start)
  window : ∀ number ∈ receiver.missing, receiver.next ≤ number + 999

def Shows (start : ℤ) (t : SnTracker) : Option Receiver → Prop
  | none => t.synced = false ∧ t.pending = []
  | some receiver => ShowsReceiver start t receiver

/-- No outstanding serial is one that telegram `k`, or a telegram it skips when
the skipped ones still fit into the outstanding set, will use again. -/
def NoStaleAhead (start : ℤ) (t : SnTracker) (next k : ℕ) : Prop :=
  tgSerialAt start k ∉ t.pending ∧
    (t.pending.length + (k - next) ≤ snMaxPending →
      ∀ i ∈ Finset.Ico next k, tgSerialAt start i ∉ t.pending)

instance (start : ℤ) (t : SnTracker) (next k : ℕ) :
    Decidable (NoStaleAhead start t next k) :=
  inferInstanceAs (Decidable (_ ∧ (_ → _)))

/-! ## Serials that identify a number -/

theorem tgSerialAt_inj_of_near {start : ℤ} (hstart : tgSnValid start) {i j : ℕ}
    (hserial : tgSerialAt start i = tgSerialAt start j)
    (hi : i < j + 999) (hj : j < i + 999) : i = j := by
  have hmod := (tgSerialAt_eq_iff hstart i j).mp hserial
  omega

theorem snPendingAddLoop_of_fits {start : ℤ} (hstart : tgSnValid start)
    (skipped rounds next : ℕ) (pending : List ℤ)
    (hfits : pending.length + (skipped + 1) ≤ snMaxPending)
    (hrounds : skipped < rounds) :
    snPendingAddLoop rounds pending (tgSerialAt start next)
        (tgSerialAt start (next + skipped)) =
      (true, pending ++ (List.range' next (skipped + 1)).map (tgSerialAt start)) := by
  have hmax : snMaxPending = 256 := rfl
  induction skipped generalizing rounds next pending with
  | zero =>
      obtain ⟨rounds, rfl⟩ := Nat.exists_eq_succ_of_ne_zero (Nat.ne_of_gt hrounds)
      rw [Nat.add_zero, snPendingAddLoop, if_neg (by omega), if_pos rfl]
      rfl
  | succ skipped ih =>
      obtain ⟨rounds, rfl⟩ := Nat.exists_eq_succ_of_ne_zero (by omega : rounds ≠ 0)
      have hne : tgSerialAt start next ≠ tgSerialAt start (next + (skipped + 1)) := by
        intro heq
        have hsame := tgSerialAt_inj_of_near hstart heq (by omega) (by omega)
        omega
      have hrest := ih rounds (next + 1) (pending ++ [tgSerialAt start next])
        (by rw [List.length_append, List.length_singleton]; omega) (by omega)
      have hindex : next + (skipped + 1) = next + 1 + skipped := by omega
      rw [snPendingAddLoop, if_neg (by omega), if_neg hne, ← tgSerialAt_succ, hindex, hrest,
        List.append_assoc]
      rfl

theorem snPendingAddLoop_of_overflows {start : ℤ} (hstart : tgSnValid start)
    (skipped rounds next : ℕ) (pending : List ℤ)
    (hoverflows : snMaxPending < pending.length + (skipped + 1)) (hskipped : skipped < 999) :
    (snPendingAddLoop rounds pending (tgSerialAt start next)
        (tgSerialAt start (next + skipped))).1 = false := by
  induction skipped generalizing rounds next pending with
  | zero =>
      cases rounds with
      | zero => rfl
      | succ rounds => rw [snPendingAddLoop, if_pos (by omega)]
  | succ skipped ih =>
      cases rounds with
      | zero => rfl
      | succ rounds =>
          have hne : tgSerialAt start next ≠ tgSerialAt start (next + (skipped + 1)) := by
            intro heq
            have hsame := tgSerialAt_inj_of_near hstart heq (by omega) (by omega)
            omega
          have hindex : next + (skipped + 1) = next + 1 + skipped := by omega
          rw [snPendingAddLoop]
          split_ifs with hfull
          · rfl
          · rw [← tgSerialAt_succ, hindex]
            exact ih rounds (next + 1) _
              (by rw [List.length_append, List.length_singleton]; omega) (by omega)

theorem snPendingAddRange_of_fits {start : ℤ} (hstart : tgSnValid start)
    (pending : List ℤ) (next skipped : ℕ)
    (hfits : pending.length + (skipped + 1) ≤ snMaxPending) :
    snPendingAddRange pending (tgSerialAt start next) (tgSerialAt start (next + skipped)) =
      (true, pending ++ (List.range' next (skipped + 1)).map (tgSerialAt start)) := by
  rw [snPendingAddRange, if_neg (by omega)]
  exact snPendingAddLoop_of_fits hstart skipped _ next pending hfits (by omega)

theorem snPendingAddRange_of_overflows {start : ℤ} (hstart : tgSnValid start)
    (pending : List ℤ) (next skipped : ℕ)
    (hoverflows : snMaxPending < pending.length + (skipped + 1)) (hskipped : skipped < 999) :
    (snPendingAddRange pending (tgSerialAt start next)
      (tgSerialAt start (next + skipped))).1 = false := by
  rw [snPendingAddRange]
  split_ifs with hfull
  · rfl
  · exact snPendingAddLoop_of_overflows hstart skipped _ next pending hoverflows hskipped

theorem exists_tgSerialAt {start sn : ℤ} (hstart : tgSnValid start) (hsn : tgSnValid sn) :
    ∃ d < 999, sn = tgSerialAt start d ∧ tgSnDistance start sn = d := by
  have hdistance := tgSnDistance_eq start sn
  have hnonneg : 0 ≤ tgSnDistance start sn := by omega
  refine ⟨(tgSnDistance start sn).toNat, by omega, ?_, (Int.toNat_of_nonneg hnonneg).symm⟩
  rw [tgSerialAt_eq hstart, Int.toNat_of_nonneg hnonneg, hdistance]
  simp only [tgSnValid, tgSnMin, tgSnMax] at hsn
  omega

/-- What is recorded when the serial that arrives is `d` steps ahead. -/
theorem snPendingAddRange_skipped {start : ℤ} (hstart : tgSnValid start) (pending : List ℤ)
    {d : ℕ} (hd : d ≠ 0) (hfits : pending.length + d ≤ snMaxPending) :
    snPendingAddRange pending start (tgSnPrev (tgSerialAt start d)) =
      (true, pending ++ serialsFrom start d) := by
  obtain ⟨skipped, rfl⟩ := Nat.exists_eq_succ_of_ne_zero hd
  have hadded := snPendingAddRange_of_fits hstart pending 0 skipped hfits
  rw [Nat.zero_add, tgSerialAt_zero, ← List.range_eq_range'] at hadded
  rw [tgSnPrev_tgSerialAt_succ hstart, hadded]
  rfl

theorem serialsFrom_nodup {start : ℤ} (hstart : tgSnValid start) {n : ℕ} (hn : n ≤ 999) :
    (serialsFrom start n).Nodup := by
  refine List.Nodup.map_on ?_ List.nodup_range
  intro i hi j hj hserial
  rw [List.mem_range] at hi hj
  exact tgSerialAt_inj_of_near hstart hserial (by omega) (by omega)

/-- The serials from `start` to `target`, wrapping as needed. -/
def snBetween (start target sn : ℤ) : Prop :=
  tgSnValid sn ∧ tgSnDistance start sn ≤ tgSnDistance start target

instance (start target sn : ℤ) : Decidable (snBetween start target sn) :=
  inferInstanceAs (Decidable (_ ∧ _))

theorem snBetween_skipped_iff {start : ℤ} (hstart : tgSnValid start) {d : ℕ} (hpos : d ≠ 0)
    (hd : d < 999) (sn : ℤ) :
    snBetween start (tgSnPrev (tgSerialAt start d)) sn ↔ sn ∈ serialsFrom start d := by
  obtain ⟨last, rfl⟩ := Nat.exists_eq_succ_of_ne_zero hpos
  have hlast : tgSnDistance start (tgSerialAt start last) = last := by
    have hdistance := tgSnDistance_tgSerialAt hstart 0 last
    rw [tgSerialAt_zero] at hdistance
    omega
  rw [tgSnPrev_tgSerialAt_succ hstart, snBetween, hlast, mem_serialsFrom]
  constructor
  · rintro ⟨hvalid, hle⟩
    obtain ⟨k, -, rfl, hdistance⟩ := exists_tgSerialAt hstart hvalid
    exact ⟨k, by omega, rfl⟩
  · rintro ⟨k, hk, rfl⟩
    have hdistance := tgSnDistance_tgSerialAt hstart 0 k
    rw [tgSerialAt_zero] at hdistance
    exact ⟨tgSerialAt_valid hstart k, by omega⟩

/-- What a synchronised tracker answers to a serial `d` steps ahead that is not
outstanding. -/
theorem snTrackerAccept_ahead {t : SnTracker} (hexpected : tgSnValid t.expected)
    (hsynced : t.synced = true) {d : ℕ} (hd : d < 999)
    (hmem : tgSerialAt t.expected d ∉ t.pending) (maxGap : ℤ) :
    snTrackerAccept t (tgSerialAt t.expected d) maxGap =
      if d = 0 then ⟨.inOrder, 0, 0, { t with expected := tgSnNext t.expected }⟩
      else if 499 < d then ⟨.duplicate, 0, 0, t⟩
      else if d ≤ maxGap ∧ t.pending.length + d ≤ snMaxPending then
        ⟨.gap, t.expected, tgSnPrev (tgSerialAt t.expected d),
          { t with
            expected := tgSnNext (tgSerialAt t.expected d)
            pending := t.pending ++ serialsFrom t.expected d }⟩
      else
        ⟨.resync, 0, 0,
          { t with expected := tgSnNext (tgSerialAt t.expected d), pending := [] }⟩ := by
  have hdistance : tgSnDistance t.expected (tgSerialAt t.expected d) = d := by
    have hdistance := tgSnDistance_tgSerialAt hexpected 0 d
    rw [tgSerialAt_zero] at hdistance
    omega
  have hhalf : tgSnRange / 2 = 499 := by decide
  rw [snTrackerAccept_of_synced (tgSerialAt_valid hexpected d) maxGap hmem hsynced]
  simp only [hdistance, hhalf]
  by_cases hzero : d = 0
  · subst hzero
    rfl
  · rw [if_neg (by omega), if_neg hzero]
    by_cases hbehind : 499 < d
    · rw [if_pos (by omega), if_pos hbehind]
    · rw [if_neg (by omega), if_neg hbehind]
      by_cases hfits : t.pending.length + d ≤ snMaxPending
      · rw [snPendingAddRange_skipped hexpected t.pending hzero hfits]
        simp only [hfits, and_true]
      · obtain ⟨skipped, rfl⟩ := Nat.exists_eq_succ_of_ne_zero hzero
        have hfull := snPendingAddRange_of_overflows hexpected t.pending 0 skipped (by omega)
          (by omega)
        rw [Nat.zero_add, tgSerialAt_zero] at hfull
        rw [tgSnPrev_tgSerialAt_succ hexpected, hfull]
        simp only [hfits, Bool.false_eq_true, and_false, if_false]

/-! ## One arrival -/

section

variable {start : ℤ} {t : SnTracker} {receiver : Receiver} {k : ℕ}

theorem ShowsReceiver.pending_length (hshows : ShowsReceiver start t receiver) :
    t.pending.length = receiver.missing.card := by
  have hcard := congrArg Multiset.card hshows.pending
  rwa [Multiset.coe_card, Multiset.card_map] at hcard

theorem ShowsReceiver.mem_pending (hshows : ShowsReceiver start t receiver) {sn : ℤ} :
    sn ∈ t.pending ↔ ∃ number ∈ receiver.missing, tgSerialAt start number = sn := by
  rw [← Multiset.mem_coe, hshows.pending, Multiset.mem_map]
  rfl

/-- Behind the newest telegram the outstanding serials are those of the missing
numbers, ahead of it there are none. -/
theorem ShowsReceiver.mem_pending_iff (hstart : tgSnValid start)
    (hshows : ShowsReceiver start t receiver) (hnear : receiver.next ≤ k + 499)
    (hstale : receiver.next ≤ k → NoStaleAhead start t receiver.next k) :
    tgSerialAt start k ∈ t.pending ↔ k ∈ receiver.missing := by
  rw [hshows.mem_pending]
  constructor
  · rintro ⟨number, hmissing, hserial⟩
    have hlt := receiver.missing_lt number hmissing
    have hwindow := hshows.window number hmissing
    by_cases hahead : receiver.next ≤ k
    · exact absurd (hshows.mem_pending.mpr ⟨number, hmissing, hserial⟩) (hstale hahead).1
    · have hsame := tgSerialAt_inj_of_near hstart hserial (by omega) (by omega)
      rwa [← hsame]
  · intro hmissing
    exact ⟨k, hmissing, rfl⟩

theorem ShowsReceiver.recover (hshows : ShowsReceiver start t receiver)
    (hmissing : k ∈ receiver.missing) {rest : List ℤ}
    (hperm : t.pending.Perm (tgSerialAt start k :: rest)) :
    ShowsReceiver start { t with pending := rest } (receiver.recover k) where
  synced := hshows.synced
  expected := hshows.expected
  pending := by
    have hcons : tgSerialAt start k ::ₘ (rest : Multiset ℤ) =
        tgSerialAt start k ::ₘ (receiver.missing.val.erase k).map (tgSerialAt start) := by
      calc tgSerialAt start k ::ₘ (rest : Multiset ℤ)
          = (t.pending : Multiset ℤ) := (Multiset.coe_eq_coe.mpr hperm).symm
        _ = receiver.missing.val.map (tgSerialAt start) := hshows.pending
        _ = (k ::ₘ receiver.missing.val.erase k).map (tgSerialAt start) := by
            rw [Multiset.cons_erase hmissing]
        _ = _ := Multiset.map_cons _ _ _
    rw [Receiver.recover, Finset.erase_val]
    exact (Multiset.cons_inj_right _).mp hcons
  window := by
    intro number hnumber
    exact hshows.window number (Finset.mem_of_mem_erase hnumber)

theorem ShowsReceiver.skipTo (hstart : tgSnValid start)
    (hshows : ShowsReceiver start t receiver) (hahead : receiver.next ≤ k)
    (hclose : k ≤ receiver.next + 499)
    (hfresh : ∀ i, receiver.next ≤ i → i ≤ k → tgSerialAt start i ∉ t.pending) :
    ShowsReceiver start
      { t with
        expected := tgSerialAt start (k + 1)
        pending := t.pending ++
          (List.range' receiver.next (k - receiver.next)).map (tgSerialAt start) }
      (receiver.skipTo k hahead) where
  synced := hshows.synced
  expected := rfl
  pending := by
    rw [Receiver.skipTo_missing_val, Multiset.map_add, ← hshows.pending, ← Multiset.coe_add,
      ← Multiset.map_coe]
    rfl
  window := by
    intro number hnumber
    simp only [Receiver.skipTo] at hnumber ⊢
    rcases Finset.mem_union.mp hnumber with hmissing | hskipped
    · by_contra hold
      have hwindow := hshows.window number hmissing
      have hlap : tgSerialAt start number = tgSerialAt start (number + 999) := by
        rw [tgSerialAt_eq_iff hstart]
        push_cast
        omega
      exact hfresh (number + 999) hwindow (by omega)
        (hshows.mem_pending.mpr ⟨number, hmissing, hlap⟩)
    · have hle := (Finset.mem_Ico.mp hskipped).1
      omega

theorem showsReceiver_opened (hsynced : t.synced = true)
    (hexpected : t.expected = tgSerialAt start (k + 1)) (hpending : t.pending = []) :
    ShowsReceiver start t (.opened k) where
  synced := hsynced
  expected := hexpected
  pending := by
    rw [hpending]
    rfl
  window := by simp [Receiver.opened]

/-- The distance the tracker measures to a telegram at or after the next one. -/
theorem ShowsReceiver.distance_of_ahead (hstart : tgSnValid start)
    (hshows : ShowsReceiver start t receiver) (hahead : receiver.next ≤ k)
    (hclose : k ≤ receiver.next + 499) :
    tgSnDistance t.expected (tgSerialAt start k) = (k : ℤ) - receiver.next := by
  rw [hshows.expected, tgSnDistance_tgSerialAt hstart]
  omega

theorem ShowsReceiver.distance_of_behind (hstart : tgSnValid start)
    (hshows : ShowsReceiver start t receiver) (hbehind : k < receiver.next)
    (hnear : receiver.next ≤ k + 499) :
    tgSnDistance t.expected (tgSerialAt start k) = 999 - ((receiver.next : ℤ) - k) := by
  rw [hshows.expected, tgSnDistance_tgSerialAt hstart]
  omega

/-- One arrival: the verdicts agree and the tracker goes on showing the
receiver. -/
theorem ShowsReceiver.accept (hstart : tgSnValid start) (maxGap : ℕ)
    (hshows : ShowsReceiver start t receiver)
    (hnear : receiver.next ≤ k + 499) (hclose : k ≤ receiver.next + 499)
    (hstale : receiver.next ≤ k → NoStaleAhead start t receiver.next k) :
    (snTrackerAccept t (tgSerialAt start k) maxGap).result =
        .ofVerdict (NumberedStream.accept maxGap snMaxPending (some receiver) k).1 ∧
      ShowsReceiver start (snTrackerAccept t (tgSerialAt start k) maxGap).tracker
        (NumberedStream.accept maxGap snMaxPending (some receiver) k).2 := by
  have hvalid := tgSerialAt_valid hstart k
  have hpending := hshows.mem_pending_iff hstart hnear hstale
  have hlength := hshows.pending_length
  simp only [NumberedStream.accept]
  by_cases hmissing : k ∈ receiver.missing
  · obtain ⟨rest, hperm, haccept⟩ :=
      snTrackerAccept_of_mem hvalid maxGap (hpending.mpr hmissing)
    rw [haccept, if_pos hmissing]
    exact ⟨rfl, hshows.recover hmissing hperm⟩
  rw [if_neg hmissing]
  have hmem : tgSerialAt start k ∉ t.pending := fun hmem => hmissing (hpending.mp hmem)
  rw [snTrackerAccept_of_synced hvalid maxGap hmem hshows.synced]
  have hhalf : tgSnRange / 2 = 499 := by decide
  by_cases hahead : receiver.next ≤ k
  · rw [dif_pos hahead]
    have hdist := hshows.distance_of_ahead hstart hahead hclose
    have hfresh := (hstale hahead).2
    by_cases hnext : k = receiver.next
    · subst hnext
      have hskip := hshows.skipTo hstart hahead hclose (by
        intro i hle hge
        rwa [Nat.le_antisymm hge hle])
      rw [Nat.sub_self, List.range'_zero, List.map_nil, List.append_nil, tgSerialAt_succ] at hskip
      simp only [hdist, sub_self, if_true]
      exact ⟨rfl, hskip⟩
    · obtain ⟨skipped, hskipped⟩ : ∃ skipped, k = receiver.next + skipped + 1 :=
        ⟨k - receiver.next - 1, by omega⟩
      have hprev : tgSnPrev (tgSerialAt start k) =
          tgSerialAt start (receiver.next + skipped) := by
        rw [hskipped, tgSnPrev_tgSerialAt_succ hstart]
      have hcount : k - receiver.next = skipped + 1 := by omega
      rw [hshows.expected] at hdist ⊢
      simp only [hdist, hprev, hhalf]
      rw [if_neg (by omega), if_neg (by omega), if_neg hnext]
      by_cases hfits : t.pending.length + (skipped + 1) ≤ snMaxPending
      · have hadd := snPendingAddRange_of_fits hstart t.pending receiver.next skipped hfits
        by_cases hgap : k - receiver.next ≤ maxGap
        · rw [if_pos ⟨by omega, by rw [hadd]⟩, if_pos ⟨hgap, by omega⟩, hadd, ← hcount,
            ← tgSerialAt_succ]
          refine ⟨rfl, hshows.skipTo hstart hahead hclose ?_⟩
          intro i hle hge
          rcases Nat.lt_or_eq_of_le hge with hlt | rfl
          · exact hfresh (by omega) i (Finset.mem_Ico.mpr ⟨hle, hlt⟩)
          · exact hmem
        · rw [if_neg (by rintro ⟨hle, -⟩; omega), if_neg (by rintro ⟨hle, -⟩; omega),
            ← tgSerialAt_succ]
          exact ⟨rfl, showsReceiver_opened hshows.synced rfl rfl⟩
      · have hadd := snPendingAddRange_of_overflows hstart t.pending receiver.next skipped
          (Nat.lt_of_not_le hfits) (by omega)
        rw [if_neg (by rintro ⟨-, hadded⟩; rw [hadd] at hadded; cases hadded),
          if_neg (by rintro ⟨-, hroom⟩; omega), ← tgSerialAt_succ]
        exact ⟨rfl, showsReceiver_opened hshows.synced rfl rfl⟩
  · have hbehind : k < receiver.next := Nat.lt_of_not_le hahead
    have hdist := hshows.distance_of_behind hstart hbehind hnear
    simp only [hdist, hhalf]
    rw [dif_neg hahead, if_neg (by omega), if_pos (by omega)]
    exact ⟨rfl, hshows⟩

theorem Shows.accept (hstart : tgSnValid start) (maxGap : ℕ) {state : Option Receiver}
    (hshows : Shows start t state)
    (hnear : ∀ receiver ∈ state, receiver.next ≤ k + 499 ∧ k ≤ receiver.next + 499)
    (hstale : ∀ receiver ∈ state, receiver.next ≤ k → NoStaleAhead start t receiver.next k) :
    (snTrackerAccept t (tgSerialAt start k) maxGap).result =
        .ofVerdict (NumberedStream.accept maxGap snMaxPending state k).1 ∧
      Shows start (snTrackerAccept t (tgSerialAt start k) maxGap).tracker
        (some (NumberedStream.accept maxGap snMaxPending state k).2) := by
  cases state with
  | none =>
      have hunsynced : t.synced = false := hshows.1
      have hempty : t.pending = [] := hshows.2
      rw [snTrackerAccept_of_unsynced (tgSerialAt_valid hstart k) maxGap (by simp [hempty])
        hunsynced, ← tgSerialAt_succ]
      exact ⟨rfl, showsReceiver_opened rfl rfl hempty⟩
  | some receiver =>
      obtain ⟨hbehind, hahead⟩ := hnear receiver rfl
      exact ShowsReceiver.accept hstart maxGap hshows hbehind hahead (hstale receiver rfl)

end

end ToxRelayer
