import ToxRelayer.ArchiveHistory
import ToxRelayer.Directory

/-!
# The receive trackers after a restart

`relay_recover_trackers` resumes every channel at the highest stored incoming
serial.  That is the last one as long as the serials have not wrapped.
-/

namespace ToxRelayer

open CString

/-! ## The loop over the channels -/

section

variable {σ : Type} (env : RelayEnv σ) (tracker : σ → ℤ → Option ℕ) (lastSn : σ → ℤ → ℤ × ℤ)
variable (channel : ℤ) (s : RelayState σ)

theorem relayKnown_of_some {channelKnown : σ → ℤ → Bool}
    (hfilter : env.channelKnown = some channelKnown) :
    relayKnown env s channel = channelKnown s.ctx channel := by
  simp only [relayKnown, hfilter]

theorem relayRecoverChannel_cases :
    (relayRecoverChannel env tracker lastSn channel s).2 = s ∨
      ∃ handle t, tracker s.ctx channel = some handle ∧
        (relayRecoverChannel env tracker lastSn channel s).2 =
          { s with trackers := Function.update s.trackers handle t } := by
  unfold relayRecoverChannel
  split
  · exact .inl rfl
  · cases htracker : tracker s.ctx channel with
    | none => exact .inl rfl
    | some handle =>
        right
        dsimp only
        split
        · exact ⟨handle, _, rfl, rfl⟩
        · exact ⟨handle, _, rfl, rfl⟩

theorem relayRecoverChannel_ctx :
    (relayRecoverChannel env tracker lastSn channel s).2.ctx = s.ctx := by
  rcases relayRecoverChannel_cases env tracker lastSn channel s with hsame | ⟨handle, t, -, hset⟩
  · rw [hsame]
  · rw [hset]

theorem relayRecoverLoop_ctx (channels : List ℕ) :
    (relayRecoverLoop env tracker lastSn channels s).2.ctx = s.ctx := by
  induction channels generalizing s with
  | nil => rfl
  | cons channel channels ih =>
      rw [relayRecoverLoop]
      exact (ih _).trans (relayRecoverChannel_ctx env tracker lastSn channel s)

theorem relayRecoverTrackers_ctx (lastSn : Option (σ → ℤ → ℤ × ℤ)) (channels : ℤ) :
    (relayRecoverTrackers env lastSn channels s).2.ctx = s.ctx := by
  unfold relayRecoverTrackers
  split
  · exact relayRecoverLoop_ctx env _ _ s _
  · rfl

theorem relayRecoverChannel_of_known {handle : ℕ} (hknown : relayKnown env s channel = true)
    (htracker : tracker s.ctx channel = some handle) (hanswer : (lastSn s.ctx channel).1 = 0) :
    (relayRecoverChannel env tracker lastSn channel s).2 =
      { s with
        trackers := Function.update s.trackers handle
          (snTrackerResume (lastSn s.ctx channel).2) } := by
  simp only [relayRecoverChannel, hknown, htracker, hanswer, Bool.not_true, Bool.false_eq_true,
    if_false, ne_eq, not_true]

end

section

variable {Ini : Type} (minIni : MinIni Ini) (io : SqliteResult) (self : CStr)

theorem relayTracker_of_known {node : Node Ini} {channel : ℕ}
    (hknown : relayChannelKnown node channel = true) :
    relayTracker node channel = some channel := by
  have hvalid : friendNumberValid channel := (of_decide_eq_true hknown).1
  rw [relayTracker, if_pos hvalid, Int.toNat_natCast]

theorem relayRecoverChannel_trackers_of_ne {lastSn : Node Ini → ℤ → ℤ × ℤ} {channel other : ℕ}
    (hne : channel ≠ other) (env : RelayEnv (Node Ini)) (s : RelayState (Node Ini)) :
    (relayRecoverChannel env relayTracker lastSn other s).2.trackers channel =
      s.trackers channel := by
  rcases relayRecoverChannel_cases env relayTracker lastSn other s with
    hsame | ⟨handle, t, hhandle, hset⟩
  · rw [hsame]
  · have hother : channel ≠ handle := by
      unfold relayTracker at hhandle
      split at hhandle
      · rw [← Option.some.inj hhandle, Int.toNat_natCast]
        exact hne
      · cases hhandle
    rw [hset]
    exact Function.update_of_ne hother _ _

theorem relayRecoverLoop_trackers (lastSn : Node Ini → ℤ → ℤ × ℤ) (channel : ℕ)
    (channels : List ℕ) {s : RelayState (Node Ini)}
    (hknown : relayChannelKnown s.ctx channel = true) (hanswer : (lastSn s.ctx channel).1 = 0) :
    (relayRecoverLoop (relayInit minIni io self) relayTracker lastSn channels s).2.trackers
      channel =
      if channel ∈ channels then snTrackerResume (lastSn s.ctx channel).2
      else s.trackers channel := by
  induction channels generalizing s with
  | nil => rw [if_neg List.not_mem_nil]; rfl
  | cons other channels ih =>
      simp only [relayRecoverLoop]
      have hctx : (relayRecoverChannel (relayInit minIni io self) relayTracker lastSn other
          s).2.ctx = s.ctx := relayRecoverChannel_ctx _ _ _ _ _
      rw [ih (by rw [hctx]; exact hknown) (by rw [hctx]; exact hanswer), hctx]
      by_cases hrest : channel ∈ channels
      · rw [if_pos hrest, if_pos (List.mem_cons_of_mem _ hrest)]
      · rw [if_neg hrest]
        by_cases hhere : channel = other
        · subst hhere
          have hfilter : relayKnown (relayInit minIni io self) s channel = true := by
            rw [relayKnown_of_some _ _ _ rfl]
            exact hknown
          rw [if_pos List.mem_cons_self, relayRecoverChannel_of_known _ _ _ _ _ hfilter
            (relayTracker_of_known hknown) hanswer]
          exact Function.update_self _ _ _
        · rw [if_neg (by simp [hhere, hrest]), relayRecoverChannel_trackers_of_ne hhere]

/-- Every channel in use resumes at what `last_sn` says of it. -/
theorem relayRecoverTrackers_tracker (lastSn : Node Ini → ℤ → ℤ × ℤ) {channel : ℕ}
    {channels : ℤ} (hchannel : channel < channels) {s : RelayState (Node Ini)}
    (hknown : relayChannelKnown s.ctx channel = true) (hanswer : (lastSn s.ctx channel).1 = 0) :
    (relayRecoverTrackers (relayInit minIni io self) (some lastSn) channels s).2.trackers
      channel = snTrackerResume (lastSn s.ctx channel).2 := by
  have hmem : channel ∈ List.range channels.toNat := List.mem_range.mpr (by omega)
  have hloop := relayRecoverLoop_trackers minIni io self lastSn channel
    (List.range channels.toNat) hknown hanswer
  rw [if_pos hmem] at hloop
  exact hloop

/-! ## The serial it resumes at -/

/-- The answer of `relay_last_stored_sn` is the largest stored serial. -/
theorem relayLastStoredSn_eq {node : Node Ini} {channel : ℕ} {last : ℤ} {rows : List (ℤ × ChatRow)}
    (hready : node.db.ready = true)
    (hrows : (node.db.table.rows.filter (onChannel channel incoming)).Perm rows)
    (hmem : last ∈ rows.map (·.2.sn)) (hlargest : ∀ sn ∈ rows.map (·.2.sn), sn ≤ last) :
    relayLastStoredSn .ok node channel = (0, last) := by
  have hperm := hrows.map (·.2.sn)
  have hmax : ((node.db.table.rows.filter (onChannel channel incoming)).map
      (·.2.sn)).max? = some last := by
    rw [List.max?_eq_some_iff]
    exact ⟨hperm.mem_iff.mpr hmem, fun sn hsn => hlargest sn (hperm.mem_iff.mp hsn)⟩
  have hfriend : ¬ (channel : ℤ) < 0 := by omega
  simp only [relayLastStoredSn, msgDatabaseLastSn, hready, Bool.not_true, Bool.false_eq_true,
    if_false, hfriend, hmax, Option.getD_some, if_true]

theorem relayLastStoredSn_of_empty {node : Node Ini} {channel : ℕ}
    (hready : node.db.ready = true)
    (hrows : node.db.table.rows.filter (onChannel channel incoming) = []) :
    relayLastStoredSn .ok node channel = (0, 0) := by
  have hfriend : ¬ (channel : ℤ) < 0 := by omega
  simp only [relayLastStoredSn, msgDatabaseLastSn, hready, Bool.not_true, Bool.false_eq_true,
    if_false, hfriend, hrows, if_true]
  rfl

end

/-- The serials have not wrapped, or the last telegram carries the largest. -/
def LastIsLargest (start : ℤ) (n : ℕ) : Prop :=
  start + n - 1 ≤ tgSnMax ∨ tgSerialAt start (n - 1) = tgSnMax

theorem lastIsLargest_iff {start : ℤ} (hstart : tgSnValid start) (last : ℕ) :
    LastIsLargest start (last + 1) ↔
      ∀ sn ∈ serialsFrom start (last + 1), sn ≤ tgSerialAt start last := by
  have hbounds := hstart
  simp only [tgSnValid, tgSnMin, tgSnMax] at hbounds
  simp only [LastIsLargest, mem_serialsFrom, forall_exists_index, and_imp, Nat.add_sub_cancel,
    tgSnMax]
  constructor
  · rintro (hstraight | hlast) sn k hk rfl
    · rw [tgSerialAt_eq hstart, tgSerialAt_eq hstart]
      push_cast at hstraight
      omega
    · rw [hlast]
      exact (tgSerialAt_valid hstart k).2
  · intro hlargest
    by_cases hwrapped : start + (last + 1 : ℕ) - 1 ≤ 999
    · exact .inl hwrapped
    · -- the telegram before the first wrap carries 999
      right
      have htop : tgSerialAt start (999 - start).toNat = 999 := by
        rw [tgSerialAt_eq hstart]
        omega
      have hle := hlargest 999 (999 - start).toNat (by omega) htop
      have hvalid := (tgSerialAt_valid hstart last).2
      simp only [tgSnMax] at hvalid
      omega

/-! ## The tracker it leaves -/

/-- The tracker expects the serial after the last of `n` telegrams, and takes
the next telegram for the next. -/
structure ResumesAt (t : SnTracker) (start : ℤ) (n : ℕ) : Prop where
  expects : 0 < n → t.synced = true ∧ t.expected = tgSerialAt start n
  inOrder : (snTrackerAccept t (tgSerialAt start n) relayMaxGap).result = .inOrder

theorem resumesAt_resume_iff {start sn : ℤ} (hstart : tgSnValid start) (hsn : tgSnValid sn)
    (last : ℕ) :
    ResumesAt (snTrackerResume sn) start (last + 1) ↔ sn = tgSerialAt start last := by
  have hresume : snTrackerResume sn = ⟨tgSnNext sn, true, []⟩ := by
    rw [snTrackerResume, if_neg (not_not.mpr hsn), snTrackerInit, if_pos (tgSnNext_valid sn)]
  constructor
  · rintro ⟨hexpects, -⟩
    have hnext := (hexpects (Nat.succ_pos last)).2
    rw [hresume, tgSerialAt_succ] at hnext
    have hlast := tgSerialAt_valid hstart last
    revert hnext hlast hsn
    simp only [tgSnNext, tgSnValid, tgSnMin, tgSnMax]
    intro hsn hnext hlast
    split_ifs at hnext <;> omega
  · rintro rfl
    rw [hresume, ← tgSerialAt_succ]
    refine ⟨fun _ => ⟨rfl, rfl⟩, ?_⟩
    rw [snTrackerAccept_of_synced (tgSerialAt_valid hstart _) _ List.not_mem_nil rfl]
    dsimp only
    rw [if_pos (by rw [tgSnDistance_tgSerialAt hstart]; simp)]

section

variable {Ini : Type} (minIni : MinIni Ini) (self : CStr)

/-- A restart keeps the place in a history of telegrams exactly when the
serials have not wrapped since its beginning or the last telegram carries 999. -/
theorem recoverTrackers_resumesAt_iff {adds : List ArchiveAdd} {start : ℤ} {n channel : ℕ}
    {channels : ℤ} {s : RelayState (Node Ini)} (hstart : tgSnValid start)
    (htimes : (acceptedTimes adds).Nodup)
    (hserials : (storedOn channel incoming adds).map (·.2.sn) = serialsFrom start n)
    (hdb : s.ctx.db = archiveAfter adds msgDatabaseOpened)
    (hknown : relayChannelKnown s.ctx channel = true) (hchannel : channel < channels) :
    ResumesAt ((relayRecoverTrackers (relayInit minIni .ok self) (some (relayLastStoredSn .ok))
        channels s).2.trackers channel) start n ↔
      LastIsLargest start n := by
  have hready : s.ctx.db.ready = true := by
    rw [hdb]
    exact archiveAfter_ready adds rfl
  have hrows := archiveAfter_onChannel_perm htimes channel incoming
  rw [← hdb] at hrows
  cases n with
  | zero =>
      have hempty : s.ctx.db.table.rows.filter (onChannel channel incoming) = [] := by
        have hnone : storedOn channel incoming adds = [] := List.map_eq_nil_iff.mp hserials
        rw [hnone] at hrows
        exact hrows.eq_nil
      have hanswer := relayLastStoredSn_of_empty hready hempty
      rw [relayRecoverTrackers_tracker minIni .ok self (relayLastStoredSn .ok) hchannel hknown
        (by rw [hanswer]), hanswer]
      refine iff_of_true ⟨fun hpos => absurd hpos (lt_irrefl 0), ?_⟩ ?_
      · rw [snTrackerAccept_of_unsynced (tgSerialAt_valid hstart 0) _ List.not_mem_nil rfl]
      · have hbound := hstart.2
        exact .inl (by push_cast; omega)
  | succ last =>
      have hlast : tgSerialAt start last ∈ serialsFrom start (last + 1) :=
        mem_serialsFrom.mpr ⟨last, by omega, rfl⟩
      obtain ⟨largest, hmax⟩ := Option.isSome_iff_exists.mp (List.isSome_max?_of_mem hlast)
      obtain ⟨hmem, hlargest⟩ := List.max?_eq_some_iff.mp hmax
      have hvalid : tgSnValid largest := by
        obtain ⟨k, -, rfl⟩ := mem_serialsFrom.mp hmem
        exact tgSerialAt_valid hstart k
      have hanswer : relayLastStoredSn .ok s.ctx channel = (0, largest) := by
        refine relayLastStoredSn_eq hready hrows ?_ ?_
        · rw [hserials]
          exact hmem
        · rw [hserials]
          exact hlargest
      rw [relayRecoverTrackers_tracker minIni .ok self (relayLastStoredSn .ok) hchannel hknown
        (by rw [hanswer]), hanswer, resumesAt_resume_iff hstart hvalid, lastIsLargest_iff hstart]
      constructor
      · rintro rfl
        exact hlargest
      · intro hle
        exact le_antisymm (hle largest hmem) (hlargest _ hlast)

end

/-! ## Two restarts -/

/-- A lap and one telegram, the last with serial 999. -/
theorem recoverTrackers_resumesAt_lap :
    ResumesAt ((relayRecoverTrackers (relayInit emptyIni .ok .empty)
      (some (relayLastStoredSn .ok)) maxFriendNum (startedState
        (archiveAfter (lapAdds incoming 999 1000) msgDatabaseOpened))).2.trackers 0) 999 1000 := by
  have htimes := lapAdds_times incoming 999 (show 1000 ≤ 1000000 by norm_num)
  have hlast : tgSerialAt 999 999 = tgSnMax := by
    rw [tgSerialAt_eq (by decide)]
    rfl
  have hserials : (storedOn (0 : ℕ) incoming (lapAdds incoming 999 1000)).map (·.2.sn) =
      serialsFrom 999 1000 := by
    rw [Nat.cast_zero]
    exact lapAdds_serials incoming (by decide) 1000
  exact (recoverTrackers_resumesAt_iff emptyIni .empty (by decide) htimes hserials
    (startedState_db _) (by decide) (by decide)).mpr (.inr hlast)

/-- Two telegrams across the wrap point. -/
def wrappedAdds : List ArchiveAdd := lapAdds incoming 999 2

/-- The restart after them expects the second again. -/
theorem restart_loses_place :
    ¬ ∀ (adds : List ArchiveAdd) (start : ℤ) (n : ℕ), tgSnValid start →
      (acceptedTimes adds).Nodup →
        (storedOn 0 incoming adds).map (·.2.sn) = serialsFrom start n →
          ResumesAt ((relayRecoverTrackers (relayInit emptyIni .ok .empty)
            (some (relayLastStoredSn .ok)) maxFriendNum
            (startedState (archiveAfter adds msgDatabaseOpened))).2.trackers 0) start n := by
  intro hall
  have hresumes := hall wrappedAdds 999 2 (by decide) (by decide) (by decide)
  have hanswer : relayLastStoredSn .ok
      (startedState (archiveAfter wrappedAdds msgDatabaseOpened)).ctx (0 : ℕ) = (0, 999) := by
    decide
  have htracker := relayRecoverTrackers_tracker emptyIni .ok .empty (relayLastStoredSn .ok)
    (show ((0 : ℕ) : ℤ) < maxFriendNum by decide)
    (s := startedState (archiveAfter wrappedAdds msgDatabaseOpened)) (by decide)
    (by rw [hanswer])
  rw [htracker, hanswer] at hresumes
  have hlast := (resumesAt_resume_iff (by decide) (by decide) 1).mp hresumes
  revert hlast
  decide

end ToxRelayer
