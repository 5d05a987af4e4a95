import ToxRelayer.GapRequests
import ToxRelayer.OutstandingSerials

/-!
# The mirror of the newest serial

`relay_deliver` passes the serial of every telegram it stores to
`remember_serial`, also that of one that was missing and has been replayed.
Such a telegram lies behind the newest one, and the mirror goes back to it.
-/

namespace ToxRelayer

open CString StepRun

/-- `last` is the serial passed to `remember_serial` last for the channel, and
the tracker the telegram was accounted with. -/
structure MirrorRun (σ : Type) where
  state : RelayState σ
  last : Option (ℤ × Option ℕ)

variable {σ : Type}

/-- The tracker of the channel in this context. -/
def RelayEnv.handle (env : RelayEnv σ) (channel : ℤ) (ctx : σ) : Option ℕ :=
  env.tracker.bind fun tracker => tracker ctx channel

namespace MirrorRun

/-- Trackers that have been prepared and nothing remembered. -/
def start (ctx : σ) (prepared : ℕ → SnStart) : MirrorRun σ :=
  ⟨⟨ctx, fun handle => (prepared handle).tracker⟩, none⟩

def step (env : RelayEnv σ) (channel : ℤ) (r : MirrorRun σ) : GapEvent σ → MirrorRun σ
  | .record raw now =>
      let step := relayReceive env r.state channel raw now
      ⟨step.state,
        match (step.remembered.filter fun entry => entry.1 = channel).getLast? with
        | none => r.last
        | some entry => some (entry.2, env.handle channel r.state.ctx)⟩
  | .change ctx => { r with state := { r.state with ctx := ctx } }

/-- The serial remembered last is the newest its tracker has seen, the one
before the expected serial. -/
def Newest (r : MirrorRun σ) : Prop :=
  ∀ sn handle, r.last = some (sn, some handle) → sn = tgSnPrev (r.state.trackers handle).expected

/-- Serials are remembered only if the telegram does not close a gap: its serial
is not outstanding. -/
def RecoversNothing (env : RelayEnv σ) (channel : ℤ) (r : MirrorRun σ) : GapEvent σ → Prop
  | .record raw _ => env.rememberSerial.isSome = true →
      ∀ tg, tgDecode raw = some tg → tg.kind = .text → env.selfPublicKey = some tg.receiver →
        0 ≤ channel → ∀ handle, env.handle channel r.state.ctx = some handle →
          tg.sn ∉ (r.state.trackers handle).pending
  | .change _ => True

/-- The newest serial itself is never outstanding. -/
structure Sound (env : RelayEnv σ) (r : MirrorRun σ) : Prop where
  withinRange : ∀ handle, (r.state.trackers handle).WithinRange
  newest : ∀ handle,
    tgSnPrev (r.state.trackers handle).expected ∉ (r.state.trackers handle).pending
  silent : env.rememberSerial.isSome = false → r.last = none

end MirrorRun

/-! ## The tracker -/

section

variable {t : SnTracker} {sn : ℤ}

theorem tgSnPrev_tgSnNext (hvalid : tgSnValid sn) : tgSnPrev (tgSnNext sn) = sn := by
  have hsucc := tgSnPrev_tgSerialAt_succ hvalid 0
  rwa [tgSerialAt_succ, tgSerialAt_zero] at hsucc

/-- An arrival that is accounted for moves the newest serial to its own, unless
it was outstanding, and leaves no outstanding serial where the newest one is. -/
theorem SnTracker.WithinRange.newest_accept (ht : t.WithinRange) (hvalid : tgSnValid sn)
    (hnewest : tgSnPrev t.expected ∉ t.pending) (maxGap : ℤ) :
    let verdict := snTrackerAccept t sn maxGap
    tgSnPrev verdict.tracker.expected ∉ verdict.tracker.pending ∧
      (verdict.result = .duplicate → sn ∉ t.pending) ∧
      (verdict.result ≠ .duplicate →
        (tgSnPrev verdict.tracker.expected = sn ↔ sn ∉ t.pending)) := by
  have hmoved := ht.accept_moved sn maxGap
  have hprev := tgSnPrev_tgSnNext hvalid
  generalize snTrackerAccept t sn maxGap = verdict at hmoved
  cases hmoved with
  | invalid hinvalid => exact absurd hvalid hinvalid
  | recovered rest hperm =>
      have hmem : sn ∈ t.pending := hperm.symm.subset List.mem_cons_self
      refine ⟨?_, nofun, fun _ => iff_of_false ?_ (not_not.mpr hmem)⟩
      · exact fun hlast => hnewest (hperm.symm.subset (List.mem_cons_of_mem _ hlast))
      · intro hsame
        exact hnewest (hsame ▸ hmem)
  | first hunsynced =>
      refine ⟨List.not_mem_nil, nofun, fun _ => iff_of_true hprev ?_⟩
      rw [ht.unsynced hunsynced]
      exact List.not_mem_nil
  | inOrder _ hsame hmem =>
      subst hsame
      dsimp only
      rw [hprev]
      exact ⟨hmem, nofun, fun _ => iff_of_true rfl hmem⟩
  | duplicate _ hmem => exact ⟨hnewest, fun _ => hmem, fun hne => absurd rfl hne⟩
  | resync d _ _ hmem =>
      exact ⟨List.not_mem_nil, nofun, fun _ => iff_of_true hprev hmem⟩
  | gap d _ hserial hmem _ _ hhalf =>
      dsimp only
      rw [tgSnPrev_tgSerialAt_succ ht.expected, ← hserial]
      refine ⟨?_, nofun, fun _ => iff_of_true rfl hmem⟩
      rw [List.mem_append, not_or, mem_serialsFrom]
      refine ⟨hmem, ?_⟩
      rintro ⟨k, hk, hskipped⟩
      have hsame := tgSerialAt_inj_of_near ht.expected (hskipped.trans hserial) (by omega)
        (by omega)
      omega

end

/-! ## One telegram -/

section

variable {env : RelayEnv σ} {s : RelayState σ} {channel : ℤ}

theorem relayStore_remembered (tg : TgMessage) :
    (relayStore env s channel tg).2.filterMap RelayCall.remembered = [] := by
  unfold relayStore
  split <;> rfl

theorem relayRemember_remembered (sn : ℤ) :
    (relayRemember env s channel sn).2.filterMap RelayCall.remembered =
      if env.rememberSerial.isSome = true then [(channel, sn)] else [] := by
  unfold relayRemember
  cases env.rememberSerial <;> rfl

/-- The serial of a telegram is remembered unless it is a duplicate. -/
theorem relayDeliver_remembered (tg : TgMessage) (now : ℤ) :
    (relayDeliver env s channel tg now).remembered =
      if (relayAccept env s channel tg.sn).1 ≠ .duplicate ∧ env.rememberSerial.isSome = true then
        [(channel, tg.sn)]
      else [] := by
  unfold relayDeliver
  generalize relayAccept env s channel tg.sn = accepted
  obtain ⟨result, gapFrom, gapTo, s'⟩ := accepted
  cases result with
  | duplicate => rfl
  | inOrder | gap | resync | recovered =>
      simp [RelayStep.remembered, List.filterMap_append, relayStore_remembered,
        relayRemember_remembered, relayRequestGap_remembered]

/-- What the trackers are after a telegram, and that it is delivered at all. -/
theorem relayReceive_delivers {raw : Bytes} {tg : TgMessage} (hdecode : tgDecode raw = some tg)
    (hkind : tg.kind = .text) (hown : env.selfPublicKey = some tg.receiver) (hchannel : 0 ≤ channel)
    (now : ℤ) : relayReceive env s channel raw now = relayDeliver env s channel tg now := by
  rw [relayReceive_ownText hdecode hkind hown, if_neg]
  rintro (rfl | hnegative)
  · have hempty : tgDecode [] = none := by decide
    rw [hempty] at hdecode
    cases hdecode
  · omega

theorem relayAccept_trackers (sn : ℤ) :
    (relayAccept env s channel sn).2.2.2.trackers =
      match env.handle channel s.ctx with
      | none => s.trackers
      | some handle => Function.update s.trackers handle
          (snTrackerAccept (s.trackers handle) sn relayMaxGap).tracker := by
  unfold relayAccept RelayEnv.handle
  cases env.tracker.bind fun tracker => tracker s.ctx channel <;> rfl

theorem relayAccept_result (sn : ℤ) :
    (relayAccept env s channel sn).1 =
      match env.handle channel s.ctx with
      | none => .inOrder
      | some handle => (snTrackerAccept (s.trackers handle) sn relayMaxGap).result := by
  unfold relayAccept RelayEnv.handle
  cases env.tracker.bind fun tracker => tracker s.ctx channel <;> rfl

end

/-! ## Every run -/

section

variable {env : RelayEnv σ} {channel : ℤ} {r : MirrorRun σ}

theorem MirrorRun.start_sound (env : RelayEnv σ) (ctx : σ) (prepared : ℕ → SnStart) :
    (MirrorRun.start ctx prepared).Sound env where
  withinRange := fun handle => (prepared handle).withinRange
  newest := by
    intro handle
    have hclear : (prepared handle).tracker.pending = [] := by
      cases prepared handle with
      | init firstExpected => rfl
      | resume lastReceived =>
          simp only [SnStart.tracker, snTrackerResume]
          split <;> rfl
    simp [MirrorRun.start, hclear]
  silent := fun _ => rfl

/-- Nothing is accounted for and nothing remembered. -/
theorem MirrorRun.step_idle (r : MirrorRun σ) {raw : Bytes} (now : ℤ)
    (hidle : ¬∃ tg, tgDecode raw = some tg ∧ tg.kind = .text ∧
      env.selfPublicKey = some tg.receiver ∧ 0 ≤ channel) :
    (r.step env channel (.record raw now)).state.trackers = r.state.trackers ∧
      (r.step env channel (.record raw now)).last = r.last := by
  rcases relayReceive_reaches env r.state channel raw now with
    ⟨htrackers, hnone⟩ | ⟨tg, hdecode, hkind, hown, hchannel, -⟩
  · refine ⟨htrackers, ?_⟩
    simp only [MirrorRun.step, hnone]
    rfl
  · exact absurd ⟨tg, hdecode, hkind, hown, hchannel⟩ hidle

/-- A telegram for us is accounted for, and remembered unless it is a duplicate. -/
theorem MirrorRun.step_delivered (r : MirrorRun σ) {raw : Bytes} {tg : TgMessage}
    (hdecode : tgDecode raw = some tg) (hkind : tg.kind = .text)
    (hown : env.selfPublicKey = some tg.receiver) (hchannel : 0 ≤ channel) (now : ℤ) :
    (r.step env channel (.record raw now)).state.trackers =
        (relayAccept env r.state channel tg.sn).2.2.2.trackers ∧
      (r.step env channel (.record raw now)).last =
        if (relayAccept env r.state channel tg.sn).1 ≠ .duplicate ∧
            env.rememberSerial.isSome = true then
          some (tg.sn, env.handle channel r.state.ctx)
        else r.last := by
  have hdeliver := relayReceive_delivers (s := r.state) hdecode hkind hown hchannel now
  refine ⟨?_, ?_⟩
  · simp only [MirrorRun.step, hdeliver, relayDeliver_trackers]
  · simp only [MirrorRun.step, hdeliver, relayDeliver_remembered]
    by_cases hremembers : (relayAccept env r.state channel tg.sn).1 ≠ .duplicate ∧
        env.rememberSerial.isSome = true
    · rw [if_pos hremembers, if_pos hremembers]
      simp
    · rw [if_neg hremembers, if_neg hremembers]
      rfl

/-- Each tracker is left alone, or it has accounted for one valid serial. -/
theorem MirrorRun.step_tracker (r : MirrorRun σ) (event : GapEvent σ) (handle : ℕ) :
    (r.step env channel event).state.trackers handle = r.state.trackers handle ∨
      ∃ sn, tgSnValid sn ∧ (r.step env channel event).state.trackers handle =
        (snTrackerAccept (r.state.trackers handle) sn relayMaxGap).tracker := by
  cases event with
  | change ctx => exact .inl rfl
  | record raw now =>
      by_cases hdelivered : ∃ tg, tgDecode raw = some tg ∧ tg.kind = .text ∧
          env.selfPublicKey = some tg.receiver ∧ 0 ≤ channel
      · obtain ⟨tg, hdecode, hkind, hown, hchannel⟩ := hdelivered
        rw [(r.step_delivered hdecode hkind hown hchannel now).1, relayAccept_trackers]
        cases env.handle channel r.state.ctx with
        | none => exact .inl rfl
        | some found =>
            by_cases hsame : handle = found
            · subst hsame
              exact .inr ⟨tg.sn, (tgDecode_header hdecode).2.2.1, Function.update_self _ _ _⟩
            · exact .inl (Function.update_of_ne hsame _ _)
      · rw [(r.step_idle now hdelivered).1]
        exact .inl rfl

/-- A relay that remembers no serial leaves the mirror alone. -/
theorem MirrorRun.step_silent (r : MirrorRun σ) (hsilent : env.rememberSerial.isSome = false)
    (event : GapEvent σ) : (r.step env channel event).last = r.last := by
  cases event with
  | change ctx => rfl
  | record raw now =>
      by_cases hdelivered : ∃ tg, tgDecode raw = some tg ∧ tg.kind = .text ∧
          env.selfPublicKey = some tg.receiver ∧ 0 ≤ channel
      · obtain ⟨tg, hdecode, hkind, hown, hchannel⟩ := hdelivered
        rw [(r.step_delivered hdecode hkind hown hchannel now).2, if_neg (by simp [hsilent])]
      · exact (r.step_idle now hdelivered).2

theorem MirrorRun.Sound.step (hr : r.Sound env) (event : GapEvent σ) :
    (r.step env channel event).Sound env where
  withinRange := by
    intro handle
    rcases r.step_tracker event handle with hsame | ⟨sn, -, hmoved⟩
    · rw [hsame]
      exact hr.withinRange handle
    · rw [hmoved]
      exact (hr.withinRange handle).accept sn relayMaxGap
  newest := by
    intro handle
    rcases r.step_tracker event handle with hsame | ⟨sn, hvalid, hmoved⟩
    · rw [hsame]
      exact hr.newest handle
    · rw [hmoved]
      exact ((hr.withinRange handle).newest_accept hvalid (hr.newest handle) relayMaxGap).1
  silent := by
    intro hsilent
    rw [r.step_silent hsilent event]
    exact hr.silent hsilent

theorem MirrorRun.recoversNothing_iff {raw : Bytes} {tg : TgMessage}
    (hdecode : tgDecode raw = some tg) (hkind : tg.kind = .text)
    (hown : env.selfPublicKey = some tg.receiver) (hchannel : 0 ≤ channel) {now : ℤ} :
    r.RecoversNothing env channel (.record raw now) ↔
      (env.rememberSerial.isSome = true → ∀ handle, env.handle channel r.state.ctx = some handle →
        tg.sn ∉ (r.state.trackers handle).pending) := by
  constructor
  · intro hnone hremember
    exact hnone hremember tg hdecode hkind hown hchannel
  · intro hnone hremember other hother _ _ _
    obtain rfl := Option.some.inj (hdecode.symm.trans hother)
    exact hnone hremember

/-- A telegram its tracker accounts for keeps the mirror at the newest serial
exactly when its own is not outstanding. -/
theorem MirrorRun.newest_delivered_iff (hr : r.Sound env) (hnewest : r.Newest) {raw : Bytes}
    {tg : TgMessage} (hdecode : tgDecode raw = some tg) (hkind : tg.kind = .text)
    (hown : env.selfPublicKey = some tg.receiver) (hchannel : 0 ≤ channel) (now : ℤ)
    (hremember : env.rememberSerial.isSome = true) {handle : ℕ}
    (hhandle : env.handle channel r.state.ctx = some handle) :
    (r.step env channel (.record raw now)).Newest ↔
      tg.sn ∉ (r.state.trackers handle).pending := by
  obtain ⟨htrackers, hlast⟩ := r.step_delivered hdecode hkind hown hchannel now
  obtain ⟨-, hduplicate, hmoved⟩ := (hr.withinRange handle).newest_accept
    (tgDecode_header hdecode).2.2.1 (hr.newest handle) relayMaxGap
  have hresult : (relayAccept env r.state channel tg.sn).1 = _ := relayAccept_result tg.sn
  rw [MirrorRun.Newest, htrackers, hlast, relayAccept_trackers]
  rw [hhandle] at hresult ⊢
  dsimp only at hresult ⊢
  rw [← hresult] at hduplicate hmoved
  by_cases hrepeated : (relayAccept env r.state channel tg.sn).1 = .duplicate
  · -- A duplicate changes neither the tracker nor the mirror.
    rw [if_neg (not_and.mpr fun hne => absurd hrepeated hne),
      snTrackerAccept_duplicate (hresult.symm.trans hrepeated), Function.update_eq_self]
    exact iff_of_true hnewest (hduplicate hrepeated)
  · rw [if_pos ⟨hrepeated, hremember⟩]
    constructor
    · intro hnow
      have hlatest := hnow tg.sn handle rfl
      rw [Function.update_self] at hlatest
      exact (hmoved hrepeated).mp hlatest.symm
    · intro hfree sn found hfound
      cases hfound
      rw [Function.update_self]
      exact ((hmoved hrepeated).mpr hfree).symm

/-- One event keeps the mirror at the newest serial exactly when it closes no gap. -/
theorem MirrorRun.newest_step_iff (hr : r.Sound env) (hnewest : r.Newest) (event : GapEvent σ) :
    (r.step env channel event).Newest ↔ r.RecoversNothing env channel event := by
  cases event with
  | change ctx => exact iff_of_true hnewest trivial
  | record raw now =>
      by_cases hdelivered : ∃ tg, tgDecode raw = some tg ∧ tg.kind = .text ∧
          env.selfPublicKey = some tg.receiver ∧ 0 ≤ channel
      · obtain ⟨tg, hdecode, hkind, hown, hchannel⟩ := hdelivered
        rw [MirrorRun.recoversNothing_iff hdecode hkind hown hchannel]
        cases hremember : env.rememberSerial.isSome with
        | false =>
            refine iff_of_true ?_ nofun
            intro sn handle hlast
            rw [r.step_silent hremember, hr.silent hremember] at hlast
            cases hlast
        | true =>
            cases hhandle : env.handle channel r.state.ctx with
            | none =>
                obtain ⟨htrackers, hlast⟩ := r.step_delivered hdecode hkind hown hchannel now
                refine iff_of_true ?_ nofun
                intro sn handle hfound
                rw [hlast, hhandle, relayAccept_result, hhandle, hremember] at hfound
                cases hfound
            | some handle =>
                rw [MirrorRun.newest_delivered_iff hr hnewest hdecode hkind hown hchannel now
                  hremember hhandle]
                simp
      · obtain ⟨htrackers, hlast⟩ := r.step_idle now hdelivered
        refine iff_of_true ?_ ?_
        · intro sn handle
          rw [htrackers, hlast]
          exact hnewest sn handle
        · intro _ tg hdecode hkind hown hchannel
          exact absurd ⟨tg, hdecode, hkind, hown, hchannel⟩ hdelivered

end

/-- In every run the mirror shows the newest serial throughout exactly when no
telegram that closes a gap is passed on to it. -/
theorem mirror_newest_iff (env : RelayEnv σ) (channel : ℤ) (ctx : σ) (prepared : ℕ → SnStart)
    (events : List (GapEvent σ)) :
    Throughout (MirrorRun.step env channel) MirrorRun.Newest (.start ctx prepared) events ↔
      Along (MirrorRun.step env channel) (MirrorRun.RecoversNothing env channel)
        (.start ctx prepared) events :=
  throughout_iff_along (I := MirrorRun.Sound env) (fun _ event hr _ => hr.step event)
    (fun _ event hr _ hnewest => MirrorRun.newest_step_iff hr hnewest event)
    (MirrorRun.start_sound env ctx prepared) nofun
    (show ∀ event ∈ events, True from fun _ _ => trivial)

/-! ## A gap that is closed -/

def mirrorEnv : RelayEnv Unit := { mixEnv with rememberSerial := some fun ctx _ _ => ctx }

/-- The telegrams 1 and 3 arrive, and then 2, which has been asked for. -/
def recoveredEvents : List (GapEvent Unit) :=
  [.record (twoSenders.record false 0) 0, .record (twoSenders.record false 2) 1,
    .record (twoSenders.record false 1) 2]

/-- The mirror goes back from 3 to 2. -/
theorem mirror_goes_back :
    ¬Throughout (MirrorRun.step mirrorEnv 0) MirrorRun.Newest (.start () fun _ => .init 1)
      recoveredEvents := by
  intro hall
  have hlast := hall.last
  have hremembered : (recoveredEvents.foldl (MirrorRun.step mirrorEnv 0)
      (.start () fun _ => .init 1)).last = some (2, some 0) := by decide +kernel
  have hexpected : ((recoveredEvents.foldl (MirrorRun.step mirrorEnv 0)
      (.start () fun _ => .init 1)).state.trackers 0).expected = 4 := by decide +kernel
  have hnewest := hlast 2 0 hremembered
  rw [hexpected] at hnewest
  exact absurd hnewest (by decide)

end ToxRelayer
