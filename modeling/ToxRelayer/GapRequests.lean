import ToxRelayer.SenderMix

/-!
# A gap that is noticed is asked for

The tracker records the missing serials before the request for them is built and
queued.  As long as the request can be made whenever a gap is noticed, every
outstanding serial has been asked for since it became outstanding.
-/

namespace ToxRelayer

open CString

/-! ## Runs of one channel -/

/-- A record that arrives, or a change of the context between two records. -/
inductive GapEvent (σ : Type) where
  | record (raw : Bytes) (now : ℤ)
  | change (ctx : σ)

/-- A request the queue has accepted, with the number of the event and the channel it was
queued for. -/
structure GapRequest where
  date : ℕ
  channel : ℤ
  payload : Bytes

/-- `date` counts the events, `asked` are the requests, and `since` is a ghost: the event
at which a serial of a tracker last became outstanding. -/
structure GapRun (σ : Type) where
  state : RelayState σ
  date : ℕ
  asked : List GapRequest
  since : ℕ → ℤ → ℕ

variable {σ : Type}

namespace GapRun

def start (s : RelayState σ) : GapRun σ := ⟨s, 0, [], fun _ _ => 0⟩

def step (env : RelayEnv σ) (channel : ℤ) (r : GapRun σ) : GapEvent σ → GapRun σ
  | .record raw now =>
      let step := relayReceive env r.state channel raw now
      { state := step.state
        date := r.date + 1
        asked :=
          if step.outcome = .gapRequested then
            r.asked ++ step.queued.map fun entry => ⟨r.date, entry.1, entry.2⟩
          else r.asked
        since := fun handle sn =>
          if sn ∈ (r.state.trackers handle).pending then r.since handle sn else r.date }
  | .change ctx => { r with state := { r.state with ctx := ctx }, date := r.date + 1 }

def after (env : RelayEnv σ) (channel : ℤ) (r : GapRun σ) (events : List (GapEvent σ)) :
    GapRun σ :=
  events.foldl (step env channel) r

/-- The serial lies in the range of a request that was queued for the channel when the
serial became outstanding or later. -/
def AskedFor (r : GapRun σ) (channel : ℤ) (handle : ℕ) (sn : ℤ) : Prop :=
  ∃ request ∈ r.asked, r.since handle sn ≤ request.date ∧ request.channel = channel ∧
    ∃ cmd, tgDecode request.payload = some cmd ∧ cmd.kind = .cmd ∧
      inSnRange cmd.sn cmd.snTo sn = true

/-- Every outstanding serial has been asked for. -/
def Covered (r : GapRun σ) (channel : ℤ) : Prop :=
  ∀ handle, ∀ sn ∈ (r.state.trackers handle).pending, r.AskedFor channel handle sn

end GapRun

/-- The peer of the channel is known, both keys can be encoded, and the queue
accepts the request for the range. -/
def RelayEnv.CanAsk (env : RelayEnv σ) (ctx : σ) (channel start target now : ℤ) : Prop :=
  ∃ enqueue peerKey peer own, env.enqueue = some enqueue ∧ env.peerKey = some peerKey ∧
    peerKey ctx channel = some peer ∧ env.selfPublicKey = some own ∧
    tgFieldOk (some peer) = true ∧ tgFieldOk (some own) = true ∧
    (enqueue ctx channel (tgCmdRecord peer own start target) now).1 = 0

/-- Where a telegram addressed to us shows a gap, it can be asked for once the
telegram has been stored and its serial remembered. -/
def GapRun.AsksForGap (env : RelayEnv σ) (channel : ℤ) (r : GapRun σ) : GapEvent σ → Prop
  | .record raw now => ∀ tg, tgDecode raw = some tg → tg.kind = .text →
      env.selfPublicKey = some tg.receiver → 0 ≤ channel →
      ∀ handle, env.tracker.bind (fun tracker => tracker r.state.ctx channel) = some handle →
        let verdict := snTrackerAccept (r.state.trackers handle) tg.sn relayMaxGap
        let stored := (relayStore env r.state channel tg).1
        verdict.result = .gap →
          env.CanAsk (relayRemember env stored channel tg.sn).1.ctx channel verdict.gapFrom
            verdict.gapTo now
  | .change _ => True

/-- The condition at every event of a run. -/
def GapRun.AlwaysAsks (env : RelayEnv σ) (channel : ℤ) : GapRun σ → List (GapEvent σ) → Prop
  | _, [] => True
  | r, event :: events =>
      r.AsksForGap env channel event ∧ AlwaysAsks env channel (r.step env channel event) events

/-! ## The tracker -/

/-- A serial between the expected one and the one before the serial `d` steps
ahead. -/
theorem inSnRange_skipped {start sn : ℤ} (hstart : tgSnValid start) {d : ℕ} (hd : d < 999)
    (hmem : sn ∈ serialsFrom start d) :
    inSnRange start (tgSnPrev (tgSerialAt start d)) sn = true := by
  obtain ⟨j, hj, rfl⟩ := mem_serialsFrom.mp hmem
  obtain ⟨last, rfl⟩ := Nat.exists_eq_succ_of_ne_zero (by omega : d ≠ 0)
  have hdistance := tgSnDistance_tgSerialAt hstart 0
  rw [tgSerialAt_zero] at hdistance
  rw [tgSnPrev_tgSerialAt_succ hstart, inSnRange_iff_distance hstart
    (tgSerialAt_valid hstart last) (tgSerialAt_valid hstart j), hdistance, hdistance]
  omega

/-- What an acceptance leaves outstanding: what was, or what the gap skipped. -/
theorem snTrackerAccept_pending {t : SnTracker} (ht : t.synced = true → tgSnValid t.expected)
    (sn : ℤ) :
    let verdict := snTrackerAccept t sn relayMaxGap
    (verdict.tracker.synced = true → tgSnValid verdict.tracker.expected) ∧
      ∀ missing ∈ verdict.tracker.pending, missing ∈ t.pending ∨
        verdict.result = .gap ∧ tgSnValid verdict.gapFrom ∧ tgSnValid verdict.gapTo ∧
          inSnRange verdict.gapFrom verdict.gapTo missing = true := by
  have haccepted := snTrackerAccept_accepted t sn relayMaxGap
  generalize snTrackerAccept t sn relayMaxGap = verdict at haccepted
  cases haccepted with
  | invalid => exact ⟨ht, fun missing hmem => .inl hmem⟩
  | duplicate => exact ⟨ht, fun missing hmem => .inl hmem⟩
  | recovered rest _ hperm =>
      exact ⟨ht, fun missing hmem => .inl (hperm.symm.subset (List.mem_cons_of_mem _ hmem))⟩
  | first => exact ⟨fun _ => tgSnNext_valid sn, fun missing hmem => .inl hmem⟩
  | inOrder => exact ⟨fun _ => tgSnNext_valid sn, fun missing hmem => .inl hmem⟩
  | resync => exact ⟨fun _ => tgSnNext_valid sn, fun missing hmem => absurd hmem List.not_mem_nil⟩
  | gap pending hvalid _ hsynced hnext _ hnear hadded =>
      refine ⟨fun _ => tgSnNext_valid sn, ?_⟩
      have hexpected := ht hsynced
      obtain ⟨d, hd, rfl, hdistance⟩ := exists_tgSerialAt hexpected hvalid
      rw [hdistance] at hnext
      obtain ⟨skipped, rfl⟩ := Nat.exists_eq_succ_of_ne_zero (by omega : d ≠ 0)
      have hfits : t.pending.length + (skipped + 1) ≤ snMaxPending := by
        by_contra hoverflows
        have hfull := snPendingAddRange_of_overflows hexpected t.pending 0 skipped (by omega)
          (by omega)
        rw [Nat.zero_add, tgSerialAt_zero, ← tgSnPrev_tgSerialAt_succ hexpected, hadded] at hfull
        cases hfull
      rw [snPendingAddRange_skipped hexpected t.pending (Nat.succ_ne_zero _) hfits,
        Prod.mk.injEq] at hadded
      obtain ⟨-, rfl⟩ := hadded
      intro missing hmem
      rcases List.mem_append.mp hmem with hold | hskipped
      · exact .inl hold
      · refine .inr ⟨rfl, hexpected, ?_, inSnRange_skipped hexpected hd hskipped⟩
        rw [tgSnPrev_tgSerialAt_succ hexpected]
        exact tgSerialAt_valid hexpected skipped

/-! ## One record -/

section

variable {env : RelayEnv σ} {s : RelayState σ} {channel : ℤ}

theorem relayAccount_ctx (s : RelayState σ) (trackers : ℕ → SnTracker) (tg : TgMessage) :
    (relayRemember env (relayStore env { s with trackers := trackers } channel tg).1 channel
        tg.sn).1.ctx =
      (relayRemember env (relayStore env s channel tg).1 channel tg.sn).1.ctx := by
  unfold relayStore
  cases env.store with
  | none =>
      unfold relayRemember
      cases env.rememberSerial <;> rfl
  | some store =>
      unfold relayRemember
      cases env.rememberSerial <;> rfl

theorem RelayEnv.CanAsk.request {start target now : ℤ}
    (hask : env.CanAsk s.ctx channel start target now) (hstart : tgSnValid start)
    (htarget : tgSnValid target) :
    (relayRequestGap env s channel start target now).outcome = .gapRequested ∧
      ∃ payload cmd, (relayRequestGap env s channel start target now).calls =
          [.enqueue channel payload] ∧
        tgDecode payload = some cmd ∧ cmd.kind = .cmd ∧ cmd.sn = start ∧ cmd.snTo = target := by
  obtain ⟨enqueue, peerKey, peer, own, henqueue, hkey, hpeer, hown, hpeerOk, hownOk, hqueued⟩ :=
    hask
  have hcalls := relayRequestGap_calls now hown henqueue hkey hpeer hpeerOk hownOk hstart htarget
  have hdecode := tgDecode_tgCmdRecord hpeerOk hownOk hstart htarget
  refine ⟨?_, _, _, hcalls, hdecode, rfl, rfl, rfl⟩
  rcases relayRequestGap_cases env s channel start target now with
    ⟨hnone, -⟩ | ⟨enqueue', peerKey', peer', own', henqueue', hkey', hpeer', hown', -, -, -, -, hstep⟩
  · rw [hnone] at hcalls
    cases hcalls
  · cases henqueue.symm.trans henqueue'
    cases hkey.symm.trans hkey'
    cases hpeer.symm.trans hpeer'
    cases hown.symm.trans hown'
    rw [hstep]
    dsimp only
    rw [if_neg (not_not.mpr hqueued)]

/-- What a telegram addressed to us does to the trackers: nothing, or what the
tracker of the channel makes of its serial. -/
theorem relayDeliver_trackers (env : RelayEnv σ) (s : RelayState σ) (channel : ℤ) (tg : TgMessage)
    (now : ℤ) :
    (relayDeliver env s channel tg now).state.trackers =
      (relayAccept env s channel tg.sn).2.2.2.trackers := by
  unfold relayDeliver
  generalize relayAccept env s channel tg.sn = accepted
  obtain ⟨result, gapFrom, gapTo, s'⟩ := accepted
  cases result <;>
    simp only [reduceCtorEq, if_false, if_true, relayRequestGap_trackers, relayRemember_trackers,
      relayStore_trackers]

theorem relayDeliver_gap {tg : TgMessage} {gapFrom gapTo now : ℤ} {s' : RelayState σ}
    (haccept : relayAccept env s channel tg.sn = (.gap, gapFrom, gapTo, s'))
    (hask : env.CanAsk
      (relayRemember env (relayStore env s' channel tg).1 channel tg.sn).1.ctx channel gapFrom
        gapTo now) (hfrom : tgSnValid gapFrom) (hto : tgSnValid gapTo) :
    (relayDeliver env s channel tg now).outcome = .gapRequested ∧
      ∃ payload cmd, (channel, payload) ∈ (relayDeliver env s channel tg now).queued ∧
        tgDecode payload = some cmd ∧ cmd.kind = .cmd ∧ cmd.sn = gapFrom ∧
        cmd.snTo = gapTo := by
  obtain ⟨houtcome, payload, cmd, hcalls, hcmd⟩ := hask.request hfrom hto
  simp only [relayDeliver, haccept, reduceCtorEq, if_false, houtcome, if_true]
  refine ⟨trivial, payload, cmd, ?_, hcmd⟩
  simp only [RelayStep.queued, List.filterMap_append, hcalls]
  exact List.mem_append_right _ (List.mem_singleton.mpr rfl)

/-- A record that is not delivered leaves the trackers alone and nothing is
remembered. -/
theorem relayReceive_reaches (env : RelayEnv σ) (s : RelayState σ) (channel : ℤ) (raw : Bytes)
    (now : ℤ) :
    ((relayReceive env s channel raw now).state.trackers = s.trackers ∧
        (relayReceive env s channel raw now).remembered = []) ∨
      ∃ tg, tgDecode raw = some tg ∧ tg.kind = .text ∧ env.selfPublicKey = some tg.receiver ∧
        0 ≤ channel ∧
        relayReceive env s channel raw now = relayDeliver env s channel tg now := by
  cases hdecode : tgDecode raw with
  | none =>
      rw [relayReceive_rejected hdecode]
      exact .inl ⟨rfl, rfl⟩
  | some tg =>
      cases hkind : tg.kind with
      | invalid =>
          refine .inl ?_
          unfold relayReceive
          split
          · exact ⟨rfl, rfl⟩
          · simp only [hdecode, hkind]
            split <;> exact ⟨rfl, rfl⟩
      | cmd =>
          refine .inl ?_
          by_cases hown : env.selfPublicKey = some tg.receiver
          · rw [relayReceive_ownCmd hdecode hkind hown]
            split
            · exact ⟨rfl, rfl⟩
            · exact ⟨(relayServeReplay_separate env s channel tg now).1,
                relayServeReplay_remembered env s channel tg now⟩
          · rw [relayReceive_foreignCmd hdecode hkind hown]
            exact ⟨rfl, rfl⟩
      | text =>
          by_cases hown : env.selfPublicKey = some tg.receiver
          · rw [relayReceive_ownText hdecode hkind hown]
            split
            · exact .inl ⟨rfl, rfl⟩
            · rename_i hkept
              exact .inr ⟨tg, rfl, hkind, hown, by omega, rfl⟩
          · refine .inl ?_
            rcases relayReceive_foreignText s channel hdecode hkind hown now with
              hstep | hstep
            · rw [hstep]
              exact ⟨rfl, rfl⟩
            · rw [hstep]
              exact ⟨(relayForward_separate env s channel raw tg now).1,
                relayForward_remembered env s channel raw tg now⟩

end

/-! ## Every run -/

/-- Every outstanding serial has been asked for, and what the trackers expect
are serials. -/
structure GapRun.Sound (channel : ℤ) (r : GapRun σ) : Prop where
  expected : ∀ handle, (r.state.trackers handle).synced = true →
    tgSnValid (r.state.trackers handle).expected
  covered : r.Covered channel

section

variable {env : RelayEnv σ} {channel : ℤ} {r : GapRun σ}

theorem GapRun.asked_step (env : RelayEnv σ) (channel : ℤ) (r : GapRun σ) (event : GapEvent σ) :
    ∀ request ∈ r.asked, request ∈ (r.step env channel event).asked := by
  intro request hmem
  cases event with
  | change ctx => exact hmem
  | record raw now =>
      simp only [GapRun.step]
      split
      · exact List.mem_append_left _ hmem
      · exact hmem

theorem GapRun.since_step (env : RelayEnv σ) (channel : ℤ) {handle : ℕ} {sn : ℤ}
    (hsn : sn ∈ (r.state.trackers handle).pending) (event : GapEvent σ) :
    (r.step env channel event).since handle sn = r.since handle sn := by
  cases event with
  | change ctx => rfl
  | record raw now => exact if_pos hsn

/-- What was asked for before still is. -/
theorem GapRun.Sound.askedFor_step (hr : r.Sound channel) {handle : ℕ} {sn : ℤ}
    (hsn : sn ∈ (r.state.trackers handle).pending) (event : GapEvent σ) :
    (r.step env channel event).AskedFor channel handle sn := by
  obtain ⟨request, hmem, hdate, hcmd⟩ := hr.covered handle sn hsn
  rw [← GapRun.since_step env channel hsn event] at hdate
  exact ⟨request, GapRun.asked_step env channel r event request hmem, hdate, hcmd⟩

theorem GapRun.Sound.step_of_trackers (hr : r.Sound channel) {event : GapEvent σ}
    (htrackers : (r.step env channel event).state.trackers = r.state.trackers) :
    (r.step env channel event).Sound channel where
  expected := by
    rw [htrackers]
    exact hr.expected
  covered := by
    intro handle sn hsn
    rw [htrackers] at hsn
    exact hr.askedFor_step hsn event

/-- A serial that becomes outstanding with a record lies in the range of the request the record
leads to. -/
theorem GapRun.askedFor_new {raw : Bytes} {now gapFrom gapTo sn : ℤ} {tg : TgMessage}
    {trackers : ℕ → SnTracker} {handle : ℕ}
    (hdeliver : relayReceive env r.state channel raw now = relayDeliver env r.state channel tg now)
    (haccept : relayAccept env r.state channel tg.sn =
      (.gap, gapFrom, gapTo, { r.state with trackers := trackers }))
    (hask : env.CanAsk
      (relayRemember env (relayStore env r.state channel tg).1 channel tg.sn).1.ctx channel
        gapFrom gapTo now) (hfrom : tgSnValid gapFrom) (hto : tgSnValid gapTo)
    (hnew : sn ∉ (r.state.trackers handle).pending) (hrange : inSnRange gapFrom gapTo sn = true) :
    (r.step env channel (.record raw now)).AskedFor channel handle sn := by
  rw [← relayAccount_ctx r.state trackers] at hask
  obtain ⟨houtcome, payload, cmd, hqueued, hcmd, hkind, hstart, hlast⟩ :=
    relayDeliver_gap haccept hask hfrom hto
  rw [← hstart, ← hlast] at hrange
  have hsince : (r.step env channel (.record raw now)).since handle sn = r.date := if_neg hnew
  refine ⟨⟨r.date, channel, payload⟩, ?_, hsince.le, rfl, cmd, hcmd, hkind, hrange⟩
  simp only [GapRun.step, hdeliver, houtcome, if_true]
  exact List.mem_append_right _ (List.mem_map.mpr ⟨_, hqueued, rfl⟩)

theorem GapRun.Sound.step (hr : r.Sound channel) {event : GapEvent σ}
    (hasks : r.AsksForGap env channel event) : (r.step env channel event).Sound channel := by
  cases event with
  | change ctx => exact hr.step_of_trackers rfl
  | record raw now =>
      rcases relayReceive_reaches env r.state channel raw now with
        ⟨hsame, -⟩ | ⟨tg, hdecode, hkind, hown, hchannel, hdeliver⟩
      · exact hr.step_of_trackers hsame
      · have htrackers := relayDeliver_trackers env r.state channel tg now
        cases hhandle : env.tracker.bind (fun tracker => tracker r.state.ctx channel) with
        | none =>
            refine hr.step_of_trackers ?_
            simp only [GapRun.step, hdeliver, htrackers, relayAccept, hhandle]
        | some handle =>
            have haccept := relayAccept_of_handle hhandle tg.sn
            obtain ⟨hexpected, hpending⟩ :=
              snTrackerAccept_pending (hr.expected handle) tg.sn
            have hgap := hasks tg hdecode hkind hown hchannel handle hhandle
            dsimp only at haccept hexpected hpending hgap
            have hafter : (r.step env channel (.record raw now)).state.trackers =
                Function.update r.state.trackers handle
                  (snTrackerAccept (r.state.trackers handle) tg.sn relayMaxGap).tracker := by
              simp only [GapRun.step, hdeliver, htrackers, haccept]
            generalize snTrackerAccept (r.state.trackers handle) tg.sn relayMaxGap = verdict at *
            constructor
            · rw [hafter]
              intro other
              by_cases hother : other = handle
              · subst hother
                rw [Function.update_self]
                exact hexpected
              · rw [Function.update_of_ne hother]
                exact hr.expected other
            · intro other sn hsn
              rw [hafter] at hsn
              by_cases hother : other = handle
              · subst hother
                rw [Function.update_self] at hsn
                by_cases hold : sn ∈ (r.state.trackers other).pending
                · exact hr.askedFor_step hold _
                · obtain ⟨hresult, hfrom, hto, hrange⟩ := (hpending sn hsn).resolve_left hold
                  rw [hresult] at haccept
                  exact GapRun.askedFor_new hdeliver haccept (hgap hresult) hfrom hto hold hrange
              · rw [Function.update_of_ne hother] at hsn
                exact hr.askedFor_step hsn _

theorem GapRun.Sound.after (hr : r.Sound channel) {events : List (GapEvent σ)}
    (hasks : r.AlwaysAsks env channel events) : (r.after env channel events).Sound channel := by
  induction events generalizing r with
  | nil => exact hr
  | cons event events ih => exact ih (hr.step hasks.1) hasks.2

end

/-- In a run whose gaps can all be asked for, from trackers with nothing
outstanding, every outstanding serial has been asked for on the channel since it became
outstanding. -/
theorem gap_askedFor (env : RelayEnv σ) (channel : ℤ) (s : RelayState σ)
    (hclear : ∀ handle, (s.trackers handle).Clear) (events : List (GapEvent σ))
    (hasks : GapRun.AlwaysAsks env channel (.start s) events) :
    (GapRun.after env channel (.start s) events).Covered channel := by
  have hstart : (GapRun.start s).Sound channel := by
    refine ⟨fun handle => (hclear handle).expected, ?_⟩
    intro handle sn hsn
    rw [GapRun.start, (hclear handle).pending] at hsn
    cases hsn
  exact (hstart.after hasks).covered

/-! ## A request that is refused -/

/-- The first and the third telegram of a sender, the second is lost. -/
def gapEvents : List (GapEvent Unit) :=
  [.record (twoSenders.record false 0) 0, .record (twoSenders.record false 2) 1]

theorem mixEnv_canAsk (ctx : Unit) (start target now : ℤ) :
    mixEnv.CanAsk ctx 0 start target now :=
  ⟨_, _, contactKey, ownKey, rfl, rfl, rfl, rfl, contactKey_ok, ownKey_ok, rfl⟩

theorem gap_askedFor_two :
    (GapRun.after mixEnv 0 (.start mixStart) gapEvents).Covered 0 := by
  apply gap_askedFor mixEnv 0 mixStart (fun _ => snTrackerInit_clear _) gapEvents
  refine ⟨?_, ?_, trivial⟩
  · intro tg _ _ _ _ handle _ verdict stored _
    exact mixEnv_canAsk _ _ _ _
  · intro tg _ _ _ _ handle _ verdict stored _
    exact mixEnv_canAsk _ _ _ _

/-- The queue has no room for the request. -/
def fullEnv : RelayEnv Unit := { mixEnv with enqueue := some fun _ _ _ _ => (-1, ()) }

/-- The second serial is outstanding and was never asked for. -/
theorem gap_forgotten :
    ¬ ∀ (env : RelayEnv Unit) (channel : ℤ) (s : RelayState Unit) (events : List (GapEvent Unit)),
      (∀ handle, (s.trackers handle).Clear) →
        (GapRun.after env channel (.start s) events).Covered channel := by
  intro hall
  have hcovered := hall fullEnv 0 mixStart gapEvents fun _ => snTrackerInit_clear _
  have hpending : 2 ∈ ((GapRun.after fullEnv 0 (.start mixStart)
      gapEvents).state.trackers 0).pending := by decide +kernel
  have hasked : (GapRun.after fullEnv 0 (.start mixStart) gapEvents).asked = [] := by
    apply List.eq_nil_of_length_eq_zero
    decide +kernel
  obtain ⟨request, hmem, -⟩ := hcovered 0 2 hpending
  rw [hasked] at hmem
  cases hmem

end ToxRelayer
