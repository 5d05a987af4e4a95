import ToxRelayer.GapLink

/-!
# Routing separation

What `relay_receive` may touch, by the kind of a record and whom it is addressed
to: every handler keeps to its own effects, whatever callbacks are missing and
whatever they answer.
-/

namespace ToxRelayer

open CString

/-! ## Effects -/

/-- Destination and payload of a call that queues. -/
def RelayCall.queued : RelayCall → Option (ℤ × Bytes)
  | .enqueue destination payload => some (destination, payload)
  | _ => none

/-- Channel and serial of a call that remembers. -/
def RelayCall.remembered : RelayCall → Option (ℤ × ℤ)
  | .remember channel sn => some (channel, sn)
  | _ => none

variable {σ : Type}

/-- The payloads a step queues, with their destinations. -/
def RelayStep.queued (step : RelayStep σ) : List (ℤ × Bytes) :=
  step.calls.filterMap RelayCall.queued

def RelayStep.stores (step : RelayStep σ) : List RelayCall :=
  step.calls.filter RelayCall.isStore

/-- The serials a step passes to `remember_serial`, with their channels. -/
def RelayStep.remembered (step : RelayStep σ) : List (ℤ × ℤ) :=
  step.calls.filterMap RelayCall.remembered

/-- The payload decodes as a control record. -/
def IsControl (payload : Bytes) : Prop :=
  ∃ cmd, tgDecode payload = some cmd ∧ cmd.kind = .cmd

/-- `fetch_range` returns no more records than it is asked for. -/
def RelayEnv.FetchesAtMost (env : RelayEnv σ) : Prop :=
  ∀ fetchRange, env.fetchRange = some fetchRange → ∀ ctx channel start target (max : ℕ),
    (fetchRange ctx channel start target max).1 ≤ max

/-- The effects of one record. -/
structure RoutesSeparately (env : RelayEnv σ) (s : RelayState σ) (channel : ℤ) (raw : Bytes)
    (now : ℤ) : Prop where
  rejected : tgDecode raw = none →
    let step := relayReceive env s channel raw now
    step.calls = [] ∧ step.state.trackers = s.trackers
  foreignCmd : ∀ tg, tgDecode raw = some tg → tg.kind = .cmd →
    env.selfPublicKey ≠ some tg.receiver →
    let step := relayReceive env s channel raw now
    step.calls = [] ∧ step.state.trackers = s.trackers
  foreignText : ∀ tg, tgDecode raw = some tg → tg.kind = .text →
    env.selfPublicKey ≠ some tg.receiver →
    let step := relayReceive env s channel raw now
    step.state.trackers = s.trackers ∧ step.stores = [] ∧ step.queued.length ≤ 1
  ownText : ∀ tg, tgDecode raw = some tg → tg.kind = .text →
    env.selfPublicKey = some tg.receiver →
    let step := relayReceive env s channel raw now
    (∀ resolvePeer,
      relayReceive { env with resolvePeer := resolvePeer } s channel raw now = step) ∧
    step.queued.length ≤ 1 ∧
    (∀ entry ∈ step.queued, entry.1 = channel ∧ IsControl entry.2) ∧
    (step.outcome = .duplicate → step.calls = [] ∧ step.state.trackers = s.trackers)
  ownCmd : ∀ tg, tgDecode raw = some tg → tg.kind = .cmd →
    env.selfPublicKey = some tg.receiver →
    let step := relayReceive env s channel raw now
    step.state.trackers = s.trackers ∧ step.stores = [] ∧
    (∀ entry ∈ step.queued, entry.1 = channel) ∧
    (env.FetchesAtMost → step.queued.length ≤ relayMaxReplay)

/-! ## The gap request -/

section

variable (env : RelayEnv σ) (s : RelayState σ) (channel : ℤ)

/-- A gap request fails before it queues anything, or queues the control record
for the range. -/
theorem relayRequestGap_cases (start target now : ℤ) :
    let step := relayRequestGap env s channel start target now
    (step.calls = [] ∧ step.state = s ∧ step.outcome ≠ .gapRequested ∧
        step.outcome ≠ .duplicate) ∨
      ∃ enqueue peerKey peer self,
        env.enqueue = some enqueue ∧ env.peerKey = some peerKey ∧
        peerKey s.ctx channel = some peer ∧ env.selfPublicKey = some self ∧
        tgFieldOk (some peer) = true ∧ tgFieldOk (some self) = true ∧
        tgSnValid start ∧ tgSnValid target ∧
        let queued := enqueue s.ctx channel (tgCmdRecord peer self start target) now
        step = ⟨if queued.1 ≠ 0 then .discarded else .gapRequested,
          { s with ctx := queued.2 },
          [.enqueue channel (tgCmdRecord peer self start target)]⟩ := by
  dsimp only
  unfold relayRequestGap
  cases henqueue : env.enqueue with
  | none => exact .inl ⟨rfl, rfl, by simp, by simp⟩
  | some enqueue =>
      cases hkey : env.peerKey with
      | none => exact .inl ⟨rfl, rfl, by simp, by simp⟩
      | some peerKey =>
          dsimp only
          cases hpeer : peerKey s.ctx channel with
          | none => exact .inl ⟨rfl, rfl, by simp, by simp⟩
          | some peer =>
              dsimp only
              by_cases hrefused :
                  (tgEncodeCmd relayWireMax (some peer) env.selfPublicKey start target).code ≤ 0
              · rw [if_pos hrefused]
                exact .inl ⟨rfl, rfl, by simp, by simp⟩
              · rw [if_neg hrefused]
                cases hself : env.selfPublicKey with
                | none =>
                    rw [hself] at hrefused
                    exact absurd (by simp [tgEncodeCmd, relayWireMax, tgErrFormat])
                      hrefused
                | some self =>
                    rw [hself] at hrefused
                    obtain ⟨hpeerOk, hselfOk, hstart, htarget, -⟩ :=
                      tgEncodeCmd_accepted (not_le.mp hrefused)
                    obtain ⟨-, hencoded⟩ := tgEncodeCmd_of_valid
                      (show 300 ≤ relayWireMax by decide) hpeerOk hselfOk hstart htarget
                    refine .inr ⟨enqueue, peerKey, peer, self, rfl, rfl, hpeer, rfl, hpeerOk,
                      hselfOk, hstart, htarget, ?_⟩
                    simp only [hencoded, TgEncoded.wire, Int.toNat_natCast, List.take_length]

theorem relayRequestGap_queued (start target now : ℤ) :
    let step := relayRequestGap env s channel start target now
    step.queued.length ≤ 1 ∧ ∀ entry ∈ step.queued, entry.1 = channel ∧ IsControl entry.2 := by
  rcases relayRequestGap_cases env s channel start target now with
    ⟨hnone, -⟩ | ⟨enqueue, peerKey, peer, self, -, -, -, -, hpeer, hself, hstart, htarget, hstep⟩
  · simp [RelayStep.queued, hnone]
  · dsimp only at hstep ⊢
    rw [hstep]
    refine ⟨le_rfl, ?_⟩
    intro entry hentry
    obtain rfl := List.mem_singleton.mp hentry
    exact ⟨rfl, _, tgDecode_tgCmdRecord hpeer hself hstart htarget, rfl⟩

/-! ## A telegram addressed to us -/

theorem relayStore_queued (tg : TgMessage) :
    (relayStore env s channel tg).2.filterMap RelayCall.queued = [] := by
  unfold relayStore
  split <;> rfl

theorem relayRemember_queued_none (sn : ℤ) :
    (relayRemember env s channel sn).2.filterMap RelayCall.queued = [] := by
  unfold relayRemember
  split <;> rfl

theorem relayAccept_duplicate (sn : ℤ)
    (hduplicate : (relayAccept env s channel sn).1 = .duplicate) :
    (relayAccept env s channel sn).2.2.2 = s := by
  unfold relayAccept at hduplicate ⊢
  cases hhandle : env.tracker.bind (fun tracker => tracker s.ctx channel) with
  | none => rfl
  | some handle =>
      rw [hhandle] at hduplicate
      dsimp only at hduplicate ⊢
      rw [snTrackerAccept_duplicate hduplicate, Function.update_eq_self]

theorem relayDeliver_separate (tg : TgMessage) (now : ℤ) :
    let step := relayDeliver env s channel tg now
    step.queued.length ≤ 1 ∧
      (∀ entry ∈ step.queued, entry.1 = channel ∧ IsControl entry.2) ∧
      (step.outcome = .duplicate → step.calls = [] ∧ step.state = s) := by
  have hsame := relayAccept_duplicate env s channel tg.sn
  unfold relayDeliver
  dsimp only
  generalize relayAccept env s channel tg.sn = accepted at hsame
  obtain ⟨result, gapFrom, gapTo, s'⟩ := accepted
  dsimp only at hsame ⊢
  let stored := relayStore env s' channel tg
  let remembered := relayRemember env stored.1 channel tg.sn
  have hquiet : (stored.2 ++ remembered.2).filterMap RelayCall.queued = [] := by
    rw [List.filterMap_append, relayStore_queued, relayRemember_queued_none]
    rfl
  cases result with
  | duplicate => exact ⟨Nat.zero_le 1, by simp [RelayStep.queued], fun _ => ⟨rfl, hsame rfl⟩⟩
  | gap =>
      obtain ⟨hlength, hentries⟩ :=
        relayRequestGap_queued env remembered.1 channel gapFrom gapTo now
      simp only [reduceCtorEq, if_false, RelayStep.queued, List.filterMap_append]
      rw [relayStore_queued, relayRemember_queued_none, List.nil_append, List.nil_append]
      refine ⟨hlength, hentries, ?_⟩
      split <;> exact fun hnot => absurd hnot (by decide)
  | inOrder | resync | recovered =>
      simp only [reduceCtorEq, if_false, RelayStep.queued]
      rw [hquiet]
      exact ⟨Nat.zero_le 1, by simp, fun hnot => hnot.elim⟩

theorem relayDeliver_resolvePeer (resolvePeer : Option (σ → CStr → ℤ)) (tg : TgMessage)
    (now : ℤ) :
    relayDeliver { env with resolvePeer := resolvePeer } s channel tg now =
      relayDeliver env s channel tg now := rfl

/-! ## Forwarding and replaying -/

theorem relayForward_separate (raw : Bytes) (tg : TgMessage) (now : ℤ) :
    let step := relayForward env s channel raw tg now
    step.state.trackers = s.trackers ∧ step.stores = [] ∧ step.queued.length ≤ 1 := by
  dsimp only
  unfold relayForward
  split
  · dsimp only
    split
    · exact ⟨rfl, rfl, Nat.zero_le 1⟩
    · exact ⟨rfl, rfl, le_rfl⟩
  · exact ⟨rfl, rfl, Nat.zero_le 1⟩

theorem relayForward_remembered (raw : Bytes) (tg : TgMessage) (now : ℤ) :
    (relayForward env s channel raw tg now).remembered = [] := by
  unfold relayForward
  split
  · dsimp only
    split <;> rfl
  · rfl

theorem relayReplayLoop_remembered (enqueue : σ → ℤ → Bytes → ℤ → ℤ × σ) (peer : CStr)
    (self : Option CStr) (now : ℤ) (records : List RelayRecord) (ctx : σ) :
    (relayReplayLoop enqueue channel peer self now records ctx).2.2.filterMap
      RelayCall.remembered = [] := by
  induction records generalizing ctx with
  | nil => rfl
  | cons record records ih =>
      rw [relayReplayLoop]
      dsimp only
      split
      · exact ih ctx
      · exact ih _

theorem relayServeReplay_remembered (cmd : TgMessage) (now : ℤ) :
    (relayServeReplay env s channel cmd now).remembered = [] := by
  unfold relayServeReplay
  split
  · split
    · rfl
    · dsimp only
      split
      · rfl
      · exact relayReplayLoop_remembered channel _ _ _ _ _ _
  · rfl

theorem relayRequestGap_remembered (start target now : ℤ) :
    (relayRequestGap env s channel start target now).calls.filterMap RelayCall.remembered = [] := by
  unfold relayRequestGap
  split
  · split
    · rfl
    · dsimp only
      split <;> rfl
  · rfl

/-- The replay queues on the channel of the request, once for a record at most. -/
theorem relayReplayLoop_separate (enqueue : σ → ℤ → Bytes → ℤ → ℤ × σ) (peer : CStr)
    (self : Option CStr) (now : ℤ) (records : List RelayRecord) (ctx : σ) :
    let calls := (relayReplayLoop enqueue channel peer self now records ctx).2.2
    calls.filter RelayCall.isStore = [] ∧
      (∀ entry ∈ calls.filterMap RelayCall.queued, entry.1 = channel) ∧
      (calls.filterMap RelayCall.queued).length ≤ records.length := by
  induction records generalizing ctx with
  | nil => exact ⟨rfl, by simp [relayReplayLoop], le_rfl⟩
  | cons record records ih =>
      dsimp only at ih ⊢
      rw [relayReplayLoop]
      dsimp only
      split
      · obtain ⟨hstores, hqueued, hlength⟩ := ih ctx
        exact ⟨hstores, hqueued, hlength.trans (Nat.le_succ _)⟩
      · obtain ⟨hstores, hqueued, hlength⟩ := ih (enqueue ctx channel (tgEncodeText relayWireMax
          (some peer) self record.sn record.timestamp (some record.body)).wire now).2
        refine ⟨hstores, ?_, Nat.succ_le_succ hlength⟩
        intro entry hentry
        rcases List.mem_cons.mp hentry with rfl | hlater
        · rfl
        · exact hqueued entry hlater

theorem relayServeReplay_separate (cmd : TgMessage) (now : ℤ) :
    let step := relayServeReplay env s channel cmd now
    step.state.trackers = s.trackers ∧ step.stores = [] ∧
      (∀ entry ∈ step.queued, entry.1 = channel) ∧
      (env.FetchesAtMost → step.queued.length ≤ relayMaxReplay) := by
  have hnothing : ∀ outcome, let step : RelayStep σ := ⟨outcome, s, []⟩
      step.state.trackers = s.trackers ∧ step.stores = [] ∧
        (∀ entry ∈ step.queued, entry.1 = channel) ∧
        (env.FetchesAtMost → step.queued.length ≤ relayMaxReplay) :=
    fun _ => ⟨rfl, rfl, by simp [RelayStep.queued], fun _ => Nat.zero_le _⟩
  dsimp only
  unfold relayServeReplay
  split
  · rename_i fetchRange enqueue peerKey hfetch _ _
    split
    · exact hnothing .noPeer
    · rename_i peer _
      dsimp only
      split
      · exact hnothing .nothingStored
      · obtain ⟨hstores, hqueued, hlength⟩ := relayReplayLoop_separate channel enqueue peer
          env.selfPublicKey now ((fetchRange s.ctx channel cmd.sn cmd.snTo relayMaxReplay).2.take
            (fetchRange s.ctx channel cmd.sn cmd.snTo relayMaxReplay).1.toNat) s.ctx
        refine ⟨rfl, hstores, hqueued, fun hatMost => hlength.trans ?_⟩
        have hfetched := hatMost fetchRange hfetch s.ctx channel cmd.sn cmd.snTo relayMaxReplay
        rw [List.length_take]
        omega
  · exact hnothing .discarded

end

/-! ## Every record -/

section

variable {env : RelayEnv σ} {s : RelayState σ} {channel : ℤ} {raw : Bytes} {tg : TgMessage}

theorem relayReceive_rejected (hdecode : tgDecode raw = none) (now : ℤ) :
    relayReceive env s channel raw now = ⟨.discarded, s, []⟩ := by
  unfold relayReceive
  split
  · rfl
  · rw [hdecode]
    split <;> rfl

theorem relayReceive_ownText (hdecode : tgDecode raw = some tg) (hkind : tg.kind = .text)
    (hown : env.selfPublicKey = some tg.receiver) (now : ℤ) :
    relayReceive env s channel raw now =
      if raw = [] ∨ channel < 0 then ⟨.discarded, s, []⟩
      else relayDeliver env s channel tg now := by
  simp only [relayReceive, hown, hdecode, hkind, if_true]

theorem relayReceive_ownCmd (hdecode : tgDecode raw = some tg) (hkind : tg.kind = .cmd)
    (hown : env.selfPublicKey = some tg.receiver) (now : ℤ) :
    relayReceive env s channel raw now =
      if raw = [] ∨ channel < 0 then ⟨.discarded, s, []⟩
      else relayServeReplay env s channel tg now := by
  simp only [relayReceive, hown, hdecode, hkind, ne_eq, not_true, if_false]

theorem relayReceive_foreignText (s : RelayState σ) (channel : ℤ)
    (hdecode : tgDecode raw = some tg) (hkind : tg.kind = .text)
    (hforeign : env.selfPublicKey ≠ some tg.receiver) (now : ℤ) :
    relayReceive env s channel raw now = ⟨.discarded, s, []⟩ ∨
      relayReceive env s channel raw now = relayForward env s channel raw tg now := by
  unfold relayReceive
  cases hself : env.selfPublicKey with
  | none => exact .inl rfl
  | some self =>
      have hne : tg.receiver ≠ self := by
        rintro rfl
        exact hforeign hself
      simp only [hdecode, hkind, hne, if_false]
      split
      · exact .inl rfl
      · exact .inr rfl

theorem relayReceive_foreignCmd (hdecode : tgDecode raw = some tg) (hkind : tg.kind = .cmd)
    (hforeign : env.selfPublicKey ≠ some tg.receiver) (now : ℤ) :
    relayReceive env s channel raw now = ⟨.discarded, s, []⟩ := by
  unfold relayReceive
  cases hself : env.selfPublicKey with
  | none => rfl
  | some self =>
      have hne : tg.receiver ≠ self := by
        rintro rfl
        exact hforeign hself
      simp only [hdecode, hkind, ne_eq, hne, not_false_eq_true, if_true]
      split <;> rfl

end

theorem relayReceive_separate (env : RelayEnv σ) (s : RelayState σ) (channel : ℤ) (raw : Bytes)
    (now : ℤ) : RoutesSeparately env s channel raw now where
  rejected := by
    intro hdecode
    rw [relayReceive_rejected hdecode]
    exact ⟨rfl, rfl⟩
  foreignCmd := by
    intro tg hdecode hkind hforeign
    rw [relayReceive_foreignCmd hdecode hkind hforeign]
    exact ⟨rfl, rfl⟩
  foreignText := by
    intro tg hdecode hkind hforeign
    rcases relayReceive_foreignText s channel hdecode hkind hforeign now with
      hstep | hstep
    · rw [hstep]
      exact ⟨rfl, rfl, Nat.zero_le 1⟩
    · rw [hstep]
      exact relayForward_separate env s channel raw tg now
  ownText := by
    intro tg hdecode hkind hown
    rw [relayReceive_ownText hdecode hkind hown]
    refine ⟨?_, ?_⟩
    · intro resolvePeer
      have hown' : ({ env with resolvePeer := resolvePeer } : RelayEnv σ).selfPublicKey =
        some tg.receiver := hown
      rw [relayReceive_ownText hdecode hkind hown', relayDeliver_resolvePeer]
    split
    · exact ⟨Nat.zero_le 1, by simp [RelayStep.queued], fun _ => ⟨rfl, rfl⟩⟩
    · obtain ⟨hlength, hentries, hduplicate⟩ := relayDeliver_separate env s channel tg now
      refine ⟨hlength, hentries, fun hreported => ?_⟩
      obtain ⟨hcalls, hstate⟩ := hduplicate hreported
      exact ⟨hcalls, congrArg RelayState.trackers hstate⟩
  ownCmd := by
    intro tg hdecode hkind hown
    rw [relayReceive_ownCmd hdecode hkind hown]
    split
    · exact ⟨rfl, rfl, by simp [RelayStep.queued], fun _ => Nat.zero_le _⟩
    · exact relayServeReplay_separate env s channel tg now

end ToxRelayer
