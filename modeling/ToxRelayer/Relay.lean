import ToxRelayer.SnTracker

/-!
# Routing and store-and-forward policy

The decisions of `relay.c` over an injected environment.  `σ` is what `ctx`
points to; a callback that the code allows to be `NULL` is an `Option`.  Beside
its outcome and the new state, an entry point returns the calls it made to
`store`, `enqueue` and `remember_serial`, in order.
-/

namespace ToxRelayer

open CString

def relayMaxGap : ℕ := 64
def relayMaxReplay : ℕ := 64
def relayBodyMax : ℕ := 1024
def relayWireMax : ℕ := 1400

/-- One stored telegram; the body is a string in an array of `RELAY_BODY_MAX`
bytes. -/
structure RelayRecord where
  sn : ℤ
  timestamp : Int64
  body : CStr
  deriving DecidableEq

/-- `relay_env`.  A tracker is reached through a pointer, here a number. -/
structure RelayEnv (σ : Type) where
  selfPublicKey : Option CStr
  resolvePeer : Option (σ → CStr → ℤ)
  peerKey : Option (σ → ℤ → Option CStr)
  peerIsMetacom : Option (σ → ℤ → Bool)
  tracker : Option (σ → ℤ → Option ℕ)
  channelKnown : Option (σ → ℤ → Bool)
  store : Option (σ → ℤ → ℤ → Int64 → CStr → CStr → ℤ × σ)
  enqueue : Option (σ → ℤ → Bytes → ℤ → ℤ × σ)
  fetchRange : Option (σ → ℤ → ℤ → ℤ → ℕ → ℤ × List RelayRecord)
  rememberSerial : Option (σ → ℤ → ℤ → σ)

structure RelayState (σ : Type) where
  ctx : σ
  trackers : ℕ → SnTracker

inductive RelayOutcome where
  | stored
  | duplicate
  | gapRequested
  | recovered
  | resynced
  | relayed
  | noRoute
  | noPeer
  | served
  | nothingStored
  | discarded
  deriving DecidableEq, Repr

inductive RelayCall where
  | store (channel sn : ℤ) (timestamp : Int64) (sender body : CStr)
  | enqueue (channel : ℤ) (payload : Bytes)
  | remember (channel sn : ℤ)
  deriving DecidableEq

structure RelayStep (σ : Type) where
  outcome : RelayOutcome
  state : RelayState σ
  calls : List RelayCall

section

variable {σ : Type}

/-- The `len` bytes an encoder has written. -/
def TgEncoded.wire (encoded : TgEncoded) : Bytes :=
  encoded.out.take encoded.code.toNat

def relayRequestGap (env : RelayEnv σ) (s : RelayState σ) (channel start target now : ℤ) :
    RelayStep σ :=
  match env.enqueue, env.peerKey with
  | some enqueue, some peerKey =>
      match peerKey s.ctx channel with
      | none => ⟨.noPeer, s, []⟩
      | some peer =>
          let encoded := tgEncodeCmd relayWireMax (some peer) env.selfPublicKey start target
          if encoded.code ≤ 0 then ⟨.discarded, s, []⟩
          else
            let queued := enqueue s.ctx channel encoded.wire now
            ⟨if queued.1 ≠ 0 then .discarded else .gapRequested,
              { s with ctx := queued.2 }, [.enqueue channel encoded.wire]⟩
  | _, _ => ⟨.discarded, s, []⟩

/-- What the tracker of the channel says about a serial; in order when there
is no tracker. -/
def relayAccept (env : RelayEnv σ) (s : RelayState σ) (channel sn : ℤ) :
    SnResult × ℤ × ℤ × RelayState σ :=
  match env.tracker.bind (fun tracker => tracker s.ctx channel) with
  | none => (.inOrder, 0, 0, s)
  | some handle =>
      let verdict := snTrackerAccept (s.trackers handle) sn relayMaxGap
      (verdict.result, verdict.gapFrom, verdict.gapTo,
        { s with trackers := Function.update s.trackers handle verdict.tracker })

def relayStore (env : RelayEnv σ) (s : RelayState σ) (channel : ℤ) (tg : TgMessage) :
    RelayState σ × List RelayCall :=
  match env.store with
  | none => (s, [])
  | some store =>
      ({ s with ctx := (store s.ctx channel tg.sn tg.timestamp tg.sender tg.body).2 },
        [.store channel tg.sn tg.timestamp tg.sender tg.body])

def relayRemember (env : RelayEnv σ) (s : RelayState σ) (channel sn : ℤ) :
    RelayState σ × List RelayCall :=
  match env.rememberSerial with
  | none => (s, [])
  | some remember => ({ s with ctx := remember s.ctx channel sn }, [.remember channel sn])

/-- A telegram addressed to us: account for its serial and store it. -/
def relayDeliver (env : RelayEnv σ) (s : RelayState σ) (channel : ℤ) (tg : TgMessage)
    (now : ℤ) : RelayStep σ :=
  let (result, gapFrom, gapTo, s) := relayAccept env s channel tg.sn
  if result = .duplicate then ⟨.duplicate, s, []⟩
  else
    let stored := relayStore env s channel tg
    let remembered := relayRemember env stored.1 channel tg.sn
    let calls := stored.2 ++ remembered.2
    match result with
    | .gap =>
        let request := relayRequestGap env remembered.1 channel gapFrom gapTo now
        ⟨if request.outcome = .gapRequested then .gapRequested else .stored,
          request.state, calls ++ request.calls⟩
    | .recovered => ⟨.recovered, remembered.1, calls⟩
    | .resync => ⟨.resynced, remembered.1, calls⟩
    | _ => ⟨.stored, remembered.1, calls⟩

/-- A telegram for somebody else: route it on.  `strlen(raw)` stops at the first
NUL of the record. -/
def relayForward (env : RelayEnv σ) (s : RelayState σ) (channel : ℤ) (raw : Bytes)
    (tg : TgMessage) (now : ℤ) : RelayStep σ :=
  match env.resolvePeer, env.enqueue with
  | some resolvePeer, some enqueue =>
      let destination := resolvePeer s.ctx tg.receiver
      if destination < 0 then ⟨.noRoute, s, []⟩
      else
        let metacom := match env.peerIsMetacom with
          | none => false
          | some peerIsMetacom => peerIsMetacom s.ctx channel
        let payload := if metacom then (CStr.ofBuffer raw).val else tg.body.val
        let queued := enqueue s.ctx destination payload now
        ⟨if queued.1 ≠ 0 then .discarded else .relayed,
          { s with ctx := queued.2 }, [.enqueue destination payload]⟩
  | _, _ => ⟨.discarded, s, []⟩

/-- The loop of `relay_serve_replay`: the number of records queued, the context
after it and the calls made. -/
def relayReplayLoop (enqueue : σ → ℤ → Bytes → ℤ → ℤ × σ) (channel : ℤ) (peer : CStr)
    (self : Option CStr) (now : ℤ) : List RelayRecord → σ → ℕ × σ × List RelayCall
  | [], ctx => (0, ctx, [])
  | record :: records, ctx =>
      let encoded := tgEncodeText relayWireMax (some peer) self record.sn record.timestamp
        (some record.body)
      if encoded.code ≤ 0 then relayReplayLoop enqueue channel peer self now records ctx
      else
        let queued := enqueue ctx channel encoded.wire now
        let rest := relayReplayLoop enqueue channel peer self now records queued.2
        (if queued.1 = 0 then rest.1 + 1 else rest.1, rest.2.1,
          .enqueue channel encoded.wire :: rest.2.2)

/-- A control telegram: replay what the peer reports it never received. -/
def relayServeReplay (env : RelayEnv σ) (s : RelayState σ) (channel : ℤ) (cmd : TgMessage)
    (now : ℤ) : RelayStep σ :=
  match env.fetchRange, env.enqueue, env.peerKey with
  | some fetchRange, some enqueue, some peerKey =>
      match peerKey s.ctx channel with
      | none => ⟨.noPeer, s, []⟩
      | some peer =>
          let fetched := fetchRange s.ctx channel cmd.sn cmd.snTo relayMaxReplay
          if fetched.1 ≤ 0 then ⟨.nothingStored, s, []⟩
          else
            let replay := relayReplayLoop enqueue channel peer env.selfPublicKey now
              (fetched.2.take fetched.1.toNat) s.ctx
            ⟨if 0 < replay.1 then .served else .nothingStored,
              { s with ctx := replay.2.1 }, replay.2.2⟩
  | _, _, _ => ⟨.discarded, s, []⟩

def relayReceive (env : RelayEnv σ) (s : RelayState σ) (channel : ℤ) (raw : Bytes)
    (now : ℤ) : RelayStep σ :=
  match env.selfPublicKey with
  | none => ⟨.discarded, s, []⟩
  | some self =>
      if raw = [] ∨ channel < 0 then ⟨.discarded, s, []⟩
      else
        match tgDecode raw with
        | none => ⟨.discarded, s, []⟩
        | some tg =>
            match tg.kind with
            | .text =>
                if tg.receiver = self then relayDeliver env s channel tg now
                else relayForward env s channel raw tg now
            | .cmd =>
                if tg.receiver ≠ self then ⟨.discarded, s, []⟩
                else relayServeReplay env s channel tg now
            | .invalid => ⟨.discarded, s, []⟩

/-- The filter of `relay_recover_trackers`; without one every channel passes. -/
def relayKnown (env : RelayEnv σ) (s : RelayState σ) (channel : ℤ) : Bool :=
  match env.channelKnown with
  | none => true
  | some channelKnown => channelKnown s.ctx channel

/-- One round of `relay_recover_trackers`: whether the channel had a stored
serial, and the state after it. -/
def relayRecoverChannel (env : RelayEnv σ) (tracker : σ → ℤ → Option ℕ)
    (lastSn : σ → ℤ → ℤ × ℤ) (channel : ℤ) (s : RelayState σ) : Bool × RelayState σ :=
  if !relayKnown env s channel then (false, s)
  else
    match tracker s.ctx channel with
    | none => (false, s)
    | some handle =>
        let last := lastSn s.ctx channel
        if last.1 ≠ 0 then
          (false, { s with
            trackers := Function.update s.trackers handle (snTrackerInit tgSnMin) })
        else
          (decide (tgSnValid last.2), { s with
            trackers := Function.update s.trackers handle (snTrackerResume last.2) })

def relayRecoverLoop (env : RelayEnv σ) (tracker : σ → ℤ → Option ℕ)
    (lastSn : σ → ℤ → ℤ × ℤ) : List ℕ → RelayState σ → ℕ × RelayState σ
  | [], s => (0, s)
  | channel :: channels, s =>
      let round := relayRecoverChannel env tracker lastSn channel s
      let rest := relayRecoverLoop env tracker lastSn channels round.2
      (if round.1 then rest.1 + 1 else rest.1, rest.2)

def relayRecoverTrackers (env : RelayEnv σ) (lastSn : Option (σ → ℤ → ℤ × ℤ))
    (channels : ℤ) (s : RelayState σ) : ℕ × RelayState σ :=
  match lastSn, env.tracker with
  | some lastSn, some tracker =>
      relayRecoverLoop env tracker lastSn (List.range channels.toNat) s
  | _, _ => (0, s)

end

end ToxRelayer
