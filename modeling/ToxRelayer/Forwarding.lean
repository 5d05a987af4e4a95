import ToxRelayer.Relay
import ToxRelayer.TelegramLines

/-!
# The format of a forwarded record

A record for somebody else goes on unchanged or as its bare body.  The choice is
made by the channel it came from.
-/

namespace ToxRelayer

open CString

section

variable {σ : Type}

/-- Without the callback no peer is known to speak metaCom. -/
def RelayEnv.speaksMetacom (env : RelayEnv σ) (s : RelayState σ) (channel : ℤ) : Bool :=
  match env.peerIsMetacom with
  | none => false
  | some peerIsMetacom => peerIsMetacom s.ctx channel

/-- What the peer on a channel can make use of. -/
def RelayEnv.formatFor (env : RelayEnv σ) (s : RelayState σ) (channel : ℤ) (raw : Bytes)
    (tg : TgMessage) : Bytes :=
  if env.speaksMetacom s channel then raw else tg.body.val

variable {env : RelayEnv σ} {s : RelayState σ} {raw : Bytes} {tg : TgMessage}

theorem relayForward_calls {resolvePeer : σ → CStr → ℤ} {enqueue : σ → ℤ → Bytes → ℤ → ℤ × σ}
    (hresolve : env.resolvePeer = some resolvePeer) (henqueue : env.enqueue = some enqueue)
    (hnul : (0 : UInt8) ∉ raw) (hroute : 0 ≤ resolvePeer s.ctx tg.receiver) (channel now : ℤ) :
    (relayForward env s channel raw tg now).calls =
      [.enqueue (resolvePeer s.ctx tg.receiver) (env.formatFor s channel raw tg)] := by
  unfold relayForward
  rw [hresolve, henqueue]
  dsimp only
  rw [if_neg (by omega), CStr.ofBuffer_val_of_nulFree hnul]
  rfl

/-- The destination gets its own format exactly when source and destination both
speak metaCom or both do not. -/
theorem relayForward_formatFor_iff (resolvePeer : σ → CStr → ℤ)
    {enqueue : σ → ℤ → Bytes → ℤ → ℤ × σ} (hresolve : env.resolvePeer = some resolvePeer)
    (henqueue : env.enqueue = some enqueue) (hnul : (0 : UInt8) ∉ raw)
    (hdecode : tgDecode raw = some tg) (hroute : 0 ≤ resolvePeer s.ctx tg.receiver)
    (channel now : ℤ) :
    (relayForward env s channel raw tg now).calls =
        [.enqueue (resolvePeer s.ctx tg.receiver)
          (env.formatFor s (resolvePeer s.ctx tg.receiver) raw tg)] ↔
      env.speaksMetacom s channel = env.speaksMetacom s (resolvePeer s.ctx tg.receiver) := by
  have hshorter : raw ≠ tg.body.val := by
    intro hsame
    have hlt := tgDecode_body_lt hnul hdecode
    rw [CStr.length, ← hsame] at hlt
    exact lt_irrefl _ hlt
  rw [relayForward_calls hresolve henqueue hnul hroute, List.cons.injEq, RelayCall.enqueue.injEq]
  simp only [and_true, true_and, RelayEnv.formatFor]
  cases env.speaksMetacom s channel <;>
    cases env.speaksMetacom s (resolvePeer s.ctx tg.receiver) <;>
    simp [hshorter, hshorter.symm]

end

/-- Every record is for the peer on channel 1; only the peer on channel 0 speaks
metaCom. -/
def twoPeersEnv : RelayEnv Unit where
  selfPublicKey := some CStr.empty
  resolvePeer := some fun _ _ => 1
  peerKey := none
  peerIsMetacom := some fun _ channel => decide (channel = 0)
  tracker := none
  channelKnown := none
  store := none
  enqueue := some fun _ _ _ _ => (0, ())
  fetchRange := none
  rememberSerial := none

def twoPeersState : RelayState Unit := ⟨(), fun _ => snTrackerInit tgSnMin⟩

def passingRecord : Bytes := bytes "ZCZC TEXT\nAAAA\nAAAA\n7 100\nhelloNNNN\n"

theorem passingBody_nulFree : (0 : UInt8) ∉ bytes "hello" := by decide

def passingTelegram : TgMessage :=
  ⟨.text, sampleKey, sampleKey, 7, 0, 100, ⟨bytes "hello", passingBody_nulFree⟩⟩

theorem passingRecord_decodes : tgDecode passingRecord = some passingTelegram := by
  decide +kernel

theorem relayForward_formatFor_iff_plain :
    (relayForward twoPeersEnv twoPeersState 2 passingRecord passingTelegram 0).calls =
        [.enqueue 1 (twoPeersEnv.formatFor twoPeersState 1 passingRecord passingTelegram)] ↔
      twoPeersEnv.speaksMetacom twoPeersState 2 = twoPeersEnv.speaksMetacom twoPeersState 1 :=
  relayForward_formatFor_iff (fun _ _ => 1) rfl rfl (by decide +kernel) passingRecord_decodes
    (by decide) 2 0

/-- A plain peer is sent the whole record because it came from a metaCom peer. -/
theorem relayForward_wrong_format :
    ¬ ∀ (σ : Type) (env : RelayEnv σ) (s : RelayState σ) (resolvePeer : σ → CStr → ℤ)
        (enqueue : σ → ℤ → Bytes → ℤ → ℤ × σ) (raw : Bytes) (tg : TgMessage) (channel now : ℤ),
      env.resolvePeer = some resolvePeer → env.enqueue = some enqueue → (0 : UInt8) ∉ raw →
        tgDecode raw = some tg → tg.kind = .text → 0 ≤ resolvePeer s.ctx tg.receiver →
          (relayForward env s channel raw tg now).calls =
            [.enqueue (resolvePeer s.ctx tg.receiver)
              (env.formatFor s (resolvePeer s.ctx tg.receiver) raw tg)] := by
  intro hall
  have hcalls := hall Unit twoPeersEnv twoPeersState _ _ passingRecord passingTelegram 0 0
    rfl rfl (by decide +kernel) passingRecord_decodes rfl (by decide)
  exact absurd hcalls (by decide +kernel)

end ToxRelayer
