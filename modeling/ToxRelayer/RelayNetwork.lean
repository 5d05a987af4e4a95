import ToxRelayer.IncomingMessage
import ToxRelayer.RoutingSeparation
import ToxRelayer.TelegramResend
import Mathlib.Logic.Relation

/-!
# A network of relays

Any number of relays, each channel ending at another relay.  What has been queued
may arrive late, again and again, in any order or never, and between two arrivals
the programs around the relays do their own work.
-/

namespace ToxRelayer

open CString

/-! ## Text that is no record -/

section

variable {lines : List Bytes} {last : Bytes}

theorem closingLine_eq_some {kept : Bytes} (hclosing : closingLine lines = some kept) :
    ∃ line ∈ lines, tgTerminator <:+ line.take (tgLineSize - 1) := by
  induction lines with
  | nil => cases hclosing
  | cons line lines ih =>
      rw [closingLine] at hclosing
      split at hclosing
      · rename_i hends
        exact ⟨line, List.mem_cons_self, hends⟩
      · obtain ⟨later, hmem, hends⟩ := ih hclosing
        exact ⟨later, List.mem_cons_of_mem line hmem, hends⟩

theorem textLines_joinLines (hlines : ∀ line ∈ lines, TgPlainLine line) (hlast : TgPlainLine last) :
    textLines (joinLines lines last) = lines ++ [last] := by
  induction lines with
  | nil =>
      have hread := textLines_append hlast.1 hlast.2.1 (show textLines [] = [[]] from rfl)
      rw [List.append_nil] at hread
      rw [joinLines_nil, hread, List.nil_append]
  | cons line lines ih =>
      obtain ⟨hline, hmore⟩ := List.forall_mem_cons.mp hlines
      rw [joinLines_cons, textLines_line hline.1 hline.2.1, ih hmore, List.cons_append]

/-- A record needs a line that ends in the terminator. -/
theorem tgDecode_joinLines (hlines : ∀ line ∈ lines ++ [last],
    TgPlainLine line ∧ tgEndsInTerminator line = false ∧ line.length < tgLineSize)
    (hnul : (0 : UInt8) ∉ joinLines lines last) : tgDecode (joinLines lines last) = none := by
  by_contra hsome
  obtain ⟨tg, hdecode⟩ := Option.ne_none_iff_exists'.mp hsome
  obtain ⟨-, kept, -, hclosing, -⟩ := tgDecode_closingLine hnul hdecode
  have hplain : ∀ line ∈ lines, TgPlainLine line := fun line hmem =>
    (hlines line (List.mem_append_left _ hmem)).1
  have hplainLast : TgPlainLine last := (hlines last (by simp)).1
  rw [textLines_joinLines hplain hplainLast] at hclosing
  obtain ⟨line, hmem, hends⟩ := closingLine_eq_some hclosing
  obtain ⟨-, hopen, hfits⟩ := hlines line (List.mem_of_mem_drop hmem)
  rw [List.take_of_length_le (by omega), ← tgEndsInTerminator_iff, hopen] at hends
  exact Bool.false_ne_true hends

end

theorem tgTextRecord_nulFree (receiver sender body : CStr) (sn : ℤ) (timestamp : Int64) :
    (0 : UInt8) ∉ tgTextRecord receiver sender sn timestamp body.val := by
  have hheader : (0 : UInt8) ∉ bytes "ZCZC TEXT" := by decide
  have hterminator : (0 : UInt8) ∉ tgTerminator := by decide
  have hlf : (0 : UInt8) ≠ lf := by decide
  have hnumbers : (0 : UInt8) ∉ tgTextMetaLine sn timestamp :=
    fun hmem => (tgTextMetaLine_free hmem).2.2 rfl
  simp only [tgTextRecord, List.mem_append, List.mem_cons, List.not_mem_nil, or_false, not_or]
  exact ⟨hheader, hlf, receiver.nulFree, hlf, sender.nulFree, hlf, hnumbers, hlf, body.nulFree,
    hterminator, hlf⟩

/-! ## Telegrams that come through -/

section

variable {outSize : ℕ} {receiver sender body : CStr} {sn : ℤ} {timestamp : Int64}
  (hroundTrips : TgTextRoundTrips outSize receiver sender sn timestamp (some body))

include hroundTrips

theorem TgTextRoundTrips.accepted :
    0 < (tgEncodeText outSize (some receiver) (some sender) sn timestamp (some body)).code := by
  obtain ⟨tg, hdecode, -⟩ := hroundTrips
  by_contra hcode
  rw [Int.toNat_of_nonpos (by omega), List.take_zero] at hdecode
  cases hdecode

theorem TgTextRoundTrips.wire_nulFree : (0 : UInt8) ∉
    (tgEncodeText outSize (some receiver) (some sender) sn timestamp (some body)).wire := by
  obtain ⟨-, -, -, -, hencoded⟩ := tgEncodeText_accepted hroundTrips.accepted
  intro hmem
  rw [TgEncoded.wire, hencoded] at hmem
  exact tgTextRecord_nulFree receiver sender body sn timestamp (List.mem_of_mem_take hmem)

theorem TgTextRoundTrips.decodes :
    tgDecode (tgEncodeText outSize (some receiver) (some sender) sn timestamp (some body)).wire =
      some ⟨.text, receiver, sender, sn, 0, timestamp, body⟩ := by
  obtain ⟨tg, hdecode, hkind, rfl, rfl, rfl, rfl, hbody⟩ := hroundTrips
  obtain ⟨-, -, -, hsnTo⟩ := tgDecode_header hdecode
  rw [if_pos hkind] at hsnTo
  obtain rfl : tg.body = body := CStr.ext hbody
  rw [TgEncoded.wire, hdecode, ← hsnTo, ← hkind]

/-- The text of a telegram that comes through is no record itself. -/
theorem TgTextRoundTrips.text_undecodable : tgDecode body.val = none := by
  obtain ⟨-, -, -, hok, -⟩ := tgEncodeText_accepted hroundTrips.accepted
  obtain ⟨lines, last, hjoin, -, hlines, hlast, hfits, -⟩ :=
    tgDecode_closingLine hroundTrips.wire_nulFree hroundTrips.decodes
  rw [tgBodyOk, hjoin, tgBodyOkLoop_joinLines (fun line hmem => (hlines line hmem).1.1) hlast.1]
    at hok
  have hnul := body.nulFree
  rw [hjoin] at hnul ⊢
  refine tgDecode_joinLines (fun line hmem => ?_) hnul
  rcases List.mem_append.mp hmem with hline | hline
  · exact hlines line hline
  · obtain rfl := List.mem_singleton.mp hline
    exact ⟨hlast, hok.2, by omega⟩

end

theorem tgDecode_kind {raw : Bytes} {tg : TgMessage} (hdecode : tgDecode raw = some tg) :
    tg.kind ≠ .invalid := by
  obtain ⟨header, receiver, sender, metaLine, lines, -, hkind, -⟩ := tgDecode_headerLines hdecode
  intro hinvalid
  rw [hinvalid, tgHeaderKind] at hkind
  split_ifs at hkind <;> cases hkind

/-! ## What a relay stores and queues -/

section

variable {σ : Type} {env : RelayEnv σ} {s : RelayState σ} {channel : ℤ}

theorem relayStore_mem {tg : TgMessage} {call : RelayCall}
    (hcall : call ∈ (relayStore env s channel tg).2) :
    call = .store channel tg.sn tg.timestamp tg.sender tg.body := by
  unfold relayStore at hcall
  split at hcall
  · cases hcall
  · exact List.mem_singleton.mp hcall

theorem relayDeliver_stores (tg : TgMessage) (now : ℤ) {call : RelayCall}
    (hcall : call ∈ (relayDeliver env s channel tg now).stores) :
    call = .store channel tg.sn tg.timestamp tg.sender tg.body := by
  unfold relayDeliver at hcall
  dsimp only at hcall
  split at hcall
  · cases hcall
  · split at hcall
    · rw [RelayStep.stores, List.filter_append, relayRequestGap_stores, List.append_nil,
        List.filter_append, relayRemember_stores, List.append_nil] at hcall
      exact relayStore_mem (List.mem_of_mem_filter hcall)
    all_goals
      rw [RelayStep.stores, List.filter_append, relayRemember_stores, List.append_nil] at hcall
      exact relayStore_mem (List.mem_of_mem_filter hcall)

theorem relayForward_queued (raw : Bytes) (tg : TgMessage) (now : ℤ) {call : ℤ × Bytes}
    (hcall : call ∈ (relayForward env s channel raw tg now).queued) :
    ∃ resolvePeer ∈ env.resolvePeer, call.1 = resolvePeer s.ctx tg.receiver ∧
      (call.2 = (CStr.ofBuffer raw).val ∨ call.2 = tg.body.val) := by
  unfold relayForward at hcall
  split at hcall
  · rename_i resolvePeer enqueue hresolve henqueue
    dsimp only at hcall
    split at hcall
    · cases hcall
    · obtain rfl := List.mem_singleton.mp hcall
      exact ⟨resolvePeer, hresolve, rfl, ite_eq_or_eq _ _ _⟩
  · cases hcall

theorem relayReplayLoop_queued {enqueue : σ → ℤ → Bytes → ℤ → ℤ × σ} {peer : CStr}
    {self : Option CStr} {now : ℤ} {records : List RelayRecord} {ctx : σ} {call : ℤ × Bytes}
    (hcall : call ∈ (relayReplayLoop enqueue channel peer self now records ctx).2.2.filterMap
      RelayCall.queued) :
    ∃ record ∈ records, call = (channel, (tgEncodeText relayWireMax (some peer) self record.sn
      record.timestamp (some record.body)).wire) := by
  induction records generalizing ctx with
  | nil => cases hcall
  | cons record records ih =>
      rw [relayReplayLoop] at hcall
      dsimp only at hcall
      split at hcall
      · obtain ⟨later, hmem, hsame⟩ := ih hcall
        exact ⟨later, List.mem_cons_of_mem record hmem, hsame⟩
      · rcases List.mem_cons.mp hcall with hfirst | hlater
        · exact ⟨record, List.mem_cons_self, hfirst⟩
        · obtain ⟨later, hmem, hsame⟩ := ih hlater
          exact ⟨later, List.mem_cons_of_mem record hmem, hsame⟩

theorem relayServeReplay_queued (cmd : TgMessage) (now : ℤ) {call : ℤ × Bytes}
    (hcall : call ∈ (relayServeReplay env s channel cmd now).queued) :
    ∃ fetchRange ∈ env.fetchRange, ∃ peerKey ∈ env.peerKey, ∃ peer ∈ peerKey s.ctx channel,
      let fetched := fetchRange s.ctx channel cmd.sn cmd.snTo relayMaxReplay
      ∃ record ∈ fetched.2.take fetched.1.toNat,
        call = (channel, (tgEncodeText relayWireMax (some peer) env.selfPublicKey record.sn
          record.timestamp (some record.body)).wire) := by
  unfold relayServeReplay at hcall
  split at hcall
  · rename_i fetchRange enqueue peerKey hfetch henqueue hpeerKey
    split at hcall
    · cases hcall
    · rename_i peer hpeer
      dsimp only at hcall
      split at hcall
      · cases hcall
      · exact ⟨fetchRange, hfetch, peerKey, hpeerKey, peer, hpeer, relayReplayLoop_queued hcall⟩
  · cases hcall

/-- The outcomes of a record for somebody else. -/
def RelayOutcome.PassesOn : RelayOutcome → Prop
  | .relayed | .noRoute => True
  | _ => False

theorem relayDeliver_not_passesOn (tg : TgMessage) (now : ℤ) :
    ¬ (relayDeliver env s channel tg now).outcome.PassesOn := by
  unfold relayDeliver
  dsimp only
  split
  · exact id
  · split
    · dsimp only
      split <;> exact id
    all_goals exact id

theorem relayServeReplay_not_passesOn (cmd : TgMessage) (now : ℤ) :
    ¬ (relayServeReplay env s channel cmd now).outcome.PassesOn := by
  unfold relayServeReplay
  split
  · split
    · exact id
    · dsimp only
      split
      · exact id
      · dsimp only
        split <;> exact id
  · exact id

/-- Nothing but text for somebody else is passed on. -/
theorem relayReceive_passesOn {raw : Bytes} {now : ℤ}
    (hpasses : (relayReceive env s channel raw now).outcome.PassesOn) :
    ∃ tg, tgDecode raw = some tg ∧ tg.kind = .text ∧ env.selfPublicKey ≠ some tg.receiver := by
  cases hdecode : tgDecode raw with
  | none =>
      rw [relayReceive_rejected hdecode] at hpasses
      exact hpasses.elim
  | some tg =>
      by_cases hown : env.selfPublicKey = some tg.receiver
      · cases hkind : tg.kind with
        | text =>
            rw [relayReceive_ownText hdecode hkind hown] at hpasses
            split at hpasses
            · exact hpasses.elim
            · exact (relayDeliver_not_passesOn tg now hpasses).elim
        | cmd =>
            rw [relayReceive_ownCmd hdecode hkind hown] at hpasses
            split at hpasses
            · exact hpasses.elim
            · exact (relayServeReplay_not_passesOn tg now hpasses).elim
        | invalid => exact absurd hkind (tgDecode_kind hdecode)
      · cases hkind : tg.kind with
        | text => exact ⟨tg, rfl, hkind, hown⟩
        | cmd =>
            rw [relayReceive_foreignCmd hdecode hkind hown] at hpasses
            exact hpasses.elim
        | invalid => exact absurd hkind (tgDecode_kind hdecode)

end

/-! ## The network -/

/-- What somebody has written at one relay for another. -/
structure Telegram (ι : Type) where
  receiver : ι
  sender : ι
  sn : ℤ
  timestamp : Int64
  body : CStr

/-- The relays, the keys the others list them under, the keys they take for their own, and for a
channel the relay at its other end with the number the channel has there.  `α` is what the calls
of an environment may be answered from outside, and `keeps` what a program sees to in its context,
given the telegrams written so far. -/
structure RelayNetwork (ι α : Type) (σ : ι → Type) where
  env : ∀ n, α → RelayEnv (σ n)
  key : ι → CStr
  own : ι → CStr
  far : ι → ℤ → Option (ι × ℤ)
  keeps : ∀ n, List (Telegram ι) → σ n → Prop

/-- A payload on its way from a relay; `relayed` if the relay itself has queued it. -/
structure QueuedPayload (ι : Type) where
  relay : ι
  channel : ℤ
  payload : Bytes
  relayed : Bool
  deriving DecidableEq

structure NetworkState (ι : Type) (σ : ι → Type) where
  relay : ∀ n, RelayState (σ n)
  written : List (Telegram ι)
  queued : List (QueuedPayload ι)
  stored : List (ι × RelayCall)

namespace RelayNetwork

variable {ι α : Type} {σ : ι → Type} (net : RelayNetwork ι α σ)

/-- A telegram as it goes over a channel. -/
def wire (t : Telegram ι) : Bytes :=
  (tgEncodeText relayWireMax (some (net.key t.receiver)) (some (net.own t.sender)) t.sn t.timestamp
    (some t.body)).wire

def record (t : Telegram ι) : RelayRecord := ⟨t.sn, t.timestamp, t.body⟩

def Carries (t : Telegram ι) : Prop :=
  TgTextRoundTrips relayWireMax (net.key t.receiver) (net.own t.sender) t.sn t.timestamp
    (some t.body)

/-- A channel of `n` that leads to nobody but the relay with the given key. -/
def LeadsTo (n : ι) (channel : ℤ) (key : CStr) : Prop :=
  ∀ m back, net.far n channel = some (m, back) → net.key m = key

/-- The directory knows the keys at the other ends, and routes no record to another relay than the
one it is for. -/
structure Directed (n : ι) (ctx : σ n) : Prop where
  peerKey : ∀ answer, ∀ peerKey ∈ (net.env n answer).peerKey, ∀ channel m back,
    net.far n channel = some (m, back) → ∀ key ∈ peerKey ctx channel, key = net.key m
  resolvePeer : ∀ answer, ∀ resolvePeer ∈ (net.env n answer).resolvePeer, ∀ m,
    net.LeadsTo n (resolvePeer ctx (net.key m)) (net.key m)

/-- What is fetched for a replay has been written here for the other end of the channel. -/
def Archives (n : ι) (written : List (Telegram ι)) (ctx : σ n) : Prop :=
  ∀ answer, ∀ fetchRange ∈ (net.env n answer).fetchRange, ∀ channel m back,
    net.far n channel = some (m, back) → ∀ start target max,
      let fetched := fetchRange ctx channel start target max
      ∀ entry ∈ fetched.2.take fetched.1.toNat, ∃ t ∈ written,
        net.key t.receiver = net.key m ∧ net.own t.sender = net.own n ∧ entry = record t

/-- A channel has two ends, and the programs see to their directories and archives; storing,
queueing and remembering do not spoil them. -/
structure Wired : Prop where
  self : ∀ n answer, (net.env n answer).selfPublicKey = some (net.own n)
  others : ∀ n channel m back, net.far n channel = some (m, back) → net.key m ≠ net.key n
  far_far : ∀ n channel m back, net.far n channel = some (m, back) →
    net.far m back = some (n, channel)
  directed : ∀ n written ctx, net.keeps n written ctx → net.Directed n ctx
  archives : ∀ n written ctx, net.keeps n written ctx → net.Archives n written ctx
  callbacks : ∀ n answer channel written, (net.env n answer).Keeps channel (net.keeps n written)
  more : ∀ n written t ctx, net.keeps n written ctx → net.keeps n (written ++ [t]) ctx

def reach [DecidableEq ι] (s : NetworkState ι σ) (entry : QueuedPayload ι) (m : ι) (back : ℤ)
    (answer : α) (now : ℤ) : NetworkState ι σ :=
  let step := relayReceive (net.env m answer) (s.relay m) back entry.payload now
  { s with
    relay := Function.update s.relay m step.state
    queued := s.queued ++ step.queued.map fun call => ⟨m, call.1, call.2, true⟩
    stored := s.stored ++ step.stores.map (Prod.mk m) }

/-- A program may queue what is no record of text, and records of written telegrams. -/
def Sendable (written : List (Telegram ι)) (payload : Bytes) : Prop :=
  ∀ tg, tgDecode payload = some tg → tg.kind = .text → ∃ t ∈ written, payload = net.wire t

/-- Somebody writes a telegram, a program does its own work or queues a payload, or a payload
that has been queued arrives. -/
inductive Step [DecidableEq ι] : NetworkState ι σ → NetworkState ι σ → Prop
  | write {s : NetworkState ι σ} (t : Telegram ι) (hcarries : net.Carries t) :
      Step s { s with written := s.written ++ [t] }
  | host {s : NetworkState ι σ} (n : ι) (relay : RelayState (σ n))
      (hkeeps : net.keeps n s.written relay.ctx) :
      Step s { s with relay := Function.update s.relay n relay }
  | queue {s : NetworkState ι σ} (n : ι) (channel : ℤ) (payload : Bytes)
      (hsendable : net.Sendable s.written payload) :
      Step s { s with queued := s.queued ++ [⟨n, channel, payload, false⟩] }
  | arrive {s : NetworkState ι σ} (entry : QueuedPayload ι) (hqueued : entry ∈ s.queued) (m : ι)
      (back : ℤ) (hfar : net.far entry.relay entry.channel = some (m, back)) (answer : α) (now : ℤ) :
      Step s (net.reach s entry m back answer now)

/-- Nothing has been queued yet. -/
structure Initial (s : NetworkState ι σ) : Prop where
  keeps : ∀ n, net.keeps n s.written (s.relay n).ctx
  carries : ∀ t ∈ s.written, net.Carries t
  queued : s.queued = []
  stored : s.stored = []

/-! ## What a relay does with a record -/

/-- A relay sends text to nobody but the one it was written for. -/
def Addressed (written : List (Telegram ι)) (n : ι) (channel : ℤ) (payload : Bytes) : Prop :=
  IsControl payload ∨ ∃ t ∈ written, (payload = net.wire t ∨ payload = t.body.val) ∧
    net.LeadsTo n channel (net.key t.receiver)

/-- What is stored has been written to the key the relay takes for its own. -/
def Genuine (written : List (Telegram ι)) (n : ι) (call : RelayCall) : Prop :=
  ∃ t ∈ written, net.key t.receiver = net.own n ∧
    ∃ channel, call = .store channel t.sn t.timestamp (net.own t.sender) t.body

structure Sound (s : NetworkState ι σ) : Prop where
  keeps : ∀ n, net.keeps n s.written (s.relay n).ctx
  carries : ∀ t ∈ s.written, net.Carries t
  sendable : ∀ entry ∈ s.queued, net.Sendable s.written entry.payload
  addressed : ∀ entry ∈ s.queued, entry.relayed = true →
    net.Addressed s.written entry.relay entry.channel entry.payload
  genuine : ∀ entry ∈ s.stored, net.Genuine s.written entry.1 entry.2

section

variable {net} {written : List (Telegram ι)} {n : ι} {channel : ℤ} {payload : Bytes}

theorem Carries.decodes {t : Telegram ι} (hcarries : net.Carries t) :
    tgDecode (net.wire t) = some
      ⟨.text, net.key t.receiver, net.own t.sender, t.sn, 0, t.timestamp, t.body⟩ :=
  TgTextRoundTrips.decodes hcarries

theorem Carries.wire_nulFree {t : Telegram ι} (hcarries : net.Carries t) :
    (0 : UInt8) ∉ net.wire t :=
  TgTextRoundTrips.wire_nulFree hcarries

/-- What is addressed may be queued. -/
theorem Addressed.sendable (hcarries : ∀ t ∈ written, net.Carries t)
    (haddressed : net.Addressed written n channel payload) : net.Sendable written payload := by
  intro tg hdecode hkind
  rcases haddressed with ⟨cmd, hcmd, hkindCmd⟩ | ⟨t, ht, rfl | rfl, -⟩
  · obtain rfl := Option.some.inj (hdecode.symm.trans hcmd)
    rw [hkind] at hkindCmd
    cases hkindCmd
  · exact ⟨t, ht, rfl⟩
  · rw [TgTextRoundTrips.text_undecodable (hcarries t ht)] at hdecode
    cases hdecode

/-- One record that arrives at a relay of a wired network. -/
theorem Wired.receive (hwired : net.Wired) {s : RelayState (σ n)}
    (hkeeps : net.keeps n written s.ctx) (hcarries : ∀ t ∈ written, net.Carries t)
    (hsendable : net.Sendable written payload) {m : ι} {back : ℤ}
    (hfar : net.far n channel = some (m, back)) (answer : α) (now : ℤ) :
    let step := relayReceive (net.env n answer) s channel payload now
    (∀ call ∈ step.queued, net.Addressed written n call.1 call.2) ∧
      ∀ call ∈ step.stores, net.Genuine written n call := by
  have hself := hwired.self n answer
  have hdirected := hwired.directed n written s.ctx hkeeps
  have harchives := hwired.archives n written s.ctx hkeeps
  have hseparate := relayReceive_separate (net.env n answer) s channel payload now
  intro step
  cases hdecode : tgDecode payload with
  | none =>
      have hcalls : step.calls = [] := (hseparate.rejected hdecode).1
      rw [RelayStep.queued, RelayStep.stores, hcalls]
      exact ⟨fun _ hcall => absurd hcall List.not_mem_nil,
        fun _ hcall => absurd hcall List.not_mem_nil⟩
  | some tg =>
      cases hkind : tg.kind with
      | text =>
          obtain ⟨t, ht, rfl⟩ := hsendable tg hdecode hkind
          obtain rfl := Option.some.inj (hdecode.symm.trans (hcarries t ht).decodes)
          by_cases hown : (net.env n answer).selfPublicKey = some (net.key t.receiver)
          · obtain ⟨-, -, hqueued, -⟩ := hseparate.ownText _ hdecode hkind hown
            refine ⟨fun call hcall => .inl (hqueued call hcall).2, fun call hcall => ?_⟩
            refine ⟨t, ht, Option.some.inj (hown.symm.trans hself), channel, ?_⟩
            rw [show step = _ from relayReceive_ownText hdecode hkind hown now] at hcall
            split at hcall
            · cases hcall
            · exact relayDeliver_stores _ now hcall
          · obtain ⟨-, hstores, -⟩ := hseparate.foreignText _ hdecode hkind hown
            refine ⟨fun call hcall => ?_, fun call hcall => ?_⟩
            · rcases relayReceive_foreignText s channel hdecode hkind hown now with hstep | hstep
              · rw [show step = _ from hstep] at hcall
                cases hcall
              · rw [show step = _ from hstep] at hcall
                obtain ⟨resolvePeer, hresolve, hchannel, hpayload⟩ :=
                  relayForward_queued _ _ _ hcall
                have hleads := hdirected.resolvePeer answer resolvePeer hresolve t.receiver
                rw [CStr.ofBuffer_val_of_nulFree (hcarries t ht).wire_nulFree] at hpayload
                exact .inr ⟨t, ht, hpayload, hchannel ▸ hleads⟩
            · rw [show step.stores = [] from hstores] at hcall
              cases hcall
      | cmd =>
          by_cases hown : (net.env n answer).selfPublicKey = some tg.receiver
          · obtain ⟨-, hstores, -, -⟩ := hseparate.ownCmd tg hdecode hkind hown
            refine ⟨fun call hcall => ?_, fun call hcall => ?_⟩
            · rw [show step = _ from relayReceive_ownCmd hdecode hkind hown now] at hcall
              split at hcall
              · cases hcall
              · obtain ⟨fetchRange, hfetch, peerKey, hpeerKey, peer, hpeer, record, hrecord, rfl⟩ :=
                  relayServeReplay_queued tg now hcall
                obtain ⟨t, ht, hreceiver, hsender, rfl⟩ :=
                  harchives answer fetchRange hfetch channel m back hfar _ _ _ record hrecord
                obtain rfl := hdirected.peerKey answer peerKey hpeerKey channel m back hfar peer
                  hpeer
                refine .inr ⟨t, ht, .inl ?_, fun m' back' hfar' => ?_⟩
                · rw [wire, hself, hreceiver, hsender]
                  rfl
                · obtain ⟨rfl, rfl⟩ := Prod.mk.inj (Option.some.inj (hfar.symm.trans hfar'))
                  exact hreceiver.symm
            · rw [show step.stores = [] from hstores] at hcall
              cases hcall
          · have hcalls : step.calls = [] := (hseparate.foreignCmd tg hdecode hkind hown).1
            rw [RelayStep.queued, RelayStep.stores, hcalls]
            exact ⟨fun _ hcall => absurd hcall List.not_mem_nil,
              fun _ hcall => absurd hcall List.not_mem_nil⟩
      | invalid => exact absurd hkind (tgDecode_kind hdecode)

/-- What is addressed is not passed on where it arrives, if the relay there goes by the key it is
listed under. -/
theorem Addressed.not_passesOn (hwired : net.Wired)
    (hcarries : ∀ t ∈ written, net.Carries t) {m : ι} {back : ℤ}
    (haddressed : net.Addressed written n channel payload)
    (hfar : net.far n channel = some (m, back)) (hown : net.own m = net.key m)
    (relay : RelayState (σ m)) (answer : α) (now : ℤ) :
    ¬ (relayReceive (net.env m answer) relay back payload now).outcome.PassesOn := by
  intro hpasses
  obtain ⟨tg, hdecode, hkind, hforeign⟩ := relayReceive_passesOn hpasses
  rcases haddressed with ⟨cmd, hcmd, hkindCmd⟩ | ⟨t, ht, rfl | rfl, hleads⟩
  · obtain rfl := Option.some.inj (hdecode.symm.trans hcmd)
    rw [hkind] at hkindCmd
    cases hkindCmd
  · obtain rfl := Option.some.inj (hdecode.symm.trans (hcarries t ht).decodes)
    refine hforeign ((hwired.self m answer).trans (congrArg some ?_))
    exact hown.trans (hleads m back hfar)
  · rw [TgTextRoundTrips.text_undecodable (hcarries t ht)] at hdecode
    cases hdecode

/-- Text that is addressed gives rise to no more than control records and what goes to nobody,
also where the relay it arrives at does not know itself under the key it is listed under. -/
theorem Addressed.ends (hwired : net.Wired) (hcarries : ∀ t ∈ written, net.Carries t) {m : ι}
    {back : ℤ} (haddressed : net.Addressed written n channel payload)
    (htext : ¬ IsControl payload) (hfar : net.far n channel = some (m, back))
    {relay : RelayState (σ m)} (hkeeps : net.keeps m written relay.ctx) (answer : α) (now : ℤ) :
    ∀ call ∈ (relayReceive (net.env m answer) relay back payload now).queued,
      IsControl call.2 ∨ net.far m call.1 = none := by
  have hseparate := relayReceive_separate (net.env m answer) relay back payload now
  intro call hcall
  obtain ⟨t, ht, hpayload, hleads⟩ := haddressed.resolve_left htext
  rcases hpayload with rfl | rfl
  · have hdecode := (hcarries t ht).decodes
    by_cases hown : (net.env m answer).selfPublicKey = some (net.key t.receiver)
    · obtain ⟨-, -, hqueued, -⟩ := hseparate.ownText _ hdecode rfl hown
      exact .inl (hqueued call hcall).2
    · rcases relayReceive_foreignText relay back hdecode rfl hown now with hstep | hstep
      · rw [hstep] at hcall
        cases hcall
      · rw [hstep] at hcall
        obtain ⟨resolvePeer, hresolve, hchannel, -⟩ := relayForward_queued _ _ _ hcall
        -- the receiver is the relay itself, and no channel leads back to it
        have hother : net.LeadsTo m call.1 (net.key t.receiver) := by
          rw [hchannel]
          have hdirected := hwired.directed m written relay.ctx hkeeps
          exact hdirected.resolvePeer answer resolvePeer hresolve _
        right
        by_contra hsome
        obtain ⟨⟨m', back'⟩, hfar'⟩ := Option.ne_none_iff_exists'.mp hsome
        exact hwired.others m call.1 m' back' hfar'
          ((hother m' back' hfar').trans (hleads m back hfar).symm)
  · have hcalls := (hseparate.rejected (TgTextRoundTrips.text_undecodable (hcarries t ht))).1
    rw [RelayStep.queued, hcalls] at hcall
    cases hcall

end

/-! ## Runs -/

section

variable {net} {written more : List (Telegram ι)} {n : ι} {channel : ℤ} {payload : Bytes}

/-! What has been said about telegrams stays true when more are written. -/

theorem Sendable.append (hsendable : net.Sendable written payload) :
    net.Sendable (written ++ more) payload := by
  intro tg hdecode hkind
  obtain ⟨t, ht, hwire⟩ := hsendable tg hdecode hkind
  exact ⟨t, List.mem_append_left more ht, hwire⟩

theorem Addressed.append (haddressed : net.Addressed written n channel payload) :
    net.Addressed (written ++ more) n channel payload := by
  rcases haddressed with hcontrol | ⟨t, ht, hpayload⟩
  · exact .inl hcontrol
  · exact .inr ⟨t, List.mem_append_left more ht, hpayload⟩

theorem Genuine.append {call : RelayCall} (hgenuine : net.Genuine written n call) :
    net.Genuine (written ++ more) n call := by
  obtain ⟨t, ht, hstored⟩ := hgenuine
  exact ⟨t, List.mem_append_left more ht, hstored⟩

end

theorem Initial.sound {net : RelayNetwork ι α σ} {s : NetworkState ι σ} (hs : net.Initial s) :
    net.Sound s where
  keeps := hs.keeps
  carries := hs.carries
  sendable := by simp [hs.queued]
  addressed := by simp [hs.queued]
  genuine := by simp [hs.stored]

section

variable [DecidableEq ι] {net} {s s' : NetworkState ι σ}

/-- A relay takes over a new state. -/
theorem Sound.update (hs : net.Sound s) {n : ι} {relay : RelayState (σ n)}
    (hkeeps : net.keeps n s.written relay.ctx) :
    net.Sound { s with relay := Function.update s.relay n relay } := by
  refine ⟨fun m => ?_, hs.carries, hs.sendable, hs.addressed, hs.genuine⟩
  dsimp only
  by_cases hm : m = n
  · subst hm
    rw [Function.update_self]
    exact hkeeps
  · rw [Function.update_of_ne hm]
    exact hs.keeps m

theorem Sound.reach (hwired : net.Wired) (hs : net.Sound s) {entry : QueuedPayload ι}
    (hqueued : entry ∈ s.queued) {m : ι} {back : ℤ}
    (hfar : net.far entry.relay entry.channel = some (m, back)) (answer : α) (now : ℤ) :
    net.Sound (net.reach s entry m back answer now) := by
  obtain ⟨haddressed, hgenuine⟩ := hwired.receive (hs.keeps m) hs.carries
    (hs.sendable entry hqueued) (hwired.far_far _ _ _ _ hfar) answer now
  have hkept := relayReceive_keeps (hwired.callbacks m answer back s.written) (s.relay m)
    entry.payload now (hs.keeps m)
  refine ⟨(hs.update hkept).keeps, hs.carries, ?_, ?_, ?_⟩
  · intro later hlater
    rcases List.mem_append.mp hlater with hold | hnew
    · exact hs.sendable later hold
    · obtain ⟨call, hcall, rfl⟩ := List.mem_map.mp hnew
      exact (haddressed call hcall).sendable hs.carries
  · intro later hlater hrelayed
    rcases List.mem_append.mp hlater with hold | hnew
    · exact hs.addressed later hold hrelayed
    · obtain ⟨call, hcall, rfl⟩ := List.mem_map.mp hnew
      exact haddressed call hcall
  · intro later hlater
    rcases List.mem_append.mp hlater with hold | hnew
    · exact hs.genuine later hold
    · obtain ⟨call, hcall, rfl⟩ := List.mem_map.mp hnew
      exact hgenuine call hcall

theorem Sound.step (hwired : net.Wired) (hs : net.Sound s) (hstep : net.Step s s') :
    net.Sound s' := by
  cases hstep with
  | write t hcarries =>
      refine ⟨fun n => hwired.more n _ t _ (hs.keeps n), ?_, ?_, ?_, ?_⟩
      · intro other hother
        rcases List.mem_append.mp hother with hold | hnew
        · exact hs.carries other hold
        · obtain rfl := List.mem_singleton.mp hnew
          exact hcarries
      · exact fun entry hentry => (hs.sendable entry hentry).append
      · exact fun entry hentry hrelayed => (hs.addressed entry hentry hrelayed).append
      · exact fun entry hentry => (hs.genuine entry hentry).append
  | host n relay hkeeps => exact hs.update hkeeps
  | queue n channel payload hsendable =>
      refine ⟨hs.keeps, hs.carries, ?_, ?_, hs.genuine⟩
      · intro entry hentry
        rcases List.mem_append.mp hentry with hold | hnew
        · exact hs.sendable entry hold
        · obtain rfl := List.mem_singleton.mp hnew
          exact hsendable
      · intro entry hentry hrelayed
        rcases List.mem_append.mp hentry with hold | hnew
        · exact hs.addressed entry hold hrelayed
        · obtain rfl := List.mem_singleton.mp hnew
          cases hrelayed
  | arrive entry hqueued m back hfar answer now =>
      exact hs.reach hwired hqueued hfar answer now

theorem Sound.run (hwired : net.Wired) (hs : net.Sound s)
    (hrun : Relation.ReflTransGen net.Step s s') : net.Sound s' := by
  induction hrun with
  | refl => exact hs
  | tail _ hstep ih => exact ih.step hwired hstep

/-- However late, often and in whatever order records arrive, a relay stores nothing but telegrams
that have been written to the key it takes for its own, as they were written. -/
theorem stored_genuine (hwired : net.Wired) (hs : net.Initial s)
    (hrun : Relation.ReflTransGen net.Step s s') :
    ∀ entry ∈ s'.stored, ∃ t ∈ s'.written, net.key t.receiver = net.own entry.1 ∧
      ∃ channel, entry.2 = .store channel t.sn t.timestamp (net.own t.sender) t.body :=
  (hs.sound.run hwired hrun).genuine

/-- What a relay queues of its own accord is a control record, or the record or the text of a
telegram on a channel that leads to nobody but the one it was written for.  There it is not passed
on if the relay goes by the key it is listed under, and else to nobody. -/
theorem relayed_addressed (hwired : net.Wired) (hs : net.Initial s)
    (hrun : Relation.ReflTransGen net.Step s s') :
    ∀ entry ∈ s'.queued, entry.relayed = true →
      net.Addressed s'.written entry.relay entry.channel entry.payload ∧
      ∀ m back, net.far entry.relay entry.channel = some (m, back) →
        ∀ (relay : RelayState (σ m)) (answer : α) (now : ℤ),
          let step := relayReceive (net.env m answer) relay back entry.payload now
          (net.own m = net.key m → ¬ step.outcome.PassesOn) ∧
          (¬ IsControl entry.payload → net.keeps m s'.written relay.ctx →
            ∀ call ∈ step.queued, IsControl call.2 ∨ net.far m call.1 = none) := by
  have hsound := hs.sound.run hwired hrun
  intro entry hentry hrelayed
  have haddressed := hsound.addressed entry hentry hrelayed
  refine ⟨haddressed, fun m back hfar relay answer now => ⟨fun hown => ?_, fun htext hkeeps => ?_⟩⟩
  · exact haddressed.not_passesOn hwired hsound.carries hfar hown relay answer now
  · exact haddressed.ends hwired hsound.carries htext hfar hkeeps answer now

end

end RelayNetwork

end ToxRelayer
