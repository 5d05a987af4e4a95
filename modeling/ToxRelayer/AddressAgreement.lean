import ToxRelayer.Directory
import ToxRelayer.ControlRoundTrip

/-!
# Who a record is addressed to

A contact is filed under its public key, 64 hexadecimal digits; the node knows
itself by its Tox address, which has 76.  A record a node writes for a contact
is therefore never taken by that contact for its own.
-/

namespace ToxRelayer

open CString

/-! ## The receiver of a record -/

/-- A line read before the end of the input is read whatever follows. -/
theorem tgCopyLine_append_suffix {dstSize : ℕ} (c dst suffix : Bytes) (truncated : Bool)
    (hmore : (tgCopyLine dstSize c dst truncated).2.2 ≠ []) :
    tgCopyLine dstSize (c ++ suffix) dst truncated =
      ((tgCopyLine dstSize c dst truncated).1, (tgCopyLine dstSize c dst truncated).2.1,
        (tgCopyLine dstSize c dst truncated).2.2 ++ suffix) := by
  induction c generalizing dst truncated with
  | nil => exact absurd rfl hmore
  | cons b c ih =>
      simp only [List.cons_append, tgCopyLine] at hmore ⊢
      by_cases hend : b = lf ∨ b = cr
      · rw [if_pos hend, if_pos hend]
        rfl
      · rw [if_neg hend] at hmore ⊢
        rw [if_neg hend]
        by_cases hfits : dst.length + 1 < dstSize
        · rw [if_pos hfits] at hmore ⊢
          rw [if_pos hfits]
          exact ih _ _ hmore
        · rw [if_neg hfits] at hmore ⊢
          rw [if_neg hfits]
          exact ih _ _ hmore

theorem skipByte_append {b : UInt8} {c : Bytes} (suffix : Bytes) (hne : c ≠ []) :
    skipByte b (c ++ suffix) = skipByte b c ++ suffix := by
  cases c with
  | nil => exact absurd rfl hne
  | cons a c =>
      simp only [List.cons_append, skipByte]
      split <;> rfl

theorem tgNextLine_append_suffix {dstSize : ℕ} {c line rest : Bytes} {complete : Bool}
    (suffix : Bytes) (hline : tgNextLine c dstSize = some (line, complete, rest))
    (hmore : rest ≠ []) :
    tgNextLine (c ++ suffix) dstSize = some (line, complete, rest ++ suffix) := by
  unfold tgNextLine at hline ⊢
  by_cases hguard : c = [] ∨ dstSize = 0
  · rw [if_pos hguard] at hline
    cases hline
  · rw [if_neg hguard] at hline
    obtain ⟨hne, hsize⟩ := not_or.mp hguard
    rw [if_neg (by simp [hne, hsize])]
    simp only [Option.some.injEq, Prod.mk.injEq] at hline
    obtain ⟨hdst, hflag, hrest⟩ := hline
    have hskipCr : skipByte cr (tgCopyLine dstSize c [] false).2.2 ≠ [] := by
      intro hnil
      rw [hnil] at hrest
      exact hmore hrest.symm
    have hcopied : (tgCopyLine dstSize c [] false).2.2 ≠ [] := by
      intro hnil
      rw [hnil] at hskipCr
      exact hskipCr rfl
    rw [tgCopyLine_append_suffix c [] suffix false hcopied]
    dsimp only
    rw [skipByte_append suffix hcopied, skipByte_append suffix hskipCr, hdst, hflag, hrest]

theorem tgReadLine_append_suffix {c rest : Bytes} {line : CStr} (suffix : Bytes)
    (hline : tgReadLine c = some (line, rest)) (hmore : rest ≠ []) :
    tgReadLine (c ++ suffix) = some (line, rest ++ suffix) := by
  unfold tgReadLine at hline
  cases hnext : tgNextLine c tgLineSize with
  | none =>
      rw [hnext] at hline
      cases hline
  | some found =>
      obtain ⟨buffer, complete, rest'⟩ := found
      rw [hnext] at hline
      cases complete with
      | false => cases hline
      | true =>
          simp only [Option.some.injEq, Prod.mk.injEq] at hline
          obtain ⟨rfl, rfl⟩ := hline
          rw [tgReadLine, tgNextLine_append_suffix suffix hnext hmore]

theorem tgReadKey_append_suffix {c rest : Bytes} {key : CStr} (suffix : Bytes)
    (hkey : tgReadKey c = some (key, rest)) (hmore : rest ≠ []) :
    tgReadKey (c ++ suffix) = some (key, rest ++ suffix) := by
  unfold tgReadKey at hkey ⊢
  cases hline : tgReadLine c with
  | none =>
      rw [hline] at hkey
      cases hkey
  | some found =>
      obtain ⟨line, rest'⟩ := found
      rw [hline] at hkey
      simp only at hkey
      split at hkey
      · cases hkey
      · rename_i hvalid
        simp only [Option.some.injEq, Prod.mk.injEq] at hkey
        obtain ⟨rfl, rfl⟩ := hkey
        rw [tgReadLine_append_suffix suffix hline hmore]
        simp only
        rw [if_neg hvalid]

/-- A record, or the beginning of one, decodes to the receiver it was written
for, if it decodes at all. -/
theorem tgDecode_receiver (header : CStr) (kind : TgKind) {key : CStr} {raw rest : Bytes}
    {tg : TgMessage} (hkind : tgHeaderKind header = some kind)
    (hheader : lf ∉ header.val ∧ cr ∉ header.val ∧ header.length < tgLineSize)
    (hkey : tgFieldOk (some key) = true)
    (hbegins : raw <+: header.val ++ lf :: (key.val ++ lf :: rest))
    (hdecode : tgDecode raw = some tg) : tg.kind = kind ∧ tg.receiver = key := by
  obtain ⟨suffix, hrecord⟩ := hbegins
  obtain ⟨line, -, c, c', -, -, -, ⟨hfirst, hmore, hkind'⟩, ⟨hsecond, hmore'⟩, -, -, -, -⟩ :=
    tgDecode_steps hdecode
  have hline := tgReadLine_append_suffix suffix hfirst hmore
  have hreceiver := tgReadKey_append_suffix suffix hsecond hmore'
  rw [hrecord, tgReadLine_append_lf header _ hheader.1 hheader.2.1 hheader.2.2] at hline
  simp only [Option.some.injEq, Prod.mk.injEq] at hline
  obtain ⟨rfl, hrest⟩ := hline
  rw [← hrest, tgReadKey_append_lf _ hkey] at hreceiver
  simp only [Option.some.injEq, Prod.mk.injEq] at hreceiver
  exact ⟨Option.some.inj (hkind'.symm.trans hkind), hreceiver.1.symm⟩

theorem tgDecode_textWire {outSize : ℕ} {receiver sender : CStr} {sn : ℤ} {timestamp : Int64}
    {body : Option CStr} {tg : TgMessage}
    (haccept : 0 <
      (tgEncodeText outSize (some receiver) (some sender) sn timestamp body).code)
    (hdecode : tgDecode
      (tgEncodeText outSize (some receiver) (some sender) sn timestamp body).wire = some tg) :
    tgFieldOk (some receiver) = true ∧ tg.receiver = receiver := by
  obtain ⟨hreceiver, -, -, -, hencoded⟩ := tgEncodeText_accepted haccept
  have hbegins :
      (tgEncodeText outSize (some receiver) (some sender) sn timestamp body).wire <+:
        tgTextRecord receiver sender sn timestamp (tgBodyBytes body) := by
    rw [hencoded]
    exact List.take_prefix _ _
  exact ⟨hreceiver, (tgDecode_receiver ⟨bytes "ZCZC TEXT", by decide⟩ .text (by decide)
    (by decide) hreceiver hbegins hdecode).2⟩

theorem tgDecode_cmdWire {outSize : ℕ} {receiver sender : CStr} {start target : ℤ}
    {tg : TgMessage}
    (haccept : 0 < (tgEncodeCmd outSize (some receiver) (some sender) start target).code)
    (hdecode : tgDecode
      (tgEncodeCmd outSize (some receiver) (some sender) start target).wire = some tg) :
    tgFieldOk (some receiver) = true ∧ tg.receiver = receiver := by
  obtain ⟨hreceiver, -, -, -, hencoded⟩ := tgEncodeCmd_accepted haccept
  have hbegins : (tgEncodeCmd outSize (some receiver) (some sender) start target).wire <+:
      tgCmdRecord receiver sender start target := by
    rw [hencoded]
    exact List.take_prefix _ _
  exact ⟨hreceiver, (tgDecode_receiver ⟨bytes "ZCZC CMD", by decide⟩ .cmd (by decide)
    (by decide) hreceiver hbegins hdecode).2⟩

/-! ## Two nodes -/

/-- The outcomes of a record that `relay_receive` takes for its own: it has
accounted for the telegram, or has turned to the replay asked for. -/
def RelayOutcome.ForUs : RelayOutcome → Prop
  | .stored | .duplicate | .gapRequested | .recovered | .resynced => True
  | .served | .nothingStored | .noPeer => True
  | .relayed | .noRoute | .discarded => False

section

variable {Ini : Type} (minIni : MinIni Ini)

/-- The global state before `get_relay_name_list` is called. -/
def nodeAtStart (ini : Ini) (queue : Mq) (db : MsgDatabase) : Node Ini where
  relayNameList := fun _ => ⟨0, .empty, false, false, 0, 0⟩
  selfPublicKeyStr := .empty
  relayNumber := 0
  queue := queue
  db := db
  ini := ini

theorem publicKeyStr_length (tox : ToxHandle) (ini : Ini) (queue : Mq) (db : MsgDatabase)
    (i : ℕ) :
    let key := ((getRelayNameList minIni tox (nodeAtStart ini queue db)).relayNameList
      i).publicKeyStr
    key.length = 0 ∨ key.length = 64 := by
  dsimp only
  unfold getRelayNameList
  split
  · exact .inl rfl
  · dsimp only
    rw [relayNameLoop_apply]
    split
    · rw [relayNameEntry_publicKeyStr, hexString_length, Vector.length_toList]
      exact .inr rfl
    · exact .inl rfl

theorem selfPublicKeyStr_length (tox : ToxHandle) (ini : Ini) (queue : Mq)
    (db : MsgDatabase) :
    let self := (getRelayNameList minIni tox (nodeAtStart ini queue db)).selfPublicKeyStr
    self.length = 0 ∨ self.length = 76 := by
  dsimp only
  unfold getRelayNameList
  split
  · exact .inl rfl
  · dsimp only
    rw [hexString_length, Vector.length_toList]
    exact .inr rfl

theorem relayForward_not_forUs {σ : Type} (env : RelayEnv σ) (s : RelayState σ)
    (channel : ℤ) (raw : Bytes) (tg : TgMessage) (now : ℤ) :
    ¬ (relayForward env s channel raw tg now).outcome.ForUs := by
  have hqueued (failed : Prop) [Decidable failed] :
      ¬ (if failed then RelayOutcome.discarded else .relayed).ForUs := by
    split <;> exact id
  unfold relayForward
  split
  · dsimp only
    split
    · exact id
    · exact hqueued _
  · exact id

theorem relayReceive_not_forUs {σ : Type} (env : RelayEnv σ) (s : RelayState σ) (channel : ℤ)
    {raw : Bytes} (now : ℤ) {self : CStr} (hself : env.selfPublicKey = some self)
    (hother : ∀ tg, tgDecode raw = some tg → tg.receiver ≠ self) :
    ¬ (relayReceive env s channel raw now).outcome.ForUs := by
  unfold relayReceive
  rw [hself]
  dsimp only
  split
  · exact id
  · cases hdecode : tgDecode raw with
    | none => exact id
    | some tg =>
        have hne := hother tg hdecode
        cases hkind : tg.kind with
        | text =>
            simp only [hkind, hne, if_false]
            exact relayForward_not_forUs env s channel raw tg now
        | cmd =>
            simp only [hkind, hne, ne_eq, not_false_eq_true, if_true]
            exact id
        | invalid =>
            simp only [hkind]
            exact id

theorem relayRequestGap_payload {σ : Type} {env : RelayEnv σ} {s : RelayState σ}
    {channel start target now destination : ℤ} {payload : Bytes}
    (hcall : .enqueue destination payload ∈ (relayRequestGap env s channel start target now).calls) :
    ∃ peerKey peer, env.peerKey = some peerKey ∧ peerKey s.ctx channel = some peer ∧
      0 < (tgEncodeCmd relayWireMax (some peer) env.selfPublicKey start target).code ∧
      payload = (tgEncodeCmd relayWireMax (some peer) env.selfPublicKey start target).wire := by
  unfold relayRequestGap at hcall
  split at hcall
  · rename_i enqueue peerKey _ hpeerKey
    split at hcall
    · simp at hcall
    · rename_i peer hpeer
      dsimp only at hcall
      split at hcall
      · simp at hcall
      · rename_i hcode
        simp only [List.mem_singleton, RelayCall.enqueue.injEq] at hcall
        exact ⟨peerKey, peer, hpeerKey, hpeer, Int.not_le.mp hcode, hcall.2⟩
  · simp at hcall

/-- The key of a contact is never the string another node knows itself by. -/
theorem publicKeyStr_ne_self (toxA toxB : ToxHandle) (iniA iniB : Ini) (queueA queueB : Mq)
    (dbA dbB : MsgDatabase) (contact : ℕ) :
    let nodeA := getRelayNameList minIni toxA (nodeAtStart iniA queueA dbA)
    let nodeB := getRelayNameList minIni toxB (nodeAtStart iniB queueB dbB)
    tgFieldOk (some (nodeA.relayNameList contact).publicKeyStr) = true →
      (nodeA.relayNameList contact).publicKeyStr ≠ nodeB.selfPublicKeyStr := by
  intro nodeA nodeB hfield hsame
  obtain ⟨hne, -, -, -⟩ := (tgFieldOk_some_iff _).mp hfield
  have hnonzero : (nodeA.relayNameList contact).publicKeyStr.length ≠ 0 := by
    intro hzero
    exact hne (List.length_eq_zero_iff.mp hzero)
  have hkey : (nodeA.relayNameList contact).publicKeyStr.length = 64 :=
    (publicKeyStr_length minIni toxA iniA queueA dbA contact).resolve_left hnonzero
  have hequal := congrArg CStr.length hsame
  rcases selfPublicKeyStr_length minIni toxB iniB queueB dbB with hempty | hlong
  · exact hnonzero (hequal.trans hempty)
  · have hclash : (64 : ℕ) = 76 := hkey.symm.trans (hequal.trans hlong)
    omega

variable (toxA toxB : ToxHandle) (iniA iniB : Ini) (queueA queueB : Mq) (dbA dbB : MsgDatabase)

theorem relayReceive_text_not_forUs (ioB : SqliteResult) (contact outSize : ℕ) (sn : ℤ)
    (timestamp : Int64) (body : Option CStr) (channel later : ℤ)
    (stateB : RelayState (Node Ini)) :
    let nodeA := getRelayNameList minIni toxA (nodeAtStart iniA queueA dbA)
    let nodeB := getRelayNameList minIni toxB (nodeAtStart iniB queueB dbB)
    let text := tgEncodeText outSize (some (nodeA.relayNameList contact).publicKeyStr)
      (some nodeA.selfPublicKeyStr) sn timestamp body
    0 < text.code →
      ¬ (relayReceive (relayInit minIni ioB nodeB.selfPublicKeyStr) stateB channel text.wire
        later).outcome.ForUs := by
  intro nodeA nodeB text haccept
  refine relayReceive_not_forUs _ stateB channel later rfl ?_
  intro tg hdecode
  obtain ⟨hfield, hkey⟩ := tgDecode_textWire haccept hdecode
  rw [hkey]
  exact publicKeyStr_ne_self minIni toxA toxB iniA iniB queueA queueB dbA dbB contact hfield

theorem relayReceive_control_not_forUs (ioA ioB : SqliteResult) (contact : ℕ)
    (start target now channel later : ℤ) (payload : Bytes)
    (stateA stateB : RelayState (Node Ini)) :
    let nodeA := getRelayNameList minIni toxA (nodeAtStart iniA queueA dbA)
    let nodeB := getRelayNameList minIni toxB (nodeAtStart iniB queueB dbB)
    stateA.ctx.relayNameList = nodeA.relayNameList →
      .enqueue (contact : ℤ) payload ∈ (relayRequestGap
        (relayInit minIni ioA nodeA.selfPublicKeyStr) stateA contact start target now).calls →
      ¬ (relayReceive (relayInit minIni ioB nodeB.selfPublicKeyStr) stateB channel payload
        later).outcome.ForUs := by
  intro nodeA nodeB hlist hcall
  obtain ⟨peerKey, peer, hpeerKey, hpeer, haccept, rfl⟩ := relayRequestGap_payload hcall
  obtain rfl : relayPeerKey = peerKey := Option.some.inj hpeerKey
  obtain rfl : (nodeA.relayNameList contact).publicKeyStr = peer := by
    unfold relayPeerKey at hpeer
    split at hpeer
    · rw [hlist] at hpeer
      exact Option.some.inj hpeer
    · cases hpeer
  refine relayReceive_not_forUs _ stateB channel later rfl ?_
  intro tg hdecode
  obtain ⟨hfield, hkey⟩ := tgDecode_cmdWire haccept hdecode
  rw [hkey]
  exact publicKeyStr_ne_self minIni toxA toxB iniA iniB queueA queueB dbA dbB contact hfield

/-- Whatever a node writes for a contact, a text or a request for a replay, the
contact does not treat as addressed to itself. -/
theorem relay_never_addressed (ioA ioB : SqliteResult) (contact : ℕ)
    (stateA stateB : RelayState (Node Ini)) (channel later : ℤ) :
    let nodeA := getRelayNameList minIni toxA (nodeAtStart iniA queueA dbA)
    let nodeB := getRelayNameList minIni toxB (nodeAtStart iniB queueB dbB)
    let envA := relayInit minIni ioA nodeA.selfPublicKeyStr
    let envB := relayInit minIni ioB nodeB.selfPublicKeyStr
    (∀ (outSize : ℕ) (sn : ℤ) (timestamp : Int64) (body : Option CStr),
      let text := tgEncodeText outSize (some (nodeA.relayNameList contact).publicKeyStr)
        (some nodeA.selfPublicKeyStr) sn timestamp body
      0 < text.code →
        ¬ (relayReceive envB stateB channel text.wire later).outcome.ForUs) ∧
    (stateA.ctx.relayNameList = nodeA.relayNameList →
      ∀ (start target now : ℤ) (payload : Bytes),
        .enqueue (contact : ℤ) payload ∈
          (relayRequestGap envA stateA contact start target now).calls →
        ¬ (relayReceive envB stateB channel payload later).outcome.ForUs) :=
  ⟨fun outSize sn timestamp body => relayReceive_text_not_forUs minIni toxA toxB iniA iniB queueA
      queueB dbA dbB ioB contact outSize sn timestamp body channel later stateB,
    fun hlist start target now payload => relayReceive_control_not_forUs minIni toxA toxB iniA iniB
      queueA queueB dbA dbB ioA ioB contact start target now channel later payload stateA stateB
      hlist⟩

end

/-! ## One pair of nodes -/

/-- A node whose key repeats `own`, and whose only contact has the key that
repeats `peer`. -/
def pairTox (own peer : UInt8) : ToxHandle where
  friendListSize := 1
  friendPublicKey := fun _ => Vector.replicate 32 peer
  selfAddress := Vector.replicate 38 own

def pairNode (own peer : UInt8) : Node Unit :=
  getRelayNameList emptyIni (pairTox own peer) (nodeAtStart () mqInit msgDatabaseOpened)

def pairState (own peer : UInt8) : RelayState (Node Unit) :=
  ⟨pairNode own peer, fun _ => snTrackerInit tgSnMin⟩

def pairBody : CStr := ⟨bytes "hello", by decide⟩

def pairRequest : Bytes :=
  (tgEncodeCmd relayWireMax (some ((pairNode 7 9).relayNameList 0).publicKeyStr)
    (some (pairNode 7 9).selfPublicKeyStr) 3 5).wire

theorem relay_never_addressed_pair :
    ¬ (relayReceive (relayInit emptyIni .ok (pairNode 9 7).selfPublicKeyStr) (pairState 9 7) 0
        (tgEncodeText 400 (some ((pairNode 7 9).relayNameList 0).publicKeyStr)
          (some (pairNode 7 9).selfPublicKeyStr) 1 1700000000 (some pairBody)).wire
        0).outcome.ForUs ∧
      ¬ (relayReceive (relayInit emptyIni .ok (pairNode 9 7).selfPublicKeyStr) (pairState 9 7) 0
        pairRequest 0).outcome.ForUs := by
  have hpair := relay_never_addressed emptyIni (pairTox 7 9) (pairTox 9 7) () () mqInit mqInit
    msgDatabaseOpened msgDatabaseOpened .ok .ok 0 (pairState 7 9) (pairState 9 7) 0 0
  exact ⟨hpair.1 400 1 1700000000 (some pairBody) (by decide +kernel),
    hpair.2 rfl 3 5 0 pairRequest (by decide +kernel)⟩

/-- What toxcore promises: the contact of `toxA` is the node of `toxB`, whose
address begins with the key `toxA` has for it. -/
def ToxHandle.HasContact (toxA : ToxHandle) (contact : ℕ) (toxB : ToxHandle) : Prop :=
  contact < toxA.friendListSize ∧
    (toxA.friendPublicKey contact).toList <+: toxB.selfAddress.toList

theorem relay_addresses_disagree :
    ¬ ∀ (toxA toxB : ToxHandle) (contact outSize : ℕ) (sn : ℤ) (timestamp : Int64)
        (body : Option CStr) (stateB : RelayState (Node Unit)) (channel later : ℤ),
      let nodeA := getRelayNameList emptyIni toxA (nodeAtStart () mqInit msgDatabaseOpened)
      let nodeB := getRelayNameList emptyIni toxB (nodeAtStart () mqInit msgDatabaseOpened)
      let text := tgEncodeText outSize (some (nodeA.relayNameList contact).publicKeyStr)
        (some nodeA.selfPublicKeyStr) sn timestamp body
      toxA.HasContact contact toxB → 0 < text.code →
        (relayReceive (relayInit emptyIni .ok nodeB.selfPublicKeyStr) stateB channel text.wire
          later).outcome.ForUs := by
  intro hagree
  obtain ⟨toxA, toxB, body, hcontact, haccept⟩ : ∃ (toxA toxB : ToxHandle)
      (body : Option CStr), toxA.HasContact 0 toxB ∧
        let node := getRelayNameList emptyIni toxA (nodeAtStart () mqInit msgDatabaseOpened)
        0 < (tgEncodeText 400 (some (node.relayNameList 0).publicKeyStr)
          (some node.selfPublicKeyStr) 1 1700000000 body).code :=
    ⟨pairTox 7 9, pairTox 9 7, some pairBody, ⟨by decide, by decide⟩, by decide +kernel⟩
  exact relayReceive_text_not_forUs emptyIni toxA toxB () () mqInit mqInit msgDatabaseOpened
    msgDatabaseOpened .ok 0 400 1 1700000000 body 0 0 (pairState 9 7) haccept
    (hagree toxA toxB 0 400 1 1700000000 body (pairState 9 7) 0 0 hcontact haccept)

end ToxRelayer
