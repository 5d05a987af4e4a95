import ToxRelayer.Directory

/-!
# Routing by the contact table

`lookup_ch_num` takes the first slot whose key occurs in the receiver.  An
empty key occurs in every string, so an unused slot answers for a receiver that
no earlier slot answers for.
-/

namespace ToxRelayer

open CString

/-! ## The scan -/

theorem lookupChNum_eq_iff (table : ℕ → RelayName) (receiver : Bytes) (i : ℕ) :
    lookupChNum table receiver = i ↔
      i < maxFriendNum ∧ (table i).publicKeyStr.val <:+: receiver ∧
        ∀ j < i, ¬ (table j).publicKeyStr.val <:+: receiver := by
  unfold lookupChNum
  cases hscan : (List.range maxFriendNum).find? fun i =>
      (strstr (table i).publicKeyStr.val receiver).isSome with
  | none =>
      rw [List.find?_range_eq_none] at hscan
      constructor
      · intro hslot
        dsimp only at hslot
        omega
      · rintro ⟨hrange, hoccurs, -⟩
        have hmiss := hscan i hrange
        rw [Bool.not_eq_true', ← Bool.not_eq_true, strstr_isSome_iff] at hmiss
        exact absurd hoccurs hmiss
  | some found =>
      rw [List.find?_range_eq_some] at hscan
      obtain ⟨hoccurs, hrange, hbefore⟩ := hscan
      rw [strstr_isSome_iff] at hoccurs
      have hfirst : ∀ j < found, ¬ (table j).publicKeyStr.val <:+: receiver := by
        intro j hj
        have hmiss := hbefore j hj
        rwa [Bool.not_eq_true', ← Bool.not_eq_true, strstr_isSome_iff] at hmiss
      constructor
      · intro hslot
        obtain rfl : found = i := Int.ofNat_inj.mp hslot
        exact ⟨List.mem_range.mp hrange, hoccurs, hfirst⟩
      · rintro ⟨-, hoccurs', hfirst'⟩
        have hge : ¬ i < found := fun hlt => hfirst i hlt hoccurs'
        have hle : ¬ found < i := fun hlt => hfirst' found hlt hoccurs
        have hsame : found = i := by omega
        rw [hsame]

theorem lookupChNum_eq_none_iff (table : ℕ → RelayName) (receiver : Bytes) :
    lookupChNum table receiver = -1 ↔
      ∀ i < maxFriendNum, ¬ (table i).publicKeyStr.val <:+: receiver := by
  unfold lookupChNum
  cases hscan : (List.range maxFriendNum).find? fun i =>
      (strstr (table i).publicKeyStr.val receiver).isSome with
  | none =>
      rw [List.find?_range_eq_none] at hscan
      refine iff_of_true rfl ?_
      intro i hi
      have hmiss := hscan i hi
      rwa [Bool.not_eq_true', ← Bool.not_eq_true, strstr_isSome_iff] at hmiss
  | some found =>
      rw [List.find?_range_eq_some] at hscan
      obtain ⟨hoccurs, hrange, -⟩ := hscan
      rw [strstr_isSome_iff] at hoccurs
      refine iff_of_false ?_ ?_
      · dsimp only
        omega
      · intro hall
        exact hall found (List.mem_range.mp hrange) hoccurs

theorem lookupChNum_cases (table : ℕ → RelayName) (receiver : Bytes) :
    lookupChNum table receiver = -1 ∨ ∃ i : ℕ, lookupChNum table receiver = i := by
  unfold lookupChNum
  split
  · exact .inr ⟨_, rfl⟩
  · exact .inl rfl

/-! ## The policy over it -/

section

variable {Ini : Type} (minIni : MinIni Ini)

/-- A text for another node is not forwarded when the directory has no slot for
its receiver. -/
theorem relayReceive_noRoute (io : SqliteResult) {self : CStr} {s : RelayState (Node Ini)}
    {channel : ℤ} {raw : Bytes} {tg : TgMessage} (now : ℤ) (hchannel : 0 ≤ channel)
    (hdecode : tgDecode raw = some tg) (htext : tg.kind = .text) (hother : tg.receiver ≠ self)
    (hnone : lookupChNum s.ctx.relayNameList tg.receiver.val = -1) :
    relayReceive (relayInit minIni io self) s channel raw now = ⟨.noRoute, s, []⟩ := by
  have hraw : ¬ (raw = [] ∨ channel < 0) := by
    rintro (rfl | hnegative)
    · cases hdecode
    · omega
  simp only [relayReceive, relayInit, hraw, if_false, hdecode, htext, hother, relayForward,
    relayResolvePeer, hnone]
  rfl

end

/-! ## Who is a contact -/

/-- The receiver is the key, or an address, 76 digits long, that begins with it. -/
def Identifies (key receiver : CStr) : Prop :=
  key.val ≠ [] ∧ (receiver = key ∨ receiver.length = 76 ∧ key.val <+: receiver.val)

theorem Identifies.occurs {key receiver : CStr} (hkey : Identifies key receiver) :
    key.val <:+: receiver.val := by
  obtain ⟨-, rfl | ⟨-, hbegins⟩⟩ := hkey
  · exact List.infix_rfl
  · exact hbegins.isInfix

/-- Records for a receiver are routed to a contact it is the key of, or not at
all. -/
structure RoutesKnownOnly (table : ℕ → RelayName) (receiver : CStr) : Prop where
  found : ∀ i : ℕ, lookupChNum table receiver.val = i →
    Identifies (table i).publicKeyStr receiver
  unknown : (∀ i < maxFriendNum, ¬ Identifies (table i).publicKeyStr receiver) →
    lookupChNum table receiver.val = -1
  dropped : (∀ i < maxFriendNum, ¬ Identifies (table i).publicKeyStr receiver) →
    ∀ (Ini : Type) (minIni : MinIni Ini) (io : SqliteResult) (self : CStr)
      (s : RelayState (Node Ini)) (channel : ℤ) (raw : Bytes) (tg : TgMessage) (now : ℤ),
      s.ctx.relayNameList = table → 0 ≤ channel → tgDecode raw = some tg → tg.kind = .text →
        tg.receiver = receiver → receiver ≠ self →
          (relayReceive (relayInit minIni io self) s channel raw now).outcome = .noRoute ∧
            (relayReceive (relayInit minIni io self) s channel raw now).calls = []

/-- A slot is in use, and its key does not occur in the receiver. -/
def PassedOver (entry : RelayName) (receiver : CStr) : Prop :=
  entry.publicKeyStr.val ≠ [] ∧ ¬ entry.publicKeyStr.val <:+: receiver.val

theorem passedOver_iff (entry : RelayName) (receiver : CStr) :
    PassedOver entry receiver ↔ ¬ entry.publicKeyStr.val <:+: receiver.val := by
  refine and_iff_right_of_imp ?_
  intro hmiss hempty
  rw [hempty] at hmiss
  exact hmiss List.nil_infix

/-- The directory routes a receiver as it should exactly when the scan meets a
contact that the receiver identifies before any unused slot and any key that
merely occurs in the receiver, or when there is neither in the whole table. -/
theorem routesKnownOnly_iff (table : ℕ → RelayName) (receiver : CStr) :
    RoutesKnownOnly table receiver ↔
      (∃ i < maxFriendNum, Identifies (table i).publicKeyStr receiver ∧
        ∀ j < i, PassedOver (table j) receiver) ∨
      ∀ i < maxFriendNum, PassedOver (table i) receiver := by
  simp only [passedOver_iff]
  constructor
  · intro hroutes
    rcases lookupChNum_cases table receiver.val with hnone | ⟨i, hi⟩
    · exact .inr ((lookupChNum_eq_none_iff table receiver.val).mp hnone)
    · obtain ⟨hrange, -, hbefore⟩ := (lookupChNum_eq_iff table receiver.val i).mp hi
      exact .inl ⟨i, hrange, hroutes.found i hi, hbefore⟩
  · rintro (⟨i, hrange, hkey, hbefore⟩ | hmissed)
    · have hlookup := (lookupChNum_eq_iff table receiver.val i).mpr
        ⟨hrange, hkey.occurs, hbefore⟩
      refine ⟨?_, ?_, ?_⟩
      · intro slot hslot
        obtain rfl : i = slot := Int.ofNat_inj.mp (hlookup.symm.trans hslot)
        exact hkey
      · intro hunknown
        exact absurd hkey (hunknown i hrange)
      · intro hunknown
        exact absurd hkey (hunknown i hrange)
    · have hlookup := (lookupChNum_eq_none_iff table receiver.val).mpr hmissed
      refine ⟨?_, fun _ => hlookup, ?_⟩
      · intro slot hslot
        rw [hlookup] at hslot
        omega
      · rintro - Ini minIni io self s channel raw tg now rfl hchannel hdecode htext rfl hother
        rw [relayReceive_noRoute minIni io now hchannel hdecode htext hother hlookup]
        exact ⟨rfl, rfl⟩

/-! ## A table with one contact -/

def isHexDigit (b : UInt8) : Bool :=
  (48 ≤ b && b ≤ 57) || (65 ≤ b && b ≤ 70)

/-- Slots in use hold a key in hexadecimal, the others the empty string. -/
def HexKeys (table : ℕ → RelayName) : Prop :=
  ∀ i, (table i).publicKeyStr.val.all isHexDigit = true

/-- The key of somebody else is filed under the first unused slot. -/
theorem unknown_key_is_routed :
    ¬ ∀ table, HexKeys table → ∀ receiver, RoutesKnownOnly table receiver := by
  intro hall
  have hhex : HexKeys oneContact := by
    intro i
    unfold oneContact
    split
    · decide
    · rfl
  have hroutes := hall oneContact hhex (hexString (List.replicate 32 9))
  have hslot : lookupChNum oneContact (hexString (List.replicate 32 9)).val = (1 : ℕ) := by
    rw [lookupChNum_eq_iff]
    refine ⟨by decide, List.nil_infix, ?_⟩
    intro j hj
    obtain rfl : j = 0 := by omega
    decide
  exact (hroutes.found 1 hslot).1 rfl

end ToxRelayer
