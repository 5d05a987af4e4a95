import ToxRelayer.Routing

/-!
# The contact table and the numbers of the contacts

`get_relay_name_list` counts the contacts and takes the numbers below the count
for theirs.  A deleted contact leaves a gap, so the last contacts are not visited,
and the gap is filled with the key that was read before it.
-/

namespace ToxRelayer

open CString

/-- toxcore's list: every number in use has a key, and no two have the same. -/
structure FriendSet where
  existing : Finset ℕ
  publicKey : ℕ → Vector UInt8 32
  below : ∀ f ∈ existing, f < maxFriendNum
  distinct : ∀ f ∈ existing, ∀ g ∈ existing, publicKey f = publicKey g → f = g

namespace FriendSet

/-- The buffer of the contact loop after the call for number `i`, which leaves it
alone when the number is not in use; at first it holds `stale`. -/
def keyBuffer (friends : FriendSet) (stale : Vector UInt8 32) : ℕ → Vector UInt8 32
  | 0 => if 0 ∈ friends.existing then friends.publicKey 0 else stale
  | i + 1 =>
      if i + 1 ∈ friends.existing then friends.publicKey (i + 1) else friends.keyBuffer stale i

def handle (friends : FriendSet) (stale : Vector UInt8 32) (address : Vector UInt8 38) :
    ToxHandle where
  friendListSize := friends.existing.card
  friendPublicKey := friends.keyBuffer stale
  selfAddress := address

def keyStr (friends : FriendSet) (f : ℕ) : CStr := hexString (friends.publicKey f).toList

/-- Every contact is filed under its own number and found there. -/
def Directed (friends : FriendSet) (table : ℕ → RelayName) : Prop :=
  ∀ f ∈ friends.existing, (table f).publicKeyStr = friends.keyStr f ∧
    lookupChNum table (friends.keyStr f).val = f

end FriendSet

/-! ## Keys as text -/

theorem hexDigit_inj {d e : ℕ} (hd : d < 16) (he : e < 16) (hsame : hexDigit d = hexDigit e) :
    d = e := by
  have hvalue := congrArg UInt8.toNat hsame
  simp only [hexDigit, UInt8.toNat_ofNat'] at hvalue
  split at hvalue <;> split at hvalue <;> omega

theorem hexByte_inj {b c : UInt8} (hsame : hexByte b = hexByte c) : b = c := by
  have hb := b.toNat_lt
  have hc := c.toNat_lt
  obtain ⟨hhigh, hlow⟩ := List.cons.inj hsame
  have hhighNat := hexDigit_inj (by omega) (by omega) hhigh
  have hlowNat := hexDigit_inj (by omega) (by omega) (List.cons.inj hlow).1
  apply UInt8.toNat_inj.mp
  omega

theorem hexString_inj {key key' : Bytes} (hsame : hexString key = hexString key') :
    key = key' := by
  have hval : key.flatMap hexByte = key'.flatMap hexByte := congrArg CStr.val hsame
  clear hsame
  induction key generalizing key' with
  | nil =>
      cases key' with
      | nil => rfl
      | cons c key' => simp [hexByte] at hval
  | cons b key ih =>
      cases key' with
      | nil => simp [hexByte] at hval
      | cons c key' =>
          rw [List.flatMap_cons, List.flatMap_cons] at hval
          obtain ⟨hbyte, hrest⟩ := List.append_inj hval rfl
          rw [hexByte_inj hbyte, ih hrest]

/-- A key occurs in another only if they are the same. -/
theorem hexString_infix_iff (key key' : Vector UInt8 32) :
    (hexString key.toList).val <:+: (hexString key'.toList).val ↔ key = key' := by
  constructor
  · intro hoccurs
    have hlength : (hexString key.toList).length = (hexString key'.toList).length := by
      simp only [hexString_length, Vector.length_toList]
    have hsame := CStr.ext (hoccurs.eq_of_length hlength)
    exact Vector.toList_inj.mp (hexString_inj hsame)
  · rintro rfl
    exact List.infix_rfl

/-! ## What the refresh files -/

namespace FriendSet

variable (friends : FriendSet) (stale : Vector UInt8 32)

section

variable {Ini : Type} (minIni : MinIni Ini) (address : Vector UInt8 38) (node : Node Ini)

end

end FriendSet

/-! ## A contact list with a gap -/

end ToxRelayer
