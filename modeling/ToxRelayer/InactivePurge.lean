import ToxRelayer.FriendNumbers

/-!
# The purge of inactive contacts

`purge_inactive_friends` (`toxrelayer.c`) reads the clock anew for every friend
and subtracts the time toxcore reports in unsigned 64-bit arithmetic.  A friend
who was seen later than the clock says has been away for almost `2 ^ 64`
seconds there, and is deleted.
-/

namespace ToxRelayer

/-- The loop of `purge_inactive_friends` from index `i` on; `getTime i` is the
clock when friend `i` of the list is looked at. -/
def purgeInactiveFrom (getTime : ℕ → Int64) (inactiveLimit : UInt64)
    (lastOnline : ℕ → Option UInt64) : ℕ → List ℕ → Contacts → Contacts
  | _, [], contacts => contacts
  | i, friendnum :: friendList, contacts =>
      purgeInactiveFrom getTime inactiveLimit lastOnline (i + 1) friendList
        (purgeRound (getTime i).toUInt64 inactiveLimit lastOnline contacts friendnum)

/-- While the clock stands still this is the pass the contact list is purged with elsewhere. -/
theorem purgeInactiveFrom_const (now : Int64) (inactiveLimit : UInt64)
    (lastOnline : ℕ → Option UInt64) (friendList : List ℕ) (i : ℕ) (contacts : Contacts) :
    purgeInactiveFrom (fun _ => now) inactiveLimit lastOnline i friendList contacts =
      purgeInactiveFriends now.toUInt64 inactiveLimit lastOnline friendList contacts := by
  induction friendList generalizing i contacts with
  | nil => rfl
  | cons friendnum friendList ih =>
      rw [purgeInactiveFrom, ih, purgeInactiveFriends, purgeInactiveFriends, List.foldl_cons]

/-! ## What a pass deletes -/

section

variable (getTime : ℕ → Int64) (inactiveLimit : UInt64) (lastOnline : ℕ → Option UInt64)
  (friendList : List ℕ)

/-- The friend is looked at while the clock is `now`, and toxcore reports that
it was online last at `time`. -/
def LookedAt (friendnum : ℕ) (now : Int64) (time : UInt64) : Prop :=
  ∃ i, friendList[i]? = some friendnum ∧ getTime i = now ∧ lastOnline friendnum = some time

/-- The friend was online last more than the limit before the clock's time. -/
def LongInactive (friendnum : ℕ) : Prop :=
  ∃ now time, LookedAt getTime lastOnline friendList friendnum now time ∧
    (inactiveLimit.toNat : ℤ) < now.toInt - time.toNat

/-- The friend was online last at a time the clock has not reached, and the
difference exceeds the limit when it is taken modulo `2 ^ 64`. -/
def SeenAhead (friendnum : ℕ) : Prop :=
  ∃ now time, LookedAt getTime lastOnline friendList friendnum now time ∧
    now.toInt < time.toNat ∧ (inactiveLimit.toNat : ℤ) < (now.toInt - time.toNat) % 2 ^ 64

/-- The pass deletes the inactive friends and keeps everybody else. -/
def PurgesInactive (contacts : Contacts) : Prop :=
  (∀ friendnum, LongInactive getTime inactiveLimit lastOnline friendList friendnum →
    purgeInactiveFrom getTime inactiveLimit lastOnline 0 friendList contacts friendnum = none) ∧
  ∀ friendnum, ¬LongInactive getTime inactiveLimit lastOnline friendList friendnum →
    purgeInactiveFrom getTime inactiveLimit lastOnline 0 friendList contacts friendnum =
      contacts friendnum

end

/-- The subtraction of the source, over the integers. -/
theorem toNat_toUInt64_sub (now : Int64) (time : UInt64) :
    ((now.toUInt64 - time).toNat : ℤ) = (now.toInt - time.toNat) % 2 ^ 64 := by
  have hnow : (now.toUInt64.toNat : ℤ) % 2 ^ 64 = now.toInt % 2 ^ 64 := by
    rw [← Int64.toNat_toBitVec, ← Int64.toInt_toBitVec, BitVec.toInt_eq_toNat_cond]
    split <;> omega
  have htime := time.toNat_lt
  rw [UInt64.toNat_sub]
  omega

theorem lt_toUInt64_sub_iff (now : Int64) (limit time : UInt64) :
    limit < now.toUInt64 - time ↔
      (limit.toNat : ℤ) < now.toInt - time.toNat ∨
        now.toInt < time.toNat ∧ (limit.toNat : ℤ) < (now.toInt - time.toNat) % 2 ^ 64 := by
  have hsub := toNat_toUInt64_sub now time
  have hhigh := now.toInt_lt
  rw [UInt64.lt_iff_toNat_lt]
  omega

section

variable {getTime : ℕ → Int64} {inactiveLimit : UInt64} {lastOnline : ℕ → Option UInt64}

/-- One round deletes the friend it looks at or nobody. -/
theorem purgeRound_apply (now inactiveLimit : UInt64) (contacts : Contacts) (friendnum other : ℕ) :
    purgeRound now inactiveLimit lastOnline contacts friendnum other =
      if other = friendnum ∧ ∃ time, lastOnline friendnum = some time ∧ inactiveLimit < now - time
        then none
      else contacts other := by
  unfold purgeRound
  cases hcontact : contacts friendnum with
  | none =>
      by_cases hother : other = friendnum
      · simp [hother, hcontact]
      · simp [hother]
  | some key =>
      cases honline : lastOnline friendnum with
      | none => simp
      | some time =>
          by_cases hlong : inactiveLimit < now - time
          · simp [hlong, toxFriendDelete, Function.update_apply]
          · simp [hlong]

/-- The pass deletes whoever it found overdue at one of its looks. -/
theorem purgeInactiveFrom_apply (friendList : List ℕ) (i : ℕ) (contacts : Contacts) (other : ℕ) :
    ((∃ j time, friendList[j]? = some other ∧ lastOnline other = some time ∧
        inactiveLimit < (getTime (i + j)).toUInt64 - time) →
      purgeInactiveFrom getTime inactiveLimit lastOnline i friendList contacts other = none) ∧
    ((¬∃ j time, friendList[j]? = some other ∧ lastOnline other = some time ∧
        inactiveLimit < (getTime (i + j)).toUInt64 - time) →
      purgeInactiveFrom getTime inactiveLimit lastOnline i friendList contacts other =
        contacts other) := by
  induction friendList generalizing i contacts with
  | nil => simp [purgeInactiveFrom]
  | cons friendnum friendList ih =>
      rw [purgeInactiveFrom]
      obtain ⟨hgone, hkept⟩ := ih (i + 1)
        (purgeRound (getTime i).toUInt64 inactiveLimit lastOnline contacts friendnum)
      have hround : purgeRound (getTime i).toUInt64 inactiveLimit lastOnline contacts friendnum
          other = _ :=
        purgeRound_apply (getTime i).toUInt64 inactiveLimit contacts friendnum other
      by_cases hlater : ∃ j time, friendList[j]? = some other ∧ lastOnline other = some time ∧
          inactiveLimit < (getTime (i + 1 + j)).toUInt64 - time
      · constructor
        · intro _
          exact hgone hlater
        · intro hnone
          obtain ⟨j, time, hlist, honline, hlong⟩ := hlater
          rw [Nat.add_assoc, Nat.add_comm 1 j] at hlong
          exact absurd ⟨j + 1, time, hlist, honline, hlong⟩ hnone
      · rw [hkept hlater, hround]
        constructor
        · rintro ⟨j, time, hlist, honline, hlong⟩
          cases j with
          | zero =>
              obtain rfl : friendnum = other := by simpa using hlist
              exact if_pos ⟨rfl, time, honline, hlong⟩
          | succ j =>
              rw [Nat.add_comm j 1, ← Nat.add_assoc] at hlong
              exact absurd ⟨j, time, hlist, honline, hlong⟩ hlater
        · intro hnone
          apply if_neg
          rintro ⟨rfl, time, honline, hlong⟩
          exact hnone ⟨0, time, rfl, honline, hlong⟩

theorem overdue_iff {friendList : List ℕ} (friendnum : ℕ) :
    (∃ j time, friendList[j]? = some friendnum ∧ lastOnline friendnum = some time ∧
        inactiveLimit < (getTime (0 + j)).toUInt64 - time) ↔
      LongInactive getTime inactiveLimit lastOnline friendList friendnum ∨
        SeenAhead getTime inactiveLimit lastOnline friendList friendnum := by
  simp only [Nat.zero_add, lt_toUInt64_sub_iff]
  constructor
  · rintro ⟨j, time, hlist, honline, hlong | hahead⟩
    · exact Or.inl ⟨_, time, ⟨j, hlist, rfl, honline⟩, hlong⟩
    · exact Or.inr ⟨_, time, ⟨j, hlist, rfl, honline⟩, hahead⟩
  · rintro (⟨now, time, ⟨j, hlist, rfl, honline⟩, hlong⟩ |
      ⟨now, time, ⟨j, hlist, rfl, honline⟩, hahead⟩)
    · exact ⟨j, time, hlist, honline, Or.inl hlong⟩
    · exact ⟨j, time, hlist, honline, Or.inr hahead⟩

theorem purgeInactive_spec (friendList : List ℕ) (contacts : Contacts) (friendnum : ℕ) :
    (LongInactive getTime inactiveLimit lastOnline friendList friendnum ∨
        SeenAhead getTime inactiveLimit lastOnline friendList friendnum →
      purgeInactiveFrom getTime inactiveLimit lastOnline 0 friendList contacts friendnum = none) ∧
    (¬(LongInactive getTime inactiveLimit lastOnline friendList friendnum ∨
        SeenAhead getTime inactiveLimit lastOnline friendList friendnum) →
      purgeInactiveFrom getTime inactiveLimit lastOnline 0 friendList contacts friendnum =
        contacts friendnum) := by
  rw [← overdue_iff]
  exact purgeInactiveFrom_apply friendList 0 contacts friendnum

end

/-- Exactly the inactive friends are deleted, unless an active one was seen
at a time the clock has not reached. -/
theorem purgeInactive_iff_not_ahead (getTime : ℕ → Int64) (inactiveLimit : UInt64)
    (lastOnline : ℕ → Option UInt64) (friendList : List ℕ) (contacts : Contacts) :
    PurgesInactive getTime inactiveLimit lastOnline friendList contacts ↔
      ∀ friendnum, contacts friendnum ≠ none →
        SeenAhead getTime inactiveLimit lastOnline friendList friendnum →
        LongInactive getTime inactiveLimit lastOnline friendList friendnum := by
  constructor
  · intro hpurges friendnum hexists hahead
    by_contra hactive
    have hgone := (purgeInactive_spec friendList contacts friendnum).1 (Or.inr hahead)
    have hkept := hpurges.2 friendnum hactive
    exact hexists (hkept.symm.trans hgone)
  · intro hwhen
    constructor
    · intro friendnum hlong
      exact (purgeInactive_spec friendList contacts friendnum).1 (Or.inl hlong)
    · intro friendnum hactive
      by_cases hexists : contacts friendnum = none
      · by_cases hahead : SeenAhead getTime inactiveLimit lastOnline friendList friendnum
        · rw [(purgeInactive_spec friendList contacts friendnum).1 (Or.inr hahead), hexists]
        · exact (purgeInactive_spec friendList contacts friendnum).2 (by tauto)
      · have hahead := mt (hwhen friendnum hexists) hactive
        exact (purgeInactive_spec friendList contacts friendnum).2 (by tauto)

/-- The clock was put back by one second, and the contact is gone. -/
theorem purgeInactive_clock_behind :
    ¬PurgesInactive (fun _ => 1000) (31536000 * 5) (fun _ => some 1001) [0]
      (fun _ => some (Vector.replicate 32 0)) := by
  intro hpurges
  have hkept := hpurges.2 0 (by
    rintro ⟨now, time, ⟨i, -, rfl, honline⟩, hlong⟩
    obtain rfl := Option.some.inj honline
    exact absurd hlong (by simp only; decide))
  revert hkept
  decide

end ToxRelayer
