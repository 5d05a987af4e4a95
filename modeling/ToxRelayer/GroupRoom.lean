import ToxRelayer.GroupDirectory

/-!
# Room in the group table

`group_add` compares the number of slots in use with the size of the table, and
looks for a free slot only when that is smaller.  A table whose last slot is
taken refuses a group although others below it have been left.
-/

namespace ToxRelayer

open CString

/-- The number of active entries. -/
def GroupTable.activeCount (t : GroupTable) : ℕ := t.live.countP fun chat => chat.active

/-- A group is added and found afterwards exactly when there is room for it,
and a refusal changes nothing. -/
def GroupTable.AddsWhenRoom (t : GroupTable) : Prop :=
  ∀ (fresh : ℕ → GroupChat) (groupnum : UInt32) (type : UInt8) (password : Option CStr),
    ∃ code table, groupAdd fresh t groupnum type password = some (code, table) ∧
      (t.activeCount < maxNumGroups ↔
        code = 0 ∧ ∃ i : ℕ, groupIndex table groupnum = some (i : ℤ)) ∧
      (code = -1 → table = t)

section

variable {t : GroupTable}

theorem GroupTable.InBounds.activeCount_le (ht : t.InBounds) : t.activeCount ≤ t.chatsIdx := by
  rw [← ht.live_length]
  exact List.countP_le_length

theorem GroupTable.dense_iff : t.Dense ↔ ∀ chat ∈ t.live, chat.active = true := by
  constructor
  · intro hdense chat hmem
    obtain ⟨i, hi⟩ := List.mem_iff_getElem?.mp hmem
    exact hdense i chat hi
  · intro hall i chat hchat
    exact hall chat (List.mem_of_getElem? hchat)

theorem GroupTable.InBounds.activeCount_eq_iff (ht : t.InBounds) :
    t.activeCount = t.chatsIdx ↔ t.Dense := by
  rw [GroupTable.dense_iff, ← ht.live_length]
  exact List.countP_eq_length

/-- The group that has just been added is found. -/
theorem GroupTable.InBounds.index_filled (ht : t.InBounds) {i : ℕ} {groupnum : UInt32}
    {new : GroupChat} (hi : i ≤ t.chatsIdx) (hnew : new.isFor groupnum = true) :
    ∃ j : ℕ, groupIndex (t.filled i new) groupnum = some (j : ℤ) := by
  rcases (ht.filled i new).index_cases groupnum with ⟨-, hlacks⟩ | ⟨j, chat, hindex, -⟩
  · have hholds : (t.filled i new).Holds i new := (ht.holds_filled hi).mpr (.inl ⟨rfl, rfl⟩)
    rw [hlacks i new hholds] at hnew
    cases hnew
  · exact ⟨j, hindex⟩

/-- Only a table with a hole among its last slots refuses wrongly. -/
theorem GroupTable.InBounds.addsWhenRoom_iff (ht : t.InBounds) (hmax : t.chatsIdx ≤ maxNumGroups) :
    t.AddsWhenRoom ↔ t.chatsIdx < maxNumGroups ∨ t.Dense := by
  have hle := ht.activeCount_le
  constructor
  · intro hadds
    by_contra hnot
    obtain ⟨hfull, hhole⟩ := not_or.mp hnot
    rw [← ht.activeCount_eq_iff] at hhole
    obtain ⟨code, table, hadd, hroom, -⟩ := hadds (fun _ => .zero) 0 0 none
    rcases ht.add_cases (fun _ => .zero) 0 0 none with ⟨-, hrefused⟩ | ⟨hbelow, -⟩
    · have hsame := hadd.symm.trans hrefused
      rw [Option.some.injEq, Prod.mk.injEq] at hsame
      have hcode := (hroom.mp (by omega)).1
      omega
    · exact hfull hbelow
  · intro hwhen fresh groupnum type password
    rcases ht.add_cases fresh groupnum type password with
      ⟨hfull, hrefused⟩ | ⟨hbelow, i, hi, -, -, hadded⟩
    · have hdense : t.Dense := by
        rcases hwhen with hbelow | hdense
        · omega
        · exact hdense
      rw [← ht.activeCount_eq_iff] at hdense
      refine ⟨-1, t, hrefused, ?_, fun _ => rfl⟩
      constructor
      · intro hroom
        omega
      · rintro ⟨hcode, -⟩
        cases hcode
    · have hnew : (GroupChat.added groupnum type password).isFor groupnum = true :=
        GroupChat.isFor_iff.mpr ⟨rfl, rfl⟩
      refine ⟨0, _, hadded, ?_, ?_⟩
      · exact iff_of_true (by omega) ⟨rfl, ht.index_filled hi hnew⟩
      · intro hcode
        cases hcode

end

/-! ## Every sequence of calls -/

/-- What holds of the table whichever groups are added, also one that it has already. -/
structure GroupTable.Sized (t : GroupTable) : Prop extends t.InBounds where
  max : t.chatsIdx ≤ maxNumGroups

theorem GroupTable.empty_sized : GroupTable.empty.Sized :=
  ⟨GroupTable.empty_inBounds, Nat.zero_le _⟩

theorem GroupRun.step_sized {s : GroupRun} (hs : s.table.Sized) (op : GroupOp) :
    ∃ s', s.step op = some s' ∧ s'.table.Sized := by
  have hmax := hs.max
  cases op with
  | add groupnum type password fresh =>
      rcases hs.add_cases fresh groupnum type password with
        ⟨-, hrefused⟩ | ⟨hbelow, i, -, -, -, hadded⟩
      · rw [GroupRun.step, hrefused]
        exact ⟨_, rfl, hs⟩
      · rw [GroupRun.step, hadded]
        refine ⟨_, rfl, hs.filled i _, ?_⟩
        simp only [GroupTable.filled]
        split <;> omega
  | leave groupnum fresh =>
      obtain ⟨chats, m, hleave, hchats, hm, -⟩ := hs.leave_cases fresh groupnum
      rw [GroupRun.step, hleave]
      exact ⟨_, rfl, hs.left hchats hm, le_trans hm hmax⟩

theorem GroupRun.after_sized {s : GroupRun} (hs : s.table.Sized) (ops : List GroupOp) :
    ∃ s', s.after ops = some s' ∧ s'.table.Sized := by
  induction ops generalizing s with
  | nil => exact ⟨s, rfl, hs⟩
  | cons op ops ih =>
      obtain ⟨s', hstep, hs'⟩ := GroupRun.step_sized hs op
      obtain ⟨s'', hafter, hs''⟩ := ih hs'
      refine ⟨s'', ?_, hs''⟩
      rw [GroupRun.after, List.foldlM_cons, hstep]
      exact hafter

/-- After any calls a group can be added exactly when there is room, as long as
not all slots are in use or none of them is a hole. -/
theorem groupAdd_room_iff (ops : List GroupOp) :
    ∃ s, GroupRun.start.after ops = some s ∧
      (s.table.AddsWhenRoom ↔ s.table.chatsIdx < maxNumGroups ∨ s.table.Dense) := by
  obtain ⟨s, hafter, hs⟩ := GroupRun.after_sized (s := .start) GroupTable.empty_sized ops
  exact ⟨s, hafter, hs.addsWhenRoom_iff hs.max⟩

/-! ## A full table with a hole -/

/-- The call that adds group `i`. -/
def addGroup (i : ℕ) : GroupOp := .add (UInt32.ofNat i) 0 none fun _ => .zero

theorem addGroups_after {n : ℕ} (hn : n ≤ maxNumGroups) :
    ∃ s, GroupRun.start.after ((List.range n).map addGroup) = some s ∧ s.table.InBounds ∧
      s.table.chatsIdx = n ∧ ∀ i < n, s.table.Holds i (.added (UInt32.ofNat i) 0 none) := by
  induction n with
  | zero => exact ⟨.start, rfl, GroupTable.empty_inBounds, rfl, fun i hi => by omega⟩
  | succ n ih =>
      obtain ⟨s, hafter, hs, hidx, hholds⟩ := ih (by omega)
      rcases hs.add_cases (fun _ => .zero) (UInt32.ofNat n) 0 none with
        ⟨hfull, -⟩ | ⟨-, i, hi, hfree, -, hadded⟩
      · omega
      · have hlast : s.table.chatsIdx = i := by
          by_contra hne
          have hactive := hfree _ (hholds i (by omega))
          cases hactive
        obtain ⟨s', hstep, htable⟩ : ∃ s', s.step (addGroup n) = some s' ∧
            s'.table = s.table.filled i (.added (UInt32.ofNat n) 0 none) := by
          rw [addGroup, GroupRun.step, hadded]
          exact ⟨_, rfl, rfl⟩
        refine ⟨s', ?_, ?_, ?_, ?_⟩
        · rw [List.range_succ, List.map_append, GroupRun.after, List.foldlM_append,
            ← GroupRun.after, hafter]
          simp only [Option.bind_eq_bind, Option.bind_some, List.map_singleton, List.foldlM_cons,
            hstep, List.foldlM_nil]
          rfl
        · rw [htable]
          exact hs.filled i _
        · rw [htable, GroupTable.filled, if_pos hlast, hidx]
        · intro j hj
          rw [htable, hs.holds_filled hi]
          by_cases hsame : j = i
          · subst hsame
            refine .inl ⟨rfl, ?_⟩
            rw [← hlast, hidx]
          · exact .inr ⟨hsame, hholds j (by omega)⟩

theorem addGroups_isFor {i : ℕ} (hi : i < maxNumGroups)
    (hfor : (GroupChat.added (UInt32.ofNat i) 0 none).isFor 0 = true) : i = 0 := by
  have hnumber := (GroupChat.isFor_iff.mp hfor).2
  have hvalue : (UInt32.ofNat i).toNat = 0 := by
    rw [show UInt32.ofNat i = 0 from hnumber]
    rfl
  have hmax : maxNumGroups = 256 := rfl
  rw [UInt32.toNat_ofNat'] at hvalue
  omega

/-- All slots are filled, and the first group is left again: the table has room
for a group, and refuses every one. -/
theorem groupAdd_refuses_hole :
    ∃ s, GroupRun.start.after
        ((List.range maxNumGroups).map addGroup ++ [.leave 0 fun _ => .zero]) = some s ∧
      ¬s.table.AddsWhenRoom := by
  obtain ⟨s, hafter, hs, hidx, hholds⟩ := addGroups_after le_rfl
  obtain ⟨chats, m, hleave, hchats, hm, hlast, hcut⟩ := hs.leave_cases (fun _ => .zero) 0
  obtain ⟨s', hstep, htable⟩ : ∃ s', s.step (.leave 0 fun _ => .zero) = some s' ∧
      s'.table = ⟨chats.take m, m, m⟩ := by
    rw [GroupRun.step, hleave]
    exact ⟨_, rfl, rfl⟩
  have hbounds := hs.left hchats hm
  have hmax : maxNumGroups = 256 := rfl
  have hfirst : chats[0]? = some .zero := by
    rcases hchats with ⟨-, hlacks⟩ | ⟨i, chat, rfl, hchat, hfor⟩
    · have habsent := hlacks 0 _ (hholds 0 (by omega))
      cases habsent
    · have hi := (hs.holds_iff.mp hchat).1
      have hsame := Option.some.inj (hchat.symm.trans (hholds i (by omega)))
      rw [hsame] at hfor
      obtain rfl := addGroups_isFor (by omega) hfor
      exact List.getElem?_set_self (by have hused := hs.used; omega)
  have hkept : chats[255]? = some (.added (UInt32.ofNat 255) 0 none) :=
    hchats.kept hs (hholds 255 (by omega)) rfl
  have hfull : m = maxNumGroups := by
    by_contra hne
    have hinactive := hcut 255 (by omega) (by omega) _ hkept
    cases hinactive
  have hzero : GroupTable.Holds ⟨chats.take m, m, m⟩ 0 .zero := by
    rw [hbounds.holds_iff, List.getElem?_take_of_lt (by omega)]
    exact ⟨by dsimp only; omega, hfirst⟩
  refine ⟨s', ?_, ?_⟩
  · rw [GroupRun.after, List.foldlM_append, ← GroupRun.after, hafter]
    simp only [Option.bind_eq_bind, Option.bind_some, List.foldlM_cons, hstep, List.foldlM_nil]
    rfl
  · rw [htable, hbounds.addsWhenRoom_iff hfull.le]
    rintro (hbelow | hdense)
    · dsimp only at hbelow
      omega
    · have hactive := hdense 0 _ hzero
      cases hactive

end ToxRelayer
