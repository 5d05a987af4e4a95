import ToxRelayer.Commands
import ToxRelayer.GroupDirectory

/-!
# The purge of empty groups

`purge_empty_groups` (`toxrelayer.c`) walks the table by index while
`group_leave` clears entries under it and cuts off the end.  The index always
goes on by one: a slot that has been passed is never looked at again, and what
lies ahead of it is moved by nothing.
-/

namespace ToxRelayer

open CString

/-- `tox_conference_peer_count` succeeds with more than one peer. -/
def ToxAnswers.populated (tox : ToxAnswers) (groupnum : UInt32) : Bool :=
  match tox.peerCount groupnum with
  | none => false
  | some numPeers => 1 < numPeers

/-- What is called for an empty group before its entry is cleared. -/
def deleteEmptyGroup (tox : ToxAnswers) (groupnum : UInt32) : List ToxCall :=
  [.logTimestamp (bytes "Deleting empty group " ++ decimal groupnum.toInt32.toInt),
    .conferenceDelete groupnum (tox.conferenceDelete groupnum)]

/-- The loop of `purge_empty_groups` from index `i` on; `none` when a slot
outside the storage is accessed, or the rounds are not enough. -/
def purgeEmptyFrom (tox : ToxAnswers) : ℕ → ℕ → GroupTable → Option (GroupTable × List ToxCall)
  | 0, _, _ => none
  | rounds + 1, i, t =>
      if t.chatsIdx ≤ i then some (t, [])
      else do
        let chat ← t.gChats[i]?
        if ¬chat.active then purgeEmptyFrom tox rounds (i + 1) t
        else if tox.populated chat.groupnum then purgeEmptyFrom tox rounds (i + 1) t
        else
          let left ← groupLeave tox.fresh t chat.groupnum
          if left.chatsIdx ≤ i then some (left, deleteEmptyGroup tox chat.groupnum)
          else
            let (purged, calls) ← purgeEmptyFrom tox rounds (i + 1) left
            some (purged, deleteEmptyGroup tox chat.groupnum ++ calls)

def purgeEmptyGroups (tox : ToxAnswers) (t : GroupTable) : Option (GroupTable × List ToxCall) :=
  purgeEmptyFrom tox (t.chatsIdx + 1) 0 t

/-- The table without the slots that are allocated but not in use. -/
def GroupTable.cut (t : GroupTable) : GroupTable := ⟨t.live, t.chatsIdx, t.chatsIdx⟩

/-- The number in a call of `tox_conference_delete`. -/
def ToxCall.deleting : ToxCall → Option UInt32
  | .conferenceDelete groupnum _ => some groupnum
  | _ => none

/-- An entry the purge removes. -/
def GroupChat.empties (tox : ToxAnswers) (chat : GroupChat) : Bool :=
  chat.active && !tox.populated chat.groupnum

section

variable {tox : ToxAnswers} {t : GroupTable} {i m : ℕ} {chat : GroupChat} {chats : List GroupChat}

theorem GroupTable.InBounds.cut (ht : t.InBounds) : t.cut.InBounds :=
  ⟨ht.live_length.ge, ht.live_length.symm⟩

@[simp] theorem GroupTable.InBounds.live_cut (ht : t.InBounds) : t.cut.live = t.live := by
  rw [GroupTable.live, GroupTable.cut]
  dsimp only
  rw [← ht.live_length, List.take_length]

theorem GroupTable.InBounds.holds_cut (ht : t.InBounds) {j : ℕ} :
    t.cut.Holds j chat ↔ t.Holds j chat := by
  rw [GroupTable.Holds, ht.live_cut, GroupTable.Holds]

/-! ## Leaving the group at the index -/

/-- The entry that is cleared is the one the loop stands at. -/
theorem GroupTable.Distinct.cleared_at (hdistinct : t.Distinct) (hchat : t.Holds i chat)
    (hactive : chat.active = true) (hchats : t.Cleared chat.groupnum chats) :
    chats = t.gChats.set i .zero := by
  have hfor : chat.isFor chat.groupnum = true := GroupChat.isFor_iff.mpr ⟨hactive, rfl⟩
  rcases hchats with ⟨-, hlacks⟩ | ⟨j, found, rfl, hfound, hfoundFor⟩
  · rw [hlacks i chat hchat] at hfor
    cases hfor
  · obtain ⟨rfl, -⟩ := hdistinct.located_inj ⟨hfound, hfoundFor⟩ ⟨hchat, hfor⟩
    rfl

/-- What is still to be removed is ahead of the index, and stays there. -/
theorem filter_empties_left (hm : m ≤ t.chatsIdx) (hchats : chats = t.gChats.set i .zero)
    (hcut : ∀ j, m ≤ j → j < t.chatsIdx → ∀ chat : GroupChat, chats[j]? = some chat →
      chat.active = false) :
    ((chats.take m).drop (i + 1)).filter (GroupChat.empties tox) =
      (t.live.drop (i + 1)).filter (GroupChat.empties tox) := by
  have hsame : (chats.take t.chatsIdx).drop (i + 1) = t.live.drop (i + 1) := by
    rw [hchats, GroupTable.live, List.take_set, List.drop_set_of_lt (Nat.lt_succ_self i)]
  have hsplit : chats.take t.chatsIdx = chats.take m ++ (chats.drop m).take (t.chatsIdx - m) := by
    rw [← List.take_add, Nat.add_sub_cancel' hm]
  have hrest : ((chats.drop m).take (t.chatsIdx - m)).filter (GroupChat.empties tox) = [] := by
    rw [List.filter_eq_nil_iff]
    intro other hmem
    obtain ⟨j, hj⟩ := List.mem_iff_getElem?.mp hmem
    have hlt := (List.getElem?_eq_some_iff.mp hj).1
    rw [List.length_take] at hlt
    rw [List.getElem?_take_of_lt (by omega), List.getElem?_drop] at hj
    have hinactive := hcut (m + j) (by omega) (by omega) other hj
    simp [GroupChat.empties, hinactive]
  rw [← hsame, hsplit, List.drop_append, List.filter_append]
  have htail : (((chats.drop m).take (t.chatsIdx - m)).drop (i + 1 - (chats.take m).length)).filter
      (GroupChat.empties tox) = [] := by
    rw [List.filter_eq_nil_iff] at hrest ⊢
    exact fun other hmem => hrest other (List.mem_of_mem_drop hmem)
  rw [htail, List.append_nil]

/-- The groups of an entry that is removed and of one that is kept differ. -/
theorem GroupTable.Distinct.active_left (hdistinct : t.Distinct) (ht : t.InBounds)
    (hchat : t.Holds i chat) (hactive : chat.active = true) (hchats : t.Cleared chat.groupnum chats)
    (hm : m ≤ t.chatsIdx)
    (hcut : ∀ j, m ≤ j → j < t.chatsIdx → ∀ chat : GroupChat, chats[j]? = some chat →
      chat.active = false) (j : ℕ) (other : GroupChat) :
    GroupTable.Holds ⟨chats.take m, m, m⟩ j other ∧ other.active = true ↔
      j ≠ i ∧ t.Holds j other ∧ other.active = true := by
  have hlocated : GroupTable.Located ⟨chats.take m, m, m⟩ other.groupnum j other ↔ _ :=
    hdistinct.located_left ht hchats hm hcut
  simp only [GroupTable.Located, GroupChat.isFor_iff, and_true] at hlocated
  rw [hlocated]
  constructor
  · rintro ⟨hne, hother, hotherActive⟩
    refine ⟨?_, hother, hotherActive⟩
    rintro rfl
    exact hne (congrArg GroupChat.groupnum (Option.some.inj (hother.symm.trans hchat)))
  · rintro ⟨hne, hother, hotherActive⟩
    refine ⟨?_, hother, hotherActive⟩
    intro hsame
    exact hne (hdistinct j i other chat hother hchat hotherActive hactive hsame)

/-! ## The loop -/

/-- What the loop makes of the table from index `i` on. -/
structure GroupTable.PurgedFrom (tox : ToxAnswers) (i : ℕ) (t purged : GroupTable)
    (calls : List ToxCall) : Prop extends purged.InBounds where
  kept : ∀ j chat, purged.Holds j chat ∧ chat.active = true ↔
    t.Holds j chat ∧ chat.active = true ∧ (i ≤ j → tox.populated chat.groupnum = true)
  calls : calls = ((t.live.drop i).filter (GroupChat.empties tox)).flatMap
    fun chat => deleteEmptyGroup tox chat.groupnum

theorem GroupTable.InBounds.purgedFrom_end (ht : t.InBounds) (hend : t.chatsIdx ≤ i) :
    t.PurgedFrom tox i t [] := by
  refine ⟨ht, ?_, ?_⟩
  · intro j chat
    constructor
    · rintro ⟨hchat, hactive⟩
      refine ⟨hchat, hactive, ?_⟩
      intro hpassed
      have hj := (ht.holds_iff.mp hchat).1
      omega
    · rintro ⟨hchat, hactive, -⟩
      exact ⟨hchat, hactive⟩
  · rw [List.drop_of_length_le (by rw [ht.live_length]; exact hend)]
    rfl

/-- An entry that is not removed is passed. -/
theorem GroupTable.PurgedFrom.pass {purged : GroupTable} {calls : List ToxCall}
    (hpurged : t.PurgedFrom tox (i + 1) purged calls) (hchat : t.Holds i chat)
    (hstays : chat.active = true → tox.populated chat.groupnum = true) :
    t.PurgedFrom tox i purged calls := by
  refine ⟨hpurged.toInBounds, ?_, ?_⟩
  · intro j other
    rw [hpurged.kept]
    constructor
    · rintro ⟨hother, hactive, hlater⟩
      refine ⟨hother, hactive, ?_⟩
      intro hj
      rcases Nat.eq_or_lt_of_le hj with rfl | hlt
      · obtain rfl := Option.some.inj (hother.symm.trans hchat)
        exact hstays hactive
      · exact hlater hlt
    · rintro ⟨hother, hactive, hlater⟩
      exact ⟨hother, hactive, fun hj => hlater (by omega)⟩
  · have hempties : GroupChat.empties tox chat = false := by
      cases hactive : chat.active with
      | false => simp [GroupChat.empties, hactive]
      | true => simp [GroupChat.empties, hstays hactive]
    obtain ⟨hi, hslot⟩ := List.getElem?_eq_some_iff.mp hchat
    rw [List.drop_eq_getElem_cons hi, hslot, List.filter_cons_of_neg (by simp [hempties])]
    exact hpurged.calls

/-- The group at the index is removed, and the loop has gone on from the next one. -/
theorem GroupTable.PurgedFrom.remove {purged : GroupTable} {calls : List ToxCall}
    (hdistinct : t.Distinct) (ht : t.InBounds) (hchat : t.Holds i chat)
    (hactive : chat.active = true) (hempty : tox.populated chat.groupnum = false)
    (hchats : t.Cleared chat.groupnum chats) (hm : m ≤ t.chatsIdx)
    (hcut : ∀ j, m ≤ j → j < t.chatsIdx → ∀ chat : GroupChat, chats[j]? = some chat →
      chat.active = false)
    (hpurged : GroupTable.PurgedFrom tox (i + 1) ⟨chats.take m, m, m⟩ purged calls) :
    t.PurgedFrom tox i purged (deleteEmptyGroup tox chat.groupnum ++ calls) := by
  refine ⟨hpurged.toInBounds, ?_, ?_⟩
  · intro j other
    have hleft := hdistinct.active_left ht hchat hactive hchats hm hcut j other
    rw [hpurged.kept, ← and_assoc, hleft]
    constructor
    · rintro ⟨⟨hne, hother, hotherActive⟩, hlater⟩
      exact ⟨hother, hotherActive, fun hj => hlater (by omega)⟩
    · rintro ⟨hother, hotherActive, hlater⟩
      refine ⟨⟨?_, hother, hotherActive⟩, fun hj => hlater (by omega)⟩
      rintro rfl
      obtain rfl := Option.some.inj (hother.symm.trans hchat)
      rw [hlater le_rfl] at hempty
      cases hempty
  · have hempties : GroupChat.empties tox chat = true := by
      simp [GroupChat.empties, hactive, hempty]
    have hbounds := ht.left hchats hm
    have hlive : GroupTable.live ⟨chats.take m, m, m⟩ = chats.take m := by
      rw [GroupTable.live]
      dsimp only
      rw [List.take_take, min_self]
    obtain ⟨hi, hslot⟩ := List.getElem?_eq_some_iff.mp hchat
    rw [List.drop_eq_getElem_cons hi, hslot, List.filter_cons_of_pos hempties, List.flatMap_cons,
      ← filter_empties_left hm (hdistinct.cleared_at hchat hactive hchats) hcut, ← hlive,
      ← hpurged.calls]

/-- A round that leaves the entry at the index where it is. -/
theorem purgeEmptyFrom_pass {rounds : ℕ} (hi : i < t.chatsIdx) (hslot : t.gChats[i]? = some chat)
    (hstays : chat.active = true → tox.populated chat.groupnum = true) :
    purgeEmptyFrom tox (rounds + 1) i t = purgeEmptyFrom tox rounds (i + 1) t := by
  rw [purgeEmptyFrom, if_neg (by omega), hslot]
  simp only [Option.bind_eq_bind, Option.bind_some]
  cases hactive : chat.active with
  | false => rw [if_pos (by simp)]
  | true => rw [if_neg (by simp), if_pos (hstays hactive)]

/-- A round that removes it, and the loop behind it unless the table ends there. -/
theorem purgeEmptyFrom_remove {rounds : ℕ} {left : GroupTable} (hi : i < t.chatsIdx)
    (hslot : t.gChats[i]? = some chat) (hactive : chat.active = true)
    (hempty : tox.populated chat.groupnum = false)
    (hleave : groupLeave tox.fresh t chat.groupnum = some left) :
    purgeEmptyFrom tox (rounds + 1) i t =
      if left.chatsIdx ≤ i then some (left, deleteEmptyGroup tox chat.groupnum)
      else (purgeEmptyFrom tox rounds (i + 1) left).map fun purged =>
        (purged.1, deleteEmptyGroup tox chat.groupnum ++ purged.2) := by
  rw [purgeEmptyFrom, if_neg (by omega), hslot]
  simp only [Option.bind_eq_bind, Option.bind_some]
  rw [if_neg (by simp [hactive]), if_neg (by simp [hempty]), hleave, Option.map_eq_bind]
  rfl

/-- The loop ends within its rounds and has read used slots only. -/
theorem purgeEmptyFrom_spec (tox : ToxAnswers) (rounds i : ℕ) {t : GroupTable} (ht : t.InBounds)
    (hdistinct : t.Distinct) (hrounds : t.chatsIdx - i < rounds) :
    ∃ purged calls, purgeEmptyFrom tox rounds i t = some (purged, calls) ∧
      t.PurgedFrom tox i purged calls := by
  induction rounds generalizing i t with
  | zero => omega
  | succ rounds ih =>
      by_cases hend : t.chatsIdx ≤ i
      · rw [purgeEmptyFrom, if_pos hend]
        exact ⟨t, [], rfl, ht.purgedFrom_end hend⟩
      have hi : i < t.gChats.length := by
        have hused := ht.used
        omega
      have hslot : t.gChats[i]? = some t.gChats[i] := List.getElem?_eq_getElem hi
      have hchat : t.Holds i t.gChats[i] := ht.holds_iff.mpr ⟨by omega, hslot⟩
      by_cases hstays : t.gChats[i].active = true → tox.populated t.gChats[i].groupnum = true
      · obtain ⟨purged, calls, hrest, hpurged⟩ := ih (i + 1) ht hdistinct (by omega)
        rw [purgeEmptyFrom_pass (by omega) hslot hstays]
        exact ⟨purged, calls, hrest, hpurged.pass hchat hstays⟩
      · obtain ⟨hactive, hpopulated⟩ := Classical.not_imp.mp hstays
        have hempty : tox.populated t.gChats[i].groupnum = false :=
          Bool.eq_false_of_not_eq_true hpopulated
        obtain ⟨chats, m, hleave, hchats, hm, -, hcut⟩ :=
          ht.leave_cases tox.fresh t.gChats[i].groupnum
        have hbounds := ht.left hchats hm
        rw [purgeEmptyFrom_remove (by omega) hslot hactive hempty hleave]
        by_cases hover : m ≤ i
        · have hdone : GroupTable.PurgedFrom tox (i + 1) ⟨chats.take m, m, m⟩ _ _ :=
            hbounds.purgedFrom_end (by dsimp only; omega)
          have hremoved := hdone.remove hdistinct ht hchat hactive hempty hchats hm hcut
          rw [List.append_nil] at hremoved
          rw [if_pos hover]
          exact ⟨_, _, rfl, hremoved⟩
        · obtain ⟨purged, calls, hrest, hpurged⟩ := ih (i + 1) hbounds
            (hdistinct.left ht hchats hm hcut) (by dsimp only; omega)
          rw [if_neg hover, hrest]
          exact ⟨_, _, rfl, hpurged.remove hdistinct ht hchat hactive hempty hchats hm hcut⟩

theorem purgeEmptyGroups_spec (tox : ToxAnswers) (ht : t.InBounds) (hdistinct : t.Distinct) :
    ∃ purged calls, purgeEmptyGroups tox t = some (purged, calls) ∧
      t.PurgedFrom tox 0 purged calls :=
  purgeEmptyFrom_spec tox (t.chatsIdx + 1) 0 ht hdistinct (by omega)

theorem GroupTable.Distinct.cut (hdistinct : t.Distinct) (ht : t.InBounds) : t.cut.Distinct := by
  intro i j chat chat' hi hj
  exact hdistinct i j chat chat' (ht.holds_cut.mp hi) (ht.holds_cut.mp hj)

/-! ## What is deleted in toxcore -/

theorem GroupTable.PurgedFrom.deleting_eq {purged : GroupTable} {calls : List ToxCall}
    (hpurged : t.PurgedFrom tox 0 purged calls) :
    calls.filterMap ToxCall.deleting =
      (t.live.filter (GroupChat.empties tox)).map GroupChat.groupnum := by
  rw [hpurged.calls, List.drop_zero]
  induction t.live.filter (GroupChat.empties tox) with
  | nil => rfl
  | cons chat chats ih =>
      rw [List.flatMap_cons, List.filterMap_append, ih]
      rfl

theorem GroupTable.Distinct.nodup_empties (hdistinct : t.Distinct) :
    ((t.live.filter (GroupChat.empties tox)).map GroupChat.groupnum).Nodup := by
  have hpairs : t.live.Pairwise fun chat chat' =>
      chat.active = true → chat'.active = true → chat.groupnum ≠ chat'.groupnum := by
    rw [List.pairwise_iff_getElem]
    intro i j hi hj hlt hactive hactive' hsame
    have heq := hdistinct i j _ _ (List.getElem?_eq_getElem hi) (List.getElem?_eq_getElem hj)
      hactive hactive' hsame
    omega
  rw [List.Nodup, List.pairwise_map, List.pairwise_filter]
  refine hpairs.imp ?_
  intro chat chat' hne hempties hempties'
  simp only [GroupChat.empties, Bool.and_eq_true] at hempties hempties'
  exact hne hempties.1 hempties'.1

theorem GroupTable.mem_empties_iff (groupnum : UInt32) :
    groupnum ∈ (t.live.filter (GroupChat.empties tox)).map GroupChat.groupnum ↔
      (∃ i chat, t.Located groupnum i chat) ∧ tox.populated groupnum = false := by
  simp only [List.mem_map, List.mem_filter, GroupChat.empties, Bool.and_eq_true,
    Bool.not_eq_true', GroupTable.Located, GroupChat.isFor_iff]
  constructor
  · rintro ⟨chat, ⟨hmem, hactive, hempty⟩, rfl⟩
    obtain ⟨i, hi⟩ := List.mem_iff_getElem?.mp hmem
    exact ⟨⟨i, chat, hi, hactive, rfl⟩, hempty⟩
  · rintro ⟨⟨i, chat, hi, hactive, rfl⟩, hempty⟩
    exact ⟨chat, ⟨List.mem_of_getElem? hi, hactive, hempty⟩, rfl⟩

end

theorem ToxAnswers.populated_iff (tox : ToxAnswers) (groupnum : UInt32) :
    tox.populated groupnum = true ↔
      ∃ numPeers, tox.peerCount groupnum = some numPeers ∧ 1 < numPeers := by
  unfold populated
  cases tox.peerCount groupnum with
  | none => simp
  | some numPeers => simp

/-- The purge removes the empty groups and no others, deletes each of them once,
and does the same when the used slots are all the storage there is. -/
theorem purgeEmptyGroups_exact (tox : ToxAnswers) (g : Groups) (hdistinct : g.table.Distinct) :
    ∃ purged calls, purgeEmptyGroups tox g.table = some (purged, calls) ∧ purged.InBounds ∧
      (∀ i chat, purged.Holds i chat ∧ chat.active = true ↔
        g.table.Holds i chat ∧ chat.active = true ∧
          ∃ numPeers, tox.peerCount chat.groupnum = some numPeers ∧ 1 < numPeers) ∧
      (calls.filterMap ToxCall.deleting).Nodup ∧
      (∀ groupnum, groupnum ∈ calls.filterMap ToxCall.deleting ↔
        (∃ i chat, g.table.Located groupnum i chat) ∧
          ¬∃ numPeers, tox.peerCount groupnum = some numPeers ∧ 1 < numPeers) ∧
      ∃ purged', purgeEmptyGroups tox g.table.cut = some (purged', calls) ∧
        ∀ i chat, purged'.Holds i chat ∧ chat.active = true ↔
          purged.Holds i chat ∧ chat.active = true := by
  have hg := g.inBounds
  obtain ⟨purged, calls, hpurge, hpurged⟩ := purgeEmptyGroups_spec tox hg hdistinct
  obtain ⟨purged', calls', hpurge', hpurged'⟩ :=
    purgeEmptyGroups_spec tox hg.cut (hdistinct.cut hg)
  have hcalls : calls' = calls := by
    rw [hpurged'.calls, hpurged.calls, hg.live_cut]
  refine ⟨purged, calls, hpurge, hpurged.toInBounds, ?_, ?_, ?_, purged', hcalls ▸ hpurge', ?_⟩
  · intro i chat
    rw [hpurged.kept, ← tox.populated_iff]
    simp only [Nat.zero_le, forall_const]
  · rw [hpurged.deleting_eq]
    exact hdistinct.nodup_empties
  · intro groupnum
    rw [hpurged.deleting_eq, GroupTable.mem_empties_iff, ← tox.populated_iff, Bool.not_eq_true]
  · intro i chat
    rw [hpurged'.kept, hpurged.kept, hg.holds_cut]

/-- Groups 10 and 20; in the first only the node itself is left. -/
def twoGroups : Groups where
  table := ⟨[.added 10 0 none, .added 20 0 none], 2, 2⟩
  inBounds := ⟨le_rfl, rfl⟩

def firstEmpty : ToxAnswers :=
  { smallAnswers with peerCount := fun groupnum => if groupnum = 10 then some 1 else some 3 }

theorem twoGroups_distinct : twoGroups.table.Distinct := by
  intro i j chat chat' hi hj _ _ hsame
  have hslot : ∀ {k chat}, twoGroups.table.Holds k chat →
      k = 0 ∧ chat.groupnum = 10 ∨ k = 1 ∧ chat.groupnum = 20 := by
    intro k chat hchat
    match k, hchat with
    | 0, hchat => exact .inl ⟨rfl, (Option.some.inj hchat) ▸ rfl⟩
    | 1, hchat => exact .inr ⟨rfl, (Option.some.inj hchat) ▸ rfl⟩
  rcases hslot hi with ⟨rfl, hnumber⟩ | ⟨rfl, hnumber⟩
  · rcases hslot hj with ⟨rfl, -⟩ | ⟨rfl, hnumber'⟩
    · rfl
    · rw [hnumber, hnumber'] at hsame
      cases hsame
  · rcases hslot hj with ⟨rfl, hnumber'⟩ | ⟨rfl, -⟩
    · rw [hnumber, hnumber'] at hsame
      cases hsame
    · rfl

theorem purgeEmptyGroups_first :
    ∃ purged calls, purgeEmptyGroups firstEmpty twoGroups.table = some (purged, calls) ∧
      10 ∈ calls.filterMap ToxCall.deleting ∧ 20 ∉ calls.filterMap ToxCall.deleting := by
  obtain ⟨purged, calls, hpurge, -, -, -, hdeleted, -⟩ :=
    purgeEmptyGroups_exact firstEmpty twoGroups twoGroups_distinct
  refine ⟨purged, calls, hpurge, (hdeleted 10).mpr ⟨⟨0, _, rfl, rfl⟩, ?_⟩, ?_⟩
  · rintro ⟨numPeers, hcount, hlt⟩
    obtain rfl := Option.some.inj hcount
    exact absurd hlt (by decide)
  · intro hmem
    exact ((hdeleted 20).mp hmem).2 ⟨3, rfl, by decide⟩

end ToxRelayer
