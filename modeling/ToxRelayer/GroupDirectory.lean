import ToxRelayer.GroupChats

/-!
# The group table as a finite map

What `group_add` and `group_leave` do to the table, told as a map from group numbers to
what a group was added with: adding is insertion and leaving is removal, whatever slots
are reused and cut off underneath.
-/

namespace ToxRelayer

open CString

/-- What a group was added with. -/
structure GroupEntry where
  type : UInt8
  password : Option CStr

inductive GroupOp where
  | add (groupnum : UInt32) (type : UInt8) (password : Option CStr) (fresh : ℕ → GroupChat)
  | leave (groupnum : UInt32) (fresh : ℕ → GroupChat)

def GroupOp.groupnum : GroupOp → UInt32
  | .add groupnum _ _ _ => groupnum
  | .leave groupnum _ => groupnum

/-- The table, and the groups that have been added and not been left since. -/
structure GroupRun where
  table : GroupTable
  added : UInt32 → Option GroupEntry

def GroupRun.start : GroupRun := ⟨.empty, fun _ => none⟩

/-- A call; `none` when it accesses a slot that is not allocated. -/
def GroupRun.step (s : GroupRun) : GroupOp → Option GroupRun
  | .add groupnum type password fresh => do
      let (code, table) ← groupAdd fresh s.table groupnum type password
      some ⟨table,
        if code = 0 then Function.update s.added groupnum (some ⟨type, password⟩) else s.added⟩
  | .leave groupnum fresh => do
      let table ← groupLeave fresh s.table groupnum
      some ⟨table, Function.update s.added groupnum none⟩

def GroupRun.after (s : GroupRun) (ops : List GroupOp) : Option GroupRun :=
  ops.foldlM GroupRun.step s

/-- A group is only added when its number is not in the table, with a password that
fits. -/
def GroupOp.Allowed (s : GroupRun) : GroupOp → Prop
  | .add groupnum _ password _ =>
      groupIndex s.table groupnum = some (-1) ∧
        ∀ text ∈ password, text.length < maxPasswordSize
  | .leave _ _ => True

def GroupRun.AllowedAlong : GroupRun → List GroupOp → Prop
  | _, [] => True
  | s, op :: ops => op.Allowed s ∧ ∀ s', s.step op = some s' → AllowedAlong s' ops

/-- The table is the map of the groups. -/
structure GroupRun.Refines (s : GroupRun) : Prop where
  indexed : ∀ groupnum, ∃ index, groupIndex s.table groupnum = some index ∧
    (index ≠ -1 ↔ (s.added groupnum).isSome)
  holds : ∀ groupnum (i : ℕ), groupIndex s.table groupnum = some (i : ℤ) →
    ∃ chat entry, s.table.gChats[i]? = some chat ∧ s.added groupnum = some entry ∧
      chat.type = entry.type ∧ chat.hasPass = entry.password.isSome ∧
      chat.password = entry.password.getD .empty
  last : s.table.chatsIdx = 0 ∧ (∀ chat ∈ s.table.gChats, chat.active = false) ∨
    ∃ i chat, s.table.chatsIdx = i + 1 ∧ s.table.gChats[i]? = some chat ∧ chat.active = true ∧
      ∀ j > i, ∀ chat, s.table.gChats[j]? = some chat → chat.active = false

/-- The entries of other groups stay where they are and what they are. -/
def GroupRun.Keeps (s : GroupRun) (op : GroupOp) (s' : GroupRun) : Prop :=
  ∀ groupnum ≠ op.groupnum, ∀ (i : ℕ) chat,
    groupIndex s.table groupnum = some (i : ℤ) → s.table.gChats[i]? = some chat →
      groupIndex s'.table groupnum = some (i : ℤ) ∧ s'.table.gChats[i]? = some chat

/-! ## The invariant of the table -/

/-- Beside the counters: a group has one entry, and the last slot in use is active. -/
structure GroupTable.Valid (t : GroupTable) : Prop extends t.InBounds where
  distinct : ∀ i j chat chat', t.Holds i chat → t.Holds j chat' → chat.active = true →
    chat'.active = true → chat.groupnum = chat'.groupnum → i = j
  last : t.chatsIdx = 0 ∨ ∃ chat, t.Holds (t.chatsIdx - 1) chat ∧ chat.active = true
  spare : ∀ i, t.chatsIdx ≤ i → ∀ chat : GroupChat, t.gChats[i]? = some chat →
    chat.active = false

/-- No two active entries are for one group. -/
def GroupTable.Distinct (t : GroupTable) : Prop :=
  ∀ i j chat chat', t.Holds i chat → t.Holds j chat' → chat.active = true →
    chat'.active = true → chat.groupnum = chat'.groupnum → i = j

/-- The entry of a group and its slot. -/
def GroupTable.Located (t : GroupTable) (groupnum : UInt32) (i : ℕ) (chat : GroupChat) : Prop :=
  t.Holds i chat ∧ chat.isFor groupnum = true

section

variable {t : GroupTable} {groupnum other : UInt32} {i j : ℕ} {chat chat' : GroupChat}

theorem GroupChat.isFor_iff :
    chat.isFor groupnum = true ↔ chat.active = true ∧ chat.groupnum = groupnum := by
  simp [GroupChat.isFor]

theorem GroupTable.lacks_iff :
    t.Lacks groupnum ↔ ∀ i chat, ¬ t.Located groupnum i chat := by
  constructor
  · rintro hlacks i chat ⟨hholds, hfor⟩
    rw [hlacks i chat hholds] at hfor
    cases hfor
  · intro hnone i chat hholds
    rw [← Bool.not_eq_true]
    exact fun hfor => hnone i chat ⟨hholds, hfor⟩

theorem GroupTable.empty_valid : GroupTable.empty.Valid where
  toInBounds := GroupTable.empty_inBounds
  distinct := by simp [GroupTable.Holds, GroupTable.live, GroupTable.empty]
  last := .inl rfl
  spare := by simp [GroupTable.empty]

theorem GroupTable.Distinct.located_inj (ht : t.Distinct) (hi : t.Located groupnum i chat)
    (hj : t.Located groupnum j chat') : i = j ∧ chat = chat' := by
  obtain ⟨hactive, hnumber⟩ := GroupChat.isFor_iff.mp hi.2
  obtain ⟨hactive', hnumber'⟩ := GroupChat.isFor_iff.mp hj.2
  obtain rfl := ht i j chat chat' hi.1 hj.1 hactive hactive' (hnumber.trans hnumber'.symm)
  exact ⟨rfl, Option.some.inj (hi.1.symm.trans hj.1)⟩

theorem GroupTable.Valid.located_inj (ht : t.Valid) (hi : t.Located groupnum i chat)
    (hj : t.Located groupnum j chat') : i = j ∧ chat = chat' :=
  GroupTable.Distinct.located_inj ht.distinct hi hj

theorem GroupTable.Valid.index_eq_iff (ht : t.Valid) :
    groupIndex t groupnum = some (i : ℤ) ↔ ∃ chat, t.Located groupnum i chat := by
  rcases ht.index_cases groupnum with ⟨hindex, hlacks⟩ | ⟨found, chat, hindex, hchat, hfor⟩
  · rw [hindex]
    constructor
    · intro hsame
      have hvalue := Option.some.inj hsame
      omega
    · rintro ⟨chat, hchat, hfor⟩
      rw [hlacks i chat hchat] at hfor
      cases hfor
  · rw [hindex]
    constructor
    · intro hsame
      obtain rfl : found = i := Int.ofNat_inj.mp (Option.some.inj hsame)
      exact ⟨chat, hchat, hfor⟩
    · rintro ⟨chat', hlocated⟩
      rw [(ht.located_inj ⟨hchat, hfor⟩ hlocated).1]

theorem GroupTable.InBounds.index_eq_neg_iff (ht : t.InBounds) :
    groupIndex t groupnum = some (-1) ↔ t.Lacks groupnum := by
  rcases ht.index_cases groupnum with ⟨hindex, hlacks⟩ | ⟨found, chat, hindex, hchat, hfor⟩
  · exact iff_of_true hindex hlacks
  · rw [hindex]
    constructor
    · intro hsame
      have hvalue := Option.some.inj hsame
      omega
    · intro hlacks
      rw [hlacks found chat hchat] at hfor
      cases hfor

/-! ## Adding -/

theorem GroupTable.InBounds.located_filled (ht : t.InBounds) {new : GroupChat}
    (hi : i ≤ t.chatsIdx) (hfree : ∀ chat, t.Holds i chat → chat.active = false)
    (hnew : new.isFor groupnum = true) :
    (t.filled i new).Located other j chat ↔
      (other = groupnum ∧ j = i ∧ chat = new) ∨ t.Located other j chat := by
  obtain ⟨hactive, hnumber⟩ := GroupChat.isFor_iff.mp hnew
  rw [GroupTable.Located, GroupTable.Located, ht.holds_filled hi]
  constructor
  · rintro ⟨⟨rfl, rfl⟩ | ⟨-, hchat⟩, hfor⟩
    · exact .inl ⟨(GroupChat.isFor_iff.mp hfor).2.symm.trans hnumber, rfl, rfl⟩
    · exact .inr ⟨hchat, hfor⟩
  · rintro (⟨rfl, rfl, rfl⟩ | ⟨hchat, hfor⟩)
    · exact ⟨.inl ⟨rfl, rfl⟩, hnew⟩
    · refine ⟨.inr ⟨?_, hchat⟩, hfor⟩
      rintro rfl
      have hinactive := hfree chat hchat
      rw [(GroupChat.isFor_iff.mp hfor).1] at hinactive
      cases hinactive

theorem GroupTable.Valid.filled (ht : t.Valid) {new : GroupChat} (hi : i ≤ t.chatsIdx)
    (hfree : ∀ chat, t.Holds i chat → chat.active = false)
    (hnew : new.isFor groupnum = true) (hlacks : t.Lacks groupnum) : (t.filled i new).Valid := by
  have hactive := (GroupChat.isFor_iff.mp hnew).1
  have hbounds := ht.toInBounds.filled i new
  refine ⟨hbounds, ?_, ?_, ?_⟩
  · intro j k chat chat' hj hk hchat hchat' hsame
    have hlocated : ∀ {j chat}, (t.filled i new).Holds j chat → chat.active = true →
        (chat.groupnum = groupnum ∧ j = i ∧ chat = new) ∨ t.Located chat.groupnum j chat := by
      intro j chat hholds hchat
      exact (ht.located_filled hi hfree hnew).mp ⟨hholds, GroupChat.isFor_iff.mpr ⟨hchat, rfl⟩⟩
    have hnone := GroupTable.lacks_iff.mp hlacks
    rcases hlocated hj hchat with ⟨hnumber, rfl, -⟩ | hold
    · rcases hlocated hk hchat' with ⟨-, rfl, -⟩ | hold'
      · rfl
      · rw [← hsame, hnumber] at hold'
        exact (hnone _ _ hold').elim
    · rcases hlocated hk hchat' with ⟨hnumber, -⟩ | hold'
      · rw [hsame, hnumber] at hold
        exact (hnone _ _ hold).elim
      · rw [← hsame] at hold'
        exact (ht.located_inj hold hold').1
  · refine .inr ?_
    by_cases hbehind : t.chatsIdx = i
    · refine ⟨new, ?_, hactive⟩
      have hidx : (t.filled i new).chatsIdx = i + 1 := by
        rw [GroupTable.filled, if_pos hbehind, hbehind]
      rw [hidx, ht.holds_filled hi]
      exact .inl ⟨rfl, rfl⟩
    · have hidx : (t.filled i new).chatsIdx = t.chatsIdx := by
        rw [GroupTable.filled, if_neg hbehind]
      rw [hidx]
      by_cases hsame : t.chatsIdx - 1 = i
      · exact ⟨new, (ht.holds_filled hi).mpr (.inl ⟨hsame, rfl⟩), hactive⟩
      · rcases ht.last with hzero | ⟨chat, hchat, hlast⟩
        · omega
        · exact ⟨chat, (ht.holds_filled hi).mpr (.inr ⟨hsame, hchat⟩), hlast⟩
  · intro j hj chat hchat
    have hlength := ht.live_length
    have hbelow := (List.getElem?_eq_some_iff.mp hchat).1
    simp only [GroupTable.filled] at hj hchat hbelow
    rw [List.length_set, List.length_append, hlength, List.length_singleton] at hbelow
    split at hj
    · omega
    · obtain rfl : j = t.chatsIdx := by omega
      rw [List.getElem?_set_ne (by omega), ← hlength, List.getElem?_concat_length] at hchat
      cases hchat
      rfl

/-! ## Leaving -/

theorem GroupTable.Cleared.of_active {chats : List GroupChat} (hchats : t.Cleared groupnum chats)
    (hchat : chats[j]? = some chat) (hactive : chat.active = true) :
    t.gChats[j]? = some chat := by
  rcases hchats with ⟨rfl, -⟩ | ⟨i, chat', rfl, -⟩
  · exact hchat
  · rw [List.getElem?_set] at hchat
    split at hchat
    · split at hchat
      · cases hchat
        cases hactive
      · cases hchat
    · exact hchat

theorem GroupTable.Cleared.kept (ht : t.InBounds) {chats : List GroupChat}
    (hchats : t.Cleared groupnum chats) (hholds : t.Holds j chat)
    (hother : chat.isFor groupnum = false) : chats[j]? = some chat := by
  have hchat := (ht.holds_iff.mp hholds).2
  rcases hchats with ⟨rfl, -⟩ | ⟨i, chat', rfl, hcleared, hfor⟩
  · exact hchat
  · rw [List.getElem?_set_ne]
    · exact hchat
    · rintro rfl
      have hsame : chat' = chat := Option.some.inj (hcleared.symm.trans hholds)
      rw [hsame, hother] at hfor
      cases hfor

/-- A group has one entry, so that clearing one clears all. -/
theorem GroupTable.Distinct.cleared_gone (hdistinct : t.Distinct) (ht : t.InBounds)
    {chats : List GroupChat} (hchats : t.Cleared groupnum chats) (hj : j < t.chatsIdx)
    (hchat : chats[j]? = some chat) : chat.isFor groupnum = false := by
  rw [← Bool.not_eq_true]
  intro hfor
  have hactive := (GroupChat.isFor_iff.mp hfor).1
  have hholds := ht.holds_iff.mpr ⟨hj, hchats.of_active hchat hactive⟩
  rcases hchats with ⟨-, hlacks⟩ | ⟨i, chat', rfl, hcleared, hfor'⟩
  · rw [hlacks j chat hholds] at hfor
    cases hfor
  · obtain ⟨rfl, -⟩ := hdistinct.located_inj ⟨hcleared, hfor'⟩ ⟨hholds, hfor⟩
    have hi : i < t.gChats.length := Nat.lt_of_lt_of_le hj ht.used
    rw [List.getElem?_set_self hi] at hchat
    cases hchat
    cases hactive

section

variable {chats : List GroupChat} {m : ℕ}

theorem GroupTable.Distinct.located_left (hdistinct : t.Distinct) (ht : t.InBounds)
    (hchats : t.Cleared groupnum chats) (hm : m ≤ t.chatsIdx)
    (hcut : ∀ j, m ≤ j → j < t.chatsIdx → ∀ chat : GroupChat, chats[j]? = some chat →
      chat.active = false) :
    GroupTable.Located ⟨chats.take m, m, m⟩ other j chat ↔
      other ≠ groupnum ∧ t.Located other j chat := by
  rw [GroupTable.Located, GroupTable.Located, (ht.left hchats hm).holds_iff]
  dsimp only
  constructor
  · rintro ⟨⟨hj, hchat⟩, hfor⟩
    rw [List.getElem?_take_of_lt hj] at hchat
    have hactive := (GroupChat.isFor_iff.mp hfor).1
    have hlt : j < t.chatsIdx := Nat.lt_of_lt_of_le hj hm
    refine ⟨?_, ht.holds_iff.mpr ⟨hlt, hchats.of_active hchat hactive⟩, hfor⟩
    rintro rfl
    rw [hdistinct.cleared_gone ht hchats hlt hchat] at hfor
    cases hfor
  · rintro ⟨hne, hholds, hfor⟩
    obtain ⟨hactive, hnumber⟩ := GroupChat.isFor_iff.mp hfor
    have hother : chat.isFor groupnum = false := by
      rw [← Bool.not_eq_true, GroupChat.isFor_iff, hnumber]
      exact fun hsame => hne hsame.2
    have hchat := hchats.kept ht hholds hother
    have hj : j < m := by
      by_contra hcutOff
      have hinactive := hcut j (not_lt.mp hcutOff) (ht.holds_iff.mp hholds).1 chat hchat
      rw [hactive] at hinactive
      cases hinactive
    rw [List.getElem?_take_of_lt hj]
    exact ⟨⟨hj, hchat⟩, hfor⟩

/-- Entries that stay are still for different groups. -/
theorem GroupTable.Distinct.left (hdistinct : t.Distinct) (ht : t.InBounds)
    (hchats : t.Cleared groupnum chats) (hm : m ≤ t.chatsIdx)
    (hcut : ∀ j, m ≤ j → j < t.chatsIdx → ∀ chat : GroupChat, chats[j]? = some chat →
      chat.active = false) :
    GroupTable.Distinct ⟨chats.take m, m, m⟩ := by
  intro i j chat chat' hi hj hactive hactive' hsame
  have hold := ((hdistinct.located_left ht hchats hm hcut).mp
    ⟨hi, GroupChat.isFor_iff.mpr ⟨hactive, rfl⟩⟩).2
  have hold' := ((hdistinct.located_left ht hchats hm hcut).mp
    ⟨hj, GroupChat.isFor_iff.mpr ⟨hactive', hsame.symm⟩⟩).2
  exact (hdistinct.located_inj hold hold').1

theorem GroupTable.Valid.located_left (ht : t.Valid) (hchats : t.Cleared groupnum chats)
    (hm : m ≤ t.chatsIdx)
    (hcut : ∀ j, m ≤ j → j < t.chatsIdx → ∀ chat : GroupChat, chats[j]? = some chat →
      chat.active = false) :
    GroupTable.Located ⟨chats.take m, m, m⟩ other j chat ↔
      other ≠ groupnum ∧ t.Located other j chat :=
  GroupTable.Distinct.located_left ht.distinct ht.toInBounds hchats hm hcut

theorem GroupTable.Valid.left (ht : t.Valid) (hchats : t.Cleared groupnum chats)
    (hm : m ≤ t.chatsIdx)
    (hlast : m = 0 ∨ ∃ chat : GroupChat, chats[m - 1]? = some chat ∧ chat.active = true)
    (hcut : ∀ j, m ≤ j → j < t.chatsIdx → ∀ chat : GroupChat, chats[j]? = some chat →
      chat.active = false) :
    GroupTable.Valid ⟨chats.take m, m, m⟩ := by
  have hbounds := ht.toInBounds.left hchats hm
  refine ⟨hbounds, GroupTable.Distinct.left ht.distinct ht.toInBounds hchats hm hcut, ?_, ?_⟩
  · rcases hlast with hzero | ⟨chat, hchat, hactive⟩
    · exact .inl hzero
    · by_cases hzero : m = 0
      · exact .inl hzero
      · have hlt : m - 1 < m := by omega
        refine .inr ⟨chat, hbounds.holds_iff.mpr ⟨hlt, ?_⟩, hactive⟩
        rw [List.getElem?_take_of_lt hlt]
        exact hchat
  · intro j hj chat hchat
    have hbelow := (List.getElem?_eq_some_iff.mp hchat).1
    rw [List.length_take] at hbelow
    dsimp only at hj
    omega

end

end

/-! ## The table as the bot has it -/

section

variable {g : Groups} {groupnum other : UInt32} {j : ℕ} {chat : GroupChat}

theorem Groups.located_of_index {idx : Fin g.table.gChats.length}
    (hindex : g.index groupnum = some idx) : g.table.Located groupnum idx (g.chat idx) := by
  rcases g.index_cases groupnum with ⟨hnone, -⟩ | ⟨i, hi, hlocated⟩
  · rw [hnone] at hindex
    cases hindex
  · obtain rfl : i = idx := Option.some.inj (hi.symm.trans hindex)
    exact hlocated

theorem Groups.add_located (hg : g.table.Valid) (hlacks : g.table.Lacks groupnum)
    (fresh : ℕ → GroupChat) (type : UInt8) (password : Option CStr) :
    maxNumGroups ≤ g.table.chatsIdx ∧ g.add fresh groupnum type password = (-1, g) ∨
      g.table.chatsIdx < maxNumGroups ∧ (g.add fresh groupnum type password).1 = 0 ∧
        (g.add fresh groupnum type password).2.table.Valid ∧
        ∃ i, ∀ other j chat, (g.add fresh groupnum type password).2.table.Located other j chat ↔
          (other = groupnum ∧ j = i ∧ chat = .added groupnum type password) ∨
            g.table.Located other j chat := by
  rcases g.add_cases fresh groupnum type password with
    hfull | ⟨hroom, hcode, i, hi, hfree, hfilled⟩
  · exact .inl hfull
  · have hnew : (GroupChat.added groupnum type password).isFor groupnum = true :=
      GroupChat.isFor_iff.mpr ⟨rfl, rfl⟩
    rw [hfilled]
    exact .inr ⟨hroom, hcode, hg.filled hi hfree hnew hlacks, i,
      fun other j chat => hg.located_filled hi hfree hnew⟩

theorem Groups.leave_located (hg : g.table.Valid) (fresh : ℕ → GroupChat) (groupnum : UInt32) :
    (g.leave fresh groupnum).table.Valid ∧
      ∀ other j chat, (g.leave fresh groupnum).table.Located other j chat ↔
        other ≠ groupnum ∧ g.table.Located other j chat := by
  obtain ⟨chats, m, hleave, hchats, hm, hlast, hcut⟩ := hg.leave_cases fresh groupnum
  rw [g.leave_eq, Option.some.injEq] at hleave
  rw [hleave]
  exact ⟨hg.left hchats hm hlast hcut, fun other j chat => hg.located_left hchats hm hcut⟩

variable {idx : Fin g.table.gChats.length} {f : GroupChat → GroupChat}

/-- Writing that leaves alone which group an entry is for. -/
theorem Groups.located_modify
    (hf : ∀ chat, (f chat).active = chat.active ∧ (f chat).groupnum = chat.groupnum) :
    (g.modify idx f).table.Located groupnum j chat ↔
      ∃ old, g.table.Located groupnum j old ∧ chat = if j = idx then f old else old := by
  have hfor : ∀ old, (if j = idx then f old else old).isFor groupnum = old.isFor groupnum := by
    intro old
    split
    · rw [GroupChat.isFor, (hf old).1, (hf old).2]
      rfl
    · rfl
  simp only [GroupTable.Located, g.holds_modify]
  constructor
  · rintro ⟨⟨old, hold, rfl⟩, hnew⟩
    rw [hfor] at hnew
    exact ⟨old, ⟨hold, hnew⟩, rfl⟩
  · rintro ⟨old, ⟨hold, hnew⟩, rfl⟩
    refine ⟨⟨old, hold, rfl⟩, ?_⟩
    rw [hfor]
    exact hnew

theorem Groups.valid_modify (hg : g.table.Valid)
    (hf : ∀ chat, (f chat).active = chat.active ∧ (f chat).groupnum = chat.groupnum) :
    (g.modify idx f).table.Valid := by
  have hkept : ∀ {j : ℕ} (old : GroupChat), (if j = idx then f old else old).active = old.active ∧
      (if j = idx then f old else old).groupnum = old.groupnum := by
    intro j old
    split
    · exact hf old
    · exact ⟨rfl, rfl⟩
  refine ⟨(g.modify idx f).inBounds, ?_, ?_, ?_⟩
  · intro i j chat chat' hi hj hactive hactive' hsame
    obtain ⟨old, hold, rfl⟩ := (g.holds_modify idx f).mp hi
    obtain ⟨old', hold', rfl⟩ := (g.holds_modify idx f).mp hj
    rw [(hkept old).1] at hactive
    rw [(hkept old').1] at hactive'
    rw [(hkept old).2, (hkept old').2] at hsame
    exact hg.distinct i j old old' hold hold' hactive hactive' hsame
  · rcases hg.last with hzero | ⟨chat, hchat, hactive⟩
    · exact .inl hzero
    · refine .inr ⟨_, (g.holds_modify idx f).mpr ⟨chat, hchat, rfl⟩, ?_⟩
      rw [(hkept chat).1]
      exact hactive
  · intro i hi chat hchat
    simp only [Groups.modify, List.getElem?_set, idx.isLt, if_true] at hchat
    split at hchat
    · next hsame =>
        subst hsame
        cases hchat
        rw [(hf _).1]
        exact hg.spare idx hi (g.chat idx) (List.getElem?_eq_getElem idx.isLt)
    · exact hg.spare i hi chat hchat

end

/-! ## Runs -/

/-- The invariant of a run: the table is valid and has an entry for every group that has
been added and not been left. -/
structure GroupRun.Inv (s : GroupRun) : Prop where
  valid : s.table.Valid
  entered : ∀ groupnum, (∃ i chat, s.table.Located groupnum i chat) ↔
    (s.added groupnum).isSome
  contents : ∀ groupnum i chat entry, s.table.Located groupnum i chat →
    s.added groupnum = some entry → chat = .added groupnum entry.type entry.password ∧
      ∀ text ∈ entry.password, text.length < maxPasswordSize

section

variable {s : GroupRun}

theorem GroupRun.start_inv : GroupRun.start.Inv where
  valid := GroupTable.empty_valid
  entered := by
    intro groupnum
    simp [GroupRun.start, GroupTable.Located, GroupTable.Holds, GroupTable.live,
      GroupTable.empty]
  contents := by
    rintro groupnum i chat entry - hentry
    cases hentry

theorem GroupRun.keeps_of_located {s' : GroupRun} {op : GroupOp} (hs : s.table.Valid)
    (hs' : s'.table.Valid)
    (hlocated : ∀ groupnum ≠ op.groupnum, ∀ i chat, s.table.Located groupnum i chat →
      s'.table.Located groupnum i chat) : s.Keeps op s' := by
  intro groupnum hother i chat hindex hchat
  obtain ⟨chat', hfound⟩ := hs.index_eq_iff.mp hindex
  have hsame := (hs.holds_iff.mp hfound.1).2.symm.trans hchat
  cases hsame
  have hlater := hlocated groupnum hother i chat hfound
  exact ⟨hs'.index_eq_iff.mpr ⟨chat, hlater⟩, (hs'.holds_iff.mp hlater.1).2⟩

theorem GroupRun.Inv.add (hs : s.Inv) {groupnum : UInt32} {password : Option CStr}
    (type : UInt8) (fresh : ℕ → GroupChat)
    (hallowed : (GroupOp.add groupnum type password fresh).Allowed s) :
    ∃ s', s.step (.add groupnum type password fresh) = some s' ∧ s'.Inv ∧
      s.Keeps (.add groupnum type password fresh) s' := by
  obtain ⟨habsent, hfits⟩ := hallowed
  have hlacks := hs.valid.index_eq_neg_iff.mp habsent
  rw [GroupRun.step]
  rcases hs.valid.add_cases fresh groupnum type password with
    ⟨-, hresult⟩ | ⟨-, i, hi, hfree, -, hresult⟩
  · rw [hresult]
    exact ⟨s, rfl, hs, fun other _ i chat hindex hchat => ⟨hindex, hchat⟩⟩
  · rw [hresult]
    have hnew : (GroupChat.added groupnum type password).isFor groupnum = true := by
      simp [GroupChat.isFor, GroupChat.added]
    have hvalid := hs.valid.filled hi hfree hnew hlacks
    have hlocated : ∀ other j chat, (s.table.filled i (.added groupnum type password)).Located
        other j chat ↔ (other = groupnum ∧ j = i ∧ chat = .added groupnum type password) ∨
          s.table.Located other j chat :=
      fun other j chat => hs.valid.located_filled hi hfree hnew
    have hnone := GroupTable.lacks_iff.mp hlacks
    refine ⟨_, rfl, ⟨hvalid, ?_, ?_⟩, ?_⟩
    · intro other
      simp only [hlocated, if_true]
      by_cases hsame : other = groupnum
      · subst hsame
        rw [Function.update_self]
        exact iff_of_true ⟨i, _, .inl ⟨rfl, rfl, rfl⟩⟩ rfl
      · rw [Function.update_of_ne hsame, ← hs.entered other]
        simp only [hsame, false_and, false_or]
    · intro other j chat entry hfound hentry
      simp only [hlocated] at hfound
      simp only [if_true] at hentry
      rcases hfound with ⟨rfl, -, rfl⟩ | hold
      · rw [Function.update_self] at hentry
        cases hentry
        exact ⟨rfl, hfits⟩
      · have hne : other ≠ groupnum := by
          rintro rfl
          exact hnone j chat hold
        rw [Function.update_of_ne hne] at hentry
        exact hs.contents other j chat entry hold hentry
    · refine GroupRun.keeps_of_located hs.valid hvalid ?_
      intro other _ j chat hold
      exact (hlocated other j chat).mpr (.inr hold)

theorem GroupRun.Inv.leave (hs : s.Inv) (groupnum : UInt32) (fresh : ℕ → GroupChat) :
    ∃ s', s.step (.leave groupnum fresh) = some s' ∧ s'.Inv ∧
      s.Keeps (.leave groupnum fresh) s' := by
  obtain ⟨chats, m, hresult, hchats, hm, hlast, hcut⟩ := hs.valid.leave_cases fresh groupnum
  have hvalid := hs.valid.left hchats hm hlast hcut
  have hlocated : ∀ other j chat, GroupTable.Located ⟨chats.take m, m, m⟩ other j chat ↔
      other ≠ groupnum ∧ s.table.Located other j chat :=
    fun other j chat => hs.valid.located_left hchats hm hcut
  rw [GroupRun.step, hresult]
  refine ⟨_, rfl, ⟨hvalid, ?_, ?_⟩, ?_⟩
  · intro other
    simp only [hlocated]
    by_cases hsame : other = groupnum
    · subst hsame
      rw [Function.update_self]
      simp
    · rw [Function.update_of_ne hsame, ← hs.entered other]
      simp only [ne_eq, hsame, not_false_eq_true, true_and]
  · intro other j chat entry hfound hentry
    obtain ⟨hne, hold⟩ := (hlocated other j chat).mp hfound
    simp only [Function.update_of_ne hne] at hentry
    exact hs.contents other j chat entry hold hentry
  · refine GroupRun.keeps_of_located hs.valid hvalid ?_
    intro other hne j chat hold
    exact (hlocated other j chat).mpr ⟨hne, hold⟩

theorem GroupRun.Inv.step (hs : s.Inv) {op : GroupOp} (hallowed : op.Allowed s) :
    ∃ s', s.step op = some s' ∧ s'.Inv ∧ s.Keeps op s' := by
  cases op with
  | add groupnum type password fresh => exact hs.add type fresh hallowed
  | leave groupnum fresh => exact hs.leave groupnum fresh

theorem GroupRun.Inv.after (hs : s.Inv) {ops : List GroupOp} (hallowed : s.AllowedAlong ops) :
    ∃ s', s.after ops = some s' ∧ s'.Inv := by
  induction ops generalizing s with
  | nil => exact ⟨s, rfl, hs⟩
  | cons op ops ih =>
      obtain ⟨s', hstep, hs', -⟩ := hs.step hallowed.1
      obtain ⟨s'', hafter, hs''⟩ := ih hs' (hallowed.2 s' hstep)
      refine ⟨s'', ?_, hs''⟩
      rw [GroupRun.after, List.foldlM_cons, hstep]
      exact hafter

theorem GroupChat.added_password {groupnum : UInt32} {type : UInt8} {password : Option CStr}
    (hfits : ∀ text ∈ password, text.length < maxPasswordSize) :
    (GroupChat.added groupnum type password).password = password.getD .empty := by
  cases password with
  | none => rfl
  | some text =>
      have hwhole := snprintf_of_length_lt (hfits text rfl)
      simp only [GroupChat.added, hwhole, CStr.ofBuffer_val, Option.getD_some]

theorem GroupRun.Inv.refines (hs : s.Inv) : s.Refines where
  indexed := by
    intro groupnum
    rcases hs.valid.index_cases groupnum with ⟨hindex, hlacks⟩ | ⟨i, chat, hindex, hchat, hfor⟩
    · refine ⟨-1, hindex, iff_of_false (fun hne => hne rfl) ?_⟩
      rw [← hs.entered groupnum]
      rintro ⟨i, chat, hholds, hfor⟩
      rw [hlacks i chat hholds] at hfor
      cases hfor
    · refine ⟨i, hindex, iff_of_true (by omega) ?_⟩
      rw [← hs.entered groupnum]
      exact ⟨i, chat, hchat, hfor⟩
  holds := by
    intro groupnum i hindex
    obtain ⟨chat, hfound⟩ := hs.valid.index_eq_iff.mp hindex
    have hsome := (hs.entered groupnum).mp ⟨i, chat, hfound⟩
    obtain ⟨entry, hentry⟩ := Option.isSome_iff_exists.mp hsome
    obtain ⟨rfl, hfits⟩ := hs.contents groupnum i chat entry hfound hentry
    exact ⟨_, entry, (hs.valid.holds_iff.mp hfound.1).2, hentry, rfl, rfl,
      GroupChat.added_password hfits⟩
  last := by
    rcases hs.valid.last with hzero | ⟨chat, hchat, hactive⟩
    · refine .inl ⟨hzero, ?_⟩
      intro chat hmem
      obtain ⟨i, hi⟩ := List.mem_iff_getElem?.mp hmem
      exact hs.valid.spare i (by omega) chat hi
    · obtain ⟨hlt, hslot⟩ := hs.valid.holds_iff.mp hchat
      refine .inr ⟨s.table.chatsIdx - 1, chat, by omega, hslot, hactive, ?_⟩
      intro j hj
      exact hs.valid.spare j (by omega)

end

/-- The group table is a finite map: whatever is added and left, every access stays
inside the storage, a group is found exactly when it has been added and not been left,
with what it was added with, and no call touches the entries of other groups. -/
theorem groupTable_finiteMap (ops : List GroupOp) (hallowed : GroupRun.start.AllowedAlong ops) :
    ∃ s, GroupRun.start.after ops = some s ∧ s.Refines ∧
      ∀ op : GroupOp, op.Allowed s → ∃ s', s.step op = some s' ∧ s.Keeps op s' := by
  obtain ⟨s, hafter, hs⟩ := GroupRun.start_inv.after hallowed
  refine ⟨s, hafter, hs.refines, ?_⟩
  intro op hop
  obtain ⟨s', hstep, -, hkeeps⟩ := hs.step hop
  exact ⟨s', hstep, hkeeps⟩

/-- Two groups are added and the first is left again. -/
theorem groupTable_finiteMap_hole :
    let fresh : ℕ → GroupChat := fun _ => .zero
    ∃ s, GroupRun.start.after [.add 10 0 none fresh, .add 20 1 none fresh, .leave 10 fresh] =
        some s ∧ s.Refines ∧
      ∀ op : GroupOp, op.Allowed s → ∃ s', s.step op = some s' ∧ s.Keeps op s' := by
  intro fresh
  refine groupTable_finiteMap _ ⟨⟨rfl, by simp⟩, ?_⟩
  rintro s ⟨⟩
  refine ⟨⟨rfl, by simp⟩, ?_⟩
  rintro s ⟨⟩
  exact ⟨trivial, fun _ _ => trivial⟩

end ToxRelayer
