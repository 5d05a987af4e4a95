import ToxRelayer.CString
import ToxRelayer.SlotStorage

/-!
# The table of the group chats

`groupchats.c` over storage whose accesses fail outside of it.  What `realloc` leaves
in new slots is an argument; it does not fail, since the program ends when it does.
-/

namespace ToxRelayer

open CString SlotStorage

def maxNumGroups : ℕ := 256
def maxPasswordSize : ℕ := 64

structure GroupChat where
  groupnum : UInt32
  active : Bool
  hasPass : Bool
  type : UInt8
  title : CStr
  titleLen : ℕ
  password : CStr
  deriving DecidableEq

/-- What `memset` makes of a slot. -/
def GroupChat.zero : GroupChat := ⟨0, false, false, 0, .empty, 0, .empty⟩

/-- `gChats` are the slots that are allocated; `chats_idx` is never negative. -/
structure GroupTable where
  gChats : List GroupChat
  gAllocated : ℕ
  chatsIdx : ℕ

def GroupTable.empty : GroupTable := ⟨[], 0, 0⟩

/-- The entry of a group with this number. -/
def GroupChat.isFor (groupnum : UInt32) (chat : GroupChat) : Bool :=
  chat.active && chat.groupnum = groupnum

def reallocGroupchats (fresh : ℕ → GroupChat) (t : GroupTable) (n : ℕ) : GroupTable :=
  if n = 0 then { t with gChats := [], gAllocated := 0 }
  else { t with
    gChats := resize t.gChats .zero fresh t.gAllocated n
    gAllocated := n }

/-- The entry `group_add` writes. -/
def GroupChat.added (groupnum : UInt32) (type : UInt8) (password : Option CStr) : GroupChat where
  groupnum := groupnum
  active := true
  hasPass := password.isSome
  type := type
  title := .empty
  titleLen := 0
  password :=
    match password with
    | none => .empty
    | some password => .ofBuffer (snprintf maxPasswordSize password.val)

/-- The code and the table; `none` when a slot outside the storage is accessed. -/
def groupAdd (fresh : ℕ → GroupChat) (t : GroupTable) (groupnum : UInt32) (type : UInt8)
    (password : Option CStr) : Option (ℤ × GroupTable) :=
  if maxNumGroups ≤ t.chatsIdx then some (-1, t)
  else do
    -- there is a slot now, so the storage is not `NULL`
    let grown := reallocGroupchats fresh t (t.chatsIdx + 1)
    let cleared ← store grown.gChats t.chatsIdx .zero
    match ← scan (fun chat => !chat.active) cleared (min (t.chatsIdx + 1) maxNumGroups) 0 with
    | none => some (-1, { grown with gChats := cleared })
    | some i =>
        let chats ← store cleared i (.added groupnum type password)
        some (0, { grown with
          gChats := chats
          chatsIdx := if t.chatsIdx = i then t.chatsIdx + 1 else t.chatsIdx })

def groupLeave (fresh : ℕ → GroupChat) (t : GroupTable) (groupnum : UInt32) :
    Option GroupTable := do
  let chats ←
    match ← scan (GroupChat.isFor groupnum) t.gChats t.chatsIdx 0 with
    | none => some t.gChats
    | some i => store t.gChats i .zero
  let left ← trim (fun chat => chat.active) chats t.chatsIdx
  some (reallocGroupchats fresh { t with gChats := chats, chatsIdx := left } left)

def groupIndex (t : GroupTable) (groupnum : UInt32) : Option ℤ := do
  match ← scan (GroupChat.isFor groupnum) t.gChats t.chatsIdx 0 with
  | none => some (-1)
  | some i => some i

/-! ## Tables whose accesses stay inside -/

/-- The counters tell the truth about the storage. -/
structure GroupTable.InBounds (t : GroupTable) : Prop where
  used : t.chatsIdx ≤ t.gChats.length
  allocated : t.gAllocated = t.gChats.length

theorem GroupTable.empty_inBounds : GroupTable.empty.InBounds := ⟨le_rfl, rfl⟩

/-- The slots in use. -/
def GroupTable.live (t : GroupTable) : List GroupChat := t.gChats.take t.chatsIdx

/-- A slot in use and what it holds. -/
def GroupTable.Holds (t : GroupTable) (i : ℕ) (chat : GroupChat) : Prop := t.live[i]? = some chat

/-- No slot in use has an entry of the group. -/
def GroupTable.Lacks (t : GroupTable) (groupnum : UInt32) : Prop :=
  ∀ i chat, t.Holds i chat → chat.isFor groupnum = false

section

variable {t : GroupTable} {i j : ℕ} {chat : GroupChat}

theorem GroupTable.InBounds.live_length (ht : t.InBounds) : t.live.length = t.chatsIdx := by
  rw [GroupTable.live, List.length_take, min_eq_left ht.used]

theorem GroupTable.InBounds.holds_iff (ht : t.InBounds) :
    t.Holds i chat ↔ i < t.chatsIdx ∧ t.gChats[i]? = some chat := by
  rw [GroupTable.Holds]
  constructor
  · intro hchat
    have hi := (List.getElem?_eq_some_iff.mp hchat).1
    rw [ht.live_length] at hi
    rw [GroupTable.live, List.getElem?_take_of_lt hi] at hchat
    exact ⟨hi, hchat⟩
  · rintro ⟨hi, hchat⟩
    rw [GroupTable.live, List.getElem?_take_of_lt hi]
    exact hchat

/-- Nothing of what the allocator adds is left. -/
theorem GroupTable.InBounds.realloc (ht : t.InBounds) (fresh : ℕ → GroupChat) (n : ℕ) :
    reallocGroupchats fresh t n =
      ⟨t.gChats.take n ++ List.replicate (n - t.gChats.length) GroupChat.zero,
        n, t.chatsIdx⟩ := by
  rw [reallocGroupchats]
  split
  · next hn =>
      subst hn
      simp
  · rw [ht.allocated, resize_eq]

/-! ### Adding -/

/-- The table after `group_add` has put an entry into a slot. -/
def GroupTable.filled (t : GroupTable) (i : ℕ) (chat : GroupChat) : GroupTable where
  gChats := (t.live ++ [GroupChat.zero]).set i chat
  gAllocated := t.chatsIdx + 1
  chatsIdx := if t.chatsIdx = i then t.chatsIdx + 1 else t.chatsIdx

theorem GroupTable.InBounds.filled (ht : t.InBounds) (i : ℕ) (chat : GroupChat) :
    (t.filled i chat).InBounds where
  used := by
    rw [GroupTable.filled, List.length_set, List.length_append, ht.live_length,
      List.length_singleton]
    dsimp only
    split <;> omega
  allocated := by
    rw [GroupTable.filled, List.length_set, List.length_append, ht.live_length,
      List.length_singleton]

theorem set_last {xs : List GroupChat} {n : ℕ} (hn : n ≤ xs.length) (chat : GroupChat) :
    (xs.take (n + 1) ++ List.replicate (n + 1 - xs.length) chat).set n chat =
      xs.take n ++ [chat] := by
  have hlength : (xs.take n).length = n := List.length_take_of_le hn
  have hset : ∀ other, (xs.take n ++ [other]).set n chat = xs.take n ++ [chat] := by
    intro other
    rw [List.set_append_right _ _ hlength.le, hlength, Nat.sub_self]
    rfl
  rcases Nat.lt_or_ge n xs.length with hlt | hge
  · rw [Nat.sub_eq_zero_of_le hlt, List.replicate_zero, List.append_nil,
      List.take_succ_eq_append_getElem hlt, hset]
  · obtain rfl : n = xs.length := le_antisymm hn hge
    rw [Nat.add_sub_cancel_left, List.take_of_length_le (Nat.le_succ _)]
    rw [List.take_length] at hset ⊢
    exact hset chat

/-- A full table is left alone; otherwise the entry goes into the first hole, or behind
the slots in use. -/
theorem GroupTable.InBounds.add_cases (ht : t.InBounds) (fresh : ℕ → GroupChat)
    (groupnum : UInt32) (type : UInt8) (password : Option CStr) :
    maxNumGroups ≤ t.chatsIdx ∧ groupAdd fresh t groupnum type password = some (-1, t) ∨
      t.chatsIdx < maxNumGroups ∧ ∃ i ≤ t.chatsIdx,
        (∀ chat, t.Holds i chat → chat.active = false) ∧
        (∀ j < i, ∀ chat, t.Holds j chat → chat.active = true) ∧
        groupAdd fresh t groupnum type password =
          some (0, t.filled i (.added groupnum type password)) := by
  rw [groupAdd]
  split
  · next hfull => exact .inl ⟨hfull, rfl⟩
  · next hroom =>
      rw [not_le] at hroom
      refine .inr ⟨hroom, ?_⟩
      have hlength := ht.live_length
      have hcleared : store (reallocGroupchats fresh t (t.chatsIdx + 1)).gChats t.chatsIdx .zero =
          some (t.live ++ [GroupChat.zero]) := by
        rw [ht.realloc, store_eq]
        · rw [set_last ht.used]
          rfl
        · rw [List.length_append, List.length_take, List.length_replicate]
          omega
      have hslots : (t.live ++ [GroupChat.zero]).length = t.chatsIdx + 1 := by
        rw [List.length_append, hlength, List.length_singleton]
      have hlast : (t.live ++ [GroupChat.zero])[t.chatsIdx]? = some .zero := by
        rw [← hlength, List.getElem?_concat_length]
      have hlive : ∀ j chat, t.Holds j chat →
          (t.live ++ [GroupChat.zero])[j]? = some chat := by
        intro j chat hchat
        rw [List.getElem?_append_left (List.getElem?_eq_some_iff.mp hchat).1]
        exact hchat
      simp only [hcleared, Option.bind_eq_bind, Option.bind_some]
      rw [min_eq_left (by omega)]
      rcases @scan_cases GroupChat (fun chat => !chat.active) (t.live ++ [GroupChat.zero])
          (t.chatsIdx + 1) 0 (by omega) with
        ⟨-, hnone⟩ | ⟨i, chat, hscan, -, hi, hchat, hfree, hbefore⟩
      · have hzero := hnone t.chatsIdx (Nat.zero_le _) (by omega) .zero hlast
        cases hzero
      · refine ⟨i, by omega, ?_, ?_, ?_⟩
        · intro chat' hchat'
          have hsame := (hlive i chat' hchat').symm.trans hchat
          cases hsame
          simpa using hfree
        · intro j hj chat' hchat'
          have hinactive := hbefore j (Nat.zero_le _) hj chat' (hlive j chat' hchat')
          simpa using hinactive
        · rw [hscan]
          simp only [Option.bind_some]
          rw [store_eq (by omega), ht.realloc]
          rfl

/-- The entry has replaced what was in the slot, or comes behind the slots in use. -/
theorem GroupTable.InBounds.holds_filled (ht : t.InBounds) {new : GroupChat}
    (hi : i ≤ t.chatsIdx) :
    (t.filled i new).Holds j chat ↔ j = i ∧ chat = new ∨ j ≠ i ∧ t.Holds j chat := by
  have hlength := ht.live_length
  have hslots : i < (t.live ++ [GroupChat.zero]).length := by
    rw [List.length_append, hlength, List.length_singleton]
    omega
  rw [(ht.filled i new).holds_iff, GroupTable.filled]
  dsimp only
  by_cases hj : j = i
  · subst hj
    rw [List.getElem?_set_self hslots]
    constructor
    · rintro ⟨-, hchat⟩
      exact .inl ⟨rfl, (Option.some.inj hchat).symm⟩
    · rintro (⟨-, rfl⟩ | ⟨hne, -⟩)
      · refine ⟨?_, rfl⟩
        split <;> omega
      · exact absurd rfl hne
  · rw [List.getElem?_set_ne (Ne.symm hj)]
    constructor
    · rintro ⟨hused, hchat⟩
      have hlt : j < t.chatsIdx := by
        split at hused <;> omega
      rw [List.getElem?_append_left (by omega)] at hchat
      exact .inr ⟨hj, hchat⟩
    · rintro (⟨hsame, -⟩ | ⟨-, hchat⟩)
      · exact absurd hsame hj
      · have hlt := (List.getElem?_eq_some_iff.mp hchat).1
        refine ⟨by split <;> omega, ?_⟩
        rw [List.getElem?_append_left hlt]
        exact hchat

/-! ### Leaving and looking up -/

/-- The loop that looks for a group ends at an entry of it, if there is one. -/
theorem GroupTable.InBounds.scan_isFor (ht : t.InBounds) (groupnum : UInt32) :
    scan (GroupChat.isFor groupnum) t.gChats t.chatsIdx 0 = some none ∧ t.Lacks groupnum ∨
      ∃ i chat, scan (GroupChat.isFor groupnum) t.gChats t.chatsIdx 0 = some (some i) ∧
        t.Holds i chat ∧ chat.isFor groupnum = true := by
  have hinside : 0 + t.chatsIdx ≤ t.gChats.length := by
    rw [Nat.zero_add]
    exact ht.used
  rcases @scan_cases GroupChat (GroupChat.isFor groupnum) t.gChats t.chatsIdx 0 hinside
    with ⟨hscan, hnone⟩ | ⟨i, chat, hscan, -, hi, hchat, hfor, -⟩
  · refine .inl ⟨hscan, ?_⟩
    intro i chat hholds
    obtain ⟨hi, hchat⟩ := ht.holds_iff.mp hholds
    exact hnone i (Nat.zero_le _) (by omega) chat hchat
  · exact .inr ⟨i, chat, hscan, ht.holds_iff.mpr ⟨by omega, hchat⟩, hfor⟩

theorem GroupTable.InBounds.index_cases (ht : t.InBounds) (groupnum : UInt32) :
    groupIndex t groupnum = some (-1) ∧ t.Lacks groupnum ∨
      ∃ (i : ℕ) (chat : GroupChat), groupIndex t groupnum = some (i : ℤ) ∧
        t.Holds i chat ∧ chat.isFor groupnum = true := by
  rw [groupIndex]
  rcases ht.scan_isFor groupnum with ⟨hscan, hnone⟩ | ⟨i, chat, hscan, hchat, hfor⟩
  · rw [hscan]
    exact .inl ⟨rfl, hnone⟩
  · rw [hscan]
    exact .inr ⟨i, chat, rfl, hchat, hfor⟩

/-- What `group_leave` makes of the slots before it cuts off the end: an entry of the
group is cleared, if it has one. -/
def GroupTable.Cleared (t : GroupTable) (groupnum : UInt32) (chats : List GroupChat) : Prop :=
  chats = t.gChats ∧ t.Lacks groupnum ∨
    ∃ i chat, chats = t.gChats.set i .zero ∧ t.Holds i chat ∧ chat.isFor groupnum = true

theorem GroupTable.Cleared.length_eq {groupnum : UInt32} {chats : List GroupChat}
    (hchats : t.Cleared groupnum chats) : chats.length = t.gChats.length := by
  rcases hchats with ⟨rfl, -⟩ | ⟨i, chat, rfl, -⟩
  · rfl
  · exact List.length_set

/-- The inactive slots at the end are cut off. -/
theorem GroupTable.InBounds.leave_cases (ht : t.InBounds) (fresh : ℕ → GroupChat)
    (groupnum : UInt32) :
    ∃ (chats : List GroupChat) (m : ℕ), groupLeave fresh t groupnum = some ⟨chats.take m, m, m⟩ ∧
      t.Cleared groupnum chats ∧ m ≤ t.chatsIdx ∧
      (m = 0 ∨ ∃ chat : GroupChat, chats[m - 1]? = some chat ∧ chat.active = true) ∧
      ∀ j, m ≤ j → j < t.chatsIdx → ∀ chat : GroupChat, chats[j]? = some chat →
        chat.active = false := by
  have hused := ht.used
  have hend : ∀ chats, t.Cleared groupnum chats → ∃ m ≤ t.chatsIdx, (do
        let left ← trim (fun chat : GroupChat => chat.active) chats t.chatsIdx
        some (reallocGroupchats fresh { t with gChats := chats, chatsIdx := left } left)) =
          some ⟨chats.take m, m, m⟩ ∧
      (m = 0 ∨ ∃ chat : GroupChat, chats[m - 1]? = some chat ∧ chat.active = true) ∧
      ∀ j, m ≤ j → j < t.chatsIdx → ∀ chat : GroupChat, chats[j]? = some chat →
        chat.active = false := by
    intro chats hchats
    have hlength := hchats.length_eq
    obtain ⟨m, hm, htrim, hlast, hcut⟩ :=
      @trim_spec GroupChat (fun chat => chat.active) chats t.chatsIdx (by omega)
    have hbounds : GroupTable.InBounds { t with gChats := chats, chatsIdx := m } :=
      ⟨le_trans hm (le_of_le_of_eq hused hlength.symm), ht.allocated.trans hlength.symm⟩
    refine ⟨m, hm, ?_, hlast, hcut⟩
    rw [htrim]
    simp only [Option.bind_eq_bind, Option.bind_some]
    rw [hbounds.realloc, Nat.sub_eq_zero_of_le hbounds.used, List.replicate_zero,
      List.append_nil]
  rw [groupLeave]
  rcases ht.scan_isFor groupnum with ⟨hscan, hnone⟩ | ⟨i, chat, hscan, hchat, hfor⟩
  · have hcleared : t.Cleared groupnum t.gChats := .inl ⟨rfl, hnone⟩
    obtain ⟨m, hm, hresult, hends⟩ := hend t.gChats hcleared
    rw [hscan]
    exact ⟨t.gChats, m, hresult, hcleared, hm, hends⟩
  · have hcleared : t.Cleared groupnum (t.gChats.set i .zero) :=
      .inr ⟨i, chat, rfl, hchat, hfor⟩
    have hi : i < t.gChats.length := Nat.lt_of_lt_of_le (ht.holds_iff.mp hchat).1 hused
    obtain ⟨m, hm, hresult, hends⟩ := hend _ hcleared
    rw [hscan]
    simp only [Option.bind_eq_bind, Option.bind_some, store_eq hi] at hresult ⊢
    exact ⟨_, m, hresult, hcleared, hm, hends⟩

theorem GroupTable.InBounds.left (ht : t.InBounds) {groupnum : UInt32} {chats : List GroupChat}
    {m : ℕ} (hchats : t.Cleared groupnum chats) (hm : m ≤ t.chatsIdx) :
    GroupTable.InBounds ⟨chats.take m, m, m⟩ := by
  have hlength : (chats.take m).length = m := by
    rw [List.length_take, min_eq_left]
    exact le_trans hm (le_of_le_of_eq ht.used hchats.length_eq.symm)
  exact ⟨hlength.ge, hlength.symm⟩

end

/-! ## The table as the bot has it -/

/-- With counters that tell the truth, so that no access fails. -/
@[ext] structure Groups where
  table : GroupTable
  inBounds : table.InBounds

def Groups.empty : Groups := ⟨.empty, GroupTable.empty_inBounds⟩

section

variable {t : GroupTable} (fresh : ℕ → GroupChat) (groupnum : UInt32)

theorem GroupTable.InBounds.added (ht : t.InBounds) (type : UInt8) (password : Option CStr)
    {result : Option (ℤ × GroupTable)} (hresult : groupAdd fresh t groupnum type password = result) :
    ∃ code table, result = some (code, table) ∧ table.InBounds := by
  rcases ht.add_cases fresh groupnum type password with ⟨-, hadd⟩ | ⟨-, i, -, -, -, hadd⟩
  · exact ⟨-1, t, hresult.symm.trans hadd, ht⟩
  · exact ⟨0, _, hresult.symm.trans hadd, ht.filled i _⟩

theorem GroupTable.InBounds.afterLeave (ht : t.InBounds) {result : Option GroupTable}
    (hresult : groupLeave fresh t groupnum = result) :
    ∃ table, result = some table ∧ table.InBounds := by
  obtain ⟨chats, m, hleave, hchats, hm, -⟩ := ht.leave_cases fresh groupnum
  exact ⟨_, hresult.symm.trans hleave, ht.left hchats hm⟩

theorem GroupTable.InBounds.index_lt (ht : t.InBounds) {i : ℕ}
    (hindex : groupIndex t groupnum = some (i : ℤ)) : i < t.gChats.length := by
  rcases ht.index_cases groupnum with ⟨hnone, -⟩ | ⟨found, chat, hfound, hchat, -⟩
  · have hvalue := Option.some.inj (hindex.symm.trans hnone)
    omega
  · obtain rfl : i = found := Int.ofNat_inj.mp (Option.some.inj (hindex.symm.trans hfound))
    exact (List.getElem?_eq_some_iff.mp (ht.holds_iff.mp hchat).2).1

variable (g : Groups)

def Groups.add (type : UInt8) (password : Option CStr) : ℤ × Groups :=
  match hadd : groupAdd fresh g.table groupnum type password with
  | some (code, table) =>
      (code, ⟨table, by
        obtain ⟨_, _, hsame, htable⟩ := g.inBounds.added fresh groupnum type password hadd
        cases hsame
        exact htable⟩)
  | none => absurd (g.inBounds.added fresh groupnum type password hadd) (by simp)

def Groups.leave : Groups :=
  match hleave : groupLeave fresh g.table groupnum with
  | some table =>
      ⟨table, by
        obtain ⟨_, hsame, htable⟩ := g.inBounds.afterLeave fresh groupnum hleave
        cases hsame
        exact htable⟩
  | none => absurd (g.inBounds.afterLeave fresh groupnum hleave) (by simp)

/-- `none` is -1. -/
def Groups.index : Option (Fin g.table.gChats.length) :=
  match hindex : groupIndex g.table groupnum with
  | some (.ofNat i) => some ⟨i, g.inBounds.index_lt groupnum hindex⟩
  | _ => none

def Groups.chat (i : Fin g.table.gChats.length) : GroupChat := g.table.gChats[i]

def Groups.modify (i : Fin g.table.gChats.length) (f : GroupChat → GroupChat) : Groups where
  table := { g.table with gChats := g.table.gChats.set i (f (g.chat i)) }
  inBounds := ⟨by rw [List.length_set]; exact g.inBounds.used,
    by rw [List.length_set]; exact g.inBounds.allocated⟩

theorem Groups.add_eq (type : UInt8) (password : Option CStr) :
    groupAdd fresh g.table groupnum type password =
      some ((g.add fresh groupnum type password).1,
        (g.add fresh groupnum type password).2.table) := by
  rw [Groups.add]
  split
  · next hadd => exact hadd
  · next hadd => exact absurd (g.inBounds.added fresh groupnum type password hadd) (by simp)

theorem Groups.leave_eq :
    groupLeave fresh g.table groupnum = some (g.leave fresh groupnum).table := by
  rw [Groups.leave]
  split
  · next hleave => exact hleave
  · next hleave => exact absurd (g.inBounds.afterLeave fresh groupnum hleave) (by simp)

theorem Groups.holds_modify (idx : Fin g.table.gChats.length) (f : GroupChat → GroupChat)
    {j : ℕ} {chat : GroupChat} :
    (g.modify idx f).table.Holds j chat ↔
      ∃ old, g.table.Holds j old ∧ chat = if j = idx then f old else old := by
  rw [(g.modify idx f).inBounds.holds_iff]
  simp only [g.inBounds.holds_iff, Groups.modify, List.getElem?_set]
  by_cases hj : (idx : ℕ) = j
  · subst hj
    simp only [if_true, idx.isLt, Option.some.injEq, List.getElem?_eq_getElem]
    constructor
    · rintro ⟨hlt, rfl⟩
      exact ⟨_, ⟨hlt, rfl⟩, rfl⟩
    · rintro ⟨old, ⟨hlt, rfl⟩, rfl⟩
      exact ⟨hlt, rfl⟩
  · simp only [if_neg hj, if_neg (Ne.symm hj)]
    constructor
    · rintro ⟨hlt, hchat⟩
      exact ⟨chat, ⟨hlt, hchat⟩, rfl⟩
    · rintro ⟨old, ⟨hlt, hchat⟩, rfl⟩
      exact ⟨hlt, hchat⟩

/-- A full table refuses; otherwise the entry goes into a slot that is free. -/
theorem Groups.add_cases (type : UInt8) (password : Option CStr) :
    maxNumGroups ≤ g.table.chatsIdx ∧ g.add fresh groupnum type password = (-1, g) ∨
      g.table.chatsIdx < maxNumGroups ∧ (g.add fresh groupnum type password).1 = 0 ∧
        ∃ i ≤ g.table.chatsIdx,
          (∀ chat, g.table.Holds i chat → chat.active = false) ∧
          (g.add fresh groupnum type password).2.table =
            g.table.filled i (.added groupnum type password) := by
  have hadd := g.add_eq fresh groupnum type password
  rcases g.inBounds.add_cases fresh groupnum type password with
    ⟨hroom, hfull⟩ | ⟨hroom, i, hi, hfree, -, hfilled⟩
  · rw [hfull, Option.some.injEq, Prod.mk.injEq] at hadd
    exact .inl ⟨hroom, Prod.ext hadd.1.symm (Groups.ext hadd.2.symm)⟩
  · rw [hfilled, Option.some.injEq, Prod.mk.injEq] at hadd
    exact .inr ⟨hroom, hadd.1.symm, i, hi, hfree, hadd.2.symm⟩

/-- A table without holes. -/
def GroupTable.Dense (t : GroupTable) : Prop := ∀ i chat, t.Holds i chat → chat.active = true

theorem Groups.add_dense (hdense : g.table.Dense) (type : UInt8) (password : Option CStr)
    (hcode : (g.add fresh groupnum type password).1 = 0) :
    (g.add fresh groupnum type password).2.table.Dense ∧
      (g.add fresh groupnum type password).2.table.chatsIdx = g.table.chatsIdx + 1 := by
  rcases g.add_cases fresh groupnum type password with
    ⟨-, hfull⟩ | ⟨-, -, i, hi, hfree, hfilled⟩
  · rw [hfull] at hcode
    cases hcode
  · have hlast : g.table.chatsIdx = i := by
      by_contra hne
      have hlt : i < g.table.live.length := by
        rw [g.inBounds.live_length]
        omega
      have hchat : g.table.Holds i g.table.live[i] := List.getElem?_eq_getElem hlt
      have hactive := hdense i _ hchat
      rw [hfree _ hchat] at hactive
      cases hactive
    rw [hfilled]
    refine ⟨?_, by rw [GroupTable.filled, if_pos hlast]⟩
    intro j chat hchat
    rcases (g.inBounds.holds_filled hi).mp hchat with ⟨-, rfl⟩ | ⟨-, hold⟩
    · rfl
    · exact hdense j chat hold

theorem Groups.index_cases :
    g.index groupnum = none ∧ g.table.Lacks groupnum ∨
      ∃ i, g.index groupnum = some i ∧ g.table.Holds i (g.chat i) ∧
        (g.chat i).isFor groupnum = true := by
  rcases g.inBounds.index_cases groupnum with ⟨hindex, hlacks⟩ | ⟨i, chat, hindex, hchat, hfor⟩
  · refine .inl ⟨?_, hlacks⟩
    rw [Groups.index]
    split
    · next i hfound =>
        have hvalue := Option.some.inj (hfound.symm.trans hindex)
        cases hvalue
    · rfl
  · have hi := g.inBounds.index_lt groupnum hindex
    have hsame : g.chat ⟨i, hi⟩ = chat := by
      have hslot := (g.inBounds.holds_iff.mp hchat).2
      rw [List.getElem?_eq_getElem hi, Option.some.injEq] at hslot
      exact hslot
    refine .inr ⟨⟨i, hi⟩, ?_, by rwa [hsame], by rwa [hsame]⟩
    rw [Groups.index]
    split
    · next j hfound =>
        have hvalue := Option.some.inj (hfound.symm.trans hindex)
        cases hvalue
        rfl
    · next hnone => exact absurd hindex (hnone i)

end

end ToxRelayer
