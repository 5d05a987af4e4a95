import ToxRelayer.GroupEffects

/-!
# Conferences and their passwords

The conferences toxcore has, told apart from others that had their number before, and the
password each has been given.  This is what the group table is to know.
-/

namespace ToxRelayer

open CString

/-- The conferences toxcore has under their numbers, and the password of each. -/
structure Conferences where
  numbered : UInt32 → Option ℕ
  count : ℕ
  password : ℕ → Option CStr

/-- Before a start of the program; there have been `count` conferences. -/
def Conferences.start (count : ℕ) : Conferences := ⟨fun _ => none, count, fun _ => none⟩

def Conferences.create (c : Conferences) (groupnum : UInt32) : Conferences where
  numbered := Function.update c.numbered groupnum (some c.count)
  count := c.count + 1
  password := c.password

/-- A conference that is left loses its password. -/
def Conferences.delete (c : Conferences) (groupnum : UInt32) : Conferences :=
  match c.numbered groupnum with
  | none => c
  | some id => { c with
      numbered := Function.update c.numbered groupnum none
      password := Function.update c.password id none }

def Conferences.give (c : Conferences) (groupnum : UInt32) (password : Option CStr) :
    Conferences :=
  match c.numbered groupnum with
  | none => c
  | some id => { c with password := Function.update c.password id password }

def Conferences.call (c : Conferences) (call : ToxCall) : Conferences :=
  match call.created with
  | some groupnum => c.create groupnum
  | none =>
      match call.deleted with
      | some groupnum => c.delete groupnum
      | none => c

def Conferences.after (c : Conferences) (calls : List ToxCall) : Conferences :=
  calls.foldl Conferences.call c

/-- Different conferences have different numbers, and only conferences there have been have
passwords. -/
structure Conferences.Sound (c : Conferences) : Prop where
  known : ∀ groupnum id, c.numbered groupnum = some id → id < c.count
  distinct : ∀ groupnum other id, c.numbered groupnum = some id → c.numbered other = some id →
    groupnum = other
  unknown : ∀ id, c.count ≤ id → c.password id = none

/-- The table knows the password of every conference it has. -/
def Conferences.GuardedBy (c : Conferences) (t : GroupTable) : Prop :=
  ∀ groupnum i chat, t.Located groupnum i chat → ∃ id, c.numbered groupnum = some id ∧
    ∀ password, c.password id = some password → chat.hasPass = true ∧ chat.password = password

section

variable {c : Conferences} {groupnum other : UInt32}

theorem Conferences.call_eq_self {call : ToxCall} (hcreated : call.created = none)
    (hdeleted : call.deleted = none) : c.call call = c := by
  rw [Conferences.call, hcreated, hdeleted]

theorem Conferences.after_idle {calls : List ToxCall} (hcalls : ∀ call ∈ calls, call.idle = true) :
    c.after calls = c := by
  induction calls with
  | nil => rfl
  | cons call calls ih =>
      obtain ⟨hcreated, hdeleted, -⟩ := ToxCall.idle_iff.mp (hcalls call List.mem_cons_self)
      rw [Conferences.after, List.foldl_cons, Conferences.call_eq_self hcreated hdeleted]
      exact ih fun call hcall => hcalls call (List.mem_cons_of_mem _ hcall)

theorem Conferences.after_cons {call : ToxCall} {rest : List ToxCall}
    (hrest : ∀ call ∈ rest, call.idle = true) : c.after (call :: rest) = c.call call := by
  rw [Conferences.after, List.foldl_cons]
  exact Conferences.after_idle hrest

theorem Conferences.after_append (calls rest : List ToxCall) :
    c.after (calls ++ rest) = (c.after calls).after rest := List.foldl_append

theorem Conferences.numbered_delete :
    (c.delete groupnum).numbered other = if other = groupnum then none else c.numbered other := by
  rw [Conferences.delete]
  cases hid : c.numbered groupnum with
  | none =>
      dsimp only
      by_cases hsame : other = groupnum
      · rw [if_pos hsame, hsame, hid]
      · rw [if_neg hsame]
  | some id =>
      dsimp only
      rw [Function.update_apply]

theorem Conferences.password_delete {id : ℕ} {password : CStr}
    (hpassword : (c.delete groupnum).password id = some password) :
    c.password id = some password := by
  rw [Conferences.delete] at hpassword
  split at hpassword
  · exact hpassword
  · dsimp only at hpassword
    rw [Function.update_apply] at hpassword
    split at hpassword
    · cases hpassword
    · exact hpassword

theorem Conferences.numbered_give (password : Option CStr) :
    (c.give groupnum password).numbered = c.numbered := by
  rw [Conferences.give]
  split <;> rfl

theorem Conferences.password_give {id : ℕ} (hid : c.numbered groupnum = some id)
    (password : Option CStr) :
    (c.give groupnum password).password = Function.update c.password id password := by
  rw [Conferences.give, hid]

theorem Conferences.start_sound (count : ℕ) : (Conferences.start count).Sound where
  known := by
    rintro groupnum id ⟨⟩
  distinct := by
    rintro groupnum other id ⟨⟩
  unknown := fun _ _ => rfl

theorem Conferences.Sound.create (hc : c.Sound) (groupnum : UInt32) :
    (c.create groupnum).Sound where
  known := by
    intro other id hid
    simp only [Conferences.create, Function.update_apply] at hid ⊢
    split at hid
    · cases hid
      exact Nat.lt_succ_self _
    · exact Nat.lt_succ_of_lt (hc.known other id hid)
  distinct := by
    intro m n id hm hn
    simp only [Conferences.create, Function.update_apply] at hm hn
    split at hm
    · next hsame =>
        cases hm
        split at hn
        · next hsame' => exact hsame.trans hsame'.symm
        · exact absurd (hc.known n _ hn) (lt_irrefl _)
    · split at hn
      · cases hn
        exact absurd (hc.known m _ hm) (lt_irrefl _)
      · exact hc.distinct m n id hm hn
  unknown := fun id hid => hc.unknown id (Nat.le_of_succ_le hid)

theorem Conferences.Sound.create_give (hc : c.Sound) (groupnum : UInt32) :
    (c.create groupnum).give groupnum none = c.create groupnum := by
  have hnew : (c.create groupnum).numbered groupnum = some c.count := Function.update_self _ _ _
  rw [Conferences.give, hnew]
  have hnone : Function.update c.password c.count none = c.password :=
    Function.update_eq_self_iff.mpr (hc.unknown c.count le_rfl).symm
  simp only [Conferences.create, hnone]

theorem Conferences.Sound.delete (hc : c.Sound) (groupnum : UInt32) :
    (c.delete groupnum).Sound := by
  have hcount : (c.delete groupnum).count = c.count := by
    rw [Conferences.delete]
    split <;> rfl
  have hnumbered : ∀ other id, (c.delete groupnum).numbered other = some id →
      c.numbered other = some id := by
    intro other id hid
    rw [Conferences.numbered_delete] at hid
    split at hid
    · cases hid
    · exact hid
  refine ⟨?_, ?_, ?_⟩
  · intro other id hid
    rw [hcount]
    exact hc.known other id (hnumbered other id hid)
  · intro m n id hm hn
    exact hc.distinct m n id (hnumbered m id hm) (hnumbered n id hn)
  · intro id hid
    rw [hcount] at hid
    rw [Option.eq_none_iff_forall_ne_some]
    intro password hpassword
    have hnone := hc.unknown id hid
    rw [Conferences.password_delete hpassword] at hnone
    cases hnone

theorem Conferences.Sound.give (hc : c.Sound) (groupnum : UInt32) (password : Option CStr) :
    (c.give groupnum password).Sound := by
  cases hid : c.numbered groupnum with
  | none =>
      rw [Conferences.give, hid]
      exact hc
  | some id =>
      refine ⟨?_, ?_, ?_⟩
      · rw [Conferences.numbered_give, Conferences.give, hid]
        exact hc.known
      · rw [Conferences.numbered_give]
        exact hc.distinct
      · intro other hother
        rw [Conferences.give, hid] at hother
        rw [Conferences.password_give hid, Function.update_of_ne]
        · exact hc.unknown other hother
        · have hlt := hc.known groupnum id hid
          dsimp only at hother
          omega

theorem Conferences.Sound.call (hc : c.Sound) (call : ToxCall) : (c.call call).Sound := by
  rw [Conferences.call]
  split
  · exact hc.create _
  · split
    · exact hc.delete _
    · exact hc

theorem Conferences.Sound.after (hc : c.Sound) (calls : List ToxCall) :
    (c.after calls).Sound := by
  induction calls generalizing c with
  | nil => exact hc
  | cons call calls ih => exact ih (hc.call call)

/-! ## What the table knows -/

variable {g : Groups}

theorem Conferences.GuardedBy.lacks (hg : c.GuardedBy g.table) (hfree : c.numbered groupnum = none) :
    g.table.Lacks groupnum := by
  rw [GroupTable.lacks_iff]
  intro i chat hlocated
  obtain ⟨id, hid, -⟩ := hg groupnum i chat hlocated
  rw [hfree] at hid
  cases hid

theorem Conferences.GuardedBy.create (hg : c.GuardedBy g.table)
    (hfree : c.numbered groupnum = none) : (c.create groupnum).GuardedBy g.table := by
  intro other i chat hlocated
  obtain ⟨id, hid, hpassword⟩ := hg other i chat hlocated
  refine ⟨id, ?_, hpassword⟩
  have hne : other ≠ groupnum := by
    rintro rfl
    rw [hfree] at hid
    cases hid
  simp only [Conferences.create, Function.update_of_ne hne, hid]

theorem Conferences.GuardedBy.delete (hg : c.GuardedBy g.table)
    (hgone : g.table.Lacks groupnum) : (c.delete groupnum).GuardedBy g.table := by
  intro other i chat hlocated
  obtain ⟨id, hid, hpassword⟩ := hg other i chat hlocated
  refine ⟨id, ?_, fun password hgiven => hpassword password (Conferences.password_delete hgiven)⟩
  rw [Conferences.numbered_delete, if_neg]
  · exact hid
  · rintro rfl
    exact GroupTable.lacks_iff.mp hgone i chat hlocated

theorem Conferences.GuardedBy.leave (hg : c.GuardedBy g.table) (hvalid : g.table.Valid)
    (fresh : ℕ → GroupChat) (groupnum : UInt32) :
    (c.delete groupnum).GuardedBy (g.leave fresh groupnum).table := by
  have hlocated := (g.leave_located hvalid fresh groupnum).2
  apply Conferences.GuardedBy.delete
  · intro other i chat hother
    exact hg other i chat ((hlocated other i chat).mp hother).2
  · rw [GroupTable.lacks_iff]
    intro i chat hgone
    exact ((hlocated groupnum i chat).mp hgone).1 rfl

theorem Conferences.GuardedBy.add (hg : c.GuardedBy g.table) (hc : c.Sound)
    (hfree : c.numbered groupnum = none)
    {password : Option CStr} (hfits : ∀ text ∈ password, text.length < maxPasswordSize)
    {type : UInt8} {t : GroupTable} {i : ℕ}
    (hlocated : ∀ other j chat, t.Located other j chat ↔
      (other = groupnum ∧ j = i ∧ chat = .added groupnum type password) ∨
        g.table.Located other j chat) :
    ((c.create groupnum).give groupnum password).GuardedBy t := by
  have hnew : (c.create groupnum).numbered groupnum = some c.count := Function.update_self _ _ _
  intro other j chat hother
  rw [Conferences.numbered_give, Conferences.password_give hnew]
  rcases (hlocated other j chat).mp hother with ⟨rfl, -, rfl⟩ | hold
  · refine ⟨c.count, hnew, ?_⟩
    intro text htext
    rw [Function.update_self] at htext
    subst htext
    exact ⟨rfl, GroupChat.added_password hfits⟩
  · obtain ⟨id, hid, hpassword⟩ := hg other j chat hold
    have hother : other ≠ groupnum := by
      rintro rfl
      rw [hfree] at hid
      cases hid
    refine ⟨id, ?_, ?_⟩
    · simp only [Conferences.create, Function.update_of_ne hother, hid]
    · intro text htext
      have hlt := hc.known other id hid
      rw [Function.update_of_ne (by omega)] at htext
      exact hpassword text htext

/-- A conference that gets no entry and is deleted again, if toxcore does so. -/
theorem Conferences.GuardedBy.refuse (hg : c.GuardedBy g.table)
    (hfree : c.numbered groupnum = none) (done : Bool) :
    ((c.create groupnum).after [.conferenceDelete groupnum done]).GuardedBy g.table := by
  cases done with
  | false => exact hg.create hfree
  | true => exact (hg.create hfree).delete (hg.lacks hfree)

theorem Conferences.GuardedBy.retitled (hg : c.GuardedBy g.table) {g' : Groups}
    (hg' : g.Retitled g') : c.GuardedBy g'.table := by
  rcases hg' with rfl | ⟨idx, title, titleLen, rfl⟩
  · exact hg
  · intro other j chat hlocated
    obtain ⟨old, hold, rfl⟩ := (Groups.located_modify (by simp)).mp hlocated
    obtain ⟨id, hid, hpassword⟩ := hg other j old hold
    refine ⟨id, hid, ?_⟩
    intro password hgiven
    have hknown := hpassword password hgiven
    split
    · exact hknown
    · exact hknown

theorem Conferences.GuardedBy.password (hg : c.GuardedBy g.table) (hc : c.Sound)
    (hvalid : g.table.Valid) {idx : Fin g.table.gChats.length}
    (hindex : g.index groupnum = some idx) (password : Option CStr) :
    (c.give groupnum password).GuardedBy (g.modify idx fun chat =>
      { chat with hasPass := password.isSome, password := password.getD .empty }).table := by
  have hfound := Groups.located_of_index hindex
  obtain ⟨id, hid, -⟩ := hg groupnum idx (g.chat idx) hfound
  intro other j chat hlocated
  rw [Conferences.numbered_give, Conferences.password_give hid]
  obtain ⟨old, hold, rfl⟩ := (Groups.located_modify (by simp)).mp hlocated
  obtain ⟨id', hid', hpassword⟩ := hg other j old hold
  refine ⟨id', hid', ?_⟩
  intro text htext
  by_cases hother : other = groupnum
  · subst hother
    obtain ⟨rfl, rfl⟩ := hvalid.located_inj hold hfound
    obtain rfl : id' = id := Option.some.inj (hid'.symm.trans hid)
    rw [Function.update_self] at htext
    subst htext
    rw [if_pos rfl]
    exact ⟨rfl, rfl⟩
  · have hid : id' ≠ id := by
      rintro rfl
      exact hother (hc.distinct other groupnum _ hid' hid)
    have hj : j ≠ idx := by
      rintro rfl
      obtain ⟨hactive, hnumber⟩ := GroupChat.isFor_iff.mp hold.2
      have hsame : old = g.chat idx := Option.some.inj (hold.1.symm.trans hfound.1)
      subst hsame
      exact hother (hnumber.symm.trans (GroupChat.isFor_iff.mp hfound.2).2)
    rw [Function.update_of_ne hid] at htext
    rw [if_neg hj]
    exact hpassword text htext

end

end ToxRelayer
