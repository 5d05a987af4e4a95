import ToxRelayer.Conferences
import ToxRelayer.StepRun

/-!
# Passwords of groups

A run of the bot as toxcore and the contacts see it: commands of anyone, invitations the
bot accepts, and restarts.  The passwords are in the table only, which a restart empties.
-/

namespace ToxRelayer

open CString

/-! ## Restarts -/

/-- What `load_conferences` is answered: whether its array is allocated, and toxcore's
answers. -/
structure LoadAnswers where
  allocated : Bool
  type : UInt32 → Option UInt8
  deleted : UInt32 → Bool
  fresh : ℕ → GroupChat

/-- The loop of `load_conferences` over the rest of the list. -/
def loadLoop (tox : LoadAnswers) : List UInt32 → Groups → Groups × List ToxCall
  | [], g => (g, [])
  | groupnumber :: rest, g =>
      let failed := ToxCall.conferenceDelete groupnumber (tox.deleted groupnumber)
      match tox.type groupnumber with
      | none =>
          let loaded := loadLoop tox rest g
          (loaded.1, failed :: loaded.2)
      | some type =>
          let added := g.add tox.fresh groupnumber type none
          let loaded := loadLoop tox rest added.2
          if added.1 ≠ 0 then (loaded.1, failed :: loaded.2) else loaded

def loadConferences (tox : LoadAnswers) (chatlist : List UInt32) (g : Groups) :
    Groups × List ToxCall :=
  if chatlist = [] ∨ tox.allocated = false then (g, []) else loadLoop tox chatlist g

/-- The state of a process that has just started, whose table is not allocated yet. -/
def initToxrelayerState (now : Int64) (bot : Bot) : Bot := { bot with
  startTime := now
  defaultGroupnum := 0
  groups := .empty
  numOnlineFriends := 0
  inactiveLimit := 31536000 * 5 }

/-! ## Runs -/

structure PasswordRun where
  bot : Bot
  conferences : Conferences

/-- The first start of the program, over a save file with any conferences. -/
def PasswordRun.start (bot : Bot) (now : Int64) (count : ℕ) : PasswordRun :=
  ⟨initToxrelayerState now bot, .start count⟩

inductive PasswordOp where
  | execute (tox : ToxAnswers) (friendnum : UInt32) (inputMsg : CStr) (length : ℤ)
  | accept (tox : ToxAnswers) (groupnum : UInt32) (type : UInt8)
  | restart (now : Int64) (tox : LoadAnswers) (restored : List (UInt32 × ℕ))

/-- `cb_group_invite` from where toxcore has joined the conference. -/
def cbGroupInvite (tox : ToxAnswers) (bot : Bot) (groupnum : UInt32) (type : UInt8) :
    Bot × List ToxCall :=
  let added := bot.groups.add tox.fresh groupnum type none
  ({ bot with groups := added.2 },
    if added.1 = -1 then [.conferenceDelete groupnum (tox.conferenceDelete groupnum)] else [])

/-- The conferences toxcore finds in its save file. -/
def Conferences.restore (c : Conferences) (restored : List (UInt32 × ℕ)) : Conferences := { c with
  numbered := fun groupnum => (restored.find? fun entry => entry.1 = groupnum).map (·.2) }

def PasswordRun.step (s : PasswordRun) : PasswordOp → PasswordRun
  | .execute tox friendnum inputMsg length =>
      let result := (ToxRelayer.execute tox s.bot friendnum inputMsg length).2
      let conferences := s.conferences.after result.calls
      ⟨result.bot,
        match result.given with
        | none => conferences
        | some (groupnum, password) => conferences.give groupnum password⟩
  | .accept tox groupnum type =>
      let accepted := cbGroupInvite tox s.bot groupnum type
      ⟨accepted.1, (s.conferences.create groupnum).after accepted.2⟩
  | .restart now tox restored =>
      let bot := initToxrelayerState now s.bot
      let loaded := loadConferences tox (restored.map (·.1)) bot.groups
      ⟨{ bot with groups := loaded.1 }, (s.conferences.restore restored).after loaded.2⟩

/-- A conference a call creates has a number that is not in use. -/
def Conferences.FreeFor (c : Conferences) (call : ToxCall) : Prop :=
  ∀ groupnum ∈ call.created, c.numbered groupnum = none

instance (c : Conferences) (call : ToxCall) : Decidable (c.FreeFor call) :=
  Option.decidableForallMem call.created

/-- What toxcore promises: a new conference gets a number that is not in use, and the save
file has conferences there have been, each once and under a number of its own. -/
def PasswordRun.Promised (s : PasswordRun) : PasswordOp → Prop
  | .execute tox friendnum inputMsg length =>
      ∀ call ∈ (ToxRelayer.execute tox s.bot friendnum inputMsg length).2.calls,
        s.conferences.FreeFor call
  | .accept _ groupnum _ => s.conferences.numbered groupnum = none
  | .restart _ _ restored =>
      (restored.map (·.1)).Nodup ∧ (restored.map (·.2)).Nodup ∧
        ∀ entry ∈ restored, entry.2 < s.conferences.count

instance (s : PasswordRun) (op : PasswordOp) : Decidable (s.Promised op) :=
  match op with
  | .execute .. => inferInstanceAs (Decidable (∀ call ∈ _, _))
  | .accept .. => inferInstanceAs (Decidable (_ = _))
  | .restart .. => inferInstanceAs (Decidable (_ ∧ _))

/-- The conferences the loop has entries for: those with a type, as long as there is room. -/
def registered (tox : LoadAnswers) (room : ℕ) (list : List UInt32) : List UInt32 :=
  (list.filter fun groupnumber => (tox.type groupnumber).isSome).take room

/-- A restart does not register a conference with a password. -/
def PasswordRun.Forgetful (s : PasswordRun) : PasswordOp → Prop
  | .restart _ tox restored => tox.allocated = true → ∀ entry ∈ restored,
      entry.1 ∈ registered tox maxNumGroups (restored.map (·.1)) →
        s.conferences.password entry.2 = none
  | _ => True

instance (s : PasswordRun) (op : PasswordOp) : Decidable (s.Forgetful op) :=
  match op with
  | .execute .. => inferInstanceAs (Decidable True)
  | .accept .. => inferInstanceAs (Decidable True)
  | .restart .. => inferInstanceAs (Decidable (_ = _ → ∀ entry ∈ _, _ → _ = _))

/-- A line is an `/invite` with this password. -/
def Carries (inputMsg : CStr) (password : CStr) : Prop :=
  ∃ number rest, commandsParse inputMsg =
    some (.ofBuffer (bytes "/invite") :: number :: password :: rest)

section

variable {c : Conferences} {tox : LoadAnswers} {g : Groups}

/-- What the loop has put into a table without holes and has not deleted. -/
structure Loaded (tox : LoadAnswers) (list : List UInt32) (g : Groups)
    (result : Groups × List ToxCall) : Prop where
  valid : result.1.table.Valid
  located : ∀ groupnum i chat, result.1.table.Located groupnum i chat →
    g.table.Located groupnum i chat ∨
      groupnum ∈ registered tox (maxNumGroups - g.table.chatsIdx) list ∧
        ∀ call ∈ result.2, call.deleted ≠ some groupnum
  deletes : ∀ call ∈ result.2, call.created = none ∧
    ∀ groupnum, call.deleted = some groupnum → groupnum ∈ list

theorem deleted_conferenceDelete {groupnum other : UInt32} {done : Bool}
    (hdeleted : (ToxCall.conferenceDelete groupnum done).deleted = some other) :
    groupnum = other := by
  cases done with
  | false => cases hdeleted
  | true => exact Option.some.inj hdeleted

theorem mem_of_registered {room : ℕ} {list : List UInt32} {groupnum : UInt32}
    (hmem : groupnum ∈ registered tox room list) : groupnum ∈ list :=
  List.mem_of_mem_filter (List.mem_of_mem_take hmem)

theorem Loaded.skip {groupnum : UInt32} {rest : List UInt32} {result : Groups × List ToxCall}
    (hresult : Loaded tox rest g result) (hnew : groupnum ∉ rest)
    (hpassed : registered tox (maxNumGroups - g.table.chatsIdx) (groupnum :: rest) =
      registered tox (maxNumGroups - g.table.chatsIdx) rest) (done : Bool) :
    Loaded tox (groupnum :: rest) g
      (result.1, .conferenceDelete groupnum done :: result.2) where
  valid := hresult.valid
  located := by
    intro other i chat hother
    rw [hpassed]
    rcases hresult.located other i chat hother with hold | ⟨hmem, hkept⟩
    · exact .inl hold
    · refine .inr ⟨hmem, ?_⟩
      intro call hcall hdeleted
      rcases List.mem_cons.mp hcall with rfl | hcall
      · rw [deleted_conferenceDelete hdeleted] at hnew
        exact hnew (mem_of_registered hmem)
      · exact hkept call hcall hdeleted
  deletes := by
    intro call hcall
    rcases List.mem_cons.mp hcall with rfl | hcall
    · refine ⟨rfl, ?_⟩
      intro other hdeleted
      rw [deleted_conferenceDelete hdeleted]
      exact List.mem_cons_self
    · refine ⟨(hresult.deletes call hcall).1, ?_⟩
      intro other hdeleted
      exact List.mem_cons_of_mem _ ((hresult.deletes call hcall).2 other hdeleted)

theorem loadLoop_loaded {list : List UInt32} (hg : g.table.Valid) (hdense : g.table.Dense)
    (hnodup : list.Nodup) (hlacks : ∀ groupnum ∈ list, g.table.Lacks groupnum) :
    Loaded tox list g (loadLoop tox list g) := by
  induction list generalizing g with
  | nil =>
      exact ⟨hg, fun _ _ _ hold => .inl hold, fun call hcall => absurd hcall List.not_mem_nil⟩
  | cons groupnum rest ih =>
      obtain ⟨hnew, hnodup⟩ := List.nodup_cons.mp hnodup
      have hrest : ∀ other ∈ rest, g.table.Lacks other :=
        fun other hother => hlacks other (List.mem_cons_of_mem _ hother)
      rw [loadLoop]
      cases htype : tox.type groupnum with
      | none =>
          refine (ih hg hdense hnodup hrest).skip hnew ?_ _
          rw [registered, List.filter_cons_of_neg (by simp [htype]), registered]
      | some type =>
          dsimp only
          rcases Groups.add_located hg (hlacks groupnum List.mem_cons_self) tox.fresh type none with
            ⟨hroom, hfull⟩ | ⟨hroom, hcode, hvalid, i, hlocated⟩
          · rw [hfull, if_pos (show (-1 : ℤ) ≠ 0 by decide)]
            refine (ih hg hdense hnodup hrest).skip hnew ?_ _
            rw [registered, registered, Nat.sub_eq_zero_of_le hroom, List.take_zero, List.take_zero]
          · obtain ⟨hdense', hnext⟩ := g.add_dense tox.fresh groupnum hdense type none hcode
            rw [hcode, if_neg (fun hne => hne rfl)]
            have hlacks' : ∀ other ∈ rest,
                (g.add tox.fresh groupnum type none).2.table.Lacks other := by
              intro other hother
              rw [GroupTable.lacks_iff]
              intro j chat hchat
              rcases (hlocated other j chat).mp hchat with ⟨rfl, -⟩ | hold
              · exact hnew hother
              · exact GroupTable.lacks_iff.mp (hrest other hother) j chat hold
            have hresult := ih hvalid hdense' hnodup hlacks'
            -- the first of the list takes one place
            have hplace : registered tox (maxNumGroups - g.table.chatsIdx) (groupnum :: rest) =
                groupnum :: registered tox (maxNumGroups - (g.table.chatsIdx + 1)) rest := by
              rw [registered, List.filter_cons_of_pos (by simp [htype]),
                show maxNumGroups - g.table.chatsIdx =
                  maxNumGroups - (g.table.chatsIdx + 1) + 1 by omega, List.take_succ_cons, registered]
            refine ⟨hresult.valid, ?_, ?_⟩
            · intro other j chat hchat
              rw [hplace]
              rcases hresult.located other j chat hchat with hbefore | ⟨hmem, hkept⟩
              · rcases (hlocated other j chat).mp hbefore with ⟨rfl, -⟩ | hold
                · refine .inr ⟨List.mem_cons_self, ?_⟩
                  intro call hcall hdeleted
                  exact hnew ((hresult.deletes call hcall).2 _ hdeleted)
                · exact .inl hold
              · rw [hnext] at hmem
                exact .inr ⟨List.mem_cons_of_mem _ hmem, hkept⟩
            · intro call hcall
              refine ⟨(hresult.deletes call hcall).1, ?_⟩
              intro other hdeleted
              exact List.mem_cons_of_mem _ ((hresult.deletes call hcall).2 other hdeleted)

theorem empty_lacks (groupnum : UInt32) : GroupTable.empty.Lacks groupnum := by
  intro i chat hchat
  cases hchat

theorem empty_dense : GroupTable.empty.Dense := by
  intro i chat hchat
  cases hchat

theorem empty_not_located {groupnum : UInt32} {i : ℕ} {chat : GroupChat} :
    ¬ Groups.empty.table.Located groupnum i chat :=
  GroupTable.lacks_iff.mp (empty_lacks groupnum) i chat

theorem loadConferences_loaded {list : List UInt32} (hnodup : list.Nodup) :
    Loaded tox list .empty (loadConferences tox list .empty) ∧
      (tox.allocated = false → (loadConferences tox list .empty).1 = .empty) := by
  rw [loadConferences]
  split
  · refine ⟨⟨GroupTable.empty_valid, fun _ _ _ hold => .inl hold, ?_⟩, fun _ => rfl⟩
    exact fun call hcall => absurd hcall List.not_mem_nil
  · next hloads =>
      refine ⟨loadLoop_loaded GroupTable.empty_valid empty_dense hnodup
        fun n _ => empty_lacks n, ?_⟩
      exact fun hfailed => absurd (.inr hfailed) hloads

theorem Conferences.after_deletes {calls : List ToxCall} {groupnum : UInt32}
    (hcalls : ∀ call ∈ calls, call.created = none)
    (hkept : ∀ call ∈ calls, call.deleted ≠ some groupnum) :
    (c.after calls).numbered groupnum = c.numbered groupnum ∧
      ∀ id password, (c.after calls).password id = some password →
        c.password id = some password := by
  induction calls generalizing c with
  | nil => exact ⟨rfl, fun _ _ hpassword => hpassword⟩
  | cons call rest ih =>
      obtain ⟨hnumbered, hpassword⟩ := @ih (c.call call)
        (fun call hcall => hcalls call (List.mem_cons_of_mem _ hcall))
        (fun call hcall => hkept call (List.mem_cons_of_mem _ hcall))
      have hcreated := hcalls call List.mem_cons_self
      have hother := hkept call List.mem_cons_self
      rw [Conferences.call, hcreated] at hnumbered hpassword
      dsimp only at hnumbered hpassword
      rw [Conferences.after, List.foldl_cons, ← Conferences.after, Conferences.call, hcreated]
      dsimp only
      cases hdeleted : call.deleted with
      | none =>
          rw [hdeleted] at hnumbered hpassword
          exact ⟨hnumbered, hpassword⟩
      | some other =>
          rw [hdeleted] at hnumbered hpassword hother
          dsimp only at hnumbered hpassword ⊢
          refine ⟨?_, ?_⟩
          · rw [hnumbered, Conferences.numbered_delete, if_neg]
            rintro rfl
            exact hother rfl
          · intro id password hgiven
            exact Conferences.password_delete (hpassword id password hgiven)

theorem Conferences.numbered_restore {restored : List (UInt32 × ℕ)} {groupnum : UInt32} {id : ℕ}
    (hid : (c.restore restored).numbered groupnum = some id) : (groupnum, id) ∈ restored := by
  obtain ⟨⟨number, _⟩, hfound, rfl⟩ := Option.map_eq_some_iff.mp hid
  have hsame : number = groupnum := by simpa using List.find?_some hfound
  rw [← hsame]
  exact List.mem_of_find?_eq_some hfound

theorem Conferences.restore_isSome {restored : List (UInt32 × ℕ)} {groupnum : UInt32}
    (hmem : groupnum ∈ restored.map (·.1)) :
    ((c.restore restored).numbered groupnum).isSome := by
  obtain ⟨entry, hentry, rfl⟩ := List.mem_map.mp hmem
  rw [Conferences.restore, Option.isSome_map, List.find?_isSome]
  exact ⟨entry, hentry, by simp⟩

theorem Conferences.Sound.restore (hc : c.Sound) {restored : List (UInt32 × ℕ)}
    (hids : (restored.map (·.2)).Nodup) (hknown : ∀ entry ∈ restored, entry.2 < c.count) :
    (c.restore restored).Sound where
  known := fun groupnum id hid => hknown _ (Conferences.numbered_restore hid)
  distinct := by
    intro groupnum other id hid hid'
    exact congrArg Prod.fst (List.inj_on_of_nodup_map hids (Conferences.numbered_restore hid)
      (Conferences.numbered_restore hid') rfl)
  unknown := hc.unknown

end

/-! ## The invariant -/

/-- The table is valid and knows the passwords. -/
structure PasswordRun.Inv (s : PasswordRun) : Prop where
  valid : s.bot.groups.table.Valid
  sound : s.conferences.Sound
  guarded : s.conferences.GuardedBy s.bot.groups.table

section

variable {s : PasswordRun}

theorem PasswordRun.Inv.execute (hs : s.Inv) {tox : ToxAnswers} {friendnum : UInt32}
    {inputMsg : CStr} {length : ℤ}
    (hop : s.Promised (.execute tox friendnum inputMsg length)) :
    (s.step (.execute tox friendnum inputMsg length)).Inv := by
  obtain ⟨name, argv, heffect, -⟩ :=
    @execute_effect tox s.bot friendnum inputMsg length
  rw [PasswordRun.Promised] at hop
  rw [PasswordRun.step]
  generalize (ToxRelayer.execute tox s.bot friendnum inputMsg length).2 = result at *
  cases heffect with
  | quiet hgroups hcalls hgiven =>
      rw [hgiven, Conferences.after_idle hcalls]
      refine ⟨?_, hs.sound, hs.guarded.retitled hgroups⟩
      rcases hgroups with hsame | ⟨idx, title, titleLen, hsame⟩
      · rw [hsame]
        exact hs.valid
      · rw [hsame]
        exact Groups.valid_modify hs.valid (by simp)
  | invited hword idx hindex hcarried hgroups hcalls hothers hgiven =>
      rw [hgiven, hcalls, Conferences.after_cons hothers, Conferences.call_eq_self rfl rfl]
      exact ⟨hgroups ▸ hs.valid, hs.sound, hgroups ▸ hs.guarded⟩
  | unlisted hcreated hgroups hcalls hothers hgiven =>
      have hfree := hop _ (by rw [hcalls]; exact List.mem_cons_self) _ hcreated
      rw [hgiven, hcalls, Conferences.after_cons hothers, Conferences.call, hcreated]
      exact ⟨hgroups ▸ hs.valid, hs.sound.create _, hgroups ▸ hs.guarded.create hfree⟩
  | refused hcreated hgroups hcalls hothers hgiven =>
      have hfree := hop _ (by rw [hcalls]; exact List.mem_cons_self) _ hcreated
      rw [hgiven, hcalls, ← List.cons_append, Conferences.after_append,
        Conferences.after_cons hothers, Conferences.call, hcreated]
      exact ⟨hgroups ▸ hs.valid, (hs.sound.create _).after _, hgroups ▸ hs.guarded.refuse hfree _⟩
  | added hcreated hfits hcode hgroups hcalls hothers hgiven =>
      have hfree := hop _ (by rw [hcalls]; exact List.mem_cons_self) _ hcreated
      rw [hgiven, hcalls, Conferences.after_cons hothers, Conferences.call, hcreated]
      dsimp only
      rcases Groups.add_located hs.valid (hs.guarded.lacks hfree) tox.fresh _ _ with
        ⟨-, hfull⟩ | ⟨-, -, hvalid, i, hlocated⟩
      · rw [hfull] at hcode
        cases hcode
      · exact ⟨hgroups ▸ hvalid, (hs.sound.create _).give _ _,
          hgroups ▸ hs.guarded.add hs.sound hfree hfits hlocated⟩
  | left hgroups hcalls hothers hgiven =>
      rw [hgiven, hcalls, Conferences.after_cons hothers]
      exact ⟨hgroups ▸ (Groups.leave_located hs.valid _ _).1, hs.sound.delete _,
        hgroups ▸ hs.guarded.leave hs.valid _ _⟩
  | password idx hindex hgroups hcalls hgiven =>
      rw [hgiven, Conferences.after_idle hcalls]
      exact ⟨hgroups ▸ Groups.valid_modify hs.valid (by simp), hs.sound.give _ _,
        hgroups ▸ hs.guarded.password hs.sound hs.valid hindex _⟩

theorem PasswordRun.Inv.accept (hs : s.Inv) {tox : ToxAnswers} {groupnum : UInt32} {type : UInt8}
    (hop : s.Promised (.accept tox groupnum type)) :
    (s.step (.accept tox groupnum type)).Inv := by
  rw [PasswordRun.step, cbGroupInvite]
  refine ⟨?_, (hs.sound.create groupnum).after _, ?_⟩
  all_goals
    dsimp only
    rcases Groups.add_located hs.valid (hs.guarded.lacks hop) tox.fresh type none with
      ⟨-, hfull⟩ | ⟨-, hcode, hvalid, i, hlocated⟩
  · rw [hfull]
    exact hs.valid
  · exact hvalid
  · rw [hfull, if_pos rfl]
    exact hs.guarded.refuse hop _
  · rw [hcode, if_neg (by decide)]
    have hguarded := hs.guarded.add hs.sound hop (by simp) hlocated
    rw [hs.sound.create_give] at hguarded
    exact hguarded

theorem PasswordRun.Inv.restart (hs : s.Inv) {now : Int64} {tox : LoadAnswers}
    {restored : List (UInt32 × ℕ)} (hop : s.Promised (.restart now tox restored))
    (hforgetful : s.Forgetful (.restart now tox restored)) :
    (s.step (.restart now tox restored)).Inv := by
  obtain ⟨hnumbers, hids, hknown⟩ := hop
  obtain ⟨hloaded, hfailed⟩ := @loadConferences_loaded tox (restored.map (·.1)) hnumbers
  refine ⟨hloaded.valid, (hs.sound.restore hids hknown).after _, ?_⟩
  intro groupnum i chat hlocated
  rcases hloaded.located groupnum i chat hlocated with hold | ⟨hmem, hkept⟩
  · exact (empty_not_located hold).elim
  · obtain ⟨hnumbered, hpassword⟩ := @Conferences.after_deletes
      (s.conferences.restore restored) _ groupnum
      (fun call hcall => (hloaded.deletes call hcall).1) hkept
    obtain ⟨id, hid⟩ := Option.isSome_iff_exists.mp
      (@Conferences.restore_isSome s.conferences restored groupnum
        (mem_of_registered hmem))
    refine ⟨id, hnumbered.trans hid, ?_⟩
    intro password hgiven
    have hallocated : tox.allocated = true := by
      rw [← Bool.not_eq_false]
      intro hnone
      have hempty : (PasswordRun.step s (.restart now tox restored)).bot.groups = .empty :=
        hfailed hnone
      rw [hempty] at hlocated
      exact empty_not_located hlocated
    have hforgotten : s.conferences.password id = none :=
      hforgetful hallocated _ (Conferences.numbered_restore hid) hmem
    have hsome : s.conferences.password id = some password := hpassword id password hgiven
    rw [hforgotten] at hsome
    cases hsome

theorem PasswordRun.Inv.step (hs : s.Inv) {op : PasswordOp}
    (hop : s.Promised op ∧ s.Forgetful op) : (s.step op).Inv := by
  cases op with
  | execute tox friendnum inputMsg length => exact hs.execute hop.1
  | accept tox groupnum type => exact hs.accept hop.1
  | restart now tox restored => exact hs.restart hop.1 hop.2

theorem PasswordRun.start_inv (bot : Bot) (now : Int64) (count : ℕ) :
    (PasswordRun.start bot now count).Inv where
  valid := GroupTable.empty_valid
  sound := Conferences.start_sound count
  guarded := fun _ _ _ hlocated => (empty_not_located hlocated).elim

end

end ToxRelayer
