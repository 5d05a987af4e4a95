import ToxRelayer.Commands
import ToxRelayer.ContactDirectory
import ToxRelayer.StepRun

/-!
# Who is in a room

The table of a room lists its members as they were at the start.  Whenever toxcore says
that the members have changed, the first row that is wrong about its peer is put right;
later rows wait for the next change.  Rooms, members and names go into arrays whose
sizes are never compared with what toxcore has; nothing is known of the tables once one of
them has been too small.
-/

namespace ToxRelayer

open CString StepRun

/-! ## Putting the first wrong row right -/

section

variable {Row : Type} (wrong : Row → Bool) (fix : Row → Row)

/-- The first wrong row is fixed, the others stay. -/
def repairFirst : List Row → List Row
  | [] => []
  | row :: rows => if wrong row then fix row :: rows else row :: repairFirst rows

variable {wrong fix}

theorem countP_repairFirst (hfix : ∀ row, wrong row = true → wrong (fix row) = false)
    (rows : List Row) : (repairFirst wrong fix rows).countP wrong = rows.countP wrong - 1 := by
  induction rows with
  | nil => rfl
  | cons row rows ih =>
      rw [repairFirst]
      split
      · rename_i hwrong
        rw [List.countP_cons_of_neg (by simp [hfix row hwrong]), List.countP_cons_of_pos hwrong]
        rfl
      · rename_i hright
        rw [List.countP_cons_of_neg hright, List.countP_cons_of_neg hright, ih]

theorem map_repairFirst {Value : Type} (wrong : Row → Bool) (fix : Row → Row)
    (value : Row → Value) (hfix : ∀ row, value (fix row) = value row) (rows : List Row) :
    (repairFirst wrong fix rows).map value = rows.map value := by
  induction rows with
  | nil => rfl
  | cons row rows ih =>
      rw [repairFirst]
      split
      · rw [List.map_cons, List.map_cons, hfix]
      · rw [List.map_cons, List.map_cons, ih]

end

/-! ## The tables -/

def maxRoomNumber : ℕ := 128
def maxRoomPeerNumber : ℕ := 1024

/-- The sizes of `nick_name` and of `groupchat_list` -/
def nickNameSize : ℕ := 64
def groupchatListSize : ℕ := 256

/-- `struct room_peer_list` -/
structure RoomPeer where
  roomPeerNickName : CStr
  publicKeyStr : CStr
  onlineFlag : Bool

/-- What toxcore says of the conferences: their numbers and, for each, keys and names of the
peers that are there and of those that are not. -/
structure ConferenceAnswers where
  chatlist : List ℕ
  peers : ℕ → List (Vector UInt8 32 × ContactName)
  offlinePeers : ℕ → List (Vector UInt8 32 × ContactName)

def roomPeer (onlineFlag : Bool) (peer : Vector UInt8 32 × ContactName) : RoomPeer where
  roomPeerNickName := .ofBuffer peer.2.val
  publicKeyStr := hexString peer.1.toList
  onlineFlag := onlineFlag

/-- The rows of these peers, each of whose names goes through `nick_name` with a terminator. -/
def peersAccesses (peers : List (Vector UInt8 32 × ContactName)) : List CheckedMemory.Access :=
  ⟨maxRoomPeerNumber, peers.length⟩ ::
    peers.map fun peer => ⟨nickNameSize, peer.2.val.length + 1⟩

/-- The arrays `conference_peer_list_initial` fills. -/
def ConferenceAnswers.initialAccesses (tox : ConferenceAnswers) : List CheckedMemory.Access :=
  ⟨groupchatListSize, tox.chatlist.length⟩ :: ⟨maxRoomNumber, tox.chatlist.length⟩ ::
    tox.chatlist.flatMap fun groupnum =>
      peersAccesses (tox.peers groupnum ++ tox.offlinePeers groupnum)

/-- All that toxcore has fits the arrays at the start. -/
def ConferenceAnswers.Fits (tox : ConferenceAnswers) : Prop :=
  ∀ access ∈ tox.initialAccesses, access.InBounds

instance (tox : ConferenceAnswers) : Decidable tox.Fits :=
  inferInstanceAs (Decidable (∀ access ∈ tox.initialAccesses, access.InBounds))

/-- The tables of the rooms as `conference_peer_list_initial` leaves them; a room is the place
of a conference in the list of toxcore. -/
def conferencePeerListInitial (tox : ConferenceAnswers) : Option (ℕ → List RoomPeer) :=
  if tox.Fits then
    some fun room =>
      match tox.chatlist[room]? with
      | none => []
      | some groupnum =>
          (tox.peers groupnum).map (roomPeer true) ++
            (tox.offlinePeers groupnum).map (roomPeer false)
  else none

/-- The line that is logged. -/
inductive RoomNotice where
  | joined (roomPeerNickName : CStr) (groupnum : ℕ)
  | left (roomPeerNickName : CStr) (groupnum : ℕ)

/-- The key occurs in that of a peer that is there. -/
def inOnlineList (online : List CStr) (peer : RoomPeer) : Bool :=
  online.any fun key => (strstr peer.publicKeyStr.val key.val).isSome

/-- The search of `conference_peer_join_left` -/
def searchPeers (groupnum : ℕ) (online : List CStr) :
    List RoomPeer → List RoomPeer × Option RoomNotice
  | [] => ([], none)
  | peer :: peers =>
      if inOnlineList online peer then
        if peer.onlineFlag = false then
          ({ peer with onlineFlag := true } :: peers, some (.joined peer.roomPeerNickName groupnum))
        else
          let rest := searchPeers groupnum online peers
          (peer :: rest.1, rest.2)
      else if peer.onlineFlag = true then
        ({ peer with onlineFlag := false } :: peers, some (.left peer.roomPeerNickName groupnum))
      else
        let rest := searchPeers groupnum online peers
        (peer :: rest.1, rest.2)

/-- The arrays `conference_peer_join_left` uses: the peers that are there have rows of their own,
and the tables are indexed by the number of the conference. -/
def ConferenceAnswers.changeAccesses (tox : ConferenceAnswers) (groupnum : ℕ) :
    List CheckedMemory.Access :=
  ⟨maxRoomNumber, groupnum + 1⟩ :: peersAccesses (tox.peers groupnum)

/-- The table is indexed by the number of the conference here. -/
def conferencePeerJoinLeft (tox : ConferenceAnswers) (groupnum : ℕ)
    (rooms : ℕ → List RoomPeer) : Option ((ℕ → List RoomPeer) × Option RoomNotice) :=
  if tox.chatlist = [] then some (rooms, none)
  else
    let online := (tox.peers groupnum).map fun peer => hexString peer.1.toList
    if online = [] then some (rooms, none)
    else if ∀ access ∈ tox.changeAccesses groupnum, access.InBounds then
      let searched := searchPeers groupnum online (rooms groupnum)
      some (Function.update rooms groupnum searched.1, searched.2)
    else none

/-! ## One change -/

/-- The row is wrong about its peer. -/
def RoomPeer.Stale (online : List CStr) (peer : RoomPeer) : Bool :=
  peer.onlineFlag != inOnlineList online peer

def RoomPeer.turned (peer : RoomPeer) : RoomPeer := { peer with onlineFlag := !peer.onlineFlag }

section

variable {online : List CStr}

theorem searchPeers_eq (groupnum : ℕ) (rows : List RoomPeer) :
    (searchPeers groupnum online rows).1 =
      repairFirst (RoomPeer.Stale online) RoomPeer.turned rows := by
  induction rows with
  | nil => rfl
  | cons peer rows ih =>
      rw [searchPeers, repairFirst, RoomPeer.Stale, RoomPeer.turned]
      cases hpresent : inOnlineList online peer <;> cases hflag : peer.onlineFlag
      · simp [ih]
      · simp
      · simp
      · simp [ih]

theorem RoomPeer.stale_turned (peer : RoomPeer) (hstale : peer.Stale online = true) :
    peer.turned.Stale online = false := by
  have hpresent : inOnlineList online peer.turned = inOnlineList online peer := rfl
  rw [Stale] at hstale ⊢
  rw [hpresent, turned]
  cases hflag : peer.onlineFlag <;> cases hlisted : inOnlineList online peer <;>
    simp_all

/-- A change that is announced sets one row right, if one is wrong. -/
theorem countP_searchPeers (groupnum : ℕ) (rows : List RoomPeer) :
    (searchPeers groupnum online rows).1.countP (RoomPeer.Stale online) =
      rows.countP (RoomPeer.Stale online) - 1 := by
  rw [searchPeers_eq]
  exact countP_repairFirst (RoomPeer.stale_turned) rows

end

/-! ## Runs -/

/-- The tables as far as they are known, and who was in each room when toxcore spoke of it
last. -/
structure RoomRun where
  rooms : Option (ℕ → List RoomPeer)
  present : ℕ → List (Vector UInt8 32)

/-- `on_conference_peer_list_changed` -/
structure RoomEvent where
  tox : ConferenceAnswers
  groupnum : ℕ

/-- The peer is one of these. -/
def RoomPeer.Among (keys : List (Vector UInt8 32)) (peer : RoomPeer) : Prop :=
  ∃ key ∈ keys, peer.publicKeyStr = hexString key.toList

instance (keys : List (Vector UInt8 32)) (peer : RoomPeer) : Decidable (peer.Among keys) :=
  inferInstanceAs (Decidable (∃ key ∈ keys, peer.publicKeyStr = hexString key.toList))

/-- The peer has come or gone. -/
def RoomPeer.Moved (before after : List (Vector UInt8 32)) (peer : RoomPeer) : Bool :=
  decide (peer.Among before) != decide (peer.Among after)

def ConferenceAnswers.keys (tox : ConferenceAnswers) (groupnum : ℕ) : List (Vector UInt8 32) :=
  (tox.peers groupnum).map Prod.fst

/-- toxcore speaks of a conference that exists, and the node itself is one of its peers. -/
def RoomEvent.Genuine (event : RoomEvent) : Prop :=
  event.tox.chatlist ≠ [] ∧ event.tox.keys event.groupnum ≠ []

/-- The peers of the event fit the arrays, and so does the number of the conference. -/
def RoomEvent.Fits (event : RoomEvent) : Prop :=
  ∀ access ∈ event.tox.changeAccesses event.groupnum, access.InBounds

instance (event : RoomEvent) : Decidable event.Fits :=
  inferInstanceAs (Decidable (∀ access ∈ event.tox.changeAccesses event.groupnum, access.InBounds))

namespace RoomRun

def start (tox : ConferenceAnswers) : RoomRun := ⟨conferencePeerListInitial tox, tox.keys⟩

def step (s : RoomRun) (event : RoomEvent) : RoomRun where
  rooms := s.rooms.bind fun rooms =>
    (conferencePeerJoinLeft event.tox event.groupnum rooms).map Prod.fst
  present := Function.update s.present event.groupnum (event.tox.keys event.groupnum)

/-- The table of a room, empty if nothing is known. -/
def rows (s : RoomRun) (room : ℕ) : List RoomPeer := (s.rooms.map fun rooms => rooms room).getD []

/-- The tables are known, and the flags of a room say who is there. -/
def Accurate (room : ℕ) (s : RoomRun) : Prop :=
  s.rooms.isSome = true ∧
    ∀ peer ∈ s.rows room, peer.onlineFlag = true ↔ peer.Among (s.present room)

/-- How many rows of the room the event concerns. -/
def moves (room : ℕ) (s : RoomRun) (event : RoomEvent) : ℕ :=
  (s.rows room).countP (RoomPeer.Moved (s.present room) (event.tox.keys room))

end RoomRun

section

variable {s : RoomRun} {room : ℕ}

/-- Keys have one length, so that one occurs in another only if they are the same. -/
theorem inOnlineList_eq {keys : List (Vector UInt8 32)} {peer : RoomPeer}
    (hkeyed : ∃ key : Vector UInt8 32, peer.publicKeyStr = hexString key.toList) :
    inOnlineList (keys.map fun key => hexString key.toList) peer = decide (peer.Among keys) := by
  obtain ⟨key, hkey⟩ := hkeyed
  rw [Bool.eq_iff_iff, inOnlineList, List.any_map, List.any_eq_true, decide_eq_true_iff]
  constructor
  · rintro ⟨other, hother, hoccurs⟩
    rw [Function.comp_apply, strstr_isSome_iff, hkey, hexString_infix_iff] at hoccurs
    exact ⟨other, hother, hoccurs ▸ hkey⟩
  · rintro ⟨other, hother, hsame⟩
    refine ⟨other, hother, ?_⟩
    rw [Function.comp_apply, strstr_isSome_iff, hsame]

/-- The rows have keys of peers. -/
def KeyedRows (rows : List RoomPeer) : Prop :=
  ∀ peer ∈ rows, ∃ key : Vector UInt8 32, peer.publicKeyStr = hexString key.toList

theorem KeyedRows.staleCount_eq {rows : List RoomPeer} (hrows : KeyedRows rows)
    (keys : List (Vector UInt8 32)) :
    rows.countP (RoomPeer.Stale (keys.map fun key => hexString key.toList)) =
      rows.countP fun peer => peer.onlineFlag != decide (peer.Among keys) := by
  refine List.countP_congr ?_
  intro peer hpeer
  rw [RoomPeer.Stale, inOnlineList_eq (hrows peer hpeer)]

theorem KeyedRows.searchPeers {rows : List RoomPeer} (hrows : KeyedRows rows) (groupnum : ℕ)
    (online : List CStr) : KeyedRows (searchPeers groupnum online rows).1 := by
  have hkeys : (repairFirst (RoomPeer.Stale online) RoomPeer.turned rows).map
      RoomPeer.publicKeyStr = rows.map RoomPeer.publicKeyStr :=
    map_repairFirst _ RoomPeer.turned RoomPeer.publicKeyStr (fun _ => rfl) rows
  rw [searchPeers_eq]
  intro peer hpeer
  have hmem := List.mem_map_of_mem (f := RoomPeer.publicKeyStr) hpeer
  rw [hkeys] at hmem
  obtain ⟨old, hold, hsame⟩ := List.mem_map.mp hmem
  rw [← hsame]
  exact hrows old hold

theorem flag_eq_decide (flag : Bool) (p : Prop) [Decidable p] :
    flag = decide p ↔ (flag = true ↔ p) := by
  cases flag <;> simp

theorem accurate_iff_countP (keys : List (Vector UInt8 32)) (rows : List RoomPeer) :
    (∀ peer ∈ rows, peer.onlineFlag = true ↔ peer.Among keys) ↔
      rows.countP (fun peer => peer.onlineFlag != decide (peer.Among keys)) = 0 := by
  rw [List.countP_eq_zero]
  refine forall₂_congr ?_
  intro peer _
  rw [bne_iff_ne, not_not, flag_eq_decide]

/-- In an accurate table the rows that are wrong about the new members are those whose peer
has come or gone. -/
theorem RoomRun.Accurate.moves_eq (hs : s.Accurate room) (event : RoomEvent) :
    (s.rows room).countP (fun peer => peer.onlineFlag != decide (peer.Among
      (event.tox.keys room))) = s.moves room event := by
  refine List.countP_congr ?_
  intro peer hpeer
  have hflag : peer.onlineFlag = decide (peer.Among (s.present room)) := by
    rw [flag_eq_decide]
    exact hs.2 peer hpeer
  rw [hflag]
  rfl

theorem step_present (event : RoomEvent) (room : ℕ) :
    (s.step event).present room =
      if room = event.groupnum then event.tox.keys room else s.present room := by
  rw [RoomRun.step]
  by_cases hroom : room = event.groupnum
  · subst hroom
    rw [if_pos rfl]
    exact Function.update_self _ _ _
  · rw [if_neg hroom]
    exact Function.update_of_ne hroom _ _

/-- What an event leaves known of the tables. -/
theorem RoomEvent.Genuine.step_rooms {event : RoomEvent} (hgenuine : event.Genuine)
    (s : RoomRun) :
    (s.step event).rooms = if event.Fits then s.rooms.map fun rooms =>
        Function.update rooms event.groupnum (searchPeers event.groupnum
          ((event.tox.keys event.groupnum).map fun key => hexString key.toList)
          (rooms event.groupnum)).1
      else none := by
  obtain ⟨hchatlist, hkeys⟩ := hgenuine
  have hpeers : event.tox.peers event.groupnum ≠ [] := by
    intro hnone
    exact hkeys (by rw [ConferenceAnswers.keys, hnone]; rfl)
  have honline : (event.tox.peers event.groupnum).map (fun peer => hexString peer.1.toList) ≠ [] :=
    fun hnone => hpeers (List.map_eq_nil_iff.mp hnone)
  rw [RoomRun.step]
  dsimp only
  cases s.rooms with
  | none =>
      rw [Option.map_none, ite_self]
      rfl
  | some rooms =>
      rw [Option.bind_some, conferencePeerJoinLeft, if_neg hchatlist, if_neg honline,
        ConferenceAnswers.keys, List.map_map]
      exact apply_ite _ _ _ _

theorem RoomEvent.Genuine.step_known {event : RoomEvent} (hgenuine : event.Genuine)
    (s : RoomRun) :
    (s.step event).rooms.isSome = true ↔ event.Fits ∧ s.rooms.isSome = true := by
  rw [hgenuine.step_rooms]
  split
  · rename_i hfits
    rw [Option.isSome_map, and_iff_right hfits]
  · rename_i hfits
    exact iff_of_false Bool.false_ne_true fun hboth => hfits hboth.1

theorem RoomEvent.Genuine.step_rows {event : RoomEvent} (hgenuine : event.Genuine)
    (hfits : event.Fits) (s : RoomRun) (room : ℕ) :
    (s.step event).rows room =
      if room = event.groupnum then
        (searchPeers room ((event.tox.keys room).map fun key => hexString key.toList)
          (s.rows room)).1
      else s.rows room := by
  rw [RoomRun.rows, RoomRun.rows, hgenuine.step_rooms, if_pos hfits]
  cases s.rooms with
  | none => exact (ite_self (c := room = event.groupnum) ([] : List RoomPeer)).symm
  | some rooms =>
      by_cases hroom : room = event.groupnum
      · subst hroom
        rw [if_pos rfl, Option.map_some, Option.map_some, Function.update_self]
        rfl
      · rw [if_neg hroom, Option.map_some, Option.map_some, Function.update_of_ne hroom]
        rfl

theorem RoomEvent.Genuine.step_keyed {event : RoomEvent} (hgenuine : event.Genuine)
    (hrows : KeyedRows (s.rows room)) : KeyedRows ((s.step event).rows room) := by
  by_cases hfits : event.Fits
  · rw [hgenuine.step_rows hfits]
    split
    · exact hrows.searchPeers _ _
    · exact hrows
  · rw [RoomRun.rows, hgenuine.step_rooms, if_neg hfits]
    exact List.forall_mem_nil _

/-- An event leaves an accurate table accurate when it fits the arrays and concerns at most one
row. -/
theorem RoomRun.Accurate.step_iff (hs : s.Accurate room) (hrows : KeyedRows (s.rows room))
    {event : RoomEvent} (hgenuine : event.Genuine) :
    (s.step event).Accurate room ↔
      event.Fits ∧ (room = event.groupnum → s.moves room event ≤ 1) := by
  rw [Accurate, hgenuine.step_known, and_iff_left hs.1]
  refine and_congr_right ?_
  intro hfits
  rw [hgenuine.step_rows hfits, step_present]
  split
  · rename_i hroom
    rw [accurate_iff_countP, ← (hrows.searchPeers _ _).staleCount_eq, countP_searchPeers,
      hrows.staleCount_eq, hs.moves_eq]
    simp only [hroom, true_implies]
    omega
  · rename_i hroom
    exact iff_of_true hs.2 fun hsame => absurd hsame hroom

theorem start_rows {tox : ConferenceAnswers} (hfits : tox.Fits) (room : ℕ) :
    (RoomRun.start tox).rows room =
      match tox.chatlist[room]? with
      | none => []
      | some groupnum =>
          (tox.peers groupnum).map (roomPeer true) ++
            (tox.offlinePeers groupnum).map (roomPeer false) := by
  rw [RoomRun.rows, RoomRun.start, conferencePeerListInitial, if_pos hfits]
  rfl

theorem start_known (tox : ConferenceAnswers) :
    (RoomRun.start tox).rooms.isSome = true ↔ tox.Fits := by
  rw [RoomRun.start, conferencePeerListInitial]
  dsimp only
  split
  · rename_i hfits
    exact iff_of_true rfl hfits
  · rename_i hfits
    exact iff_of_false Bool.false_ne_true hfits

theorem start_accurate {tox : ConferenceAnswers} (hfits : tox.Fits)
    (hroom : tox.chatlist[room]? = some room)
    (hoffline : ∀ peer ∈ tox.offlinePeers room, peer.1 ∉ tox.keys room) :
    (RoomRun.start tox).Accurate room := by
  refine ⟨(start_known tox).mpr hfits, ?_⟩
  intro peer hpeer
  rw [start_rows hfits, hroom] at hpeer
  simp only [List.mem_append, List.mem_map] at hpeer
  rcases hpeer with ⟨online, honline, rfl⟩ | ⟨offline, hmem, rfl⟩
  · refine iff_of_true rfl ⟨online.1, ?_, rfl⟩
    exact List.mem_map_of_mem honline
  · refine iff_of_false Bool.false_ne_true ?_
    rintro ⟨key, hkey, hsame⟩
    have hkeys := Vector.toList_inj.mp (hexString_inj hsame)
    exact hoffline offline hmem (hkeys ▸ hkey)

theorem start_keyed {tox : ConferenceAnswers} (hfits : tox.Fits) (room : ℕ) :
    KeyedRows ((RoomRun.start tox).rows room) := by
  intro peer hpeer
  rw [start_rows hfits] at hpeer
  split at hpeer
  · cases hpeer
  · rcases List.mem_append.mp hpeer with hmem | hmem
    all_goals
      obtain ⟨found, -, rfl⟩ := List.mem_map.mp hmem
      exact ⟨found.1, rfl⟩

end

/-- In a run the flags of a room whose number is its place in the list are right after every change
exactly when everything fits the arrays and no change is about more than one of the peers of the
start. -/
theorem roomPresence_iff {tox : ConferenceAnswers} {room : ℕ}
    (hroom : tox.chatlist[room]? = some room)
    (hoffline : ∀ peer ∈ tox.offlinePeers room, peer.1 ∉ tox.keys room)
    {events : List RoomEvent} (hevents : ∀ event ∈ events, event.Genuine) :
    Throughout RoomRun.step (RoomRun.Accurate room) (.start tox) events ↔
      tox.Fits ∧ Along RoomRun.step
        (fun s event => event.Fits ∧ (room = event.groupnum → s.moves room event ≤ 1))
        (.start tox) events := by
  have hinv : ∀ s event, KeyedRows (s.rows room) → event.Genuine →
      KeyedRows ((RoomRun.step s event).rows room) :=
    fun s event hrows hgenuine => hgenuine.step_keyed hrows
  have hstep : ∀ s event, KeyedRows (s.rows room) → event.Genuine → s.Accurate room →
      ((RoomRun.step s event).Accurate room ↔
        event.Fits ∧ (room = event.groupnum → s.moves room event ≤ 1)) :=
    fun s event hrows hgenuine hs => hs.step_iff hrows hgenuine
  have hrun := fun hfits : tox.Fits => throughout_iff_along hinv hstep (start_keyed hfits room)
    (start_accurate hfits hroom hoffline) hevents
  constructor
  · intro hall
    have hfits := (start_known tox).mp hall.first.1
    exact ⟨hfits, (hrun hfits).mp hall⟩
  · rintro ⟨hfits, halong⟩
    exact (hrun hfits).mpr halong

/-- A room of three peers. -/
def threePeers : ConferenceAnswers :=
  ⟨[0], fun _ => [1, 2, 3].map fun b => (.replicate 32 b, ⟨[], Nat.zero_le _⟩), fun _ => []⟩

/-- Two of the peers have gone. -/
def twoGone : RoomEvent :=
  ⟨⟨[0], fun _ => [(.replicate 32 1, ⟨[], Nat.zero_le _⟩)], fun _ => []⟩, 0⟩

theorem twoGone_genuine : twoGone.Genuine := ⟨List.cons_ne_nil _ _, List.cons_ne_nil _ _⟩

/-- The first of two events shows one of the peers gone, the second the other. -/
theorem roomPresence_iff_gone :
    (Throughout RoomRun.step (RoomRun.Accurate 0) (.start threePeers) [twoGone, twoGone] ↔
      threePeers.Fits ∧ Along RoomRun.step
        (fun s event => event.Fits ∧ (0 = event.groupnum → s.moves 0 event ≤ 1))
        (.start threePeers) [twoGone, twoGone]) ∧
      (RoomRun.start threePeers).moves 0 twoGone = 2 := by
  refine ⟨roomPresence_iff rfl (List.forall_mem_nil _) ?_, by decide⟩
  intro event hevent
  obtain rfl : event = twoGone := by simpa using hevent
  exact twoGone_genuine

/-! ## Catching up -/

section

variable {s : RoomRun} {event : RoomEvent}

theorem RoomEvent.Genuine.repeat_keyed (hgenuine : event.Genuine)
    (hrows : KeyedRows (s.rows event.groupnum)) (n : ℕ) :
    KeyedRows (((List.replicate n event).foldl RoomRun.step s).rows event.groupnum) := by
  induction n generalizing s with
  | zero => exact hrows
  | succ n ih => exact ih (hgenuine.step_keyed hrows)

/-- While nobody comes or goes, every further event sets one row right. -/
theorem RoomEvent.Genuine.repeat_staleCount (hgenuine : event.Genuine) (hfits : event.Fits)
    (s : RoomRun) (n : ℕ) :
    let stale := RoomPeer.Stale
      ((event.tox.keys event.groupnum).map fun key => hexString key.toList)
    (((List.replicate n event).foldl RoomRun.step s).rows event.groupnum).countP stale =
      (s.rows event.groupnum).countP stale - n := by
  intro stale
  induction n generalizing s with
  | zero => rfl
  | succ n ih =>
      rw [List.replicate_succ, List.foldl_cons, ih, hgenuine.step_rows hfits, if_pos rfl,
        countP_searchPeers]
      simp only [stale]
      omega

theorem RoomEvent.Genuine.repeat_known (hgenuine : event.Genuine) (s : RoomRun) (n : ℕ) :
    ((List.replicate (n + 1) event).foldl RoomRun.step s).rooms.isSome = true ↔
      event.Fits ∧ s.rooms.isSome = true := by
  induction n generalizing s with
  | zero => exact hgenuine.step_known s
  | succ n ih =>
      rw [List.replicate_succ, List.foldl_cons, ih, hgenuine.step_known, ← and_assoc, and_self]

theorem repeat_present (s : RoomRun) (event : RoomEvent) (n : ℕ) :
    ((List.replicate (n + 1) event).foldl RoomRun.step s).present event.groupnum =
      event.tox.keys event.groupnum := by
  rw [List.replicate_succ', List.foldl_append, List.foldl_cons, List.foldl_nil, step_present,
    if_pos rfl]

end

/-- Once nobody comes or goes any more, the flags of a room are right exactly when everything fits
the arrays and as many events have come as rows were wrong, whatever had been missed before. -/
theorem roomPresence_caughtUp_iff {event : RoomEvent} (hgenuine : event.Genuine) {s : RoomRun}
    (hrows : KeyedRows (s.rows event.groupnum)) (n : ℕ) :
    ((List.replicate (n + 1) event).foldl RoomRun.step s).Accurate event.groupnum ↔
      (event.Fits ∧ s.rooms.isSome = true) ∧
        (s.rows event.groupnum).countP (fun peer => peer.onlineFlag != decide (peer.Among
          (event.tox.keys event.groupnum))) ≤ n + 1 := by
  rw [RoomRun.Accurate, hgenuine.repeat_known]
  refine and_congr_right ?_
  rintro ⟨hfits, -⟩
  rw [repeat_present, accurate_iff_countP,
    ← (hgenuine.repeat_keyed hrows (n + 1)).staleCount_eq, hgenuine.repeat_staleCount hfits,
    hrows.staleCount_eq]
  omega

theorem roomPresence_caughtUp_iff_gone :
    (([twoGone, twoGone].foldl RoomRun.step (.start threePeers)).Accurate 0 ↔
      (twoGone.Fits ∧ (RoomRun.start threePeers).rooms.isSome = true) ∧
        ((RoomRun.start threePeers).rows 0).countP (fun peer => peer.onlineFlag !=
          decide (peer.Among (twoGone.tox.keys 0))) ≤ 2) ∧
      (twoGone.Fits ∧ (RoomRun.start threePeers).rooms.isSome = true) ∧
        ((RoomRun.start threePeers).rows 0).countP (fun peer => peer.onlineFlag !=
          decide (peer.Among (twoGone.tox.keys 0))) = 2 := by
  have hfits : threePeers.Fits := by decide
  exact ⟨roomPresence_caughtUp_iff twoGone_genuine (start_keyed hfits 0) 1, by decide⟩

end ToxRelayer
