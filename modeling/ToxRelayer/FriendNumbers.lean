import ToxRelayer.AddressAgreement
import ToxRelayer.ArchiveAppend
import ToxRelayer.MqPersist
import ToxRelayer.StepRun
import ToxRelayer.ToxTransport

/-!
# Friend numbers and their holders

The node together with the contact list of toxcore, in which a freed number is
given out again.  Queue, queue file and archive know a contact by its number
only; beside them a run records to whom every message and every row was
addressed.
-/

namespace ToxRelayer

open CString

abbrev PublicKey := Vector UInt8 32

/-- The contact that holds a friend number. -/
abbrev Contacts := ℕ → Option PublicKey

/-- If anybody holds the number, it is this contact. -/
def Contacts.Fits (contacts : Contacts) (friendnum : ℤ) (addressee : PublicKey) : Prop :=
  ∀ key ∈ contacts friendnum.toNat, addressee = key

/-! ## Deletion -/

def toxFriendDelete (contacts : Contacts) (friendnumber : ℕ) : Contacts :=
  Function.update contacts friendnumber none

/-- One round of `purge_inactive_friends`; `lastOnline` has no answer where
toxcore reports an error. -/
def purgeRound (now inactiveLimit : UInt64) (lastOnline : ℕ → Option UInt64)
    (contacts : Contacts) (friendnum : ℕ) : Contacts :=
  match contacts friendnum, lastOnline friendnum with
  | some _, some time =>
      if inactiveLimit < now - time then toxFriendDelete contacts friendnum else contacts
  | _, _ => contacts

def purgeInactiveFriends (now inactiveLimit : UInt64) (lastOnline : ℕ → Option UInt64)
    (friendList : List ℕ) (contacts : Contacts) : Contacts :=
  friendList.foldl (purgeRound now inactiveLimit lastOnline) contacts

/-- The head of `cb_friend_message`, which deletes a blocked sender. -/
def deleteBlockedSender (publicKeyIsBlocked : PublicKey → Bool) (contacts : Contacts)
    (friendnumber : ℕ) : Contacts :=
  if ¬ friendNumberValid friendnumber then contacts
  else
    match contacts friendnumber with
    | none => contacts
    | some key =>
        if publicKeyIsBlocked key then toxFriendDelete contacts friendnumber else contacts

/-! ## Sending -/

/-- For a number that nobody holds toxcore reports no connection, and an error. -/
def Contacts.network (contacts : Contacts) (m : ToxNetwork) : ToxNetwork where
  friendConnected := fun friendnumber =>
    (contacts friendnumber).isSome && m.friendConnected friendnumber
  friendSendMessage := fun friendnumber payload =>
    if (contacts friendnumber).isSome then m.friendSendMessage friendnumber payload else none

/-- Friend number and payload of the call of `tox_friend_send_message` that
`tox_transport` makes, if it makes one. -/
def toxSent (m : ToxNetwork) : MqCall → Option (ℤ × Bytes)
  | .transport friendnum payload len =>
      if friendNumberValid friendnum ∧ m.friendConnected friendnum.toNat = true then
        some (friendnum, payload.take len)
      else none
  | _ => none

theorem toxTransport_eq (m : ToxNetwork) (friendnum : ℤ) (payload : Bytes) (len : ℕ) :
    toxTransport (some m) friendnum payload len =
      match toxSent m (.transport friendnum payload len) with
      | none => if friendNumberValid friendnum then mqSendRetryable else mqSendFatal
      | some sent =>
          match m.friendSendMessage sent.1.toNat sent.2 with
          | none => mqSendRetryable
          | some receipt => receipt.toInt32.toInt := by
  by_cases hvalid : friendNumberValid friendnum
  · have hnonneg : ¬ friendnum < 0 := by
      have hlow := hvalid.1
      omega
    cases hconnected : m.friendConnected friendnum.toNat with
    | false => simp [toxTransport, toxSent, hnonneg, hvalid, hconnected]
    | true =>
        cases hreceipt : m.friendSendMessage friendnum.toNat (payload.take len) with
        | none => simp [toxTransport, toxSent, hnonneg, hvalid, hconnected, hreceipt]
        | some receipt => simp [toxTransport, toxSent, hnonneg, hvalid, hconnected, hreceipt]
  · simp [toxTransport, toxSent, hvalid]

/-! ## The state -/

/-- `contacts` is toxcore's list and `files` holds the queue file.  The last
three fields are the record: the addressee of the message in every slot, the
queue with its addressees as it was saved last, and the addressee of the row
under every key. -/
structure FriendRun (Ini : Type) where
  relay : RelayState (Node Ini)
  contacts : Contacts
  files : FileSystem
  queuedFor : ℕ → PublicKey
  saved : Option (Mq × (ℕ → PublicKey))
  storedFor : ℤ → PublicKey

inductive FriendOp where
  | enqueue (channel : Int32) (addressee : PublicKey) (payload : Bytes) (now : ℤ)
  | confirm (friendnum receipt : ℤ)
  | service (m : ToxNetwork) (now : ℤ)
  | store (add : ArchiveAdd) (addressee : PublicKey)
  | serveReplay (io : SqliteResult) (channel : Int32) (cmd : TgMessage) (now : ℤ)
  | friendRequest (publicKeyIsBlocked : PublicKey → Bool) (key : PublicKey) (added : Option ℕ)
      (tox : ToxHandle)
  | friendAdd (key : PublicKey) (number : ℕ)
  | purge (now inactiveLimit : UInt64) (lastOnline : ℕ → Option UInt64) (friendList : List ℕ)
  | blockedSender (publicKeyIsBlocked : PublicKey → Bool) (friendnumber : ℕ)
  | save
  | restart (io : SqliteResult) (contacts : Contacts) (tox : ToxHandle) (ready : Bool) (now : ℤ)

namespace FriendRun

section

variable {Ini : Type}

def queue (s : FriendRun Ini) : Mq := s.relay.ctx.queue

def rows (s : FriendRun Ini) : List (ℤ × ChatRow) := s.relay.ctx.db.table.rows

def withQueue (s : FriendRun Ini) (queue : Mq) : FriendRun Ini :=
  { s with relay := { s.relay with ctx := { s.relay.ctx with queue := queue } } }

/-! ## Messages and rows -/

def enqueue (s : FriendRun Ini) (channel : ℤ) (addressee : PublicKey) (payload : Bytes)
    (now : ℤ) : FriendRun Ini :=
  { s with
    relay := { s.relay with ctx := (relayEnqueue s.relay.ctx channel payload now).2 }
    queuedFor :=
      if (relayEnqueue s.relay.ctx channel payload now).1 = 0 then
        match (mqFindFreeSlot mqCapacity s.queue).1 with
        | none => s.queuedFor
        | some slot => Function.update s.queuedFor slot addressee
      else s.queuedFor }

def service (s : FriendRun Ini) (m : ToxNetwork) (now : ℤ) : MqServiced :=
  mqService mqCapacity s.queue (some (toxTransport (some (s.contacts.network m)))) now

def store (s : FriendRun Ini) (add : ArchiveAdd) (addressee : PublicKey) : FriendRun Ini :=
  let added := add.run s.relay.ctx.db
  { s with
    relay := { s.relay with ctx := { s.relay.ctx with db := added.2 } }
    storedFor :=
      if added.1 = msgDbOk then Function.update s.storedFor add.datetime.toInt addressee
      else s.storedFor }

/-- What `relay_serve_replay` queues, each with the addressee of the row it was
built from. -/
def answers (s : FriendRun Ini) (io : SqliteResult) (channel : ℤ) (cmd : TgMessage) :
    List (Bytes × PublicKey) :=
  match relayPeerKey s.relay.ctx channel with
  | none => []
  | some peer =>
      let fetched := relayFetchRange io s.relay.ctx channel cmd.sn cmd.snTo relayMaxReplay
      (fetched.2.take fetched.1.toNat).filterMap fun record =>
        let encoded := tgEncodeText relayWireMax (some peer) (some s.relay.ctx.selfPublicKeyStr)
          record.sn record.timestamp (some record.body)
        if encoded.code ≤ 0 then none
        else some (encoded.wire, s.storedFor record.timestamp.toInt)

/-- The answers, queued one after another. -/
def enqueueAll (s : FriendRun Ini) (channel now : ℤ) (answers : List (Bytes × PublicKey)) :
    FriendRun Ini :=
  answers.foldl (fun s answer => s.enqueue channel answer.2 answer.1 now) s

def save (s : FriendRun Ini) : FriendRun Ini :=
  { s with
    files := (mqPersistSave mqCapacity (some queueFile) s.queue s.files).files
    saved := some (s.queue, s.queuedFor) }

/-- The addressees of the messages of `before`, by their slots in `after`. -/
def carriedOver (before after : Mq) (queuedFor : ℕ → PublicKey) (slot : ℕ) : PublicKey :=
  queuedFor ((mqVisited mqCapacity before).getD ((mqVisited mqCapacity after).idxOf slot) 0)

/-! ## The handlers of the node -/

variable (minIni : MinIni Ini)

def serveReplay (s : FriendRun Ini) (io : SqliteResult) (channel : ℤ) (cmd : TgMessage)
    (now : ℤ) : FriendRun Ini :=
  let env := relayInit minIni io s.relay.ctx.selfPublicKeyStr
  { s with
    relay := (relayServeReplay env s.relay channel cmd now).state
    queuedFor := (s.enqueueAll channel now (s.answers io channel cmd)).queuedFor }

/-- `cb_friend_request`; `added` is the number `tox_friend_add_norequest` returns,
if it reports no error. -/
def cbFriendRequest (s : FriendRun Ini) (publicKeyIsBlocked : PublicKey → Bool)
    (key : PublicKey) (added : Option ℕ) (tox : ToxHandle) : FriendRun Ini :=
  if publicKeyIsBlocked key then s
  else
    { s with
      relay := { s.relay with ctx := getRelayNameList minIni tox s.relay.ctx }
      contacts :=
        match added with
        | none => s.contacts
        | some number => Function.update s.contacts number (some key) }

/-- The start of `main`: what the process kept in memory is gone, toxcore answers
with the contacts of its own file. -/
def restart (s : FriendRun Ini) (io : SqliteResult) (contacts : Contacts) (tox : ToxHandle)
    (ready : Bool) (now : ℤ) : FriendRun Ini :=
  let loaded := mqPersistLoad mqCapacity (some queueFile) (mqStart true true).queue s.files now
  let node := getRelayNameList minIni tox
    (nodeAtStart s.relay.ctx.ini loaded.queue { s.relay.ctx.db with ready := ready })
  let env := relayInit minIni io node.selfPublicKeyStr
  { s with
    relay := (relayRecoverTrackers env (some (relayLastStoredSn io)) maxFriendNum
      ⟨node, fun _ => ⟨0, false, []⟩⟩).2
    contacts := contacts
    queuedFor :=
      match s.saved with
      | none => s.queuedFor
      | some (queue, queuedFor) => carriedOver queue loaded.queue queuedFor }

def step (s : FriendRun Ini) : FriendOp → FriendRun Ini
  | .enqueue channel addressee payload now => s.enqueue channel.toInt addressee payload now
  | .confirm friendnum receipt =>
      s.withQueue (mqConfirm mqCapacity s.queue friendnum receipt).queue
  | .service m now => s.withQueue (s.service m now).queue
  | .store add addressee => s.store add addressee
  | .serveReplay io channel cmd now => s.serveReplay minIni io channel.toInt cmd now
  | .friendRequest publicKeyIsBlocked key added tox =>
      s.cbFriendRequest minIni publicKeyIsBlocked key added tox
  | .friendAdd key number =>
      { s with contacts := Function.update s.contacts number (some key) }
  | .purge now inactiveLimit lastOnline friendList =>
      { s with contacts := purgeInactiveFriends now inactiveLimit lastOnline friendList s.contacts }
  | .blockedSender publicKeyIsBlocked friendnumber =>
      { s with contacts := deleteBlockedSender publicKeyIsBlocked s.contacts friendnumber }
  | .save => s.save
  | .restart io contacts tox ready now => s.restart minIni io contacts tox ready now

end

/-! ## What is asked of a run -/

section

variable {Ini : Type} (s : FriendRun Ini)

/-- The payloads an operation hands to toxcore, with their friend numbers and
addressees. -/
def handed : FriendOp → List (ℤ × Bytes × PublicKey)
  | .service m now =>
      match (s.service m now).slot with
      | none => []
      | some slot =>
          ((s.service m now).calls.filterMap (toxSent (s.contacts.network m))).map fun sent =>
            (sent.1, sent.2, s.queuedFor slot)
  | _ => []

/-- Every payload handed to toxcore goes to the contact it was addressed to. -/
def Rightful (op : FriendOp) : Prop :=
  ∀ sent ∈ s.handed op, s.contacts sent.1.toNat = some sent.2.2

/-- Whoever holds the number of a stored message is its addressee. -/
def MessagesFit (contacts : Contacts) (queue : Mq) (queuedFor : ℕ → PublicKey) : Prop :=
  ∀ slot < mqCapacity, (queue.ring slot).Occupied →
    contacts.Fits (queue.ring slot).friendnum (queuedFor slot)

/-- Whoever holds the number of an outgoing row is its addressee. -/
def RowsFit (contacts : Contacts) : Prop :=
  ∀ entry ∈ s.rows, entry.2.direction = outgoing →
    contacts.Fits entry.2.friendNum (s.storedFor entry.1)

/-- As far as the queue, the queue file and the archive go, the contacts may be
these. -/
structure KeepsApart (contacts : Contacts) : Prop where
  queued : MessagesFit contacts s.queue s.queuedFor
  saved : ∀ snapshot ∈ s.saved, MessagesFit contacts snapshot.1 snapshot.2
  stored : s.RowsFit contacts

/-- Nothing is written for a number on behalf of a contact other than its holder,
and a number is given out only when whatever is left for it is addressed to the
new holder. -/
def Careful : FriendOp → Prop
  | .enqueue channel addressee _ _ =>
      0 ≤ channel.toInt → s.contacts.Fits channel.toInt addressee
  | .store add addressee =>
      add.Accepted → add.direction = some outgoing → s.contacts.Fits add.friendNum addressee
  | .friendRequest publicKeyIsBlocked key added _ =>
      publicKeyIsBlocked key = false → ∀ number ∈ added,
        s.KeepsApart (Function.update s.contacts number (some key))
  | .friendAdd key number => s.KeepsApart (Function.update s.contacts number (some key))
  | .restart _ contacts _ _ _ =>
      (∀ snapshot ∈ s.saved, MessagesFit contacts snapshot.1 snapshot.2) ∧ s.RowsFit contacts
  | _ => True

/-- What is written for a number is meant for its holder, toxcore gives out a
number that nobody holds, and keeps the contacts over a restart. -/
def Promised : FriendOp → Prop
  | .enqueue channel addressee _ _ => s.contacts channel.toInt.toNat = some addressee
  | .store add addressee => s.contacts add.friendNum.toNat = some addressee
  | .friendRequest _ _ added _ => ∀ number ∈ added, s.contacts number = none
  | .friendAdd _ number => s.contacts number = none
  | .restart _ contacts _ _ _ => contacts = s.contacts
  | _ => True

instance (op : FriendOp) : Decidable (s.Rightful op) :=
  List.decidableBAll _ _

end

end FriendRun

/-- The first start of a node, with nothing queued, saved or archived. -/
def friendStart {Ini : Type} (relay : RelayState (Node Ini)) (contacts : Contacts) :
    FriendRun Ini where
  relay := { relay with ctx := { relay.ctx with
    queue := (mqStart true true).queue, db := { relay.ctx.db with table := .empty } } }
  contacts := contacts
  files := fun _ => none
  queuedFor := fun _ => Vector.replicate 32 0
  saved := none
  storedFor := fun _ => Vector.replicate 32 0

end ToxRelayer
