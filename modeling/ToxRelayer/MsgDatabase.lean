import ToxRelayer.CString
import ToxRelayer.KeyedTable

/-!
# The message database

`msg_database.c` over one table keyed by `UTC_DateTime`.  What SQLite answers
to a call beside its documented meaning, success or an error code, is an
argument.  A `time_t` is an `Int64`.
-/

namespace ToxRelayer

open CString

def msgDbOk : ℤ := 0
def msgDbErrNotReady : ℤ := -1
def msgDbErrPrepare : ℤ := -4
def msgDbErrBind : ℤ := -5
def msgDbErrStep : ℤ := -6
def msgDbErrRange : ℤ := -7

def msgDbSnMin : ℤ := 0
def msgDbSnMax : ℤ := 999

def msgDbSenderMax : ℕ := 128
def msgDbMessageMax : ℕ := 1024

/-- How the SQLite calls of one entry point end. -/
inductive SqliteResult where
  | ok
  | prepareFails
  | bindFails
  | stepFails
  deriving DecidableEq

/-- A row without its key `UTC_DateTime`. -/
structure ChatRow where
  sender : CStr
  sn : ℤ
  friendNum : ℤ
  direction : CStr
  message : CStr
  snStored : msgDbSnMin ≤ sn ∧ sn ≤ msgDbSnMax
  deriving DecidableEq

structure MsgDatabase where
  ready : Bool
  table : KeyedTable.Table ℤ ChatRow

/-- A database that has just been created. -/
def msgDatabaseOpened : MsgDatabase := ⟨true, .empty⟩

def copyBounded (dstSize : ℕ) (src : CStr) : CStr where
  val := src.val.take (dstSize - 1)
  nulFree := fun hmem => src.nulFree (List.mem_of_mem_take hmem)

/-- The clamping at the head of `msg_database_add`. -/
def clampSn (sn : ℤ) : ℤ :=
  if sn < msgDbSnMin then msgDbSnMin else if msgDbSnMax < sn then msgDbSnMax else sn

theorem clampSn_stored (sn : ℤ) : msgDbSnMin ≤ clampSn sn ∧ clampSn sn ≤ msgDbSnMax := by
  simp only [clampSn, msgDbSnMin, msgDbSnMax]
  split_ifs <;> omega

theorem clampSn_of_stored {sn : ℤ} (hsn : msgDbSnMin ≤ sn ∧ sn ≤ msgDbSnMax) :
    clampSn sn = sn := by
  rw [clampSn, if_neg (by omega), if_neg (by omega)]

def emptyIfNull (s : Option CStr) : CStr := s.getD CStr.empty

/-- The row `msg_database_add` binds to its statement. -/
def chatRow (friendNum sn : ℤ) (sender : Option CStr) (direction : CStr)
    (chatMsg : Option CStr) : ChatRow where
  sender := emptyIfNull sender
  sn := clampSn sn
  friendNum := friendNum
  direction := direction
  message := emptyIfNull chatMsg
  snStored := clampSn_stored sn

def msgDatabaseAdd (io : SqliteResult) (db : MsgDatabase) (friendNum sn : ℤ)
    (datetime : Int64) (sender direction chatMsg : Option CStr) : ℤ × MsgDatabase :=
  if !db.ready then (msgDbErrNotReady, db)
  else
    match direction with
    | none => (msgDbErrRange, db)
    | some direction =>
        if friendNum < 0 then (msgDbErrRange, db)
        else
          match io with
          | .bindFails => (msgDbErrBind, db)
          | .ok =>
              (msgDbOk, { db with
                table := db.table.insertOrReplace datetime.toInt
                  (chatRow friendNum sn sender direction chatMsg) })
          | _ => (msgDbErrStep, db)

/-- The rows of one friend and direction. -/
def onChannel (friendNum : ℤ) (direction : CStr) (entry : ℤ × ChatRow) : Bool :=
  entry.2.friendNum = friendNum ∧ entry.2.direction = direction

/-- `msg_database_last_sn`: its code and `*sn_out`, which held `snOut`. -/
def msgDatabaseLastSn (io : SqliteResult) (db : MsgDatabase) (friendNum : ℤ)
    (direction : Option CStr) (snOut : ℤ) : ℤ × ℤ :=
  if !db.ready then (msgDbErrNotReady, snOut)
  else
    match direction with
    | none => (msgDbErrRange, snOut)
    | some direction =>
        if friendNum < 0 then (msgDbErrRange, snOut)
        else
          match io with
          | .bindFails => (msgDbErrBind, 0)
          | .ok =>
              (msgDbOk, (((db.table.rows.filter (onChannel friendNum direction)).map
                (·.2.sn)).max?).getD 0)
          | _ => (msgDbErrStep, 0)

/-- A stored telegram retrieved for replay. -/
structure ChatMsgRecord where
  msgSn : ℤ
  datetime : Int64
  sender : CStr
  message : CStr
  deriving DecidableEq

def chatMsgRecord (entry : ℤ × ChatRow) : ChatMsgRecord where
  msgSn := entry.2.sn
  datetime := Int64.ofInt entry.1
  sender := copyBounded msgDbSenderMax entry.2.sender
  message := copyBounded msgDbMessageMax entry.2.message

/-- The condition on `Msg_SN` in `SQL_RANGE_IN` and `SQL_RANGE_WRAP`. -/
def inSnRange (start target sn : ℤ) : Bool :=
  if start ≤ target then start ≤ sn ∧ sn ≤ target else start ≤ sn ∨ sn ≤ target

/-- `msg_database_range`: its code and the records in `out`. -/
def msgDatabaseRange (io : SqliteResult) (db : MsgDatabase) (friendNum : ℤ)
    (direction : Option CStr) (start target : ℤ) (max : ℤ) : ℤ × List ChatMsgRecord :=
  if !db.ready then (msgDbErrNotReady, [])
  else
    match direction with
    | none => (msgDbErrRange, [])
    | some direction =>
        if max ≤ 0 ∨ friendNum < 0 then (msgDbErrRange, [])
        else if start < msgDbSnMin ∨ msgDbSnMax < start ∨
            target < msgDbSnMin ∨ msgDbSnMax < target then (msgDbErrRange, [])
        else
          match io with
          | .prepareFails => (msgDbErrPrepare, [])
          | .bindFails => (msgDbErrBind, [])
          | .stepFails => (msgDbErrStep, [])
          | .ok =>
              let records := (db.table.select (fun entry =>
                onChannel friendNum direction entry && inSnRange start target entry.2.sn)
                max.toNat).map chatMsgRecord
              (records.length, records)

end ToxRelayer
