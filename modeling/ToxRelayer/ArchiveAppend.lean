import ToxRelayer.MsgDatabase

/-!
# What the archive keeps

`msg_database_add` is documented to append one record.  `UTC_DateTime` is the
primary key and the statement is `INSERT OR REPLACE`, so it does as long as no
stored record carries the same second.
-/

namespace ToxRelayer

open CString

/-- One call of `msg_database_add`. -/
structure ArchiveAdd where
  io : SqliteResult
  friendNum : ℤ
  sn : ℤ
  datetime : Int64
  sender : Option CStr
  direction : Option CStr
  chatMsg : Option CStr

namespace ArchiveAdd

def run (add : ArchiveAdd) (db : MsgDatabase) : ℤ × MsgDatabase :=
  msgDatabaseAdd add.io db add.friendNum add.sn add.datetime add.sender add.direction
    add.chatMsg

/-- The record the call is asked to store. -/
def record (add : ArchiveAdd) : ℤ × ChatRow :=
  (add.datetime.toInt,
    chatRow add.friendNum add.sn add.sender (emptyIfNull add.direction) add.chatMsg)

/-- What a call needs, of its arguments and of SQLite, to succeed. -/
def Accepted (add : ArchiveAdd) : Prop :=
  add.io = .ok ∧ add.direction.isSome = true ∧ 0 ≤ add.friendNum

instance (add : ArchiveAdd) : Decidable add.Accepted :=
  inferInstanceAs (Decidable (_ ∧ _ ∧ _))

theorem run_of_accepted {add : ArchiveAdd} {db : MsgDatabase} (hready : db.ready = true)
    (haccepted : add.Accepted) :
    add.run db =
      (msgDbOk, { db with table := db.table.insertOrReplace add.record.1 add.record.2 }) := by
  obtain ⟨hio, hdirection, hfriend⟩ := haccepted
  obtain ⟨direction, hsome⟩ := Option.isSome_iff_exists.mp hdirection
  simp only [run, msgDatabaseAdd, record, hready, hio, hsome, emptyIfNull, Option.getD_some,
    Bool.not_true, Bool.false_eq_true, if_false]
  rw [if_neg (by omega)]

theorem run_of_not_ready (add : ArchiveAdd) {db : MsgDatabase} (hready : db.ready = false) :
    add.run db = (msgDbErrNotReady, db) := by
  simp only [run, msgDatabaseAdd, hready, Bool.not_false, if_true]

theorem run_of_not_accepted {add : ArchiveAdd} (db : MsgDatabase)
    (hrejected : ¬ add.Accepted) : (add.run db).1 ≠ msgDbOk ∧ (add.run db).2 = db := by
  have hcodes : msgDbErrNotReady ≠ msgDbOk ∧ msgDbErrRange ≠ msgDbOk ∧
      msgDbErrBind ≠ msgDbOk ∧ msgDbErrStep ≠ msgDbOk := by decide
  obtain ⟨hnotReady, hrange, hbind, hstep⟩ := hcodes
  unfold run msgDatabaseAdd
  split
  · exact ⟨hnotReady, rfl⟩
  · split
    · exact ⟨hrange, rfl⟩
    · rename_i direction hdirection
      split
      · exact ⟨hrange, rfl⟩
      · rename_i hfriend
        cases hio : add.io with
        | ok => exact absurd ⟨hio, by rw [hdirection]; rfl, by omega⟩ hrejected
        | prepareFails => exact ⟨hstep, rfl⟩
        | bindFails => exact ⟨hbind, rfl⟩
        | stepFails => exact ⟨hstep, rfl⟩

end ArchiveAdd

/-- The records stored before are still there unchanged, and one more. -/
def Appended (before after : MsgDatabase) (record : ℤ × ChatRow) : Prop :=
  after.table.rows.Perm (record :: before.table.rows)

/-- In a sequence of calls, every call that succeeds appends its record. -/
def AppendsOnly : MsgDatabase → List ArchiveAdd → Prop
  | _, [] => True
  | db, add :: adds =>
      ((add.run db).1 = msgDbOk → Appended db (add.run db).2 add.record) ∧
        AppendsOnly (add.run db).2 adds

/-- The timestamps of the calls that succeed. -/
def acceptedTimes (adds : List ArchiveAdd) : List ℤ :=
  (adds.filter fun add => add.Accepted).map fun add => add.datetime.toInt

theorem appendsOnly_iff_fresh {db : MsgDatabase} (hready : db.ready = true)
    (adds : List ArchiveAdd) :
    AppendsOnly db adds ↔
      (acceptedTimes adds).Nodup ∧ ∀ time ∈ acceptedTimes adds, ¬ db.table.HasKey time := by
  induction adds generalizing db with
  | nil => simp [AppendsOnly, acceptedTimes]
  | cons add adds ih =>
      by_cases haccepted : add.Accepted
      · have hrun := ArchiveAdd.run_of_accepted hready haccepted
        have hreadyAfter : (add.run db).2.ready = true := by
          rw [hrun]
          exact hready
        have hrest := ih hreadyAfter
        have htimes : acceptedTimes (add :: adds) = add.datetime.toInt :: acceptedTimes adds := by
          simp [acceptedTimes, haccepted]
        have hfirst : Appended db (add.run db).2 add.record ↔
            ¬ db.table.HasKey add.datetime.toInt := by
          rw [hrun]
          exact db.table.insertOrReplace_perm_iff _ _
        rw [AppendsOnly, hrest, htimes, hfirst, hrun]
        simp only [KeyedTable.Table.hasKey_insertOrReplace, List.nodup_cons, List.mem_cons,
          forall_eq_or_imp, not_or, true_imp_iff, ArchiveAdd.record]
        constructor
        · rintro ⟨hfree, hnodup, hothers⟩
          exact ⟨⟨fun hmem => (hothers _ hmem).1 rfl, hnodup⟩, hfree,
            fun time hmem => (hothers time hmem).2⟩
        · rintro ⟨⟨hnotMem, hnodup⟩, hfree, hothers⟩
          refine ⟨hfree, hnodup, fun time hmem => ⟨?_, hothers time hmem⟩⟩
          rintro rfl
          exact hnotMem hmem
      · obtain ⟨hcode, hsame⟩ := ArchiveAdd.run_of_not_accepted db haccepted
        have htimes : acceptedTimes (add :: adds) = acceptedTimes adds := by
          simp [acceptedTimes, haccepted]
        rw [AppendsOnly, hsame, htimes, ih hready]
        exact and_iff_right fun hok => absurd hok hcode

/-- In every sequence of calls on a new database, the archive only appends
exactly when no two successful calls carry the same timestamp. -/
theorem archive_appendsOnly_iff (adds : List ArchiveAdd) :
    AppendsOnly msgDatabaseOpened adds ↔ (acceptedTimes adds).Nodup := by
  rw [appendsOnly_iff_fresh rfl]
  refine and_iff_left ?_
  rintro time - ⟨row, hmem⟩
  exact absurd hmem List.not_mem_nil

/-- Two telegrams that two peers stamp with the same second. -/
def sameSecondAdds : List ArchiveAdd :=
  [⟨.ok, 1, 1, 1700000000, some ⟨bytes "AAAA", by decide⟩, some ⟨bytes "incoming", by decide⟩,
      some ⟨bytes "from one", by decide⟩⟩,
    ⟨.ok, 2, 1, 1700000000, some ⟨bytes "BBBB", by decide⟩, some ⟨bytes "incoming", by decide⟩,
      some ⟨bytes "from two", by decide⟩⟩]

theorem archive_loses_sameSecond :
    ¬ ∀ adds, AppendsOnly msgDatabaseOpened adds := by
  intro hall
  have happends := hall sameSecondAdds
  have hkept : Appended _ _ _ := happends.2.1 rfl
  have hlength := hkept.length_eq
  revert hlength
  decide

end ToxRelayer
