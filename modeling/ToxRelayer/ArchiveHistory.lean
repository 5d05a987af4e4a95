import ToxRelayer.ArchiveAppend
import ToxRelayer.SnTracker

/-!
# The rows of a history

The database after a sequence of calls of `msg_database_add`.  As long as every
successful call has a timestamp of its own, the rows are the records of the
successful calls, in the order of their timestamps.
-/

namespace ToxRelayer

/-- The database after the calls, in order. -/
def archiveAfter (adds : List ArchiveAdd) (db : MsgDatabase) : MsgDatabase :=
  adds.foldl (fun db add => (add.run db).2) db

/-- The records of the calls that succeed, in the order of the calls. -/
def acceptedRecords (adds : List ArchiveAdd) : List (ℤ × ChatRow) :=
  (adds.filter fun add => add.Accepted).map ArchiveAdd.record

/-- The records of one friend and direction among them. -/
def storedOn (friendNum : ℤ) (direction : CString.CStr) (adds : List ArchiveAdd) :
    List (ℤ × ChatRow) :=
  (acceptedRecords adds).filter (onChannel friendNum direction)

theorem acceptedRecords_fst (adds : List ArchiveAdd) :
    (acceptedRecords adds).map Prod.fst = acceptedTimes adds := by
  rw [acceptedRecords, acceptedTimes, List.map_map]
  rfl

theorem archiveAfter_ready (adds : List ArchiveAdd) {db : MsgDatabase}
    (hready : db.ready = true) : (archiveAfter adds db).ready = true := by
  induction adds generalizing db with
  | nil => exact hready
  | cons add adds ih =>
      rw [archiveAfter, List.foldl_cons, ← archiveAfter]
      refine ih ?_
      by_cases haccepted : add.Accepted
      · rw [ArchiveAdd.run_of_accepted hready haccepted]
        exact hready
      · rw [(ArchiveAdd.run_of_not_accepted db haccepted).2]
        exact hready

theorem archiveAfter_perm {adds : List ArchiveAdd} {db : MsgDatabase}
    (hready : db.ready = true) (htimes : (acceptedTimes adds).Nodup)
    (hfresh : ∀ time ∈ acceptedTimes adds, ¬ db.table.HasKey time) :
    (archiveAfter adds db).table.rows.Perm (acceptedRecords adds ++ db.table.rows) := by
  induction adds generalizing db with
  | nil => exact List.Perm.refl _
  | cons add adds ih =>
      rw [archiveAfter, List.foldl_cons, ← archiveAfter]
      by_cases haccepted : add.Accepted
      · have hrun := ArchiveAdd.run_of_accepted hready haccepted
        have hrecords : acceptedRecords (add :: adds) = add.record :: acceptedRecords adds := by
          simp [acceptedRecords, haccepted]
        have htail : acceptedTimes (add :: adds) = add.record.1 :: acceptedTimes adds := by
          rw [← acceptedRecords_fst, hrecords, List.map_cons, acceptedRecords_fst]
        rw [htail] at htimes hfresh
        obtain ⟨hnotMem, hnodup⟩ := List.nodup_cons.mp htimes
        have hfree := hfresh add.record.1 List.mem_cons_self
        have hinserted := KeyedTable.Table.insertOrReplace_perm_of_fresh add.record.2 hfree
        have hready' : (add.run db).2.ready = true := by
          rw [hrun]
          exact hready
        have hfresh' : ∀ time ∈ acceptedTimes adds, ¬ (add.run db).2.table.HasKey time := by
          intro time hmem
          rw [hrun, KeyedTable.Table.hasKey_insertOrReplace]
          rintro (rfl | hold)
          · exact hnotMem hmem
          · exact hfresh time (List.mem_cons_of_mem _ hmem) hold
        have hrest := ih hready' hnodup hfresh'
        rw [hrun] at hrest
        rw [hrecords, hrun]
        calc (archiveAfter adds _).table.rows
            |>.Perm (acceptedRecords adds ++
              (db.table.insertOrReplace add.record.1 add.record.2).rows) := hrest
          _ |>.Perm (acceptedRecords adds ++ add.record :: db.table.rows) :=
              hinserted.append_left _
          _ |>.Perm (add.record :: (acceptedRecords adds ++ db.table.rows)) :=
              List.perm_middle
      · have hrecords : acceptedRecords (add :: adds) = acceptedRecords adds := by
          simp [acceptedRecords, haccepted]
        have htail : acceptedTimes (add :: adds) = acceptedTimes adds := by
          simp [acceptedTimes, haccepted]
        rw [(ArchiveAdd.run_of_not_accepted db haccepted).2, hrecords]
        rw [htail] at htimes hfresh
        exact ih hready htimes hfresh

theorem archiveAfter_opened_perm {adds : List ArchiveAdd} (htimes : (acceptedTimes adds).Nodup) :
    (archiveAfter adds msgDatabaseOpened).table.rows.Perm (acceptedRecords adds) := by
  have hfresh : ∀ time ∈ acceptedTimes adds, ¬ msgDatabaseOpened.table.HasKey time := by
    rintro time - ⟨row, hmem⟩
    exact absurd hmem List.not_mem_nil
  have hrows := archiveAfter_perm rfl htimes hfresh
  rwa [show msgDatabaseOpened.table.rows = [] from rfl, List.append_nil] at hrows

/-- The rows of one channel are the records stored on it. -/
theorem archiveAfter_onChannel_perm {adds : List ArchiveAdd}
    (htimes : (acceptedTimes adds).Nodup) (friendNum : ℤ) (direction : CString.CStr) :
    ((archiveAfter adds msgDatabaseOpened).table.rows.filter (onChannel friendNum direction)).Perm
      (storedOn friendNum direction adds) :=
  (archiveAfter_opened_perm htimes).filter _

/-- Stored with increasing timestamps, they are the rows in this very order. -/
theorem archiveAfter_onChannel_eq {adds : List ArchiveAdd}
    (htimes : (acceptedTimes adds).Nodup) {friendNum : ℤ} {direction : CString.CStr}
    (hincreasing : (storedOn friendNum direction adds).Pairwise fun a b => a.1 < b.1) :
    (archiveAfter adds msgDatabaseOpened).table.rows.filter (onChannel friendNum direction) =
      storedOn friendNum direction adds := by
  have hperm := archiveAfter_onChannel_perm htimes friendNum direction
  have hsorted := (archiveAfter adds msgDatabaseOpened).table.sorted.filter
    (onChannel friendNum direction)
  refine hperm.eq_of_pairwise ?_ hsorted hincreasing
  intro a b _ _ hab hba
  exact absurd hba (lt_asymm hab)

/-! ## Telegrams with consecutive serials -/

/-- A telegram a second on channel 0. -/
def lapAdds (direction : CString.CStr) (start : ℤ) (n : ℕ) : List ArchiveAdd :=
  (List.range n).map fun k =>
    ⟨.ok, 0, tgSerialAt start k, Int64.ofInt (1700000000 + k), some .empty, some direction,
      some .empty⟩

def lapRow (direction : CString.CStr) (start : ℤ) (k : ℕ) : ℤ × ChatRow :=
  ((Int64.ofInt (1700000000 + k)).toInt,
    chatRow 0 (tgSerialAt start k) (some .empty) direction (some .empty))

theorem lapRow_sn (direction : CString.CStr) (start : ℤ) (k : ℕ) :
    (lapRow direction start k).2.sn = clampSn (tgSerialAt start k) := rfl

section

variable (direction : CString.CStr) (start : ℤ)

theorem acceptedRecords_lapAdds (n : ℕ) :
    acceptedRecords (lapAdds direction start n) =
      (List.range n).map (lapRow direction start) := by
  have hall : (lapAdds direction start n).filter (fun add => add.Accepted) =
      lapAdds direction start n := by
    refine List.filter_eq_self.mpr ?_
    intro add hadd
    obtain ⟨k, -, rfl⟩ := List.mem_map.mp hadd
    exact decide_eq_true ⟨rfl, rfl, le_rfl⟩
  rw [acceptedRecords, hall, lapAdds, List.map_map]
  rfl

theorem storedOn_lapAdds (n : ℕ) :
    storedOn 0 direction (lapAdds direction start n) =
      (List.range n).map (lapRow direction start) := by
  rw [storedOn, acceptedRecords_lapAdds, List.filter_eq_self]
  intro entry hentry
  obtain ⟨k, -, rfl⟩ := List.mem_map.mp hentry
  exact decide_eq_true ⟨rfl, rfl⟩

theorem lapRow_increasing {n : ℕ} (hn : n ≤ 1000000) :
    ((List.range n).map (lapRow direction start)).Pairwise fun a b => a.1 < b.1 := by
  have htime : ∀ k ∈ List.range n, (lapRow direction start k).1 = 1700000000 + k := by
    intro k hk
    have hlt := List.mem_range.mp hk
    simp only [lapRow, Int64.toInt_ofInt]
    exact Int.bmod_eq_of_le (by simp [Int64.size]; omega) (by simp [Int64.size]; omega)
  rw [List.pairwise_map]
  refine List.Pairwise.imp_of_mem ?_ List.pairwise_lt_range
  intro i j hi hj hlt
  rw [htime i hi, htime j hj]
  omega

theorem lapAdds_times {n : ℕ} (hn : n ≤ 1000000) :
    (acceptedTimes (lapAdds direction start n)).Nodup := by
  rw [← acceptedRecords_fst, acceptedRecords_lapAdds]
  refine List.pairwise_map.mpr ((lapRow_increasing direction start hn).imp ?_)
  intro a b hlt
  exact hlt.ne

theorem lapAdds_serials {start : ℤ} (hstart : tgSnValid start) (n : ℕ) :
    (storedOn 0 direction (lapAdds direction start n)).map (·.2.sn) = serialsFrom start n := by
  rw [storedOn_lapAdds, serialsFrom, List.map_map]
  refine List.map_congr_left ?_
  intro k _
  have hserial := tgSerialAt_valid hstart k
  simp only [tgSnValid, tgSnMin, tgSnMax] at hserial
  exact clampSn_of_stored (by simp only [msgDbSnMin, msgDbSnMax]; omega)

end

end ToxRelayer
