import ToxRelayer.MqPersistRoundTrip

/-!
# Whether a load has read the whole file

`mq_persist_load` takes the counted records and looks neither at the reserved field
nor behind the last record.  A file it accepts is written back unchanged exactly
when there was nothing to be missed there.
-/

namespace ToxRelayer

open CString RingIndex LittleEndian

/-- The offset behind the last of the counted records. -/
def mqRecordsEnd (buf : Bytes) : ℕ → ℕ → ℕ
  | 0, off => off
  | count + 1, off =>
      mqRecordsEnd buf count (off + mqPersistRecordHead + mqRecordLen buf off)

/-- The reserved field is zero and the records end where the file does. -/
def MqFileWhole (buf : Bytes) : Prop :=
  leGetU32 (buf.drop 16) = 0 ∧
    mqRecordsEnd buf (leGetU32 (buf.drop 12)).toNat mqPersistHeaderSize = buf.length

instance (buf : Bytes) : Decidable (MqFileWhole buf) :=
  inferInstanceAs (Decidable (_ ∧ _))

/-- A record as the queue lists it once it is loaded. -/
def mqLoadedMessage (record : ℤ × Bytes) : ℤ × Bytes × ℕ :=
  (record.1, record.2, record.2.length)

/-! ## The records written back -/

section

variable {buf : Bytes}

theorem mqSaveMessage_read {off : ℕ}
    (hroom : off + mqPersistRecordHead + mqRecordLen buf off ≤ buf.length) :
    mqSaveMessage (mqLoadedMessage (mqRecordFriendnum buf off,
        (buf.drop (off + mqPersistRecordHead)).take (mqRecordLen buf off))) =
      (buf.drop off).take (mqPersistRecordHead + mqRecordLen buf off) := by
  simp only [mqPersistRecordHead] at hroom ⊢
  have hlen : ((buf.drop (off + 8)).take (mqRecordLen buf off)).length =
      mqRecordLen buf off := by
    rw [List.length_take, List.length_drop]
    omega
  have hfriendnum : lePutI32 (Int32.ofInt (mqRecordFriendnum buf off)) =
      (buf.drop off).take 4 := by
    rw [mqRecordFriendnum, Int32.ofInt_toInt, lePutI32_leGetI32]
    rw [List.length_drop]
    omega
  have hlength : lePutU32 (UInt32.ofNat (mqRecordLen buf off)) =
      (buf.drop (off + 4)).take 4 := by
    rw [mqRecordLen, UInt32.ofNat_toNat, lePutU32_leGetU32]
    rw [List.length_drop]
    omega
  calc mqSaveMessage (mqLoadedMessage (mqRecordFriendnum buf off,
          (buf.drop (off + 8)).take (mqRecordLen buf off)))
      = (buf.drop off).take 4 ++ (buf.drop (off + 4)).take 4 ++
          (buf.drop (off + 8)).take (mqRecordLen buf off) := by
        rw [mqSaveMessage, mqLoadedMessage, mqSaveVisit, hlen, hfriendnum, hlength,
          List.take_take, min_self]
    _ = (buf.drop off).take (8 + mqRecordLen buf off) := by
        rw [List.take_add, List.take_add (i := 4) (j := 4), List.drop_drop, List.drop_drop]

theorem mqRecords_written {count off : ℕ} (hoff : off ≤ buf.length)
    (hvalid : mqValidateRecords buf count off = true) :
    mqRecordsEnd buf count off ≤ buf.length ∧
      buf.take off ++ ((mqRecords buf count off).map mqLoadedMessage).flatMap mqSaveMessage =
        buf.take (mqRecordsEnd buf count off) := by
  induction count generalizing off with
  | zero => exact ⟨hoff, by simp [mqRecords, mqRecordsEnd]⟩
  | succ count ih =>
      obtain ⟨-, hroom, hlater⟩ := (mqValidateRecords_succ count off).mp hvalid
      obtain ⟨hend, hwritten⟩ := ih hroom hlater
      refine ⟨hend, ?_⟩
      rw [mqRecordsEnd, ← hwritten, mqRecords, List.map_cons, List.flatMap_cons,
        mqSaveMessage_read hroom, ← List.append_assoc, ← List.take_add, Nat.add_assoc]

/-- Of the header only the reserved field is not read. -/
theorem mqHeader_written (hlength : mqPersistHeaderSize ≤ buf.length)
    (hmagic : buf.take mqPersistMagic.length = mqPersistMagic)
    (hversion : leGetU32 (buf.drop 8) = mqPersistVersion) :
    mqSaveHeader (leGetU32 (buf.drop 12)).toNat = buf.take 16 ++ lePutU32 0 := by
  have hfield : ∀ off, off + 4 ≤ 20 →
      lePutU32 (leGetU32 (buf.drop off)) = (buf.drop off).take 4 := by
    intro off hoff
    rw [mqPersistHeaderSize] at hlength
    apply lePutU32_leGetU32
    rw [List.length_drop]
    omega
  have hmagicLength : mqPersistMagic.length = 8 := rfl
  calc mqSaveHeader (leGetU32 (buf.drop 12)).toNat
      = buf.take 8 ++ (buf.drop 8).take 4 ++ (buf.drop 12).take 4 ++ lePutU32 0 := by
        rw [mqSaveHeader, UInt32.ofNat_toNat, ← hversion, hfield 8 (by omega),
          hfield 12 (by omega), ← hmagicLength, hmagic]
    _ = buf.take 16 ++ lePutU32 0 := by
        rw [← List.take_add, ← List.take_add]

end

/-! ## What is written back -/

section

variable {cap : ℕ} {path : CStr} {files : FileSystem} {buf : Bytes}

theorem mqFileRecords_accepted {records : List (ℤ × Bytes)}
    (hfile : files path.val = some buf)
    (hrecords : mqFileRecords cap (some path) files = some records) :
    mqPersistHeaderSize ≤ buf.length ∧ buf.take mqPersistMagic.length = mqPersistMagic ∧
      leGetU32 (buf.drop 8) = mqPersistVersion ∧
      mqValidateRecords buf (leGetU32 (buf.drop 12)).toNat mqPersistHeaderSize = true ∧
      records = mqRecords buf (leGetU32 (buf.drop 12)).toNat mqPersistHeaderSize := by
  rw [mqFileRecords, mqReadAll, hfile] at hrecords
  dsimp only at hrecords
  split at hrecords
  · cases hrecords
  · split at hrecords
    · cases hrecords
    · next hread =>
        split at hread
        · cases hread
        · next hlength =>
            cases hread
            split at hrecords
            · next haccepted =>
                obtain ⟨hmagic, hversion, -, hvalid⟩ := haccepted
                cases hrecords
                exact ⟨by omega, hmagic, hversion, hvalid, rfl⟩
            · cases hrecords

/-- The reserved field becomes zero, and nothing is kept of what lies behind the
records. -/
theorem mqPersistLoad_saveBytes (hcap : 0 < cap) (hfile : files path.val = some buf)
    (dropFn changeFn : Bool) (now : ℤ)
    (hloaded : 0 ≤
      (mqPersistLoad cap (some path) (mqStart dropFn changeFn).queue files now).code) :
    mqPersistHeaderSize ≤ buf.length ∧
      mqRecordsEnd buf (leGetU32 (buf.drop 12)).toNat mqPersistHeaderSize ≤ buf.length ∧
      ∃ written,
        buf.take mqPersistHeaderSize ++ written =
          buf.take (mqRecordsEnd buf (leGetU32 (buf.drop 12)).toNat mqPersistHeaderSize) ∧
        mqSaveBytes cap
            (mqPersistLoad cap (some path) (mqStart dropFn changeFn).queue files now).queue =
          buf.take 16 ++ lePutU32 0 ++ written := by
  rcases @mqPersistLoad_cases cap (some path) (mqStart dropFn changeFn).queue files now
    with ⟨-, code, hcode, hrefused⟩ | ⟨records, hrecords, -⟩
  · rw [hrefused] at hloaded
    exact absurd hloaded (not_le.mpr hcode)
  · obtain ⟨-, hinv, hlisted, -⟩ := mqPersistLoad_fresh hcap hrecords dropFn changeFn now
    obtain ⟨hlength, hmagic, hversion, hvalid, rfl⟩ := mqFileRecords_accepted hfile hrecords
    obtain ⟨hend, hwritten⟩ := mqRecords_written hlength hvalid
    refine ⟨hlength, hend, _, hwritten, ?_⟩
    have hcount := hinv.toMqCounted.foreach_length
    rw [hlisted, List.length_map, mqRecords_length] at hcount
    rw [← mqHeader_written hlength hmagic hversion, mqSaveBytes, ← hcount, hlisted]
    rfl

/-- What a load into a queue that has just been reset accepts is written back as it
was exactly when the file has a zero reserved field and nothing behind its records. -/
theorem mqPersistLoad_whole_iff (hcap : 0 < cap) (hfile : files path.val = some buf)
    (dropFn changeFn : Bool) (now : ℤ)
    (hloaded : 0 ≤
      (mqPersistLoad cap (some path) (mqStart dropFn changeFn).queue files now).code)
    (target : CStr) (htarget : MqPathUsable target) :
    (mqPersistSave cap (some target)
        (mqPersistLoad cap (some path) (mqStart dropFn changeFn).queue files now).queue
        files).files target.val = some buf ↔ MqFileWhole buf := by
  obtain ⟨hlength, hend, written, hwritten, hbytes⟩ :=
    mqPersistLoad_saveBytes hcap hfile dropFn changeFn now hloaded
  rw [(mqPersistSave_files htarget _ files).2, hbytes, Option.some.injEq, MqFileWhole]
  rw [mqPersistHeaderSize] at hlength
  have hheader : buf.take mqPersistHeaderSize = buf.take 16 ++ (buf.drop 16).take 4 := by
    rw [← List.take_add]
    rfl
  have hfield : lePutU32 (leGetU32 (buf.drop 16)) = (buf.drop 16).take 4 := by
    apply lePutU32_leGetU32
    rw [List.length_drop]
    omega
  have hreserved : leGetU32 (buf.drop 16) = 0 →
      buf.take 16 ++ lePutU32 0 ++ written =
        buf.take (mqRecordsEnd buf (leGetU32 (buf.drop 12)).toNat mqPersistHeaderSize) := by
    intro hzero
    rw [← hwritten, hheader, ← hfield, hzero]
  constructor
  · intro hsame
    have hdrop : buf.drop 16 = lePutU32 0 ++ written := by
      rw [← hsame, List.append_assoc, List.drop_left']
      rw [List.length_take]
      omega
    have hzero : leGetU32 (buf.drop 16) = 0 := by
      rw [hdrop, leGetU32_lePutU32]
    have hall := congrArg List.length ((hreserved hzero).symm.trans hsame)
    rw [List.length_take] at hall
    exact ⟨hzero, by omega⟩
  · rintro ⟨hzero, hlast⟩
    rw [hreserved hzero, hlast, List.take_length]

end

/-- A file that has lost its record count. -/
def uncountedFile : Bytes := mqSaveHeader 0 ++ mqSaveMessage (0, [66], 1)

theorem mqPersistLoad_whole_iff_uncounted :
    (mqPersistSave 2 (some ⟨[113], by decide⟩)
        (mqPersistLoad 2 (some ⟨[113], by decide⟩) (mqStart false false).queue
          (fun _ => some uncountedFile) 0).queue
        fun _ => some uncountedFile).files [113] = some uncountedFile ↔
      MqFileWhole uncountedFile :=
  mqPersistLoad_whole_iff (by decide) (by rfl) false false 0 (by decide +kernel)
    ⟨[113], by decide⟩ (by rw [MqPathUsable]; decide)

/-- Its telegram is not restored, and gone with the next save. -/
theorem mqPersistLoad_not_whole :
    ¬ ∀ cap, 0 < cap → ∀ (path : CStr) (files : FileSystem) (buf : Bytes) (now : ℤ),
      files path.val = some buf →
        0 ≤ (mqPersistLoad cap (some path) mqInit files now).code →
          ∀ target : CStr, MqPathUsable target →
            (mqPersistSave cap (some target)
              (mqPersistLoad cap (some path) mqInit files now).queue files).files target.val =
                some buf := by
  intro hall
  have hsame := hall 2 (by decide) ⟨[113], by decide⟩ (fun _ => some uncountedFile) uncountedFile 0
    rfl (by decide +kernel) ⟨[113], by decide⟩ (by rw [MqPathUsable]; decide)
  revert hsame
  decide +kernel

end ToxRelayer
