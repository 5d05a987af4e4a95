import ToxRelayer.LittleEndian
import ToxRelayer.MsgQueue

/-!
# The durable mirror of the queue

`mq_persist.c` over a map from path names to file contents; reading and writing
a file does not fail.  The loops walk the buffer by offset as the source does,
and the records a file offers are stated beside them as a list.
-/

namespace ToxRelayer

open CString LittleEndian

def mqPersistMagic : Bytes := bytes "MQPQUEUE"
def mqPersistVersion : UInt32 := 1
def mqPersistHeaderSize : ℕ := 20
def mqPersistRecordHead : ℕ := 8

def mqPersistOk : ℤ := 0
def mqPersistErrPath : ℤ := -1
def mqPersistErrFormat : ℤ := -3
def mqPersistErrFull : ℤ := -4
def mqPersistErrNofile : ℤ := -5

def pathMax : ℕ := 4096

/-- `QUEUE_FILE` -/
def queueFile : CStr := ⟨bytes "mq_queue.dat", by decide⟩

abbrev FileSystem := Bytes → Option Bytes

/-! ## Saving -/

/-- The bytes `mq_save_visit` writes for one message. -/
def mqSaveVisit (friendnum : ℤ) (payload : Bytes) (len : ℕ) : Bytes :=
  lePutI32 (Int32.ofInt friendnum) ++ lePutU32 (UInt32.ofNat len) ++ payload.take len

def mqSaveHeader (count : ℕ) : Bytes :=
  mqPersistMagic ++ lePutU32 mqPersistVersion ++ lePutU32 (UInt32.ofNat count) ++ lePutU32 0

def mqSaveBytes (cap : ℕ) (q : Mq) : Bytes :=
  mqSaveHeader q.count ++ (mqForeach cap q).flatMap fun message =>
    mqSaveVisit message.1 message.2.1 message.2.2

structure MqSaved where
  code : ℤ
  files : FileSystem

def mqPersistSave (cap : ℕ) (path : Option CStr) (q : Mq) (files : FileSystem) : MqSaved :=
  match path with
  | none => ⟨mqPersistErrPath, files⟩
  | some path =>
      if path.val = [] then ⟨mqPersistErrPath, files⟩
      else
        let tmp := path.val ++ bytes ".tmp"
        if pathMax ≤ tmp.length then ⟨mqPersistErrPath, files⟩
        else
          -- the renaming takes the name of the temporary file away
          ⟨mqPersistOk, Function.update (Function.update files tmp none) path.val
            (some (mqSaveBytes cap q))⟩

/-! ## Loading -/

def mqReadAll (path : Bytes) (files : FileSystem) : Except ℤ Bytes :=
  match files path with
  | none => .error mqPersistErrNofile
  | some buf =>
      if buf.length < mqPersistHeaderSize then .error mqPersistErrFormat else .ok buf

def mqRecordFriendnum (buf : Bytes) (off : ℕ) : ℤ := (leGetI32 (buf.drop off)).toInt

def mqRecordLen (buf : Bytes) (off : ℕ) : ℕ := (leGetU32 (buf.drop (off + 4))).toNat

/-- The loop of `mq_validate_records` -/
def mqValidateRecords (buf : Bytes) : ℕ → ℕ → Bool
  | 0, _ => true
  | count + 1, off =>
      if buf.length < off + mqPersistRecordHead then false
      else
        let friendnum := mqRecordFriendnum buf off
        let len := mqRecordLen buf off
        let off := off + mqPersistRecordHead
        if friendnum < 0 ∨ len = 0 ∨ mqPayloadMax ≤ len then false
        else if buf.length < off + len then false
        else mqValidateRecords buf count (off + len)

structure MqLoaded where
  code : ℤ
  queue : Mq
  calls : List MqCall

/-- The importing loop of `mq_persist_load` -/
def mqImportLoop (cap : ℕ) (buf : Bytes) (now : ℤ) : ℕ → ℕ → ℤ → Mq → MqLoaded
  | 0, _, loaded, q => ⟨loaded, q, []⟩
  | count + 1, off, loaded, q =>
      let friendnum := mqRecordFriendnum buf off
      let len := mqRecordLen buf off
      let off := off + mqPersistRecordHead
      let enqueued := mqEnqueue cap q friendnum (some ((buf.drop off).take len)) now
      let off := off + len
      if enqueued.code = mqOk then
        let rest := mqImportLoop cap buf now count off (loaded + 1) enqueued.queue
        { rest with calls := enqueued.calls ++ rest.calls }
      else if enqueued.code = mqErrFull then
        ⟨mqPersistErrFull, enqueued.queue, enqueued.calls⟩
      else ⟨mqPersistErrFormat, enqueued.queue, enqueued.calls⟩

def mqPersistLoad (cap : ℕ) (path : Option CStr) (q : Mq) (files : FileSystem) (now : ℤ) :
    MqLoaded :=
  match path with
  | none => ⟨mqPersistErrPath, q, []⟩
  | some path =>
      if path.val = [] then ⟨mqPersistErrPath, q, []⟩
      else
        match mqReadAll path.val files with
        | .error code => ⟨code, q, []⟩
        | .ok buf =>
            if buf.take mqPersistMagic.length ≠ mqPersistMagic ∨
                leGetU32 (buf.drop 8) ≠ mqPersistVersion then
              ⟨mqPersistErrFormat, q, []⟩
            else
              let count := (leGetU32 (buf.drop 12)).toNat
              if cap < count ∨ mqValidateRecords buf count mqPersistHeaderSize = false then
                ⟨mqPersistErrFormat, q, []⟩
              else mqImportLoop cap buf now count mqPersistHeaderSize 0 q

/-! ## The records of a file -/

/-- Friend number and payload of the records from an offset on. -/
def mqRecords (buf : Bytes) : ℕ → ℕ → List (ℤ × Bytes)
  | 0, _ => []
  | count + 1, off =>
      let len := mqRecordLen buf off
      let body := off + mqPersistRecordHead
      (mqRecordFriendnum buf off, (buf.drop body).take len) ::
        mqRecords buf count (body + len)

/-- The records a load goes on to import, if it does not refuse the file. -/
def mqFileRecords (cap : ℕ) (path : Option CStr) (files : FileSystem) :
    Option (List (ℤ × Bytes)) :=
  match path with
  | none => none
  | some path =>
      if path.val = [] then none
      else
        match mqReadAll path.val files with
        | .error _ => none
        | .ok buf =>
            let count := (leGetU32 (buf.drop 12)).toNat
            if buf.take mqPersistMagic.length = mqPersistMagic ∧
                leGetU32 (buf.drop 8) = mqPersistVersion ∧ count ≤ cap ∧
                mqValidateRecords buf count mqPersistHeaderSize = true then
              some (mqRecords buf count mqPersistHeaderSize)
            else none

/-- The import of a list of records: stop at the first that is not accepted. -/
def mqImport (cap : ℕ) (now : ℤ) : List (ℤ × Bytes) → ℤ → Mq → MqLoaded
  | [], loaded, q => ⟨loaded, q, []⟩
  | record :: records, loaded, q =>
      let enqueued := mqEnqueue cap q record.1 (some record.2) now
      if enqueued.code = mqOk then
        let rest := mqImport cap now records (loaded + 1) enqueued.queue
        { rest with calls := enqueued.calls ++ rest.calls }
      else if enqueued.code = mqErrFull then
        ⟨mqPersistErrFull, enqueued.queue, enqueued.calls⟩
      else ⟨mqPersistErrFormat, enqueued.queue, enqueued.calls⟩

/-- What `mq_validate_records` asks of one record. -/
def MqRecordValid (record : ℤ × Bytes) : Prop :=
  0 ≤ record.1 ∧ 0 < record.2.length ∧ record.2.length < mqPayloadMax

section

variable {cap : ℕ} {buf : Bytes}

@[simp] theorem mqRecords_length (count off : ℕ) : (mqRecords buf count off).length = count := by
  induction count generalizing off with
  | zero => rfl
  | succ count ih =>
      rw [mqRecords, List.length_cons, ih]

theorem mqImportLoop_eq (now : ℤ) (count off : ℕ) (loaded : ℤ) (q : Mq) :
    mqImportLoop cap buf now count off loaded q =
      mqImport cap now (mqRecords buf count off) loaded q := by
  induction count generalizing off loaded q with
  | zero => rfl
  | succ count ih =>
      simp only [mqImportLoop, mqRecords, mqImport, ih]

/-- What the check of one record lets through. -/
theorem mqValidateRecords_succ (count off : ℕ) :
    mqValidateRecords buf (count + 1) off = true ↔
      (0 ≤ mqRecordFriendnum buf off ∧ 0 < mqRecordLen buf off ∧
        mqRecordLen buf off < mqPayloadMax) ∧
      off + mqPersistRecordHead + mqRecordLen buf off ≤ buf.length ∧
      mqValidateRecords buf count (off + mqPersistRecordHead + mqRecordLen buf off) = true := by
  rw [mqValidateRecords]
  dsimp only
  split_ifs with hhead hfields hroom
  · simp only [false_iff]
    omega
  · simp only [false_iff]
    omega
  · simp only [false_iff]
    omega
  · constructor
    · intro hvalid
      exact ⟨by omega, by omega, hvalid⟩
    · rintro ⟨-, -, hvalid⟩
      exact hvalid

theorem mqRecords_valid {count off : ℕ} (hvalid : mqValidateRecords buf count off = true) :
    ∀ record ∈ mqRecords buf count off, MqRecordValid record := by
  induction count generalizing off with
  | zero => simp [mqRecords]
  | succ count ih =>
      obtain ⟨hfields, hroom, hlater⟩ := (mqValidateRecords_succ count off).mp hvalid
      have hlength : ((buf.drop (off + mqPersistRecordHead)).take
          (mqRecordLen buf off)).length = mqRecordLen buf off := by
        rw [List.length_take, List.length_drop]
        omega
      intro record hrecord
      rw [mqRecords, List.mem_cons] at hrecord
      rcases hrecord with rfl | hmem
      · rw [MqRecordValid, hlength]
        exact hfields
      · exact ih hlater record hmem

theorem mqFileRecords_valid {path : Option CStr} {files : FileSystem} {records : List (ℤ × Bytes)}
    (hrecords : mqFileRecords cap path files = some records) :
    records.length ≤ cap ∧ ∀ record ∈ records, MqRecordValid record := by
  unfold mqFileRecords at hrecords
  split at hrecords
  · cases hrecords
  · split at hrecords
    · cases hrecords
    · split at hrecords
      · cases hrecords
      · dsimp only at hrecords
        split at hrecords
        · rename_i haccepted
          obtain ⟨-, -, hcount, hvalid⟩ := haccepted
          cases hrecords
          rw [mqRecords_length]
          exact ⟨hcount, mqRecords_valid hvalid⟩
        · cases hrecords

/-- A load either refuses the file and does nothing, or imports its records. -/
theorem mqPersistLoad_cases (path : Option CStr) (q : Mq) (files : FileSystem) (now : ℤ) :
    (mqFileRecords cap path files = none ∧
        ∃ code < 0, mqPersistLoad cap path q files now = ⟨code, q, []⟩) ∨
      ∃ records, mqFileRecords cap path files = some records ∧
        mqPersistLoad cap path q files now = mqImport cap now records 0 q := by
  unfold mqFileRecords mqPersistLoad
  cases path with
  | none => exact .inl ⟨rfl, _, by decide, rfl⟩
  | some path =>
      dsimp only
      split
      · exact .inl ⟨rfl, _, by decide, rfl⟩
      · cases hread : mqReadAll path.val files with
        | error code =>
            refine .inl ⟨rfl, code, ?_, rfl⟩
            unfold mqReadAll at hread
            split at hread
            · cases hread
              decide
            · split at hread
              · cases hread
                decide
              · cases hread
        | ok buf =>
            have hformat : mqPersistErrFormat < 0 := by decide
            dsimp only
            by_cases hheader : buf.take mqPersistMagic.length ≠ mqPersistMagic ∨
                leGetU32 (buf.drop 8) ≠ mqPersistVersion
            · rw [if_pos hheader, if_neg (by tauto)]
              exact .inl ⟨rfl, _, hformat, rfl⟩
            · rw [if_neg hheader]
              simp only [not_or, not_not] at hheader
              by_cases hcount : (leGetU32 (buf.drop 12)).toNat ≤ cap
              · by_cases hvalid : mqValidateRecords buf (leGetU32 (buf.drop 12)).toNat
                    mqPersistHeaderSize = true
                · rw [if_pos ⟨hheader.1, hheader.2, hcount, hvalid⟩, mqImportLoop_eq,
                    if_neg (by simp [hcount, hvalid])]
                  exact .inr ⟨_, rfl, rfl⟩
                · rw [if_neg (by tauto), if_pos (.inr (Bool.not_eq_true _ ▸ hvalid))]
                  exact .inl ⟨rfl, _, hformat, rfl⟩
              · rw [if_neg (by tauto), if_pos (.inl (Nat.lt_of_not_le hcount))]
                exact .inl ⟨rfl, _, hformat, rfl⟩

end

end ToxRelayer
