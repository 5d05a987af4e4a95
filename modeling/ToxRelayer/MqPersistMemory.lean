import ToxRelayer.CheckedMemory
import ToxRelayer.MqPersistAtomic

/-!
# The two passes over the queue file

`mq_persist_load` walks the records twice, to validate them and to enqueue them.
Here every access to the buffer is checked, offsets are sums of `size_t`, and
each pass lists the offsets at which it has read a record.
-/

namespace ToxRelayer

open CString LittleEndian CheckedMemory

/-- The sum of two values of type `size_t`. -/
def sizeAdd (a b : ℕ) : ℕ := (a + b) % 2 ^ 64

/-- `le_get_u32` at an index of the buffer. -/
def leGetU32Mem (buf : Bytes) (i : ℕ) : Option UInt32 := do
  let b0 ← load buf i
  let b1 ← load buf (i + 1)
  let b2 ← load buf (i + 2)
  let b3 ← load buf (i + 3)
  some (leGetU32 [b0, b1, b2, b3])

def leGetI32Mem (buf : Bytes) (i : ℕ) : Option Int32 := (leGetU32Mem buf i).map UInt32.toInt32

/-- `mq_read_all`.  The length of a file is a `long`, or `ftell` fails. -/
def mqReadAllMem (path : Bytes) (files : FileSystem) : Except ℤ Bytes :=
  match files path with
  | none => .error mqPersistErrNofile
  | some buf =>
      if 2 ^ 63 ≤ buf.length then .error mqPersistErrIo
      else if buf.length < mqPersistHeaderSize then .error mqPersistErrFormat
      else .ok buf

/-- The loop of `mq_validate_records` -/
def mqValidateMem (buf : Bytes) : ℕ → ℕ → Option (Bool × List ℕ)
  | 0, _ => some (true, [])
  | count + 1, off =>
      if buf.length < sizeAdd off mqPersistRecordHead then some (false, [])
      else do
        let friendnum ← leGetI32Mem buf off
        let len ← leGetU32Mem buf (off + 4)
        let body := sizeAdd off mqPersistRecordHead
        if friendnum.toInt < 0 ∨ len.toNat = 0 ∨ mqPayloadMax ≤ len.toNat then some (false, [off])
        else if buf.length < sizeAdd body len.toNat then some (false, [off])
        else do
          let (valid, later) ← mqValidateMem buf count (sizeAdd body len.toNat)
          some (valid, off :: later)

/-- The importing loop of `mq_persist_load` -/
def mqImportMem (cap : ℕ) (buf : Bytes) (now : ℤ) :
    ℕ → ℕ → ℤ → Mq → Option (MqLoaded × List ℕ)
  | 0, _, loaded, q => some (⟨loaded, q, []⟩, [])
  | count + 1, off, loaded, q => do
      let friendnum ← leGetI32Mem buf off
      let len ← leGetU32Mem buf (off + 4)
      let body := sizeAdd off mqPersistRecordHead
      -- `mq_enqueue` reads the payload only once it has found a slot
      let payload ← loadBlock buf body len.toNat
      let enqueued := mqEnqueue cap q friendnum.toInt (some payload) now
      if enqueued.code = mqOk then do
        let (rest, later) ←
          mqImportMem cap buf now count (sizeAdd body len.toNat) (loaded + 1) enqueued.queue
        some ({ rest with calls := enqueued.calls ++ rest.calls }, off :: later)
      else if enqueued.code = mqErrFull then
        some (⟨mqPersistErrFull, enqueued.queue, enqueued.calls⟩, [off])
      else some (⟨mqPersistErrFormat, enqueued.queue, enqueued.calls⟩, [off])

/-- A load: `accepted` is the record count of the header if the validation pass
accepts the file, and the lists are the offsets the two passes read records at. -/
structure MqLoadTrace where
  loaded : MqLoaded
  accepted : Option ℕ
  validated : List ℕ
  imported : List ℕ

/-- Nothing has been imported. -/
def MqLoadTrace.refused (code : ℤ) (q : Mq) (validated : List ℕ) : MqLoadTrace :=
  ⟨⟨code, q, []⟩, none, validated, []⟩

/-- `mq_persist_load` on the buffer that holds the file. -/
def mqLoadBufferMem (cap : ℕ) (buf : Bytes) (q : Mq) (now : ℤ) : Option MqLoadTrace := do
  let magic ← loadBlock buf 0 mqPersistMagic.length
  if magic ≠ mqPersistMagic then some (.refused mqPersistErrFormat q [])
  else do
    let version ← leGetU32Mem buf 8
    if version ≠ mqPersistVersion then some (.refused mqPersistErrFormat q [])
    else do
      let count ← leGetU32Mem buf 12
      if cap < count.toNat then some (.refused mqPersistErrFormat q [])
      else do
        let (valid, validated) ← mqValidateMem buf count.toNat mqPersistHeaderSize
        if valid = false then some (.refused mqPersistErrFormat q validated)
        else do
          let (loaded, imported) ← mqImportMem cap buf now count.toNat mqPersistHeaderSize 0 q
          some ⟨loaded, some count.toNat, validated, imported⟩

def mqPersistLoadMem (cap : ℕ) (path : Option CStr) (q : Mq) (files : FileSystem) (now : ℤ) :
    Option MqLoadTrace :=
  match path with
  | none => some (.refused mqPersistErrPath q [])
  | some path =>
      if path.val = [] then some (.refused mqPersistErrPath q [])
      else
        match mqReadAllMem path.val files with
        | .error code => some (.refused code q [])
        | .ok buf => mqLoadBufferMem cap buf q now

/-! ## One read -/

theorem sizeAdd_of_lt {a b : ℕ} (hsum : a + b < 2 ^ 64) : sizeAdd a b = a + b :=
  Nat.mod_eq_of_lt hsum

section

variable {buf : Bytes} {off : ℕ}

theorem leGetU32Mem_eq (hin : off + 4 ≤ buf.length) :
    leGetU32Mem buf off = some (leGetU32 (buf.drop off)) := by
  have hcell : ∀ k < 4, load buf (off + k) = some ((buf.drop off).getD k 0) := by
    intro k hk
    have hlt : off + k < buf.length := by omega
    rw [load_of_lt hlt, List.getD_eq_getElem?_getD, List.getElem?_drop,
      List.getElem?_eq_getElem hlt, Option.getD_some]
  have hfirst := hcell 0 (by decide)
  rw [Nat.add_zero] at hfirst
  unfold leGetU32Mem
  rw [hfirst, hcell 1 (by decide), hcell 2 (by decide), hcell 3 (by decide)]
  rfl

theorem leGetI32Mem_eq (hin : off + 4 ≤ buf.length) :
    leGetI32Mem buf off = some (leGetI32 (buf.drop off)) := by
  rw [leGetI32Mem, leGetU32Mem_eq hin]
  rfl

/-! ## The two passes -/

/-- The offsets of the records one behind the other. -/
def mqOffsets (buf : Bytes) : ℕ → ℕ → List ℕ
  | 0, _ => []
  | count + 1, off =>
      off :: mqOffsets buf count (off + mqPersistRecordHead + mqRecordLen buf off)

@[simp] theorem mqOffsets_length (count off : ℕ) : (mqOffsets buf count off).length = count := by
  induction count generalizing off with
  | zero => rfl
  | succ count ih => rw [mqOffsets, List.length_cons, ih]

theorem sizeAdd_recordHead (hsize : buf.length < 2 ^ 63) (hoff : off ≤ buf.length) :
    sizeAdd off mqPersistRecordHead = off + mqPersistRecordHead := by
  apply sizeAdd_of_lt
  rw [mqPersistRecordHead]
  omega

/-- The end of a record is no more than the range of `size_t`, for any length field. -/
theorem sizeAdd_recordLen (hsize : buf.length < 2 ^ 63)
    (hhead : off + mqPersistRecordHead ≤ buf.length) :
    sizeAdd (off + mqPersistRecordHead) (mqRecordLen buf off) =
      off + mqPersistRecordHead + mqRecordLen buf off := by
  have hlen : mqRecordLen buf off < 2 ^ 32 := UInt32.toNat_lt _
  apply sizeAdd_of_lt
  omega

/-- The head of a record lies in the buffer, so its fields can be read. -/
theorem record_fields (hhead : off + mqPersistRecordHead ≤ buf.length) :
    (∃ friendnum, leGetI32Mem buf off = some friendnum ∧
        friendnum.toInt = mqRecordFriendnum buf off) ∧
      ∃ len, leGetU32Mem buf (off + 4) = some len ∧ len.toNat = mqRecordLen buf off := by
  rw [mqPersistRecordHead] at hhead
  exact ⟨⟨_, leGetI32Mem_eq (by omega), rfl⟩, _, leGetU32Mem_eq (by omega), rfl⟩

/-- The validation pass reads inside the buffer, whatever the records say. -/
theorem mqValidateMem_eq (hsize : buf.length < 2 ^ 63) (count : ℕ) (hoff : off ≤ buf.length) :
    ∃ validated, mqValidateMem buf count off = some (mqValidateRecords buf count off, validated) ∧
      (mqValidateRecords buf count off = true → validated = mqOffsets buf count off) := by
  induction count generalizing off with
  | zero => exact ⟨[], rfl, fun _ => rfl⟩
  | succ count ih =>
      rw [mqValidateMem, mqValidateRecords, sizeAdd_recordHead hsize hoff]
      by_cases hhead : buf.length < off + mqPersistRecordHead
      · rw [if_pos hhead, if_pos hhead]
        exact ⟨[], rfl, fun hvalid => absurd hvalid Bool.false_ne_true⟩
      · rw [if_neg hhead, if_neg hhead]
        have hend := sizeAdd_recordLen hsize (not_lt.mp hhead)
        obtain ⟨⟨friendnum, hreadFriendnum, hfriendnum⟩, len, hreadLen, hlen⟩ :=
          record_fields (not_lt.mp hhead)
        rw [hreadFriendnum, hreadLen]
        simp only [Option.bind_eq_bind, Option.bind_some, hfriendnum, hlen, hend]
        by_cases hfields : mqRecordFriendnum buf off < 0 ∨ mqRecordLen buf off = 0 ∨
            mqPayloadMax ≤ mqRecordLen buf off
        · rw [if_pos hfields, if_pos hfields]
          exact ⟨[off], rfl, fun hvalid => absurd hvalid Bool.false_ne_true⟩
        · rw [if_neg hfields, if_neg hfields]
          by_cases hroom : buf.length < off + mqPersistRecordHead + mqRecordLen buf off
          · rw [if_pos hroom, if_pos hroom]
            exact ⟨[off], rfl, fun hvalid => absurd hvalid Bool.false_ne_true⟩
          · rw [if_neg hroom, if_neg hroom]
            obtain ⟨later, hlater, hoffsets⟩ := ih (not_lt.mp hroom)
            rw [hlater]
            refine ⟨off :: later, rfl, ?_⟩
            intro hvalid
            rw [mqOffsets, hoffsets hvalid]

/-- The importing pass on records that have been validated: it is the import, and
if it takes all of them it has read them at the same offsets. -/
theorem mqImportMem_eq (cap : ℕ) (now : ℤ) (hsize : buf.length < 2 ^ 63) (count : ℕ) {loaded : ℤ}
    (hloaded : 0 ≤ loaded) (q : Mq) (hvalid : mqValidateRecords buf count off = true)
    (hoff : off ≤ buf.length) :
    ∃ imported, mqImportMem cap buf now count off loaded q =
        some (mqImportLoop cap buf now count off loaded q, imported) ∧
      ((mqImportLoop cap buf now count off loaded q).code = loaded + count →
        imported = mqOffsets buf count off) := by
  induction count generalizing off loaded q with
  | zero => exact ⟨[], rfl, fun _ => rfl⟩
  | succ count ih =>
      obtain ⟨-, hroom, hlaterValid⟩ := (mqValidateRecords_succ count off).mp hvalid
      have hhead : off + mqPersistRecordHead ≤ buf.length := by omega
      obtain ⟨⟨friendnum, hreadFriendnum, hfriendnum⟩, len, hreadLen, hlen⟩ := record_fields hhead
      rw [mqImportMem, mqImportLoop, hreadFriendnum, hreadLen]
      simp only [Option.bind_eq_bind, Option.bind_some, hfriendnum, hlen,
        sizeAdd_recordHead hsize hoff, sizeAdd_recordLen hsize hhead, loadBlock_of_le hroom]
      generalize mqEnqueue cap q (mqRecordFriendnum buf off) _ now = enqueued
      have hfull : mqPersistErrFull < 0 := by decide
      have hformat : mqPersistErrFormat < 0 := by decide
      by_cases hok : enqueued.code = mqOk
      · rw [if_pos hok, if_pos hok]
        have hnext : 0 ≤ loaded + 1 := by omega
        obtain ⟨later, hlater, hoffsets⟩ := ih hnext enqueued.queue hlaterValid hroom
        rw [hlater]
        refine ⟨off :: later, rfl, ?_⟩
        intro hcode
        rw [mqOffsets, hoffsets]
        rw [hcode]
        push_cast
        ring
      · rw [if_neg hok, if_neg hok]
        by_cases hfullCode : enqueued.code = mqErrFull
        · rw [if_pos hfullCode, if_pos hfullCode]
          refine ⟨[off], rfl, fun hcode => ?_⟩
          dsimp only at hcode
          omega
        · rw [if_neg hfullCode, if_neg hfullCode]
          refine ⟨[off], rfl, fun hcode => ?_⟩
          dsimp only at hcode
          omega

end

/-! ## The load -/

/-- `mqPersistLoad` from the buffer on. -/
def mqLoadBuffer (cap : ℕ) (buf : Bytes) (q : Mq) (now : ℤ) : MqLoaded :=
  if buf.take mqPersistMagic.length ≠ mqPersistMagic ∨
      leGetU32 (buf.drop 8) ≠ mqPersistVersion then
    ⟨mqPersistErrFormat, q, []⟩
  else
    let count := (leGetU32 (buf.drop 12)).toNat
    if cap < count ∨ mqValidateRecords buf count mqPersistHeaderSize = false then
      ⟨mqPersistErrFormat, q, []⟩
    else mqImportLoop cap buf now count mqPersistHeaderSize 0 q

/-- The validation pass has accepted `count` records, and the import has read
them at the same offsets if it has taken all of them. -/
structure MqLoadTrace.Accepts (cap : ℕ) (buf : Bytes) (q : Mq) (now : ℤ) (trace : MqLoadTrace)
    (count : ℕ) : Prop where
  count_le : count ≤ cap
  valid : mqValidateRecords buf count mqPersistHeaderSize = true
  loaded : trace.loaded = mqImportLoop cap buf now count mqPersistHeaderSize 0 q
  validated : trace.validated = mqOffsets buf count mqPersistHeaderSize
  imported : trace.loaded.code = count → trace.imported = trace.validated

section

variable (cap : ℕ) (q : Mq) (now : ℤ)

/-- A load reads inside the buffer and does what the passes do. -/
theorem mqLoadBufferMem_eq {buf : Bytes} (hsize : buf.length < 2 ^ 63)
    (hheader : mqPersistHeaderSize ≤ buf.length) :
    ∃ trace, mqLoadBufferMem cap buf q now = some trace ∧
      trace.loaded = mqLoadBuffer cap buf q now ∧
      ∀ count, trace.accepted = some count → trace.Accepts cap buf q now count := by
  have hmagicLength : mqPersistMagic.length = 8 := by decide
  have hheaderSize : mqPersistHeaderSize = 20 := rfl
  unfold mqLoadBufferMem mqLoadBuffer
  rw [loadBlock_of_le (by omega), leGetU32Mem_eq (by omega), leGetU32Mem_eq (by omega),
    List.drop_zero]
  simp only [Option.bind_eq_bind, Option.bind_some]
  by_cases hmagic : buf.take mqPersistMagic.length ≠ mqPersistMagic
  · rw [if_pos hmagic, if_pos (.inl hmagic)]
    exact ⟨_, rfl, rfl, nofun⟩
  · by_cases hversion : leGetU32 (buf.drop 8) ≠ mqPersistVersion
    · rw [if_neg hmagic, if_pos hversion, if_pos (.inr hversion)]
      exact ⟨_, rfl, rfl, nofun⟩
    · rw [if_neg hmagic, if_neg hversion, if_neg (not_or.mpr ⟨hmagic, hversion⟩)]
      generalize (leGetU32 (buf.drop 12)).toNat = count
      by_cases hcount : cap < count
      · rw [if_pos hcount, if_pos (.inl hcount)]
        exact ⟨_, rfl, rfl, nofun⟩
      · rw [if_neg hcount]
        obtain ⟨validated, hvalidated, hoffsets⟩ := mqValidateMem_eq hsize count hheader
        rw [hvalidated]
        simp only [Option.bind_some]
        cases hvalid : mqValidateRecords buf count mqPersistHeaderSize with
        | false =>
            rw [if_pos rfl, if_pos (.inr rfl)]
            exact ⟨_, rfl, rfl, nofun⟩
        | true =>
            obtain ⟨imported, himported, hsame⟩ :=
              mqImportMem_eq cap now hsize count le_rfl q hvalid hheader
            rw [himported, if_neg (by decide), if_neg (by simp [hcount])]
            refine ⟨_, rfl, rfl, ?_⟩
            rintro _ ⟨⟩
            refine ⟨not_lt.mp hcount, hvalid, rfl, hoffsets hvalid, ?_⟩
            intro hcode
            dsimp only at hcode ⊢
            rw [hoffsets hvalid, hsame (by rw [hcode, zero_add])]

/-- A load refuses the file before it looks at the buffer, or has a buffer whose
length is a `long`. -/
theorem mqPersistLoadMem_cases (path : Option CStr) (files : FileSystem) :
    (∃ code, mqPersistLoadMem cap path q files now = some (.refused code q []) ∧
        ((∀ name buf, files name = some buf → buf.length < 2 ^ 63) →
          mqPersistLoad cap path q files now = ⟨code, q, []⟩)) ∨
      ∃ buf, buf.length < 2 ^ 63 ∧ mqPersistHeaderSize ≤ buf.length ∧
        mqPersistLoadMem cap path q files now = mqLoadBufferMem cap buf q now ∧
        mqPersistLoad cap path q files now = mqLoadBuffer cap buf q now := by
  cases path with
  | none => exact .inl ⟨_, rfl, fun _ => rfl⟩
  | some name =>
      rw [mqPersistLoadMem, mqPersistLoad]
      by_cases hempty : name.val = []
      · rw [if_pos hempty, if_pos hempty]
        exact .inl ⟨_, rfl, fun _ => rfl⟩
      · rw [if_neg hempty, if_neg hempty, mqReadAllMem, mqReadAll]
        cases hfile : files name.val with
        | none => exact .inl ⟨_, rfl, fun _ => rfl⟩
        | some buf =>
            dsimp only
            by_cases hlong : 2 ^ 63 ≤ buf.length
            · rw [if_pos hlong]
              refine .inl ⟨_, rfl, fun hfits => ?_⟩
              exact absurd (hfits name.val buf hfile) (not_lt.mpr hlong)
            · rw [if_neg hlong]
              by_cases hshort : buf.length < mqPersistHeaderSize
              · rw [if_pos hshort]
                exact .inl ⟨_, rfl, fun _ => rfl⟩
              · rw [if_neg hshort]
                exact .inr ⟨buf, not_le.mp hlong, not_lt.mp hshort, rfl, rfl⟩

theorem mqPersistLoadMem_isSome (path : Option CStr) (files : FileSystem) :
    (mqPersistLoadMem cap path q files now).isSome = true := by
  rcases mqPersistLoadMem_cases cap q now path files with
    ⟨code, hrefused, -⟩ | ⟨buf, hsize, hheader, hload, -⟩
  · rw [hrefused]
    rfl
  · obtain ⟨trace, htrace, -⟩ := mqLoadBufferMem_eq cap q now hsize hheader
    rw [hload, htrace]
    rfl

/-- With checked accesses a load does what it does on lists, for files whose length
is a `long`. -/
theorem mqPersistLoadMem_loads {trace : MqLoadTrace} {path : Option CStr} {files : FileSystem}
    (hfits : ∀ name buf, files name = some buf → buf.length < 2 ^ 63)
    (htrace : mqPersistLoadMem cap path q files now = some trace) :
    trace.loaded = mqPersistLoad cap path q files now := by
  rcases mqPersistLoadMem_cases cap q now path files with
    ⟨code, hrefused, hsame⟩ | ⟨buf, hsize, hheader, hload, hsame⟩
  · rw [htrace] at hrefused
    obtain rfl := Option.some.inj hrefused
    exact (hsame hfits).symm
  · obtain ⟨found, hfound, hloaded, -⟩ :=
      mqLoadBufferMem_eq cap q now hsize hheader
    rw [htrace, hfound] at hload
    obtain rfl := Option.some.inj hload
    rw [hloaded, hsame]

end

/-- A load never reads outside its buffer.  If the validation pass accepts the file
and the queue has just been reset, the importing pass takes every record, at the
offsets at which they have been validated. -/
theorem mqPersistLoad_passes_agree {cap : ℕ} (hcap : 0 < cap) (path : Option CStr)
    (files : FileSystem) (now : ℤ) :
    (∀ q, (mqPersistLoadMem cap path q files now).isSome = true) ∧
      ∀ dropFn changeFn trace count,
        mqPersistLoadMem cap path (mqStart dropFn changeFn).queue files now = some trace →
        trace.accepted = some count →
          trace.loaded.code = count ∧ trace.imported = trace.validated ∧
            trace.validated.length = count := by
  refine ⟨fun q => mqPersistLoadMem_isSome cap q now path files, ?_⟩
  intro dropFn changeFn trace count htrace haccepted
  rcases mqPersistLoadMem_cases cap (mqStart dropFn changeFn).queue now path files with
    ⟨code, hrefused, -⟩ | ⟨buf, hsize, hheader, hload, -⟩
  · rw [htrace] at hrefused
    obtain rfl := Option.some.inj hrefused
    cases haccepted
  · obtain ⟨found, hfound, -, haccepts⟩ := mqLoadBufferMem_eq cap
      (mqStart dropFn changeFn).queue now hsize hheader
    rw [htrace, hfound] at hload
    obtain rfl := Option.some.inj hload
    have hagree := haccepts count haccepted
    have hrecords : (mqRecords buf count mqPersistHeaderSize).length ≤ cap := by
      rw [mqRecords_length]
      exact hagree.count_le
    have hcode : trace.loaded.code = count := by
      rw [hagree.loaded, mqImportLoop_eq]
      have hall := ((mqStart_inv hcap dropFn changeFn).import_empty
        (mqRecords_valid hagree.valid) now rfl hrecords).1
      rwa [mqRecords_length] at hall
    refine ⟨hcode, hagree.imported hcode, ?_⟩
    rw [hagree.validated, mqOffsets_length]

/-- Two records, read at 20 and at 29. -/
theorem mqPersistLoad_passes_agree_two :
    ∃ trace, mqPersistLoadMem 3 (some queueFile) (mqStart true true).queue twoMessagesFile 0 =
        some trace ∧
      trace.loaded.code = 2 ∧ trace.imported = trace.validated ∧ trace.validated.length = 2 := by
  have hpasses := mqPersistLoad_passes_agree (show 0 < 3 by decide) (some queueFile)
    twoMessagesFile 0
  obtain ⟨trace, htrace⟩ := Option.isSome_iff_exists.mp (hpasses.1 (mqStart true true).queue)
  have haccepted : (mqPersistLoadMem 3 (some queueFile) (mqStart true true).queue twoMessagesFile
      0).map MqLoadTrace.accepted = some (some 2) := by decide +kernel
  rw [htrace] at haccepted
  exact ⟨trace, htrace, hpasses.2 true true trace 2 htrace (Option.some.inj haccepted)⟩

end ToxRelayer
