import ToxRelayer.MqPersistRestore
import ToxRelayer.MsgQueueSound

/-!
# Saving and restoring

What `mq_persist_save` writes is read back by `mq_persist_load` as the messages
of the queue, in their order, each with a fresh attempt budget.
-/

namespace ToxRelayer

open CString RingIndex LittleEndian

/-- A path `mq_persist_save` takes. -/
def MqPathUsable (path : CStr) : Prop :=
  path.val ≠ [] ∧ (path.val ++ bytes ".tmp").length < pathMax

theorem queueFile_usable : MqPathUsable queueFile := by
  rw [MqPathUsable]
  decide

/-- The friend number of an enqueue is an `int`. -/
def MqOp.FitsInt : MqOp → Prop
  | .enqueue friendnum _ _ => friendnum < 2 ^ 31
  | _ => True

/-- Friend number, payload and length as `mq_save_visit` can write them. -/
structure MqSavable (message : ℤ × Bytes × ℕ) : Prop where
  friendnum_nonneg : 0 ≤ message.1
  friendnum_lt : message.1 < 2 ^ 31
  len_eq : message.2.2 = message.2.1.length
  len_pos : 0 < message.2.2
  len_lt : message.2.2 < mqPayloadMax

def mqSaveMessage (message : ℤ × Bytes × ℕ) : Bytes :=
  mqSaveVisit message.1 message.2.1 message.2.2

/-! ## Reading one record -/

section

variable {message : ℤ × Bytes × ℕ}

theorem MqSavable.visit_eq (hmessage : MqSavable message) :
    mqSaveMessage message =
      lePutI32 (Int32.ofInt message.1) ++ lePutU32 (UInt32.ofNat message.2.2) ++ message.2.1 := by
  rw [mqSaveMessage, mqSaveVisit, hmessage.len_eq, List.take_length]

theorem MqSavable.length_eq (hmessage : MqSavable message) :
    (mqSaveMessage message).length = mqPersistRecordHead + message.2.2 := by
  rw [hmessage.visit_eq, hmessage.len_eq, List.length_append, List.length_append]
  rfl

theorem MqSavable.read_friendnum (hmessage : MqSavable message) (pre rest : Bytes) :
    mqRecordFriendnum (pre ++ (mqSaveMessage message ++ rest)) pre.length = message.1 := by
  have hlow := hmessage.friendnum_nonneg
  rw [mqRecordFriendnum, List.drop_left, hmessage.visit_eq, List.append_assoc, List.append_assoc,
    leGetI32_lePutI32, Int32.toInt_ofInt_of_le (by omega) hmessage.friendnum_lt]

theorem MqSavable.read_len (hmessage : MqSavable message) (pre rest : Bytes) :
    mqRecordLen (pre ++ (mqSaveMessage message ++ rest)) pre.length = message.2.2 := by
  have hmax := hmessage.len_lt
  rw [mqRecordLen, ← List.drop_drop, List.drop_left, hmessage.visit_eq, List.append_assoc,
    List.append_assoc, List.drop_left' (lePutI32_length _), leGetU32_lePutU32]
  apply UInt32.toNat_ofNat_of_lt'
  simp only [mqPayloadMax, UInt32.size] at hmax ⊢
  omega

theorem MqSavable.read_payload (hmessage : MqSavable message) (pre rest : Bytes) :
    ((pre ++ (mqSaveMessage message ++ rest)).drop (pre.length + mqPersistRecordHead)).take
      message.2.2 = message.2.1 := by
  have hhead : (lePutI32 (Int32.ofInt message.1) ++
      lePutU32 (UInt32.ofNat message.2.2)).length = mqPersistRecordHead := by
    simp [mqPersistRecordHead]
  rw [← List.drop_drop, List.drop_left, hmessage.visit_eq, List.append_assoc,
    List.drop_left' hhead, hmessage.len_eq, List.take_left]

/-! ## Reading the records of a saved queue -/

/-- The friend number and the payload of a message. -/
def mqSavedRecord (message : ℤ × Bytes × ℕ) : ℤ × Bytes := (message.1, message.2.1)

variable {messages : List (ℤ × Bytes × ℕ)}

/-- The records are read from any offset they start at. -/
theorem mqRecords_saved (hmessages : ∀ message ∈ messages, MqSavable message) (pre : Bytes) :
    mqValidateRecords (pre ++ messages.flatMap mqSaveMessage) messages.length pre.length = true ∧
      mqRecords (pre ++ messages.flatMap mqSaveMessage) messages.length pre.length =
        messages.map mqSavedRecord := by
  induction messages generalizing pre with
  | nil => exact ⟨rfl, rfl⟩
  | cons message messages ih =>
      have hmessage := hmessages message List.mem_cons_self
      have hfriendnum := hmessage.friendnum_nonneg
      have hpos := hmessage.len_pos
      have hmax := hmessage.len_lt
      have hnext : pre.length + mqPersistRecordHead + message.2.2 =
          (pre ++ mqSaveMessage message).length := by
        rw [List.length_append, hmessage.length_eq, Nat.add_assoc]
      have hsame : pre ++ (message :: messages).flatMap mqSaveMessage =
          pre ++ mqSaveMessage message ++ messages.flatMap mqSaveMessage := by
        rw [List.flatMap_cons, List.append_assoc]
      have hlength : pre.length + mqPersistRecordHead + message.2.2 ≤
          (pre ++ (message :: messages).flatMap mqSaveMessage).length := by
        rw [hsame, List.length_append, hnext]
        omega
      obtain ⟨hvalid, hrecords⟩ := ih (fun later hlater =>
        hmessages later (List.mem_cons_of_mem _ hlater)) (pre ++ mqSaveMessage message)
      rw [← hsame, ← hnext] at hvalid hrecords
      rw [List.length_cons, mqValidateRecords, mqRecords]
      rw [List.flatMap_cons] at hvalid hrecords hlength ⊢
      dsimp only
      rw [hmessage.read_friendnum, hmessage.read_len, hmessage.read_payload, hrecords,
        if_neg (by omega), if_neg (by omega), if_neg (by omega)]
      exact ⟨hvalid, rfl⟩

theorem MqCounted.foreach_length {cap : ℕ} {q : Mq} (hq : MqCounted cap q) :
    (mqForeach cap q).length = q.count := by
  have hcard := congrArg Multiset.card hq.visited_val
  rw [Multiset.coe_card] at hcard
  rw [mqForeach, List.length_map, hcard, hq.count_eq]
  rfl

theorem mqSaveHeader_length (count : ℕ) :
    (mqSaveHeader count).length = mqPersistHeaderSize := rfl

/-- A file that holds a saved queue is accepted, with all its messages. -/
theorem mqFileRecords_saved {cap : ℕ} {q : Mq} (hcap : cap < 2 ^ 31) (hq : MqCounted cap q)
    (hmessages : ∀ message ∈ mqForeach cap q, MqSavable message) {path : CStr}
    (hpath : MqPathUsable path) {files : FileSystem}
    (hfile : files path.val = some (mqSaveBytes cap q)) :
    mqFileRecords cap (some path) files = some ((mqForeach cap q).map mqSavedRecord) := by
  have hlength := hq.foreach_length
  have hbytes : mqSaveBytes cap q =
      mqSaveHeader q.count ++ (mqForeach cap q).flatMap mqSaveMessage := rfl
  have hread : mqReadAll path.val files = .ok (mqSaveBytes cap q) := by
    rw [mqReadAll, hfile]
    dsimp only
    rw [if_neg]
    rw [hbytes, List.length_append, mqSaveHeader_length]
    omega
  have hcount : (leGetU32 ((mqSaveBytes cap q).drop 12)).toNat = q.count := by
    have hle := hq.count_le
    have hdrop : (mqSaveBytes cap q).drop 12 = lePutU32 (UInt32.ofNat q.count) ++
        (lePutU32 0 ++ (mqForeach cap q).flatMap mqSaveMessage) := rfl
    rw [hdrop, leGetU32_lePutU32]
    apply UInt32.toNat_ofNat_of_lt'
    simp only [UInt32.size]
    omega
  have hversion : leGetU32 ((mqSaveBytes cap q).drop 8) = mqPersistVersion := by
    have hdrop : (mqSaveBytes cap q).drop 8 = lePutU32 mqPersistVersion ++
        (lePutU32 (UInt32.ofNat q.count) ++
          (lePutU32 0 ++ (mqForeach cap q).flatMap mqSaveMessage)) := rfl
    rw [hdrop, leGetU32_lePutU32]
  obtain ⟨hvalid, hrecords⟩ := mqRecords_saved hmessages (mqSaveHeader q.count)
  rw [← hbytes, hlength, mqSaveHeader_length] at hvalid hrecords
  rw [mqFileRecords]
  dsimp only
  rw [if_neg hpath.1, hread]
  dsimp only
  rw [hcount, if_pos ⟨rfl, hversion, hq.count_le, hvalid⟩, hrecords]

end

/-! ## The messages of a reachable queue -/

section

variable {cap : ℕ} {s : MqRun}

theorem MqRun.born_step (op : MqOp) {message : ℤ × Bytes}
    (hmem : message ∈ (s.step cap op).ledger.born) :
    message ∈ s.ledger.born ∨ ∃ now, op = .enqueue message.1 (some message.2) now := by
  cases op with
  | enqueue friendnum payload now =>
      simp only [MqRun.step, MqRun.enqueue] at hmem
      split at hmem
      · split at hmem
        · rename_i slot bytes hslot
          rw [MqLedger.recordBirth, List.mem_append, List.mem_singleton] at hmem
          rcases hmem with hold | rfl
          · exact .inl hold
          · exact .inr ⟨now, rfl⟩
        · exact .inl hmem
      · exact .inl hmem
  | confirm friendnum receipt =>
      simp only [MqRun.step, MqRun.confirm] at hmem
      split at hmem
      · split at hmem <;> exact .inl hmem
      · exact .inl hmem
  | service tx now =>
      simp only [MqRun.step, MqRun.service, MqLedger.recordService] at hmem
      split at hmem <;> exact .inl hmem
  | foreach => exact .inl hmem
  | statsGet => exact .inl hmem

theorem MqRun.born_after (ops : List MqOp) {message : ℤ × Bytes}
    (hmem : message ∈ (s.after cap ops).ledger.born) :
    message ∈ s.ledger.born ∨ ∃ now, MqOp.enqueue message.1 (some message.2) now ∈ ops := by
  induction ops generalizing s with
  | nil => exact .inl hmem
  | cons op ops ih =>
      rcases ih hmem with hstep | ⟨now, hlater⟩
      · rcases MqRun.born_step op hstep with hold | ⟨now, rfl⟩
        · exact .inl hold
        · exact .inr ⟨now, List.mem_cons_self⟩
      · exact .inr ⟨now, List.mem_cons_of_mem _ hlater⟩

theorem mqForeach_savable (hcap : 0 < cap) (dropFn changeFn : Bool) {ops : List MqOp}
    (hops : ∀ op ∈ ops, op.FitsInt) :
    ∀ message ∈ mqForeach cap ((mqStart dropFn changeFn).after cap ops).queue,
      MqSavable message := by
  have hledger := MqRun.after_inv (mqStart_inv hcap dropFn changeFn) ops
  have hsound := (mqStart_sound hcap dropFn changeFn).after ops
  intro message hmem
  obtain ⟨slot, hslot, rfl⟩ := List.mem_map.mp hmem
  obtain ⟨hlt, hoccupied⟩ := hledger.queue.toMqCounted.mem_visited.mp hslot
  obtain ⟨hborn, hlen⟩ := hledger.unaltered slot hlt hoccupied
  have hentry := hsound.entries slot hlt hoccupied
  refine ⟨hentry.friendnum_nonneg, ?_, hlen, hentry.len_pos, hentry.len_lt⟩
  rcases MqRun.born_after ops (List.mem_of_getElem? hborn) with hold | ⟨now, hcalled⟩
  · cases hold
  · exact hops _ hcalled

theorem MqLedgerInv.import_entry {records : List (ℤ × Bytes)} (hs : MqLedgerInv cap s)
    (hvalid : ∀ record ∈ records, MqRecordValid record) (now : ℤ) {slot : ℕ} (hslot : slot < cap)
    (hoccupied : ((s.importRecords cap now records).queue.ring slot).Occupied) :
    (s.queue.ring slot).Occupied ∨ ∃ record ∈ records,
      (s.importRecords cap now records).queue.ring slot = mqNewEntry record.1 record.2 now := by
  induction records generalizing s with
  | nil => exact .inl hoccupied
  | cons record records ih =>
      have hfirst := hvalid record List.mem_cons_self
      have hrest := fun later hlater => hvalid later (List.mem_cons_of_mem _ hlater)
      have hledger := (hs.enqueue_grown hfirst now).ledger
      rw [MqRun.importRecords] at hoccupied ⊢
      rcases hs.enqueue_record hfirst now with
        ⟨hcode, -, rejections, hresult⟩ | ⟨m, hm, hfree, -, hcode, hresult⟩
      · rw [if_neg hcode, hresult] at hoccupied
        exact .inl hoccupied
      · rw [if_pos hcode] at hoccupied ⊢
        rcases ih hledger hrest hoccupied with hearlier | ⟨later, hlater, hentry⟩
        · have hkept := ((hledger.import_grown hrest now).kept slot hslot hearlier).1
          rw [hkept]
          rw [hresult] at hearlier ⊢
          by_cases hsame : slot = slotAt cap s.queue.head m
          · refine .inr ⟨record, List.mem_cons_self, ?_⟩
            rw [hsame]
            exact Function.update_self _ _ _
          · refine .inl ?_
            simp only [Mq.place] at hearlier
            rwa [Function.update_of_ne hsame] at hearlier
        · exact .inr ⟨later, List.mem_cons_of_mem _ hlater, hentry⟩

end

theorem mqPersistSave_files {cap : ℕ} {path : CStr} (hpath : MqPathUsable path) (q : Mq)
    (files : FileSystem) :
    (mqPersistSave cap (some path) q files).code = mqPersistOk ∧
      (mqPersistSave cap (some path) q files).files path.val = some (mqSaveBytes cap q) := by
  simp only [mqPersistSave, hpath.1, if_false]
  rw [if_neg (Nat.not_le.mpr hpath.2)]
  exact ⟨rfl, Function.update_self _ _ _⟩

/-- A queue that has just been reset takes on the records of the file, in their
order and with fresh budgets. -/
theorem mqPersistLoad_fresh {cap : ℕ} (hcap : 0 < cap) {path : Option CStr} {files : FileSystem}
    {records : List (ℤ × Bytes)} (hrecords : mqFileRecords cap path files = some records)
    (dropFn changeFn : Bool) (now : ℤ) :
    let loaded := mqPersistLoad cap path (mqStart dropFn changeFn).queue files now
    loaded.code = records.length ∧ MqInv cap loaded.queue ∧
      mqForeach cap loaded.queue = (records.map fun record =>
        (record.1, record.2, record.2.length)) ∧
      ∀ slot < cap, (loaded.queue.ring slot).Occupied →
        (loaded.queue.ring slot).state = .pending ∧ (loaded.queue.ring slot).attempted = false ∧
          (loaded.queue.ring slot).attempts = 0 := by
  intro loaded
  obtain ⟨hfits, hvalid⟩ := mqFileRecords_valid hrecords
  have hstart := mqStart_inv hcap dropFn changeFn
  obtain ⟨hcode, happended⟩ := hstart.import_empty hvalid now rfl hfits
  have hloaded : loaded = mqImport cap now records 0 (mqStart dropFn changeFn).queue := by
    rcases mqPersistLoad_cases path (mqStart dropFn changeFn).queue files now with
      ⟨hnone, -⟩ | ⟨imported, hsome, hresult⟩
    · exact absurd (hnone.symm.trans hrecords) (by simp)
    · rw [hrecords, Option.some.injEq] at hsome
      rw [hsome]
      exact hresult
  have hqueue : loaded.queue =
      ((mqStart dropFn changeFn).importRecords cap now records).queue := by
    rw [hloaded, mqImport_queue]
  refine ⟨by rw [hloaded, hcode], ?_, ?_, ?_⟩
  · rw [hqueue]
    exact (hstart.import_grown hvalid now).ledger.queue
  · have hnothing : mqForeach cap (mqStart dropFn changeFn).queue = [] := by
      simp [mqForeach, mqVisited, mqStart, mqInit, mqSetChangeHook, mqSetDropHook]
    rw [hqueue, happended.listed, hnothing, List.nil_append]
  · rw [hqueue]
    intro slot hslot hoccupied
    rcases hstart.import_entry hvalid now hslot hoccupied with hearlier | ⟨record, -, hentry⟩
    · exact absurd hearlier (hstart.queue.toMqCounted.empty rfl hslot)
    · rw [hentry]
      exact ⟨rfl, rfl, rfl⟩

/-- The file of a saved queue gives its messages back. -/
theorem mqPersistLoad_saved {cap : ℕ} (hcap : 0 < cap) (hint : cap < 2 ^ 31) {q : Mq}
    (hq : MqCounted cap q) (hmessages : ∀ message ∈ mqForeach cap q, MqSavable message)
    {path : CStr} (hpath : MqPathUsable path) {files : FileSystem}
    (hfile : files path.val = some (mqSaveBytes cap q)) (dropFn changeFn : Bool) (now : ℤ) :
    let loaded := mqPersistLoad cap (some path) (mqStart dropFn changeFn).queue files now
    loaded.code = q.count ∧ MqInv cap loaded.queue ∧
      mqForeach cap loaded.queue = mqForeach cap q ∧
      ∀ slot < cap, (loaded.queue.ring slot).Occupied →
        (loaded.queue.ring slot).state = .pending ∧ (loaded.queue.ring slot).attempted = false ∧
          (loaded.queue.ring slot).attempts = 0 := by
  intro loaded
  have hrecords := mqFileRecords_saved hint hq hmessages hpath hfile
  obtain ⟨hcode, hinv, hlisted, hfresh⟩ :=
    mqPersistLoad_fresh hcap hrecords dropFn changeFn now
  have hlength : ((mqForeach cap q).map mqSavedRecord).length = q.count := by
    rw [List.length_map, hq.foreach_length]
  have hsame : ((mqForeach cap q).map mqSavedRecord).map (fun record =>
      (record.1, record.2, record.2.length)) = mqForeach cap q := by
    rw [List.map_map]
    calc (mqForeach cap q).map ((fun record => (record.1, record.2, record.2.length)) ∘
          mqSavedRecord)
        = (mqForeach cap q).map id := by
          refine List.map_congr_left ?_
          intro message hmem
          rw [Function.comp_apply, mqSavedRecord, ← (hmessages message hmem).len_eq]
          rfl
      _ = mqForeach cap q := List.map_id _
  exact ⟨by rw [hcode, hlength], hinv, hlisted.trans hsame, hfresh⟩

/-- Saving a reachable queue and loading the file into a queue that has just
been reset. -/
theorem mqPersist_roundTrip {cap : ℕ} (hcap : 0 < cap) (hint : cap < 2 ^ 31)
    (dropFn changeFn : Bool) (ops : List MqOp) (hops : ∀ op ∈ ops, op.FitsInt) (path : CStr)
    (hpath : MqPathUsable path) (files : FileSystem) (dropFn' changeFn' : Bool) (now : ℤ) :
    let q := ((mqStart dropFn changeFn).after cap ops).queue
    let saved := mqPersistSave cap (some path) q files
    let loaded := mqPersistLoad cap (some path) (mqStart dropFn' changeFn').queue saved.files now
    saved.code = mqPersistOk ∧ loaded.code = q.count ∧
      mqForeach cap loaded.queue = mqForeach cap q ∧
      ∀ slot < cap, (loaded.queue.ring slot).Occupied →
        (loaded.queue.ring slot).state = .pending ∧ (loaded.queue.ring slot).attempted = false ∧
          (loaded.queue.ring slot).attempts = 0 := by
  intro q saved loaded
  have hq : MqCounted cap q :=
    (MqRun.after_inv (mqStart_inv hcap dropFn changeFn) ops).queue.toMqCounted
  have hmessages := mqForeach_savable hcap dropFn changeFn hops
  obtain ⟨hsaved, hfile⟩ := mqPersistSave_files hpath q files
  obtain ⟨hcode, -, hlisted, hfresh⟩ :=
    mqPersistLoad_saved hcap hint hq hmessages hpath hfile dropFn' changeFn' now
  exact ⟨hsaved, hcode, hlisted, hfresh⟩

/-- Two messages, the first of them sent and not yet acknowledged. -/
theorem mqPersist_roundTrip_two :
    let q := ((mqStart false true).after 2
      [.enqueue 3 (some [65, 0]) 0, .enqueue 5 (some [66]) 0,
        .service (some fun _ _ _ => 1) 1]).queue
    let saved := mqPersistSave 2 (some ⟨[113], by decide⟩) q fun _ => none
    let loaded := mqPersistLoad 2 (some ⟨[113], by decide⟩) mqInit saved.files 2
    saved.code = mqPersistOk ∧ loaded.code = q.count ∧
      mqForeach 2 loaded.queue = mqForeach 2 q ∧
      ∀ slot < 2, (loaded.queue.ring slot).Occupied →
        (loaded.queue.ring slot).state = .pending ∧ (loaded.queue.ring slot).attempted = false ∧
          (loaded.queue.ring slot).attempts = 0 :=
  mqPersist_roundTrip (by decide) (by decide) false true _ (by simp [MqOp.FitsInt]) _
    (by rw [MqPathUsable]; decide) _ false false _

end ToxRelayer
