import ToxRelayer.MqPersist
import ToxRelayer.MsgQueueOrder

/-!
# Restoring all or nothing

A load enqueues the records of a file one by one and stops at the first that
finds no free slot, so it can stop half way.  Where a ring has holes, records can
also go before messages that were there already.  The restore is all or nothing
exactly when neither can happen.
-/

namespace ToxRelayer

open CString RingIndex

/-! ## A load beside the ledger -/

/-- `mqImport` with the ledger of the messages it accepts. -/
def MqRun.importRecords (cap : ℕ) (now : ℤ) : List (ℤ × Bytes) → MqRun → MqRun
  | [], s => s
  | record :: records, s =>
      let enqueued := s.enqueue cap record.1 (some record.2) now
      if (mqEnqueue cap s.queue record.1 (some record.2) now).code = mqOk then
        MqRun.importRecords cap now records enqueued
      else enqueued

def MqRun.load (cap : ℕ) (s : MqRun) (path : Option CStr) (files : FileSystem) (now : ℤ) :
    MqRun where
  queue := (mqPersistLoad cap path s.queue files now).queue
  ledger :=
    match mqFileRecords cap path files with
    | none => s.ledger
    | some records => (s.importRecords cap now records).ledger

/-- The queue holds what it held, followed by the records in their order. -/
structure MqRun.Appended (cap : ℕ) (s s' : MqRun) (records : List (ℤ × Bytes)) : Prop where
  born : s'.ledger.born = s.ledger.born ++ records
  visited : (mqVisited cap s'.queue).map s'.ledger.owner =
    (mqVisited cap s.queue).map s.ledger.owner ++
      List.range' s.ledger.born.length records.length
  listed : mqForeach cap s'.queue =
    mqForeach cap s.queue ++ records.map fun record => (record.1, record.2, record.2.length)

/-- The same messages are stored. -/
structure MqRun.Unchanged (cap : ℕ) (s s' : MqRun) : Prop where
  stored : s'.stored cap = s.stored cap
  listed : mqForeach cap s'.queue = mqForeach cap s.queue

def MqRun.RestoresAllOrNothing (cap : ℕ) (s : MqRun) (path : Option CStr) (files : FileSystem)
    (now : ℤ) : Prop :=
  let code := (mqPersistLoad cap path s.queue files now).code
  (∃ records, mqFileRecords cap path files = some records ∧ code = records.length ∧
      s.Appended cap (s.load cap path files now) records) ∨
    code < 0 ∧ s.Unchanged cap (s.load cap path files now)

/-- The slot an enqueue would take lies behind every stored message, and so many
messages fit between it and the end of the turn. -/
def Mq.RoomBehind (cap : ℕ) (q : Mq) (messages : ℕ) : Prop :=
  ∃ m, m + messages ≤ cap ∧ (mqFindFreeSlot cap q).1 = some (slotAt cap q.head m) ∧
    ∀ j < cap, (q.ring (slotAt cap q.head j)).Occupied → j < m

/-- The load refuses the file, has nothing to import, finds the queue empty or
full, or has room behind the stored messages for everything. -/
def MqRun.RestoreFits (cap : ℕ) (s : MqRun) (path : Option CStr) (files : FileSystem) : Prop :=
  ∀ records, mqFileRecords cap path files = some records →
    records = [] ∨ s.queue.count = 0 ∨ s.queue.count = cap ∨
      s.queue.RoomBehind cap records.length

/-! ## The visit of the queue by position -/

section

variable {cap : ℕ} {q q' : Mq}

theorem filter_range_of_lt {p : ℕ → Bool} {m : ℕ} (hm : m ≤ cap)
    (hwithin : ∀ j < cap, p j = true → j < m) :
    (List.range cap).filter p = (List.range m).filter p := by
  obtain ⟨rest, rfl⟩ := Nat.exists_eq_add_of_le hm
  have hnone : ((List.range rest).map (m + ·)).filter p = [] := by
    rw [List.filter_eq_nil_iff]
    intro j hj hp
    obtain ⟨i, hi, rfl⟩ := List.mem_map.mp hj
    have hlt := hwithin (m + i) (by simpa using hi) hp
    omega
  rw [List.range_add, List.filter_append, hnone, List.append_nil]

theorem MqCounted.visited_eq_map (hq : MqCounted cap q) :
    mqVisited cap q = ((List.range cap).filter fun j =>
      (q.ring (slotAt cap q.head j)).Occupied).map (slotAt cap q.head) := by
  rw [hq.visited_eq, List.filter_map]
  rfl

/-- What is visited once some slots have been filled, less those. -/
theorem MqCounted.visited_filter (hq : MqCounted cap q) (hq' : MqCounted cap q')
    (hhead : q'.head = q.head)
    (hmore : ∀ slot < cap, (q.ring slot).Occupied → (q'.ring slot).Occupied) :
    (mqVisited cap q').filter (fun slot => (q.ring slot).Occupied) = mqVisited cap q := by
  rw [hq.visited_eq, hq'.visited_eq, hhead, List.filter_filter]
  refine List.filter_congr ?_
  intro slot hslot
  obtain ⟨j, -, rfl⟩ := List.mem_map.mp hslot
  have hcap : 0 < cap := Nat.zero_lt_of_lt hq.head_lt
  have hkept := hmore (slotAt cap q.head j) (slotAt_lt hcap j)
  by_cases hoccupied : (q.ring (slotAt cap q.head j)).Occupied
  · simp [hoccupied, hkept hoccupied]
  · simp [hoccupied]

theorem MqInv.visited_place (hq : MqInv cap q) {e : MqEntry} (he : e.state = .pending) {m : ℕ}
    (hm : m < cap) (hcount : q.count ≠ 0)
    (hbehind : ∀ j < cap, (q.ring (slotAt cap q.head j)).Occupied → j < m) :
    mqVisited cap (q.place cap (slotAt cap q.head m) e) =
      mqVisited cap q ++ [slotAt cap q.head m] := by
  have hcap : 0 < cap := by omega
  have hfree : ¬ (q.ring (slotAt cap q.head m)).Occupied := fun hoccupied =>
    lt_irrefl m (hbehind m hm hoccupied)
  have hplaced := hq.place (slotAt_lt hcap m) hfree he
  have hhead : (q.place cap (slotAt cap q.head m) e).head = q.head := by
    simp [Mq.place, hcount]
  have hwithin : ∀ j < cap, ((q.place cap (slotAt cap q.head m) e).ring
      (slotAt cap q.head j)).Occupied → j < m + 1 := by
    intro j hj hoccupied
    rcases place_occupied hm hj hoccupied with rfl | ⟨-, -, hold⟩
    · omega
    · have hlt := hbehind j hj hold
      omega
  have hnew : ((q.place cap (slotAt cap q.head m) e).ring (slotAt cap q.head m)).Occupied := by
    simp [Mq.place, MqEntry.Occupied, he]
  rw [hplaced.visited_eq_map, hq.visited_eq_map, hhead,
    filter_range_of_lt hm (by simpa using hwithin), List.range_succ, List.filter_append,
    List.map_append, filter_range_of_lt hm.le (by simpa using hbehind)]
  congr 1
  · congr 1
    refine List.filter_congr ?_
    intro j hj
    have hlt := List.mem_range.mp hj
    have hne : slotAt cap q.head j ≠ slotAt cap q.head m := fun hsame =>
      absurd (slotAt_inj (by omega) hm hsame) (by omega)
    have hsame : (q.place cap (slotAt cap q.head m) e).ring (slotAt cap q.head j) =
        q.ring (slotAt cap q.head j) := Function.update_of_ne hne _ _
    simp only [hsame]
  · simp [hnew]

theorem MqInv.visited_place_empty (hq : MqInv cap q) {e : MqEntry} (he : e.state = .pending)
    {slot : ℕ} (hslot : slot < cap) (hcount : q.count = 0) :
    mqVisited cap (q.place cap slot e) = mqVisited cap q ++ [slot] := by
  have hfree := hq.toMqCounted.empty hcount hslot
  have hnone : slotsWhere cap MqEntry.Occupied q.ring = ∅ := by
    rw [← Finset.card_eq_zero, ← hq.count_eq]
    exact hcount
  have hold : mqVisited cap q = [] := by
    rw [← Multiset.coe_eq_zero, hq.visited_val, hnone]
    rfl
  rw [hold, List.nil_append, ← Multiset.coe_eq_singleton, (hq.place hslot hfree he).visited_val]
  simp only [Mq.place]
  rw [slotsWhere_update_of_pos hslot (by simp [MqEntry.Occupied, he]), hnone]
  rfl

theorem mqFindFreeSlot_of_tail_free (hcap : 0 < cap) (hfree : ¬ (q.ring q.tail).Occupied) :
    (mqFindFreeSlot cap q).1 = some q.tail := by
  obtain ⟨rounds, rfl⟩ := Nat.exists_eq_succ_of_ne_zero hcap.ne'
  have hstate : (q.ring q.tail).state = .free := not_not.mp hfree
  simp only [mqFindFreeSlot, mqFindFreeLoop, hstate, if_true]

end

/-! ## One record -/

section

variable {cap : ℕ} {s s' s'' : MqRun} {record : ℤ × Bytes} {now : ℤ}

/-- A valid record is refused by a full queue only. -/
theorem MqLedgerInv.enqueue_record (hs : MqLedgerInv cap s) (hvalid : MqRecordValid record)
    (now : ℤ) :
    ((mqEnqueue cap s.queue record.1 (some record.2) now).code ≠ mqOk ∧
        (∀ slot < cap, (s.queue.ring slot).Occupied) ∧
        ∃ rejections, s.enqueue cap record.1 (some record.2) now =
          ⟨{ s.queue with stats := { s.queue.stats with totalFullRejections := rejections } },
            s.ledger⟩) ∨
      ∃ m < cap, ¬ (s.queue.ring (slotAt cap s.queue.head m)).Occupied ∧
        (mqFindFreeSlot cap s.queue).1 = some (slotAt cap s.queue.head m) ∧
        (mqEnqueue cap s.queue record.1 (some record.2) now).code = mqOk ∧
        s.enqueue cap record.1 (some record.2) now =
          ⟨s.queue.place cap (slotAt cap s.queue.head m) (mqNewEntry record.1 record.2 now),
            s.ledger.recordBirth (slotAt cap s.queue.head m) record.1 record.2⟩ := by
  rcases mqEnqueue_cases hs.queue.toMqCounted record.1 (some record.2) now with
    ⟨hcode, ⟨rejections, hqueue⟩, hfull⟩ |
    ⟨k, hk, bytes, ⟨⟩, -, -, -, -, hfree, hfound, hresult⟩
  · refine .inl ⟨hcode, hfull record.2 rfl hvalid.1 hvalid.2.1 hvalid.2.2, rejections, ?_⟩
    simp only [MqRun.enqueue, hqueue, hcode, if_false]
  · obtain ⟨m, hm, hat⟩ := exists_slotAt hs.queue.head_lt (slotAt_lt (by omega) k)
    rw [← hat] at hfree hfound hresult
    refine .inr ⟨m, hm, hfree, hfound, by rw [hresult], ?_⟩
    simp only [MqRun.enqueue, hresult, hfound, if_true]

/-- Every stored message stays where it is, and a message that is added has a
later number. -/
structure MqRun.Grown (cap : ℕ) (s s' : MqRun) : Prop where
  ledger : MqLedgerInv cap s'
  head_eq : s.queue.count ≠ 0 → s'.queue.head = s.queue.head
  kept : ∀ slot < cap, (s.queue.ring slot).Occupied →
    s'.queue.ring slot = s.queue.ring slot ∧ s'.ledger.owner slot = s.ledger.owner slot
  fresh : ∀ slot < cap, ¬ (s.queue.ring slot).Occupied → (s'.queue.ring slot).Occupied →
    s.ledger.born.length ≤ s'.ledger.owner slot
  born_le : s.ledger.born.length ≤ s'.ledger.born.length
  count_le : s.queue.count ≤ s'.queue.count

theorem MqRun.Grown.refl (hs : MqLedgerInv cap s) : s.Grown cap s where
  ledger := hs
  head_eq := fun _ => rfl
  kept := fun _ _ _ => ⟨rfl, rfl⟩
  fresh := fun _ _ hfree hoccupied => absurd hoccupied hfree
  born_le := le_rfl
  count_le := le_rfl

theorem MqRun.Grown.trans (hfirst : s.Grown cap s') (hsecond : s'.Grown cap s'') :
    s.Grown cap s'' where
  ledger := hsecond.ledger
  head_eq := by
    intro hcount
    have hle := hfirst.count_le
    rw [hsecond.head_eq (by omega), hfirst.head_eq hcount]
  kept := by
    intro slot hslot hoccupied
    obtain ⟨hring, howner⟩ := hfirst.kept slot hslot hoccupied
    obtain ⟨hring', howner'⟩ := hsecond.kept slot hslot (hring.symm ▸ hoccupied)
    exact ⟨hring'.trans hring, howner'.trans howner⟩
  fresh := by
    intro slot hslot hfree hoccupied
    by_cases hbetween : (s'.queue.ring slot).Occupied
    · rw [(hsecond.kept slot hslot hbetween).2]
      exact hfirst.fresh slot hslot hfree hbetween
    · exact hfirst.born_le.trans (hsecond.fresh slot hslot hbetween hoccupied)
  born_le := hfirst.born_le.trans hsecond.born_le
  count_le := hfirst.count_le.trans hsecond.count_le

theorem MqLedgerInv.enqueue_grown (hs : MqLedgerInv cap s) (hvalid : MqRecordValid record)
    (now : ℤ) : s.Grown cap (s.enqueue cap record.1 (some record.2) now) := by
  have hledger := MqRun.enqueue_inv hs record.1 (some record.2) now
  rcases hs.enqueue_record hvalid now with
    ⟨-, -, rejections, hresult⟩ | ⟨m, hm, hfree, -, -, hresult⟩
  · rw [hresult] at hledger ⊢
    exact ⟨hledger, fun _ => rfl, fun _ _ _ => ⟨rfl, rfl⟩,
      fun _ _ hnot hoccupied => absurd hoccupied hnot, le_rfl, le_rfl⟩
  · rw [hresult] at hledger ⊢
    refine ⟨hledger, ?_, ?_, ?_, ?_, Nat.le_succ _⟩
    · intro hcount
      simp [Mq.place, hcount]
    · intro slot hslot hoccupied
      have hne : slot ≠ slotAt cap s.queue.head m := by
        rintro rfl
        exact hfree hoccupied
      exact ⟨Function.update_of_ne hne _ _, Function.update_of_ne hne _ _⟩
    · intro slot hslot hnot hoccupied
      have hsame : slot = slotAt cap s.queue.head m := by
        by_contra hne
        simp only [Mq.place] at hoccupied
        rw [Function.update_of_ne hne] at hoccupied
        exact hnot hoccupied
      subst hsame
      simp [MqLedger.recordBirth]
    · simp [MqLedger.recordBirth]

theorem MqLedgerInv.place_appended (hs : MqLedgerInv cap s) {slot : ℕ}
    (hfree : ¬ (s.queue.ring slot).Occupied)
    (hvisited : mqVisited cap (s.queue.place cap slot (mqNewEntry record.1 record.2 now)) =
      mqVisited cap s.queue ++ [slot]) :
    s.Appended cap ⟨s.queue.place cap slot (mqNewEntry record.1 record.2 now),
      s.ledger.recordBirth slot record.1 record.2⟩ [record] := by
  have hothers : ∀ other ∈ mqVisited cap s.queue, other ≠ slot := by
    rintro other hother rfl
    exact hfree (hs.queue.toMqCounted.mem_visited.mp hother).2
  refine ⟨rfl, ?_, ?_⟩
  · simp only [hvisited, List.map_append, MqLedger.recordBirth, List.map_singleton,
      Function.update_self, List.length_singleton, List.range'_one]
    congr 1
    refine List.map_congr_left ?_
    intro other hother
    exact Function.update_of_ne (hothers other hother) _ _
  · have hring : (s.queue.place cap slot (mqNewEntry record.1 record.2 now)).ring =
        Function.update s.queue.ring slot (mqNewEntry record.1 record.2 now) := rfl
    simp only [mqForeach, hvisited, hring, List.map_append, List.map_singleton,
      Function.update_self]
    congr 1
    refine List.map_congr_left ?_
    intro other hother
    rw [Function.update_of_ne (hothers other hother)]

theorem MqRun.Appended.refl (s : MqRun) : s.Appended cap s [] := by
  constructor <;> simp

theorem MqRun.Appended.trans {records later : List (ℤ × Bytes)}
    (hfirst : s.Appended cap s' records) (hsecond : s'.Appended cap s'' later) :
    s.Appended cap s'' (records ++ later) where
  born := by rw [hsecond.born, hfirst.born, List.append_assoc]
  visited := by
    rw [hsecond.visited, hfirst.visited, hfirst.born, List.append_assoc, List.length_append,
      List.length_append, List.range'_append_1]
  listed := by rw [hsecond.listed, hfirst.listed, List.map_append, List.append_assoc]

/-! ## The records of a file, one after the other -/

variable {records : List (ℤ × Bytes)}

theorem mqImport_queue (now loaded : ℤ) (records : List (ℤ × Bytes)) (s : MqRun) :
    (mqImport cap now records loaded s.queue).queue = (s.importRecords cap now records).queue := by
  induction records generalizing loaded s with
  | nil => rfl
  | cons record records ih =>
      rw [mqImport, MqRun.importRecords]
      dsimp only
      split
      · exact ih (loaded + 1) (s.enqueue cap record.1 (some record.2) now)
      · split <;> rfl

theorem MqRun.import_accepted (now loaded : ℤ) (s : MqRun) {record : ℤ × Bytes}
    (records : List (ℤ × Bytes))
    (haccepted : (mqEnqueue cap s.queue record.1 (some record.2) now).code = mqOk) :
    (mqImport cap now (record :: records) loaded s.queue).code =
        (mqImport cap now records (loaded + 1)
          (s.enqueue cap record.1 (some record.2) now).queue).code ∧
      s.importRecords cap now (record :: records) =
        (s.enqueue cap record.1 (some record.2) now).importRecords cap now records := by
  rw [mqImport, MqRun.importRecords]
  dsimp only
  rw [if_pos haccepted, if_pos haccepted]
  exact ⟨rfl, rfl⟩

theorem MqRun.import_refused (now loaded : ℤ) (s : MqRun) {record : ℤ × Bytes}
    (records : List (ℤ × Bytes))
    (hrefused : (mqEnqueue cap s.queue record.1 (some record.2) now).code ≠ mqOk) :
    (mqImport cap now (record :: records) loaded s.queue).code < 0 ∧
      s.importRecords cap now (record :: records) =
        s.enqueue cap record.1 (some record.2) now := by
  rw [mqImport, MqRun.importRecords]
  dsimp only
  rw [if_neg hrefused, if_neg hrefused]
  refine ⟨?_, rfl⟩
  split <;> exact Int.negSucc_lt_zero _

theorem MqRun.load_eq (path : Option CStr) (files : FileSystem) (now : ℤ) (s : MqRun) :
    mqFileRecords cap path files = none ∧ s.load cap path files now = s ∧
        (mqPersistLoad cap path s.queue files now).code < 0 ∨
      ∃ records, mqFileRecords cap path files = some records ∧
        s.load cap path files now = s.importRecords cap now records ∧
        (mqPersistLoad cap path s.queue files now).code =
          (mqImport cap now records 0 s.queue).code := by
  rcases mqPersistLoad_cases path s.queue files now with
    ⟨hnone, code, hcode, hresult⟩ | ⟨records, hsome, hresult⟩
  · refine .inl ⟨hnone, ?_, ?_⟩
    · rw [MqRun.load, hresult, hnone]
    · rw [hresult]
      exact hcode
  · refine .inr ⟨records, hsome, ?_, ?_⟩
    · rw [MqRun.load, hresult, hsome, mqImport_queue]
    · rw [hresult]

theorem MqRun.import_after (now : ℤ) (records : List (ℤ × Bytes)) (s : MqRun) :
    ∃ ops, s.importRecords cap now records = s.after cap ops := by
  induction records generalizing s with
  | nil => exact ⟨[], rfl⟩
  | cons record records ih =>
      rw [MqRun.importRecords]
      split
      · obtain ⟨ops, hops⟩ := ih (s.enqueue cap record.1 (some record.2) now)
        exact ⟨.enqueue record.1 (some record.2) now :: ops, hops⟩
      · exact ⟨[.enqueue record.1 (some record.2) now], rfl⟩

/-- A load is a run of enqueues, so what it leaves is reachable too. -/
theorem MqRun.load_after (path : Option CStr) (files : FileSystem) (now : ℤ) (s : MqRun) :
    ∃ ops, s.load cap path files now = s.after cap ops := by
  rcases MqRun.load_eq path files now s with ⟨-, hload, -⟩ | ⟨records, -, hload, -⟩
  · exact ⟨[], hload⟩
  · rw [hload]
    exact MqRun.import_after now records s

theorem MqLedgerInv.import_grown (hs : MqLedgerInv cap s)
    (hvalid : ∀ record ∈ records, MqRecordValid record) (now : ℤ) :
    s.Grown cap (s.importRecords cap now records) := by
  induction records generalizing s with
  | nil => exact .refl hs
  | cons record records ih =>
      have hfirst := hs.enqueue_grown (hvalid record List.mem_cons_self) now
      rw [MqRun.importRecords]
      split
      · exact hfirst.trans
          (ih hfirst.ledger fun later hlater => hvalid later (List.mem_cons_of_mem _ hlater))
      · exact hfirst

/-- An import takes every record, or stops; then the queue was full at once or
holds more than before. -/
theorem MqLedgerInv.import_code (hs : MqLedgerInv cap s)
    (hvalid : ∀ record ∈ records, MqRecordValid record) (now loaded : ℤ) :
    (mqImport cap now records loaded s.queue).code = loaded + records.length ∨
      (mqImport cap now records loaded s.queue).code < 0 ∧
        (s.queue.count = cap ∨ s.queue.count < (s.importRecords cap now records).queue.count) := by
  induction records generalizing s loaded with
  | nil => exact .inl (by simp [mqImport])
  | cons record records ih =>
      have hfirst := hvalid record List.mem_cons_self
      have hrest := fun later hlater => hvalid later (List.mem_cons_of_mem _ hlater)
      have hgrown := hs.enqueue_grown hfirst now
      rcases hs.enqueue_record hfirst now with
        ⟨hcode, hfull, -⟩ | ⟨m, -, -, -, hcode, hresult⟩
      · have hstopped := (s.import_refused now loaded records hcode).1
        exact .inr ⟨hstopped, .inl (hs.queue.toMqCounted.count_eq_cap_iff.mpr hfull)⟩
      · obtain ⟨hcodes, himport⟩ := s.import_accepted now loaded records hcode
        rw [hcodes, himport]
        have hlarger : s.queue.count < ((s.enqueue cap record.1 (some record.2) now).importRecords
            cap now records).queue.count := by
          have hle := (hgrown.ledger.import_grown hrest now).count_le
          refine Nat.lt_of_lt_of_le ?_ hle
          rw [hresult]
          exact Nat.lt_succ_self _
        rcases ih hgrown.ledger hrest (loaded + 1) with hall | ⟨hstopped, -⟩
        · refine .inl ?_
          rw [hall, List.length_cons]
          push_cast
          ring
        · exact .inr ⟨hstopped, .inr hlarger⟩

/-! ## Room behind the stored messages -/

theorem Mq.roomBehind_of_tail {q : Mq} {m messages : ℕ} (htail : q.tail = slotAt cap q.head m)
    (hroom : m + messages ≤ cap)
    (hbehind : ∀ j < cap, (q.ring (slotAt cap q.head j)).Occupied → j < m) :
    messages = 0 ∨ q.RoomBehind cap messages := by
  by_cases hmessages : messages = 0
  · exact .inl hmessages
  · refine .inr ⟨m, hroom, ?_, hbehind⟩
    have hfree : ¬ (q.ring q.tail).Occupied := by
      rw [htail]
      intro hoccupied
      exact lt_irrefl m (hbehind m (by omega) hoccupied)
    rw [mqFindFreeSlot_of_tail_free (by omega) hfree, htail]

theorem Mq.place_roomBehind {q : Mq} {m messages : ℕ} {e : MqEntry}
    (hroom : m + (messages + 1) ≤ cap) (hcount : q.count ≠ 0)
    (hbehind : ∀ j < cap, (q.ring (slotAt cap q.head j)).Occupied → j < m) :
    messages = 0 ∨ (q.place cap (slotAt cap q.head m) e).RoomBehind cap messages := by
  have hhead : (q.place cap (slotAt cap q.head m) e).head = q.head := by
    simp [Mq.place, hcount]
  apply Mq.roomBehind_of_tail (m := m + 1)
  · rw [hhead]
    exact slotAt_slotAt m 1
  · omega
  · rw [hhead]
    intro j hj hoccupied
    rcases place_occupied (by omega) hj hoccupied with rfl | ⟨-, -, hold⟩
    · omega
    · have hlt := hbehind j hj hold
      omega

theorem MqLedgerInv.import_appended (hs : MqLedgerInv cap s)
    (hvalid : ∀ record ∈ records, MqRecordValid record) (now loaded : ℤ)
    (hcount : s.queue.count ≠ 0)
    (hroom : records.length = 0 ∨ s.queue.RoomBehind cap records.length) :
    (mqImport cap now records loaded s.queue).code = loaded + records.length ∧
      s.Appended cap (s.importRecords cap now records) records := by
  induction records generalizing s loaded with
  | nil => exact ⟨by simp [mqImport], .refl s⟩
  | cons record records ih =>
      have hfirst := hvalid record List.mem_cons_self
      have hrest := fun later hlater => hvalid later (List.mem_cons_of_mem _ hlater)
      have hgrown := hs.enqueue_grown hfirst now
      rcases hroom with hnone | ⟨m, hfits, hslot, hbehind⟩
      · exact absurd hnone (Nat.succ_ne_zero _)
      · rw [List.length_cons] at hfits
        rcases hs.enqueue_record hfirst now with
          ⟨-, hfull, -⟩ | ⟨m', hm', hfree, hfound, hcode, hresult⟩
        · have hm := hbehind m (by omega) (hfull _ (slotAt_lt (by omega) m))
          exact absurd hm (lt_irrefl m)
        · obtain rfl : m' = m :=
            slotAt_inj hm' (by omega) (Option.some.inj (hfound.symm.trans hslot))
          have hvisited := hs.queue.visited_place (e := mqNewEntry record.1 record.2 now) rfl hm'
            hcount hbehind
          have happended := hs.place_appended hfree hvisited
          have hledger := hgrown.ledger
          rw [hresult] at hledger
          obtain ⟨hall, hlater⟩ := ih hledger hrest (loaded + 1) (Nat.succ_ne_zero _)
            (Mq.place_roomBehind hfits hcount hbehind)
          obtain ⟨hcodes, himport⟩ := s.import_accepted now loaded records hcode
          rw [hcodes, himport, hresult]
          refine ⟨?_, happended.trans hlater⟩
          rw [hall, List.length_cons]
          push_cast
          ring

/-- What was there after the first of several messages is what the visit shows
less the later ones. -/
theorem MqRun.Grown.visited_owner (hgrown : s.Grown cap s') (hs : MqLedgerInv cap s)
    (hcount : s.queue.count ≠ 0) :
    (mqVisited cap s.queue).map s.ledger.owner =
      ((mqVisited cap s'.queue).map s'.ledger.owner).filter
        fun number => number < s.ledger.born.length := by
  have hvisited := hs.queue.toMqCounted.visited_filter hgrown.ledger.queue.toMqCounted
    (hgrown.head_eq hcount) fun slot hslot hoccupied =>
      (hgrown.kept slot hslot hoccupied).1.symm ▸ hoccupied
  rw [List.filter_map, ← hvisited]
  have hsplit : (mqVisited cap s'.queue).filter
      ((fun number => decide (number < s.ledger.born.length)) ∘ s'.ledger.owner) =
        (mqVisited cap s'.queue).filter fun slot => (s.queue.ring slot).Occupied := by
    refine List.filter_congr ?_
    intro slot hslot
    obtain ⟨hlt, hstored⟩ := hgrown.ledger.queue.toMqCounted.mem_visited.mp hslot
    rw [Function.comp_apply, decide_eq_decide]
    by_cases hoccupied : (s.queue.ring slot).Occupied
    · rw [(hgrown.kept slot hlt hoccupied).2]
      exact iff_of_true (hs.owner_lt hlt hoccupied) hoccupied
    · refine iff_of_false ?_ hoccupied
      have hle := hgrown.fresh slot hlt hoccupied hstored
      omega
  rw [hsplit]
  refine List.map_congr_left ?_
  intro slot hslot
  have hmem := List.mem_filter.mp hslot
  have hlt := (hgrown.ledger.queue.toMqCounted.mem_visited.mp hmem.1).1
  exact ((hgrown.kept slot hlt (of_decide_eq_true hmem.2)).2).symm

theorem MqLedgerInv.visited_owner_lt (hs : MqLedgerInv cap s) {number : ℕ}
    (hmem : number ∈ (mqVisited cap s.queue).map s.ledger.owner) :
    number < s.ledger.born.length := by
  obtain ⟨slot, hslot, rfl⟩ := List.mem_map.mp hmem
  obtain ⟨hlt, hoccupied⟩ := hs.queue.toMqCounted.mem_visited.mp hslot
  exact hs.owner_lt hlt hoccupied

theorem MqLedgerInv.behind_of_visited (hs : MqLedgerInv cap s) {m : ℕ}
    (hfree : ¬ (s.queue.ring (slotAt cap s.queue.head m)).Occupied)
    (hgrown : s.Grown cap s') (hcount : s.queue.count ≠ 0)
    (hplaced : (s'.queue.ring (slotAt cap s.queue.head m)).Occupied)
    (hnumber : s'.ledger.owner (slotAt cap s.queue.head m) = s.ledger.born.length)
    (hvisited : (mqVisited cap s'.queue).map s'.ledger.owner =
      (mqVisited cap s.queue).map s.ledger.owner ++ [s.ledger.born.length]) :
    ∀ j < cap, (s.queue.ring (slotAt cap s.queue.head j)).Occupied → j < m := by
  have hpairs : (mqVisited cap s'.queue).Pairwise fun slot _ =>
      s'.ledger.owner slot < s.ledger.born.length := by
    rw [← List.pairwise_map (f := s'.ledger.owner) (R := fun number _ =>
      number < s.ledger.born.length), hvisited, List.pairwise_append]
    refine ⟨?_, List.pairwise_singleton _ _, ?_⟩
    · exact List.pairwise_of_forall_mem_list fun number hmem _ _ => hs.visited_owner_lt hmem
    · exact fun number hmem _ _ => hs.visited_owner_lt hmem
  intro j hj hoccupied
  by_contra hge
  have hlt : m < j := by
    rcases Nat.lt_or_eq_of_le (Nat.le_of_not_lt hge) with hlt | rfl
    · exact hlt
    · exact absurd hoccupied hfree
  rw [← hgrown.head_eq hcount] at hplaced hnumber
  have hstored : (s'.queue.ring (slotAt cap s'.queue.head j)).Occupied := by
    rw [hgrown.head_eq hcount, (hgrown.kept _ (slotAt_lt (by omega) j) hoccupied).1]
    exact hoccupied
  rw [hgrown.ledger.queue.toMqCounted.pairwise_visited_iff] at hpairs
  have hearlier := hpairs _ _ hlt hj hplaced hstored
  omega

theorem MqLedgerInv.import_roomBehind (hs : MqLedgerInv cap s)
    (hvalid : ∀ record ∈ records, MqRecordValid record) {now loaded : ℤ} (hloaded : 0 ≤ loaded)
    (hcount : s.queue.count ≠ 0)
    (hcode : (mqImport cap now records loaded s.queue).code = loaded + records.length)
    (hvisited : (mqVisited cap (s.importRecords cap now records).queue).map
        (s.importRecords cap now records).ledger.owner =
      (mqVisited cap s.queue).map s.ledger.owner ++
        List.range' s.ledger.born.length records.length) :
    records.length = 0 ∨ s.queue.RoomBehind cap records.length := by
  induction records generalizing s loaded with
  | nil => exact .inl rfl
  | cons record records ih =>
      have hfirst := hvalid record List.mem_cons_self
      have hrest := fun later hlater => hvalid later (List.mem_cons_of_mem _ hlater)
      have hgrown := hs.enqueue_grown hfirst now
      rw [List.length_cons] at hcode hvisited ⊢
      rcases hs.enqueue_record hfirst now with
        ⟨hrefused, -⟩ | ⟨m, hm, hfree, hfound, haccepted, hresult⟩
      · have hstopped := (s.import_refused now loaded records hrefused).1
        omega
      · obtain ⟨hcodes, himport⟩ := s.import_accepted now loaded records haccepted
        rw [hcodes] at hcode
        rw [himport] at hvisited
        have hborn : (s.enqueue cap record.1 (some record.2) now).ledger.born.length =
            s.ledger.born.length + 1 := by
          rw [hresult]
          simp [MqLedger.recordBirth]
        have hcount' : (s.enqueue cap record.1 (some record.2) now).queue.count ≠ 0 := by
          have hle := hgrown.count_le
          omega
        -- the first record is the last of what is visited less the later ones
        have hone : (mqVisited cap (s.enqueue cap record.1 (some record.2) now).queue).map
            (s.enqueue cap record.1 (some record.2) now).ledger.owner =
              (mqVisited cap s.queue).map s.ledger.owner ++ [s.ledger.born.length] := by
          rw [(hgrown.ledger.import_grown hrest now).visited_owner hgrown.ledger hcount', hvisited,
            hborn, List.range'_succ, List.filter_append, List.filter_cons,
            if_pos (decide_eq_true (Nat.lt_succ_self _))]
          congr 1
          · rw [List.filter_eq_self]
            intro number hmem
            have hlt := hs.visited_owner_lt hmem
            exact decide_eq_true (by omega)
          · congr 1
            rw [List.filter_eq_nil_iff]
            intro number hmem
            rw [List.mem_range'_1] at hmem
            simpa using hmem.1
        have hbehind := hs.behind_of_visited hfree hgrown hcount
          (by rw [hresult]; simp [Mq.place, mqNewEntry, MqEntry.Occupied])
          (by rw [hresult]; simp [MqLedger.recordBirth]) hone
        have hlater := ih hgrown.ledger hrest (show 0 ≤ loaded + 1 by omega) hcount'
          (by rw [hcode]; push_cast; ring)
          (by rw [hvisited, hone, hborn, List.range'_succ, List.append_assoc]; rfl)
        refine .inr ⟨m, ?_, hfound, hbehind⟩
        rcases hlater with hnone | ⟨m', hfits, -, hbehind'⟩
        · omega
        · have hlt : m < m' := by
            refine hbehind' m hm ?_
            rw [hgrown.head_eq hcount, hresult]
            simp [Mq.place, mqNewEntry, MqEntry.Occupied]
          omega

/-! ## Every reachable queue -/

theorem MqLedgerInv.import_empty (hs : MqLedgerInv cap s)
    (hvalid : ∀ record ∈ records, MqRecordValid record) (now : ℤ) (hcount : s.queue.count = 0)
    (hfits : records.length ≤ cap) :
    (mqImport cap now records 0 s.queue).code = records.length ∧
      s.Appended cap (s.importRecords cap now records) records := by
  cases records with
  | nil => exact ⟨rfl, .refl s⟩
  | cons record records =>
      have hfirst := hvalid record List.mem_cons_self
      have hrest := fun later hlater => hvalid later (List.mem_cons_of_mem _ hlater)
      have hledger := (hs.enqueue_grown hfirst now).ledger
      rcases hs.enqueue_record hfirst now with
        ⟨-, hfull, -⟩ | ⟨m, hm, hfree, -, hcode, hresult⟩
      · exact absurd (hfull _ hs.queue.head_lt) (hs.queue.toMqCounted.empty hcount hs.queue.head_lt)
      · have hslot : slotAt cap s.queue.head m < cap := slotAt_lt (by omega) m
        generalize slotAt cap s.queue.head m = slot at hslot hfree hresult
        have happended := hs.place_appended hfree
          (hs.queue.visited_place_empty (e := mqNewEntry record.1 record.2 now) rfl hslot hcount)
        rw [hresult] at hledger
        have hroom : records.length = 0 ∨ (s.queue.place cap slot
            (mqNewEntry record.1 record.2 now)).RoomBehind cap records.length := by
          have hhead : (s.queue.place cap slot (mqNewEntry record.1 record.2 now)).head = slot := by
            simp [Mq.place, hcount]
          apply Mq.roomBehind_of_tail (m := 1)
          · rw [hhead]
            rfl
          · rw [List.length_cons] at hfits
            omega
          · rw [hhead]
            intro j hj hoccupied
            have hzero := hs.queue.toMqCounted.place_empty hcount hslot _ j hj hoccupied
            omega
        obtain ⟨hall, hlater⟩ := hledger.import_appended hrest now 1 (Nat.succ_ne_zero _) hroom
        obtain ⟨hcodes, himport⟩ := s.import_accepted now 0 records hcode
        rw [hcodes, himport, hresult]
        refine ⟨?_, happended.trans hlater⟩
        rw [zero_add, hall, List.length_cons]
        push_cast
        ring

theorem MqLedgerInv.import_full (hs : MqLedgerInv cap s)
    (hvalid : ∀ record ∈ records, MqRecordValid record) (now : ℤ) (hcount : s.queue.count = cap)
    (hrecords : records ≠ []) :
    (mqImport cap now records 0 s.queue).code < 0 ∧
      s.Unchanged cap (s.importRecords cap now records) := by
  cases records with
  | nil => exact absurd rfl hrecords
  | cons record records =>
      rcases hs.enqueue_record (hvalid record List.mem_cons_self) now with
        ⟨hcode, -, rejections, hresult⟩ | ⟨m, hm, hfree, -⟩
      · obtain ⟨hstopped, himport⟩ := s.import_refused now 0 records hcode
        rw [himport, hresult]
        exact ⟨hstopped, rfl, rfl⟩
      · exact absurd (hs.queue.toMqCounted.count_eq_cap_iff.mp hcount _ (slotAt_lt (by omega) m))
          hfree

theorem MqRun.Unchanged.count_eq (hsame : s.Unchanged cap s') (hs : MqCounted cap s.queue)
    (hs' : MqCounted cap s'.queue) : s'.queue.count = s.queue.count := by
  have hcard := congrArg Multiset.card hsame.stored
  rw [MqRun.stored, MqRun.stored, Multiset.card_map, Multiset.card_map] at hcard
  rw [hs.count_eq, hs'.count_eq]
  exact hcard

theorem MqLedgerInv.restores_iff (hs : MqLedgerInv cap s) (path : Option CStr)
    (files : FileSystem) (now : ℤ) :
    s.RestoresAllOrNothing cap path files now ↔ s.RestoreFits cap path files := by
  rcases MqRun.load_eq path files now s with
    ⟨hnone, hload, hcode⟩ | ⟨records, hsome, hload, hcode⟩
  · refine iff_of_true (.inr ⟨hcode, ?_⟩) ?_
    · rw [hload]
      exact ⟨rfl, rfl⟩
    · intro records hsome
      rw [hnone] at hsome
      cases hsome
  · obtain ⟨hfits, hvalid⟩ := mqFileRecords_valid hsome
    rw [MqRun.RestoresAllOrNothing, MqRun.RestoreFits, hload, hcode, hsome]
    simp only [Option.some.injEq, exists_eq_left', forall_eq']
    constructor
    · intro hrestored
      by_contra hnot
      simp only [not_or] at hnot
      obtain ⟨hrecords, hcount, hroom, hbehind⟩ := hnot
      rcases hrestored with ⟨hall, happended⟩ | ⟨hfailed, hsame⟩
      · rcases hs.import_roomBehind hvalid le_rfl hcount (by rw [hall, zero_add])
          happended.visited with hnone | hfound
        · exact hrecords (List.eq_nil_of_length_eq_zero hnone)
        · exact hbehind hfound
      · rcases hs.import_code hvalid now 0 with hall | ⟨-, hfull | hlarger⟩
        · omega
        · exact hroom hfull
        · have heq := hsame.count_eq hs.queue.toMqCounted
            (hs.import_grown hvalid now).ledger.queue.toMqCounted
          omega
    · rintro (rfl | hcount | hcount | hroom)
      · exact .inl ⟨rfl, .refl s⟩
      · exact .inl (hs.import_empty hvalid now hcount hfits)
      · by_cases hrecords : records = []
        · subst hrecords
          exact .inl ⟨rfl, .refl s⟩
        · exact .inr (hs.import_full hvalid now hcount hrecords)
      · by_cases hcount : s.queue.count = 0
        · exact .inl (hs.import_empty hvalid now hcount hfits)
        · have happended := hs.import_appended hvalid now 0 hcount (.inr hroom)
          rw [zero_add] at happended
          exact .inl happended

end

/-- Whatever the queue holds and whatever is in the file. -/
theorem mqPersistLoad_allOrNothing_iff {cap : ℕ} (hcap : 0 < cap) (dropFn changeFn : Bool)
    (ops : List MqOp) (path : Option CStr) (files : FileSystem) (now : ℤ) :
    ((mqStart dropFn changeFn).after cap ops).RestoresAllOrNothing cap path files now ↔
      ((mqStart dropFn changeFn).after cap ops).RestoreFits cap path files :=
  (MqRun.after_inv (mqStart_inv hcap dropFn changeFn) ops).restores_iff path files now

/-- The file a full queue of two was saved to. -/
def twoMessagesFile : FileSystem := fun _ =>
  some (mqSaveBytes 2 ((mqStart false false).after 2
    [.enqueue 0 (some [66]) 0, .enqueue 1 (some [67]) 0]).queue)

theorem mqPersistLoad_allOrNothing_iff_two :
    (mqStart false false).RestoresAllOrNothing 2 (some ⟨[113], by decide⟩) twoMessagesFile 0 ↔
      (mqStart false false).RestoreFits 2 (some ⟨[113], by decide⟩) twoMessagesFile :=
  mqPersistLoad_allOrNothing_iff (by decide) false false [] _ _ _

/-- One free slot and two records: the first is enqueued before the load fails. -/
theorem mqPersistLoad_not_allOrNothing :
    ¬ ∀ cap, 0 < cap → ∀ ops path files now,
      ((mqStart false false).after cap ops).RestoresAllOrNothing cap path files now := by
  intro hall
  have hcode : (mqPersistLoad 2 (some ⟨[113], by decide⟩)
      ((mqStart false false).after 2 [.enqueue 2 (some [65]) 0]).queue twoMessagesFile 0).code =
        mqPersistErrFull := by decide +kernel
  have hlisted : mqForeach 2 (((mqStart false false).after 2 [.enqueue 2 (some [65]) 0]).load 2
      (some ⟨[113], by decide⟩) twoMessagesFile 0).queue = [(2, [65], 1), (0, [66], 1)] := by
    decide +kernel
  rcases hall 2 (by decide) [.enqueue 2 (some [65]) 0] (some ⟨[113], by decide⟩) twoMessagesFile 0
    with ⟨records, -, hdone, -⟩ | ⟨-, hsame⟩
  · rw [hcode] at hdone
    exact absurd hdone (by simp only [mqPersistErrFull]; omega)
  · have hbefore := hlisted.symm.trans hsame.listed
    revert hbefore
    decide

end ToxRelayer
