import ToxRelayer.QueueMirror
import ToxRelayer.StepRun

/-!
# A relay that is killed

The flush of the event loop replaces the queue file while the loop goes on.  Wherever the
process is killed, between two steps or inside a save, the next start finds the queue as
it was after some part of the run, and what the rest of the run did was not yet due to be
saved or could not be.
-/

namespace ToxRelayer

open CString StepRun

/-! ## What a start finds -/

/-- The messages a start restores from the queue file. -/
def restoredMessages (cap : ℕ) (files : FileSystem) : List (ℤ × Bytes × ℕ) :=
  match mqFileRecords cap (some queueFile) files with
  | none => []
  | some records => records.map fun record => (record.1, record.2, record.2.length)

section

variable {cap : ℕ} {files : FileSystem}

theorem queueLoopStart_listed (hcap : 0 < cap) (files : FileSystem) (now : ℤ) :
    mqForeach cap (queueLoopStart cap files now).run.queue = restoredMessages cap files := by
  rw [restoredMessages]
  cases hrecords : mqFileRecords cap (some queueFile) files with
  | some records =>
      obtain ⟨-, -, hlisted, -⟩ := mqPersistLoad_fresh hcap hrecords true true now
      exact hlisted
  | none =>
      rcases MqRun.load_eq (some queueFile) files now (mqStart true true) with
        ⟨-, hload, -⟩ | ⟨records, hsome, -⟩
      · rw [queueLoopStart, hload]
        rfl
      · rw [hrecords] at hsome
        cases hsome

/-- Only the queue file is looked at. -/
theorem restoredMessages_congr {files files' : FileSystem}
    (hfile : files' queueFile.val = files queueFile.val) :
    restoredMessages cap files' = restoredMessages cap files := by
  have hrecords : mqFileRecords cap (some queueFile) files' =
      mqFileRecords cap (some queueFile) files := by
    simp only [mqFileRecords, mqReadAll, hfile]
  rw [restoredMessages, restoredMessages, hrecords]

theorem restoredMessages_saved {q : Mq} (hint : cap < 2 ^ 31) (hq : MqCounted cap q)
    (hmessages : ∀ message ∈ mqForeach cap q, MqSavable message)
    (hfile : files queueFile.val = some (mqSaveBytes cap q)) :
    restoredMessages cap files = mqForeach cap q := by
  rw [restoredMessages, mqFileRecords_saved hint hq hmessages queueFile_usable hfile]
  dsimp only
  rw [List.map_map]
  calc (mqForeach cap q).map ((fun record => (record.1, record.2, record.2.length)) ∘
        mqSavedRecord)
      = (mqForeach cap q).map id := by
        refine List.map_congr_left ?_
        intro message hmem
        rw [Function.comp_apply, mqSavedRecord, ← (hmessages message hmem).len_eq]
        rfl
    _ = mqForeach cap q := List.map_id _

/-- The friend numbers of a file are of 32 bits. -/
theorem mqRecords_fit (buf : Bytes) (count off : ℕ) :
    ∀ record ∈ mqRecords buf count off, record.1 < 2 ^ 31 := by
  induction count generalizing off with
  | zero => simp [mqRecords]
  | succ count ih =>
      rw [mqRecords]
      refine List.forall_mem_cons.mpr ⟨?_, ih _⟩
      exact Int32.toInt_lt _

theorem mqFileRecords_fit {records : List (ℤ × Bytes)}
    (hrecords : mqFileRecords cap (some queueFile) files = some records) :
    ∀ record ∈ records, record.1 < 2 ^ 31 := by
  simp only [mqFileRecords, queueFile_usable.1, if_false] at hrecords
  split at hrecords
  · cases hrecords
  · split at hrecords
    · cases hrecords
      exact mqRecords_fit _ _ _
    · cases hrecords

theorem MqRun.importRecords_fits (now : ℤ) {records : List (ℤ × Bytes)}
    (hrecords : ∀ record ∈ records, record.1 < 2 ^ 31) (s : MqRun) :
    ∃ ops, (∀ op ∈ ops, op.FitsInt) ∧ s.importRecords cap now records = s.after cap ops := by
  induction records generalizing s with
  | nil => exact ⟨[], List.forall_mem_nil _, rfl⟩
  | cons record records ih =>
      obtain ⟨hrecord, hrest⟩ := List.forall_mem_cons.mp hrecords
      have hfirst : (MqOp.enqueue record.1 (some record.2) now).FitsInt := hrecord
      rw [MqRun.importRecords]
      split
      · obtain ⟨ops, hops, hafter⟩ := ih hrest (s.enqueue cap record.1 (some record.2) now)
        exact ⟨_ :: ops, List.forall_mem_cons.mpr ⟨hfirst, hops⟩, hafter⟩
      · exact ⟨[_], List.forall_mem_singleton.mpr hfirst, rfl⟩

end

/-! ## What the loop keeps -/

/-- The friend numbers of the calls are of type `int`. -/
def QueueLoopStep.FitsInt : QueueLoopStep → Prop
  | .call op => op.FitsInt
  | .flush _ _ => True

/-- The queue is reachable, and the file holds it unless the flag is set. -/
structure QueueLoopKept (cap : ℕ) (loop : QueueLoop) : Prop where
  reached : ∃ ops, (∀ op ∈ ops, op.FitsInt) ∧ loop.run = (mqStart true true).after cap ops
  clean : loop.queueDirty = false →
    restoredMessages cap loop.files = mqForeach cap loop.run.queue

/-- After this step the file is known to hold the queue: the flush finds the flag not
set, or saves. -/
def QueueLoop.Saves (cap : ℕ) (loop : QueueLoop) : QueueLoopStep → Prop
  | .call _ => False
  | .flush curTime io =>
      loop.queueDirty = false ∨
        loop.lastQueueSave + queueSaveInterval ≤ curTime ∧
          (mqPersistSaveIo cap io (some queueFile) loop.run.queue loop.files).code = mqPersistOk

/-- What is on the disk when the process is killed here, between two steps or inside a
save. -/
def QueueLoop.LeftBy (cap : ℕ) (loop : QueueLoop) (left : FileSystem) : Prop :=
  left = loop.files ∨
    ∃ io, left ∈ (mqPersistSaveIo cap io (some queueFile) loop.run.queue loop.files).points

theorem timedOut_queueSaveInterval (timestamp curTime : ℤ) :
    timedOut timestamp curTime queueSaveInterval = true ↔
      timestamp + queueSaveInterval ≤ curTime := by
  rw [timedOut, queueSaveInterval]
  split
  · simp only [Bool.false_eq_true, false_iff]
    omega
  · rw [decide_eq_true_iff]
    omega

section

variable {cap : ℕ} {loop : QueueLoop}

theorem QueueLoopKept.hooked (hcap : 0 < cap) (hloop : QueueLoopKept cap loop) :
    MqHooked cap loop.run := by
  obtain ⟨ops, -, hrun⟩ := hloop.reached
  rw [hrun]
  exact (mqStart_hooked hcap true).after ops

theorem QueueLoopKept.savable (hcap : 0 < cap) (hloop : QueueLoopKept cap loop) :
    ∀ message ∈ mqForeach cap loop.run.queue, MqSavable message := by
  obtain ⟨ops, hops, hrun⟩ := hloop.reached
  rw [hrun]
  exact mqForeach_savable hcap true true hops

theorem queueLoopStart_kept (hcap : 0 < cap) (files : FileSystem) (now : ℤ) :
    QueueLoopKept cap (queueLoopStart cap files now) where
  reached := by
    rcases MqRun.load_eq (some queueFile) files now (mqStart true true) with
      ⟨-, hload, -⟩ | ⟨records, hrecords, hload, -⟩
    · exact ⟨[], List.forall_mem_nil _, hload⟩
    · rw [queueLoopStart, hload]
      exact MqRun.importRecords_fits now (mqFileRecords_fit hrecords) _
  clean := fun _ => (queueLoopStart_listed hcap files now).symm

/-- A save that succeeds leaves the queue on the disk, and a save that fails leaves the
queue file as it was. -/
theorem QueueLoopKept.saved (hcap : 0 < cap) (hint : cap < 2 ^ 31)
    (hloop : QueueLoopKept cap loop) (io : MqSaveIo) :
    let saved := mqPersistSaveIo cap io (some queueFile) loop.run.queue loop.files
    restoredMessages cap saved.files =
      if saved.code = mqPersistOk then mqForeach cap loop.run.queue
      else restoredMessages cap loop.files := by
  intro saved
  obtain ⟨-, ⟨hcode, hfile, -⟩ | ⟨hcode, hfiles⟩⟩ :=
    @mqPersistSaveIo_cases cap loop.run.queue loop.files io queueFile
  · rw [if_pos hcode]
    exact restoredMessages_saved hint (hloop.hooked hcap).ledger.queue.toMqCounted
      (hloop.savable hcap) hfile
  · rw [if_neg hcode]
    apply restoredMessages_congr
    rcases hfiles with hsame | hunlinked
    · rw [hsame]
    · rw [hunlinked]
      exact Function.update_of_ne (mqTmp_ne queueFile.val) _ _

theorem QueueLoopKept.call (hcap : 0 < cap) (hloop : QueueLoopKept cap loop) {op : MqOp}
    (hop : op.FitsInt) : QueueLoopKept cap (loop.step cap (.call op)) where
  reached := by
    obtain ⟨ops, hops, hrun⟩ := hloop.reached
    refine ⟨ops ++ [op], ?_, ?_⟩
    · exact List.forall_mem_append.mpr ⟨hops, List.forall_mem_singleton.mpr hop⟩
    · rw [QueueLoop.step, hrun, MqRun.after, MqRun.after, List.foldl_append]
      rfl
  clean := by
    intro hclean
    have hhooked := hloop.hooked hcap
    simp only [QueueLoop.step, Bool.or_eq_false_iff, decide_eq_false_iff_not, not_not] at hclean
    have hlisted := (hhooked.ledger.queue.announces hhooked.hook op).listed hclean.2
    simp only [QueueLoop.step]
    rw [hlisted]
    exact hloop.clean hclean.1

theorem QueueLoopKept.flush (hcap : 0 < cap) (hint : cap < 2 ^ 31)
    (hloop : QueueLoopKept cap loop) (curTime : ℤ) (io : MqSaveIo) :
    QueueLoopKept cap (loop.step cap (.flush curTime io)) := by
  have hsaved := hloop.saved hcap hint io
  rw [QueueLoop.step]
  split
  · next hdue =>
      rw [Bool.and_eq_true] at hdue
      refine ⟨hloop.reached, ?_⟩
      dsimp only
      intro hclean
      split at hclean
      · next hcode => rw [hsaved, if_pos hcode]
      · rw [hdue.1] at hclean
        cases hclean
  · exact hloop

theorem QueueLoopKept.step (hcap : 0 < cap) (hint : cap < 2 ^ 31)
    (hloop : QueueLoopKept cap loop) {step : QueueLoopStep} (hstep : step.FitsInt) :
    QueueLoopKept cap (loop.step cap step) := by
  cases step with
  | call op => exact hloop.call hcap hstep
  | flush curTime io => exact hloop.flush hcap hint curTime io

/-- A step that does not save leaves the file as it is. -/
theorem QueueLoopKept.not_saves (hcap : 0 < cap) (hint : cap < 2 ^ 31)
    (hloop : QueueLoopKept cap loop) {step : QueueLoopStep} (hnot : ¬ loop.Saves cap step) :
    restoredMessages cap (loop.step cap step).files = restoredMessages cap loop.files := by
  cases step with
  | call op => rfl
  | flush curTime io =>
      rw [QueueLoop.step]
      split
      · next hdue =>
          rw [Bool.and_eq_true, timedOut_queueSaveInterval] at hdue
          have hfailed : (mqPersistSaveIo cap io (some queueFile) loop.run.queue
              loop.files).code ≠ mqPersistOk := fun hcode => hnot (.inr ⟨hdue.2, hcode⟩)
          exact (hloop.saved hcap hint io).trans (if_neg hfailed)
      · rfl

theorem QueueLoopKept.saves (hcap : 0 < cap) (hint : cap < 2 ^ 31)
    (hloop : QueueLoopKept cap loop) {step : QueueLoopStep} (hsaves : loop.Saves cap step) :
    restoredMessages cap (loop.step cap step).files =
      mqForeach cap (loop.step cap step).run.queue := by
  cases step with
  | call op => exact hsaves.elim
  | flush curTime io =>
      rw [QueueLoop.step]
      split
      · next hdue =>
          rw [Bool.and_eq_true] at hdue
          rcases hsaves with hclean | ⟨-, hcode⟩
          · rw [hdue.1] at hclean
            cases hclean
          · exact (hloop.saved hcap hint io).trans (if_pos hcode)
      · next hdue =>
          rcases hsaves with hclean | ⟨hlate, -⟩
          · exact hloop.clean hclean
          · rw [Bool.and_eq_true, timedOut_queueSaveInterval, not_and] at hdue
            apply hloop.clean
            exact Bool.eq_false_of_not_eq_true fun hdirty => hdue hdirty hlate

/-- A kill inside a save leaves one of the two states around it. -/
theorem QueueLoopKept.leftBy (hcap : 0 < cap) (hint : cap < 2 ^ 31)
    (hloop : QueueLoopKept cap loop) {left : FileSystem} (hleft : loop.LeftBy cap left) :
    restoredMessages cap left = restoredMessages cap loop.files ∨
      restoredMessages cap left = mqForeach cap loop.run.queue := by
  rcases hleft with rfl | ⟨io, hpoint⟩
  · exact .inl rfl
  · obtain ⟨hpoints, -⟩ := @mqPersistSaveIo_cases cap loop.run.queue loop.files io queueFile
    rcases hpoints left hpoint with hold | rfl
    · exact .inl (restoredMessages_congr hold)
    · rw [hloop.saved hcap hint io]
      split
      · exact .inr rfl
      · exact .inl rfl

end

/-- Wherever the process is killed, the next start restores the queue as it was after a
part of the run; every flush of the rest found something to save and came too early for
it or failed. -/
theorem queueLoop_survives {cap : ℕ} (hcap : 0 < cap) (hint : cap < 2 ^ 31)
    (files : FileSystem) (now : ℤ) (steps : List QueueLoopStep)
    (hsteps : ∀ step ∈ steps, step.FitsInt) (left : FileSystem)
    (hleft : ((queueLoopStart cap files now).after cap steps).LeftBy cap left) :
    ∃ before after, steps = before ++ after ∧
      (∀ later, mqForeach cap (queueLoopStart cap left later).run.queue =
        mqForeach cap ((queueLoopStart cap files now).after cap before).run.queue) ∧
      Along (QueueLoop.step cap) (fun loop step => ¬ loop.Saves cap step)
        ((queueLoopStart cap files now).after cap before) after := by
  have hstart := queueLoopStart_kept hcap files now
  have hkept : ∀ loop step, QueueLoopKept cap loop → step.FitsInt →
      QueueLoopKept cap (loop.step cap step) := fun loop step hloop => hloop.step hcap hint
  have halong : Along (QueueLoop.step cap) (fun _ step => step.FitsInt)
      (queueLoopStart cap files now) steps := .of_forall hsteps _
  rcases (halong.last hkept hstart).leftBy hcap hint hleft with hfile | hnow
  · obtain ⟨before, after, rfl, hcopy, hsince⟩ := halong.exists_lastCopied
      (fun loop => restoredMessages cap loop.files)
      (fun loop => mqForeach cap loop.run.queue) hkept
      (fun loop step hloop hnot => hloop.not_saves hcap hint hnot)
      (fun loop step hloop hsaves => hloop.saves hcap hint hsaves) hstart
      (queueLoopStart_listed hcap files now).symm
    refine ⟨before, after, rfl, ?_, hsince⟩
    intro later
    rw [queueLoopStart_listed hcap, hfile]
    exact hcopy
  · refine ⟨steps, [], (List.append_nil _).symm, ?_, trivial⟩
    intro later
    rw [queueLoopStart_listed hcap]
    exact hnow

/-- Killed after a flush that came too early. -/
theorem queueLoop_survives_early :
    let io : MqSaveIo := ⟨true, fun _ => 99, true, true, true, true, fun _ => []⟩
    let steps : List QueueLoopStep := [.call (.enqueue 3 (some [65]) 0), .flush 6 io,
      .call (.enqueue 4 (some [66]) 7), .flush 8 io]
    let start := queueLoopStart 2 (fun _ => none) 0
    ∃ before after, steps = before ++ after ∧
      (∀ later, mqForeach 2 (queueLoopStart 2 (start.after 2 steps).files later).run.queue =
        mqForeach 2 (start.after 2 before).run.queue) ∧
      Along (QueueLoop.step 2) (fun loop step => ¬ loop.Saves 2 step)
        (start.after 2 before) after :=
  queueLoop_survives (by decide) (by decide) _ _ _
    (by simp [QueueLoopStep.FitsInt, MqOp.FitsInt]) _ (.inl rfl)

end ToxRelayer
