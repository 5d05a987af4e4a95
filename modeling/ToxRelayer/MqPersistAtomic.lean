import ToxRelayer.MqPersistRoundTrip

/-!
# Saving when file operations fail

`mq_persist_save` once more, with every operation on the temporary file free to
fail, and the states of the file system in which a crash can leave it.
-/

namespace ToxRelayer

open CString LittleEndian

def mqPersistErrIo : ℤ := -2

/-- How the operations of one call end.  An `fwrite` takes so many bytes; until
the stream has been flushed, the device can hold anything of the file. -/
structure MqSaveIo where
  fopen : Bool
  fwrite : ℕ → ℕ
  fflush : Bool
  fsync : Bool
  fclose : Bool
  rename : Bool
  unflushed : ℕ → Bytes

/-- An open file: the bytes it has taken, and what the device held of it after
each operation so far. -/
structure MqStream where
  taken : Bytes
  points : List Bytes

/-- The stream, and whether all the bytes have gone into it. -/
def MqStream.fwrite (io : MqSaveIo) (fp : MqStream) (data : Bytes) : MqStream × Bool :=
  let written := io.fwrite fp.points.length
  (⟨fp.taken ++ data.take written, fp.points ++ [io.unflushed fp.points.length]⟩,
    data.length ≤ written)

/-- `mq_save_ctx` -/
structure MqSaveCtx where
  fp : MqStream
  failed : Bool

/-- `mq_save_visit` with its writes -/
def mqSaveVisitIo (io : MqSaveIo) (ctx : MqSaveCtx) (message : ℤ × Bytes × ℕ) : MqSaveCtx :=
  if ctx.failed then ctx
  else
    let head := ctx.fp.fwrite io
      (lePutI32 (Int32.ofInt message.1) ++ lePutU32 (UInt32.ofNat message.2.2))
    if head.2 = false then ⟨head.1, true⟩
    else
      let payload := head.1.fwrite io (message.2.1.take message.2.2)
      ⟨payload.1, !payload.2⟩

/-- The writes, from `fopen` on. -/
def mqWriteQueue (cap : ℕ) (io : MqSaveIo) (q : Mq) : MqSaveCtx :=
  let header := MqStream.fwrite io ⟨[], [[]]⟩ (mqSaveHeader q.count)
  if header.2 then (mqForeach cap q).foldl (mqSaveVisitIo io) ⟨header.1, false⟩
  else ⟨header.1, true⟩

structure MqWritten where
  ok : Bool
  content : Bytes
  points : List Bytes

/-- The temporary file until it is closed. -/
def mqWriteTmp (cap : ℕ) (io : MqSaveIo) (q : Mq) : MqWritten :=
  let ctx := mqWriteQueue cap io q
  let crashed := ctx.fp.points.length
  let flushed := !ctx.failed && io.fflush
  let synced := flushed && io.fsync
  let closed := synced && io.fclose
  ⟨closed, ctx.fp.taken, ctx.fp.points ++
    [if flushed then ctx.fp.taken else io.unflushed crashed,
      if synced then ctx.fp.taken else io.unflushed (crashed + 1),
      if closed then ctx.fp.taken else io.unflushed (crashed + 2)]⟩

structure MqSavedIo where
  code : ℤ
  files : FileSystem
  points : List FileSystem

def mqTmp (path : Bytes) : Bytes := path ++ bytes ".tmp"

/-- `mq_persist_save` with its file operations -/
def mqPersistSaveIo (cap : ℕ) (io : MqSaveIo) (path : Option CStr) (q : Mq)
    (files : FileSystem) : MqSavedIo :=
  match path with
  | none => ⟨mqPersistErrPath, files, [files]⟩
  | some path =>
      if path.val = [] then ⟨mqPersistErrPath, files, [files]⟩
      else
        let tmp := mqTmp path.val
        if pathMax ≤ tmp.length then ⟨mqPersistErrPath, files, [files]⟩
        else if io.fopen = false then ⟨mqPersistErrIo, files, [files]⟩
        else
          let written := mqWriteTmp cap io q
          let points := files :: written.points.map fun content =>
            Function.update files tmp (some content)
          if written.ok = false ∨ io.rename = false then
            let unlinked := Function.update files tmp none
            ⟨mqPersistErrIo, unlinked, points ++ [unlinked]⟩
          else
            -- flushing the directory afterwards does not change what is in it
            let renamed := Function.update (Function.update files tmp none) path.val
              (some written.content)
            ⟨mqPersistOk, renamed, points ++ [renamed]⟩

/-- A queue file with these messages. -/
def mqSerialised (messages : List (ℤ × Bytes × ℕ)) : Bytes :=
  mqSaveHeader messages.length ++ messages.flatMap mqSaveMessage

/-- The target holds all of the queue after a success, what it held before after a
failure, and one of the two wherever the call is cut short. -/
structure MqSaveAtomic (cap : ℕ) (path : CStr) (q : Mq) (files : FileSystem)
    (saved : MqSavedIo) : Prop where
  success : saved.code = mqPersistOk →
    saved.files path.val = some (mqSerialised (mqForeach cap q))
  failure : saved.code ≠ mqPersistOk →
    saved.files path.val = files path.val ∧ saved.files (mqTmp path.val) = none
  crash : ∀ point ∈ saved.points, point path.val = files path.val ∨
    point path.val = some (mqSerialised (mqForeach cap q))

/-! ## What has been written -/

section

variable {cap : ℕ} {io : MqSaveIo}

theorem MqStream.fwrite_taken {fp : MqStream} {data : Bytes}
    (hall : (fp.fwrite io data).2 = true) :
    (fp.fwrite io data).1.taken = fp.taken ++ data := by
  have hlength : data.length ≤ io.fwrite fp.points.length := of_decide_eq_true hall
  rw [MqStream.fwrite]
  dsimp only
  rw [List.take_of_length_le hlength]

/-- Once a write has failed there are no more of them. -/
theorem mqSaveVisitIo_failed {ctx : MqSaveCtx} (hfailed : ctx.failed = true)
    (messages : List (ℤ × Bytes × ℕ)) : messages.foldl (mqSaveVisitIo io) ctx = ctx := by
  induction messages with
  | nil => rfl
  | cons message messages ih =>
      rw [List.foldl_cons, mqSaveVisitIo, if_pos hfailed]
      exact ih

theorem mqSaveVisitIo_taken {ctx : MqSaveCtx} {message : ℤ × Bytes × ℕ}
    (hrunning : ctx.failed = false) (hdone : (mqSaveVisitIo io ctx message).failed = false) :
    (mqSaveVisitIo io ctx message).fp.taken = ctx.fp.taken ++ mqSaveMessage message := by
  rw [mqSaveVisitIo, if_neg (by simp [hrunning])] at hdone ⊢
  dsimp only at hdone ⊢
  split at hdone
  · cases hdone
  · next hhead =>
      rw [Bool.not_eq_false] at hhead
      rw [if_neg (by simp [hhead])]
      rw [Bool.not_eq_false'] at hdone
      rw [MqStream.fwrite_taken hdone, MqStream.fwrite_taken hhead, List.append_assoc,
        mqSaveMessage, mqSaveVisit]

/-- Without a failure every record is in the stream. -/
theorem mqSaveVisitIo_all {messages : List (ℤ × Bytes × ℕ)} {ctx : MqSaveCtx}
    (hrunning : ctx.failed = false)
    (hdone : (messages.foldl (mqSaveVisitIo io) ctx).failed = false) :
    (messages.foldl (mqSaveVisitIo io) ctx).fp.taken =
      ctx.fp.taken ++ messages.flatMap mqSaveMessage := by
  induction messages generalizing ctx with
  | nil => simp
  | cons message messages ih =>
      rw [List.foldl_cons] at hdone ⊢
      cases hnext : (mqSaveVisitIo io ctx message).failed with
      | true =>
          rw [mqSaveVisitIo_failed hnext, hnext] at hdone
          cases hdone
      | false =>
          rw [ih hnext hdone, mqSaveVisitIo_taken hrunning hnext, List.append_assoc,
            List.flatMap_cons]

theorem mqWriteTmp_content {q : Mq} (hok : (mqWriteTmp cap io q).ok = true) :
    (mqWriteTmp cap io q).content = mqSaveBytes cap q := by
  simp only [mqWriteTmp, Bool.and_eq_true, Bool.not_eq_true'] at hok ⊢
  have hwritten := hok.1.1.1
  unfold mqWriteQueue at hwritten ⊢
  dsimp only at hwritten ⊢
  split at hwritten
  · next hheader =>
      rw [if_pos hheader, mqSaveVisitIo_all rfl hwritten, MqStream.fwrite_taken hheader]
      rfl
  · cases hwritten

end

/-! ## How a save ends -/

theorem mqTmp_ne (path : Bytes) : path ≠ mqTmp path := by
  intro hsame
  have hlength := congrArg List.length hsame
  rw [mqTmp, List.length_append] at hlength
  simp [bytes] at hlength

section

variable {cap : ℕ} {q : Mq} {files : FileSystem}

/-- A save ends as it would without failures, or leaves at most the temporary file
behind, and that not either. -/
theorem mqPersistSaveIo_cases (io : MqSaveIo) (path : CStr) :
    let saved := mqPersistSaveIo cap io (some path) q files
    (∀ point ∈ saved.points, point path.val = files path.val ∨ point = saved.files) ∧
      (saved.code = mqPersistOk ∧ saved.files path.val = some (mqSaveBytes cap q) ∧
          saved.files = (mqPersistSave cap (some path) q files).files ∨
        saved.code ≠ mqPersistOk ∧
          (saved.files = files ∨ saved.files = Function.update files (mqTmp path.val) none)) := by
  have hpath : mqPersistErrPath ≠ mqPersistOk := by decide
  have hio : mqPersistErrIo ≠ mqPersistOk := by decide
  have hsame : ∀ point ∈ [files], point path.val = files path.val ∨ point = files := by
    intro point hpoint
    exact .inr (List.mem_singleton.mp hpoint)
  unfold mqPersistSaveIo mqPersistSave
  dsimp only
  rw [← mqTmp]
  split
  · exact ⟨hsame, .inr ⟨hpath, .inl rfl⟩⟩
  · split
    · exact ⟨hsame, .inr ⟨hpath, .inl rfl⟩⟩
    · split
      · exact ⟨hsame, .inr ⟨hio, .inl rfl⟩⟩
      · have htmp : ∀ content : Option Bytes,
            Function.update files (mqTmp path.val) content path.val = files path.val :=
          fun content => Function.update_of_ne (mqTmp_ne path.val) _ _
        have hbefore : ∀ last : FileSystem, ∀ point ∈
            (files :: (mqWriteTmp cap io q).points.map fun content =>
              Function.update files (mqTmp path.val) (some content)) ++ [last],
              point path.val = files path.val ∨ point = last := by
          intro last point hpoint
          rw [List.mem_append, List.mem_cons, List.mem_map, List.mem_singleton] at hpoint
          rcases hpoint with (rfl | ⟨content, -, rfl⟩) | hlast
          · exact .inl rfl
          · exact .inl (htmp _)
          · exact .inr hlast
        split
        · exact ⟨hbefore _, .inr ⟨hio, .inr rfl⟩⟩
        · next hdone =>
            rw [not_or, Bool.not_eq_false] at hdone
            rw [mqWriteTmp_content hdone.1]
            exact ⟨hbefore _, .inl ⟨rfl, Function.update_self _ _ _, rfl⟩⟩

theorem MqCounted.saveBytes_eq (hq : MqCounted cap q) :
    mqSaveBytes cap q = mqSerialised (mqForeach cap q) := by
  rw [mqSerialised, hq.foreach_length]
  rfl

end

/-- Replacing the queue file is atomic. -/
theorem mqPersistSave_atomic {cap : ℕ} (hcap : 0 < cap) (dropFn changeFn : Bool)
    (ops : List MqOp) (path : CStr) (files : FileSystem)
    (hclean : files (mqTmp path.val) = none) (io : MqSaveIo) :
    let q := ((mqStart dropFn changeFn).after cap ops).queue
    MqSaveAtomic cap path q files (mqPersistSaveIo cap io (some path) q files) := by
  intro q
  have hq : MqCounted cap q :=
    (MqRun.after_inv (mqStart_inv hcap dropFn changeFn) ops).queue.toMqCounted
  obtain ⟨hpoints, hend⟩ := @mqPersistSaveIo_cases cap q files io path
  rw [hq.saveBytes_eq] at hend
  rcases hend with ⟨hcode, htarget, -⟩ | ⟨hcode, hfiles⟩
  · refine ⟨fun _ => htarget, fun hfailed => absurd hcode hfailed, ?_⟩
    intro point hpoint
    rcases hpoints point hpoint with hold | rfl
    · exact .inl hold
    · exact .inr htarget
  · have hunchanged : (mqPersistSaveIo cap io (some path) q files).files = files := by
      rcases hfiles with hfiles | hfiles
      · exact hfiles
      · rw [hfiles, ← hclean, Function.update_eq_self]
    refine ⟨fun hsucceeded => absurd hsucceeded hcode, fun _ => ?_, ?_⟩
    · rw [hunchanged]
      exact ⟨rfl, hclean⟩
    · intro point hpoint
      rcases hpoints point hpoint with hold | rfl
      · exact .inl hold
      · rw [hunchanged]
        exact .inl rfl

/-- The close fails after everything has been written. -/
theorem mqPersistSave_atomic_close :
    let q := ((mqStart false true).after 2 [.enqueue 3 (some [65]) 0]).queue
    let path : CStr := ⟨[113], by decide⟩
    let io : MqSaveIo := ⟨true, fun _ => 99, true, true, false, true, fun _ => []⟩
    MqSaveAtomic 2 path q (fun _ => none) (mqPersistSaveIo 2 io (some path) q fun _ => none) :=
  mqPersistSave_atomic (by decide) false true _ _ _ rfl _

end ToxRelayer
