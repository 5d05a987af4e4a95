import ToxRelayer.MqPersistAtomic

/-!
# The profile of the node

`save_data` writes the profile over itself, `store_data` writes a copy and renames it
without looking how the copy was closed.  What the next start finds is the profile of one
of the calls, wherever the process is killed, exactly when neither can go wrong.
-/

namespace ToxRelayer

open CString

def dataFile : Bytes := bytes "toxbot.tox"

def profileTmp (path : Bytes) : Bytes := path ++ bytes ".tmp"

/-! ## Writing -/

/-- How the library calls end; `fwrite` is how many bytes are taken. -/
structure ProfileIo where
  mallocPath : Bool
  fopen : Bool
  malloc : Bool
  fwrite : ℕ
  fclose : Bool
  rename : Bool

/-- The result of a write, and all that can be on the disk when it is cut short. -/
structure ProfileWritten where
  code : ℤ
  files : FileSystem
  points : List FileSystem

/-- `save_data`; `unflushed` is what the disk holds of a file that is being written, or whose
closing has failed. -/
def saveData (io : ProfileIo) (unflushed : ℕ → Bytes) (path : Option Bytes) (savedata : Bytes)
    (files : FileSystem) : ProfileWritten :=
  match path with
  | none => ⟨-1, files, [files]⟩
  | some path =>
      if io.fopen = false then ⟨-1, files, [files]⟩
      else
        let opened := Function.update files path (some [])
        if io.malloc = false then ⟨-1, opened, [files, opened]⟩
        else
          let written := min io.fwrite savedata.length
          let writing := Function.update files path (some (unflushed 0))
          let closed := Function.update files path
            (some (if io.fclose then savedata.take written else unflushed 1))
          ⟨if written ≠ savedata.length ∨ io.fclose = false then -1 else 0, closed,
            [files, opened, writing, closed]⟩

/-- `store_data` for a profile that is not encrypted -/
def storeData (io : ProfileIo) (unflushed : ℕ → Bytes) (path : Option Bytes) (savedata : Bytes)
    (files : FileSystem) : ProfileWritten :=
  match path with
  | none => ⟨-1, files, [files]⟩
  | some path =>
      if io.mallocPath = false then ⟨-1, files, [files]⟩
      else
        let tempPath := profileTmp path
        if io.fopen = false then ⟨-1, files, [files]⟩
        else
          let opened := Function.update files tempPath (some [])
          if io.malloc = false then ⟨-1, opened, [files, opened]⟩
          else
            let writing := Function.update files tempPath (some (unflushed 0))
            -- `fwrite` of one item that is not empty
            if io.fwrite < savedata.length ∨ savedata = [] then
              ⟨-1, writing, [files, opened, writing]⟩
            else
              -- the result of `fclose` is not looked at
              let content := if io.fclose then savedata else unflushed 1
              let closed := Function.update files tempPath (some content)
              if io.rename = false then ⟨-1, closed, [files, opened, writing, closed]⟩
              else
                let renamed := Function.update (Function.update files tempPath none) path
                  (some content)
                ⟨0, renamed, [files, opened, writing, closed, renamed]⟩

/-! ## Reading -/

/-- What a start makes of the profile. -/
inductive LoadedTox where
  | fresh
  | refused
  | loaded (savedata : Bytes)

/-- `load_tox`; `toxNew` tells whether toxcore takes the data. -/
def loadTox (toxNew : Bytes → Bool) (path : Bytes) (files : FileSystem) : LoadedTox :=
  match files path with
  | none => .fresh
  | some data =>
      if data = [] then .refused
      else if toxNew data then .loaded data
      else .refused

/-! ## Runs -/

inductive ProfileWriter where
  | saveData
  | storeData

/-- One call, with the profile as toxcore gives it then. -/
structure ProfileCall where
  writer : ProfileWriter
  savedata : Bytes
  io : ProfileIo

def ProfileCall.written (call : ProfileCall) (unflushed : ℕ → Bytes) (files : FileSystem) :
    ProfileWritten :=
  match call.writer with
  | .saveData => saveData call.io unflushed (some dataFile) call.savedata files
  | .storeData => storeData call.io unflushed (some dataFile) call.savedata files

/-- All that can be on the disk when the process is killed in a run of calls. -/
def profilePoints : (ℕ → ℕ → Bytes) → FileSystem → List ProfileCall → List FileSystem
  | _, files, [] => [files]
  | unflushed, files, call :: calls =>
      let written := call.written (unflushed 0) files
      written.points ++ profilePoints (fun k => unflushed (k + 1)) written.files calls

/-- The file is not opened for writing, or the copy that is renamed has been closed well. -/
def ProfileCall.Safe (call : ProfileCall) : Prop :=
  match call.writer with
  | .saveData => call.io.fopen = false
  | .storeData =>
      call.io.mallocPath = true → call.io.fopen = true → call.io.malloc = true →
        call.savedata.length ≤ call.io.fwrite → call.io.rename = true → call.io.fclose = true

/-! ## One call -/

theorem profileTmp_ne (path : Bytes) : path ≠ profileTmp path := mqTmp_ne path

section

variable {call : ProfileCall} (unflushed : ℕ → Bytes) (files : FileSystem)

theorem update_profileTmp (files : FileSystem) (content : Option Bytes) :
    Function.update files (profileTmp dataFile) content dataFile = files dataFile :=
  Function.update_of_ne (profileTmp_ne dataFile) _ _

/-- A safe call leaves the old profile or the new one, wherever it is cut short. -/
theorem ProfileCall.Safe.points (hsafe : call.Safe) :
    (∀ point ∈ (call.written unflushed files).points,
        point dataFile = files dataFile ∨ point dataFile = some call.savedata) ∧
      (call.written unflushed files).files ∈ (call.written unflushed files).points := by
  rw [ProfileCall.Safe] at hsafe
  rw [ProfileCall.written]
  split at hsafe
  · rw [saveData]
    dsimp only
    rw [if_pos hsafe]
    exact ⟨by simp, List.mem_singleton_self _⟩
  · rw [storeData]
    dsimp only
    split
    · exact ⟨by simp, List.mem_singleton_self _⟩
    · split
      · exact ⟨by simp, List.mem_singleton_self _⟩
      · split
        · exact ⟨by simp [update_profileTmp], by simp⟩
        · split
          · exact ⟨by simp [update_profileTmp], by simp⟩
          · split
            · exact ⟨by simp [update_profileTmp], by simp⟩
            · rename_i hpath hopen hmalloc hwrite hrename
              rw [not_or, not_lt] at hwrite
              have hclosed := hsafe (by simpa using hpath) (by simpa using hopen)
                (by simpa using hmalloc) hwrite.1 (by simpa using hrename)
              exact ⟨by simp [update_profileTmp, hclosed], by simp⟩

/-- A call that is not safe can leave an empty profile, or whatever the disk holds of the
copy that was not closed. -/
theorem ProfileCall.exists_point_of_not_safe (hnotSafe : ¬ call.Safe) (hdata : call.savedata ≠ []) :
    ∃ point ∈ (call.written unflushed files).points,
      point dataFile = some [] ∨ point dataFile = some (unflushed 1) := by
  rw [ProfileCall.Safe] at hnotSafe
  rw [ProfileCall.written]
  split at hnotSafe
  · rw [saveData]
    dsimp only
    rw [if_neg hnotSafe]
    have hopened : Function.update files dataFile (some []) dataFile = some [] :=
      Function.update_self _ _ _
    split
    · exact ⟨_, by simp, .inl hopened⟩
    · refine ⟨_, List.mem_cons_of_mem _ List.mem_cons_self, .inl hopened⟩
  · simp only [Classical.not_imp, Bool.not_eq_true] at hnotSafe
    obtain ⟨hpath, hopen, hmalloc, hwrite, hrename, hclosed⟩ := hnotSafe
    have hfits : ¬ (call.io.fwrite < call.savedata.length ∨ call.savedata = []) := by
      rw [not_or, not_lt]
      exact ⟨hwrite, hdata⟩
    rw [storeData]
    simp only [hpath, hopen, hmalloc, hrename, hclosed, Bool.true_eq_false, Bool.false_eq_true,
      if_false, if_neg hfits]
    refine ⟨_, List.mem_append_right [_, _, _, _] (List.mem_singleton_self _), .inr ?_⟩
    exact Function.update_self _ _ _

end

/-! ## Runs of calls -/

section

variable {files : FileSystem} {calls : List ProfileCall}

theorem profilePoints_safe (hsafe : ∀ call ∈ calls, call.Safe) (unflushed : ℕ → ℕ → Bytes) :
    ∀ point ∈ profilePoints unflushed files calls, point dataFile = files dataFile ∨
      ∃ call ∈ calls, point dataFile = some call.savedata := by
  induction calls generalizing files unflushed with
  | nil =>
      intro point hpoint
      rw [List.mem_singleton.mp hpoint]
      exact .inl rfl
  | cons call calls ih =>
      obtain ⟨hcall, hrest⟩ := List.forall_mem_cons.mp hsafe
      obtain ⟨hpoints, hlast⟩ := hcall.points (unflushed 0) files
      have hkept : ∀ content, content = files dataFile ∨ content = some call.savedata →
          content = files dataFile ∨ ∃ call' ∈ call :: calls, content = some call'.savedata := by
        rintro content (hold | hnew)
        · exact .inl hold
        · exact .inr ⟨call, List.mem_cons_self, hnew⟩
      intro point hpoint
      rcases List.mem_append.mp hpoint with hnow | hlater
      · exact hkept _ (hpoints point hnow)
      · rcases ih hrest _ point hlater with hsame | ⟨later, hmem, hdata⟩
        · rw [hsame]
          exact hkept _ (hpoints _ hlast)
        · exact .inr ⟨later, List.mem_cons_of_mem call hmem, hdata⟩

/-- What a call of a run can leave is among what the run can leave. -/
theorem exists_profilePoint {call : ProfileCall} (hcall : call ∈ calls) (junk : Bytes)
    (files : FileSystem) :
    ∃ before : FileSystem, ∀ point ∈ (call.written (fun _ => junk) before).points,
      point ∈ profilePoints (fun _ _ => junk) files calls := by
  induction calls generalizing files with
  | nil => cases hcall
  | cons first calls ih =>
      rcases List.mem_cons.mp hcall with rfl | hlater
      · exact ⟨files, fun point hpoint => List.mem_append_left _ hpoint⟩
      · obtain ⟨before, hpoints⟩ := ih hlater (first.written (fun _ => junk) files).files
        exact ⟨before, fun point hpoint => List.mem_append_right _ (hpoints point hpoint)⟩

end

/-- A file that holds none of the given contents. -/
theorem exists_junk (contents : List Bytes) : ∃ junk : Bytes, junk ∉ contents := by
  obtain ⟨junk, hjunk⟩ := Infinite.exists_notMem_finset contents.toFinset
  exact ⟨junk, fun hmem => hjunk (List.mem_toFinset.mpr hmem)⟩

theorem loadTox_congr (toxNew : Bytes → Bool) {files files' : FileSystem}
    (hsame : files' dataFile = files dataFile) :
    loadTox toxNew dataFile files' = loadTox toxNew dataFile files := by
  rw [loadTox, loadTox, hsame]

theorem loadTox_of_accepted {toxNew : Bytes → Bool} {data : Bytes} (hdata : data ≠ [])
    (haccepted : toxNew data = true) {files : FileSystem} (hfile : files dataFile = some data) :
    loadTox toxNew dataFile files = .loaded data := by
  rw [loadTox, hfile]
  dsimp only
  rw [if_neg hdata, if_pos haccepted]

theorem loadTox_eq_loaded {toxNew : Bytes → Bool} {files : FileSystem} {data : Bytes}
    (hloaded : loadTox toxNew dataFile files = .loaded data) : files dataFile = some data := by
  rw [loadTox] at hloaded
  split at hloaded
  · cases hloaded
  · rename_i found hfile
    split at hloaded
    · cases hloaded
    · split at hloaded
      · rw [hfile, LoadedTox.loaded.inj hloaded]
      · cases hloaded

theorem loadTox_of_content (toxNew : Bytes → Bool) {files : FileSystem} {junk : Bytes}
    (hcontent : files dataFile = some [] ∨ files dataFile = some junk) :
    loadTox toxNew dataFile files = .refused ∨ loadTox toxNew dataFile files = .loaded junk := by
  rcases hcontent with hempty | hjunk
  · left
    rw [loadTox, hempty]
    rfl
  · rw [loadTox, hjunk]
    dsimp only
    split
    · exact .inl rfl
    · split
      · exact .inr rfl
      · exact .inl rfl

/-- A start finds the first profile, or that of a call, wherever the process is killed and
whatever the disk holds of unfinished files, exactly when every call is safe. -/
theorem profile_survives_iff {toxNew : Bytes → Bool} {files : FileSystem}
    {calls : List ProfileCall} (hfirst : loadTox toxNew dataFile files ≠ .refused)
    (hcalls : ∀ call ∈ calls, call.savedata ≠ [] ∧ toxNew call.savedata = true) :
    (∀ unflushed, ∀ point ∈ profilePoints unflushed files calls,
      loadTox toxNew dataFile point = loadTox toxNew dataFile files ∨
        ∃ call ∈ calls, loadTox toxNew dataFile point = .loaded call.savedata) ↔
      ∀ call ∈ calls, call.Safe := by
  constructor
  · intro hall call hcall
    by_contra hnotSafe
    obtain ⟨junk, hother⟩ :=
      exists_junk ((files dataFile).getD [] :: calls.map ProfileCall.savedata)
    obtain ⟨before, hpoints⟩ := exists_profilePoint hcall junk files
    obtain ⟨point, hpoint, hcontent⟩ := ProfileCall.exists_point_of_not_safe
      (fun _ => junk) before hnotSafe (hcalls call hcall).1
    have hfound := hall (fun _ _ => junk) point (hpoints point hpoint)
    rcases loadTox_of_content toxNew hcontent with hrefused | hloaded
    · rw [hrefused] at hfound
      rcases hfound with hsame | ⟨other, -, hsame⟩
      · exact hfirst hsame.symm
      · cases hsame
    · rw [hloaded] at hfound
      rcases hfound with hsame | ⟨other, hmem, hsame⟩
      · have hfile := loadTox_eq_loaded hsame.symm
        rw [hfile, Option.getD_some, List.mem_cons] at hother
        exact hother (.inl rfl)
      · rw [LoadedTox.loaded.inj hsame] at hother
        exact hother (List.mem_cons_of_mem _ (List.mem_map_of_mem hmem))
  · intro hsafe unflushed point hpoint
    rcases profilePoints_safe hsafe unflushed point hpoint with hsame | ⟨call, hcall, hdata⟩
    · exact .inl (loadTox_congr toxNew hsame)
    · obtain ⟨hne, haccepted⟩ := hcalls call hcall
      exact .inr ⟨call, hcall, loadTox_of_accepted hne haccepted hdata⟩

/-- A profile is stored and then saved over: killed in the second call, the node starts without
its profile. -/
theorem profile_survives_iff_saved :
    let io : ProfileIo := ⟨true, true, true, 99, true, true⟩
    let calls : List ProfileCall := [⟨.storeData, [1], io⟩, ⟨.saveData, [2], io⟩]
    ((∀ unflushed, ∀ point ∈ profilePoints unflushed (fun _ => none) calls,
        loadTox (fun _ => true) dataFile point = loadTox (fun _ => true) dataFile (fun _ => none) ∨
          ∃ call ∈ calls, loadTox (fun _ => true) dataFile point = .loaded call.savedata) ↔
      ∀ call ∈ calls, call.Safe) ∧ ¬ ∀ call ∈ calls, call.Safe := by
  intro io calls
  refine ⟨profile_survives_iff nofun ?_, ?_⟩
  · intro call hcall
    rcases List.mem_pair.mp hcall with rfl | rfl
    · exact ⟨List.cons_ne_nil _ _, rfl⟩
    · exact ⟨List.cons_ne_nil _ _, rfl⟩
  · intro hsafe
    have hsaved : (ProfileCall.mk .saveData [2] io).Safe := hsafe _ (by simp [calls])
    cases hsaved

end ToxRelayer
