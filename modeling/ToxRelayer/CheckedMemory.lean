import Mathlib.Data.List.TakeWhile
import Mathlib.Tactic

/-!
# Memory accesses that can be out of bounds

A block of memory is the list of its cells.  Code that reads and writes blocks
returns `none` when an access is out of bounds, so code that returns `some` is
memory-safe.  This file names nothing of the relay.
-/

namespace CheckedMemory

/-- An access that reaches the first `reached` cells of a block of `size` cells. -/
structure Access where
  size : ℕ
  reached : ℕ
  deriving DecidableEq

def Access.InBounds (access : Access) : Prop := access.reached ≤ access.size

instance (access : Access) : Decidable access.InBounds := inferInstanceAs (Decidable (_ ≤ _))

variable {α : Type*}

def load (block : List α) (i : ℕ) : Option α := block[i]?

def store (block : List α) (i : ℕ) (value : α) : Option (List α) :=
  if i < block.length then some (block.set i value) else none

/-- Copying `src` into the block from index `i` on. -/
def copyTo (block : List α) (i : ℕ) (src : List α) : Option (List α) :=
  if i + src.length ≤ block.length then
    some (block.take i ++ src ++ block.drop (i + src.length))
  else none

/-- Reading `n` cells from index `i` on. -/
def loadBlock (block : List α) (i n : ℕ) : Option (List α) :=
  if i + n ≤ block.length then some ((block.drop i).take n) else none

/-- The cells before the first terminator; `none` when there is none in the block, so
that looking for it would run over the end. -/
def readString [DecidableEq α] (nul : α) (block : List α) : Option (List α) :=
  if nul ∈ block then some (block.takeWhile (· ≠ nul)) else none

/-! ## Blocks that have been filled from the start -/

variable {block written : List α} {i : ℕ}

theorem load_written (hwritten : written <+: block) (hi : i < written.length) :
    load block i = some written[i] := by
  obtain ⟨rest, rfl⟩ := hwritten
  rw [load, List.getElem?_append_left hi, List.getElem?_eq_getElem hi]

theorem load_of_lt (hi : i < block.length) : load block i = some block[i] :=
  List.getElem?_eq_getElem hi

theorem loadBlock_of_le {n : ℕ} (hin : i + n ≤ block.length) :
    loadBlock block i n = some ((block.drop i).take n) :=
  if_pos hin

theorem store_of_lt {value : α} (hi : i < block.length) :
    store block i value = some (block.set i value) :=
  if_pos hi

/-- The next cell of a block that has room is written. -/
theorem store_of_prefix (value : α) (hwritten : written <+: block)
    (hroom : written.length < block.length) :
    ∃ block', store block written.length value = some block' ∧
      written ++ [value] <+: block' ∧ block'.length = block.length := by
  refine ⟨_, if_pos hroom, ?_, List.length_set⟩
  obtain ⟨rest, rfl⟩ := hwritten
  cases rest with
  | nil => simp at hroom
  | cons old rest =>
      rw [List.set_append_right _ _ le_rfl, Nat.sub_self, List.set_cons_zero]
      exact ⟨rest, by simp⟩

/-- The next cells of a block that has room are written. -/
theorem copyTo_of_prefix (src : List α) (hwritten : written <+: block)
    (hroom : written.length + src.length ≤ block.length) :
    ∃ block', copyTo block written.length src = some block' ∧
      written ++ src <+: block' ∧ block'.length = block.length := by
  refine ⟨_, if_pos hroom, ?_, ?_⟩
  · have htake : block.take written.length = written := (List.prefix_iff_eq_take.mp hwritten).symm
    rw [htake]
    exact List.prefix_append _ _
  · simp only [List.length_append, List.length_take, List.length_drop]
    omega

/-- A run of cells and the one behind it are written. -/
theorem copyTo_store_of_prefix (src : List α) (value : α) (hwritten : written <+: block)
    (hroom : written.length + src.length < block.length) :
    ∃ block' block'', copyTo block written.length src = some block' ∧
      store block' (written.length + src.length) value = some block'' ∧
      written ++ src ++ [value] <+: block'' ∧ block''.length = block.length := by
  obtain ⟨block', hcopy, hcopied, hlength⟩ := copyTo_of_prefix src hwritten hroom.le
  obtain ⟨block'', hstore, hstored, hlength'⟩ := store_of_prefix value hcopied
    (by rw [List.length_append, hlength]; exact hroom)
  rw [List.length_append] at hstore
  exact ⟨block', block'', hcopy, hstore, hstored, hlength'.trans hlength⟩

theorem takeWhile_append_nul [DecidableEq α] (nul : α) (written rest : List α) :
    (written ++ nul :: rest).takeWhile (· ≠ nul) = written.takeWhile (· ≠ nul) := by
  induction written with
  | nil => simp
  | cons a written ih =>
      by_cases ha : a = nul
      · simp [ha]
      · simpa [ha] using ih

/-- A string written from the start is read up to its first terminator. -/
theorem readString_of_prefix [DecidableEq α] {nul : α} (hwritten : written ++ [nul] <+: block) :
    readString nul block = some (written.takeWhile (· ≠ nul)) := by
  have hmem : nul ∈ block := hwritten.subset (by simp)
  obtain ⟨rest, rfl⟩ := hwritten
  rw [readString, if_pos hmem, List.append_assoc, List.singleton_append, takeWhile_append_nul]

end CheckedMemory
