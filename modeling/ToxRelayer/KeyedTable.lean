import Mathlib.Data.List.Perm.Basic
import Mathlib.Order.Defs.LinearOrder
import Mathlib.Tactic

/-!
# Tables with a primary key

A table keeps its rows in the order of their keys, one row a key.  This file
names nothing of the relay; it has the part of SQL that a log of keyed rows
needs: `INSERT OR REPLACE`, and selection in key order with a limit.
-/

namespace KeyedTable

structure Table (Key Row : Type) [LinearOrder Key] where
  rows : List (Key × Row)
  sorted : rows.Pairwise (fun a b => a.1 < b.1)

section

variable {Key Row : Type} [LinearOrder Key]

namespace Table

@[ext] theorem ext {t u : Table Key Row} (hrows : t.rows = u.rows) : t = u := by
  cases t
  cases u
  cases hrows
  rfl

def empty : Table Key Row where
  rows := []
  sorted := List.Pairwise.nil

def HasKey (t : Table Key Row) (key : Key) : Prop :=
  ∃ row, (key, row) ∈ t.rows

theorem hasKey_iff (t : Table Key Row) (key : Key) :
    t.HasKey key ↔ key ∈ t.rows.map Prod.fst := by
  simp [HasKey]

instance (t : Table Key Row) (key : Key) : Decidable (t.HasKey key) :=
  decidable_of_iff _ (t.hasKey_iff key).symm

/-- `INSERT OR REPLACE`: a row with the same key gives way to the new one. -/
def insertOrReplace (t : Table Key Row) (key : Key) (row : Row) : Table Key Row where
  rows := t.rows.filter (·.1 < key) ++ (key, row) :: t.rows.filter (key < ·.1)
  sorted := by
    rw [List.pairwise_append, List.pairwise_cons]
    refine ⟨t.sorted.filter _, ⟨?_, t.sorted.filter _⟩, ?_⟩
    · intro above habove
      exact of_decide_eq_true (List.mem_filter.mp habove).2
    · intro below hbelow other hother
      have hlt : below.1 < key := of_decide_eq_true (List.mem_filter.mp hbelow).2
      rcases List.mem_cons.mp hother with rfl | habove
      · exact hlt
      · exact hlt.trans (of_decide_eq_true (List.mem_filter.mp habove).2)

/-- `SELECT … WHERE … ORDER BY key ASC LIMIT …` -/
def select (t : Table Key Row) (wanted : Key × Row → Bool) (limit : ℕ) : List (Key × Row) :=
  (t.rows.filter wanted).take limit

theorem mem_insertOrReplace {t : Table Key Row} {key : Key} {row : Row} {entry : Key × Row} :
    entry ∈ (t.insertOrReplace key row).rows ↔
      entry = (key, row) ∨ entry.1 ≠ key ∧ entry ∈ t.rows := by
  simp only [insertOrReplace, List.mem_append, List.mem_cons, List.mem_filter, decide_eq_true_eq]
  constructor
  · rintro (⟨hmem, hlt⟩ | rfl | ⟨hmem, hlt⟩)
    · exact .inr ⟨hlt.ne, hmem⟩
    · exact .inl rfl
    · exact .inr ⟨hlt.ne', hmem⟩
  · rintro (rfl | ⟨hne, hmem⟩)
    · exact .inr (.inl rfl)
    · rcases lt_or_gt_of_ne hne with hlt | hgt
      · exact .inl ⟨hmem, hlt⟩
      · exact .inr (.inr ⟨hmem, hgt⟩)

theorem hasKey_insertOrReplace {t : Table Key Row} {key other : Key} {row : Row} :
    (t.insertOrReplace key row).HasKey other ↔ other = key ∨ t.HasKey other := by
  simp only [HasKey, mem_insertOrReplace, Prod.mk.injEq]
  constructor
  · rintro ⟨found, ⟨rfl, rfl⟩ | ⟨-, hmem⟩⟩
    · exact .inl rfl
    · exact .inr ⟨found, hmem⟩
  · rintro (rfl | ⟨found, hmem⟩)
    · exact ⟨row, .inl ⟨rfl, rfl⟩⟩
    · by_cases hsame : other = key
      · exact ⟨row, .inl ⟨hsame, rfl⟩⟩
      · exact ⟨found, .inr ⟨hsame, hmem⟩⟩

/-- Rows with different keys are left alone. -/
theorem insertOrReplace_perm_of_fresh {t : Table Key Row} {key : Key} (row : Row)
    (hfresh : ¬ t.HasKey key) :
    (t.insertOrReplace key row).rows.Perm ((key, row) :: t.rows) := by
  have habove : t.rows.filter (key < ·.1) = t.rows.filter (fun entry => !decide (entry.1 < key)) := by
    refine List.filter_congr ?_
    intro entry hmem
    have hne : entry.1 ≠ key := by
      rintro rfl
      exact hfresh ⟨entry.2, hmem⟩
    rcases lt_or_gt_of_ne hne with hlt | hgt
    · simp [hlt, hlt.le]
    · simp [hgt, hgt.le]
  calc (t.insertOrReplace key row).rows
      |>.Perm ((key, row) :: (t.rows.filter (·.1 < key) ++ t.rows.filter (key < ·.1))) :=
        List.perm_middle
    _ |>.Perm ((key, row) :: t.rows) := by
        rw [habove]
        exact (List.filter_append_perm _ t.rows).cons _

/-- An insertion adds exactly one row, and changes none, exactly when no row
has its key. -/
theorem insertOrReplace_perm_iff (t : Table Key Row) (key : Key) (row : Row) :
    (t.insertOrReplace key row).rows.Perm ((key, row) :: t.rows) ↔ ¬ t.HasKey key := by
  refine ⟨?_, insertOrReplace_perm_of_fresh row⟩
  rintro hperm ⟨old, hold⟩
  have hkeys : ((t.insertOrReplace key row).rows.map Prod.fst).Nodup := by
    refine List.Pairwise.imp (fun hlt => ne_of_lt hlt) ?_
    exact List.pairwise_map.mpr (t.insertOrReplace key row).sorted
  have htwice : (key :: t.rows.map Prod.fst).Nodup := (hperm.map Prod.fst).nodup_iff.mp hkeys
  exact (List.nodup_cons.mp htwice).1 (List.mem_map.mpr ⟨(key, old), hold, rfl⟩)

end Table

end

/-! ## The latest entry of each mark -/

section

variable {Entry Mark : Type} [DecidableEq Mark] (mark : Entry → Mark)

/-- Of the entries of a log, in order, those that no later one shares its mark
with. -/
def latestBy : List Entry → List Entry
  | [] => []
  | entry :: entries =>
      if mark entry ∈ entries.map mark then latestBy entries
      else entry :: latestBy entries

theorem latestBy_sublist (entries : List Entry) :
    (latestBy mark entries).Sublist entries := by
  induction entries with
  | nil => exact List.Sublist.refl _
  | cons entry entries ih =>
      rw [latestBy]
      split
      · exact ih.cons entry
      · exact ih.cons_cons entry

theorem latestBy_eq_self_iff (entries : List Entry) :
    latestBy mark entries = entries ↔ (entries.map mark).Nodup := by
  induction entries with
  | nil => simp [latestBy]
  | cons entry entries ih =>
      rw [latestBy, List.map_cons, List.nodup_cons]
      by_cases hlater : mark entry ∈ entries.map mark
      · rw [if_pos hlater]
        refine iff_of_false ?_ fun hfresh => hfresh.1 hlater
        intro hsame
        have hle := (latestBy_sublist mark entries).length_le
        rw [hsame, List.length_cons] at hle
        omega
      · rw [if_neg hlater, List.cons.injEq, ih]
        exact and_congr_left' (iff_of_true rfl hlater)

theorem getLast_mem_latestBy {entries : List Entry} (hne : entries ≠ []) :
    entries.getLast hne ∈ latestBy mark entries := by
  induction entries with
  | nil => exact absurd rfl hne
  | cons entry entries ih =>
      rw [latestBy]
      cases entries with
      | nil => simp [latestBy]
      | cons next rest =>
          rw [List.getLast_cons (List.cons_ne_nil next rest)]
          have hlast := ih (List.cons_ne_nil next rest)
          split
          · exact hlast
          · exact List.mem_cons_of_mem _ hlast

/-- A beginning of the log shows the latest entries, in a way that tells all
entries apart, exactly when it is the whole log and no two entries share a
mark. -/
theorem take_perm_latestBy_iff {Shown : Type} {shown : Entry → Shown} {entries : List Entry}
    (hnodup : (entries.map shown).Nodup) (limit : ℕ) :
    ((entries.take limit).map shown).Perm ((latestBy mark entries).map shown) ↔
      (entries.map mark).Nodup ∧ entries.length ≤ limit := by
  constructor
  · intro hperm
    have hwhole : entries.length ≤ limit := by
      by_contra hcut
      have hne : entries ≠ [] := by
        rintro rfl
        exact hcut (Nat.zero_le limit)
      have hlast : shown (entries.getLast hne) ∈ (latestBy mark entries).map shown :=
        List.mem_map_of_mem (getLast_mem_latestBy mark hne)
      rw [← hperm.mem_iff, List.map_take, List.mem_take_iff_getElem] at hlast
      obtain ⟨i, hi, hget⟩ := hlast
      have hmapped : entries.map shown ≠ [] := mt List.map_eq_nil_iff.mp hne
      rw [← List.getLast_map hmapped, List.getLast_eq_getElem, hnodup.getElem_inj_iff,
        List.length_map] at hget
      omega
    rw [List.take_of_length_le hwhole] at hperm
    have hlength : (latestBy mark entries).length = entries.length := by
      simpa using hperm.length_eq.symm
    have hsame := (latestBy_sublist mark entries).eq_of_length hlength
    exact ⟨(latestBy_eq_self_iff mark entries).mp hsame, hwhole⟩
  · rintro ⟨hmarks, hwhole⟩
    rw [List.take_of_length_le hwhole, (latestBy_eq_self_iff mark entries).mpr hmarks]

end

end KeyedTable
