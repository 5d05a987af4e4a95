import Mathlib.Data.List.Induction
import Mathlib.Logic.Function.Basic

/-!
# Documents of sections with entries

A document is the list of its headings and entries.  An entry belongs to the
first section with the name that is looked for; putting one replaces it there,
adds it at the end of that section, or adds a section.  A document stands for the
map of what is looked up in it, and putting an entry updates this map at one
place.  This file names nothing of the relay.
-/

namespace SectionedStore

inductive Line (σ κ ν : Type*) where
  | heading (sect : σ)
  | entry (key : κ) (value : ν)

abbrev Document (σ κ ν : Type*) := List (Line σ κ ν)

/-- An entry that is put, with the section it goes to. -/
structure Put (σ κ ν : Type*) where
  sect : σ
  key : κ
  value : ν

section

variable {σ κ ν : Type*} [DecidableEq κ]

/-- The value of a key in the lines up to the next heading. -/
def lookupKey (key : κ) : Document σ κ ν → Option ν
  | [] => none
  | .heading _ :: _ => none
  | .entry name value :: rest => if name = key then some value else lookupKey key rest

/-- The entry among the lines up to the next heading. -/
def putKey (key : κ) (value : ν) : Document σ κ ν → Document σ κ ν
  | [] => [.entry key value]
  | .heading name :: rest => .entry key value :: .heading name :: rest
  | .entry name old :: rest =>
      if name = key then .entry key value :: rest else .entry name old :: putKey key value rest

/-- No line is a heading or has the key. -/
def Skipped (key : κ) (doc : Document σ κ ν) : Prop :=
  ∀ line ∈ doc, ∃ name value, line = .entry name value ∧ name ≠ key

variable {key : κ} {value : ν} {within after : Document σ κ ν}

theorem lookupKey_putKey (other : κ) (doc : Document σ κ ν) :
    lookupKey other (putKey key value doc) =
      if key = other then some value else lookupKey other doc := by
  induction doc with
  | nil => rfl
  | cons line doc ih =>
      cases line with
      | heading name => rfl
      | entry name old =>
          rw [putKey]
          by_cases hname : name = key
          · subst hname
            rw [if_pos rfl, lookupKey, lookupKey]
            split <;> rfl
          · rw [if_neg hname, lookupKey, lookupKey, ih]
            by_cases hother : name = other
            · rw [if_pos hother, if_neg fun hkey => hname (hother.trans hkey.symm), if_pos hother]
            · rw [if_neg hother, if_neg hother]

theorem putKey_skipped (hwithin : Skipped key within) :
    putKey key value (within ++ after) = within ++ putKey key value after := by
  induction within with
  | nil => rfl
  | cons line within ih =>
      obtain ⟨⟨name, old, rfl, hname⟩, hrest⟩ := List.forall_mem_cons.mp hwithin
      rw [List.cons_append, putKey, if_neg hname, ih hrest, List.cons_append]

theorem lookupKey_skipped (hwithin : Skipped key within) :
    lookupKey key (within ++ after) = lookupKey key after := by
  induction within with
  | nil => rfl
  | cons line within ih =>
      obtain ⟨⟨name, old, rfl, hname⟩, hrest⟩ := List.forall_mem_cons.mp hwithin
      rw [List.cons_append, lookupKey, if_neg hname, ih hrest]

variable [DecidableEq σ]

def lookup (sect : σ) (key : κ) : Document σ κ ν → Option ν
  | [] => none
  | .heading name :: rest => if name = sect then lookupKey key rest else lookup sect key rest
  | .entry _ _ :: rest => lookup sect key rest

def put (sect : σ) (key : κ) (value : ν) : Document σ κ ν → Document σ κ ν
  | [] => [.heading sect, .entry key value]
  | .heading name :: rest =>
      .heading name :: if name = sect then putKey key value rest else put sect key value rest
  | .entry name old :: rest => .entry name old :: put sect key value rest

/-- What a document holds, by section and key. -/
def contents (doc : Document σ κ ν) (place : σ × κ) : Option ν :=
  lookup place.1 place.2 doc

def putAll (puts : List (Put σ κ ν)) (doc : Document σ κ ν) : Document σ κ ν :=
  puts.foldl (fun doc p => put p.sect p.key p.value doc) doc

/-- The value put last to a place. -/
def lastPut (puts : List (Put σ κ ν)) (place : σ × κ) : Option ν :=
  (puts.reverse.find? fun p => (p.sect, p.key) = place).map Put.value

variable {sect : σ} {before : Document σ κ ν}

/-- An entry changes nothing in the sections behind it. -/
theorem lookup_putKey (otherSect : σ) (otherKey : κ) (doc : Document σ κ ν) :
    lookup otherSect otherKey (putKey key value doc) = lookup otherSect otherKey doc := by
  induction doc with
  | nil => rfl
  | cons line doc ih =>
      cases line with
      | heading name => rfl
      | entry name old =>
          rw [putKey]
          split
          · rfl
          · exact ih

/-- A section that is put behind lines is not read with them. -/
theorem lookupKey_put (other : κ) (doc : Document σ κ ν) :
    lookupKey other (put sect key value doc) = lookupKey other doc := by
  induction doc with
  | nil => rfl
  | cons line doc ih =>
      cases line with
      | heading name => rfl
      | entry name old => rw [put, lookupKey, lookupKey, ih]

theorem lookup_put (otherSect : σ) (otherKey : κ) (doc : Document σ κ ν) :
    lookup otherSect otherKey (put sect key value doc) =
      if sect = otherSect ∧ key = otherKey then some value else lookup otherSect otherKey doc := by
  induction doc with
  | nil =>
      rw [put, lookup, lookup, lookup, lookupKey, lookupKey]
      by_cases hsect : sect = otherSect
      · simp [hsect]
      · simp [hsect, lookup]
  | cons line doc ih =>
      cases line with
      | heading name =>
          rw [put, lookup, lookup]
          by_cases hname : name = sect
          · subst hname
            rw [if_pos rfl, lookupKey_putKey, lookup_putKey]
            by_cases hother : name = otherSect
            · simp only [hother, if_true, true_and]
            · simp only [hother, if_false, false_and]
          · rw [if_neg hname, ih]
            by_cases hother : name = otherSect
            · rw [if_pos hother, if_pos hother, lookupKey_put,
                if_neg fun hplace => hname (hother.trans hplace.1.symm)]
            · rw [if_neg hother, if_neg hother]
      | entry name old => exact ih

theorem contents_put (doc : Document σ κ ν) :
    contents (put sect key value doc) =
      Function.update (contents doc) (sect, key) (some value) := by
  funext place
  rw [contents, lookup_put, Function.update_apply, contents]
  simp only [Prod.ext_iff, eq_comm]

/-- After any number of puts a place holds what was put to it last, or what it held before. -/
theorem contents_putAll (puts : List (Put σ κ ν)) (doc : Document σ κ ν) (place : σ × κ) :
    contents (putAll puts doc) place = (lastPut puts place).or (contents doc place) := by
  induction puts using List.reverseRecOn with
  | nil => rfl
  | append_singleton puts p ih =>
      rw [putAll, List.foldl_append, List.foldl_cons, List.foldl_nil, contents_put,
        Function.update_apply, lastPut, List.reverse_concat, List.find?_cons]
      by_cases hplace : (p.sect, p.key) = place
      · simp [hplace]
      · simp only [hplace, decide_false, Ne.symm hplace, if_false]
        exact ih

/-! ## The place of an entry -/

/-- No line is a heading of the section. -/
def Outside (sect : σ) (doc : Document σ κ ν) : Prop := .heading sect ∉ doc

theorem put_outside (hbefore : Outside sect before) :
    put sect key value (before ++ after) = before ++ put sect key value after := by
  induction before with
  | nil => rfl
  | cons line before ih =>
      obtain ⟨hline, hrest⟩ := not_or.mp (List.mem_cons.not.mp hbefore)
      cases line with
      | heading name =>
          have hname : name ≠ sect := by
            rintro rfl
            exact hline rfl
          rw [List.cons_append, put, if_neg hname, ih hrest, List.cons_append]
      | entry name old => rw [List.cons_append, put, ih hrest, List.cons_append]

theorem lookup_outside (hbefore : Outside sect before) :
    lookup sect key (before ++ after) = lookup sect key after := by
  induction before with
  | nil => rfl
  | cons line before ih =>
      obtain ⟨hline, hrest⟩ := not_or.mp (List.mem_cons.not.mp hbefore)
      cases line with
      | heading name =>
          have hname : name ≠ sect := by
            rintro rfl
            exact hline rfl
          rw [List.cons_append, lookup, if_neg hname, ih hrest]
      | entry name old => exact ih hrest

/-- A section that is found is where the entry goes. -/
theorem put_section (hbefore : Outside sect before) (hwithin : Skipped key within) :
    put sect key value (before ++ .heading sect :: (within ++ after)) =
      before ++ .heading sect :: (within ++ putKey key value after) := by
  rw [put_outside hbefore, put, if_pos rfl, putKey_skipped hwithin]

theorem put_section_end (hbefore : Outside sect before) (hwithin : Skipped key within) :
    put sect key value (before ++ .heading sect :: within) =
      before ++ .heading sect :: (within ++ [.entry key value]) := by
  calc put sect key value (before ++ .heading sect :: within) =
        put sect key value (before ++ .heading sect :: (within ++ [])) := by rw [List.append_nil]
    _ = _ := put_section hbefore hwithin

theorem lookup_section (hbefore : Outside sect before) (hwithin : Skipped key within) :
    lookup sect key (before ++ .heading sect :: (within ++ after)) = lookupKey key after := by
  rw [lookup_outside hbefore, lookup, if_pos rfl, lookupKey_skipped hwithin]

theorem lookup_section_end (hbefore : Outside sect before) (hwithin : Skipped key within) :
    lookup sect key (before ++ .heading sect :: within) = none := by
  calc lookup sect key (before ++ .heading sect :: within) =
        lookup sect key (before ++ .heading sect :: (within ++ [])) := by rw [List.append_nil]
    _ = none := lookup_section hbefore hwithin

/-- Without the section one is added. -/
theorem put_missing {doc : Document σ κ ν} (hdoc : Outside sect doc) :
    put sect key value doc = doc ++ [.heading sect, .entry key value] := by
  calc put sect key value doc = put sect key value (doc ++ []) := by rw [List.append_nil]
    _ = doc ++ [.heading sect, .entry key value] := put_outside hdoc

theorem lookup_missing {doc : Document σ κ ν} (hdoc : Outside sect doc) :
    lookup sect key doc = none := by
  calc lookup sect key doc = lookup sect key (doc ++ []) := by rw [List.append_nil]
    _ = none := lookup_outside hdoc

end

end SectionedStore
