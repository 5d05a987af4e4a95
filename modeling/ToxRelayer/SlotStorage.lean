import Mathlib.Tactic

/-!
# Slots in storage of varying size

A growing and shrinking array whose accesses fail outside of it: loops over its slots
and resizing with a counter that says from where on new slots are to be cleared.
This file names nothing of the relay.
-/

namespace SlotStorage

section

variable {Slot : Type} (p : Slot → Bool) (slots : List Slot)

/-- The first slot with `p` from `i` on; `none` when the loop reads outside. -/
def scan : ℕ → ℕ → Option (Option ℕ)
  | 0, _ => some none
  | rounds + 1, i =>
      match slots[i]? with
      | none => none
      | some slot => if p slot then some (some i) else scan rounds (i + 1)

/-- The number of slots up to the last with `p` below `i`. -/
def trim : ℕ → Option ℕ
  | 0 => some 0
  | i + 1 =>
      match slots[i]? with
      | none => none
      | some slot => if p slot then some (i + 1) else trim i

def store (i : ℕ) (slot : Slot) : Option (List Slot) :=
  if i < slots.length then some (slots.set i slot) else none

/-- `n` slots: the ones there are, what the allocator adds, and `clear` from the slot
`known` on. -/
def resize (clear : Slot) (fresh : ℕ → Slot) (known n : ℕ) : List Slot :=
  (List.range n).map fun i => if known ≤ i then clear else slots[i]?.getD (fresh i)

variable {p slots}

@[simp] theorem resize_length (clear : Slot) (fresh : ℕ → Slot) (known n : ℕ) :
    (resize slots clear fresh known n).length = n := by
  rw [resize, List.length_map, List.length_range]

/-- When all slots are known, nothing of what the allocator adds is left. -/
theorem resize_eq (clear : Slot) (fresh : ℕ → Slot) (n : ℕ) :
    resize slots clear fresh slots.length n =
      slots.take n ++ List.replicate (n - slots.length) clear := by
  apply List.ext_getElem?
  intro i
  rw [resize, List.getElem?_map]
  by_cases hn : i < n
  · rw [List.getElem?_range hn, Option.map_some]
    by_cases hi : i < slots.length
    · rw [if_neg (by omega), List.getElem?_append_left (by rw [List.length_take]; omega),
        List.getElem?_take_of_lt hn, List.getElem?_eq_getElem hi]
      rfl
    · rw [if_pos (by omega), List.getElem?_append_right (by rw [List.length_take]; omega),
        List.getElem?_replicate, if_pos (by rw [List.length_take]; omega)]
  · rw [List.getElem?_eq_none (by rw [List.length_range]; omega), List.getElem?_eq_none]
    · rfl
    · rw [List.length_append, List.length_take, List.length_replicate]
      omega

theorem store_eq {i : ℕ} (hi : i < slots.length) (slot : Slot) :
    store slots i slot = some (slots.set i slot) := if_pos hi

/-- A scan inside the storage ends at the first slot with `p`, if there is one. -/
theorem scan_cases {rounds i : ℕ} (hinside : i + rounds ≤ slots.length) :
    scan p slots rounds i = some none ∧
        (∀ j, i ≤ j → j < i + rounds → ∀ slot, slots[j]? = some slot → p slot = false) ∨
      ∃ found slot, scan p slots rounds i = some (some found) ∧ i ≤ found ∧ found < i + rounds ∧
        slots[found]? = some slot ∧ p slot = true ∧
        ∀ j, i ≤ j → j < found → ∀ slot, slots[j]? = some slot → p slot = false := by
  induction rounds generalizing i with
  | zero => exact .inl ⟨rfl, fun j hj hlt => by omega⟩
  | succ rounds ih =>
      have hi : slots[i]? = some slots[i] := List.getElem?_eq_getElem (by omega)
      rw [scan, hi]
      dsimp only
      cases hp : p slots[i] with
      | true =>
          exact .inr ⟨i, slots[i], rfl, le_rfl, by omega, hi, hp, fun j hj hlt => by omega⟩
      | false =>
          have hfirst : ∀ j, i ≤ j → (i + 1 ≤ j → ∀ slot, slots[j]? = some slot → p slot = false) →
              ∀ slot, slots[j]? = some slot → p slot = false := by
            intro j hj hlater slot hslot
            rcases Nat.eq_or_lt_of_le hj with rfl | hlt
            · rw [hi, Option.some.injEq] at hslot
              rw [← hslot]
              exact hp
            · exact hlater hlt slot hslot
          rw [if_neg Bool.false_ne_true]
          rcases ih (i := i + 1) (by omega) with
            ⟨hscan, hnone⟩ | ⟨found, slot, hscan, hle, hlt, hslot, hfound, hbefore⟩
          · exact .inl ⟨hscan, fun j hj hround =>
              hfirst j hj fun hlater => hnone j hlater (by omega)⟩
          · exact .inr ⟨found, slot, hscan, by omega, by omega, hslot, hfound, fun j hj hround =>
              hfirst j hj fun hlater => hbefore j hlater hround⟩

/-- What is cut off has no slot with `p`, and the last that is left has it. -/
theorem trim_spec {n : ℕ} (hinside : n ≤ slots.length) :
    ∃ m ≤ n, trim p slots n = some m ∧
      (m = 0 ∨ ∃ slot, slots[m - 1]? = some slot ∧ p slot = true) ∧
      ∀ j, m ≤ j → j < n → ∀ slot, slots[j]? = some slot → p slot = false := by
  induction n with
  | zero => exact ⟨0, le_rfl, rfl, .inl rfl, fun j _ hj => by omega⟩
  | succ n ih =>
      have hn : slots[n]? = some slots[n] := List.getElem?_eq_getElem (by omega)
      rw [trim, hn]
      dsimp only
      cases hp : p slots[n] with
      | true =>
          exact ⟨n + 1, le_rfl, rfl, .inr ⟨slots[n], hn, hp⟩, fun j hj hlt => by omega⟩
      | false =>
          obtain ⟨m, hm, htrim, hlast, hcut⟩ := ih (by omega)
          refine ⟨m, by omega, htrim, hlast, ?_⟩
          intro j hj hlt slot hslot
          by_cases hlater : j < n
          · exact hcut j hj hlater slot hslot
          · obtain rfl : j = n := by omega
            rw [hn, Option.some.injEq] at hslot
            rw [← hslot]
            exact hp

end

end SlotStorage
