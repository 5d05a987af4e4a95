import Mathlib.Data.Nat.ModEq
import Mathlib.Tactic

/-!
# Positions in a ring

The slot `position` places after `head` in a ring of `cap` slots.  This file
names nothing of the relay.
-/

namespace RingIndex

def slotAt (cap head position : ℕ) : ℕ := (head + position) % cap

variable {cap head : ℕ}

theorem slotAt_lt (hcap : 0 < cap) (position : ℕ) : slotAt cap head position < cap :=
  Nat.mod_lt _ hcap

@[simp] theorem slotAt_zero (hhead : head < cap) : slotAt cap head 0 = head :=
  Nat.mod_eq_of_lt hhead

theorem slotAt_slotAt (i j : ℕ) :
    slotAt cap (slotAt cap head i) j = slotAt cap head (i + j) := by
  rw [slotAt, slotAt, slotAt, Nat.mod_add_mod, Nat.add_assoc]

theorem slotAt_add_cap (position : ℕ) :
    slotAt cap head (position + cap) = slotAt cap head position := by
  rw [slotAt, slotAt, ← Nat.add_assoc, Nat.add_mod_right]

/-- A whole turn ends where it began. -/
theorem slotAt_cap (hhead : head < cap) : slotAt cap head cap = head := by
  rw [slotAt, Nat.add_mod_right, Nat.mod_eq_of_lt hhead]

theorem slotAt_inj {i j : ℕ} (hi : i < cap) (hj : j < cap)
    (hslot : slotAt cap head i = slotAt cap head j) : i = j := by
  have hmod : i ≡ j [MOD cap] := Nat.ModEq.add_left_cancel' head hslot
  rwa [Nat.ModEq, Nat.mod_eq_of_lt hi, Nat.mod_eq_of_lt hj] at hmod

theorem exists_slotAt {slot : ℕ} (hhead : head < cap) (hslot : slot < cap) :
    ∃ position < cap, slotAt cap head position = slot := by
  by_cases hle : head ≤ slot
  · refine ⟨slot - head, by omega, ?_⟩
    rw [slotAt, Nat.add_sub_cancel' hle, Nat.mod_eq_of_lt hslot]
  · refine ⟨slot + cap - head, by omega, ?_⟩
    have hsum : head + (slot + cap - head) = slot + cap := by omega
    rw [slotAt, hsum, Nat.add_mod_right, Nat.mod_eq_of_lt hslot]

/-- A walk round the ring, cut after `k` slots. -/
theorem map_slotAt_split {k : ℕ} (hk : k ≤ cap) :
    (List.range cap).map (slotAt cap head) = (List.range k).map (slotAt cap head) ++
      (List.range (cap - k)).map fun i => slotAt cap head (k + i) := by
  have hrange : List.range (k + (cap - k)) = _ := List.range_add
  rw [Nat.add_sub_cancel' hk] at hrange
  rw [hrange, List.map_append, List.map_map]
  rfl

/-- The walk that starts `k` slots further on ends with those `k` slots. -/
theorem map_slotAt_rotate {k : ℕ} (hk : k ≤ cap) :
    (List.range cap).map (slotAt cap (slotAt cap head k)) =
      ((List.range (cap - k)).map fun i => slotAt cap head (k + i)) ++
        (List.range k).map (slotAt cap head) := by
  have hrange : List.range (cap - k + k) = _ := List.range_add
  rw [Nat.sub_add_cancel hk] at hrange
  rw [hrange, List.map_append, List.map_map]
  congr 1
  · exact List.map_congr_left fun i _ => slotAt_slotAt k i
  · refine List.map_congr_left fun i _ => ?_
    have hturn : k + (cap - k + i) = i + cap := by omega
    rw [Function.comp_apply, slotAt_slotAt, hturn, slotAt_add_cap]

end RingIndex
