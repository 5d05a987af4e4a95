import Mathlib.Tactic

/-!
# Little-endian scalars

32-bit integers as four bytes, least significant byte first, built and read with
shifts and masks as a C program does it.  A read looks at the first four bytes
of its input only, so what was written is read back in front of any other bytes.
-/

namespace LittleEndian

def lePutU32 (value : UInt32) : List UInt8 :=
  [(value &&& 0xff).toUInt8, ((value >>> 8) &&& 0xff).toUInt8,
    ((value >>> 16) &&& 0xff).toUInt8, ((value >>> 24) &&& 0xff).toUInt8]

def leGetU32 (input : List UInt8) : UInt32 :=
  (input.getD 0 0).toUInt32 ||| ((input.getD 1 0).toUInt32 <<< 8) |||
    ((input.getD 2 0).toUInt32 <<< 16) ||| ((input.getD 3 0).toUInt32 <<< 24)

def lePutI32 (value : Int32) : List UInt8 := lePutU32 value.toUInt32

def leGetI32 (input : List UInt8) : Int32 := (leGetU32 input).toInt32

@[simp] theorem lePutU32_length (value : UInt32) : (lePutU32 value).length = 4 := rfl

@[simp] theorem lePutI32_length (value : Int32) : (lePutI32 value).length = 4 := rfl

theorem maskedByte_toNat (value : UInt32) :
    (value &&& 0xff).toUInt8.toNat = value.toNat % 2 ^ 8 := by
  have hmask : value.toNat &&& (2 ^ 8 - 1) = value.toNat % 2 ^ 8 :=
    Nat.and_two_pow_sub_one_eq_mod _ 8
  rw [UInt32.toNat_toUInt8, UInt32.toNat_and]
  calc (value.toNat &&& (0xff : UInt32).toNat) % 2 ^ 8
      = value.toNat % 2 ^ 8 % 2 ^ 8 := congrArg (· % 2 ^ 8) hmask
    _ = value.toNat % 2 ^ 8 := Nat.mod_mod _ _

/-- The shifted bytes do not overlap, so joining them is adding them. -/
theorem leGetU32_toNat (input : List UInt8) :
    (leGetU32 input).toNat = (input.getD 0 0).toNat + (input.getD 1 0).toNat * 2 ^ 8 +
      (input.getD 2 0).toNat * 2 ^ 16 + (input.getD 3 0).toNat * 2 ^ 24 := by
  have h0 := (input.getD 0 0).toNat_lt
  have h1 := (input.getD 1 0).toNat_lt
  have h2 := (input.getD 2 0).toNat_lt
  have h3 := (input.getD 3 0).toNat_lt
  have hjoin : ∀ low high shift, low < 2 ^ shift →
      low ||| high * 2 ^ shift = low + high * 2 ^ shift := by
    intro low high shift hlow
    rw [Nat.or_comm, Nat.mul_comm, ← Nat.two_pow_add_eq_or_of_lt hlow, Nat.add_comm]
  unfold leGetU32
  simp only [UInt32.toNat_or, UInt32.toNat_shiftLeft, UInt8.toNat_toUInt32, Nat.shiftLeft_eq,
    UInt32.reduceToNat, Nat.reduceMod]
  rw [Nat.mod_eq_of_lt (a := (input.getD 1 0).toNat * 2 ^ 8) (by omega),
    Nat.mod_eq_of_lt (a := (input.getD 2 0).toNat * 2 ^ 16) (by omega),
    Nat.mod_eq_of_lt (a := (input.getD 3 0).toNat * 2 ^ 24) (by omega),
    hjoin _ _ 8 h0, hjoin _ _ 16 (by omega), hjoin _ _ 24 (by omega)]

@[simp] theorem leGetU32_lePutU32 (value : UInt32) (rest : List UInt8) :
    leGetU32 (lePutU32 value ++ rest) = value := by
  have hvalue := value.toNat_lt
  apply UInt32.toNat_inj.mp
  rw [leGetU32_toNat]
  simp only [lePutU32, List.cons_append, List.getD_cons_zero, List.getD_cons_succ,
    maskedByte_toNat, UInt32.toNat_shiftRight, UInt32.reduceToNat, Nat.reduceMod,
    Nat.shiftRight_eq_div_pow]
  omega

/-- What was read is written back. -/
theorem lePutU32_leGetU32 {input : List UInt8} (hlength : 4 ≤ input.length) :
    lePutU32 (leGetU32 input) = input.take 4 := by
  match input, hlength with
  | b0 :: b1 :: b2 :: b3 :: rest, _ =>
      have h0 := b0.toNat_lt
      have h1 := b1.toNat_lt
      have h2 := b2.toNat_lt
      have h3 := b3.toNat_lt
      have hvalue : (leGetU32 (b0 :: b1 :: b2 :: b3 :: rest)).toNat =
          b0.toNat + b1.toNat * 2 ^ 8 + b2.toNat * 2 ^ 16 + b3.toNat * 2 ^ 24 :=
        leGetU32_toNat _
      simp only [lePutU32, List.take_succ_cons, List.take_zero, List.cons.injEq, and_true]
      refine ⟨?_, ?_, ?_, ?_⟩ <;> apply UInt8.toNat_inj.mp <;>
        simp only [maskedByte_toNat, UInt32.toNat_shiftRight, UInt32.reduceToNat, Nat.reduceMod,
          Nat.shiftRight_eq_div_pow, hvalue] <;>
        omega

@[simp] theorem leGetI32_lePutI32 (value : Int32) (rest : List UInt8) :
    leGetI32 (lePutI32 value ++ rest) = value := by
  rw [leGetI32, lePutI32, leGetU32_lePutU32]
  rfl

theorem lePutI32_leGetI32 {input : List UInt8} (hlength : 4 ≤ input.length) :
    lePutI32 (leGetI32 input) = input.take 4 := by
  rw [← lePutU32_leGetU32 hlength]
  rfl

end LittleEndian
