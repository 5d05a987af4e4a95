import Mathlib.Data.List.TakeWhile
import Mathlib.Data.Nat.Digits.Lemmas
import Mathlib.Tactic

/-!
# C strings and decimal numerals

Byte buffers, NUL-terminated strings and the part of the C library that text
protocols are written with: `strstr`, the `%d` conversions of `snprintf` and
`strtol`.  Nothing here depends on a particular program.  The main fact is
that `strtol` reads back what `%0*ld` printed.
-/

namespace CString

abbrev Bytes := List UInt8

/-- The bytes of an ASCII literal. -/
def bytes (text : String) : Bytes :=
  text.toList.map fun c => c.toNat.toUInt8

def lf : UInt8 := 10
def cr : UInt8 := 13
def space : UInt8 := 32
def minus : UInt8 := 45

/-- A NUL-terminated string, without its terminator. -/
structure CStr where
  val : Bytes
  nulFree : (0 : UInt8) ∉ val
  deriving DecidableEq

namespace CStr

@[ext] theorem ext {s t : CStr} (h : s.val = t.val) : s = t := by
  cases s
  cases t
  simpa using h

/-- The string a buffer holds: everything before its first NUL. -/
def ofBuffer (buffer : Bytes) : CStr where
  val := buffer.takeWhile (· ≠ 0)
  nulFree := by
    intro hmem
    simpa using List.mem_takeWhile_imp hmem

def empty : CStr := ⟨[], by simp⟩

/-- `strlen` -/
def length (s : CStr) : ℕ := s.val.length

theorem ofBuffer_val_of_nulFree {buffer : Bytes}
    (hfree : (0 : UInt8) ∉ buffer) : (ofBuffer buffer).val = buffer := by
  unfold ofBuffer
  apply List.takeWhile_eq_self_iff.mpr
  intro b hb
  simp only [ne_eq, decide_not, Bool.not_eq_true', decide_eq_false_iff_not]
  rintro rfl
  exact hfree hb

@[simp] theorem ofBuffer_val (s : CStr) : ofBuffer s.val = s :=
  ext (ofBuffer_val_of_nulFree s.nulFree)

theorem ofBuffer_length_le (buffer : Bytes) :
    (ofBuffer buffer).val.length ≤ buffer.length :=
  (List.takeWhile_prefix _).length_le

theorem mem_of_mem_ofBuffer {buffer : Bytes} {b : UInt8}
    (hmem : b ∈ (ofBuffer buffer).val) : b ∈ buffer :=
  (List.takeWhile_prefix _).subset hmem

end CStr

/-- `strstr`: the suffix of `haystack` that starts at the first occurrence of
`needle`, or `none` for a null result. -/
def strstr (needle : Bytes) : Bytes → Option Bytes
  | [] => if needle = [] then some [] else none
  | b :: rest =>
      if needle <+: b :: rest then some (b :: rest) else strstr needle rest

theorem strstr_isSome_iff (needle haystack : Bytes) :
    (strstr needle haystack).isSome ↔ needle <:+: haystack := by
  induction haystack with
  | nil => by_cases hneedle : needle = [] <;> simp [strstr, hneedle]
  | cons b rest ih =>
      by_cases hbegins : needle <+: b :: rest
      · simp [strstr, hbegins, hbegins.isInfix]
      · simp [strstr, hbegins, ih, List.infix_cons_iff]

/-! ## Printing -/

/-- ASCII digit of a number below ten. -/
def digitByte (d : ℕ) : UInt8 := UInt8.ofNat (48 + d)

def isDigit (b : UInt8) : Bool := 48 ≤ b && b ≤ 57

def decimalDigits (n : ℕ) : Bytes :=
  if n = 0 then [digitByte 0]
  else (Nat.digits 10 n).reverse.map digitByte

def padZeros (width : ℕ) (digits : Bytes) : Bytes :=
  List.replicate (width - digits.length) (digitByte 0) ++ digits

/-- The conversion `%0<width>ld`; the sign counts towards the width. -/
def formatInt (width : ℕ) (value : ℤ) : Bytes :=
  if value < 0 then
    minus :: padZeros (width - 1) (decimalDigits value.natAbs)
  else
    padZeros width (decimalDigits value.natAbs)

/-- What `snprintf` leaves in a buffer of `size` bytes, without the NUL. -/
def snprintf (size : ℕ) (text : Bytes) : Bytes := text.take (size - 1)

theorem snprintf_of_length_lt {size : ℕ} {text : CStr} (hfits : text.length < size) :
    snprintf size text.val = text.val := by
  apply List.take_of_length_le
  rw [CStr.length] at hfits
  omega

theorem isDigit_digitByte {d : ℕ} (hd : d < 10) : isDigit (digitByte d) = true := by
  interval_cases d <;> decide

theorem digitByte_toNat {d : ℕ} (hd : d < 10) : (digitByte d).toNat - 48 = d := by
  interval_cases d <;> decide

theorem isDigit_of_mem_decimalDigits {n : ℕ} {b : UInt8}
    (hmem : b ∈ decimalDigits n) : isDigit b = true := by
  unfold decimalDigits at hmem
  split at hmem
  · simp only [List.mem_singleton] at hmem
    rw [hmem]
    exact isDigit_digitByte (by norm_num)
  · obtain ⟨d, hd, rfl⟩ := List.mem_map.mp hmem
    exact isDigit_digitByte
      (Nat.digits_lt_base (by norm_num) (List.mem_reverse.mp hd))

theorem isDigit_of_mem_padZeros {width n : ℕ} {b : UInt8}
    (hmem : b ∈ padZeros width (decimalDigits n)) : isDigit b = true := by
  rcases List.mem_append.mp hmem with hpad | hdigit
  · rw [List.eq_of_mem_replicate hpad]
    exact isDigit_digitByte (by norm_num)
  · exact isDigit_of_mem_decimalDigits hdigit

theorem decimalDigits_ne_nil (n : ℕ) : decimalDigits n ≠ [] := by
  unfold decimalDigits
  split
  · simp
  · rename_i hn
    simpa [Nat.digits_ne_nil_iff_ne_zero] using hn

theorem padZeros_ne_nil (width n : ℕ) : padZeros width (decimalDigits n) ≠ [] := by
  simp [padZeros, decimalDigits_ne_nil]

theorem decimalDigits_length_le {n k : ℕ} (hk : 0 < k) (hn : n < 10 ^ k) :
    (decimalDigits n).length ≤ k := by
  unfold decimalDigits
  split
  · simpa using Nat.succ_le_of_lt hk
  · simpa using (Nat.digits_length_le_iff (by norm_num) n).mpr hn

theorem formatInt_length_le (width : ℕ) {k : ℕ} {value : ℤ} (hk : 0 < k)
    (hvalue : value.natAbs < 10 ^ k) :
    (formatInt width value).length ≤ max width k + 1 := by
  have hdigits := decimalDigits_length_le hk hvalue
  unfold formatInt padZeros
  split <;> simp <;> omega

theorem mem_formatInt {width : ℕ} {value : ℤ} {b : UInt8}
    (hmem : b ∈ formatInt width value) : b = minus ∨ isDigit b = true := by
  unfold formatInt at hmem
  split at hmem
  · rcases List.mem_cons.mp hmem with hsign | hdigit
    · exact Or.inl hsign
    · exact Or.inr (isDigit_of_mem_padZeros hdigit)
  · exact Or.inr (isDigit_of_mem_padZeros hmem)

/-! ## Reading -/

/-- `isspace` in the C locale. -/
def isSpace (b : UInt8) : Bool := b == 32 || (9 ≤ b && b ≤ 13)

def digitsValue (digits : Bytes) : ℕ :=
  digits.foldl (fun acc b => 10 * acc + (b.toNat - 48)) 0

/-- Saturation to the range of a 64-bit `long`. -/
def toLong (value : ℤ) : Int64 :=
  Int64.ofInt (max (-2 ^ 63) (min (2 ^ 63 - 1) value))

/-- The optional sign in front of a number. -/
def splitSign : Bytes → Bool × Bytes
  | [] => (false, [])
  | b :: rest =>
      if b = 45 then (true, rest)
      else if b = 43 then (false, rest)
      else (false, b :: rest)

/-- The digits a text starts with, as a number, and the text behind them. -/
def readDigits (text : Bytes) : Option (ℕ × Bytes) :=
  if text.takeWhile isDigit = [] then none
  else some (digitsValue (text.takeWhile isDigit), text.dropWhile isDigit)

/-- `strtol(text, &end, 10)`: the value and the text at `end`, or `none` when
no conversion was made and `end == text`. -/
def strtol (text : Bytes) : Option (Int64 × Bytes) :=
  let signed := splitSign (text.dropWhile isSpace)
  (readDigits signed.2).map fun result =>
    (toLong (if signed.1 then -(result.1 : ℤ) else result.1), result.2)

/-- The number a text starts with, whatever its size, and the text behind it. -/
def readInteger (text : Bytes) : Option (ℤ × Bytes) :=
  let signed := splitSign (text.dropWhile isSpace)
  (readDigits signed.2).map fun result =>
    (if signed.1 then -(result.1 : ℤ) else result.1, result.2)

theorem strtol_eq_readInteger (text : Bytes) :
    strtol text = (readInteger text).map fun result => (toLong result.1, result.2) := by
  rw [strtol, readInteger, Option.map_map]
  rfl

theorem splitSign_suffix (text : Bytes) : (splitSign text).2 <:+ text := by
  cases text with
  | nil => exact List.suffix_rfl
  | cons b text =>
      rw [splitSign]
      split
      · exact List.suffix_cons b text
      · split
        · exact List.suffix_cons b text
        · exact List.suffix_rfl

/-- `end` points into the text. -/
theorem strtol_suffix {text rest : Bytes} {value : Int64}
    (hread : strtol text = some (value, rest)) : rest <:+ text := by
  obtain ⟨⟨n, behind⟩, hdigits, heq⟩ := Option.map_eq_some_iff.mp hread
  obtain rfl : behind = rest := (Prod.mk.inj heq).2
  unfold readDigits at hdigits
  split at hdigits
  · cases hdigits
  · obtain rfl := (Prod.mk.inj (Option.some.inj hdigits)).2
    exact ((List.dropWhile_suffix _).trans (splitSign_suffix _)).trans (List.dropWhile_suffix _)

theorem digitsValue_append_digit (digits : Bytes) (b : UInt8) :
    digitsValue (digits ++ [b]) = 10 * digitsValue digits + (b.toNat - 48) := by
  simp [digitsValue]

theorem digitsValue_map_reverse {ds : List ℕ} (hds : ∀ d ∈ ds, d < 10) :
    digitsValue (ds.reverse.map digitByte) = Nat.ofDigits 10 ds := by
  induction ds with
  | nil => rfl
  | cons d rest ih =>
      have hrest := ih fun e he => hds e (List.mem_cons_of_mem d he)
      rw [List.reverse_cons, List.map_append, List.map_singleton,
        digitsValue_append_digit, hrest, digitByte_toNat (hds d (by simp)),
        Nat.ofDigits_cons]
      omega

theorem digitsValue_decimalDigits (n : ℕ) : digitsValue (decimalDigits n) = n := by
  unfold decimalDigits
  split
  · rename_i hn
    rw [hn]
    decide
  · rw [digitsValue_map_reverse fun d hd => Nat.digits_lt_base (by norm_num) hd,
      Nat.ofDigits_digits]

theorem digitsValue_replicate_zero_append (k : ℕ) (digits : Bytes) :
    digitsValue (List.replicate k (digitByte 0) ++ digits) = digitsValue digits := by
  induction k with
  | zero => simp
  | succ k ih =>
      rw [List.replicate_succ, List.cons_append]
      have hzero : ((digitByte 0).toNat - 48) = 0 := by decide
      simpa [digitsValue, hzero] using ih

theorem digitsValue_padZeros (width n : ℕ) :
    digitsValue (padZeros width (decimalDigits n)) = n := by
  rw [padZeros, digitsValue_replicate_zero_append, digitsValue_decimalDigits]

theorem toInt_toLong {value : ℤ} (hlow : -2 ^ 63 ≤ value) (hhigh : value < 2 ^ 63) :
    (toLong value).toInt = value := by
  rw [toLong, min_eq_right (by omega), max_eq_right hlow]
  exact Int64.toInt_ofInt_of_le (by omega) (by omega)

theorem toLong_toInt (value : Int64) : toLong value.toInt = value := by
  have hlow := value.le_toInt
  have hhigh := value.toInt_lt
  unfold toLong
  rw [min_eq_right (by omega), max_eq_right (by omega), Int64.ofInt_toInt]

theorem isSpace_of_isDigit {b : UInt8} (hdigit : isDigit b = true) :
    isSpace b = false ∧ b ≠ 45 ∧ b ≠ 43 := by
  simp only [isDigit, Bool.and_eq_true, decide_eq_true_eq, UInt8.le_iff_toNat_le] at hdigit
  simp only [isSpace, Bool.or_eq_false_iff, Bool.and_eq_false_iff, beq_eq_false_iff_ne,
    decide_eq_false_iff_not, ne_eq, UInt8.le_iff_toNat_le, ← UInt8.toNat_inj]
  simp at hdigit ⊢
  omega

theorem readDigits_append {digits rest : Bytes} (hne : digits ≠ [])
    (hdigits : ∀ b ∈ digits, isDigit b = true)
    (hrest : ∀ b ∈ rest.head?, isDigit b = false) :
    readDigits (digits ++ rest) = some (digitsValue digits, rest) := by
  have hstop : rest.takeWhile isDigit = [] ∧ rest.dropWhile isDigit = rest := by
    cases rest with
    | nil => simp
    | cons b rest => simp [hrest b (by simp)]
  unfold readDigits
  rw [List.takeWhile_append_of_pos hdigits, List.dropWhile_append_of_pos hdigits,
    hstop.1, hstop.2]
  simp [hne]

theorem splitSign_digits {digits : Bytes} (rest : Bytes) (hne : digits ≠ [])
    (hdigits : ∀ b ∈ digits, isDigit b = true) :
    splitSign ((digits ++ rest).dropWhile isSpace) = (false, digits ++ rest) := by
  obtain ⟨b, tail, rfl⟩ := List.exists_cons_of_ne_nil hne
  obtain ⟨hspace, hminus, hplus⟩ := isSpace_of_isDigit (hdigits b (by simp))
  simp [hspace, splitSign, hminus, hplus]

theorem splitSign_minus (text : Bytes) :
    splitSign ((minus :: text).dropWhile isSpace) = (true, text) := by
  have hspace : isSpace minus = false := by decide
  rw [List.dropWhile_cons_of_neg (by simp [hspace])]
  rfl

/-- A printed number is read back, whatever the padding. -/
theorem readInteger_formatInt (width : ℕ) (value : ℤ) (rest : Bytes)
    (hrest : ∀ b ∈ rest.head?, isDigit b = false) :
    readInteger (formatInt width value ++ rest) = some (value, rest) := by
  have hread : ∀ w, readDigits (padZeros w (decimalDigits value.natAbs) ++ rest) =
      some (value.natAbs, rest) := by
    intro w
    rw [readDigits_append (padZeros_ne_nil _ _)
      (fun b hb => isDigit_of_mem_padZeros hb) hrest, digitsValue_padZeros]
  unfold formatInt
  split
  · rename_i hneg
    have hvalue : -((value.natAbs : ℕ) : ℤ) = value := by omega
    simp only [readInteger, List.cons_append, splitSign_minus, hread, Option.map_some,
      if_true, hvalue]
  · rename_i hnonneg
    have hvalue : ((value.natAbs : ℕ) : ℤ) = value := by omega
    have hsign := splitSign_digits rest (padZeros_ne_nil width value.natAbs)
      (fun b hb => isDigit_of_mem_padZeros hb)
    simp only [readInteger, hsign, hread, Option.map_some, Bool.false_eq_true, if_false,
      hvalue]

theorem strtol_formatInt (width : ℕ) (value : Int64) (rest : Bytes)
    (hrest : ∀ b ∈ rest.head?, isDigit b = false) :
    strtol (formatInt width value.toInt ++ rest) = some (value, rest) := by
  rw [strtol_eq_readInteger, readInteger_formatInt width value.toInt rest hrest, Option.map_some,
    toLong_toInt]

end CString
