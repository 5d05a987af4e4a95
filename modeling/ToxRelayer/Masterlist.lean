import ToxRelayer.Directory

/-!
# The list of master keys

`file_contains_key` over the contents of a file, and what `friend_is_master` makes of
it.
-/

namespace ToxRelayer

open CString

def toxPublicKeySize : ℕ := 32

/-- `hex_digit_value`; `none` is -1. -/
def hexDigitValue (c : UInt8) : Option UInt8 :=
  if 48 ≤ c ∧ c ≤ 57 then some (c - 48)
  else if 97 ≤ c ∧ c ≤ 102 then some (c - 97 + 10)
  else if 65 ≤ c ∧ c ≤ 70 then some (c - 65 + 10)
  else none

/-- The bytes pairs of digits spell; `none` when a digit is none or has no partner. -/
def hexPairs : Bytes → Option Bytes
  | [] => some []
  | [_] => none
  | hi :: lo :: rest => do
      let hi ← hexDigitValue hi
      let lo ← hexDigitValue lo
      (hexPairs rest).map (((hi <<< 4) ||| lo) :: ·)

/-- `hex_string_to_bin`; `none` is `NULL`. -/
def hexStringToBin (hexString : CStr) : Option Bytes :=
  if hexString.val = [] then none else hexPairs hexString.val

/-- What calls of `fgets` with a buffer of `size` bytes read: up to a line feed, or until
the buffer is full. -/
def fgetsAll (size : ℕ) : Bytes → Bytes → List Bytes
  | line, [] => if line = [] then [] else [line]
  | line, b :: rest =>
      if b = lf ∨ line.length + 2 = size then (line ++ [b]) :: fgetsAll size [] rest
      else fgetsAll size (line ++ [b]) rest

/-- The line without its terminator. -/
def lineId (line : Bytes) : CStr :=
  .ofBuffer (line.takeWhile fun b => b ≠ cr ∧ b ≠ lf)

/-- The key a line is compared as; `none` when the line is skipped. -/
def lineKey (line : Bytes) : Option Bytes :=
  if (lineId line).length < toxPublicKeySize * 2 then none
  else (hexStringToBin (lineId line)).map (·.take toxPublicKeySize)

/-- How the calls on a file end: creating it, opening it to read or to append, and writing
to it. -/
structure FileAccess where
  creatable : Bool
  readable : Bool
  appendable : Bool
  writable : Bool

/-- The answer and the file, which is created when there is none. -/
def fileContainsKey (io : FileAccess) (publicKey : Vector UInt8 32) (file : Option Bytes) :
    ℤ × Option Bytes :=
  match file with
  | none => if io.creatable then (0, some []) else (-1, none)
  | some text =>
      if !io.readable then (-1, some text)
      else if (fgetsAll 256 [] text).any fun line => lineKey line = some publicKey.toList then
        (1, some text)
      else (0, some text)

/-- The keys of a list of keys. -/
def keysIn (file : Option Bytes) : List Bytes :=
  (fgetsAll 256 [] (file.getD [])).filterMap lineKey

section

variable (io : FileAccess) (publicKey : Vector UInt8 32) (file : Option Bytes)

@[simp] theorem keysIn_created : keysIn (fileContainsKey io publicKey file).2 = keysIn file := by
  cases file with
  | none =>
      rw [fileContainsKey]
      split <;> rfl
  | some text =>
      simp only [fileContainsKey]
      split_ifs <;> rfl

theorem fileContainsKey_eq_one_iff :
    (fileContainsKey io publicKey file).1 = 1 ↔
      io.readable = true ∧ publicKey.toList ∈ keysIn file := by
  cases file with
  | none =>
      have hempty : keysIn none = [] := rfl
      rw [fileContainsKey, hempty]
      split <;> simp
  | some text =>
      have hmem : publicKey.toList ∈ keysIn (some text) ↔
          ((fgetsAll 256 [] text).any fun line => lineKey line = some publicKey.toList) = true := by
        simp [keysIn]
      rw [hmem]
      simp only [fileContainsKey]
      split_ifs with hio hkey <;> simp_all

end

end ToxRelayer
