import ToxRelayer.IniStore
import ToxRelayer.IntegerText

/-!
# The entries the relay keeps in its settings

Every contact has an entry for the serial sent last, one for the serial received
last and one for the metaCom flag, named by a word and its number.  Such a name
is always found again, and a number that is written is read back.
-/

namespace ToxRelayer

open CString SectionedStore

/-- `snprintf(key_buffer, sizeof(key_buffer), "send%03d", channel)` and the like. -/
def entryName (word : Bytes) (channel : ℤ) : Bytes := word ++ formatInt 3 channel

/-- The word of an entry name is made of small letters. -/
structure EntryWord (word : Bytes) : Prop where
  nonempty : word ≠ []
  short : word.length ≤ 16
  small : ∀ b ∈ word, 97 ≤ b ∧ b ≤ 122

/-- The text of a number. -/
structure NumberText (value : Bytes) : Prop where
  nonempty : value ≠ []
  short : value.length ≤ 16
  digits : ∀ b ∈ value, b = minus ∨ isDigit b = true

/-- A character that stands for itself in the file. -/
structure PlainByte (b : UInt8) : Prop where
  ne_zero : b ≠ 0
  ne_lf : b ≠ lf
  ne_equals : b ≠ equalsSign
  ne_bracket : b ≠ openBracket
  ne_semicolon : b ≠ semicolon
  ne_hash : b ≠ hash
  ne_quote : b ≠ quote
  not_blank : isBlank b = false
  lower : toLower b = b

/-! ## Names -/

section

variable {word value : Bytes} {channel : ℤ}

theorem formatInt_ne_nil (width : ℕ) (value : ℤ) : formatInt width value ≠ [] := by
  unfold formatInt
  split
  · exact List.cons_ne_nil _ _
  · exact padZeros_ne_nil _ _

theorem plainByte_of_digit {b : UInt8} (hb : b = minus ∨ isDigit b = true) : PlainByte b := by
  rcases hb with rfl | hdigit
  · constructor <;> decide
  · simp only [isDigit, Bool.and_eq_true, decide_eq_true_eq] at hdigit
    obtain ⟨hlow, hhigh⟩ := hdigit
    constructor <;>
      grind [lf, equalsSign, openBracket, semicolon, hash, quote, isBlank, toLower]

theorem EntryWord.plainByte (hword : EntryWord word) {b : UInt8} (hb : b ∈ word) :
    PlainByte b := by
  obtain ⟨hlow, hhigh⟩ := hword.small b hb
  constructor <;>
    grind [lf, equalsSign, openBracket, semicolon, hash, quote, isBlank, toLower]

theorem EntryWord.plainByte_name (hword : EntryWord word) {b : UInt8}
    (hb : b ∈ entryName word channel) : PlainByte b := by
  rcases List.mem_append.mp hb with hletter | hnumber
  · exact hword.plainByte hletter
  · exact plainByte_of_digit (mem_formatInt hnumber)

/-- The name of an entry is found again. -/
theorem EntryWord.iniKey (hword : EntryWord word) (channel : ℤ) :
    IniKey (entryName word channel) where
  nonempty := by simp [entryName, hword.nonempty]
  nulFree := fun hmem => (hword.plainByte_name hmem).ne_zero rfl
  oneLine := fun hmem => (hword.plainByte_name hmem).ne_lf rfl
  noEquals := fun hmem => (hword.plainByte_name hmem).ne_equals rfl
  first := by
    intro b hb
    have hplain := hword.plainByte_name (List.mem_of_mem_head? hb)
    exact ⟨hplain.not_blank, hplain.ne_bracket, hplain.ne_semicolon, hplain.ne_hash⟩
  last := fun _ hb => (hword.plainByte_name (List.mem_of_getLast? hb)).not_blank

theorem EntryWord.lowerCase (hword : EntryWord word) (channel : ℤ) :
    lowerCase (entryName word channel) = entryName word channel := by
  rw [ToxRelayer.lowerCase]
  exact (List.map_congr_left fun b hb => (hword.plainByte_name hb).lower).trans (List.map_id _)

/-- Different contacts have entries of different names. -/
theorem entryName_injective {other : ℤ} (hname : entryName word channel = entryName word other) :
    channel = other := by
  have hnumber := List.append_cancel_left hname
  have hread (value : ℤ) : readInteger (formatInt 3 value) = some (value, []) := by
    have hread := readInteger_formatInt 3 value [] nofun
    rwa [List.append_nil] at hread
  have hboth := hread channel
  rw [hnumber, hread other] at hboth
  exact (Prod.mk.inj (Option.some.inj hboth)).1.symm

/-! ## Numbers -/

theorem numberText_formatInt {sn : ℤ} (hsn : tgSnValid sn) : NumberText (formatInt 4 sn) where
  nonempty := formatInt_ne_nil 4 sn
  short := by
    obtain ⟨hlow, hhigh⟩ := hsn
    rw [tgSnMin] at hlow
    rw [tgSnMax] at hhigh
    have hlength := formatInt_length_le 4 (k := 3) (by decide) (show sn.natAbs < 10 ^ 3 by omega)
    omega
  digits := fun _ hb => mem_formatInt hb

theorem NumberText.plainByte (hvalue : NumberText value) {b : UInt8} (hb : b ∈ value) :
    PlainByte b :=
  plainByte_of_digit (hvalue.digits b hb)

theorem NumberText.ofBuffer_val (hvalue : NumberText value) : (CStr.ofBuffer value).val = value :=
  CStr.ofBuffer_val_of_nulFree fun hmem => (hvalue.plainByte hmem).ne_zero rfl

theorem NumberText.length_pos (hvalue : NumberText value) : 1 ≤ (CStr.ofBuffer value).length := by
  rw [CStr.length, hvalue.ofBuffer_val]
  exact List.length_pos_iff.mpr hvalue.nonempty

/-- A number is written without quotes and read back as it is. -/
theorem NumberText.kept (hvalue : NumberText value) : iniReadBack value = value := by
  rw [iniReadBack_eq_self_iff]
  right
  constructor
  · intro b hb
    exact (hvalue.plainByte (List.mem_of_mem_head? hb)).not_blank
  · intro b hb
    exact (hvalue.plainByte (List.mem_of_getLast? hb)).not_blank

theorem NumberText.checkEnquote (hvalue : NumberText value) : checkEnquote value ≠ .enquote := by
  rw [Ne, checkEnquote_eq_enquote_iff]
  rintro (⟨b, hb, hspecial⟩ | hlast)
  · have hplain := hvalue.plainByte hb
    rcases hspecial with hsame | hsame | hsame
    · exact hplain.ne_quote hsame
    · exact hplain.ne_semicolon hsame
    · exact hplain.ne_hash hsame
  · exact absurd (hvalue.plainByte (List.mem_of_getLast? hlast)).not_blank (by decide)

theorem NumberText.iniSetting (hvalue : NumberText value) (hword : EntryWord word)
    (hchannel : channel.natAbs < 10 ^ 10) : IniSetting (entryName word channel) value where
  named := hword.iniKey channel
  nulFree := fun hmem => (hvalue.plainByte hmem).ne_zero rfl
  oneLine := fun hmem => (hvalue.plainByte hmem).ne_lf rfl
  fits := by
    have hnumber := formatInt_length_le 3 (by decide) hchannel
    have hshort := hword.short
    have hvalueShort := hvalue.short
    rw [iniWritten, if_neg hvalue.checkEnquote, entryName, List.length_append, iniBufferSize]
    omega

/-- A number in an entry of a contact. -/
def numberWrite (sect : Bytes) (hsect : IniHeading sect) (hword : EntryWord word) (channel : ℤ)
    (hchannel : channel.natAbs < 10 ^ 10) (hvalue : NumberText value) : IniWrite where
  sect := sect
  key := entryName word channel
  value := value
  heading := hsect
  setting := hvalue.iniSetting hword hchannel
  kept := hvalue.kept

/-- What is printed of a number is read again. -/
theorem parseIntRange_formatInt {width : ℕ} {min max value : ℤ} (hmin : -2 ^ 63 ≤ min)
    (hmax : max < 2 ^ 63) (hlow : min ≤ value) (hhigh : value ≤ max) {text : CStr}
    (htext : text.val = formatInt width value) : parseIntRange text min max = some value := by
  have hread := readInteger_formatInt width value [] nofun
  rw [List.append_nil, ← htext] at hread
  rw [parseIntRange]
  cases hval : text.val with
  | nil => exact absurd (htext.symm.trans hval) (formatInt_ne_nil width value)
  | cons b rest =>
      have hfirst : isSpace b = false := by
        have hb : b ∈ formatInt width value := by
          rw [← htext, hval]
          exact List.mem_cons_self
        rcases mem_formatInt hb with rfl | hdigit
        · decide
        · exact (isSpace_of_isDigit hdigit).1
      rw [hval] at hread
      have hlong : (toLong value).toInt = value := toInt_toLong (by omega) (by omega)
      have hrange : ¬ strtolOutOfRange (b :: rest) = true := by
        rw [strtolOutOfRange_iff hread]
        omega
      simp only [hfirst, strtol_eq_readInteger, hread, Option.map_some, hlong]
      rw [if_neg Bool.false_ne_true, if_neg hrange, if_neg (by omega)]

end

end ToxRelayer
