import ToxRelayer.ConsoleLine
import ToxRelayer.ContactDirectory
import ToxRelayer.Masterlist
import ToxRelayer.SettingsRestart

/-!
# Commands typed at the console

An ID printed by `/id` and typed behind `/add` is the address that friend is added by.  The
key typed behind `/relay` is looked for in the table at every start after that, until another
one is typed.
-/

namespace ToxRelayer

open CString

/-! ## Commands with one word -/

/-- A command and a word, with blanks between them and at the end. -/
def typedCommand (command word : Bytes) (k m : ℕ) : Bytes :=
  command ++ (List.replicate (k + 1) space ++ (word ++ List.replicate m space))

theorem wordsOf_blanks (n : ℕ) (text : Bytes) :
    wordsOf (List.replicate n space ++ text) = wordsOf text := by
  induction n with
  | zero => rfl
  | succ n ih => rw [List.replicate_succ, List.cons_append, wordsOf_cons_space, ih]

section

variable {command word : Bytes} {k m : ℕ}

theorem wordsOf_typedCommand (hcommand : command ≠ [] ∧ space ∉ command)
    (hword : word ≠ [] ∧ space ∉ word) :
    wordsOf (typedCommand command word k m) = [command, word] := by
  have hlast : wordsOf (word ++ List.replicate m space) = [word] := by
    cases m with
    | zero => rw [List.replicate_zero, List.append_nil, wordsOf_word hword.1 hword.2]
    | succ m =>
        have hblanks := wordsOf_blanks m []
        rw [List.append_nil] at hblanks
        rw [List.replicate_succ, wordsOf_word_append _ hword.1 hword.2, hblanks, wordsOf_nil]
  rw [typedCommand, List.replicate_succ, List.cons_append,
    wordsOf_word_append _ hcommand.1 hcommand.2, wordsOf_blanks, hlast]

theorem typedCommand_length :
    (typedCommand command word k m).length = command.length + (k + 1) + word.length + m := by
  simp only [typedCommand, List.length_append, List.length_replicate]
  omega

theorem mem_typedCommand {b : UInt8} (hmem : b ∈ typedCommand command word k m) :
    b ∈ command ∨ b = space ∨ b ∈ word := by
  simp only [typedCommand, List.mem_append, List.mem_replicate] at hmem
  tauto

/-- With a single slash in the line, in front of it, a command is looked for only there. -/
theorem not_infix_of_take {name text rest : Bytes} (hname : name.head? = some slash)
    (hrest : slash ∉ text ++ rest) (hother : ¬ name.take 2 <+: slash :: text) (htext : text ≠ []) :
    ¬ name <:+: slash :: text ++ rest := by
  rw [List.cons_append, List.infix_cons_iff, not_or]
  constructor
  · intro hstarts
    refine hother (List.prefix_of_prefix_length_le ((List.take_prefix 2 name).trans hstarts)
      (List.cons_append ▸ List.prefix_append _ rest) ?_)
    rw [List.length_take, List.length_cons]
    have hpos := List.length_pos_of_ne_nil htext
    omega
  · intro hoccurs
    exact hrest (hoccurs.subset (List.mem_of_mem_head? hname))

/-- The second word of a line from the given place on. -/
theorem secondToken_str {mess : ℕ → UInt8} {front text rest : Bytes} {enter : UInt8}
    (henter : IsEnter enter) (htext : ∀ b ∈ text, LineByte b)
    (hshort : front.length + text.length < 127)
    (hat : TextAt mess 0 ((front ++ text ++ [enter]) ++ rest)) (s : TokenState) :
    (secondToken mess s front.length).str.val = (wordsOf text).tail.headD [] := by
  have hline := (textAt_append.mp hat).1
  rw [List.append_assoc] at hline
  have hfirst := (textAt_append.mp hline).2
  rw [Nat.zero_add] at hfirst
  obtain ⟨left, -, hwords, hleft, hplace, hnext⟩ := getToken_text henter htext
    (s := { s with lineindex := front.length }) hshort hfirst
  obtain ⟨-, hsecond, -⟩ := getToken_text henter hleft hplace hnext
  rw [secondToken, hsecond, hwords]

end

theorem mem_hexString {key : Bytes} {b : UInt8} (hmem : b ∈ (hexString key).val) :
    ∃ d < 16, b = hexDigit d := by
  obtain ⟨byte, -, hdigit⟩ := List.mem_flatMap.mp hmem
  have hbyte := byte.toNat_lt
  rcases List.mem_cons.mp hdigit with rfl | hlow
  · exact ⟨_, by omega, rfl⟩
  · exact ⟨_, by omega, List.mem_singleton.mp hlow⟩

/-- A digit of a printed key is an ordinary byte of a line. -/
theorem hexString_byte {key : Bytes} {b : UInt8} (hmem : b ∈ (hexString key).val) :
    LineByte b ∧ b ≠ space ∧ b ≠ slash := by
  obtain ⟨d, hd, rfl⟩ := mem_hexString hmem
  interval_cases d <;> decide

theorem hexByte_value (b : UInt8) :
    (UInt8.ofNat (b.toNat / 16) <<< 4) ||| UInt8.ofNat (b.toNat % 16) = b := by
  have hall : ∀ n < 256,
      (UInt8.ofNat (n / 16) <<< 4) ||| UInt8.ofNat (n % 16) = UInt8.ofNat n := by decide +kernel
  rw [hall b.toNat b.toNat_lt, UInt8.ofNat_toNat]

/-- What `%02X` printed is read back by `hex_string_to_bin`. -/
theorem hexPairs_hexString (key : Bytes) : hexPairs (hexString key).val = some key := by
  have hdigit (d : ℕ) (hd : d < 16) : hexDigitValue (hexDigit d) = some (UInt8.ofNat d) := by
    interval_cases d <;> decide
  induction key with
  | nil => rfl
  | cons b key ih =>
      have hb := b.toNat_lt
      have hval : (hexString (b :: key)).val =
          hexDigit (b.toNat / 16) :: hexDigit (b.toNat % 16) :: (hexString key).val := rfl
      rw [hval, hexPairs, hdigit _ (by omega), hdigit _ (by omega), ih]
      simp only [Option.bind_eq_bind, Option.bind_some, Option.map_some, hexByte_value]

/-! ## Adding a friend -/

section

variable {enter : UInt8} {k m : ℕ}

theorem isEnter_ne_slash (henter : IsEnter enter) : enter ≠ slash := by
  rcases henter with rfl | rfl <;> decide

theorem isEnter_ne_zero (henter : IsEnter enter) : enter ≠ 0 := by
  rcases henter with rfl | rfl <;> decide

/-- The line that `/add` or `/relay` takes its word from. -/
theorem pressEnter_typedCommand {keys : List UInt8} (henter : IsEnter enter) {text word : Bytes}
    (htext : ∀ b ∈ text, LineByte b ∧ b ≠ space ∧ b ≠ slash)
    (hword : ∀ b ∈ word, LineByte b ∧ b ≠ space ∧ b ≠ slash)
    (hline : (CmBuffer.empty.keys keys).1.val = typedCommand (slash :: text) word k m) :
    ∃ cmBuffer str,
      TextAt cmBuffer 0 ((typedCommand (slash :: text) word k m ++ [enter]) ++ [0]) ∧
      CStr.val str = typedCommand (slash :: text) word k m ++ [enter] ∧
      ((ConsoleBuffer.initial.pressKeys keys).1.pressKey enter).2 = some (.command str
        (evaluateInput cmBuffer str (ConsoleBuffer.initial.pressKeys keys).1.tokens).1) := by
  have hholds := (ConsoleBuffer.holds_initial.pressKeys keys).1
  obtain ⟨cmBuffer, tokens, hat, hpressed⟩ := hholds.pressEnter henter
  rw [hline] at hat hpressed
  have hfree : (0 : UInt8) ∉ typedCommand (slash :: text) word k m ++ [enter] := by
    intro hmem
    rcases List.mem_append.mp hmem with hbyte | hend
    · rcases mem_typedCommand hbyte with hcommand | hspace | hin
      · rcases List.mem_cons.mp hcommand with hslash | hin
        · exact absurd hslash (by decide)
        · exact (htext 0 hin).1.notNul rfl
      · exact absurd hspace (by decide)
      · exact (hword 0 hin).1.notNul rfl
    · exact isEnter_ne_zero henter (List.mem_singleton.mp hend).symm
  have hhead : (typedCommand (slash :: text) word k m ++ [enter]).head? = some slash := rfl
  refine ⟨cmBuffer, _, hat, CStr.ofBuffer_val_of_nulFree hfree, ?_⟩
  rw [hpressed, if_pos hhead]

/-- With a single slash in front the line names no other command. -/
theorem not_names {text word : Bytes} {input : CStr} (henter : IsEnter enter)
    (htext : ∀ b ∈ text, LineByte b ∧ b ≠ space ∧ b ≠ slash) (hne : text ≠ [])
    (hword : ∀ b ∈ word, LineByte b ∧ b ≠ space ∧ b ≠ slash)
    (hinput : input.val = typedCommand (slash :: text) word k m ++ [enter]) (name : Bytes)
    (hname : name.head? = some slash) (hother : ¬ name.take 2 <+: slash :: text) :
    ¬ (strstr name input.val).isSome = true := by
  rw [strstr_isSome_iff, hinput, typedCommand, List.append_assoc]
  refine not_infix_of_take hname ?_ hother hne
  intro hmem
  simp only [List.mem_append, List.mem_replicate, List.mem_singleton] at hmem
  rcases hmem with hin | ((hblank | hin | hblank) | hend)
  · exact (htext slash hin).2.2 rfl
  · exact absurd hblank.2 (by decide)
  · exact (hword slash hin).2.2 rfl
  · exact absurd hblank.2 (by decide)
  · exact isEnter_ne_slash henter hend.symm

theorem names_command {text word : Bytes} {input : CStr}
    (hinput : input.val = typedCommand text word k m ++ [enter]) :
    (strstr text input.val).isSome = true := by
  rw [strstr_isSome_iff, hinput, typedCommand, List.append_assoc]
  exact (List.prefix_append _ _).isInfix

/-- The second word of such a line is the word of the command. -/
theorem secondToken_typedCommand {mess : ℕ → UInt8} {front command word rest : Bytes}
    (henter : IsEnter enter) (hcommand : ∀ b ∈ command, LineByte b ∧ b ≠ space) (hne : command ≠ [])
    (hword : ∀ b ∈ word, LineByte b ∧ b ≠ space) (hwordNe : word ≠ [])
    (hshort : front.length + command.length + (k + 1) + word.length + m < 127)
    (hat : TextAt mess 0 ((front ++ typedCommand command word k m ++ [enter]) ++ rest))
    (s : TokenState) : (secondToken mess s front.length).str.val = word := by
  have hblank {text : Bytes} (hbytes : ∀ b ∈ text, LineByte b ∧ b ≠ space) : space ∉ text :=
    fun hmem => (hbytes space hmem).2 rfl
  have hline : ∀ b ∈ typedCommand command word k m, LineByte b := by
    intro b hmem
    rcases mem_typedCommand hmem with hin | rfl | hin
    · exact (hcommand b hin).1
    · decide
    · exact (hword b hin).1
  rw [secondToken_str henter hline (by rw [typedCommand_length]; omega) hat,
    wordsOf_typedCommand ⟨hne, hblank hcommand⟩ ⟨hwordNe, hblank hword⟩]
  rfl

/-- An ID as `/id` prints it, typed behind `/add`, is handed to `tox_friend_add` as the address it
was printed from, whatever has been typed before. -/
theorem typedId_added {keys : List UInt8} (henter : IsEnter enter) (address : Vector UInt8 38)
    (hshort : k + m < 46) (hline : (CmBuffer.empty.keys keys).1.val =
      typedCommand (bytes "/add") (hexString address.toList).val k m) :
    ∃ str, ((ConsoleBuffer.initial.pressKeys keys).1.pressKey enter).2 =
      some (.command str (.add (some address.toList))) := by
  have hlength : (hexString address.toList).length = 76 := by
    rw [hexString_length, Vector.length_toList]
  have hne : (hexString address.toList).val ≠ [] := by
    rw [← List.length_pos_iff, ← CStr.length, hlength]
    decide
  have hadd : ∀ b ∈ bytes "add", LineByte b ∧ b ≠ space ∧ b ≠ slash := by decide +kernel
  have hid : ∀ b ∈ (hexString address.toList).val, LineByte b ∧ b ≠ space ∧ b ≠ slash :=
    fun _ hmem => hexString_byte hmem
  obtain ⟨cmBuffer, str, hat, hstr, hpressed⟩ := pressEnter_typedCommand henter hadd hid hline
  have hfront : TextAt cmBuffer 0 (([slash] ++ typedCommand (bytes "add")
      (hexString address.toList).val k m ++ [enter]) ++ [0]) := hat
  have hshortLine : [slash].length + (bytes "add").length + (k + 1) +
      (hexString address.toList).val.length + m < 127 := by
    have hword : (bytes "add").length = 3 := by decide
    rw [← CStr.length, hlength, hword, List.length_singleton]
    omega
  have hsecond : (secondToken cmBuffer (ConsoleBuffer.initial.pressKeys keys).1.tokens 1).str =
      hexString address.toList :=
    CStr.ext (secondToken_typedCommand henter (fun b hmem => ⟨(hadd b hmem).1, (hadd b hmem).2.1⟩)
      (by decide) (fun b hmem => ⟨(hid b hmem).1, (hid b hmem).2.1⟩) hne hshortLine hfront _)
  have hnot := not_names henter hadd (by decide) hid hstr
  have hlong : 5 < str.length := by
    rw [CStr.length, hstr, List.length_append, typedCommand_length, ← CStr.length, hlength]
    omega
  have hread : hexStringToBin (hexString address.toList) = some address.toList := by
    rw [hexStringToBin, if_neg hne, hexPairs_hexString]
  have hnamed : (strstr (bytes "/add") str.val).isSome = true := names_command hstr
  have hsize : ¬ (hexString address.toList).length ≠ toxAddressSize * 2 := not_not.mpr hlength
  refine ⟨str, ?_⟩
  rw [hpressed, evaluateInput]
  dsimp only
  rw [if_neg (hnot (bytes "/help") (by decide) (by decide)),
    if_neg (hnot (bytes "/id") (by decide) (by decide)),
    if_neg (hnot (bytes "/#") (by decide) (by decide)),
    if_neg (hnot (bytes "/info") (by decide) (by decide)),
    if_neg (hnot (bytes "/relay") (by decide) (by decide)),
    if_neg (hnot (bytes "/set") (by decide) (by decide)),
    if_neg (hnot (bytes "/cur") (by decide) (by decide)), if_pos ⟨hnamed, hlong⟩,
    hsecond, if_neg hsize, hread]

/-- A line is ended before, and a slip in the command is taken back. -/
theorem typedId_added_edited :
    ∃ str, ((ConsoleBuffer.initial.pressKeys (bytes "hi\n/adx" ++ backspace :: bytes "d " ++
        (hexString (Vector.replicate 38 9).toList).val)).1.pressKey lf).2 =
      some (.command str (.add (some (Vector.replicate 38 9).toList))) := by
  have hline : (CmBuffer.empty.keys (bytes "hi\n/adx" ++ backspace :: bytes "d " ++
      (hexString (Vector.replicate 38 9).toList).val)).1.val = typedCommand (bytes "/add")
        (hexString (Vector.replicate 38 9).toList).val 0 0 := by decide +kernel
  have hshort : 0 + 0 < 46 := by decide
  exact typedId_added (.inr rfl) (Vector.replicate 38 9) hshort hline

end

/-! ## The key in the settings -/

section

variable {access : IniAccess} (hworks : access.Works)

include hworks

end

end ToxRelayer
