import ToxRelayer.IniFile

/-!
# What is written to a setting and read back

`writekey` puts a value in quotes when it holds a quote, a comment character or
ends in a space.  In quotes every value is read back as it is, without them only
up to the blanks around it.
-/

namespace ToxRelayer

open CString TextLines

/-- A backslash in front of every double quote. -/
def escapeQuotes (value : Bytes) : Bytes :=
  value.flatMap fun b => if b = quote then [backslash, quote] else [b]

/-- A value as it stands in the file. -/
def iniWritten (value : Bytes) : Bytes :=
  if checkEnquote value = .enquote then quote :: escapeQuotes value ++ [quote] else value

/-- A value as it is read back. -/
def iniReadBack (value : Bytes) : Bytes :=
  if checkEnquote value = .enquote then value else skipTrailing (skipLeading value)

/-- The key of a setting: a name that is found again in front of the equals sign. -/
structure IniKey (key : Bytes) : Prop where
  nonempty : key ≠ []
  nulFree : 0 ∉ key
  oneLine : lf ∉ key
  noEquals : equalsSign ∉ key
  first : ∀ b, key.head? = some b →
    isBlank b = false ∧ b ≠ openBracket ∧ b ≠ semicolon ∧ b ≠ hash
  last : ∀ b, key.getLast? = some b → isBlank b = false

/-- A setting that is written to one line without being cut off. -/
structure IniSetting (key value : Bytes) : Prop where
  named : IniKey key
  nulFree : 0 ∉ value
  oneLine : lf ∉ value
  fits : key.length + (iniWritten value).length + 4 ≤ iniBufferSize

/-- The name of a section. -/
structure IniHeading (sect : Bytes) : Prop where
  nonempty : sect ≠ []
  nulFree : 0 ∉ sect
  oneLine : lf ∉ sect
  fits : sect.length + 5 ≤ iniBufferSize

/-! ## Blanks -/

theorem skipLeading_of_head {text : Bytes} (hhead : ∀ b, text.head? = some b → isBlank b = false) :
    skipLeading text = text := by
  cases text with
  | nil => rfl
  | cons b text =>
      apply List.dropWhile_cons_of_neg
      rw [hhead b rfl]
      exact Bool.false_ne_true

theorem skipTrailing_append_blank (text : Bytes) {b : UInt8} (hb : isBlank b = true) :
    skipTrailing (text ++ [b]) = skipTrailing text := by
  rw [skipTrailing, List.rdropWhile_concat_pos _ _ _ hb, skipTrailing]

theorem skipTrailing_append (text : Bytes) {b : UInt8} (hb : isBlank b = false) :
    skipTrailing (text ++ [b]) = text ++ [b] :=
  List.rdropWhile_concat_neg _ _ _ (by simp [hb])

theorem skipTrailing_of_getLast {text : Bytes}
    (hlast : ∀ b, text.getLast? = some b → isBlank b = false) : skipTrailing text = text := by
  rcases text.eq_nil_or_concat with rfl | ⟨front, b, rfl⟩
  · rfl
  · rw [List.concat_eq_append] at hlast ⊢
    exact skipTrailing_append front (hlast b (by simp))

theorem isBlank_lf : isBlank lf = true := by decide

/-- A blank behind a text is skipped with what stands in front of it, or stays behind it. -/
theorem skipLeading_append_blank (text : Bytes) {b : UInt8} (hb : isBlank b = true) :
    skipLeading (text ++ [b]) = [] ∧ skipLeading text = [] ∨
      skipLeading (text ++ [b]) = skipLeading text ++ [b] := by
  induction text with
  | nil =>
      left
      simp [skipLeading, hb]
  | cons c text ih =>
      simp only [skipLeading, List.cons_append, List.dropWhile_cons] at ih ⊢
      cases hc : isBlank c with
      | true => exact ih
      | false => exact .inr rfl

/-- A value is read the same with a line end behind it. -/
theorem skipTrailing_skipLeading_append (text : Bytes) {b : UInt8} (hb : isBlank b = true) :
    skipTrailing (skipLeading (text ++ [b])) = skipTrailing (skipLeading text) := by
  rcases skipLeading_append_blank text hb with ⟨hboth, htext⟩ | hbehind
  · rw [hboth, htext]
  · rw [hbehind, skipTrailing_append_blank _ hb]

/-! ## Quotes -/

theorem escapeQuotes_cons (b : UInt8) (value : Bytes) :
    escapeQuotes (b :: value) =
      if b = quote then backslash :: quote :: escapeQuotes value else b :: escapeQuotes value := by
  rw [escapeQuotes, List.flatMap_cons]
  split <;> rfl

theorem escapeQuotes_head (value : Bytes) : (escapeQuotes value).head? ≠ some quote := by
  cases value with
  | nil => exact nofun
  | cons b value =>
      rw [escapeQuotes_cons]
      split
      · have hne : backslash ≠ quote := by decide
        simpa using hne
      · rename_i hb
        simpa using hb

theorem enquoteLoop_fits {maxLen : ℕ} (value : Bytes) {d : ℕ}
    (hfits : d + (escapeQuotes value).length + 2 ≤ maxLen) :
    enquoteLoop maxLen d value = escapeQuotes value := by
  induction value generalizing d with
  | nil => rfl
  | cons b value ih =>
      rw [escapeQuotes_cons] at hfits ⊢
      rw [enquoteLoop]
      by_cases hb : b = quote
      · rw [if_pos hb, List.length_cons, List.length_cons] at hfits
        rw [if_pos (by omega), if_pos hb, if_neg (by omega), if_pos hb, ih (by omega)]
      · rw [if_neg hb, List.length_cons] at hfits
        rw [if_pos (by omega), if_neg hb, if_neg hb, ih (by omega)]

theorem dequoteLoop_escapeQuotes (value : Bytes) : dequoteLoop (escapeQuotes value) = value := by
  induction value with
  | nil => rfl
  | cons b value ih =>
      rw [escapeQuotes_cons]
      by_cases hb : b = quote
      · subst hb
        rw [if_pos rfl, dequoteLoop, if_pos ⟨.inr rfl, rfl⟩, ih]
      · rw [if_neg hb]
        have hhead := escapeQuotes_head value
        cases hrest : escapeQuotes value with
        | nil =>
            rw [hrest] at ih
            rw [dequoteLoop, ← ih]
            rfl
        | cons c rest =>
            have hc : c ≠ quote := by simpa [hrest] using hhead
            rw [dequoteLoop, if_neg (not_and.mpr fun _ => hc), ← hrest, ih]

/-- Between the quotes nothing is taken for a comment. -/
theorem cutComment_escapeQuotes (value : Bytes) :
    cutComment true (escapeQuotes value ++ [quote, lf]) = escapeQuotes value ++ [quote, lf] := by
  induction value with
  | nil => decide
  | cons b value ih =>
      rw [escapeQuotes_cons]
      by_cases hb : b = quote
      · rw [if_pos hb, List.cons_append, List.cons_append, cutComment, if_neg (by decide),
          if_pos ⟨.inr rfl, rfl⟩, ih]
      · rw [if_neg hb]
        cases hrest : escapeQuotes value with
        | nil =>
            -- a backslash in front of the closing quote
            rw [List.cons_append, List.nil_append, cutComment, if_neg (by simp)]
            by_cases hslash : b = backslash
            · rw [if_pos ⟨.inr hslash, rfl⟩]
              rfl
            · rw [if_neg (by simp [hb, hslash]), if_neg hb]
              rfl
        | cons c rest =>
            have hc : c ≠ quote := by
              have hhead := escapeQuotes_head value
              simpa [hrest] using hhead
            rw [hrest] at ih
            rw [List.cons_append, List.cons_append, cutComment, if_neg (by simp),
              if_neg (not_and.mpr fun _ => hc), if_neg hb, ← List.cons_append, ih]

theorem cleanString_quoted {value : Bytes} (hvalue : value ≠ []) :
    cleanString (quote :: escapeQuotes value ++ [quote, lf]) = (escapeQuotes value, .dequote) := by
  have hcut : cutComment false (quote :: escapeQuotes value ++ [quote, lf]) =
      quote :: escapeQuotes value ++ [quote, lf] := by
    cases hrest : escapeQuotes value with
    | nil =>
        have hempty := dequoteLoop_escapeQuotes value
        rw [hrest] at hempty
        exact absurd hempty.symm hvalue
    | cons c rest =>
        have hc : c ≠ quote := by
          have hhead := escapeQuotes_head value
          simpa [hrest] using hhead
        have hinside := cutComment_escapeQuotes value
        rw [hrest] at hinside
        rw [List.cons_append, List.cons_append, cutComment, if_neg (by decide),
          if_neg (not_and.mpr fun _ => hc), if_pos rfl, Bool.not_false, ← List.cons_append, hinside]
  have hstrip : skipTrailing (quote :: escapeQuotes value ++ [quote, lf]) =
      quote :: escapeQuotes value ++ [quote] := by
    rw [show quote :: escapeQuotes value ++ [quote, lf] =
        quote :: escapeQuotes value ++ [quote] ++ [lf] by simp,
      skipTrailing_append_blank _ isBlank_lf, skipTrailing_append _ (by decide)]
  rw [cleanString, hcut, hstrip, if_pos]
  · simp
  · exact ⟨rfl, List.getLast?_concat⟩

/-! ## Values without quotes -/

theorem cutComment_plain {value : Bytes}
    (hplain : ∀ b ∈ value, b ≠ quote ∧ b ≠ semicolon ∧ b ≠ hash) (isString : Bool) :
    cutComment isString value = value := by
  induction value with
  | nil => rfl
  | cons b value ih =>
      obtain ⟨⟨hquote, hsemicolon, hhash⟩, hplain⟩ := List.forall_mem_cons.mp hplain
      cases value with
      | nil => rw [cutComment, if_neg (by simp [hsemicolon, hhash])]
      | cons c rest =>
          have hc : c ≠ quote := (hplain c List.mem_cons_self).1
          rw [cutComment, if_neg (by simp [hsemicolon, hhash]), if_neg (not_and.mpr fun _ => hc),
            if_neg hquote, ih hplain]

theorem checkEnquote_eq_enquote_iff (value : Bytes) :
    checkEnquote value = .enquote ↔
      (∃ b ∈ value, b = quote ∨ b = semicolon ∨ b = hash) ∨ value.getLast? = some space := by
  unfold checkEnquote
  split
  · rename_i hspecial
    refine iff_of_true rfl ?_
    simpa [or_assoc] using hspecial
  · rename_i hplain
    refine iff_of_false nofun ?_
    simpa [or_assoc] using hplain

theorem cleanString_plain {text : Bytes}
    (hplain : ∀ b ∈ text, b ≠ quote ∧ b ≠ semicolon ∧ b ≠ hash) :
    cleanString text = (skipTrailing text, .none) := by
  rw [cleanString, cutComment_plain hplain, if_neg]
  rintro ⟨hhead, -⟩
  have hmem : quote ∈ text := (List.rdropWhile_prefix _ _).subset (List.mem_of_mem_head? hhead)
  exact (hplain quote hmem).1 rfl

/-! ## The line of a setting -/

section

variable {key value : Bytes}

theorem IniSetting.writeKey_eq (hsetting : IniSetting key value) :
    writeKey key value = key ++ equalsSign :: iniWritten value ++ [lf] := by
  have hfits := hsetting.fits
  have hsize : iniBufferSize = 512 := rfl
  have hkey : key.take (iniBufferSize - 3 - 1) = key := List.take_of_length_le (by omega)
  rw [writeKey, hkey, List.length_append, List.length_singleton]
  have hvalue : iniStrncpy value (iniBufferSize - (key.length + 1) - 2) (checkEnquote value) =
      iniWritten value := by
    unfold iniWritten at hfits ⊢
    cases hoption : checkEnquote value with
    | none =>
        rw [hoption, if_neg nofun] at hfits
        rw [if_neg nofun]
        exact List.take_of_length_le (by omega)
    | enquote =>
        rw [hoption, if_pos rfl, List.length_append, List.length_cons,
          List.length_singleton] at hfits
        rw [if_pos rfl, iniStrncpy, if_neg (by omega), enquoteLoop_fits value (by omega)]
    | dequote =>
        unfold checkEnquote at hoption
        split at hoption <;> cases hoption
  rw [hvalue]
  simp

theorem IniKey.skipLeading (hkey : IniKey key) (rest : Bytes) :
    skipLeading (key ++ rest) = key ++ rest := by
  apply skipLeading_of_head
  intro b hhead
  rw [List.head?_append_of_ne_nil _ hkey.nonempty] at hhead
  exact (hkey.first b hhead).1

theorem IniKey.splitEntry (hkey : IniKey key) (rest : Bytes) :
    splitEntry (key ++ equalsSign :: rest) = some (key, rest) := by
  have hall : ∀ b ∈ key, (b ≠ equalsSign : Bool) = true := by
    intro b hb
    rw [decide_eq_true_eq]
    rintro rfl
    exact hkey.noEquals hb
  have hcut : cutAt equalsSign (key ++ equalsSign :: rest) = some (key, rest) := by
    rw [cutAt, if_pos (by simp), List.takeWhile_append_of_pos hall,
      List.dropWhile_append_of_pos hall]
    simp
  rw [ToxRelayer.splitEntry, hkey.skipLeading, hcut]
  rfl

theorem IniKey.namesKey (hkey : IniKey key) (rest other : Bytes) :
    namesKey other (key ++ equalsSign :: rest) = (other ≠ [] && sameName key other) := by
  rw [ToxRelayer.namesKey, hkey.splitEntry]
  dsimp only
  rw [skipTrailing_of_getLast hkey.last]

theorem IniKey.head (hkey : IniKey key) (rest : Bytes) :
    isHeading (key ++ rest) = false ∧ isComment (key ++ rest) = false := by
  cases key with
  | nil => exact absurd rfl hkey.nonempty
  | cons b key =>
      obtain ⟨-, hbracket, hsemicolon, hhash⟩ := hkey.first b rfl
      rw [isHeading, isComment, hkey.skipLeading]
      simp [hbracket, hsemicolon, hhash]

/-- Writing a value adds quotes and backslashes only. -/
theorem mem_iniWritten {b : UInt8} (hmem : b ∈ iniWritten value) :
    b ∈ value ∨ b = quote ∨ b = backslash := by
  unfold iniWritten at hmem
  split at hmem
  · rcases List.mem_append.mp hmem with hquoted | hend
    · rcases List.mem_cons.mp hquoted with hquote | hescaped
      · exact .inr (.inl hquote)
      · obtain ⟨c, hc, hmem⟩ := List.mem_flatMap.mp hescaped
        split at hmem
        · simp only [List.mem_cons, List.not_mem_nil, or_false] at hmem
          exact .inr hmem.symm
        · obtain rfl := List.mem_singleton.mp hmem
          exact .inl hc
    · exact .inr (.inl (List.mem_singleton.mp hend))
  · exact .inl hmem

theorem not_mem_iniWritten {b : UInt8} (hvalue : b ∉ value) (hquote : b ≠ quote)
    (hbackslash : b ≠ backslash) : b ∉ iniWritten value := by
  intro hmem
  rcases mem_iniWritten hmem with hb | hb | hb
  · exact hvalue hb
  · exact hquote hb
  · exact hbackslash hb

theorem IniSetting.closed (hsetting : IniSetting key value) :
    Closed iniBufferSize (writeKey key value) := by
  have hfits := hsetting.fits
  rw [hsetting.writeKey_eq]
  refine ⟨⟨by simp, ?_, ?_⟩, .inl List.getLast?_concat⟩
  · rw [List.dropLast_concat, List.mem_append, List.mem_cons, not_or, not_or]
    exact ⟨hsetting.named.oneLine, by decide,
      not_mem_iniWritten hsetting.oneLine (by decide) (by decide)⟩
  · simp only [List.length_append, List.length_cons, List.length_nil]
    omega

theorem IniSetting.writeKey_nulFree (hsetting : IniSetting key value) :
    (0 : UInt8) ∉ writeKey key value := by
  rw [hsetting.writeKey_eq, List.mem_append, List.mem_append, List.mem_cons, List.mem_singleton]
  simp only [not_or]
  exact ⟨⟨hsetting.named.nulFree, by decide,
    not_mem_iniWritten hsetting.nulFree (by decide) (by decide)⟩, by decide⟩

/-- The line of a setting gives back its value, cut off at the end of the buffer. -/
theorem IniSetting.lineValue (hsetting : IniSetting key value) (bufferSize : ℕ) :
    lineValue (writeKey key value) bufferSize = (iniReadBack value).take (bufferSize - 1) := by
  rw [hsetting.writeKey_eq, List.append_assoc, List.cons_append, ToxRelayer.lineValue,
    hsetting.named.splitEntry]
  dsimp only
  unfold iniWritten iniReadBack
  by_cases hoption : checkEnquote value = .enquote
  · have hvalue : value ≠ [] := by
      rintro rfl
      exact absurd hoption (by decide)
    rw [if_pos hoption, if_pos hoption]
    have hleading : skipLeading (quote :: escapeQuotes value ++ [quote] ++ [lf]) =
        quote :: escapeQuotes value ++ [quote, lf] := by
      rw [skipLeading_of_head]
      · simp
      · intro b hhead
        obtain rfl : quote = b := by simpa using hhead
        decide
    rw [hleading, cleanString_quoted hvalue, iniStrncpy]
    dsimp only
    rw [dequoteLoop_escapeQuotes]
  · rw [if_neg hoption, if_neg hoption]
    have hplain : ∀ b ∈ skipLeading (value ++ [lf]), b ≠ quote ∧ b ≠ semicolon ∧ b ≠ hash := by
      intro b hb
      have hmem : b ∈ value ++ [lf] := (List.dropWhile_suffix _).subset hb
      rcases List.mem_append.mp hmem with hvalue | hend
      · rw [checkEnquote_eq_enquote_iff] at hoption
        refine ⟨?_, ?_, ?_⟩ <;> rintro rfl <;> exact hoption (.inl ⟨_, hvalue, by simp⟩)
      · obtain rfl := List.mem_singleton.mp hend
        decide
    rw [cleanString_plain hplain, skipTrailing_skipLeading_append value isBlank_lf, iniStrncpy]

end

/-- A value that is put in quotes, or has no blanks around it, is read back as it is. -/
theorem iniReadBack_eq_self_iff (value : Bytes) :
    iniReadBack value = value ↔ checkEnquote value = .enquote ∨
      (∀ b, value.head? = some b → isBlank b = false) ∧
        ∀ b, value.getLast? = some b → isBlank b = false := by
  unfold iniReadBack
  split
  · rename_i hoption
    exact iff_of_true rfl (.inl hoption)
  · rename_i hoption
    rw [or_iff_right hoption]
    constructor
    · intro htrim
      have hleading : skipLeading value = value := by
        have hsuffix : skipLeading value <:+ value := List.dropWhile_suffix _
        have hprefix : skipTrailing (skipLeading value) <+: skipLeading value :=
          List.rdropWhile_prefix _ _
        have hlength := hprefix.length_le
        rw [htrim] at hlength
        exact hsuffix.eq_of_length (le_antisymm hsuffix.length_le hlength)
      rw [hleading] at htrim
      constructor
      · intro b hhead
        cases value with
        | nil => cases hhead
        | cons c value =>
            obtain rfl : c = b := by simpa using hhead
            by_contra hblank
            rw [Bool.not_eq_false] at hblank
            have hshorter : (skipLeading (c :: value)).length ≤ value.length := by
              rw [skipLeading, List.dropWhile_cons_of_pos hblank]
              exact (List.dropWhile_suffix _).length_le
            rw [hleading, List.length_cons] at hshorter
            omega
      · intro b hlast
        obtain ⟨front, rfl⟩ := List.getLast?_eq_some_iff.mp hlast
        by_contra hblank
        rw [Bool.not_eq_false] at hblank
        have hshorter : (skipTrailing (front ++ [b])).length ≤ front.length := by
          rw [skipTrailing_append_blank _ hblank]
          exact (List.rdropWhile_prefix _ _).length_le
        rw [htrim, List.length_append, List.length_singleton] at hshorter
        omega
    · rintro ⟨hhead, hlast⟩
      rw [skipLeading_of_head hhead, skipTrailing_of_getLast hlast]

end ToxRelayer
