import ToxRelayer.IniRewrite
import ToxRelayer.SectionedStore

/-!
# The settings file as a document

A line of the file is a heading, an entry, or says nothing.  The names are
compared without their case, so the document has them in lower case.  Reading an
entry looks it up in the document of the file, and writing one puts it there.
-/

namespace ToxRelayer

open CString TextLines SectionedStore

abbrev IniLines := Document (Option Bytes) Bytes Bytes

def lowerCase (name : Bytes) : Bytes := name.map toLower

/-- The value behind the equals sign, as a whole. -/
def textValue (text : Bytes) : Bytes :=
  let cleaned := cleanString (skipLeading text)
  if cleaned.2 = .dequote then dequoteLoop cleaned.1 else cleaned.1

/-- The name of a section; without a closing bracket there is none. -/
def headingName (line : Bytes) : Option Bytes :=
  let heading := throughLast closeBracket (skipLeading line)
  if heading = [] then none else some (lowerCase heading.tail.dropLast)

/-- What a line says. -/
def iniLine (line : Bytes) : Option (Line (Option Bytes) Bytes Bytes) :=
  if isHeading line then some (.heading (headingName line))
  else if isComment line then none
  else
    (splitEntry line).map fun entry =>
      .entry (lowerCase (skipTrailing entry.1)) (textValue entry.2)

def iniLines (text : Bytes) : IniLines := (lines iniBufferSize text).filterMap iniLine

def iniDocument (file : Option CStr) : IniLines := (file.map fun text => iniLines text.val).getD []

/-! ## A line feed behind a line -/

section

variable {line : Bytes}

theorem skipLeading_append_lf (text : Bytes) :
    skipLeading (text ++ [lf]) = [] ∧ skipLeading text = [] ∨
      skipLeading text ≠ [] ∧ skipLeading (text ++ [lf]) = skipLeading text ++ [lf] := by
  rw [skipLeading, List.dropWhile_append, skipLeading]
  cases hrest : text.dropWhile isBlank with
  | nil => exact .inl ⟨rfl, rfl⟩
  | cons b rest => exact .inr ⟨List.cons_ne_nil _ _, rfl⟩

theorem cutAt_append {b c : UInt8} (hne : c ≠ b) (text : Bytes) :
    cutAt b (text ++ [c]) = (cutAt b text).map fun cut => (cut.1, cut.2 ++ [c]) := by
  by_cases hmem : b ∈ text
  · obtain ⟨front, behind, rfl, hfront⟩ := List.eq_append_cons_of_mem hmem
    have hall : ∀ x ∈ front, (x ≠ b : Bool) = true := by
      intro x hx
      rw [decide_eq_true_eq]
      rintro rfl
      exact hfront hx
    rw [cutAt, cutAt, if_pos hmem, if_pos (List.mem_append_left _ hmem), List.append_assoc,
      List.takeWhile_append_of_pos hall, List.takeWhile_append_of_pos hall,
      List.dropWhile_append_of_pos hall, List.dropWhile_append_of_pos hall]
    simp
  · have hlonger : b ∉ text ++ [c] := by simp [hmem, Ne.symm hne]
    rw [cutAt, cutAt, if_neg hmem, if_neg hlonger]
    rfl

theorem cutComment_append_lf (isString : Bool) (text : Bytes) :
    cutComment isString (text ++ [lf]) = cutComment isString text ∨
      cutComment isString (text ++ [lf]) = cutComment isString text ++ [lf] := by
  fun_induction cutComment isString text with
  | case1 isString => exact .inr rfl
  | case2 isString b hcomment =>
      left
      rw [List.singleton_append, cutComment, if_pos hcomment]
  | case3 isString b hplain =>
      right
      rw [List.singleton_append, cutComment, if_neg hplain, if_neg (by simp [lf, quote])]
      split <;> rfl
  | case4 isString b c rest hcomment =>
      left
      rw [List.cons_append, List.cons_append, cutComment, if_pos hcomment]
  | case5 isString b c rest hplain hescape ih =>
      rw [List.cons_append, List.cons_append, cutComment, if_neg hplain, if_pos hescape]
      rcases ih with ih | ih <;> rw [ih]
      · exact .inl rfl
      · exact .inr rfl
  | case6 isString c rest hplain hescape ih =>
      rw [List.cons_append, List.cons_append, cutComment, if_neg hplain, if_neg hescape,
        if_pos rfl, ← List.cons_append]
      rcases ih with ih | ih <;> rw [ih]
      · exact .inl rfl
      · exact .inr rfl
  | case7 isString b c rest hplain hescape hquote ih =>
      rw [List.cons_append, List.cons_append, cutComment, if_neg hplain, if_neg hescape,
        if_neg hquote, ← List.cons_append]
      rcases ih with ih | ih <;> rw [ih]
      · exact .inl rfl
      · exact .inr rfl

theorem textValue_append_lf (text : Bytes) : textValue (text ++ [lf]) = textValue text := by
  have hclean : cleanString (skipLeading (text ++ [lf])) = cleanString (skipLeading text) := by
    rcases skipLeading_append_lf text with ⟨hboth, htext⟩ | ⟨-, hbehind⟩
    · rw [hboth, htext]
    · rw [hbehind, cleanString, cleanString]
      rcases cutComment_append_lf false (skipLeading text) with hcut | hcut <;> rw [hcut]
      rw [skipTrailing_append_blank _ isBlank_lf]
  rw [textValue, textValue, hclean]

theorem splitEntry_append_lf (line : Bytes) :
    splitEntry (line ++ [lf]) = (splitEntry line).map fun entry => (entry.1, entry.2 ++ [lf]) := by
  rcases skipLeading_append_lf line with ⟨hboth, hline⟩ | ⟨-, hbehind⟩
  · rw [splitEntry, splitEntry, hboth, hline]
    rfl
  · rw [splitEntry, splitEntry, hbehind, cutAt_append (by decide), cutAt_append (by decide)]
    cases cutAt equalsSign (skipLeading line) <;> rfl

/-- A line says the same with a line feed behind it. -/
theorem iniLine_append_lf (line : Bytes) : iniLine (line ++ [lf]) = iniLine line := by
  have hentry : ((splitEntry (line ++ [lf])).map fun entry =>
        (.entry (lowerCase (skipTrailing entry.1)) (textValue entry.2) :
          Line (Option Bytes) Bytes Bytes)) =
      (splitEntry line).map fun entry =>
        .entry (lowerCase (skipTrailing entry.1)) (textValue entry.2) := by
    rw [splitEntry_append_lf, Option.map_map]
    congr 1
    funext entry
    exact congrArg _ (textValue_append_lf entry.2)
  rcases skipLeading_append_lf line with ⟨hboth, hline⟩ | ⟨hsome, hbehind⟩
  · rw [iniLine, iniLine, hentry, isHeading, isHeading, isComment, isComment, headingName,
      headingName, hboth, hline]
  · have hheading : isHeading (line ++ [lf]) = isHeading line := by
      rw [isHeading, isHeading, hbehind, List.head?_append_of_ne_nil _ hsome]
    have hcomment : isComment (line ++ [lf]) = isComment line := by
      rw [isComment, isComment, hbehind, List.head?_append_of_ne_nil _ hsome]
    have hname : headingName (line ++ [lf]) = headingName line := by
      rw [headingName, headingName, hbehind, throughLast, List.rdropWhile_concat_pos _ _ _
        (by decide), throughLast]
    rw [iniLine, iniLine, hentry, hheading, hcomment, hname]

/-- The end of a file can be made ready for another line without changing what it says. -/
theorem Ended.filterMap {lines ended : List Bytes} (hended : Ended lines ended) :
    ended.filterMap iniLine = lines.filterMap iniLine := by
  cases hended with
  | same hclosed => rfl
  | blank hclosed =>
      have hblank : iniLine [lf] = none := rfl
      rw [List.filterMap_append, List.filterMap_cons_none hblank, List.filterMap_nil,
        List.append_nil]
  | lineEnd hbefore hclosed =>
      rw [List.filterMap_append, List.filterMap_append, List.filterMap_cons, List.filterMap_cons,
        iniLine_append_lf]

/-! ## What is looked for -/

theorem isSection_iff {sect : Bytes} :
    isSection sect line = true ↔ iniLine line = some (.heading (some (lowerCase sect))) := by
  rw [isSection, iniLine]
  cases isHeading line with
  | false =>
      refine iff_of_false nofun ?_
      simp only [Bool.false_eq_true, if_false]
      split
      · exact nofun
      · rw [Option.map_eq_some_iff]
        exact nofun
  | true =>
      simp only [headingName, sameName, lowerCase, Bool.true_and, Bool.and_eq_true, if_true,
        decide_eq_true_eq, Option.some.injEq, Line.heading.injEq]
      split
      · rename_i hempty
        exact iff_of_false (fun hname => hname.1 hempty) nofun
      · rename_i hsome
        rw [Option.some.injEq]
        exact and_iff_right hsome

/-- What stands for something else at the beginning of a line is no letter. -/
theorem toLower_eq {b c : UInt8} (hc : c = openBracket ∨ c = semicolon ∨ c = hash)
    (hlower : toLower b = toLower c) : b = c := by
  unfold toLower at hlower
  rcases hc with rfl | rfl | rfl <;> split at hlower <;>
    grind [openBracket, semicolon, hash]

theorem namesKey_iff {key : Bytes} : namesKey key line = true ↔
    key ≠ [] ∧ ∃ entry, splitEntry line = some entry ∧
      lowerCase (skipTrailing entry.1) = lowerCase key := by
  rw [namesKey]
  cases splitEntry line with
  | none => simp
  | some entry => simp [sameName, lowerCase]

/-- The name in a line is at its beginning, and the value behind it. -/
theorem cutAt_some {b : UInt8} {text : Bytes} {entry : Bytes × Bytes}
    (hcut : cutAt b text = some entry) : entry.1 <+: text ∧ entry.2.length ≤ text.length := by
  rw [cutAt] at hcut
  split at hcut
  · rw [← Option.some.inj hcut, List.length_tail]
    have hlength := (List.dropWhile_suffix (l := text) (· ≠ b)).length_le
    exact ⟨List.takeWhile_prefix _, (Nat.sub_le _ _).trans hlength⟩
  · cases hcut

theorem splitEntry_cases {entry : Bytes × Bytes} (hsplit : splitEntry line = some entry) :
    ∃ b, cutAt b (skipLeading line) = some entry := by
  rw [splitEntry] at hsplit
  cases hequals : cutAt equalsSign (skipLeading line) with
  | some first =>
      rw [hequals] at hsplit
      exact ⟨equalsSign, hequals.trans hsplit⟩
  | none =>
      rw [hequals] at hsplit
      exact ⟨colon, hsplit⟩

/-- A line with the name of an entry is neither a heading nor a comment. -/
theorem namesKey_head {key : Bytes} (hkey : IniKey key) (hnames : namesKey key line = true) :
    isHeading line = false ∧ isComment line = false := by
  obtain ⟨-, entry, hsplit, hname⟩ := namesKey_iff.mp hnames
  obtain ⟨b, hcut⟩ := splitEntry_cases hsplit
  have hprefix : skipTrailing entry.1 <+: skipLeading line :=
    (List.rdropWhile_prefix _ _).trans (cutAt_some hcut).1
  cases hfirst : key with
  | nil => exact absurd hfirst hkey.nonempty
  | cons c key' =>
      obtain ⟨-, hbracket, hsemicolon, hhash⟩ := hkey.first c (by rw [hfirst]; rfl)
      rw [hfirst] at hname
      cases hfront : skipTrailing entry.1 with
      | nil =>
          rw [hfront] at hname
          cases hname
      | cons b rest =>
          rw [hfront] at hname hprefix
          have hlower : toLower b = toLower c := (List.cons.inj hname).1
          have hhead : (skipLeading line).head? = some b := by
            obtain ⟨behind, hline⟩ := hprefix
            rw [← hline]
            rfl
          rw [isHeading, isComment, hhead]
          simp only [Option.some.injEq, decide_eq_false_iff_not, Bool.or_eq_false_iff]
          refine ⟨?_, ?_, ?_⟩ <;> rintro rfl
          · exact hbracket (toLower_eq (.inl rfl) hlower.symm)
          · exact hsemicolon (toLower_eq (.inr (.inl rfl)) hlower.symm)
          · exact hhash (toLower_eq (.inr (.inr rfl)) hlower.symm)

/-! ## The value of a line -/

def entryValue (line : Bytes) : Bytes :=
  ((splitEntry line).map fun entry => textValue entry.2).getD []

theorem cleanString_option (text : Bytes) :
    (cleanString text).2 = .dequote ∨ (cleanString text).2 = .none := by
  rw [cleanString]
  split
  · exact .inl rfl
  · exact .inr rfl

theorem lineValue_eq (line : Bytes) (bufferSize : ℕ) :
    lineValue line bufferSize = (entryValue line).take (bufferSize - 1) := by
  rw [lineValue, entryValue]
  cases splitEntry line with
  | none => exact List.take_nil.symm
  | some entry =>
      dsimp only [Option.map_some, Option.getD_some]
      rw [textValue]
      rcases cleanString_option (skipLeading entry.2) with hoption | hoption <;>
        simp [hoption, iniStrncpy]

theorem cutComment_length (isString : Bool) (text : Bytes) :
    (cutComment isString text).length ≤ text.length := by
  fun_induction cutComment isString text <;> simp_all

theorem dequoteLoop_length (text : Bytes) : (dequoteLoop text).length ≤ text.length := by
  fun_induction dequoteLoop text <;> grind

theorem cleanString_length (text : Bytes) : (cleanString text).1.length ≤ text.length := by
  have hcut : (skipTrailing (cutComment false text)).length ≤ text.length :=
    (List.rdropWhile_prefix _ _).length_le.trans (cutComment_length false text)
  rw [cleanString]
  split
  · rw [List.length_dropLast, List.length_tail]
    omega
  · exact hcut

theorem textValue_length (text : Bytes) : (textValue text).length ≤ text.length := by
  have hclean := (cleanString_length (skipLeading text)).trans
    (List.dropWhile_suffix isBlank).length_le
  rw [textValue]
  split
  · exact (dequoteLoop_length _).trans hclean
  · exact hclean

theorem entryValue_length (line : Bytes) : (entryValue line).length ≤ line.length := by
  rw [entryValue]
  cases hsplit : splitEntry line with
  | none => exact Nat.zero_le _
  | some entry =>
      obtain ⟨b, hcut⟩ := splitEntry_cases hsplit
      calc (textValue entry.2).length ≤ entry.2.length := textValue_length _
        _ ≤ (skipLeading line).length := (cutAt_some hcut).2
        _ ≤ line.length := (List.dropWhile_suffix _).length_le

theorem iniLine_of_namesKey {key : Bytes} (hkey : IniKey key) (hnames : namesKey key line = true) :
    iniLine line = some (.entry (lowerCase key) (entryValue line)) := by
  obtain ⟨hheading, hcomment⟩ := namesKey_head hkey hnames
  obtain ⟨-, entry, hsplit, hname⟩ := namesKey_iff.mp hnames
  rw [iniLine, hheading, hcomment, entryValue, hsplit]
  simp only [Bool.false_eq_true, if_false, Option.map_some, Option.getD_some, hname]

/-- A line that is passed over has another key. -/
theorem iniLine_of_passed {key : Bytes} (hkey : key ≠ [])
    (hpassed : (namesKey key line || isHeading line) = false)
    {said : Line (Option Bytes) Bytes Bytes} (hsaid : iniLine line = some said) :
    ∃ name value, said = .entry name value ∧ name ≠ lowerCase key := by
  obtain ⟨hnames, hheading⟩ := Bool.or_eq_false_iff.mp hpassed
  rw [iniLine, hheading] at hsaid
  simp only [Bool.false_eq_true, if_false] at hsaid
  split at hsaid
  · cases hsaid
  · obtain ⟨entry, hsplit, rfl⟩ := Option.map_eq_some_iff.mp hsaid
    refine ⟨_, _, rfl, fun hname => ?_⟩
    rw [namesKey_iff.mpr ⟨hkey, entry, hsplit, hname⟩] at hnames
    cases hnames

end

section

variable {sect key : Bytes} {lines before within after : List Bytes} {heading line : Bytes}

theorem outside_filterMap (hbefore : ∀ line ∈ before, isSection sect line = false) :
    Outside (some (lowerCase sect)) (before.filterMap iniLine) := by
  intro hmem
  obtain ⟨line, hline, hsaid⟩ := List.mem_filterMap.mp hmem
  exact absurd (isSection_iff.mpr hsaid) (by simp [hbefore line hline])

theorem skipped_filterMap (hkey : key ≠ [])
    (hwithin : ∀ line ∈ within, (namesKey key line || isHeading line) = false) :
    Skipped (lowerCase key) (within.filterMap iniLine) := by
  intro said hsaid
  obtain ⟨line, hline, hsaid⟩ := List.mem_filterMap.mp hsaid
  exact iniLine_of_passed hkey (hwithin line hline) hsaid

/-- Putting a line puts what it says into the document. -/
theorem IniPut.document {written value : Bytes} {put : List Bytes} (hkey : IniKey key)
    (hsect : iniLine (writeSection sect) = some (.heading (some (lowerCase sect))))
    (hwritten : iniLine written = some (.entry (lowerCase key) value))
    (hput : IniPut sect key written lines put) :
    put.filterMap iniLine =
      SectionedStore.put (some (lowerCase sect)) (lowerCase key) value
        (lines.filterMap iniLine) := by
  cases hput with
  | @replaced before within after heading line hbefore hheading hwithin hnames hline =>
      have hold := iniLine_of_namesKey hkey hnames
      rw [isSection_iff] at hheading
      simp only [List.filterMap_append, List.filterMap_cons, hheading, hold, hwritten]
      rw [put_section (outside_filterMap hbefore) (skipped_filterMap hkey.nonempty hwithin),
        putKey, if_pos rfl]
  | @inserted before within after heading line hbefore hheading hwithin hline =>
      have hnext : iniLine line = some (.heading (headingName line)) := by
        rw [iniLine, hline]
        rfl
      rw [isSection_iff] at hheading
      simp only [List.filterMap_append, List.filterMap_cons, hheading, hnext, hwritten]
      rw [put_section (outside_filterMap hbefore) (skipped_filterMap hkey.nonempty hwithin), putKey]
  | @added before within ended heading hbefore hheading hwithin hended =>
      rw [isSection_iff] at hheading
      rw [List.filterMap_append, hended.filterMap]
      simp only [List.filterMap_append, List.filterMap_cons, hheading, hwritten,
        List.filterMap_nil]
      rw [put_section_end (outside_filterMap hbefore) (skipped_filterMap hkey.nonempty hwithin)]
      simp
  | @sectionAdded _ ended hlines hended =>
      rw [List.filterMap_append, hended.filterMap, put_missing (outside_filterMap hlines)]
      simp only [List.filterMap_cons, hsect, hwritten, List.filterMap_nil]

end

end ToxRelayer
