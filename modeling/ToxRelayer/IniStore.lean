import ToxRelayer.IniDocument

/-!
# Settings that are put and read

`ini_gets` looks an entry up in the document of the file and `ini_puts` puts it
there, whichever way it takes: over a new file, in place, through the temporary
file, or not at all where the value is there already.  So after any number of
puts every entry is read as it was put last.
-/

namespace ToxRelayer

open CString TextLines SectionedStore

def iniPlace (sect key : Bytes) : Option Bytes × Bytes := (some (lowerCase sect), lowerCase key)

/-- A put that is read back as it is. -/
structure IniWrite where
  sect : Bytes
  key : Bytes
  value : Bytes
  heading : IniHeading sect
  setting : IniSetting key value
  kept : iniReadBack value = value

/-- What a put may come to: the entry is in the document, or the file is as it was. -/
structure IniWrite.Outcome (write : IniWrite) (io : IniAccess) (file : Option CStr) (ok : Bool)
    (file' : Option CStr) : Prop where
  done : io.Keeps → ok = true → iniDocument file' =
    SectionedStore.put (some (lowerCase write.sect)) (lowerCase write.key) write.value
      (iniDocument file)
  failed : ok = false → file' = file
  possible : io.writable = true → io.tempWritable = true → ok = true

/-- What a put says. -/
def IniWrite.put (write : IniWrite) : Put (Option Bytes) Bytes Bytes :=
  ⟨some (lowerCase write.sect), lowerCase write.key, write.value⟩

/-- The file after a number of puts. -/
def iniWriteAll (io : IniAccess) (writes : List IniWrite) (file : Option CStr) : Option CStr :=
  writes.foldl (fun file write => (iniStore io).puts file write.sect write.key write.value) file

/-! ## Reading -/

section

variable {sect key value : Bytes} {rows : List Bytes}

/-- Where `getkeystring` finds the entry, or that there is none. -/
theorem getKeyString_lines (hsect : sect ≠ []) (hkey : IniKey key)
    (htext : IsText iniBufferSize rows) (bufferSize : ℕ) :
    (∃ before line after, rows = before ++ line :: after ∧
      getKeyString sect key bufferSize rows.flatten =
        some ⟨lineValue line bufferSize, (line :: after).flatten, after.flatten⟩ ∧
      iniLine line = some (.entry (lowerCase key) (entryValue line)) ∧
      lookup (some (lowerCase sect)) (lowerCase key) (rows.filterMap iniLine) =
        some (entryValue line) ∧
      ∀ written, IniPut sect key written rows (before ++ written :: after)) ∨
    (getKeyString sect key bufferSize rows.flatten = none ∧
      lookup (some (lowerCase sect)) (lowerCase key) (rows.filterMap iniLine) = none) := by
  have hstop : (fun line => isHeading line || (!isComment line && namesKey key line)) =
      fun line => namesKey key line || isHeading line := by
    funext line
    cases hnames : namesKey key line with
    | true => simp [(namesKey_head hkey hnames).2]
    | false => simp
  have hlength := htext.length_le
  rw [getKeyString, if_neg hsect, hstop]
  rcases exists_first (isSection sect) rows with
    hnone | ⟨before, heading, rest, rfl, hbefore, hheading⟩
  · right
    rw [htext.seek_none hnone, lookup_missing (outside_filterMap hnone)]
    exact ⟨rfl, rfl⟩
  · rw [List.length_append] at hlength
    have hrest : IsText iniBufferSize rest := htext.right.tail
    rw [htext.seek_some hbefore hheading (Nat.lt_succ_of_le (Nat.le_of_add_right_le hlength)),
      Option.map_some]
    have hsays := isSection_iff.mp hheading
    rcases exists_first (fun line => namesKey key line || isHeading line) rest with
      hwithin | ⟨within, line, after, rfl, hwithin, hline⟩
    · right
      dsimp only
      rw [hrest.seek_none hwithin]
      refine ⟨rfl, ?_⟩
      rw [List.filterMap_append, List.filterMap_cons_some hsays,
        lookup_section_end (outside_filterMap hbefore) (skipped_filterMap hkey.nonempty hwithin)]
    · dsimp only
      have hrounds : within.length < (within ++ line :: after).flatten.length + 1 := by
        have hle := hrest.left.length_le
        rw [List.flatten_append, List.length_append]
        omega
      rw [hrest.seek_some hwithin hline hrounds]
      dsimp only
      have hskipped := skipped_filterMap hkey.nonempty hwithin
      cases hisHeading : isHeading line with
      | true =>
          right
          have hnext : iniLine line = some (.heading (headingName line)) := by
            rw [iniLine, hisHeading]
            rfl
          refine ⟨rfl, ?_⟩
          rw [List.filterMap_append, List.filterMap_cons_some hsays, List.filterMap_append,
            List.filterMap_cons_some hnext, lookup_section (outside_filterMap hbefore) hskipped,
            lookupKey]
      | false =>
          left
          rw [hisHeading, Bool.or_false] at hline
          have hsaid := iniLine_of_namesKey hkey hline
          refine ⟨before ++ heading :: within, line, after, by simp, rfl, hsaid, ?_, ?_⟩
          · rw [List.filterMap_append, List.filterMap_cons_some hsays, List.filterMap_append,
              List.filterMap_cons_some hsaid, lookup_section (outside_filterMap hbefore) hskipped,
              lookupKey, if_pos rfl]
          · intro written
            rw [List.append_assoc, List.cons_append]
            exact .replaced hbefore hheading hwithin hline hisHeading

theorem iniDocument_some (text : CStr) : iniDocument (some text) = iniLines text.val := rfl

theorem lines_file (text : CStr) :
    IsText iniBufferSize (lines iniBufferSize text.val) ∧
      (lines iniBufferSize text.val).flatten = text.val :=
  ⟨lines_isText (by decide) text.val, lines_flatten (by decide) text.val⟩

/-- Reading looks the entry up. -/
theorem iniGets_eq (hsect : sect ≠ []) (hkey : IniKey key) (default : Bytes) (bufferSize : ℕ)
    (file : Option CStr) :
    iniGets sect key default bufferSize file =
      ((contents (iniDocument file) (iniPlace sect key)).getD default).take (bufferSize - 1) := by
  cases file with
  | none => rfl
  | some text =>
      obtain ⟨htext, hflatten⟩ := lines_file text
      rw [iniGets, Option.bind_some, contents, iniDocument_some, iniLines, iniPlace]
      rcases getKeyString_lines hsect hkey htext bufferSize with
        ⟨before, line, after, -, hget, -, hlookup, -⟩ | ⟨hget, hlookup⟩
      · rw [hflatten] at hget
        rw [hget, hlookup, Option.getD_some]
        exact lineValue_eq line bufferSize
      · rw [hflatten] at hget
        rw [hget, hlookup]
        rfl

/-! ## The lines that are written -/

theorem IniHeading.writeSection_eq (hsect : IniHeading sect) :
    writeSection sect = openBracket :: sect ++ [closeBracket, lf] := by
  have hfits := hsect.fits
  rw [writeSection, if_neg hsect.nonempty, List.take_of_length_le (by omega)]

theorem IniHeading.closed (hsect : IniHeading sect) :
    Closed iniBufferSize (writeSection sect) := by
  have hfits := hsect.fits
  have hsplit : openBracket :: sect ++ [closeBracket, lf] =
      (openBracket :: sect ++ [closeBracket]) ++ [lf] := by simp
  rw [hsect.writeSection_eq, hsplit]
  refine ⟨⟨by simp, ?_, ?_⟩, .inl List.getLast?_concat⟩
  · rw [List.dropLast_concat, List.mem_append, List.mem_cons, List.mem_singleton]
    simp only [not_or]
    exact ⟨⟨by decide, hsect.oneLine⟩, by decide⟩
  · simp only [List.length_append, List.length_cons, List.length_nil]
    omega

theorem IniHeading.nulFree_writeSection (hsect : IniHeading sect) :
    (0 : UInt8) ∉ writeSection sect := by
  rw [hsect.writeSection_eq]
  have hnul := hsect.nulFree
  simp [hnul, openBracket, closeBracket, lf]

theorem IniHeading.iniLine (hsect : IniHeading sect) :
    iniLine (writeSection sect) = some (.heading (some (lowerCase sect))) := by
  have hskip : skipLeading (openBracket :: sect ++ [closeBracket, lf]) =
      openBracket :: sect ++ [closeBracket] ++ [lf] := by
    rw [skipLeading_of_head]
    · simp
    · intro b hhead
      obtain rfl : openBracket = b := by simpa using hhead
      decide
  have hlast : throughLast closeBracket (openBracket :: sect ++ [closeBracket] ++ [lf]) =
      openBracket :: sect ++ [closeBracket] := by
    rw [throughLast, List.rdropWhile_concat_pos _ _ _ (by decide),
      List.rdropWhile_concat_neg _ _ _ (by simp)]
  rw [← isSection_iff, isSection, isHeading, hsect.writeSection_eq, hskip, hlast]
  simp [sameName]

/-- The line of a setting says its value. -/
theorem IniSetting.iniLine (hsetting : IniSetting key value) :
    iniLine (writeKey key value) = some (.entry (lowerCase key) (iniReadBack value)) := by
  have hnames : namesKey key (writeKey key value) = true := by
    rw [hsetting.writeKey_eq, List.append_assoc, List.cons_append, hsetting.named.namesKey]
    simp [hsetting.named.nonempty, sameName]
  have hvalue : entryValue (writeKey key value) = iniReadBack value := by
    -- a buffer that holds both
    have hread := hsetting.lineValue
      ((entryValue (writeKey key value)).length + (iniReadBack value).length + 1)
    rwa [lineValue_eq, Nat.add_sub_cancel, List.take_of_length_le (Nat.le_add_right _ _),
      List.take_of_length_le (Nat.le_add_left _ _)] at hread
  rw [iniLine_of_namesKey hsetting.named hnames, hvalue]

/-- The new lines are read again as they are. -/
theorem IniPut.isText {written : Bytes} {put : List Bytes} (hsect : IniHeading sect)
    (hwritten : Closed iniBufferSize written) (htext : IsText iniBufferSize rows)
    (hput : IniPut sect key written rows put) : IsText iniBufferSize put := by
  cases hput with
  | @replaced before within after heading line =>
      have hsplit : before ++ heading :: (within ++ line :: after) =
          (before ++ heading :: within) ++ line :: after := by simp
      rw [hsplit] at htext
      have hafter : IsText iniBufferSize ([written] ++ after) :=
        IsText.append (List.forall_mem_singleton.mpr hwritten) htext.right.tail
      have hall := IsText.append htext.closed hafter
      rwa [List.append_assoc, List.cons_append] at hall
  | @inserted before within after heading line =>
      have hsplit : before ++ heading :: (within ++ line :: after) =
          (before ++ heading :: within) ++ line :: after := by simp
      rw [hsplit] at htext
      have hafter : IsText iniBufferSize ([written] ++ line :: after) :=
        IsText.append (List.forall_mem_singleton.mpr hwritten) htext.right
      have hall := IsText.append htext.closed hafter
      rwa [List.append_assoc, List.cons_append] at hall
  | added hbefore hheading hwithin hended =>
      exact IsText.append hended.closed hwritten.toPiece
  | sectionAdded hlines hended =>
      exact IsText.append hended.closed ⟨hsect.closed, hwritten.toPiece⟩

theorem Ended.mem {ended : List Bytes} (hended : Ended rows ended) {b : UInt8}
    (hmem : b ∈ ended.flatten) : b ∈ rows.flatten ∨ b = lf := by
  cases hended with
  | same hclosed => exact .inl hmem
  | blank hclosed => simpa using hmem
  | lineEnd hbefore hclosed => simpa [or_assoc] using hmem

/-- Putting a line adds nothing but this line and line ends. -/
theorem IniPut.mem {written : Bytes} {put : List Bytes} (hput : IniPut sect key written rows put)
    {b : UInt8} (hmem : b ∈ put.flatten) :
    b ∈ rows.flatten ∨ b ∈ written ∨ b ∈ writeSection sect ∨ b = lf := by
  cases hput with
  | replaced =>
      simp only [List.flatten_append, List.flatten_cons, List.mem_append] at hmem ⊢
      tauto
  | inserted =>
      simp only [List.flatten_append, List.flatten_cons, List.mem_append] at hmem ⊢
      tauto
  | added hbefore hheading hwithin hended =>
      rw [List.flatten_append, List.flatten_singleton, List.mem_append] at hmem
      rcases hmem with hmem | hmem
      · rcases hended.mem hmem with hold | hold
        · exact .inl hold
        · exact .inr (.inr (.inr hold))
      · exact .inr (.inl hmem)
  | sectionAdded hlines hended =>
      rw [List.flatten_append, List.flatten_cons, List.flatten_singleton, List.mem_append,
        List.mem_append] at hmem
      rcases hmem with hmem | hmem | hmem
      · rcases hended.mem hmem with hold | hold
        · exact .inl hold
        · exact .inr (.inr (.inr hold))
      · exact .inr (.inr (.inl hmem))
      · exact .inr (.inl hmem)

end

/-! ## Writing -/

section

variable {rows : List Bytes}

/-- A file with a line put into it has its entry in the document. -/
theorem IniWrite.document (write : IniWrite) (htext : IsText iniBufferSize rows)
    (hnul : (0 : UInt8) ∉ rows.flatten) {put : List Bytes}
    (hput : IniPut write.sect write.key (writeKey write.key write.value) rows put) :
    iniDocument (some (.ofBuffer put.flatten)) =
      SectionedStore.put (some (lowerCase write.sect)) (lowerCase write.key) write.value
        (rows.filterMap iniLine) := by
  have hfree : (0 : UInt8) ∉ put.flatten := by
    intro hmem
    rcases hput.mem hmem with hold | hold | hold | hold
    · exact hnul hold
    · exact write.setting.writeKey_nulFree hold
    · exact write.heading.nulFree_writeSection hold
    · cases hold
  have hlines := hput.isText write.heading write.setting.closed htext
  have hsaid := write.setting.iniLine
  rw [write.kept] at hsaid
  rw [iniDocument_some, CStr.ofBuffer_val_of_nulFree hfree, iniLines, hlines.lines_eq]
  exact hput.document write.setting.named write.heading.iniLine hsaid

theorem IniWrite.Outcome.refused {write : IniWrite} {io : IniAccess} {file : Option CStr}
    (hno : ¬ (io.writable = true ∧ io.tempWritable = true)) :
    write.Outcome io file false file where
  done := fun _ => nofun
  failed := fun _ => rfl
  possible := fun hwritable htemp => absurd ⟨hwritable, htemp⟩ hno

/-- Writing the temporary file in place of the old one. -/
theorem IniWrite.rewrite (write : IniWrite) (io : IniAccess) (text : CStr) :
    ∃ ok file', (if io.tempWritable then
        (iniRewrite write.sect write.key write.value text.val).map
          fun out => (true, closeRename io text out)
      else some (false, some text)) = some (ok, file') ∧ write.Outcome io (some text) ok file' := by
  obtain ⟨htext, hflatten⟩ := lines_file text
  cases htemp : io.tempWritable with
  | false => exact ⟨false, some text, rfl, .refused (by simp [htemp])⟩
  | true =>
      obtain ⟨put, hrewrite, hput⟩ :=
        iniRewrite_lines write.heading.nonempty write.key write.value htext
      rw [hflatten] at hrewrite
      refine ⟨true, _, by rw [if_pos rfl, hrewrite, Option.map_some], ?_, nofun, fun _ _ => rfl⟩
      intro hio _
      rw [closeRename, if_pos hio.renamed, hio.stored]
      exact write.document htext (by rw [hflatten]; exact text.nulFree) hput

theorem IniAccess.Keeps.read {io : IniAccess} (hio : io.Keeps) (file : Option CStr) :
    io.read file = file :=
  if_pos hio.readable

theorem IniAccess.read_eq_some (io : IniAccess) {file : Option CStr} {text : CStr}
    (hread : io.read file = some text) : file = some text := by
  rw [IniAccess.read] at hread
  split at hread
  · exact hread
  · cases hread

/-- Writing a new file where there is none to read. -/
theorem IniWrite.create (write : IniWrite) {io : IniAccess} {file : Option CStr}
    (hread : io.read file = none) :
    ∃ ok file', (if io.writable then
        some (true, some (.ofBuffer (io.stored
          (writeSection write.sect ++ writeKey write.key write.value))))
      else some (false, file)) = some (ok, file') ∧ write.Outcome io file ok file' := by
  cases hwritable : io.writable with
  | false => exact ⟨false, file, rfl, .refused (by simp [hwritable])⟩
  | true =>
      refine ⟨true, _, rfl, ?_, nofun, fun _ _ => rfl⟩
      intro hio _
      obtain rfl : file = none := by rw [← hread, hio.read]
      rw [hio.stored]
      have hput : IniPut write.sect write.key (writeKey write.key write.value) []
          ([] ++ [writeSection write.sect, writeKey write.key write.value]) :=
        .sectionAdded nofun (.same nofun)
      have htext : IsText iniBufferSize [] := trivial
      have hdocument := write.document htext List.not_mem_nil hput
      simpa [iniDocument] using hdocument

/-- Writing a line of the same length over the old one. -/
theorem IniWrite.overwrite (write : IniWrite) (io : IniAccess) {text : CStr}
    {before after : List Bytes} {line old : Bytes}
    (hlines : lines iniBufferSize text.val = before ++ line :: after)
    (hput : IniPut write.sect write.key (writeKey write.key write.value)
      (lines iniBufferSize text.val) (before ++ writeKey write.key write.value :: after)) :
    ∃ ok file', (if io.writable then
        some (true, some (.ofBuffer
          (text.val.take (text.val.length - (line :: after).flatten.length) ++
            io.overwritten old (writeKey write.key write.value) ++ after.flatten)))
      else some (false, some text)) = some (ok, file') ∧ write.Outcome io (some text) ok file' := by
  obtain ⟨htext, hflatten⟩ := lines_file text
  cases hwritable : io.writable with
  | false => exact ⟨false, some text, rfl, .refused (by simp [hwritable])⟩
  | true =>
      refine ⟨true, _, rfl, ?_, nofun, fun _ _ => rfl⟩
      intro hio _
      have hfront : text.val.take (text.val.length - (line :: after).flatten.length) =
          before.flatten := by
        rw [← hflatten, hlines, List.flatten_append, List.length_append, Nat.add_sub_cancel,
          List.take_left]
      have hdocument := write.document htext (by rw [hflatten]; exact text.nulFree) hput
      rw [hio.overwritten, hfront, iniDocument_some text, iniLines]
      simpa using hdocument

theorem IniWrite.outcome (write : IniWrite) (io : IniAccess) (file : Option CStr) :
    ∃ ok file', iniPuts io write.sect write.key write.value file = some (ok, file') ∧
      write.Outcome io file ok file' := by
  rw [ToxRelayer.iniPuts]
  cases hread : io.read file with
  | none => exact write.create hread
  | some text =>
      obtain rfl := io.read_eq_some hread
      obtain ⟨htext, hflatten⟩ := lines_file text
      dsimp only
      rcases getKeyString_lines write.heading.nonempty write.setting.named htext iniBufferSize with
        ⟨before, line, after, hlines, hget, hsaid, -, hput⟩ | ⟨hget, -⟩
      · rw [hflatten] at hget
        rw [hget]
        have hline : (entryValue line).length ≤ iniBufferSize - 1 := by
          have hpiece : Piece iniBufferSize line :=
            htext.piece (by rw [hlines]; exact List.mem_append_right _ List.mem_cons_self)
          have hfits := hpiece.fits
          have hshorter := entryValue_length line
          omega
        dsimp only
        rw [lineValue_eq, List.take_of_length_le hline]
        split
        · -- the value is there already: its line stands for the new one
          rename_i hsame
          rw [hsame] at hsaid
          refine ⟨true, some text, rfl, fun _ _ => ?_, nofun, fun _ _ => rfl⟩
          have hdocument :=
            (hput line).document write.setting.named write.heading.iniLine hsaid
          rwa [← hlines] at hdocument
        · split
          · exact write.overwrite io hlines (hput (writeKey write.key write.value))
          · exact write.rewrite io text
      · rw [hflatten] at hget
        rw [hget]
        exact write.rewrite io text

/-- `ini_puts` always comes to its end.  Where it reports success and nothing that was written was
lost, the entry has been put into the document of the file; where it reports failure the file is as
it was.  It reports success when the files can be opened for writing. -/
theorem iniPuts_document (io : IniAccess) (write : IniWrite) (file : Option CStr) :
    ∃ ok file', iniPuts io write.sect write.key write.value file = some (ok, file') ∧
      (io.Keeps → ok = true → contents (iniDocument file') =
        Function.update (contents (iniDocument file)) (iniPlace write.sect write.key)
          (some write.value)) ∧
      (ok = false → file' = file) ∧
      (io.writable = true → io.tempWritable = true → ok = true) := by
  obtain ⟨ok, file', hputs, houtcome⟩ := write.outcome io file
  refine ⟨ok, file', hputs, fun hio hok => ?_, houtcome.failed, houtcome.possible⟩
  rw [houtcome.done hio hok, contents_put, iniPlace]

section

variable {io : IniAccess} (hworks : io.Works)

include hworks

theorem iniDocument_puts (write : IniWrite) (file : Option CStr) :
    iniDocument ((iniStore io).puts file write.sect write.key write.value) =
      SectionedStore.put (some (lowerCase write.sect)) (lowerCase write.key) write.value
        (iniDocument file) := by
  obtain ⟨ok, file', hputs, houtcome⟩ := write.outcome io file
  have hstore : (iniStore io).puts file write.sect write.key write.value = file' := by
    calc _ = ((iniPuts io write.sect write.key write.value file).map (·.2)).getD file := rfl
      _ = file' := by rw [hputs]; rfl
  rw [hstore, houtcome.done hworks.toKeeps
    (houtcome.possible hworks.writable hworks.tempWritable)]

/-- The file after any puts has all of them in its document. -/
theorem iniDocument_iniWriteAll (writes : List IniWrite) (file : Option CStr) :
    iniDocument (iniWriteAll io writes file) =
      putAll (writes.map IniWrite.put) (iniDocument file) := by
  induction writes generalizing file with
  | nil => rfl
  | cons write writes ih =>
      rw [iniWriteAll, List.foldl_cons, ← iniWriteAll, ih, iniDocument_puts hworks]
      rfl

/-- After a put the entry has the value, and every other one is read as before. -/
theorem iniStore_gets_puts (write : IniWrite) (file : Option CStr) {sect key : Bytes}
    (hsect : sect ≠ []) (hkey : IniKey key) (default : Bytes) (bufferSize : ℕ) :
    (iniStore io).gets ((iniStore io).puts file write.sect write.key write.value) sect key default
        bufferSize =
      if iniPlace sect key = iniPlace write.sect write.key then
        .ofBuffer (write.value.take (bufferSize - 1))
      else (iniStore io).gets file sect key default bufferSize := by
  have hread (file : Option CStr) : (iniStore io).gets file sect key default bufferSize =
      .ofBuffer (((contents (iniDocument file) (iniPlace sect key)).getD default).take
        (bufferSize - 1)) := by
    calc (iniStore io).gets file sect key default bufferSize =
          .ofBuffer (iniGets sect key default bufferSize (io.read file)) := rfl
      _ = _ := by rw [hworks.read, iniGets_eq hsect hkey]
  rw [hread, hread, iniDocument_puts hworks, contents_put,
    show (some (lowerCase write.sect), lowerCase write.key) = iniPlace write.sect write.key
      from rfl]
  by_cases hplace : iniPlace sect key = iniPlace write.sect write.key
  · rw [if_pos hplace, hplace, Function.update_self, Option.getD_some]
  · rw [if_neg hplace, Function.update_of_ne hplace]

/-- After any puts an entry is read as it was put last, and else as it was in the file. -/
theorem iniGets_iniWriteAll (writes : List IniWrite) (file : Option CStr) {sect key : Bytes}
    (hsect : sect ≠ []) (hkey : IniKey key) (default : Bytes) (bufferSize : ℕ) :
    iniGets sect key default bufferSize (iniWriteAll io writes file) =
      match lastPut (writes.map IniWrite.put) (iniPlace sect key) with
      | some value => value.take (bufferSize - 1)
      | none => iniGets sect key default bufferSize file := by
  rw [iniGets_eq hsect hkey, iniDocument_iniWriteAll hworks, contents_putAll]
  cases lastPut (writes.map IniWrite.put) (iniPlace sect key) with
  | some value => rfl
  | none =>
      rw [iniGets_eq hsect hkey]
      rfl

end

end

theorem iniKey_title : IniKey (bytes "title") where
  nonempty := by decide
  nulFree := by decide
  oneLine := by decide
  noEquals := by decide
  first := by rintro b ⟨⟩; decide
  last := by rintro b ⟨⟩; decide

/-- A value that is written in quotes. -/
def quotedWrite : IniWrite where
  sect := bytes "relay"
  key := bytes "title"
  value := bytes "a; \"b\""
  heading := ⟨by decide, by decide, by decide, by decide⟩
  setting := {
    named := iniKey_title
    nulFree := by decide
    oneLine := by decide
    fits := by decide }
  kept := by decide

/-- It is read back, and the entry of the same name in another section is not. -/
theorem iniGets_iniWriteAll_quoted :
    iniGets (bytes "Relay") (bytes "TITLE") [] 128
        (iniWriteAll .reliable [quotedWrite] (some (.ofBuffer (bytes "[b]\ntitle = 1")))) =
      bytes "a; \"b\"" :=
  iniGets_iniWriteAll IniAccess.reliable_works [quotedWrite] _ (List.cons_ne_nil _ _)
    ⟨by decide, by decide, by decide, by decide, by rintro b ⟨⟩; decide, by rintro b ⟨⟩; decide⟩
    [] 128

end ToxRelayer
