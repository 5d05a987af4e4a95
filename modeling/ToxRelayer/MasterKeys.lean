import ToxRelayer.Commands

/-!
# What `/master` writes and what the master check reads

`cmd_master` appends its argument and a line feed when the argument has the
length of a Tox ID.  `file_contains_key` reads lines, wants hex digits all the
way to the end of a line, and knows nothing of where one write ended and the
next began: behind a last line without a line feed the argument is read as the
rest of that line.
-/

namespace ToxRelayer

open CString

/-! ## Lines of a file that grows -/

/-- The lines `fgets` has read completely, and what it has of the next one. -/
def fgetsSplit (size : ℕ) : Bytes → Bytes → List Bytes × Bytes
  | line, [] => ([], line)
  | line, b :: rest =>
      if b = lf ∨ line.length + 2 = size then
        ((line ++ [b]) :: (fgetsSplit size [] rest).1, (fgetsSplit size [] rest).2)
      else fgetsSplit size (line ++ [b]) rest

/-- The complete lines are read as before whatever is appended. -/
theorem fgetsAll_append (size : ℕ) (line text more : Bytes) :
    fgetsAll size line (text ++ more) =
      (fgetsSplit size line text).1 ++ fgetsAll size (fgetsSplit size line text).2 more := by
  induction text generalizing line with
  | nil => rfl
  | cons b text ih =>
      rw [List.cons_append, fgetsAll, fgetsSplit]
      split
      · rw [ih, List.cons_append]
      · exact ih (line ++ [b])

theorem fgetsAll_eq_split (size : ℕ) (text : Bytes) :
    fgetsAll size [] text = (fgetsSplit size [] text).1 ++
      if (fgetsSplit size [] text).2 = [] then [] else [(fgetsSplit size [] text).2] := by
  have happend := fgetsAll_append size [] text []
  rwa [List.append_nil, fgetsAll] at happend

/-- A line that fits is read in one piece. -/
theorem fgetsAll_line {size : ℕ} {line text : Bytes} (rest : Bytes) (htext : lf ∉ text)
    (hfits : line.length + text.length + 1 < size) :
    fgetsAll size line (text ++ lf :: rest) = (line ++ text ++ [lf]) :: fgetsAll size [] rest := by
  induction text generalizing line with
  | nil => simp [fgetsAll]
  | cons b text ih =>
      rw [List.mem_cons, not_or] at htext
      rw [List.length_cons] at hfits
      rw [List.cons_append, fgetsAll, if_neg, ih htext.2]
      · simp
      · rw [List.length_append, List.length_singleton]
        omega
      · rw [not_or]
        exact ⟨Ne.symm htext.1, by omega⟩

theorem length_le_of_mem_fgetsAll {size : ℕ} {line text chunk : Bytes}
    (hchunk : chunk ∈ fgetsAll size line text) : chunk.length ≤ line.length + text.length := by
  induction text generalizing line with
  | nil =>
      rw [fgetsAll] at hchunk
      split at hchunk
      · cases hchunk
      · rw [List.mem_singleton.mp hchunk]
        exact Nat.le_add_right _ _
  | cons b text ih =>
      rw [fgetsAll] at hchunk
      rw [List.length_cons]
      split at hchunk
      · rcases List.mem_cons.mp hchunk with rfl | hlater
        · rw [List.length_append, List.length_singleton]
          omega
        · have hle := ih hlater
          rw [List.length_nil] at hle
          omega
      · have hle := ih hchunk
        rw [List.length_append, List.length_singleton] at hle
        omega

/-! ## Hex digits -/

theorem hexPairs_length {text key : Bytes} (hkey : hexPairs text = some key) :
    text.length = 2 * key.length := by
  induction text using hexPairs.induct generalizing key with
  | case1 =>
      obtain rfl := Option.some.inj hkey
      rfl
  | case2 => cases hkey
  | case3 hi lo rest ih =>
      simp only [hexPairs, Option.bind_eq_bind, Option.bind_eq_some_iff, Option.map_eq_some_iff]
        at hkey
      obtain ⟨_, -, _, -, tail, htail, rfl⟩ := hkey
      rw [List.length_cons, List.length_cons, List.length_cons, ih htail]
      omega

theorem hexPairs_append {text key : Bytes} (hkey : hexPairs text = some key) (more : Bytes) :
    hexPairs (text ++ more) = (hexPairs more).map (key ++ ·) := by
  induction text using hexPairs.induct generalizing key with
  | case1 =>
      obtain rfl := Option.some.inj hkey
      simp
  | case2 => cases hkey
  | case3 hi lo rest ih =>
      simp only [hexPairs, Option.bind_eq_bind, Option.bind_eq_some_iff, Option.map_eq_some_iff]
        at hkey
      obtain ⟨high, hhigh, low, hlow, tail, htail, rfl⟩ := hkey
      simp only [List.cons_append, hexPairs, hhigh, hlow, Option.bind_eq_bind, Option.bind_some,
        ih htail, Option.map_map]
      rfl

theorem hexDigitValue_eol : hexDigitValue cr = none ∧ hexDigitValue lf = none := by decide

/-- Hex digits end no line. -/
theorem not_eol_of_hexPairs {text key : Bytes} (hkey : hexPairs text = some key) :
    ∀ b ∈ text, b ≠ cr ∧ b ≠ lf := by
  have hdigit : ∀ {b value : UInt8}, hexDigitValue b = some value → b ≠ cr ∧ b ≠ lf := by
    intro b value hvalue
    constructor
    · rintro rfl
      rw [hexDigitValue_eol.1] at hvalue
      cases hvalue
    · rintro rfl
      rw [hexDigitValue_eol.2] at hvalue
      cases hvalue
  induction text using hexPairs.induct generalizing key with
  | case1 => simp
  | case2 => cases hkey
  | case3 hi lo rest ih =>
      simp only [hexPairs, Option.bind_eq_bind, Option.bind_eq_some_iff, Option.map_eq_some_iff]
        at hkey
      obtain ⟨high, hhigh, low, hlow, tail, htail, -⟩ := hkey
      intro b hb
      rcases List.mem_cons.mp hb with rfl | hb
      · exact hdigit hhigh
      · rcases List.mem_cons.mp hb with rfl | hb
        · exact hdigit hlow
        · exact ih htail b hb

theorem lineKey_length {line key : Bytes} (hkey : lineKey line = some key) :
    key.length = toxPublicKeySize := by
  rw [lineKey] at hkey
  split at hkey
  · cases hkey
  · rename_i hlong
    obtain ⟨whole, hwhole, rfl⟩ := Option.map_eq_some_iff.mp hkey
    rw [hexStringToBin] at hwhole
    split at hwhole
    · cases hwhole
    · have hlength := hexPairs_length hwhole
      rw [CStr.length] at hlong
      rw [List.length_take]
      omega

theorem lineKey_short {line : Bytes} (hshort : line.length < toxPublicKeySize * 2) :
    lineKey line = none := by
  rw [lineKey, if_pos]
  have hle := CStr.ofBuffer_length_le (line.takeWhile fun b => b ≠ cr ∧ b ≠ lf)
  have hkey : line.takeWhile (fun b => b ≠ cr ∧ b ≠ lf) <+: line := List.takeWhile_prefix _
  have hline := hkey.length_le
  rw [lineId, CStr.length]
  omega

/-! ## The list before and after -/

/-- The characters of an ID behind the key, up to the end of their line. -/
def keyTail (id : CStr) : Bytes :=
  (id.val.drop (toxPublicKeySize * 2)).takeWhile fun b => b ≠ cr ∧ b ≠ lf

/-- The last line of a file that does not end in a line feed. -/
def unfinishedLine (text : Bytes) : Bytes := (fgetsSplit 256 [] text).2

def completeKeys (text : Bytes) : List Bytes := (fgetsSplit 256 [] text).1.filterMap lineKey

/-- The keys of the lines an unfinished line makes up with an ID behind it. -/
def gluedKeys (text : Bytes) (id : CStr) : List Bytes :=
  (fgetsAll 256 (unfinishedLine text) (id.val ++ [lf])).filterMap lineKey

/-- The ID starts with a key.  Behind complete lines its own line is to be hex
digits to the end; behind an unfinished line the two together are to spell that
key and nothing else that is new, and what the line spelled alone. -/
def ReadableMaster (text : Bytes) (id : CStr) : Prop :=
  ∃ key, hexPairs (id.val.take (toxPublicKeySize * 2)) = some key ∧
    if unfinishedLine text = [] then
      key ∈ completeKeys text ∨ (hexPairs (keyTail id)).isSome = true
    else
      (key ∈ completeKeys text ∨ key ∈ gluedKeys text id) ∧
      (∀ other ∈ gluedKeys text id,
        other = key ∨ other ∈ completeKeys text ∨ lineKey (unfinishedLine text) = some other) ∧
      ∀ other, lineKey (unfinishedLine text) = some other →
        other = key ∨ other ∈ completeKeys text ∨ other ∈ gluedKeys text id

section

variable {text : Bytes} {id : CStr} {key : Bytes}

theorem mem_keysIn_iff (text other : Bytes) :
    other ∈ keysIn (some text) ↔
      other ∈ completeKeys text ∨ lineKey (unfinishedLine text) = some other := by
  have hempty : lineKey [] = none := by decide
  rw [keysIn, Option.getD_some, fgetsAll_eq_split, List.filterMap_append, List.mem_append,
    ← completeKeys, ← unfinishedLine]
  by_cases hunfinished : unfinishedLine text = []
  · rw [if_pos hunfinished, hunfinished, hempty]
    simp
  · rw [if_neg hunfinished]
    simp [List.mem_filterMap]

theorem mem_keysIn_append_iff (text : Bytes) (id : CStr) (other : Bytes) :
    other ∈ keysIn (some (text ++ id.val ++ [lf])) ↔
      other ∈ completeKeys text ∨ other ∈ gluedKeys text id := by
  rw [keysIn, Option.getD_some, List.append_assoc, fgetsAll_append, List.filterMap_append,
    List.mem_append, ← unfinishedLine, ← completeKeys, ← gluedKeys]

/-- The line of an ID is compared as the key it starts with, when all of it is
hex digits. -/
theorem lineKey_id (hkey : hexPairs (id.val.take (toxPublicKeySize * 2)) = some key)
    (hlength : key.length = toxPublicKeySize) {line : Bytes}
    (hline : line.takeWhile (fun b => b ≠ cr ∧ b ≠ lf) =
      id.val.take (toxPublicKeySize * 2) ++ keyTail id) :
    lineKey line = (hexPairs (keyTail id)).map fun _ => key := by
  have htail : keyTail id ⊆ id.val := fun b hb =>
    List.mem_of_mem_drop ((List.takeWhile_prefix _).subset hb)
  have hfree : (0 : UInt8) ∉ id.val.take (toxPublicKeySize * 2) ++ keyTail id := by
    intro hmem
    rcases List.mem_append.mp hmem with hmem | hmem
    · exact id.nulFree (List.mem_of_mem_take hmem)
    · exact id.nulFree (htail hmem)
  have hwhole : (lineId line).val = id.val.take (toxPublicKeySize * 2) ++ keyTail id := by
    rw [lineId, hline, CStr.ofBuffer_val_of_nulFree hfree]
  have hpairs := hexPairs_length hkey
  have hlong : ¬(lineId line).length < toxPublicKeySize * 2 := by
    rw [CStr.length, hwhole, List.length_append]
    omega
  have hne : (lineId line).val ≠ [] := by
    intro hnil
    rw [CStr.length, hnil] at hlong
    exact hlong (by decide)
  rw [lineKey, if_neg hlong, hexStringToBin, if_neg hne, hwhole, hexPairs_append hkey,
    Option.map_map]
  congr 1
  funext tail
  exact List.take_left' hlength

theorem takeWhile_append_stop {p : UInt8 → Bool} {b : UInt8} (hstop : p b = false)
    (line rest : Bytes) : (line ++ b :: rest).takeWhile p = line.takeWhile p := by
  induction line with
  | nil => exact List.takeWhile_cons_of_neg (by simp [hstop])
  | cons c line ih =>
      rw [List.cons_append, List.takeWhile_cons, List.takeWhile_cons, ih]

theorem takeWhile_id (hkey : hexPairs (id.val.take (toxPublicKeySize * 2)) = some key) :
    (id.val ++ [lf]).takeWhile (fun b => b ≠ cr ∧ b ≠ lf) =
      id.val.take (toxPublicKeySize * 2) ++ keyTail id := by
  rw [takeWhile_append_stop (by simp), keyTail]
  conv_lhs => rw [← List.take_append_drop (toxPublicKeySize * 2) id.val]
  apply List.takeWhile_append_of_pos
  intro b hb
  have heol := not_eol_of_hexPairs hkey b hb
  simp [heol]

/-- Behind complete lines an ID adds its key or nothing. -/
theorem gluedKeys_of_finished (hkey : hexPairs (id.val.take (toxPublicKeySize * 2)) = some key)
    (hsize : id.length = toxAddressSize * 2) (hfinished : unfinishedLine text = []) :
    gluedKeys text id = if (hexPairs (keyTail id)).isSome = true then [key] else [] := by
  have hsizes : toxPublicKeySize = 32 ∧ toxAddressSize = 38 := ⟨rfl, rfl⟩
  rw [CStr.length] at hsize
  have hkeyLength : key.length = toxPublicKeySize := by
    have hpairs := hexPairs_length hkey
    rw [List.length_take] at hpairs
    omega
  -- an argument may itself contain line feeds, but not among the digits of the key
  obtain ⟨first, rest, hsplit, hfirst⟩ :=
    List.eq_append_cons_of_mem (show lf ∈ id.val ++ [lf] by simp)
  have hlengths := congrArg List.length hsplit
  rw [List.length_append, List.length_append, List.length_singleton, List.length_cons] at hlengths
  have hlong : toxPublicKeySize * 2 ≤ first.length := by
    by_contra hshort
    rw [not_le] at hshort
    have hmem : lf ∈ id.val.take (toxPublicKeySize * 2) := by
      have htake : (id.val ++ [lf]).take (toxPublicKeySize * 2) =
          id.val.take (toxPublicKeySize * 2) := List.take_append_of_le_length (by omega)
      rw [← htake, hsplit, List.mem_take_iff_getElem]
      refine ⟨first.length, ?_, ?_⟩
      · rw [List.length_append, List.length_cons]
        omega
      · simp
    exact (not_eol_of_hexPairs hkey lf hmem).2 rfl
  have hread : fgetsAll 256 [] (id.val ++ [lf]) = (first ++ [lf]) :: fgetsAll 256 [] rest := by
    rw [hsplit]
    exact fgetsAll_line rest hfirst (by rw [List.length_nil]; omega)
  have hline : (first ++ [lf]).takeWhile (fun b => b ≠ cr ∧ b ≠ lf) =
      id.val.take (toxPublicKeySize * 2) ++ keyTail id := by
    rw [takeWhile_append_stop (by simp), ← takeWhile_id hkey, hsplit,
      takeWhile_append_stop (by simp)]
  have hrest : (fgetsAll 256 [] rest).filterMap lineKey = [] := by
    rw [List.filterMap_eq_nil_iff]
    intro chunk hchunk
    have hle := length_le_of_mem_fgetsAll hchunk
    rw [List.length_nil] at hle
    exact lineKey_short (by omega)
  rw [gluedKeys, hfinished, hread, List.filterMap_cons, lineKey_id hkey hkeyLength hline, hrest]
  cases hexPairs (keyTail id) with
  | none => rfl
  | some tail => rfl

/-- The condition says that the new list is the old one and the key. -/
theorem readableMaster_iff (hsize : id.length = toxAddressSize * 2) :
    ReadableMaster text id ↔ ∃ key, hexPairs (id.val.take (toxPublicKeySize * 2)) = some key ∧
      ∀ other, other ∈ keysIn (some (text ++ id.val ++ [lf])) ↔
        other = key ∨ other ∈ keysIn (some text) := by
  rw [ReadableMaster]
  apply exists_congr
  intro key
  apply and_congr_right
  intro hkey
  simp only [mem_keysIn_append_iff]
  simp only [mem_keysIn_iff]
  by_cases hfinished : unfinishedLine text = []
  · have hempty : lineKey [] = none := by decide
    rw [if_pos hfinished, gluedKeys_of_finished hkey hsize hfinished, hfinished, hempty]
    by_cases hdigits : (hexPairs (keyTail id)).isSome = true
    · simp [hdigits, or_comm]
    · rw [if_neg hdigits, or_iff_left hdigits]
      constructor
      · intro hlisted other
        constructor
        · rintro (hother | hother)
          · exact Or.inr (Or.inl hother)
          · cases hother
        · rintro (rfl | hother | hother)
          · exact Or.inl hlisted
          · exact Or.inl hother
          · cases hother
      · intro hsame
        rcases (hsame key).mpr (Or.inl rfl) with hlisted | hlisted
        · exact hlisted
        · cases hlisted
  · rw [if_neg hfinished]
    constructor
    · rintro ⟨hlisted, hnew, hold⟩ other
      constructor
      · rintro (hother | hother)
        · exact Or.inr (Or.inl hother)
        · exact hnew other hother
      · rintro (rfl | hother | hother)
        · exact hlisted
        · exact Or.inl hother
        · rcases hold other hother with rfl | hstill
          · exact hlisted
          · exact hstill
    · intro hsame
      refine ⟨(hsame key).mpr (Or.inl rfl), ?_, ?_⟩
      · intro other hother
        exact (hsame other).mp (Or.inr hother)
      · intro other hother
        exact Or.inr ((hsame other).mpr (Or.inr (Or.inr hother)))

end

/-! ## The command -/

/-- The reply with which `cmd_master` reports success. -/
def idAdded (friendnum : UInt32) : ToxCall :=
  message friendnum (bytes "ID added to masterkeys list")

/-- After the command the key of the ID is in the list, and whether any other
key is has not changed. -/
def ReadsBack (tox : ToxAnswers) (bot : Bot) (friendnum : UInt32) (argv : List CStr) : Prop :=
  ∀ id ∈ argv.head?, ∃ key : Vector UInt8 32,
    hexPairs (id.val.take (toxPublicKeySize * 2)) = some key.toList ∧
    (fileContainsKey tox.files key (cmdMaster tox bot friendnum argv).bot.masterkeys).1 = 1 ∧
    ∀ other : Vector UInt8 32, other ≠ key →
      (fileContainsKey tox.files other (cmdMaster tox bot friendnum argv).bot.masterkeys).1 =
        (fileContainsKey tox.files other bot.masterkeys).1

section

variable {tox : ToxAnswers} {bot : Bot} {friendnum : UInt32} {argv : List CStr}

theorem idAdded_ne {text : Bytes} (htext : (CStr.ofBuffer (snprintf maxCommandLength text)).val ≠
    (CStr.ofBuffer (snprintf maxCommandLength (bytes "ID added to masterkeys list"))).val) :
    idAdded friendnum ≠ message friendnum text := by
  intro hsame
  exact htext (ToxCall.friendSendMessage.inj hsame).2.symm

theorem friendIsMaster_true (hmaster : (friendIsMaster tox bot friendnum).1 = true) :
    ∃ text, tox.files.readable = true ∧ bot.masterkeys = some text ∧
      (friendIsMaster tox bot friendnum).2 = bot := by
  rw [friendIsMaster] at hmaster ⊢
  cases hkey : tox.friendPublicKey friendnum with
  | none =>
      rw [hkey] at hmaster
      cases hmaster
  | some publicKey =>
      rw [hkey] at hmaster
      dsimp only at hmaster ⊢
      rw [decide_eq_true_eq, fileContainsKey_eq_one_iff] at hmaster
      cases hfile : bot.masterkeys with
      | none =>
          rw [hfile] at hmaster
          have hnone : keysIn none = [] := rfl
          rw [hnone] at hmaster
          cases hmaster.2
      | some text =>
          refine ⟨text, hmaster.1, rfl, ?_⟩
          have hkept : (fileContainsKey tox.files publicKey (some text)).2 = some text := by
            rw [fileContainsKey]
            split_ifs <;> rfl
          rw [hkept, ← hfile]

/-- Success means that the sender was found in the file and that the line is in it. -/
theorem cmdMaster_added (hadded : idAdded friendnum ∈ (cmdMaster tox bot friendnum argv).calls) :
    ∃ id rest text, argv = id :: rest ∧ id.length = toxAddressSize * 2 ∧
      tox.files.readable = true ∧ bot.masterkeys = some text ∧
      (cmdMaster tox bot friendnum argv).bot.masterkeys = some (text ++ id.val ++ [lf]) := by
  have hreplies : ∀ {bot' : Bot} {what : String},
      idAdded friendnum ∈ (reply bot' friendnum what).calls →
      idAdded friendnum = message friendnum (bytes what) := by
    intro bot' what hmem
    exact List.mem_singleton.mp hmem
  rw [cmdMaster, masterOnly] at hadded ⊢
  by_cases hmaster : (friendIsMaster tox bot friendnum).1 = true
  · obtain ⟨text, hreadable, hfile, hsame⟩ := friendIsMaster_true hmaster
    rw [if_pos hmaster, hsame] at hadded ⊢
    cases argv with
    | nil => exact absurd (hreplies hadded) (idAdded_ne (by decide))
    | cons id rest =>
        dsimp only at hadded ⊢
        split at hadded
        · exact absurd (hreplies hadded) (idAdded_ne (by decide))
        rename_i hsize
        rw [if_neg hsize]
        split at hadded
        · exact absurd (hreplies hadded) (idAdded_ne (by decide))
        rename_i hopen
        rw [if_neg hopen]
        split at hadded
        · exact absurd (hreplies hadded) (idAdded_ne (by decide))
        rename_i hwritten
        rw [if_neg hwritten]
        refine ⟨id, rest, text, rfl, not_not.mp hsize, hreadable, hfile, ?_⟩
        simp only [withName_bot, CommandResult.quiet, hfile, Option.getD_some]
  · rw [if_neg hmaster] at hadded
    exact absurd (hreplies hadded) (idAdded_ne (by decide))

end

/-- The answer for a readable file is the membership in its list. -/
theorem fileContainsKey_congr_iff {io : FileAccess} (hio : io.readable = true)
    (publicKey : Vector UInt8 32) (before after : Bytes) :
    (fileContainsKey io publicKey (some after)).1 = (fileContainsKey io publicKey (some before)).1 ↔
      (publicKey.toList ∈ keysIn (some after) ↔ publicKey.toList ∈ keysIn (some before)) := by
  have hvalue : ∀ file, (fileContainsKey io publicKey (some file)).1 =
      if publicKey.toList ∈ keysIn (some file) then 1 else 0 := by
    intro file
    have hone := fileContainsKey_eq_one_iff io publicKey (some file)
    rw [hio] at hone
    split
    · rename_i hlisted
      exact hone.mpr ⟨rfl, hlisted⟩
    · rename_i hlisted
      have hne : (fileContainsKey io publicKey (some file)).1 ≠ 1 := fun h => hlisted (hone.mp h).2
      rw [fileContainsKey] at hne ⊢
      rw [hio] at hne ⊢
      simp only [Bool.not_true, Bool.false_eq_true, if_false] at hne ⊢
      split at hne
      · exact absurd rfl hne
      · rename_i hmiss
        rw [if_neg hmiss]
  rw [hvalue, hvalue]
  split <;> split <;> simp_all

theorem exists_key_of_mem {file : Option Bytes} {other : Bytes} (hother : other ∈ keysIn file) :
    ∃ key : Vector UInt8 32, key.toList = other := by
  obtain ⟨line, -, hline⟩ := List.mem_filterMap.mp hother
  exact ⟨⟨other.toArray, by rw [List.size_toArray]; exact lineKey_length hline⟩, rfl⟩

/-- The answers of `file_contains_key` are those of the list. -/
theorem answers_iff {io : FileAccess} (hio : io.readable = true) (key : Vector UInt8 32)
    (before after : Bytes) :
    ((fileContainsKey io key (some after)).1 = 1 ∧ ∀ other : Vector UInt8 32, other ≠ key →
      (fileContainsKey io other (some after)).1 = (fileContainsKey io other (some before)).1) ↔
      ∀ other, other ∈ keysIn (some after) ↔ other = key.toList ∨ other ∈ keysIn (some before) := by
  simp only [fileContainsKey_congr_iff hio, fileContainsKey_eq_one_iff, hio, true_and]
  constructor
  · rintro ⟨hkey, hothers⟩ other
    constructor
    · intro hafter
      obtain ⟨other, rfl⟩ := exists_key_of_mem hafter
      by_cases hsame : other = key
      · exact Or.inl (congrArg Vector.toList hsame)
      · exact Or.inr ((hothers other hsame).mp hafter)
    · rintro (rfl | hbefore)
      · exact hkey
      · obtain ⟨other, rfl⟩ := exists_key_of_mem hbefore
        by_cases hsame : other = key
        · rw [hsame]
          exact hkey
        · exact (hothers other hsame).mpr hbefore
  · intro hlist
    refine ⟨(hlist key.toList).mpr (Or.inl rfl), ?_⟩
    intro other hne
    rw [hlist other.toList]
    constructor
    · rintro (hsame | hbefore)
      · exact absurd (Vector.toList_inj.mp hsame) hne
      · exact hbefore
    · exact Or.inr

/-- Whenever the command reports success, the list has the key of the ID and
else the keys it had exactly if the ID can be read where it was written. -/
theorem cmdMaster_readsBack_iff (tox : ToxAnswers) (bot : Bot) (friendnum : UInt32)
    (argv : List CStr) (hadded : idAdded friendnum ∈ (cmdMaster tox bot friendnum argv).calls) :
    ReadsBack tox bot friendnum argv ↔
      ∃ id text, argv.head? = some id ∧ bot.masterkeys = some text ∧ ReadableMaster text id := by
  obtain ⟨id, rest, text, rfl, hsize, hreadable, hfile, hafter⟩ := cmdMaster_added hadded
  have hexact : ReadsBack tox bot friendnum (id :: rest) ↔ ReadableMaster text id := by
    rw [readableMaster_iff hsize, ReadsBack, hafter, hfile]
    simp only [List.head?_cons, Option.mem_some_iff, forall_eq', answers_iff hreadable]
    constructor
    · rintro ⟨key, hkey, hlist⟩
      exact ⟨key.toList, hkey, hlist⟩
    · rintro ⟨key, hkey, hlist⟩
      have hlisted := (hlist key).mpr (Or.inl rfl)
      obtain ⟨key, rfl⟩ := exists_key_of_mem hlisted
      exact ⟨key, hkey, hlist⟩
  rw [hexact]
  constructor
  · intro hreadableId
    exact ⟨id, text, rfl, hfile, hreadableId⟩
  · rintro ⟨id', text', hid, htext, hreadableId⟩
    obtain rfl := Option.some.inj hid
    obtain rfl := Option.some.inj (hfile.symm.trans htext)
    exact hreadableId

/-- An ID all of whose digits are the same character. -/
def repeatedId (b : UInt8) : CStr := .ofBuffer (List.replicate (toxAddressSize * 2) b)

theorem cmdMaster_repeated :
    ReadsBack smallAnswers smallBot 0 [repeatedId 66] ↔
      ∃ id text, [repeatedId 66].head? = some id ∧ smallBot.masterkeys = some text ∧
        ReadableMaster text id :=
  cmdMaster_readsBack_iff smallAnswers smallBot 0 [repeatedId 66]
    (List.mem_cons_of_mem _ (List.mem_singleton_self _))

/-- The file with one key, whose line has no line feed. -/
def unfinishedBot : Bot := { smallBot with masterkeys := some (List.replicate 64 65) }

theorem unfinishedBot_keys :
    keysIn (cmdMaster smallAnswers unfinishedBot 0 [repeatedId 66]).bot.masterkeys =
      [List.replicate 32 170] := by
  decide +kernel

/-- An ID of hex digits goes to the end of an unfinished line, and an ID of
other characters into a line of its own; neither is read back. -/
theorem cmdMaster_unreadable :
    (idAdded 0 ∈ (cmdMaster smallAnswers unfinishedBot 0 [repeatedId 66]).calls ∧
      ¬ReadsBack smallAnswers unfinishedBot 0 [repeatedId 66]) ∧
    (idAdded 0 ∈ (cmdMaster smallAnswers smallBot 0 [repeatedId 90]).calls ∧
      ¬ReadsBack smallAnswers smallBot 0 [repeatedId 90]) := by
  refine ⟨⟨List.mem_cons_of_mem _ (List.mem_singleton_self _), ?_⟩,
    ⟨List.mem_cons_of_mem _ (List.mem_singleton_self _), ?_⟩⟩
  · intro hreads
    obtain ⟨key, hkey, hfound, -⟩ := hreads (repeatedId 66) rfl
    have hdigits : hexPairs ((repeatedId 66).val.take (toxPublicKeySize * 2)) =
        some (List.replicate 32 187) := by decide
    rw [fileContainsKey_eq_one_iff, unfinishedBot_keys, ← Option.some.inj (hdigits.symm.trans hkey)]
      at hfound
    exact absurd hfound.2 (by decide)
  · intro hreads
    obtain ⟨key, hkey, -⟩ := hreads (repeatedId 90) rfl
    have hdigits : hexPairs ((repeatedId 90).val.take (toxPublicKeySize * 2)) = none := by decide
    rw [hdigits] at hkey
    cases hkey

end ToxRelayer
