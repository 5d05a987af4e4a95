import ToxRelayer.CommandLine

/-!
# What a command line is written from

A line is a command word and arguments with spaces between them; an argument is
a plain text, or a text in double quotes that may hold spaces or nothing at
all.  `commands_parse` gives back the words the line was joined from.
-/

namespace ToxRelayer

open CString

/-- An argument of a command. -/
inductive Argument where
  | plain (text : Bytes) (nonempty : text ≠ []) (spaceless : space ∉ text)
      (unquoted : text.head? ≠ some quote)
  | quoted (text : Bytes) (quoteless : quote ∉ text)

def Argument.written : Argument → Bytes
  | .plain text _ _ _ => text
  | .quoted text _ => quote :: (text ++ [quote])

theorem Argument.written_ne_nil (argument : Argument) : argument.written ≠ [] := by
  cases argument with
  | plain text nonempty => exact nonempty
  | quoted text => simp [written]

theorem Argument.written_head (argument : Argument) : argument.written.head? ≠ some space := by
  cases argument with
  | plain text nonempty spaceless =>
      intro hhead
      exact spaceless (List.mem_of_mem_head? hhead)
  | quoted text =>
      have hquote : quote ≠ space := by decide
      simpa [written] using hquote

/-- Arguments, each behind one space and as many more as its number tells. -/
def writeArguments : List (ℕ × Argument) → Bytes
  | [] => []
  | (gap, argument) :: arguments =>
      List.replicate (gap + 1) space ++ (argument.written ++ writeArguments arguments)

/-- The first word of a line. -/
structure CommandWord where
  text : Bytes
  slash : text.head? = some 47
  spaceless : space ∉ text

def CommandWord.argument (word : CommandWord) : Argument :=
  .plain word.text
    (by
      rintro hnil
      have hslash := word.slash
      rw [hnil] at hslash
      cases hslash)
    word.spaceless
    (by
      rw [word.slash]
      decide)

/-! ## One round of the parser -/

/-- What may follow an argument: nothing, or spaces. -/
def Separated (behind : Bytes) : Prop :=
  behind = [] ∨ behind.head? = some space

theorem charFind_of_not_mem {text behind : Bytes} {ch : UInt8} (htext : ch ∉ text)
    (hbehind : behind = [] ∨ behind.head? = some ch) :
    ((text ++ behind).takeWhile (· ≠ ch)).length = text.length := by
  have hall : ∀ b ∈ text, (fun b : UInt8 => decide (b ≠ ch)) b = true := by
    intro b hb
    rw [decide_eq_true_eq]
    rintro rfl
    exact htext hb
  rw [List.takeWhile_append_of_pos hall]
  have hstop : behind.takeWhile (fun b : UInt8 => decide (b ≠ ch)) = [] := by
    rcases hbehind with rfl | hhead
    · rfl
    · obtain ⟨rest, rfl⟩ : ∃ rest, behind = ch :: rest := by
        cases behind with
        | nil => cases hhead
        | cons b rest => exact ⟨rest, by simpa using hhead⟩
      simp
  rw [hstop, List.append_nil]

theorem charFind_zero {text behind : Bytes} {ch : UInt8} (htext : ch ∉ text)
    (hbehind : behind = [] ∨ behind.head? = some ch) :
    charFind 0 (text ++ behind) ch = text.length := by
  unfold charFind
  split
  · rename_i hempty
    rw [List.length_append] at hempty ⊢
    omega
  · rw [List.drop_zero, Nat.zero_add, charFind_of_not_mem htext hbehind]

/-- Behind the opening quote the search finds the closing one, or the end. -/
theorem charFind_one {text behind : Bytes} (htext : quote ∉ text)
    (hbehind : behind = [] ∨ behind.head? = some quote) :
    charFind 1 (quote :: (text ++ behind)) quote = text.length + 1 := by
  unfold charFind
  split
  · rename_i hempty
    rw [List.length_cons, List.length_append] at hempty ⊢
    omega
  · rw [List.drop_one, List.tail_cons, charFind_of_not_mem htext hbehind, Nat.add_comm]

theorem dropWhile_space_tail {behind : Bytes} (hbehind : Separated behind) :
    (behind.drop 1).dropWhile (· = space) = behind.dropWhile (· = space) := by
  rcases hbehind with rfl | hhead
  · rfl
  · cases behind with
    | nil => rfl
    | cons b rest =>
        obtain rfl : b = space := by simpa using hhead
        simp

/-- The print back into the buffer cuts off nothing. -/
theorem snprintf_dropWhile {written behind : Bytes}
    (hlength : (written ++ behind).length < maxCommandLength) :
    snprintf maxCommandLength (behind.dropWhile (· = space)) = behind.dropWhile (· = space) := by
  apply List.take_of_length_le
  have hsuffix : behind.dropWhile (· = space) <:+ behind := List.dropWhile_suffix _
  have hshort := hsuffix.length_le
  rw [List.length_append] at hlength
  omega

theorem parseArgs_plain (rounds : ℕ) {text behind : Bytes} (hnonempty : text ≠ [])
    (hspaceless : space ∉ text) (hunquoted : text.head? ≠ some quote)
    (hbehind : Separated behind) (hlength : (text ++ behind).length < maxCommandLength) :
    parseArgs (rounds + 1) (text ++ behind) =
      if behind.dropWhile (· = space) = [] then some [CStr.ofBuffer text]
      else (parseArgs rounds (behind.dropWhile (· = space))).map (CStr.ofBuffer text :: ·) := by
  have hprint := snprintf_dropWhile hlength
  have hhead : ¬(text ++ behind).head? = some quote := by
    rwa [List.head?_append_of_ne_nil _ hnonempty]
  have hcopy : min text.length (maxCommandLength - 1) = text.length := by
    rw [List.length_append] at hlength
    omega
  have hrest : ((text ++ behind).drop (text.length + 1)).dropWhile (· = space) =
      behind.dropWhile (· = space) := by
    rw [← List.drop_drop, List.drop_left, dropWhile_space_tail hbehind]
  have hend : text.length = (text ++ behind).length ∨ behind.dropWhile (· = space) = [] ↔
      behind.dropWhile (· = space) = [] := by
    constructor
    · rintro (hwhole | hnil)
      · rw [List.length_append] at hwhole
        have hnil : behind = [] := List.eq_nil_of_length_eq_zero (by omega)
        rw [hnil]
        rfl
      · exact hnil
    · exact Or.inr
  simp only [parseArgs, hhead, if_false, charFind_zero hspaceless hbehind, false_and, Nat.add_zero,
    hcopy, List.take_left, hrest, hend, hprint]

theorem parseArgs_quoted (rounds : ℕ) {text behind : Bytes} (hquoteless : quote ∉ text)
    (hlength : (quote :: (text ++ [quote]) ++ behind).length < maxCommandLength) :
    parseArgs (rounds + 1) (quote :: (text ++ [quote]) ++ behind) =
      if behind.dropWhile (· = space) = [] then some [CStr.ofBuffer (quote :: (text ++ [quote]))]
      else (parseArgs rounds (behind.dropWhile (· = space))).map
        (CStr.ofBuffer (quote :: (text ++ [quote])) :: ·) := by
  have hprint := snprintf_dropWhile hlength
  have hsplit : quote :: (text ++ quote :: behind) = quote :: (text ++ [quote]) ++ behind := by
    simp
  rw [← hsplit] at hlength ⊢
  have hhead : (quote :: (text ++ quote :: behind)).head? = some quote := rfl
  have hfound : charFind 1 (quote :: (text ++ quote :: behind)) quote = text.length + 1 :=
    charFind_one hquoteless (Or.inr rfl)
  have hopen : ¬text.length + 1 = (quote :: (text ++ quote :: behind)).length := by
    simp only [List.length_cons, List.length_append]
    omega
  have hcopy : min (text.length + 1 + 1) (maxCommandLength - 1) = text.length + 2 := by
    simp only [List.length_cons, List.length_append] at hlength
    omega
  have hwhole : (quote :: (text ++ [quote])).length = text.length + 2 := by simp
  have htake : (quote :: (text ++ quote :: behind)).take (text.length + 2) =
      quote :: (text ++ [quote]) := by
    rw [hsplit, ← hwhole, List.take_left]
  have hdrop : (quote :: (text ++ quote :: behind)).drop (text.length + 1 + 1) = behind := by
    rw [hsplit, ← hwhole, List.drop_left]
  simp only [parseArgs, hhead, if_true, hfound, hopen, and_false, if_false, hcopy, htake, hdrop,
    false_or, hprint]

/-- One round reads the argument and goes on behind the spaces. -/
theorem parseArgs_written (rounds : ℕ) (argument : Argument) {behind : Bytes}
    (hbehind : Separated behind)
    (hlength : (argument.written ++ behind).length < maxCommandLength) :
    parseArgs (rounds + 1) (argument.written ++ behind) =
      if behind.dropWhile (· = space) = [] then some [CStr.ofBuffer argument.written]
      else (parseArgs rounds (behind.dropWhile (· = space))).map
        (CStr.ofBuffer argument.written :: ·) := by
  cases argument with
  | plain text nonempty spaceless unquoted =>
      exact parseArgs_plain rounds nonempty spaceless unquoted hbehind hlength
  | quoted text quoteless => exact parseArgs_quoted rounds quoteless hlength

/-- An opening quote without a closing one fails in any round. -/
theorem parseArgs_unclosed (rounds : ℕ) {text : Bytes} (htext : quote ∉ text) :
    parseArgs (rounds + 1) (quote :: text) = none := by
  have hfound : charFind 1 (quote :: text) quote = text.length + 1 := by
    have hsearch : charFind 1 (quote :: (text ++ [])) quote = text.length + 1 :=
      charFind_one htext (Or.inl rfl)
    rwa [List.append_nil] at hsearch
  simp [parseArgs, hfound]

/-! ## The whole line -/

theorem mem_writeArguments {arguments : List (ℕ × Argument)} {gapped : ℕ × Argument} {b : UInt8}
    (hmem : gapped ∈ arguments) (hb : b ∈ gapped.2.written) : b ∈ writeArguments arguments := by
  induction arguments with
  | nil => cases hmem
  | cons first arguments ih =>
      apply List.mem_append_right
      rcases List.mem_cons.mp hmem with rfl | hrest
      · exact List.mem_append_left _ hb
      · exact List.mem_append_right _ (ih hrest)

theorem separated_writeArguments (arguments : List (ℕ × Argument)) {behind : Bytes}
    (hbehind : Separated behind) : Separated (writeArguments arguments ++ behind) := by
  cases arguments with
  | nil => exact hbehind
  | cons first arguments =>
      right
      simp [writeArguments, List.replicate_succ]

theorem dropWhile_replicate_space (gap : ℕ) {text : Bytes} (hhead : text.head? ≠ some space) :
    (List.replicate gap space ++ text).dropWhile (· = space) = text := by
  rw [List.dropWhile_append_of_pos]
  · cases text with
    | nil => rfl
    | cons b rest =>
        apply List.dropWhile_cons_of_neg
        simpa using hhead
  · intro b hb
    simpa using List.eq_of_mem_replicate hb

/-- The parser behind the first word, by recursion on the arguments still to be
read; `behind` is what follows the last of them. -/
theorem parseArgs_line (argument : Argument) (arguments : List (ℕ × Argument)) (rounds : ℕ)
    {behind : Bytes} (hbehind : Separated behind)
    (hlength : (argument.written ++ (writeArguments arguments ++ behind)).length < maxCommandLength)
    (hrounds : arguments.length ≤ rounds) :
    parseArgs (rounds + 1) (argument.written ++ (writeArguments arguments ++ behind)) =
      if behind.dropWhile (· = space) = [] then
        some (CStr.ofBuffer argument.written ::
          arguments.map fun gapped => CStr.ofBuffer gapped.2.written)
      else
        (parseArgs (rounds - arguments.length) (behind.dropWhile (· = space))).map
          (CStr.ofBuffer argument.written ::
            arguments.map (fun gapped => CStr.ofBuffer gapped.2.written) ++ ·) := by
  induction arguments generalizing argument rounds with
  | nil => exact parseArgs_written rounds argument hbehind hlength
  | cons first arguments ih =>
      obtain ⟨gap, next⟩ := first
      obtain ⟨rounds, rfl⟩ : ∃ fewer, rounds = fewer + 1 :=
        ⟨rounds - 1, by rw [List.length_cons] at hrounds; omega⟩
      have hnext : next.written ++ (writeArguments arguments ++ behind) ≠ [] := by
        simp [next.written_ne_nil]
      have hhead : (next.written ++ (writeArguments arguments ++ behind)).head? ≠ some space := by
        rw [List.head?_append_of_ne_nil _ next.written_ne_nil]
        exact next.written_head
      have hskip : (writeArguments ((gap, next) :: arguments) ++ behind).dropWhile (· = space) =
          next.written ++ (writeArguments arguments ++ behind) := by
        rw [writeArguments, List.append_assoc, List.append_assoc,
          dropWhile_replicate_space _ hhead]
      rw [parseArgs_written (rounds + 1) argument
        (separated_writeArguments ((gap, next) :: arguments) hbehind) hlength, hskip, if_neg hnext,
        ih next rounds]
      · split
        · rfl
        · rw [Option.map_map, List.length_cons, Nat.add_sub_add_right]
          rfl
      · simp only [writeArguments, List.length_append] at hlength ⊢
        omega
      · rw [List.length_cons] at hrounds
        omega

theorem unquoteStr_quoted {arg : CStr} {text : Bytes} (harg : arg.val = quote :: (text ++ [quote]))
    {outSize : ℕ} (hfits : text.length < outSize) : (unquoteStr arg outSize).val = text := by
  have hfree : (0 : UInt8) ∉ text := by
    intro hmem
    apply arg.nulFree
    rw [harg]
    simp [hmem]
  have hprint : snprintf outSize text = text := List.take_of_length_le (by omega)
  simp only [unquoteStr, harg, List.head?_cons, if_true, List.tail_cons, List.getLast?_append,
    List.getLast?_singleton, Option.some_or, List.dropLast_concat, hprint]
  exact CStr.ofBuffer_val_of_nulFree hfree

theorem commandsParse_closed {word : CommandWord} {arguments : List (ℕ × Argument)} {line : CStr}
    {trailing : ℕ} (hcount : arguments.length ≤ 3)
    (hline : line.val =
      word.text ++ writeArguments arguments ++ List.replicate trailing space)
    (hlength : line.length < maxCommandLength) :
    ∃ args, commandsParse line = some args ∧
      args.map (·.val) = word.text :: arguments.map (·.2.written) := by
  have hbehind : Separated (List.replicate trailing space) := by
    cases trailing with
    | zero => exact Or.inl rfl
    | succ trailing => exact Or.inr rfl
  have hdone : (List.replicate trailing space).dropWhile (· = space) = [] := by
    have hskip : (List.replicate trailing space ++ []).dropWhile (· = space) = [] :=
      dropWhile_replicate_space trailing (by simp)
    rwa [List.append_nil] at hskip
  have hfree : ∀ text : Bytes, text ⊆ line.val → (CStr.ofBuffer text).val = text :=
    fun text hsub => CStr.ofBuffer_val_of_nulFree fun hmem => line.nulFree (hsub hmem)
  rw [List.append_assoc] at hline
  have hparse := parseArgs_line word.argument arguments 3 hbehind (hline ▸ hlength) hcount
  rw [if_pos hdone] at hparse
  refine ⟨_, by rw [commandsParse, hline]; exact hparse, ?_⟩
  rw [List.map_cons, List.map_map]
  congr 1
  · apply hfree
    rw [hline]
    exact List.subset_append_left _ _
  · apply List.map_congr_left
    intro gapped hmem
    apply hfree
    rw [hline]
    exact fun b hb => List.mem_append_right _ (List.mem_append_left _ (mem_writeArguments hmem hb))

theorem commandsParse_unclosed {word : CommandWord} {arguments : List (ℕ × Argument)} {line : CStr}
    {gap : ℕ} {text : Bytes} (hcount : arguments.length ≤ 2) (hopen : quote ∉ text)
    (hline : line.val = word.text ++ writeArguments arguments ++
      (List.replicate (gap + 1) space ++ quote :: text))
    (hlength : line.length < maxCommandLength) : commandsParse line = none := by
  have hquote : (quote :: text).head? ≠ some space := by
    have hne : quote ≠ space := by decide
    simpa using hne
  have hskip := dropWhile_replicate_space (gap + 1) hquote
  rw [List.append_assoc] at hline
  have hseparated : Separated (List.replicate (gap + 1) space ++ quote :: text) := Or.inr rfl
  have hparse := parseArgs_line word.argument arguments 3 hseparated (hline ▸ hlength) (by omega)
  rw [hskip, if_neg (List.cons_ne_nil _ _)] at hparse
  obtain ⟨rounds, hrounds⟩ : ∃ rounds, 3 - arguments.length = rounds + 1 :=
    ⟨2 - arguments.length, by omega⟩
  rw [hrounds, parseArgs_unclosed rounds hopen] at hparse
  rw [commandsParse, hline]
  exact hparse

/-- A line gives back the arguments it was written from, unless one of them
starts with a quote that is never closed. -/
theorem commandsParse_written (word : CommandWord) (arguments : List (ℕ × Argument)) :
    (∀ (line : CStr) (trailing : ℕ), arguments.length ≤ 3 →
      line.val = word.text ++ writeArguments arguments ++ List.replicate trailing space →
      line.length < maxCommandLength →
      ∃ args, commandsParse line = some args ∧
        args.map (·.val) = word.text :: arguments.map (·.2.written)) ∧
    (∀ (arg : CStr) (text : Bytes) (outSize : ℕ), quote ∉ text →
      arg.val = quote :: (text ++ [quote]) → text.length < outSize →
      (unquoteStr arg outSize).val = text) ∧
    ∀ (line : CStr) (gap : ℕ) (text : Bytes), arguments.length ≤ 2 → quote ∉ text →
      line.val = word.text ++ writeArguments arguments ++
        (List.replicate (gap + 1) space ++ quote :: text) →
      line.length < maxCommandLength → commandsParse line = none := by
  refine ⟨?_, ?_, ?_⟩
  · intro line trailing hcount hline hlength
    exact commandsParse_closed hcount hline hlength
  · intro arg text outSize _ harg hfits
    exact unquoteStr_quoted harg hfits
  · intro line gap text hcount hopen hline hlength
    exact commandsParse_unclosed hcount hopen hline hlength

theorem titleLine_nulFree : (0 : UInt8) ∉ bytes "/title 3   \"\" " := by decide

theorem commandsParse_title :
    ∃ args, commandsParse ⟨bytes "/title 3   \"\" ", titleLine_nulFree⟩ = some args ∧
      args.map (·.val) = [bytes "/title", bytes "3", bytes "\"\""] :=
  (commandsParse_written ⟨bytes "/title", by decide, by decide⟩
    [(0, .plain (bytes "3") (by decide) (by decide) (by decide)),
      (2, .quoted [] (by decide))]).1 _ 1 (by decide) (by decide) (by decide)

end ToxRelayer
