import ToxRelayer.SettingsRestart

/-!
# The words of a console line

`get_token` takes the words of a line one after another out of a buffer in which older text
follows the line.
-/

namespace ToxRelayer

open CString

/-! ## Taking a word -/

/-- The loop of `get_token`: what it puts into `token`, `lineindex`, and whether it has
returned. -/
def getTokenLoop (mess : ℕ → UInt8) : ℕ → ℕ → Bytes → Bytes × ℕ × Bool
  | 0, lineindex, token => (token, lineindex, false)
  | rounds + 1, lineindex, token =>
      if 127 ≤ lineindex then (token, lineindex, false)
      else
        let c := mess lineindex
        let copies := c ≠ space ∧ c ≠ cr ∧ c ≠ lf
        let token := if copies then token ++ [c] else token
        let lineindex := if copies then lineindex + 1 else lineindex
        if mess lineindex = space ∧ 0 < token.length then (token, lineindex + 1, true)
        else
          let lineindex := if mess lineindex = space then lineindex + 1 else lineindex
          if mess lineindex = 0 ∨ mess lineindex = cr ∨ mess lineindex = lf then
            (token, lineindex, true)
          else getTokenLoop mess rounds lineindex token

/-- The globals `token` and `lineindex`. -/
structure TokenState where
  token : Bytes
  lineindex : ℕ

/-- `get_token`; a round of its loop that does not return moves `lineindex` on. -/
def getToken (mess : ℕ → UInt8) (s : TokenState) : TokenState :=
  let read := getTokenLoop mess 127 s.lineindex []
  -- a loop that runs out leaves the rest of the word that was there before
  ⟨if read.2.2 then read.1 ++ 0 :: s.token.drop (read.1.length + 1)
    else read.1 ++ s.token.drop read.1.length, read.2.1⟩

/-- The string in `token`. -/
def TokenState.str (s : TokenState) : CStr := .ofBuffer s.token

/-- A NUL ends a string, whatever stands behind it. -/
theorem ofBuffer_append_nul (text stale : Bytes) :
    CStr.ofBuffer (text ++ 0 :: stale) = .ofBuffer text := by
  refine CStr.ext ?_
  change (text ++ 0 :: stale).takeWhile (fun b => decide (b ≠ 0)) =
    text.takeWhile fun b => decide (b ≠ 0)
  induction text with
  | nil => rfl
  | cons b text ih =>
      rw [List.cons_append, List.takeWhile_cons, List.takeWhile_cons, ih]

/-- What so many calls leave in `token`. -/
def getTokens (mess : ℕ → UInt8) : ℕ → TokenState → List CStr
  | 0, _ => []
  | n + 1, s => (getToken mess s).str :: getTokens mess n (getToken mess s)

/-! ## The words of a text -/

/-- What stands between blanks. -/
def wordsOf (text : Bytes) : List Bytes := (text.splitOnP (· == space)).filter (· ≠ [])

theorem not_blank_of_notMem {word : Bytes} (hword : space ∉ word) :
    ∀ b ∈ word, (b == space) = false := by
  intro b hb
  rw [beq_eq_false_iff_ne]
  rintro rfl
  exact hword hb

theorem wordsOf_nil : wordsOf [] = [] := rfl

theorem wordsOf_cons_space (text : Bytes) : wordsOf (space :: text) = wordsOf text := by
  have hnone : ∀ b ∈ ([] : Bytes), (b == space) = false := nofun
  have hsplit : (space :: text).splitOnP (· == space) = [] :: text.splitOnP (· == space) :=
    List.splitOnP_append_cons_of_forall_mem hnone space (beq_self_eq_true space) text
  rw [wordsOf, hsplit]
  rfl

theorem wordsOf_word {word : Bytes} (hne : word ≠ []) (hword : space ∉ word) :
    wordsOf word = [word] := by
  rw [wordsOf, List.splitOnP_eq_singleton (not_blank_of_notMem hword),
    List.filter_singleton]
  simp [hne]

theorem wordsOf_word_append {word : Bytes} (rest : Bytes) (hne : word ≠ []) (hword : space ∉ word) :
    wordsOf (word ++ space :: rest) = word :: wordsOf rest := by
  rw [wordsOf, List.splitOnP_append_cons_of_forall_mem (not_blank_of_notMem hword) space
    (beq_self_eq_true space), List.filter_cons, if_pos (by simpa using hne)]
  rfl

/-! ## A line in the buffer -/

/-- The buffer has this text from the given place on. -/
def TextAt (mess : ℕ → UInt8) : ℕ → Bytes → Prop
  | _, [] => True
  | p, b :: text => mess p = b ∧ TextAt mess (p + 1) text

/-- A byte of a line: no end of a line and no end of a string. -/
structure LineByte (b : UInt8) : Prop where
  notNul : b ≠ 0
  notCr : b ≠ cr
  notLf : b ≠ lf

instance (b : UInt8) : Decidable (LineByte b) :=
  decidable_of_iff (b ≠ 0 ∧ b ≠ cr ∧ b ≠ lf)
    ⟨fun h => ⟨h.1, h.2.1, h.2.2⟩, fun h => ⟨h.notNul, h.notCr, h.notLf⟩⟩

/-- The end of a line. -/
def IsEnter (enter : UInt8) : Prop := enter = cr ∨ enter = lf

instance (enter : UInt8) : Decidable (IsEnter enter) := inferInstanceAs (Decidable (_ ∨ _))

section

variable {mess : ℕ → UInt8} {enter : UInt8} {text : Bytes}

theorem IsEnter.ne_space (henter : IsEnter enter) : enter ≠ space := by
  rcases henter with rfl | rfl <;> decide

theorem getTokenLoop_enter (henter : IsEnter enter) (rounds : ℕ) {p : ℕ} (hp : p < 127)
    (hat : mess p = enter) (token : Bytes) :
    getTokenLoop mess (rounds + 1) p token = (token, p, true) := by
  have hcopies : ¬ (enter ≠ space ∧ enter ≠ cr ∧ enter ≠ lf) := by
    rintro ⟨-, hcr, hlf⟩
    exact henter.elim hcr hlf
  have hstop : enter = 0 ∨ enter = cr ∨ enter = lf := .inr henter
  simp only [getTokenLoop, hat, if_neg hcopies, if_neg hp.not_ge, henter.ne_space,
    false_and, if_false, if_pos hstop]

/-- A blank in front of a word is passed over. -/
theorem getTokenLoop_space {rounds p : ℕ} (hp : p + 1 < 127) (hat : mess p = space)
    (hnext : mess (p + 1) ≠ 0) :
    getTokenLoop mess (rounds + 2) p [] = getTokenLoop mess (rounds + 1) (p + 1) [] := by
  have hcopies : ¬ (space ≠ space ∧ space ≠ cr ∧ space ≠ lf) := fun h => h.1 rfl
  have hhere : ¬ 127 ≤ p := by omega
  have hround : getTokenLoop mess (rounds + 2) p [] =
      if mess (p + 1) = 0 ∨ mess (p + 1) = cr ∨ mess (p + 1) = lf then ([], p + 1, true)
      else getTokenLoop mess (rounds + 1) (p + 1) [] := by
    simp only [getTokenLoop.eq_2 mess p [] (rounds + 1), hat, if_neg hcopies, if_neg hhere,
      List.length_nil, lt_irrefl, and_false, if_false, if_true]
  rw [hround]
  by_cases hend : IsEnter (mess (p + 1))
  · rw [if_pos (.inr hend), getTokenLoop_enter hend rounds hp rfl []]
  · have hgoes : ¬ (mess (p + 1) = 0 ∨ mess (p + 1) = cr ∨ mess (p + 1) = lf) :=
      not_or.mpr ⟨hnext, hend⟩
    rw [if_neg hgoes]

/-- One byte of a word: the loop goes on unless the word ends behind it. -/
theorem getTokenLoop_byte {b : UInt8} (hb : LineByte b) (hspace : b ≠ space) {rounds p : ℕ}
    (hp : p < 127) (hat : mess p = b) (token : Bytes) :
    getTokenLoop mess (rounds + 1) p token =
      if mess (p + 1) = space then (token ++ [b], p + 2, true)
      else if mess (p + 1) = 0 ∨ IsEnter (mess (p + 1)) then (token ++ [b], p + 1, true)
      else getTokenLoop mess rounds (p + 1) (token ++ [b]) := by
  have hcopies : b ≠ space ∧ b ≠ cr ∧ b ≠ lf := ⟨hspace, hb.notCr, hb.notLf⟩
  have htoken : 0 < (token ++ [b]).length := by simp
  simp only [getTokenLoop, hat, if_pos hcopies, if_neg hp.not_ge, htoken, and_true]
  by_cases hnext : mess (p + 1) = space
  · simp only [hnext, if_true]
  · simp only [hnext, if_false]
    rfl

/-- A word is read up to the blank or the end behind it. -/
theorem getTokenLoop_word {stop : UInt8} (hstop : stop = space ∨ IsEnter stop) {word : Bytes}
    (hword : ∀ b ∈ word, LineByte b ∧ b ≠ space) {c : UInt8} (hc : LineByte c)
    (hspace : c ≠ space) {rounds p : ℕ} (hrounds : word.length ≤ rounds)
    (hp : p + word.length < 127) (hat : TextAt mess p (c :: word ++ [stop])) (token : Bytes) :
    getTokenLoop mess (rounds + 1) p token =
      (token ++ c :: word, p + word.length + (if stop = space then 2 else 1), true) := by
  induction word generalizing c p token rounds with
  | nil =>
      obtain ⟨hhere, hnext, -⟩ := hat
      rw [List.length_nil, Nat.add_zero] at hp ⊢
      rw [getTokenLoop_byte hc hspace hp hhere, hnext]
      rcases hstop with rfl | henter
      · rw [if_pos rfl, if_pos rfl]
      · rw [if_neg henter.ne_space, if_pos (.inr henter), if_neg henter.ne_space]
  | cons b word ih =>
      obtain ⟨hhere, hrest⟩ := hat
      obtain ⟨hb, hbspace⟩ := hword b List.mem_cons_self
      have hgoes : ¬ (b = 0 ∨ IsEnter b) := not_or.mpr ⟨hb.notNul, not_or.mpr ⟨hb.notCr, hb.notLf⟩⟩
      rw [List.length_cons] at hrounds hp
      obtain ⟨rounds, rfl⟩ := Nat.exists_eq_succ_of_ne_zero (Nat.ne_of_gt
        (Nat.lt_of_lt_of_le (Nat.zero_lt_succ word.length) hrounds))
      have hread := ih (fun b' hb' => hword b' (List.mem_cons_of_mem b hb')) hb hbspace
        (Nat.le_of_succ_le_succ hrounds) (by omega) hrest (token ++ [c])
      rw [getTokenLoop_byte hc hspace (by omega) hhere, hrest.1, if_neg hbspace, if_neg hgoes,
        hread, List.append_assoc, List.singleton_append, List.length_cons]
      congr 2
      omega

/-! ## One word after another -/

theorem textAt_append {p : ℕ} {more : Bytes} :
    TextAt mess p (text ++ more) ↔ TextAt mess p text ∧ TextAt mess (p + text.length) more := by
  induction text generalizing p with
  | nil => exact (and_iff_right trivial).symm
  | cons b text ih =>
      rw [List.cons_append, TextAt, TextAt, ih, and_assoc, List.length_cons,
        Nat.add_comm text.length, ← Nat.add_assoc]

theorem TextAt.ne_zero {p : ℕ} (henter : IsEnter enter) (htext : ∀ b ∈ text, LineByte b)
    (hat : TextAt mess p (text ++ [enter])) : mess p ≠ 0 := by
  cases text with
  | nil =>
      rw [hat.1]
      rcases henter with rfl | rfl <;> decide
  | cons b text =>
      rw [hat.1]
      exact (htext b List.mem_cons_self).notNul

/-- What a call of `get_token` takes of a text: its first word. -/
structure TakesWord (mess : ℕ → UInt8) (enter : UInt8) (text : Bytes) (read : Bytes × ℕ × Bool)
    (rest : Bytes) : Prop where
  returned : read.2.2 = true
  nulFree : (0 : UInt8) ∉ read.1
  word : read.1 = (wordsOf text).headD []
  words : wordsOf rest = (wordsOf text).tail
  line : ∀ b ∈ rest, LineByte b
  rest_at : TextAt mess read.2.1 (rest ++ [enter])
  place : read.2.1 + rest.length < 127

theorem getTokenLoop_text (henter : IsEnter enter) (htext : ∀ b ∈ text, LineByte b) {rounds p : ℕ}
    (hrounds : text.length ≤ rounds) (hp : p + text.length < 127)
    (hat : TextAt mess p (text ++ [enter])) :
    ∃ rest, TakesWord mess enter text (getTokenLoop mess (rounds + 1) p []) rest := by
  induction text generalizing p rounds with
  | nil =>
      rw [List.length_nil, Nat.add_zero] at hp
      rw [getTokenLoop_enter henter rounds hp hat.1]
      exact ⟨[], rfl, List.not_mem_nil, rfl, rfl, nofun, hat, hp⟩
  | cons c text ih =>
      have hrest : ∀ b ∈ text, LineByte b := fun b hb => htext b (List.mem_cons_of_mem c hb)
      rw [List.length_cons] at hrounds hp
      obtain ⟨rounds, rfl⟩ := Nat.exists_eq_succ_of_ne_zero (Nat.ne_of_gt
        (Nat.lt_of_lt_of_le (Nat.zero_lt_succ text.length) hrounds))
      by_cases hspace : c = space
      · subst hspace
        have hnext := TextAt.ne_zero henter hrest hat.2
        rw [getTokenLoop_space (by omega) hat.1 hnext]
        obtain ⟨rest, htakes⟩ := ih hrest (Nat.le_of_succ_le_succ hrounds) (by omega) hat.2
        refine ⟨rest, htakes.returned, htakes.nulFree, ?_, ?_, htakes.line, htakes.rest_at,
          htakes.place⟩
        · rw [wordsOf_cons_space]
          exact htakes.word
        · rw [wordsOf_cons_space]
          exact htakes.words
      · -- the word ends in front of the first blank, or with the text
        have hc := htext c List.mem_cons_self
        by_cases hblank : space ∈ text
        · obtain ⟨word, rest, rfl, hword⟩ := List.eq_append_cons_of_mem hblank
          have hbytes : ∀ b ∈ word, LineByte b ∧ b ≠ space := fun b hb =>
            ⟨hrest b (List.mem_append_left _ hb), fun hb' => hword (hb' ▸ hb)⟩
          have hwords : wordsOf (c :: (word ++ space :: rest)) = (c :: word) :: wordsOf rest :=
            wordsOf_word_append rest (List.cons_ne_nil c word) (by simp [Ne.symm hspace, hword])
          rw [List.length_append, List.length_cons] at hrounds hp
          have hparts : TextAt mess p ((c :: word ++ [space]) ++ (rest ++ [enter])) := by
            simpa using hat
          have hfuel : word.length ≤ rounds + 1 := by omega
          have hread := getTokenLoop_word (.inl rfl) hbytes hc hspace hfuel (by omega)
            (textAt_append.mp hparts).1 []
          rw [if_pos rfl] at hread
          refine ⟨rest, ?_⟩
          rw [hread]
          refine ⟨rfl, ?_, ?_, ?_, ?_, ?_, ?_⟩
          · simp only [List.nil_append, List.mem_cons, not_or]
            exact ⟨hc.notNul.symm, fun hb => (hbytes 0 hb).1.notNul rfl⟩
          · rw [hwords]
            rfl
          · rw [hwords]
            rfl
          · exact fun b hb => hrest b (List.mem_append_right _ (List.mem_cons_of_mem space hb))
          · simpa [Nat.add_assoc] using (textAt_append.mp hparts).2
          · dsimp only
            omega
        · have hbytes : ∀ b ∈ text, LineByte b ∧ b ≠ space := fun b hb =>
            ⟨hrest b hb, fun hb' => hblank (hb' ▸ hb)⟩
          have hwords : wordsOf (c :: text) = [c :: text] :=
            wordsOf_word (List.cons_ne_nil c text) (by simp [Ne.symm hspace, hblank])
          have hfuel : text.length ≤ rounds + 1 := by omega
          have hread := getTokenLoop_word (.inr henter) hbytes hc hspace hfuel (by omega) hat []
          rw [if_neg henter.ne_space] at hread
          refine ⟨[], ?_⟩
          rw [hread]
          refine ⟨rfl, ?_, ?_, ?_, nofun, ?_, ?_⟩
          · simp only [List.nil_append, List.mem_cons, not_or]
            exact ⟨hc.notNul.symm, fun hb => (hbytes 0 hb).1.notNul rfl⟩
          · rw [hwords]
            rfl
          · rw [hwords]
            rfl
          · simpa [Nat.add_assoc] using (textAt_append.mp hat).2
          · rw [List.length_nil]
            dsimp only
            omega

/-- One call of `get_token`; the text that is left for the next one. -/
theorem getToken_text (henter : IsEnter enter) (htext : ∀ b ∈ text, LineByte b) {s : TokenState}
    (hshort : s.lineindex + text.length < 127)
    (hat : TextAt mess s.lineindex (text ++ [enter])) :
    ∃ rest, (getToken mess s).str.val = (wordsOf text).headD [] ∧
      wordsOf rest = (wordsOf text).tail ∧ (∀ b ∈ rest, LineByte b) ∧
      (getToken mess s).lineindex + rest.length < 127 ∧
      TextAt mess (getToken mess s).lineindex (rest ++ [enter]) := by
  have hfuel : text.length ≤ 126 := by omega
  obtain ⟨rest, htakes⟩ := getTokenLoop_text henter htext hfuel hshort hat
  refine ⟨rest, ?_, htakes.words, htakes.line, htakes.place, htakes.rest_at⟩
  rw [← htakes.word, getToken, TokenState.str, if_pos htakes.returned]
  rw [ofBuffer_append_nul, CStr.ofBuffer_val_of_nulFree htakes.nulFree]

/-- The calls of `get_token` return the words of the line and nothing behind them, whatever
follows the line and whatever was in `token`. -/
theorem getTokens_words (henter : IsEnter enter) (htext : ∀ b ∈ text, LineByte b)
    {s : TokenState} (hshort : s.lineindex + text.length < 127)
    (hat : TextAt mess s.lineindex (text ++ [enter])) (n : ℕ) :
    (getTokens mess n s).map CStr.val = (wordsOf text ++ List.replicate n []).take n := by
  induction n generalizing text s with
  | zero => rfl
  | succ n ih =>
      obtain ⟨rest, hword, hwords, hline, hplace, hrest⟩ := getToken_text henter htext hshort hat
      rw [getTokens, List.map_cons, hword, ih hline hplace hrest, hwords]
      cases wordsOf text with
      | nil => simp [List.replicate_succ]
      | cons word words => simp [List.take_append, List.replicate_succ']

end

/-- Two words with blanks around them, in front of an older line. -/
theorem getTokens_words_typed :
    (getTokens (fun i => (bytes "  /set  node \nold\n").getD i 0) 3
        ⟨bytes "stale", 0⟩).map CStr.val = [bytes "/set", bytes "node", []] :=
  have htext : ∀ b ∈ bytes "  /set  node ", LineByte b := by decide +kernel
  have henter : IsEnter lf := .inr rfl
  getTokens_words henter htext (by decide)
    (by repeat' first | exact trivial | refine ⟨by decide, ?_⟩) 3

end ToxRelayer
