import ToxRelayer.TelegramRoundTrip

/-!
# Body lines longer than the line buffer

The lines of a record, split at CR LF, a lone CR or LF, beside the line buffer
of the decoder.  A line that does not fit is cut, also where it is a line of the
body, and the terminator is looked for in what is left of it.
-/

namespace ToxRelayer

open CString

def textLines : Bytes → List Bytes
  | [] => [[]]
  | b :: rest =>
      -- the LF behind the CR ends the line
      if b = cr ∧ rest.head? = some lf then textLines rest
      else if b = lf ∨ b = cr then [] :: textLines rest
      else
        match textLines rest with
        | [] => [[b]]
        | line :: lines => (b :: line) :: lines

/-- The body whose lines are given: each followed by an LF, up to the first that
ends in the terminator; `none` when no line does. -/
def bodyOfLines : List Bytes → Option Bytes
  | [] => none
  | line :: lines =>
      if tgTerminator <:+ line then some (line.take (line.length - tgTerminator.length))
      else (bodyOfLines lines).map fun body => line ++ lf :: body

/-- A line ends in the terminator, and it and every line before it fit the line
buffer. -/
def BodyLinesFit : List Bytes → Prop
  | [] => False
  | line :: lines => line.length < tgLineSize ∧ (tgTerminator <:+ line ∨ BodyLinesFit lines)

theorem tgEndsInTerminator_iff (line : Bytes) :
    tgEndsInTerminator line = true ↔ tgTerminator <:+ line := by
  rw [tgEndsInTerminator, decide_eq_true_iff, List.suffix_iff_eq_drop]
  constructor
  · intro hends
    exact hends.2.symm
  · intro hdrop
    refine ⟨?_, hdrop.symm⟩
    have hlength := congrArg List.length hdrop
    rw [List.length_drop] at hlength
    omega

/-! ## Reading one line -/

section

variable {line rest : Bytes}

theorem textLines_append (hlf : lf ∉ line) (hcr : cr ∉ line) {tail : Bytes} {first : Bytes}
    {lines : List Bytes} (htail : textLines tail = first :: lines) :
    textLines (line ++ tail) = (line ++ first) :: lines := by
  induction line with
  | nil => exact htail
  | cons b line ih =>
      obtain ⟨hblf, hlf⟩ := not_or.mp (List.mem_cons.not.mp hlf)
      obtain ⟨hbcr, hcr⟩ := not_or.mp (List.mem_cons.not.mp hcr)
      rw [List.cons_append, textLines, if_neg (fun hend => hbcr hend.1.symm),
        if_neg (not_or.mpr ⟨fun hend => hblf hend.symm, fun hend => hbcr hend.symm⟩), ih hlf hcr]
      rfl

theorem textLines_lf (rest : Bytes) : textLines (lf :: rest) = [] :: textLines rest := by
  have hne : ¬ lf = cr := by decide
  rw [textLines, if_neg (fun hend => hne hend.1), if_pos (.inl rfl)]

theorem textLines_cr (rest : Bytes) :
    textLines (cr :: rest) = [] :: textLines (skipByte lf rest) := by
  have hne : ¬ cr = lf := by decide
  rw [textLines]
  cases rest with
  | nil => rfl
  | cons b rest =>
      by_cases hb : b = lf
      · subst hb
        rw [if_pos ⟨rfl, rfl⟩, textLines_lf, skipByte, if_pos rfl]
      · rw [if_neg (by simp [hb]), if_pos (.inr rfl), skipByte, if_neg hb]

theorem skipByte_suffix (b : UInt8) (c : Bytes) : skipByte b c <:+ c := by
  cases c with
  | nil => exact List.suffix_rfl
  | cons a c =>
      rw [skipByte]
      split
      · exact List.suffix_cons a c
      · exact List.suffix_rfl

theorem exists_lineBreak (c : Bytes) :
    ∃ line rest, c = line ++ rest ∧ lf ∉ line ∧ cr ∉ line ∧
      (rest = [] ∨ ∃ b after, rest = b :: after ∧ (b = lf ∨ b = cr)) := by
  induction c with
  | nil => exact ⟨[], [], rfl, List.not_mem_nil, List.not_mem_nil, .inl rfl⟩
  | cons b c ih =>
      by_cases hb : b = lf ∨ b = cr
      · exact ⟨[], b :: c, rfl, List.not_mem_nil, List.not_mem_nil, .inr ⟨b, c, rfl, hb⟩⟩
      · obtain ⟨line, rest, rfl, hlf, hcr, hrest⟩ := ih
        obtain ⟨hblf, hbcr⟩ := not_or.mp hb
        refine ⟨b :: line, rest, rfl, ?_, ?_, hrest⟩
        · simp [hlf, Ne.symm hblf]
        · simp [hcr, Ne.symm hbcr]

theorem tgCopyLine_stops {b : UInt8} (hb : b = lf ∨ b = cr) (dstSize : ℕ) (rest dst : Bytes)
    (truncated : Bool) :
    tgCopyLine dstSize (b :: rest) dst truncated = (dst, truncated, b :: rest) := by
  rw [tgCopyLine, if_pos hb]

/-- A call of `tg_next_line` takes the first line, as far as it fits, and goes on
with the others unless the input is used up. -/
theorem tgNextLine_lines {c dst rest : Bytes} {complete : Bool} {dstSize : ℕ}
    (hread : tgNextLine c dstSize = some (dst, complete, rest)) :
    ∃ line lines, textLines c = line :: lines ∧ dst = line.take (dstSize - 1) ∧
      complete = decide (line.length < dstSize) ∧ lf ∉ line ∧ cr ∉ line ∧ line <:+: c ∧
        (rest ≠ [] → lines = textLines rest ∧ ∃ lineEnd ≠ [], c = line ++ lineEnd ++ rest) := by
  unfold tgNextLine at hread
  split at hread
  · cases hread
  · rename_i hguard
    have hsize : 0 < dstSize := by
      have hne := (not_or.mp hguard).2
      omega
    obtain ⟨line, tail, rfl, hlf, hcr, htail⟩ := exists_lineBreak c
    have hcopy := tgCopyLine_append line tail [] false hlf hcr hsize
    rw [List.length_nil, Nat.sub_zero, List.nil_append] at hcopy
    simp only [Option.some.injEq, Prod.mk.injEq] at hread
    obtain ⟨hdst, hflag, hrest⟩ := hread
    have hoccurs : line <:+: line ++ tail := (List.prefix_append _ _).isInfix
    have hwhole : (!(false || decide (dstSize - 1 < line.length))) =
        decide (line.length < dstSize) := by
      rw [Bool.false_or, ← decide_not, decide_eq_decide]
      omega
    rcases htail with rfl | ⟨b, after, rfl, hb⟩
    · rw [hcopy] at hdst hflag hrest
      refine ⟨line, [], ?_, hdst.symm, hflag.symm.trans hwhole, hlf, hcr, hoccurs,
        fun hmore => absurd hrest.symm hmore⟩
      have hlines := textLines_append hlf hcr (show textLines [] = [[]] from rfl)
      rw [List.append_nil] at hlines ⊢
      exact hlines
    · rw [hcopy, tgCopyLine_stops hb] at hdst hflag hrest
      rcases hb with rfl | rfl
      · have hskip : skipByte lf (skipByte cr (lf :: after)) = after := by
          rw [skipByte, if_neg (by decide), skipByte, if_pos rfl]
        have hlines := textLines_append hlf hcr (textLines_lf after)
        rw [List.append_nil] at hlines
        refine ⟨line, textLines after, hlines, hdst.symm, hflag.symm.trans hwhole, hlf, hcr,
          hoccurs, ?_⟩
        rintro -
        rw [← hrest, hskip]
        exact ⟨rfl, [lf], List.cons_ne_nil _ _, by simp⟩
      · have hskip : skipByte cr (cr :: after) = after := by
          rw [skipByte, if_pos rfl]
        have hlines := textLines_append hlf hcr (textLines_cr after)
        rw [List.append_nil] at hlines
        refine ⟨line, textLines (skipByte lf after), hlines, hdst.symm, hflag.symm.trans hwhole, hlf,
          hcr, hoccurs, ?_⟩
        rintro -
        rw [← hrest, hskip]
        obtain ⟨skipped, hafter⟩ := skipByte_suffix lf after
        refine ⟨rfl, cr :: skipped, List.cons_ne_nil _ _, ?_⟩
        rw [List.append_assoc, List.cons_append, hafter]

end

/-! ## The body -/

/-- A body whose first line is too long is longer than what the decoder keeps of a
last line, and has no LF where the decoder puts one behind any other. -/
theorem bodyOfLines_of_long {line body : Bytes} {lines : List Bytes} (hlf : lf ∉ line)
    (hlong : tgLineSize ≤ line.length) (hbody : bodyOfLines (line :: lines) = some body) :
    tgLineSize - tgTerminator.length ≤ body.length ∧ body[tgLineSize - 1]? ≠ some lf := by
  have hterminator : tgTerminator.length < tgLineSize := by decide
  rw [bodyOfLines] at hbody
  split at hbody
  · obtain rfl := Option.some.inj hbody
    refine ⟨?_, ?_⟩
    · rw [List.length_take]
      omega
    · intro hfeed
      exact hlf (List.mem_of_mem_take (List.mem_of_getElem? hfeed))
  · obtain ⟨later, -, rfl⟩ := Option.map_eq_some_iff.mp hbody
    refine ⟨?_, ?_⟩
    · rw [List.length_append]
      omega
    · rw [List.getElem?_append_left (by omega)]
      intro hfeed
      exact hlf (List.mem_of_getElem? hfeed)

/-- A round of the body loop ends the body with what is left of its line, or adds
that and an LF and goes on. -/
theorem tgReadBody_cases {rounds : ℕ} {c acc out : Bytes} (hnul : (0 : UInt8) ∉ c)
    (hread : tgReadBody (rounds + 1) c acc = some out) :
    ∃ line lines, textLines c = line :: lines ∧ TgPlainLine line ∧ line.length ≤ c.length ∧
      (tgTerminator <:+ line.take (tgLineSize - 1) ∧
          out = acc ++ (line.take (tgLineSize - 1)).take
            ((line.take (tgLineSize - 1)).length - tgTerminator.length) ∨
        ¬ tgTerminator <:+ line.take (tgLineSize - 1) ∧
          ∃ rest, lines = textLines rest ∧ (0 : UInt8) ∉ rest ∧
            line.length + rest.length < c.length ∧
            tgReadBody rounds rest (acc ++ line.take (tgLineSize - 1) ++ [lf]) = some out) := by
  rw [tgReadBody] at hread
  split at hread
  · cases hread
  · rename_i buffer complete rest hline
    obtain ⟨line, lines, hlines, rfl, -, hlf, hcr, hoccurs, hrest⟩ := tgNextLine_lines hline
    have hfree : (0 : UInt8) ∉ line := fun hmem => hnul (hoccurs.subset hmem)
    have hbuffer : (CStr.ofBuffer (line.take (tgLineSize - 1))).val =
        line.take (tgLineSize - 1) := by
      apply CStr.ofBuffer_val_of_nulFree
      exact fun hmem => hfree (List.mem_of_mem_take hmem)
    rw [hbuffer] at hread
    simp only [tgEndsInTerminator_iff] at hread
    refine ⟨line, lines, hlines, ⟨hlf, hcr, hfree⟩, hoccurs.length_le, ?_⟩
    split at hread
    · rename_i hends
      split at hread
      · cases hread
      · exact .inl ⟨hends, (Option.some.inj hread).symm⟩
    · rename_i hopen
      split at hread
      · cases hread
      · have hmore : rest ≠ [] := by
          rintro rfl
          cases rounds with
          | zero => cases hread
          | succ rounds => simp [tgReadBody, tgNextLine] at hread
        obtain ⟨rfl, lineEnd, hend, rfl⟩ := hrest hmore
        have hpos := List.length_pos_iff.mpr hend
        refine .inr ⟨hopen, rest, rfl, fun hmem => hnul (List.mem_append_right _ hmem), ?_, hread⟩
        simp only [List.length_append]
        omega

theorem tgReadBody_unaltered_iff {rounds : ℕ} {c acc out : Bytes} (hnul : (0 : UInt8) ∉ c)
    (hread : tgReadBody rounds c acc = some out) :
    ∃ body, out = acc ++ body ∧
      (bodyOfLines (textLines c) = some body ↔ BodyLinesFit (textLines c)) := by
  induction rounds generalizing c acc with
  | zero => cases hread
  | succ rounds ih =>
      obtain ⟨line, lines, hlines, ⟨hlf, -, -⟩, -, hround⟩ := tgReadBody_cases hnul hread
      rw [hlines, BodyLinesFit]
      by_cases hfits : line.length < tgLineSize
      · -- the line is whole, so the decoder does with it what the specification says
        rw [List.take_of_length_le (by omega)] at hround
        rw [bodyOfLines]
        rcases hround with ⟨hends, rfl⟩ | ⟨hopen, rest, rfl, hrest, -, hread'⟩
        · refine ⟨_, rfl, ?_⟩
          rw [if_pos hends]
          exact iff_of_true rfl ⟨hfits, .inl hends⟩
        · obtain ⟨body, rfl, hbody⟩ := ih hrest hread'
          refine ⟨line ++ lf :: body, by simp, ?_⟩
          have hinj : Function.Injective fun body => line ++ lf :: body := by
            intro body body' hsame
            simpa using hsame
          have hmap : some (line ++ lf :: body) =
              (some body).map fun body => line ++ lf :: body := rfl
          rw [if_neg hopen, hmap, (Option.map_injective hinj).eq_iff, hbody]
          simp only [hfits, hopen, true_and, false_or]
      · have hlength : (line.take (tgLineSize - 1)).length = tgLineSize - 1 := by
          rw [List.length_take]
          omega
        have hsize : tgTerminator.length < tgLineSize := by decide
        have hlong : tgLineSize ≤ line.length := Nat.le_of_not_lt hfits
        rcases hround with ⟨hends, rfl⟩ | ⟨hopen, rest, rfl, hrest, -, hread'⟩
        · refine ⟨_, rfl, iff_of_false ?_ (fun hfit => hfits hfit.1)⟩
          intro hbody
          have hshort := (bodyOfLines_of_long hlf hlong hbody).1
          rw [List.length_take, hlength] at hshort
          omega
        · obtain ⟨body, rfl, -⟩ := ih hrest hread'
          refine ⟨line.take (tgLineSize - 1) ++ lf :: body, by simp, ?_⟩
          refine iff_of_false ?_ (fun hfit => hfits hfit.1)
          intro hbody
          apply (bodyOfLines_of_long hlf hlong hbody).2
          rw [List.getElem?_append_right (by omega), hlength, Nat.sub_self]
          rfl

theorem tgReadBody_nulFree {rounds : ℕ} {c acc out : Bytes} (hnul : (0 : UInt8) ∉ c)
    (hacc : (0 : UInt8) ∉ acc) (hread : tgReadBody rounds c acc = some out) :
    (0 : UInt8) ∉ out := by
  induction rounds generalizing c acc with
  | zero => cases hread
  | succ rounds ih =>
      obtain ⟨line, lines, -, ⟨-, -, hfree⟩, -, ⟨-, rfl⟩ | ⟨-, rest, -, hrest, -, hread'⟩⟩ :=
        tgReadBody_cases hnul hread
      · intro hmem
        rcases List.mem_append.mp hmem with hbefore | hkept
        · exact hacc hbefore
        · exact hfree (List.mem_of_mem_take (List.mem_of_mem_take hkept))
      · apply ih hrest ?_ hread'
        intro hmem
        rcases List.mem_append.mp hmem with hbefore | hfeed
        · rcases List.mem_append.mp hbefore with hbefore | hkept
          · exact hacc hbefore
          · exact hfree (List.mem_of_mem_take hkept)
        · exact absurd (List.mem_singleton.mp hfeed) (by decide)

theorem tgReadBody_length_le {rounds : ℕ} {c acc out : Bytes} (hnul : (0 : UInt8) ∉ c)
    (hread : tgReadBody rounds c acc = some out) : out.length ≤ acc.length + c.length := by
  induction rounds generalizing c acc with
  | zero => cases hread
  | succ rounds ih =>
      obtain ⟨line, lines, -, -, hle, ⟨-, rfl⟩ | ⟨-, rest, -, hrest, hlt, hread'⟩⟩ :=
        tgReadBody_cases hnul hread
      · rw [List.length_append, List.length_take, List.length_take]
        omega
      · have hlater := ih hrest hread'
        rw [List.length_append, List.length_append, List.length_take, List.length_singleton]
          at hlater
        omega

/-! ## The record -/

/-- A header line that another line follows has been read whole. -/
theorem tgReadLine_lines {c rest : Bytes} {read : CStr} (hread : tgReadLine c = some (read, rest))
    (hmore : rest ≠ []) :
    ∃ line, textLines c = line :: textLines rest ∧ read = CStr.ofBuffer line ∧ rest <:+ c ∧
      rest.length < c.length := by
  unfold tgReadLine at hread
  split at hread
  · rename_i buffer after hnext
    obtain ⟨line, lines, hlines, rfl, hwhole, -, -, -, hrest⟩ := tgNextLine_lines hnext
    simp only [Option.some.injEq, Prod.mk.injEq] at hread
    obtain ⟨rfl, rfl⟩ := hread
    obtain ⟨rfl, lineEnd, hend, rfl⟩ := hrest hmore
    have hpos := List.length_pos_iff.mpr hend
    have hlength : line.length < tgLineSize := of_decide_eq_true hwhole.symm
    refine ⟨line, hlines, ?_, List.suffix_append _ _, ?_⟩
    · rw [List.take_of_length_le (by omega)]
    · simp only [List.length_append]
      omega
  · cases hread

theorem tgReadKey_lines {c rest : Bytes} {key : CStr} (hread : tgReadKey c = some (key, rest))
    (hmore : rest ≠ []) :
    ∃ line, textLines c = line :: textLines rest ∧ key = CStr.ofBuffer line ∧ rest <:+ c ∧
      rest.length < c.length := by
  unfold tgReadKey at hread
  split at hread
  · rename_i line after hline
    split at hread
    · cases hread
    · simp only [Option.some.injEq, Prod.mk.injEq] at hread
      obtain ⟨rfl, rfl⟩ := hread
      exact tgReadLine_lines hline hmore
  · cases hread

/-- The header of a decoded record is read from its first four lines. -/
theorem tgDecode_headerLines {raw : Bytes} {tg : TgMessage} (hdecode : tgDecode raw = some tg) :
    ∃ header receiver sender metaLine lines,
      textLines raw = header :: receiver :: sender :: metaLine :: lines ∧
        tgHeaderKind (CStr.ofBuffer header) = some tg.kind ∧
        tg.receiver = CStr.ofBuffer receiver ∧ tg.sender = CStr.ofBuffer sender ∧
        tgReadMeta tg.kind (CStr.ofBuffer metaLine) = some (tg.sn, tg.snTo, tg.timestamp) := by
  obtain ⟨_, _, c1, c2, c3, c4, body, ⟨hfirst, hmore1, hkind⟩, ⟨hsecond, hmore2⟩,
    ⟨hthird, hmore3⟩, ⟨hfourth, hmore4, hnumbers⟩, -, -⟩ := tgDecode_steps hdecode
  obtain ⟨header, hlines1, rfl, -, -⟩ := tgReadLine_lines hfirst hmore1
  obtain ⟨receiver, hlines2, hreceiver, -, -⟩ := tgReadKey_lines hsecond hmore2
  obtain ⟨sender, hlines3, hsender, -, -⟩ := tgReadKey_lines hthird hmore3
  obtain ⟨metaLine, hlines4, rfl, -, -⟩ := tgReadLine_lines hfourth hmore4
  refine ⟨header, receiver, sender, metaLine, textLines c4, ?_, hkind, hreceiver, hsender, hnumbers⟩
  rw [hlines1, hlines2, hlines3, hlines4]

/-- The body of a decoded record is read from the lines behind the header. -/
theorem tgDecode_bodyLines {raw : Bytes} {tg : TgMessage} (hdecode : tgDecode raw = some tg) :
    ∃ c body, textLines c = (textLines raw).drop 4 ∧ c <:+ raw ∧ c.length < raw.length ∧
      tgReadBody c.length c [] = some body ∧ tg.body = CStr.ofBuffer body := by
  obtain ⟨_, _, c1, c2, c3, c4, body, ⟨hfirst, hmore1, -⟩, ⟨hsecond, hmore2⟩, ⟨hthird, hmore3⟩,
    ⟨hfourth, hmore4, -⟩, hread, hbody⟩ := tgDecode_steps hdecode
  obtain ⟨_, hlines1, -, hsuffix1, hlt1⟩ := tgReadLine_lines hfirst hmore1
  obtain ⟨_, hlines2, -, hsuffix2, hlt2⟩ := tgReadKey_lines hsecond hmore2
  obtain ⟨_, hlines3, -, hsuffix3, hlt3⟩ := tgReadKey_lines hthird hmore3
  obtain ⟨_, hlines4, -, hsuffix4, hlt4⟩ := tgReadLine_lines hfourth hmore4
  refine ⟨c4, body, ?_, ?_, by omega, hread, hbody⟩
  · rw [hlines1, hlines2, hlines3, hlines4]
    rfl
  · exact ((hsuffix4.trans hsuffix3).trans hsuffix2).trans hsuffix1

/-- The header is not part of the body. -/
theorem tgDecode_body_lt {raw : Bytes} {tg : TgMessage} (hnul : (0 : UInt8) ∉ raw)
    (hdecode : tgDecode raw = some tg) : tg.body.length < raw.length := by
  obtain ⟨c, body, -, hsuffix, hlt, hread, hbody⟩ := tgDecode_bodyLines hdecode
  have hle := tgReadBody_length_le (fun hmem => hnul (hsuffix.subset hmem)) hread
  have hcut := CStr.ofBuffer_length_le body
  rw [List.length_nil] at hle
  rw [hbody, CStr.length]
  omega

/-- A decoded record has the body its lines give exactly when all of them fit the line
buffer. -/
theorem tgDecode_unaltered_iff {raw : Bytes} {tg : TgMessage} (hnul : (0 : UInt8) ∉ raw)
    (hdecode : tgDecode raw = some tg) :
    bodyOfLines ((textLines raw).drop 4) = some tg.body.val ↔
      BodyLinesFit ((textLines raw).drop 4) := by
  obtain ⟨c, out, hlines, hsuffix, -, hread, hbody⟩ := tgDecode_bodyLines hdecode
  have hnulBehind : (0 : UInt8) ∉ c := fun hmem => hnul (hsuffix.subset hmem)
  have hfree := tgReadBody_nulFree hnulBehind List.not_mem_nil hread
  obtain ⟨_, rfl, hunaltered⟩ := tgReadBody_unaltered_iff hnulBehind hread
  rw [← hlines, ← hunaltered, hbody, CStr.ofBuffer_val_of_nulFree hfree]

theorem tgDecode_unaltered_iff_lines :
    let raw := bytes "ZCZC TEXT\nAAAA\r\nAAAA\r7 100\nline one\nline twoNNNN\n"
    let body : CStr := ⟨bytes "line one\nline two", by decide⟩
    tgDecode raw = some ⟨.text, sampleKey, sampleKey, 7, 0, 100, body⟩ ∧
      (bodyOfLines ((textLines raw).drop 4) = some body.val ↔
        BodyLinesFit ((textLines raw).drop 4)) := by
  intro raw body
  have hdecode : tgDecode raw = some ⟨.text, sampleKey, sampleKey, 7, 0, 100, body⟩ := by
    decide +kernel
  exact ⟨hdecode, tgDecode_unaltered_iff (by decide +kernel) hdecode⟩

/-- Seven of 150 letters are dropped. -/
theorem tgDecode_drops_bytes :
    ¬ ∀ (raw : Bytes) (tg : TgMessage), (0 : UInt8) ∉ raw → tgDecode raw = some tg →
      tg.kind = .text → bodyOfLines ((textLines raw).drop 4) = some tg.body.val := by
  intro hall
  let raw := bytes "ZCZC TEXT\nAAAA\nAAAA\n7 100\n" ++
    (List.replicate 150 65 ++ bytes "\nNNNN\n")
  let body : CStr := ⟨List.replicate 143 65 ++ [lf], by decide⟩
  have hbody := hall raw ⟨.text, sampleKey, sampleKey, 7, 0, 100, body⟩
    (by decide +kernel) (by decide +kernel) rfl
  have hlines : bodyOfLines ((textLines raw).drop 4) = some (List.replicate 150 65 ++ [lf]) := by
    decide +kernel
  rw [hlines] at hbody
  exact absurd hbody (by decide +kernel)

end ToxRelayer
