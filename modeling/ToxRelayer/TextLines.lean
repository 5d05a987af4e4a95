import ToxRelayer.CString

/-!
# Lines of a text read through a buffer

`fgets` with a buffer of a given size, and the lines a text is read as.  A line
that does not fit the buffer comes in pieces.  This file names nothing of the
relay.
-/

namespace TextLines

open CString

/-- The bytes up to the first line feed, which is among them. -/
def throughLf : Bytes → Bytes
  | [] => []
  | b :: rest => if b = lf then [b] else b :: throughLf rest

/-- `fgets` with a buffer of `size` bytes: what it reads and what is left of the
text; `none` at the end. -/
def fgets (size : ℕ) (text : Bytes) : Option (Bytes × Bytes) :=
  if text = [] then none
  else
    let line := throughLf (text.take (size - 1))
    some (line, text.drop line.length)

/-- Reading line by line until one is to stop at: the text from this line on, the
line, and the text behind it. -/
def seek (size : ℕ) (stop : Bytes → Bool) : ℕ → Bytes → Option (Bytes × Bytes × Bytes)
  | 0, _ => none
  | rounds + 1, text =>
      match fgets size text with
      | none => none
      | some (line, rest) =>
          if stop line then some (text, line, rest) else seek size stop rounds rest

/-- As many rounds as there are bytes are enough. -/
def linesFrom (size : ℕ) : ℕ → Bytes → List Bytes
  | 0, _ => []
  | rounds + 1, text =>
      match fgets size text with
      | none => []
      | some (line, rest) => line :: linesFrom size rounds rest

def lines (size : ℕ) (text : Bytes) : List Bytes := linesFrom size text.length text

/-! ## Pieces of lines -/

/-- What one call of `fgets` can read. -/
structure Piece (size : ℕ) (line : Bytes) : Prop where
  nonempty : line ≠ []
  oneLine : lf ∉ line.dropLast
  fits : line.length < size

/-- What a call reads whatever follows. -/
structure Closed (size : ℕ) (line : Bytes) : Prop extends Piece size line where
  ends : line.getLast? = some lf ∨ line.length + 1 = size

/-- The pieces of a text: only the last one may end where the text does. -/
def IsText (size : ℕ) : List Bytes → Prop
  | [] => True
  | [line] => Piece size line
  | line :: next :: rest => Closed size line ∧ IsText size (next :: rest)

section

variable {size : ℕ} {line rest : Bytes}

theorem throughLf_prefix (text : Bytes) : throughLf text <+: text := by
  induction text with
  | nil => exact List.prefix_rfl
  | cons b text ih =>
      rw [throughLf]
      split
      · exact ⟨text, rfl⟩
      · exact (List.prefix_cons_inj b).mpr ih

theorem throughLf_of_not_mem (hline : lf ∉ line) (rest : Bytes) :
    throughLf (line ++ rest) = line ++ throughLf rest := by
  induction line with
  | nil => rfl
  | cons b line ih =>
      obtain ⟨hb, hline⟩ := not_or.mp (List.mem_cons.not.mp hline)
      rw [List.cons_append, throughLf, if_neg (Ne.symm hb), ih hline]
      rfl

theorem throughLf_line (hline : lf ∉ line) (rest : Bytes) :
    throughLf (line ++ lf :: rest) = line ++ [lf] := by
  rw [throughLf_of_not_mem hline, throughLf, if_pos rfl]

theorem throughLf_oneLine (text : Bytes) : lf ∉ (throughLf text).dropLast := by
  induction text with
  | nil => exact List.not_mem_nil
  | cons b text ih =>
      rw [throughLf]
      split
      · exact List.not_mem_nil
      · rename_i hb
        intro hmem
        have hcons := List.mem_of_mem_dropLast hmem
        cases hrest : throughLf text with
        | nil =>
            rw [hrest] at hmem
            exact absurd hmem List.not_mem_nil
        | cons c rest =>
            rw [hrest, List.dropLast_cons_cons] at hmem
            rcases List.mem_cons.mp hmem with hsame | hrestMem
            · exact hb hsame.symm
            · exact ih (hrest ▸ hrestMem)

/-- A piece has a line feed at its end or none at all. -/
theorem Piece.cases (hline : Piece size line) :
    (∃ text, line = text ++ [lf] ∧ lf ∉ text) ∨ lf ∉ line := by
  by_cases hmem : lf ∈ line
  · left
    have hsplit := List.dropLast_append_getLast hline.nonempty
    rw [← hsplit, List.mem_append, List.mem_singleton] at hmem
    have hlast : lf = line.getLast hline.nonempty := hmem.resolve_left hline.oneLine
    refine ⟨line.dropLast, ?_, hline.oneLine⟩
    rw [hlast, hsplit]
  · exact .inr hmem

/-- A piece that ends the text, or that is closed, is read as a whole. -/
theorem fgets_piece (hline : Piece size line) (hends : rest = [] ∨ Closed size line) :
    fgets size (line ++ rest) = some (line, rest) := by
  have hsome : line ++ rest ≠ [] := by simp [hline.nonempty]
  have hread : throughLf ((line ++ rest).take (size - 1)) = line := by
    have hfits := hline.fits
    rw [List.take_append, List.take_of_length_le (by omega)]
    rcases hline.cases with ⟨text, rfl, htext⟩ | hfree
    · rw [List.append_assoc]
      exact throughLf_line htext _
    · rw [throughLf_of_not_mem hfree]
      have hnone : rest.take (size - 1 - line.length) = [] := by
        rcases hends with rfl | hclosed
        · exact List.take_nil
        · rcases hclosed.ends with hlast | hfull
          · exact absurd (List.mem_of_getLast? hlast) hfree
          · rw [show size - 1 - line.length = 0 by omega, List.take_zero]
      rw [hnone, throughLf, List.append_nil]
  rw [fgets, if_neg hsome]
  dsimp only
  rw [hread, List.drop_left]

/-- Every call that reads something reads a piece. -/
theorem fgets_some (hsize : 2 ≤ size) {text : Bytes} (hread : fgets size text = some (line, rest)) :
    text = line ++ rest ∧ Piece size line ∧ (rest ≠ [] → Closed size line) := by
  unfold fgets at hread
  split at hread
  · cases hread
  rename_i hsome
  obtain ⟨rfl, rfl⟩ := Prod.mk.inj (Option.some.inj hread)
  have htake := throughLf_prefix (text.take (size - 1))
  have hprefix : throughLf (text.take (size - 1)) <+: text := htake.trans (List.take_prefix _ _)
  have hlength := htake.length_le
  rw [List.length_take] at hlength
  have hpiece : Piece size (throughLf (text.take (size - 1))) := by
    refine ⟨?_, throughLf_oneLine _, by omega⟩
    cases text with
    | nil => exact absurd rfl hsome
    | cons b text =>
        obtain ⟨k, hk⟩ : ∃ k, size - 1 = k + 1 := ⟨size - 2, by omega⟩
        rw [hk, List.take_succ_cons, throughLf]
        split <;> exact List.cons_ne_nil _ _
  refine ⟨(List.prefix_iff_eq_append.mp hprefix).symm, hpiece, ?_⟩
  · intro hrest
    refine ⟨hpiece, ?_⟩
    rcases hpiece.cases with ⟨front, hfront, -⟩ | hfree
    · rw [hfront]
      exact .inl (by simp)
    · right
      -- without a line feed nothing but the buffer ends the line
      have hwhole : throughLf (text.take (size - 1)) = text.take (size - 1) := by
        have hall : lf ∉ text.take (size - 1) := by
          intro hmem
          obtain ⟨front, behind, hsplit, hfront⟩ := List.eq_append_cons_of_mem hmem
          apply hfree
          rw [hsplit, throughLf_line hfront]
          simp
        have happend := throughLf_of_not_mem hall []
        rwa [List.append_nil, throughLf, List.append_nil] at happend
      rw [hwhole, List.length_take] at hrest ⊢
      have hlong : min (size - 1) text.length < text.length := by
        by_contra hshort
        exact hrest (List.drop_of_length_le (not_lt.mp hshort))
      omega

/-! ## Texts as lists of pieces -/

theorem IsText.head {lines : List Bytes} (htext : IsText size (line :: lines)) :
    Piece size line := by
  cases lines with
  | nil => exact htext
  | cons next lines => exact htext.1.toPiece

theorem IsText.tail {lines : List Bytes} (htext : IsText size (line :: lines)) :
    IsText size lines := by
  cases lines with
  | nil => trivial
  | cons next lines => exact htext.2

theorem IsText.piece {lines : List Bytes} (htext : IsText size lines) {line : Bytes}
    (hmem : line ∈ lines) : Piece size line := by
  induction lines with
  | nil => cases hmem
  | cons first lines ih =>
      rcases List.mem_cons.mp hmem with rfl | hrest
      · exact htext.head
      · exact ih htext.tail hrest

theorem IsText.append {before lines : List Bytes} (hbefore : ∀ line ∈ before, Closed size line)
    (htext : IsText size lines) : IsText size (before ++ lines) := by
  induction before with
  | nil => exact htext
  | cons line before ih =>
      obtain ⟨hline, hbefore⟩ := List.forall_mem_cons.mp hbefore
      have hrest := ih hbefore
      rw [List.cons_append]
      cases happend : before ++ lines with
      | nil => exact hline.toPiece
      | cons next rest => exact ⟨hline, happend ▸ hrest⟩

theorem IsText.right {before lines : List Bytes} (htext : IsText size (before ++ lines)) :
    IsText size lines := by
  induction before with
  | nil => exact htext
  | cons line before ih => exact ih htext.tail

theorem IsText.left {before lines : List Bytes} (htext : IsText size (before ++ lines)) :
    IsText size before := by
  induction before with
  | nil => trivial
  | cons line before ih =>
      cases before with
      | nil => exact htext.head
      | cons next before => exact ⟨htext.1, ih htext.tail⟩

/-- What stands before another piece is closed. -/
theorem IsText.closed {before lines : List Bytes} {next : Bytes}
    (htext : IsText size (before ++ next :: lines)) : ∀ line ∈ before, Closed size line := by
  induction before with
  | nil => exact nofun
  | cons first before ih =>
      refine List.forall_mem_cons.mpr ⟨?_, ih htext.tail⟩
      cases before with
      | nil => exact htext.1
      | cons second before => exact htext.1

theorem IsText.flatten_ne_nil {lines : List Bytes} (htext : IsText size (line :: lines)) :
    (line :: lines).flatten ≠ [] := by
  simp [htext.head.nonempty]

theorem IsText.fgets {lines : List Bytes} (htext : IsText size (line :: lines)) :
    fgets size (line :: lines).flatten = some (line, lines.flatten) := by
  rw [List.flatten_cons]
  apply fgets_piece htext.head
  cases lines with
  | nil => exact .inl rfl
  | cons next lines => exact .inr htext.1

theorem IsText.length_le {lines : List Bytes} (htext : IsText size lines) :
    lines.length ≤ lines.flatten.length := by
  induction lines with
  | nil => exact le_rfl
  | cons line lines ih =>
      have hline := List.length_pos_iff.mpr htext.head.nonempty
      have hrest := ih htext.tail
      rw [List.length_cons, List.flatten_cons, List.length_append]
      omega

theorem linesFrom_isText (hsize : 2 ≤ size) (rounds : ℕ) {text : Bytes}
    (hrounds : text.length ≤ rounds) :
    IsText size (linesFrom size rounds text) ∧ (linesFrom size rounds text).flatten = text := by
  induction rounds generalizing text with
  | zero =>
      obtain rfl := List.eq_nil_of_length_eq_zero (Nat.le_zero.mp hrounds)
      exact ⟨trivial, rfl⟩
  | succ rounds ih =>
      rw [linesFrom]
      cases hread : TextLines.fgets size text with
      | none =>
          unfold TextLines.fgets at hread
          split at hread
          · rename_i hempty
            exact ⟨trivial, hempty.symm⟩
          · cases hread
      | some result =>
          obtain ⟨line, rest⟩ := result
          obtain ⟨rfl, hpiece, hclosed⟩ := fgets_some hsize hread
          have hline := List.length_pos_iff.mpr hpiece.nonempty
          rw [List.length_append] at hrounds
          obtain ⟨htext, hflatten⟩ := ih (show rest.length ≤ rounds by omega)
          refine ⟨?_, by rw [List.flatten_cons, hflatten]⟩
          dsimp only
          cases hlines : linesFrom size rounds rest with
          | nil => exact hpiece
          | cons next lines =>
              rw [hlines] at htext hflatten
              exact ⟨hclosed (hflatten ▸ htext.flatten_ne_nil), htext⟩

/-- Every text is read as pieces that make it up. -/
theorem lines_isText (hsize : 2 ≤ size) (text : Bytes) : IsText size (lines size text) :=
  (linesFrom_isText hsize _ le_rfl).1

theorem lines_flatten (hsize : 2 ≤ size) (text : Bytes) : (lines size text).flatten = text :=
  (linesFrom_isText hsize _ le_rfl).2

theorem IsText.linesFrom_eq {lines : List Bytes} (htext : IsText size lines) {rounds : ℕ}
    (hrounds : lines.length ≤ rounds) : linesFrom size rounds lines.flatten = lines := by
  induction lines generalizing rounds with
  | nil =>
      cases rounds with
      | zero => rfl
      | succ rounds => rfl
  | cons line lines ih =>
      obtain ⟨rounds, rfl⟩ : ∃ fewer, rounds = fewer + 1 :=
        ⟨rounds - 1, by rw [List.length_cons] at hrounds; omega⟩
      rw [List.length_cons] at hrounds
      rw [linesFrom, htext.fgets]
      dsimp only
      rw [ih htext.tail (by omega)]

/-- Pieces are read again as they are. -/
theorem IsText.lines_eq {lines : List Bytes} (htext : IsText size lines) :
    TextLines.lines size lines.flatten = lines :=
  htext.linesFrom_eq htext.length_le

/-! ## Looking for a line -/

variable {stop : Bytes → Bool}

theorem IsText.seek_none {lines : List Bytes} (htext : IsText size lines)
    (hstop : ∀ line ∈ lines, stop line = false) (rounds : ℕ) :
    seek size stop rounds lines.flatten = none := by
  induction rounds generalizing lines with
  | zero => rfl
  | succ rounds ih =>
      cases lines with
      | nil => rfl
      | cons line lines =>
          obtain ⟨hline, hrest⟩ := List.forall_mem_cons.mp hstop
          rw [seek, htext.fgets]
          simp only [hline, Bool.false_eq_true, if_false]
          exact ih htext.tail hrest

theorem IsText.seek_some {before after : List Bytes}
    (htext : IsText size (before ++ line :: after)) (hbefore : ∀ line ∈ before, stop line = false)
    (hline : stop line = true) {rounds : ℕ} (hrounds : before.length < rounds) :
    seek size stop rounds (before ++ line :: after).flatten =
      some ((line :: after).flatten, line, after.flatten) := by
  induction before generalizing rounds with
  | nil =>
      obtain ⟨rounds, rfl⟩ : ∃ fewer, rounds = fewer + 1 := ⟨rounds - 1, by omega⟩
      rw [List.nil_append] at htext ⊢
      rw [seek, htext.fgets]
      exact if_pos hline
  | cons first before ih =>
      obtain ⟨rounds, rfl⟩ : ∃ fewer, rounds = fewer + 1 := ⟨rounds - 1, by omega⟩
      obtain ⟨hfirst, hbefore⟩ := List.forall_mem_cons.mp hbefore
      rw [List.cons_append] at htext ⊢
      rw [seek, htext.fgets]
      simp only [hfirst, Bool.false_eq_true, if_false]
      rw [List.length_cons] at hrounds
      exact ih htext.tail hbefore (by omega)

end

/-- A list has a first element with a property, or none. -/
theorem exists_first (stop : Bytes → Bool) (lines : List Bytes) :
    (∀ line ∈ lines, stop line = false) ∨
      ∃ before line after, lines = before ++ line :: after ∧
        (∀ line ∈ before, stop line = false) ∧ stop line = true := by
  induction lines with
  | nil => exact .inl nofun
  | cons first lines ih =>
      cases hfirst : stop first with
      | true => exact .inr ⟨[], first, lines, rfl, nofun, hfirst⟩
      | false =>
          rcases ih with hnone | ⟨before, line, after, rfl, hbefore, hline⟩
          · exact .inl (List.forall_mem_cons.mpr ⟨hfirst, hnone⟩)
          · exact .inr ⟨first :: before, line, after, rfl,
              List.forall_mem_cons.mpr ⟨hfirst, hbefore⟩, hline⟩

end TextLines
