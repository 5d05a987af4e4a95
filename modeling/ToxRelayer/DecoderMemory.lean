import ToxRelayer.CheckedMemory
import ToxRelayer.TelegramLines

/-!
# The buffers of the decoder

`Telegram` decodes lists of bytes.  Here the decoder walks a cursor over memory it
may read only below `len`, and writes its line buffer and the fields of its result,
every access checked; a loop that does not return within its rounds is `none` too.
-/

namespace ToxRelayer

open CString CheckedMemory

/-- `tg_cursor` -/
structure TgCursor where
  data : ℕ → UInt8
  len : ℕ
  pos : ℕ

namespace TgCursor

def load (c : TgCursor) (i : ℕ) : Option UInt8 := if i < c.len then some (c.data i) else none

def advance (c : TgCursor) : TgCursor := { c with pos := c.pos + 1 }

/-- The bytes from the cursor on. -/
def rest (c : TgCursor) : Bytes := (List.range' c.pos (c.len - c.pos)).map c.data

end TgCursor

/-! ## The decoder over memory -/

/-- The copying loop of `tg_next_line` -/
def tgCopyLineMem (dstSize : ℕ) :
    ℕ → TgCursor → Bytes → ℕ → Bool → Option (TgCursor × Bytes × ℕ × Bool)
  | 0, _, _, _, _ => none
  | rounds + 1, c, dst, i, truncated =>
      if c.pos < c.len then do
        let b ← c.load c.pos
        if b = lf ∨ b = cr then some (c, dst, i, truncated)
        else if i + 1 < dstSize then do
          let dst ← store dst i b
          tgCopyLineMem dstSize rounds c.advance dst (i + 1) truncated
        else tgCopyLineMem dstSize rounds c.advance dst i true
      else some (c, dst, i, truncated)

def skipByteMem (b : UInt8) (c : TgCursor) : Option TgCursor :=
  if c.pos < c.len then (c.load c.pos).map fun a => if a = b then c.advance else c
  else some c

/-- The inner `none` is the result `false`. -/
def tgNextLineMem (c : TgCursor) (dst : Bytes) (dstSize : ℕ) :
    Option (Option (TgCursor × Bytes × Bool)) :=
  if c.len ≤ c.pos ∨ dstSize = 0 then some none
  else do
    let (c, dst, i, truncated) ← tgCopyLineMem dstSize (c.len - c.pos + 1) c dst 0 false
    let dst ← store dst i 0
    let c ← skipByteMem cr c
    let c ← skipByteMem lf c
    some (some (c, dst, !truncated))

/-- `strtol(block + i, &end, 10)`; the inner `none` is `end == block + i`, otherwise
`end` is the index. -/
def strtolMem (block : Bytes) (i : ℕ) : Option (Option (Int64 × ℕ)) := do
  let text ← readString 0 (block.drop i)
  some ((strtol text).map fun result => (result.1, i + (text.length - result.2.length)))

/-- In the stages below the inner `none` is `return TG_INVALID`. -/
def tgReadPairMem (separator : UInt8) (line : Bytes) (i : ℕ) : Option (Option (Int64 × Int64)) := do
  match ← strtolMem line i with
  | none => some none
  | some (first, stop) =>
      let b ← load line stop
      if b ≠ separator then some none
      else
        let second ← strtolMem line (stop + 1)
        some (second.map fun second => (first, second.1))

def tgTextMetaMem (line : Bytes) : Option (Option (ℤ × ℤ × Int64)) := do
  match ← tgReadPairMem space line 0 with
  | none => some none
  | some (sn, timestamp) =>
      some (if tgSnValid (intOfLong sn) then some (intOfLong sn, 0, timestamp) else none)

def tgCmdMetaMem (line : Bytes) : Option (Option (ℤ × ℤ × Int64)) := do
  let r ← load line 0
  if r ≠ 82 then some none
  else
    let colon ← load line 1
    if colon ≠ 58 then some none
    else
      match ← tgReadPairMem minus line 2 with
      | none => some none
      | some (start, target) =>
          some (if tgSnValid (intOfLong start) ∧ tgSnValid (intOfLong target) then
            some (intOfLong start, intOfLong target, 0) else none)

def tgReadMetaMem (kind : TgKind) (line : Bytes) : Option (Option (ℤ × ℤ × Int64)) :=
  if kind = .text then tgTextMetaMem line else tgCmdMetaMem line

/-- A header line that is complete. -/
def tgReadLineMem (c : TgCursor) (line : Bytes) : Option (Option (TgCursor × Bytes)) := do
  match ← tgNextLineMem c line tgLineSize with
  | some (c, line, true) => some (some (c, line))
  | _ => some none

/-- `field` is the receiver or the sender of the result. -/
def tgReadKeyMem (c : TgCursor) (line field : Bytes) :
    Option (Option (TgCursor × Bytes × Bytes)) := do
  match ← tgReadLineMem c line with
  | none => some none
  | some (c, line) =>
      let first ← load line 0
      let text ← readString 0 line
      if first = 0 ∨ tgFieldMax ≤ text.length then some none
      else
        let field ← copyTo field 0 (text ++ [0])
        some (some (c, line, field))

/-- `strcmp(line + line_len - 4, "NNNN") == 0`, looked at when there are four bytes. -/
def tgEndsInTerminatorMem (line : Bytes) (lineLen : ℕ) : Option Bool :=
  if tgTerminator.length ≤ lineLen then
    (readString 0 (line.drop (lineLen - tgTerminator.length))).map fun tail =>
      decide (tail = tgTerminator)
  else some false

/-- The body loop: `terminated` and the body. -/
def tgReadBodyMem : ℕ → TgCursor → Bytes → Bytes → ℕ → Option (Bool × Bytes)
  | 0, _, _, _, _ => none
  | rounds + 1, c, line, body, bodyLen => do
      match ← tgNextLineMem c line tgLineSize with
      | none => some (false, body)
      | some (c, line, _) =>
          let text ← readString 0 line
          let closes ← tgEndsInTerminatorMem line text.length
          if closes then
            let keep := text.length - tgTerminator.length
            if tgBodyMax ≤ bodyLen + keep + 1 then some (false, body)
            else
              let body ← copyTo body bodyLen (line.take keep)
              let body ← store body (bodyLen + keep) 0
              some (true, body)
          else if tgBodyMax ≤ bodyLen + text.length + 1 then some (false, body)
          else
            let body ← copyTo body bodyLen (line.take text.length)
            let body ← store body (bodyLen + text.length) lf
            let body ← store body (bodyLen + text.length + 1) 0
            tgReadBodyMem rounds c line body (bodyLen + text.length + 1)

/-- `tg_message`, with its character arrays. -/
structure TgMessageMem where
  kind : TgKind
  receiver : Bytes
  sender : Bytes
  sn : ℤ
  snTo : ℤ
  timestamp : Int64
  body : Bytes
  deriving DecidableEq

/-- `memset(out, 0, sizeof(*out))` -/
def TgMessageMem.zero : TgMessageMem where
  kind := .invalid
  receiver := List.replicate tgFieldMax 0
  sender := List.replicate tgFieldMax 0
  sn := 0
  snTo := 0
  timestamp := 0
  body := List.replicate tgBodyMax 0

/-- `tg_decode` from the body on. -/
def tgDecodeBodyMem (kind : TgKind) (out : TgMessageMem) (c : TgCursor) (line : Bytes) :
    Option (TgKind × TgMessageMem) := do
  let (terminated, body) ← tgReadBodyMem (c.len - c.pos + 1) c line out.body 0
  some (if terminated then kind else .invalid, { out with body := body })

/-- From the metadata line on. -/
def tgDecodeMetaMem (kind : TgKind) (out : TgMessageMem) (c : TgCursor) (line : Bytes) :
    Option (TgKind × TgMessageMem) := do
  match ← tgReadLineMem c line with
  | none => some (.invalid, out)
  | some (c, line) =>
      match ← tgReadMetaMem kind line with
      | none => some (.invalid, out)
      | some (sn, snTo, timestamp) =>
          tgDecodeBodyMem kind { out with sn := sn, snTo := snTo, timestamp := timestamp } c line

/-- From the sender on. -/
def tgDecodeSenderMem (kind : TgKind) (out : TgMessageMem) (c : TgCursor) (line : Bytes) :
    Option (TgKind × TgMessageMem) := do
  match ← tgReadKeyMem c line out.sender with
  | none => some (.invalid, out)
  | some (c, line, sender) => tgDecodeMetaMem kind { out with sender := sender } c line

/-- From the receiver on. -/
def tgDecodeReceiverMem (kind : TgKind) (out : TgMessageMem) (c : TgCursor) (line : Bytes) :
    Option (TgKind × TgMessageMem) := do
  match ← tgReadKeyMem c line out.receiver with
  | none => some (.invalid, out)
  | some (c, line, receiver) => tgDecodeSenderMem kind { out with receiver := receiver } c line

def tgDecodeHeaderMem (out : TgMessageMem) (c : TgCursor) (line : Bytes) :
    Option (TgKind × TgMessageMem) := do
  match ← tgReadLineMem c line with
  | none => some (.invalid, out)
  | some (c, line) =>
      let header ← readString 0 line
      match tgHeaderKind (CStr.ofBuffer header) with
      | none => some (.invalid, out)
      | some kind => tgDecodeReceiverMem kind { out with kind := kind } c line

def tgDecodeMem (data : ℕ → UInt8) (len : ℕ) (line : Bytes) (out : TgMessageMem) :
    Option (TgKind × TgMessageMem) :=
  if len = 0 then some (.invalid, out)
  else tgDecodeHeaderMem TgMessageMem.zero ⟨data, len, 0⟩ line

/-! ## Reading one line -/

section

variable {c : TgCursor} {dst : Bytes} {dstSize : ℕ}

namespace TgCursor

theorem length_rest (c : TgCursor) : c.rest.length = c.len - c.pos := by
  rw [rest, List.length_map, List.length_range']

theorem rest_of_le (hdone : c.len ≤ c.pos) : c.rest = [] := by
  rw [← List.length_eq_zero_iff, length_rest]
  omega

theorem rest_of_lt (hmore : c.pos < c.len) : c.rest = c.data c.pos :: c.advance.rest := by
  have hcount : c.len - c.pos = c.len - (c.pos + 1) + 1 := by omega
  rw [rest, hcount, List.range'_succ, List.map_cons]
  rfl

theorem load_pos (hmore : c.pos < c.len) : c.load c.pos = some (c.data c.pos) := if_pos hmore

end TgCursor

theorem tgCopyLineMem_spec {n : ℕ} {written : Bytes} (truncated : Bool)
    (hwritten : written <+: dst) (hsize : dst.length = dstSize) (hlt : written.length < dstSize)
    (hrounds : c.rest.length < n) :
    ∃ c' dst', tgCopyLineMem dstSize n c dst written.length truncated =
        some (c', dst', (tgCopyLine dstSize c.rest written truncated).1.length,
          (tgCopyLine dstSize c.rest written truncated).2.1) ∧
      c'.rest = (tgCopyLine dstSize c.rest written truncated).2.2 ∧
      (tgCopyLine dstSize c.rest written truncated).1 <+: dst' ∧ dst'.length = dst.length ∧
      (tgCopyLine dstSize c.rest written truncated).1.length < dstSize := by
  induction n generalizing c dst written truncated with
  | zero => omega
  | succ n ih =>
      rw [tgCopyLineMem]
      by_cases hmore : c.pos < c.len
      · rw [if_pos hmore, TgCursor.load_pos hmore]
        rw [TgCursor.rest_of_lt hmore] at hrounds ⊢
        rw [List.length_cons] at hrounds
        simp only [Option.bind_eq_bind, Option.bind_some]
        rw [tgCopyLine]
        by_cases hend : c.data c.pos = lf ∨ c.data c.pos = cr
        · rw [if_pos hend, if_pos hend]
          exact ⟨c, dst, rfl, TgCursor.rest_of_lt hmore, hwritten, rfl, hlt⟩
        · rw [if_neg hend, if_neg hend]
          by_cases hroom : written.length + 1 < dstSize
          · obtain ⟨dst', hstore, hwritten', hsize'⟩ :=
              store_of_prefix (c.data c.pos) hwritten (by omega)
            rw [if_pos hroom, if_pos hroom, hstore]
            have hnext := ih truncated hwritten' (hsize'.trans hsize)
              (by rw [List.length_append, List.length_singleton]; omega)
              (c := c.advance) (by omega)
            rw [List.length_append, List.length_singleton, hsize'] at hnext
            exact hnext
          · rw [if_neg hroom, if_neg hroom]
            exact ih true hwritten hsize hlt (c := c.advance) (by omega)
      · rw [if_neg hmore, TgCursor.rest_of_le (by omega), tgCopyLine]
        exact ⟨c, dst, rfl, TgCursor.rest_of_le (by omega), hwritten, rfl, hlt⟩

theorem skipByteMem_spec (b : UInt8) (c : TgCursor) :
    ∃ c', skipByteMem b c = some c' ∧ c'.rest = skipByte b c.rest := by
  rw [skipByteMem]
  by_cases hmore : c.pos < c.len
  · refine ⟨if c.data c.pos = b then c.advance else c, ?_, ?_⟩
    · rw [if_pos hmore, TgCursor.load_pos hmore]
      rfl
    · rw [TgCursor.rest_of_lt hmore, skipByte]
      split
      · rfl
      · exact TgCursor.rest_of_lt hmore
  · refine ⟨c, if_neg hmore, ?_⟩
    rw [TgCursor.rest_of_le (by omega)]
    rfl

theorem tgNextLineMem_none (hdone : tgNextLine c.rest dstSize = none) :
    tgNextLineMem c dst dstSize = some none := by
  unfold tgNextLine at hdone
  split at hdone
  · rename_i hguard
    rw [tgNextLineMem, if_pos]
    refine hguard.imp (fun hempty => ?_) id
    rw [← List.length_eq_zero_iff, TgCursor.length_rest] at hempty
    omega
  · cases hdone

/-- The line is left in the buffer with a NUL behind it. -/
theorem tgNextLineMem_some (hsize : dst.length = dstSize) {text rest : Bytes} {complete : Bool}
    (hline : tgNextLine c.rest dstSize = some (text, complete, rest)) :
    ∃ c' dst', tgNextLineMem c dst dstSize = some (some (c', dst', complete)) ∧
      c'.rest = rest ∧ dst'.length = dstSize ∧ text ++ [0] <+: dst' := by
  unfold tgNextLine at hline
  split at hline
  · cases hline
  · rename_i hguard
    obtain ⟨hmore, hpos⟩ := not_or.mp hguard
    have hlt : c.pos < c.len := by
      by_contra hdone
      exact hmore (TgCursor.rest_of_le (by omega))
    simp only [Option.some.injEq, Prod.mk.injEq] at hline
    obtain ⟨rfl, rfl, rfl⟩ := hline
    obtain ⟨c1, dst1, hcopy, hrest1, hprefix, hlength, hroom⟩ :=
      tgCopyLineMem_spec (c := c) (n := c.len - c.pos + 1) false
        (List.nil_prefix (l := dst)) hsize (by rw [List.length_nil]; omega)
        (by rw [TgCursor.length_rest]; omega)
    obtain ⟨dst2, hstore, hprefix2, hlength2⟩ :=
      store_of_prefix 0 hprefix (by omega)
    obtain ⟨c2, hskip2, hrest2⟩ := skipByteMem_spec cr c1
    obtain ⟨c3, hskip3, hrest3⟩ := skipByteMem_spec lf c2
    refine ⟨c3, dst2, ?_, ?_, by omega, hprefix2⟩
    · rw [List.length_nil] at hcopy
      rw [tgNextLineMem, if_neg (by omega), hcopy]
      simp only [Option.bind_eq_bind, Option.bind_some, hstore, hskip2, hskip3]
    · rw [hrest3, hrest2, hrest1]

end

/-! ## The string in the line buffer -/

/-- The block starts with the string and its NUL. -/
def HoldsString (block : Bytes) (text : CStr) : Prop := text.val ++ [0] <+: block

section

variable {line : Bytes} {text : CStr}

theorem ofBuffer_terminated (buffer : Bytes) :
    (CStr.ofBuffer buffer).val ++ [0] <+: buffer ++ [0] := by
  induction buffer with
  | nil => exact List.prefix_rfl
  | cons b buffer ih =>
      by_cases hb : b = 0
      · subst hb
        exact ⟨buffer ++ [0], rfl⟩
      · have hkeep : (CStr.ofBuffer (b :: buffer)).val = b :: (CStr.ofBuffer buffer).val := by
          simp [CStr.ofBuffer, hb]
        rw [hkeep, List.cons_append, List.cons_append, List.cons_prefix_cons]
        exact ⟨rfl, ih⟩

theorem holdsString_ofBuffer {buffer : Bytes} (hwritten : buffer ++ [0] <+: line) :
    HoldsString line (CStr.ofBuffer buffer) :=
  (ofBuffer_terminated buffer).trans hwritten

namespace HoldsString

theorem readString_drop (hline : HoldsString line text) {i : ℕ} (hi : i ≤ text.length) :
    readString 0 (line.drop i) = some (text.val.drop i) := by
  obtain ⟨behind, rfl⟩ := hline
  have hi' : i ≤ text.val.length := hi
  have hdrop : (text.val ++ [0] ++ behind).drop i = text.val.drop i ++ [0] ++ behind := by
    rw [List.append_assoc, List.drop_append_of_le_length hi', ← List.append_assoc]
  rw [hdrop, readString_of_prefix (List.prefix_append _ _)]
  congr 1
  exact CStr.ofBuffer_val_of_nulFree fun hmem => text.nulFree (List.mem_of_mem_drop hmem)

theorem readString (hline : HoldsString line text) :
    CheckedMemory.readString 0 line = some text.val := by
  simpa using hline.readString_drop (Nat.zero_le _)

/-- A byte of the string or the NUL behind it. -/
theorem load (hline : HoldsString line text) {i : ℕ} (hi : i ≤ text.length) :
    CheckedMemory.load line i = some ((text.val.drop i).headD 0) := by
  have hlength : i < (text.val ++ [0]).length := by
    rw [List.length_append, List.length_singleton]
    exact Nat.lt_succ_of_le hi
  rw [load_written hline hlength]
  congr 1
  rcases Nat.lt_or_eq_of_le hi with hlt | hend
  · have hlt' : i < text.val.length := hlt
    rw [List.getElem_append_left hlt', List.drop_eq_getElem_cons hlt']
    rfl
  · have hdrop : text.val.drop i = [] := List.drop_eq_nil_of_le hend.ge
    rw [hdrop, List.getElem_append_right hend.ge, List.headD_nil]
    simp

end HoldsString

/-! ## The metadata line -/

theorem strtolMem_none (hline : HoldsString line text) {i : ℕ} (hi : i ≤ text.length)
    (hread : strtol (text.val.drop i) = none) : strtolMem line i = some none := by
  rw [strtolMem, hline.readString_drop hi]
  simp only [Option.bind_eq_bind, Option.bind_some, hread, Option.map_none]

theorem strtolMem_some (hline : HoldsString line text) {i : ℕ} (hi : i ≤ text.length)
    {value : Int64} {behind : Bytes} (hread : strtol (text.val.drop i) = some (value, behind)) :
    ∃ stop, strtolMem line i = some (some (value, stop)) ∧ stop ≤ text.length ∧
      text.val.drop stop = behind := by
  have hsuffix := strtol_suffix hread
  have hlength := hsuffix.length_le
  rw [List.length_drop] at hlength
  have hi' : i ≤ text.val.length := hi
  refine ⟨i + ((text.val.drop i).length - behind.length), ?_, ?_, ?_⟩
  · rw [strtolMem, hline.readString_drop hi]
    simp only [Option.bind_eq_bind, Option.bind_some, hread, Option.map_some]
  · rw [List.length_drop, CStr.length]
    omega
  · rw [← List.drop_drop]
    exact (List.suffix_iff_eq_drop.mp hsuffix).symm

theorem tgReadPairMem_spec (hline : HoldsString line text) {separator : UInt8}
    (hseparator : separator ≠ 0) {i : ℕ} (hi : i ≤ text.length) :
    tgReadPairMem separator line i = some (tgReadPair separator (text.val.drop i)) := by
  unfold tgReadPairMem tgReadPair
  cases hfirst : strtol (text.val.drop i) with
  | none =>
      rw [strtolMem_none hline hi hfirst]
      rfl
  | some result =>
      obtain ⟨first, behind⟩ := result
      obtain ⟨stop, hread, hstop, hbehind⟩ := strtolMem_some hline hi hfirst
      rw [hread]
      simp only [Option.bind_eq_bind, Option.bind_some, hline.load hstop, hbehind]
      cases behind with
      | nil => exact if_pos hseparator.symm
      | cons b behind =>
          rw [List.headD_cons]
          by_cases hb : b ≠ separator
          · rw [if_pos hb]
            exact congrArg some (if_pos hb).symm
          · have hnext : stop + 1 ≤ text.length ∧ text.val.drop (stop + 1) = behind := by
              constructor
              · have hmore := congrArg List.length hbehind
                rw [List.length_drop, List.length_cons] at hmore
                rw [CStr.length]
                omega
              · rw [← List.drop_drop, hbehind]
                rfl
            rw [if_neg hb]
            dsimp only
            rw [if_neg hb]
            cases hsecond : strtol behind with
            | none =>
                rw [strtolMem_none hline hnext.1 (hnext.2.symm ▸ hsecond)]
                rfl
            | some result =>
                obtain ⟨second, last⟩ := result
                obtain ⟨_, hread', -, -⟩ :=
                  strtolMem_some hline hnext.1 (hnext.2.symm ▸ hsecond)
                rw [hread']
                rfl

theorem tgTextMetaMem_spec (hline : HoldsString line text) :
    tgTextMetaMem line = some (tgTextMeta text) := by
  have hspace : space ≠ 0 := by decide
  rw [tgTextMetaMem, tgTextMeta, tgReadPairMem_spec hline hspace (Nat.zero_le _), List.drop_zero]
  cases tgReadPair space text.val with
  | none => rfl
  | some pair => rfl

theorem tgCmdMetaMem_spec (hline : HoldsString line text) :
    tgCmdMetaMem line = some (tgCmdMeta text) := by
  have hminus : minus ≠ 0 := by decide
  have hfirst := hline.load (Nat.zero_le _)
  rw [List.drop_zero] at hfirst
  rw [tgCmdMetaMem, hfirst, tgCmdMeta]
  simp only [Option.bind_eq_bind, Option.bind_some]
  cases hshape : text.val with
  | nil => rfl
  | cons r behind =>
      have hone : 1 ≤ text.length := by
        rw [CStr.length, hshape, List.length_cons]
        omega
      have hsecond := hline.load hone
      rw [hshape, List.drop_succ_cons, List.drop_zero] at hsecond
      rw [hsecond, List.headD_cons]
      by_cases hr : r ≠ 82
      · rw [if_pos hr]
        cases behind with
        | nil => rfl
        | cons colon rest => exact congrArg some (if_pos (.inl hr)).symm
      · rw [if_neg hr]
        cases behind with
        | nil => rfl
        | cons colon rest =>
            have htwo : 2 ≤ text.length := by
              rw [CStr.length, hshape, List.length_cons, List.length_cons]
              omega
            dsimp only [Option.bind_some, List.headD_cons]
            by_cases hcolon : colon ≠ 58
            · rw [if_pos hcolon, if_pos (.inr hcolon)]
            · rw [if_neg hcolon, if_neg (not_or.mpr ⟨hr, hcolon⟩),
                tgReadPairMem_spec hline hminus htwo, hshape, List.drop_succ_cons,
                List.drop_succ_cons, List.drop_zero]
              cases tgReadPair minus rest with
              | none => rfl
              | some pair => rfl

theorem tgReadMetaMem_spec (hline : HoldsString line text) (kind : TgKind) :
    tgReadMetaMem kind line = some (tgReadMeta kind text) := by
  rw [tgReadMetaMem, tgReadMeta]
  split
  · exact tgTextMetaMem_spec hline
  · exact tgCmdMetaMem_spec hline

end

/-! ## The header lines -/

/-- The cursor stands in front of `rest`, beside the line buffer. -/
structure TgReading (rest : Bytes) (c : TgCursor) (line : Bytes) : Prop where
  rest_eq : c.rest = rest
  size : line.length = tgLineSize

section

variable {rest rest' : Bytes} {c : TgCursor} {line field field' : Bytes} {text key : CStr}

theorem TgReading.nextLine (hreading : TgReading rest c line) {buffer : Bytes} {complete : Bool}
    (hnext : tgNextLine rest tgLineSize = some (buffer, complete, rest')) :
    ∃ c' line', tgNextLineMem c line tgLineSize = some (some (c', line', complete)) ∧
      TgReading rest' c' line' ∧ HoldsString line' (CStr.ofBuffer buffer) := by
  obtain ⟨rfl, hsize⟩ := hreading
  obtain ⟨c', line', hread, hrest, hsize', hwritten⟩ := tgNextLineMem_some hsize hnext
  exact ⟨c', line', hread, ⟨hrest, hsize'⟩, holdsString_ofBuffer hwritten⟩

theorem tgReadLineMem_none (hreading : TgReading rest c line) (hline : tgReadLine rest = none) :
    tgReadLineMem c line = some none := by
  obtain ⟨rfl, hsize⟩ := hreading
  unfold tgReadLine at hline
  unfold tgReadLineMem
  cases hnext : tgNextLine c.rest tgLineSize with
  | none =>
      rw [tgNextLineMem_none hnext]
      rfl
  | some result =>
      obtain ⟨text, complete, rest⟩ := result
      obtain ⟨c', line', hread, -, -, -⟩ := tgNextLineMem_some hsize hnext
      rw [hnext] at hline
      rw [hread]
      cases complete with
      | true => cases hline
      | false => rfl

theorem tgReadLineMem_some (hreading : TgReading rest c line)
    (hline : tgReadLine rest = some (text, rest')) :
    ∃ c' line', tgReadLineMem c line = some (some (c', line')) ∧ TgReading rest' c' line' ∧
      HoldsString line' text := by
  unfold tgReadLine at hline
  split at hline
  · rename_i buffer behind hnext
    obtain ⟨rfl, rfl⟩ := Prod.mk.inj (Option.some.inj hline)
    obtain ⟨c', line', hread, hreading', hholds⟩ := hreading.nextLine hnext
    refine ⟨c', line', ?_, hreading', hholds⟩
    rw [tgReadLineMem, hread]
    rfl
  · cases hline

theorem tgReadKeyMem_none (hreading : TgReading rest c line) (hkey : tgReadKey rest = none) :
    tgReadKeyMem c line field = some none := by
  unfold tgReadKey at hkey
  unfold tgReadKeyMem
  split at hkey
  · rename_i text rest' hline
    obtain ⟨c', line', hread, -, hholds⟩ := tgReadLineMem_some hreading hline
    split at hkey
    · rename_i hbad
      have hguard : text.val.headD 0 = 0 ∨ tgFieldMax ≤ text.val.length := by
        refine hbad.imp (fun hempty => ?_) id
        rw [hempty]
        rfl
      have hfirst := hholds.load (Nat.zero_le _)
      rw [List.drop_zero] at hfirst
      rw [hread]
      simp only [Option.bind_eq_bind, Option.bind_some, hfirst, hholds.readString]
      exact if_pos hguard
    · cases hkey
  · rename_i hline
    rw [tgReadLineMem_none hreading hline]
    rfl

theorem tgReadKeyMem_some (hreading : TgReading rest c line)
    (hkey : tgReadKey rest = some (key, rest'))
    (hcopy : copyTo field 0 (key.val ++ [0]) = some field') :
    ∃ c' line', tgReadKeyMem c line field = some (some (c', line', field')) ∧
      TgReading rest' c' line' := by
  unfold tgReadKey at hkey
  split at hkey
  · rename_i text behind hline
    obtain ⟨c', line', hread, hnext, hholds⟩ := tgReadLineMem_some hreading hline
    split at hkey
    · cases hkey
    · rename_i hgood
      obtain ⟨rfl, rfl⟩ := Prod.mk.inj (Option.some.inj hkey)
      obtain ⟨hne, hshort⟩ := not_or.mp hgood
      obtain ⟨b, tail, hval⟩ := List.exists_cons_of_ne_nil hne
      have hb : b ≠ 0 := by
        rintro rfl
        exact text.nulFree (hval ▸ List.mem_cons_self)
      have hfirst := hholds.load (Nat.zero_le _)
      rw [List.drop_zero, hval, List.headD_cons] at hfirst
      refine ⟨c', line', ?_, hnext⟩
      rw [tgReadKeyMem, hread]
      simp only [Option.bind_eq_bind, Option.bind_some, hfirst, hholds.readString]
      have hshort' : ¬ tgFieldMax ≤ text.val.length := hshort
      rw [if_neg (not_or.mpr ⟨hb, hshort'⟩), hcopy]
      rfl
  · cases hkey

/-- A key that has been read fits the field it is copied to. -/
theorem copyTo_tgReadKey (hkey : tgReadKey rest = some (key, rest'))
    (hsize : field.length = tgFieldMax) :
    ∃ field', copyTo field 0 (key.val ++ [0]) = some field' ∧ HoldsString field' key ∧
      field'.length = tgFieldMax := by
  have hshort := ((tgFieldOk_some_iff key).mp (tgReadKey_fieldOk hkey)).2.1
  obtain ⟨field', hcopy, hprefix, hlength⟩ :=
    copyTo_of_prefix (key.val ++ [0]) (List.nil_prefix (l := field)) (by
      rw [CStr.length] at hshort
      rw [List.length_nil, List.length_append, List.length_singleton]
      omega)
  exact ⟨field', hcopy, hprefix, hlength.trans hsize⟩

end

/-! ## The body -/

theorem HoldsString.take {line : Bytes} {text : CStr} (hline : HoldsString line text) {k : ℕ}
    (hk : k ≤ text.val.length) : line.take k = text.val.take k := by
  obtain ⟨behind, rfl⟩ := hline
  rw [List.append_assoc, List.take_append_of_le_length hk]

theorem tgEndsInTerminatorMem_spec {line : Bytes} {text : CStr} (hline : HoldsString line text) :
    tgEndsInTerminatorMem line text.val.length = some (tgEndsInTerminator text.val) := by
  rw [tgEndsInTerminatorMem, tgEndsInTerminator]
  by_cases hlength : tgTerminator.length ≤ text.val.length
  · have htail := hline.readString_drop
      (show text.val.length - tgTerminator.length ≤ text.length from Nat.sub_le _ _)
    rw [if_pos hlength, htail, Option.map_some]
    exact congrArg some (decide_eq_decide.mpr (and_iff_right hlength).symm)
  · rw [if_neg hlength]
    simp only [hlength, false_and, decide_false]

theorem tgNextLine_length_lt {c text rest : Bytes} {complete : Bool} {dstSize : ℕ}
    (hline : tgNextLine c dstSize = some (text, complete, rest)) : rest.length < c.length := by
  obtain ⟨line, lines, -, -, -, -, -, -, hrest⟩ := tgNextLine_lines hline
  by_cases hmore : rest = []
  · rw [hmore, List.length_nil, List.length_pos_iff]
    rintro rfl
    simp [tgNextLine] at hline
  · obtain ⟨-, lineEnd, hend, rfl⟩ := hrest hmore
    have hpos := List.length_pos_iff.mpr hend
    simp only [List.length_append]
    omega

/-- The rounds of the loop write the body from the front, and leave room for the NUL. -/
theorem tgReadBodyMem_spec {n k : ℕ} {rest body : Bytes} (acc : Bytes) (hwritten : acc <+: body)
    (hsize : body.length = tgBodyMax) (hrounds : rest.length < n) (hk : rest.length ≤ k) :
    ∃ terminated body', body'.length = tgBodyMax ∧
      (∀ c line, TgReading rest c line →
        tgReadBodyMem n c line body acc.length = some (terminated, body')) ∧
      match tgReadBody k rest acc with
      | none => terminated = false
      | some out => terminated = true ∧ out ++ [0] <+: body' := by
  induction n generalizing k rest acc body with
  | zero => omega
  | succ n ih =>
      cases hnext : tgNextLine rest tgLineSize with
      | none =>
          have hnone : tgReadBody k rest acc = none := by
            cases k with
            | zero => rfl
            | succ k => rw [tgReadBody, hnext]
          rw [hnone]
          refine ⟨false, body, hsize, ?_, rfl⟩
          rintro c line ⟨rfl, -⟩
          rw [tgReadBodyMem, tgNextLineMem_none hnext]
          rfl
      | some result =>
          obtain ⟨buffer, complete, after⟩ := result
          have hlt := tgNextLine_length_lt hnext
          obtain ⟨k, rfl⟩ : ∃ j, k = j + 1 := ⟨k - 1, by omega⟩
          rw [tgReadBody, hnext]
          dsimp only
          -- one round, over any cursor and line buffer
          have hround c line (hreading : TgReading rest c line) := hreading.nextLine hnext
          generalize CStr.ofBuffer buffer = text at hround ⊢
          by_cases hends : tgEndsInTerminator text.val = true
          · rw [if_pos hends, List.length_take, min_eq_left (Nat.sub_le _ _)]
            by_cases hfull : tgBodyMax ≤
                acc.length + (text.val.length - tgTerminator.length) + 1
            · rw [if_pos hfull]
              refine ⟨false, body, hsize, fun c line hreading => ?_, rfl⟩
              obtain ⟨c', line', hread, -, hholds⟩ := hround c line hreading
              rw [tgReadBodyMem, hread]
              simp only [Option.bind_eq_bind, Option.bind_some, hholds.readString,
                tgEndsInTerminatorMem_spec hholds, hends, if_true]
              exact if_pos hfull
            · rw [if_neg hfull]
              have hkeep : (text.val.take (text.val.length - tgTerminator.length)).length =
                  text.val.length - tgTerminator.length := by
                rw [List.length_take, min_eq_left (Nat.sub_le _ _)]
              obtain ⟨body1, body2, hcopy, hstore, hprefix2, hlength2⟩ := copyTo_store_of_prefix
                (text.val.take (text.val.length - tgTerminator.length)) 0 hwritten (by omega)
              rw [hkeep] at hstore
              refine ⟨true, body2, by omega, fun c line hreading => ?_, rfl, hprefix2⟩
              obtain ⟨c', line', hread, -, hholds⟩ := hround c line hreading
              rw [tgReadBodyMem, hread]
              simp only [Option.bind_eq_bind, Option.bind_some, hholds.readString,
                tgEndsInTerminatorMem_spec hholds, hends, if_true]
              rw [if_neg hfull, hholds.take (Nat.sub_le _ _), hcopy]
              simp only [Option.bind_some, hstore]
          · rw [if_neg hends]
            by_cases hfull : tgBodyMax ≤ acc.length + text.val.length + 1
            · rw [if_pos hfull]
              refine ⟨false, body, hsize, fun c line hreading => ?_, rfl⟩
              obtain ⟨c', line', hread, -, hholds⟩ := hround c line hreading
              rw [tgReadBodyMem, hread]
              simp only [Option.bind_eq_bind, Option.bind_some, hholds.readString,
                tgEndsInTerminatorMem_spec hholds, hends]
              exact if_pos hfull
            · rw [if_neg hfull]
              obtain ⟨body1, body2, hcopy, hfeed, hprefix2, hlength2⟩ :=
                copyTo_store_of_prefix text.val lf hwritten (by omega)
              obtain ⟨body3, hstore, hprefix3, hlength3⟩ :=
                store_of_prefix 0 hprefix2
                  (by rw [List.length_append, List.length_append, List.length_singleton]; omega)
              simp only [List.length_append, List.length_singleton] at hstore
              obtain ⟨terminated, body', hsize', hloop, hresult⟩ :=
                ih (k := k) (acc ++ text.val ++ [lf]) ((List.prefix_append _ _).trans hprefix3)
                  (by omega) (by omega : after.length < n) (by omega)
              refine ⟨terminated, body', hsize', fun c line hreading => ?_, hresult⟩
              obtain ⟨c', line', hread, hreading', hholds⟩ := hround c line hreading
              have hrest := hloop c' line' hreading'
              simp only [List.length_append, List.length_singleton] at hrest
              rw [tgReadBodyMem, hread]
              simp only [Option.bind_eq_bind, Option.bind_some, hholds.readString,
                tgEndsInTerminatorMem_spec hholds, hends]
              rw [if_neg (by decide), if_neg hfull, hholds.take le_rfl, List.take_length, hcopy]
              simp only [Option.bind_some, hfeed, hstore, hrest]

/-! ## The record -/

/-- The arrays hold the strings of the message. -/
structure TgMessageMem.Holds (out : TgMessageMem) (tg : TgMessage) : Prop where
  kind : out.kind = tg.kind
  receiver : HoldsString out.receiver tg.receiver
  receiverSize : out.receiver.length = tgFieldMax
  sender : HoldsString out.sender tg.sender
  senderSize : out.sender.length = tgFieldMax
  sn : out.sn = tg.sn
  snTo : out.snTo = tg.snTo
  timestamp : out.timestamp = tg.timestamp
  body : HoldsString out.body tg.body
  bodySize : out.body.length = tgBodyMax

/-- From any cursor in front of `rest` the stage returns the same value, and that is the
message, or `TG_INVALID`. -/
def DecodesAs (stage : TgCursor → Bytes → Option (TgKind × TgMessageMem)) (rest : Bytes)
    (result : Option TgMessage) : Prop :=
  ∃ kind out, (∀ c line, TgReading rest c line → stage c line = some (kind, out)) ∧
    match result with
    | none => kind = .invalid
    | some tg => kind = tg.kind ∧ out.Holds tg

section

variable (rest : Bytes) {kind : TgKind} (out : TgMessageMem) {receiver sender : CStr}

theorem decodesAs_invalid {rest} {stage : TgCursor → Bytes → Option (TgKind × TgMessageMem)}
    (hstage : ∀ c line, TgReading rest c line → stage c line = some (.invalid, out)) :
    DecodesAs stage rest none :=
  ⟨.invalid, out, hstage, rfl⟩

theorem tgDecodeBodyMem_decodes (hkind : out.kind = kind)
    (hreceiver : HoldsString out.receiver receiver) (hreceiverSize : out.receiver.length = tgFieldMax)
    (hsender : HoldsString out.sender sender) (hsenderSize : out.sender.length = tgFieldMax)
    (hbody : out.body.length = tgBodyMax) :
    DecodesAs (tgDecodeBodyMem kind out) rest
      ((tgReadBody rest.length rest []).map fun body =>
        ⟨kind, receiver, sender, out.sn, out.snTo, out.timestamp, CStr.ofBuffer body⟩) := by
  obtain ⟨terminated, body, hsize, hloop, hresult⟩ :=
    tgReadBodyMem_spec (n := rest.length + 1) (k := rest.length) [] (List.nil_prefix (l := out.body))
      hbody (Nat.lt_succ_self _) le_rfl
  refine ⟨if terminated then kind else .invalid, { out with body := body }, ?_, ?_⟩
  · intro c line hreading
    have hrounds : c.len - c.pos = rest.length := by rw [← hreading.rest_eq, c.length_rest]
    have hread := hloop c line hreading
    rw [List.length_nil] at hread
    rw [tgDecodeBodyMem, hrounds, hread]
    rfl
  · split at hresult
    · rename_i hnone
      rw [hnone, hresult]
      rfl
    · rename_i text hsome
      obtain ⟨rfl, hwritten⟩ := hresult
      rw [hsome]
      exact ⟨rfl, hkind, hreceiver, hreceiverSize, hsender, hsenderSize, rfl, rfl, rfl,
        holdsString_ofBuffer hwritten, hsize⟩

theorem tgDecodeMetaMem_decodes (hkind : out.kind = kind)
    (hreceiver : HoldsString out.receiver receiver) (hreceiverSize : out.receiver.length = tgFieldMax)
    (hsender : HoldsString out.sender sender) (hsenderSize : out.sender.length = tgFieldMax)
    (hbody : out.body.length = tgBodyMax) :
    DecodesAs (tgDecodeMetaMem kind out) rest (do
      let (line, c) ← tgReadLine rest
      let (sn, snTo, timestamp) ← tgReadMeta kind line
      let body ← tgReadBody c.length c []
      return ⟨kind, receiver, sender, sn, snTo, timestamp, CStr.ofBuffer body⟩) := by
  cases hline : tgReadLine rest with
  | none =>
      refine decodesAs_invalid out fun c line hreading => ?_
      rw [tgDecodeMetaMem, tgReadLineMem_none hreading hline]
      rfl
  | some result =>
      obtain ⟨text, after⟩ := result
      cases hmeta : tgReadMeta kind text with
      | none =>
          simp only [Option.bind_eq_bind, Option.bind_some, hmeta, Option.bind_none]
          refine decodesAs_invalid out fun c line hreading => ?_
          obtain ⟨c', line', hread, -, hholds⟩ := tgReadLineMem_some hreading hline
          rw [tgDecodeMetaMem, hread]
          simp only [Option.bind_eq_bind, Option.bind_some, tgReadMetaMem_spec hholds, hmeta]
      | some numbers =>
          obtain ⟨sn, snTo, timestamp⟩ := numbers
          obtain ⟨result, out', hstage, hresult⟩ := tgDecodeBodyMem_decodes after
            { out with sn := sn, snTo := snTo, timestamp := timestamp }
            hkind hreceiver hreceiverSize hsender hsenderSize hbody
          refine ⟨result, out', fun c line hreading => ?_, ?_⟩
          · obtain ⟨c', line', hread, hreading', hholds⟩ := tgReadLineMem_some hreading hline
            rw [tgDecodeMetaMem, hread]
            simp only [Option.bind_eq_bind, Option.bind_some, tgReadMetaMem_spec hholds, hmeta]
            exact hstage c' line' hreading'
          · simp only [Option.bind_eq_bind, Option.bind_some, hmeta]
            cases hread : tgReadBody after.length after [] with
            | none => rw [hread] at hresult; exact hresult
            | some body => rw [hread] at hresult; exact hresult

theorem tgDecodeSenderMem_decodes (hkind : out.kind = kind)
    (hreceiver : HoldsString out.receiver receiver) (hreceiverSize : out.receiver.length = tgFieldMax)
    (hsenderSize : out.sender.length = tgFieldMax) (hbody : out.body.length = tgBodyMax) :
    DecodesAs (tgDecodeSenderMem kind out) rest (do
      let (sender, c) ← tgReadKey rest
      let (line, c) ← tgReadLine c
      let (sn, snTo, timestamp) ← tgReadMeta kind line
      let body ← tgReadBody c.length c []
      return ⟨kind, receiver, sender, sn, snTo, timestamp, CStr.ofBuffer body⟩) := by
  cases hkey : tgReadKey rest with
  | none =>
      refine decodesAs_invalid out fun c line hreading => ?_
      rw [tgDecodeSenderMem, tgReadKeyMem_none hreading hkey]
      rfl
  | some result =>
      obtain ⟨sender, after⟩ := result
      obtain ⟨field, hcopy, hholds, hsize⟩ := copyTo_tgReadKey hkey hsenderSize
      obtain ⟨result, out', hstage, hresult⟩ := tgDecodeMetaMem_decodes after
        { out with sender := field } hkind hreceiver hreceiverSize hholds hsize hbody
      refine ⟨result, out', fun c line hreading => ?_, hresult⟩
      obtain ⟨c', line', hread, hreading'⟩ := tgReadKeyMem_some hreading hkey hcopy
      rw [tgDecodeSenderMem, hread]
      exact hstage c' line' hreading'

theorem tgDecodeReceiverMem_decodes (hkind : out.kind = kind)
    (hreceiverSize : out.receiver.length = tgFieldMax)
    (hsenderSize : out.sender.length = tgFieldMax) (hbody : out.body.length = tgBodyMax) :
    DecodesAs (tgDecodeReceiverMem kind out) rest (do
      let (receiver, c) ← tgReadKey rest
      let (sender, c) ← tgReadKey c
      let (line, c) ← tgReadLine c
      let (sn, snTo, timestamp) ← tgReadMeta kind line
      let body ← tgReadBody c.length c []
      return ⟨kind, receiver, sender, sn, snTo, timestamp, CStr.ofBuffer body⟩) := by
  cases hkey : tgReadKey rest with
  | none =>
      refine decodesAs_invalid out fun c line hreading => ?_
      rw [tgDecodeReceiverMem, tgReadKeyMem_none hreading hkey]
      rfl
  | some result =>
      obtain ⟨receiver, after⟩ := result
      obtain ⟨field, hcopy, hholds, hsize⟩ := copyTo_tgReadKey hkey hreceiverSize
      obtain ⟨result, out', hstage, hresult⟩ := tgDecodeSenderMem_decodes after
        { out with receiver := field } hkind hholds hsize hsenderSize hbody
      refine ⟨result, out', fun c line hreading => ?_, hresult⟩
      obtain ⟨c', line', hread, hreading'⟩ := tgReadKeyMem_some hreading hkey hcopy
      rw [tgDecodeReceiverMem, hread]
      exact hstage c' line' hreading'

theorem tgDecodeHeaderMem_decodes :
    DecodesAs (tgDecodeHeaderMem TgMessageMem.zero) rest (tgDecode rest) := by
  unfold tgDecode
  cases hline : tgReadLine rest with
  | none =>
      refine decodesAs_invalid TgMessageMem.zero fun c line hreading => ?_
      rw [tgDecodeHeaderMem, tgReadLineMem_none hreading hline]
      rfl
  | some result =>
      obtain ⟨header, after⟩ := result
      have hstep : ∀ c line, TgReading rest c line → ∃ c' line', TgReading after c' line' ∧
          tgDecodeHeaderMem TgMessageMem.zero c line = match tgHeaderKind header with
            | none => some (.invalid, TgMessageMem.zero)
            | some kind => tgDecodeReceiverMem kind { TgMessageMem.zero with kind := kind } c' line' := by
        intro c line hreading
        obtain ⟨c', line', hread, hreading', hholds⟩ := tgReadLineMem_some hreading hline
        refine ⟨c', line', hreading', ?_⟩
        rw [tgDecodeHeaderMem, hread]
        simp only [Option.bind_eq_bind, Option.bind_some, hholds.readString, CStr.ofBuffer_val]
      cases hkind : tgHeaderKind header with
      | none =>
          simp only [Option.bind_eq_bind, Option.bind_some, hkind, Option.bind_none]
          refine decodesAs_invalid TgMessageMem.zero fun c line hreading => ?_
          obtain ⟨c', line', -, hstage⟩ := hstep c line hreading
          rw [hstage, hkind]
      | some kind =>
          simp only [Option.bind_eq_bind, Option.bind_some, hkind]
          obtain ⟨result, out, hstage, hresult⟩ := tgDecodeReceiverMem_decodes after
            { TgMessageMem.zero with kind := kind } rfl List.length_replicate List.length_replicate
            List.length_replicate
          refine ⟨result, out, fun c line hreading => ?_, hresult⟩
          obtain ⟨c', line', hreading', hheader⟩ := hstep c line hreading
          rw [hheader, hkind]
          exact hstage c' line' hreading'

end

/-- The bytes `tg_decode` is given. -/
def bytesBelow (data : ℕ → UInt8) (len : ℕ) : Bytes := (List.range len).map data

/-- Over any memory the decoder stays in bounds, returns, and decodes the first `len`
bytes. -/
theorem tgDecodeMem_refines (raw : Bytes) (out : TgMessageMem) :
    ∃ kind out', (∀ data len line, bytesBelow data len = raw → line.length = tgLineSize →
        tgDecodeMem data len line out = some (kind, out')) ∧
      match tgDecode raw with
      | none => kind = .invalid
      | some tg => kind = tg.kind ∧ out'.Holds tg := by
  by_cases hempty : raw = []
  · subst hempty
    refine ⟨.invalid, out, fun data len line hraw _ => ?_, rfl⟩
    have hlen : len = 0 := by
      simpa [bytesBelow] using congrArg List.length hraw
    rw [tgDecodeMem, if_pos hlen]
  · obtain ⟨kind, out', hstage, hresult⟩ := tgDecodeHeaderMem_decodes raw
    refine ⟨kind, out', fun data len line hraw hline => ?_, hresult⟩
    have hlen : len ≠ 0 := by
      rintro rfl
      exact hempty hraw.symm
    rw [tgDecodeMem, if_neg hlen]
    refine hstage ⟨data, len, 0⟩ line ⟨?_, hline⟩
    rw [← hraw, TgCursor.rest, bytesBelow, List.range_eq_range', Nat.sub_zero]

/-- What a caller may rely on when `tg_decode` returns a kind other than `TG_INVALID`. -/
structure TgMessageMem.WellFormed (out : TgMessageMem) : Prop where
  receiver : ∃ key : CStr, readString 0 out.receiver = some key.val ∧ tgFieldOk (some key) = true
  sender : ∃ key : CStr, readString 0 out.sender = some key.val ∧ tgFieldOk (some key) = true
  sn : tgSnValid out.sn
  snTo : out.kind = .cmd → tgSnValid out.snTo
  bodySize : out.body.length = tgBodyMax
  body : ∃ text, readString 0 out.body = some text ∧ cr ∉ text

theorem TgMessageMem.Holds.wellFormed {out : TgMessageMem} {raw : Bytes} {tg : TgMessage}
    (hholds : out.Holds tg) (hdecode : tgDecode raw = some tg) : out.WellFormed := by
  obtain ⟨hreceiver, hsender, hsn, hsnTo⟩ := tgDecode_header hdecode
  refine ⟨⟨tg.receiver, hholds.receiver.readString, hreceiver⟩,
    ⟨tg.sender, hholds.sender.readString, hsender⟩, ?_, ?_, hholds.bodySize,
    ⟨tg.body.val, hholds.body.readString, (tgDecode_body hdecode).2⟩⟩
  · rw [hholds.sn]
    exact hsn
  · intro hcmd
    rw [hholds.kind] at hcmd
    rw [hholds.snTo]
    simpa [hcmd] using hsnTo

/-- Every call of `tg_decode` returns without an access out of bounds; what it returns
depends on the first `len` bytes only, and is well formed unless it is `TG_INVALID`. -/
theorem tgDecodeMem_safe (data : ℕ → UInt8) (len : ℕ) (line : Vector UInt8 tgLineSize)
    (out : TgMessageMem) :
    ∃ kind out', tgDecodeMem data len line.toList out = some (kind, out') ∧
      (∀ (data' : ℕ → UInt8) (line' : Vector UInt8 tgLineSize), (∀ i < len, data' i = data i) →
        tgDecodeMem data' len line'.toList out = some (kind, out')) ∧
      (kind ≠ .invalid → out'.kind = kind ∧ out'.WellFormed) := by
  obtain ⟨kind, out', hrun, hresult⟩ := tgDecodeMem_refines (bytesBelow data len) out
  refine ⟨kind, out', hrun data len _ rfl line.length_toList, ?_, ?_⟩
  · intro data' line' hsame
    refine hrun data' len _ ?_ line'.length_toList
    exact List.map_congr_left fun i hi => hsame i (List.mem_range.mp hi)
  · intro hvalid
    split at hresult
    · exact absurd hresult hvalid
    · rename_i tg hdecode
      obtain ⟨rfl, hholds⟩ := hresult
      exact ⟨hholds.kind, hholds.wellFormed hdecode⟩

end ToxRelayer
