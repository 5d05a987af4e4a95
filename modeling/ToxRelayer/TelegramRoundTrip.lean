import ToxRelayer.Telegram

/-!
# The text telegram round trip

`tg_encode_text` writes one record for every accepted input.  `tg_decode`
gives the same message back exactly when the body has no carriage return, its
lines fit the decoder's line buffer once the terminator is appended, and the
whole body fits the body buffer.  The encoder checks none of the three.
-/

namespace ToxRelayer

open CString

/-! ## What the encoder writes -/

theorem foldl_tgBufPutn {b : TgBuf} (pieces : List Bytes)
    (hopen : b.overflow = false) (hroom : b.data.length < b.cap) :
    pieces.foldl tgBufPutn b =
        { b with data := b.data ++ pieces.flatten } ∧
          b.data.length + pieces.flatten.length < b.cap ∨
      (pieces.foldl tgBufPutn b).overflow = true ∧
        b.cap ≤ b.data.length + pieces.flatten.length := by
  induction pieces generalizing b with
  | nil => exact Or.inl ⟨by simp, by simpa using hroom⟩
  | cons piece rest ih =>
      simp only [List.foldl_cons, List.flatten_cons, List.length_append]
      have hcap : b.cap ≠ 0 := by omega
      by_cases hfits : b.cap < b.data.length + piece.length + 1
      · right
        have hput : tgBufPutn b piece = { b with overflow := true } := by
          simp [tgBufPutn, hopen, hcap, hfits]
        have hstay : ∀ (pieces : List Bytes) (b : TgBuf), b.overflow = true →
            (pieces.foldl tgBufPutn b).overflow = true := by
          intro pieces
          induction pieces with
          | nil => exact fun b hb => hb
          | cons p ps ihp =>
              intro b hb
              exact ihp _ (by simp [tgBufPutn, hb])
        exact ⟨by rw [hput]; exact hstay rest _ rfl, by omega⟩
      · have hput : tgBufPutn b piece = { b with data := b.data ++ piece } := by
          simp [tgBufPutn, hopen, hcap, hfits]
        have hnext := ih (b := { b with data := b.data ++ piece }) hopen
          (by simp only [List.length_append]; omega)
        rw [hput]
        simpa [Nat.add_assoc] using hnext

/-- A sequence of puts into a fresh buffer is all or nothing. -/
theorem tgFinish_foldl (pieces : List Bytes) {outSize : ℕ} (hsize : 0 < outSize) :
    tgFinish (pieces.foldl tgBufPutn (tgBufInit outSize)) =
      if pieces.flatten.length < outSize then
        ⟨intOfSize pieces.flatten.length, pieces.flatten⟩
      else ⟨tgErrTooSmall, []⟩ := by
  rcases foldl_tgBufPutn (b := tgBufInit outSize) pieces rfl hsize with
    ⟨hdata, hfits⟩ | ⟨hfull, hlarge⟩
  · simp only [tgBufInit, List.length_nil, Nat.zero_add] at hfits
    rw [hdata, if_pos hfits]
    simp [tgFinish, tgBufInit]
  · simp only [tgBufInit, List.length_nil, Nat.zero_add] at hlarge
    rw [if_neg (by omega)]
    simp only [tgFinish, hfull, if_true]

/-- A `NULL` body is the empty body. -/
def tgBodyBytes : Option CStr → Bytes
  | none => []
  | some body => body.val

/-- The metadata line of a text telegram, without its line feed. -/
def tgTextMetaLine (sn : ℤ) (timestamp : Int64) : Bytes :=
  formatInt 4 sn ++ space :: formatInt 0 timestamp.toInt

/-- The complete record of a text telegram. -/
def tgTextRecord (receiver sender : CStr) (sn : ℤ) (timestamp : Int64)
    (body : Bytes) : Bytes :=
  bytes "ZCZC TEXT" ++ lf :: (receiver.val ++ lf :: (sender.val ++ lf ::
    (tgTextMetaLine sn timestamp ++ lf :: (body ++ (tgTerminator ++ [lf])))))

theorem tgSnValid_natAbs_lt {sn : ℤ} (hsn : tgSnValid sn) : sn.natAbs < 10 ^ 4 := by
  simp only [tgSnValid, tgSnMin, tgSnMax] at hsn
  omega

theorem toInt_natAbs_lt (value : Int64) : value.toInt.natAbs < 10 ^ 19 := by
  have hlow := value.le_toInt
  have hhigh := value.toInt_lt
  omega

theorem tgTextMetaLine_length_le {sn : ℤ} (hsn : tgSnValid sn) (timestamp : Int64) :
    (tgTextMetaLine sn timestamp).length ≤ 26 := by
  have hsnLength := formatInt_length_le 4 (by norm_num)
    (tgSnValid_natAbs_lt hsn)
  have htimeLength := formatInt_length_le 0 (by norm_num)
    (toInt_natAbs_lt timestamp)
  simp only [tgTextMetaLine, List.length_append, List.length_cons]
  omega

theorem flatten_tgTextPieces (receiver sender : CStr) {sn : ℤ} (hsn : tgSnValid sn)
    (timestamp : Int64) (body : Option CStr) :
    (tgTextPieces receiver sender sn timestamp body).flatten =
      tgTextRecord receiver sender sn timestamp (tgBodyBytes body) := by
  have hshort := tgTextMetaLine_length_le hsn timestamp
  have hmeta : snprintf 32
      (formatInt 4 sn ++ space :: formatInt 0 timestamp.toInt ++ [lf]) =
        tgTextMetaLine sn timestamp ++ [lf] := by
    apply List.take_of_length_le
    simp only [tgTextMetaLine, List.length_append, List.length_cons] at hshort ⊢
    simp only [List.length_nil]
    omega
  have hhead : bytes "ZCZC TEXT\n" = bytes "ZCZC TEXT" ++ [lf] := by decide
  have hbody : (tgBodyPieces body).flatten = tgBodyBytes body := by
    cases body with
    | none => rfl
    | some text =>
        by_cases hempty : text.val = [] <;> simp [hempty, tgBodyPieces, tgBodyBytes]
  simp only [tgTextPieces, List.flatten_append, hmeta, hhead, hbody, tgTextRecord]
  simp

/-- With valid arguments the record is written exactly when it fits. -/
theorem tgEncodeText_eq {outSize : ℕ} (hsize : 0 < outSize) {receiver sender : CStr} {sn : ℤ}
    (timestamp : Int64) {body : Option CStr} (hreceiver : tgFieldOk (some receiver) = true)
    (hsender : tgFieldOk (some sender) = true) (hsn : tgSnValid sn)
    (hbody : tgBodyOk body = true) :
    tgEncodeText outSize (some receiver) (some sender) sn timestamp body =
      if (tgTextRecord receiver sender sn timestamp (tgBodyBytes body)).length < outSize then
        ⟨intOfSize (tgTextRecord receiver sender sn timestamp (tgBodyBytes body)).length,
          tgTextRecord receiver sender sn timestamp (tgBodyBytes body)⟩
      else ⟨tgErrTooSmall, []⟩ := by
  rw [tgEncodeText, if_neg (by omega)]
  simp only [hreceiver, hsender, hsn, hbody, not_true, Bool.not_true, Bool.or_self, if_false,
    Bool.false_eq_true]
  rw [tgFinish_foldl _ hsize, flatten_tgTextPieces _ _ hsn]

theorem tgEncodeText_accepted {outSize : ℕ} {receiver sender : CStr} {sn : ℤ}
    {timestamp : Int64} {body : Option CStr}
    (haccept : 0 <
      (tgEncodeText outSize (some receiver) (some sender) sn timestamp body).code) :
    tgFieldOk (some receiver) = true ∧ tgFieldOk (some sender) = true ∧
      tgSnValid sn ∧ tgBodyOk body = true ∧
      tgEncodeText outSize (some receiver) (some sender) sn timestamp body =
        ⟨intOfSize (tgTextRecord receiver sender sn timestamp (tgBodyBytes body)).length,
          tgTextRecord receiver sender sn timestamp (tgBodyBytes body)⟩ := by
  unfold tgEncodeText at haccept ⊢
  by_cases hsize : outSize = 0
  · simp [hsize, tgErrArg] at haccept
  · simp only [hsize, if_false] at haccept ⊢
    by_cases hreceiver : tgFieldOk (some receiver) = true
    · by_cases hsender : tgFieldOk (some sender) = true
      · by_cases hsn : tgSnValid sn
        · by_cases hbody : tgBodyOk body = true
          · simp only [hreceiver, hsender, hsn, hbody, Bool.not_true, Bool.or_self,
              not_true_eq_false, if_false, Bool.false_eq_true, true_and] at haccept ⊢
            rw [tgFinish_foldl _ (by omega), flatten_tgTextPieces _ _ hsn] at haccept ⊢
            split at haccept
            · rw [if_pos (by assumption)]
            · simp [tgErrTooSmall] at haccept
          · simp [hreceiver, hsender, hsn, hbody, tgErrFormat] at haccept
        · simp [hreceiver, hsender, hsn, tgErrRange] at haccept
      · simp [hsender, tgErrFormat] at haccept
    · simp [hreceiver, tgErrFormat] at haccept

/-! ## Reading lines -/

/-- Copying a line that contains no separator: `dst` keeps what fits and the
flag records whether all of it did. -/
theorem tgCopyLine_append {dstSize : ℕ} (line rest dst : Bytes) (truncated : Bool)
    (hlf : lf ∉ line) (hcr : cr ∉ line) (hdst : dst.length < dstSize) :
    tgCopyLine dstSize (line ++ rest) dst truncated =
      tgCopyLine dstSize rest (dst ++ line.take (dstSize - 1 - dst.length))
        (truncated || decide (dstSize - 1 - dst.length < line.length)) := by
  induction line generalizing dst truncated with
  | nil => simp
  | cons b line ih =>
      have hblf : b ≠ lf := fun h => hlf (by simp [h])
      have hbcr : b ≠ cr := fun h => hcr (by simp [h])
      have hlf' : lf ∉ line := fun h => hlf (List.mem_cons_of_mem b h)
      have hcr' : cr ∉ line := fun h => hcr (List.mem_cons_of_mem b h)
      simp only [List.cons_append, tgCopyLine, hblf, hbcr, or_self, if_false]
      by_cases hfits : dst.length + 1 < dstSize
      · have hroom : dstSize - 1 - dst.length =
            dstSize - 1 - (dst ++ [b]).length + 1 := by simp; omega
        rw [if_pos hfits, ih _ _ hlf' hcr' (by simpa using hfits), hroom]
        simp
      · have hfull : dstSize - 1 - dst.length = 0 := by omega
        rw [if_neg hfits, ih _ _ hlf' hcr' hdst, hfull]
        simp

theorem tgNextLine_append_lf {dstSize : ℕ} (line rest : Bytes)
    (hlf : lf ∉ line) (hcr : cr ∉ line) (hsize : 0 < dstSize) :
    tgNextLine (line ++ lf :: rest) dstSize =
      some (line.take (dstSize - 1), decide (line.length < dstSize), rest) := by
  have hne : dstSize ≠ 0 := by omega
  have hcopy := tgCopyLine_append line (lf :: rest) [] false hlf hcr hsize
  simp only [List.length_nil, Nat.sub_zero, List.nil_append, Bool.false_or,
    tgCopyLine, true_or, if_true] at hcopy
  have hcrlf : lf ≠ cr := by decide
  simp only [tgNextLine, List.append_eq_nil_iff, List.cons_ne_nil, and_false, hne,
    or_self, if_false, hcopy, skipByte, hcrlf, if_true]
  have hflag : (!decide (dstSize - 1 < line.length)) = decide (line.length < dstSize) := by
    by_cases hfits : line.length < dstSize
    · simp [hfits, show ¬ dstSize - 1 < line.length by omega]
    · simp [hfits, show dstSize - 1 < line.length by omega]
  rw [hflag]

theorem tgReadLine_append_lf (line : CStr) (rest : Bytes)
    (hlf : lf ∉ line.val) (hcr : cr ∉ line.val) (hfits : line.length < tgLineSize) :
    tgReadLine (line.val ++ lf :: rest) = some (line, rest) := by
  have hlength : line.val.length < tgLineSize := hfits
  have htake : line.val.take (tgLineSize - 1) = line.val :=
    List.take_of_length_le (by omega)
  unfold tgReadLine
  rw [tgNextLine_append_lf line.val rest hlf hcr (by decide), htake]
  simp [hlength]

theorem tgReadKey_append_lf {key : CStr} (rest : Bytes)
    (hkey : tgFieldOk (some key) = true) :
    tgReadKey (key.val ++ lf :: rest) = some (key, rest) := by
  obtain ⟨hne, hlength, hlf, hcr⟩ := (tgFieldOk_some_iff key).mp hkey
  have hfits : key.length < tgLineSize := by
    simp only [tgLineSize]
    omega
  unfold tgReadKey
  rw [tgReadLine_append_lf key rest hlf hcr hfits]
  simp [hne, hlength]

/-! ## The metadata line -/

theorem formatInt_free {width : ℕ} {value : ℤ} {b : UInt8} (hmem : b ∈ formatInt width value) :
    b ≠ lf ∧ b ≠ cr ∧ b ≠ 0 := by
  rcases mem_formatInt hmem with rfl | hdigit
  · decide
  · refine ⟨?_, ?_, ?_⟩ <;>
      · rintro rfl
        exact absurd hdigit (by decide)

theorem tgTextMetaLine_free {sn : ℤ} {timestamp : Int64} {b : UInt8}
    (hmem : b ∈ tgTextMetaLine sn timestamp) : b ≠ lf ∧ b ≠ cr ∧ b ≠ 0 := by
  rcases List.mem_append.mp hmem with hsn | htail
  · exact formatInt_free hsn
  · rcases List.mem_cons.mp htail with rfl | htime
    · decide
    · exact formatInt_free htime

theorem tgSnValid_toInt64 {sn : ℤ} (hsn : tgSnValid sn) : (Int64.ofInt sn).toInt = sn := by
  simp only [tgSnValid, tgSnMin, tgSnMax] at hsn
  rw [Int64.toInt_ofInt]
  exact Int.bmod_eq_of_le (by simp [Int64.size]; omega) (by simp [Int64.size]; omega)

theorem intOfLong_ofInt {sn : ℤ} (hsn : tgSnValid sn) : intOfLong (Int64.ofInt sn) = sn := by
  have hlong := tgSnValid_toInt64 hsn
  simp only [tgSnValid, tgSnMin, tgSnMax] at hsn
  unfold intOfLong
  rw [Int64.toInt_toInt32, hlong]
  exact Int.bmod_eq_of_le (by omega) (by omega)

theorem tgTextMeta_tgTextMetaLine (line : CStr) {sn : ℤ} {timestamp : Int64}
    (hsn : tgSnValid sn) (hline : line.val = tgTextMetaLine sn timestamp) :
    tgTextMeta line = some (sn, 0, timestamp) := by
  have hfirst := strtol_formatInt 4 (Int64.ofInt sn)
    (space :: formatInt 0 timestamp.toInt) (by
      intro b hb
      obtain rfl : space = b := by simpa using hb
      decide)
  have hsecond := strtol_formatInt 0 timestamp [] (by simp)
  rw [tgSnValid_toInt64 hsn] at hfirst
  rw [List.append_nil] at hsecond
  unfold tgTextMeta tgReadPair
  rw [hline, tgTextMetaLine, hfirst]
  simp only [ne_eq, not_true_eq_false, if_false, hsecond, Option.map_some,
    intOfLong_ofInt hsn, hsn, if_true]

/-- The metadata line as the decoder holds it. -/
def tgTextMetaStr (sn : ℤ) (timestamp : Int64) : CStr :=
  ⟨tgTextMetaLine sn timestamp, fun hmem => (tgTextMetaLine_free hmem).2.2 rfl⟩

theorem tgReadLine_tgTextMetaLine {sn : ℤ} (timestamp : Int64) (rest : Bytes)
    (hsn : tgSnValid sn) :
    tgReadLine (tgTextMetaLine sn timestamp ++ lf :: rest) =
      some (tgTextMetaStr sn timestamp, rest) := by
  have hshort := tgTextMetaLine_length_le hsn timestamp
  have hfits : (tgTextMetaStr sn timestamp).length < tgLineSize := by
    simp only [CStr.length, tgTextMetaStr, tgLineSize, tgFieldMax]
    omega
  exact tgReadLine_append_lf (tgTextMetaStr sn timestamp) rest
    (fun hmem => (tgTextMetaLine_free hmem).1 rfl)
    (fun hmem => (tgTextMetaLine_free hmem).2.1 rfl) hfits

/-- Records from one sender to one receiver differ when their serials or their
timestamps do. -/
theorem tgTextRecord_inj {receiver sender : CStr} {sn sn' : ℤ} {timestamp timestamp' : Int64}
    {body body' : Bytes} (hsn : tgSnValid sn) (hsn' : tgSnValid sn')
    (hsame : tgTextRecord receiver sender sn timestamp body =
      tgTextRecord receiver sender sn' timestamp' body') :
    sn = sn' ∧ timestamp = timestamp' := by
  simp only [tgTextRecord, List.append_cancel_left_eq, List.cons.injEq, true_and] at hsame
  have hline := congrArg tgReadLine hsame
  rw [tgReadLine_tgTextMetaLine timestamp _ hsn, tgReadLine_tgTextMetaLine timestamp' _ hsn',
    Option.some.injEq, Prod.mk.injEq] at hline
  have hfirst := tgTextMeta_tgTextMetaLine (tgTextMetaStr sn timestamp) hsn rfl
  rw [hline.1, tgTextMeta_tgTextMetaLine (tgTextMetaStr sn' timestamp') hsn' rfl,
    Option.some.injEq, Prod.mk.injEq, Prod.mk.injEq] at hfirst
  exact ⟨hfirst.1.symm, hfirst.2.2.symm⟩

/-! ## The body loop -/

/-- The header of a text record decodes to its own fields, whatever follows
it; only the body loop can still fail. -/
theorem tgDecode_tgTextRecord {receiver sender : CStr} {sn : ℤ} (timestamp : Int64)
    (body : Bytes) (hreceiver : tgFieldOk (some receiver) = true)
    (hsender : tgFieldOk (some sender) = true) (hsn : tgSnValid sn) :
    tgDecode (tgTextRecord receiver sender sn timestamp body) =
      (tgReadBody (body ++ (tgTerminator ++ [lf])).length
          (body ++ (tgTerminator ++ [lf])) []).map fun text =>
        { kind := .text, receiver := receiver, sender := sender, sn := sn, snTo := 0,
          timestamp := timestamp, body := CStr.ofBuffer text } := by
  let header : CStr := ⟨bytes "ZCZC TEXT", by decide⟩
  have hheader := tgReadLine_append_lf header
    (receiver.val ++ lf :: (sender.val ++ lf ::
      (tgTextMetaLine sn timestamp ++ lf :: (body ++ (tgTerminator ++ [lf])))))
    (by decide) (by decide) (by decide)
  have hkind : tgHeaderKind header = some .text := by decide
  have hmeta := tgReadLine_tgTextMetaLine timestamp (body ++ (tgTerminator ++ [lf])) hsn
  have hnumbers := tgTextMeta_tgTextMetaLine (tgTextMetaStr sn timestamp) hsn rfl
  change tgReadLine (tgTextRecord receiver sender sn timestamp body) = _ at hheader
  unfold tgDecode
  rw [hheader]
  simp only [Option.bind_eq_bind, Option.bind_some, hkind,
    tgReadKey_append_lf _ hreceiver, tgReadKey_append_lf _ hsender, hmeta, tgReadMeta, if_true,
    hnumbers]
  cases tgReadBody (body ++ (tgTerminator ++ [lf])).length
    (body ++ (tgTerminator ++ [lf])) [] <;> rfl

theorem mem_tgCopyLine {dstSize : ℕ} {c dst : Bytes} {truncated : Bool} {b : UInt8}
    (hmem : b ∈ (tgCopyLine dstSize c dst truncated).1) :
    b ∈ dst ∨ b ≠ lf ∧ b ≠ cr := by
  induction c generalizing dst truncated with
  | nil => exact Or.inl hmem
  | cons a rest ih =>
      simp only [tgCopyLine] at hmem
      split at hmem
      · exact Or.inl hmem
      · rename_i hplain
        split at hmem
        · rcases ih hmem with hdst | hfree
          · rcases List.mem_append.mp hdst with hold | hnew
            · exact Or.inl hold
            · obtain rfl : b = a := by simpa using hnew
              exact Or.inr (not_or.mp hplain)
          · exact Or.inr hfree
        · exact ih hmem

theorem tgNextLine_free {c line rest : Bytes} {complete : Bool} {dstSize : ℕ}
    (hline : tgNextLine c dstSize = some (line, complete, rest)) {b : UInt8}
    (hmem : b ∈ line) : b ≠ lf ∧ b ≠ cr := by
  unfold tgNextLine at hline
  split at hline
  · simp at hline
  · simp only [Option.some.injEq, Prod.mk.injEq] at hline
    rw [← hline.1] at hmem
    simpa using mem_tgCopyLine hmem

/-- Every accepted body fits the body buffer and has no carriage return. -/
theorem tgReadBody_bounds {rounds : ℕ} {c acc out : Bytes}
    (hread : tgReadBody rounds c acc = some out) :
    out.length + 1 < tgBodyMax ∧ (cr ∉ acc → cr ∉ out) := by
  induction rounds generalizing c acc with
  | zero => simp [tgReadBody] at hread
  | succ rounds ih =>
      simp only [tgReadBody] at hread
      split at hread
      · simp at hread
      · rename_i buffer complete rest hline
        have hfree : cr ∉ (CStr.ofBuffer buffer).val := fun hmem =>
          (tgNextLine_free hline (CStr.mem_of_mem_ofBuffer hmem)).2 rfl
        split at hread
        · split at hread
          · simp at hread
          · rename_i hroom
            obtain rfl : _ = out := by simpa using hread
            constructor
            · simp only [List.length_append] at hroom ⊢
              omega
            · intro hacc hmem
              rcases List.mem_append.mp hmem with hold | hkeep
              · exact hacc hold
              · exact hfree (List.mem_of_mem_take hkeep)
        · split at hread
          · simp at hread
          · have hrest := ih hread
            refine ⟨hrest.1, fun hacc => hrest.2 ?_⟩
            have hcrlf : cr ≠ lf := by decide
            simp [hacc, hfree, hcrlf]

/-- The steps of a decoding that succeeds; every line that another one follows was
read before the end of the input. -/
theorem tgDecode_steps {raw : Bytes} {tg : TgMessage} (hdecode : tgDecode raw = some tg) :
    ∃ header metaLine c1 c2 c3 c4 body,
      (tgReadLine raw = some (header, c1) ∧ c1 ≠ [] ∧ tgHeaderKind header = some tg.kind) ∧
        (tgReadKey c1 = some (tg.receiver, c2) ∧ c2 ≠ []) ∧
        (tgReadKey c2 = some (tg.sender, c3) ∧ c3 ≠ []) ∧
        (tgReadLine c3 = some (metaLine, c4) ∧ c4 ≠ [] ∧
          tgReadMeta tg.kind metaLine = some (tg.sn, tg.snTo, tg.timestamp)) ∧
        tgReadBody c4.length c4 [] = some body ∧ tg.body = CStr.ofBuffer body := by
  simp only [tgDecode, Option.bind_eq_bind, Option.bind_eq_some_iff, Option.pure_def,
    Option.some.injEq] at hdecode
  obtain ⟨⟨header, c1⟩, hfirst, kind, hkind, ⟨receiver, c2⟩, hsecond, ⟨sender, c3⟩, hthird,
    ⟨metaLine, c4⟩, hfourth, ⟨sn, snTo, timestamp⟩, hmeta, body, hbody, rfl⟩ := hdecode
  have hmore4 : c4 ≠ [] := by
    rintro rfl
    simp [tgReadBody] at hbody
  have hmore3 : c3 ≠ [] := by
    rintro rfl
    simp [tgReadLine, tgNextLine] at hfourth
  have hmore2 : c2 ≠ [] := by
    rintro rfl
    simp [tgReadKey, tgReadLine, tgNextLine] at hthird
  have hmore1 : c1 ≠ [] := by
    rintro rfl
    simp [tgReadKey, tgReadLine, tgNextLine] at hsecond
  exact ⟨header, metaLine, c1, c2, c3, c4, body, ⟨hfirst, hmore1, hkind⟩, ⟨hsecond, hmore2⟩,
    ⟨hthird, hmore3⟩, ⟨hfourth, hmore4, hmeta⟩, hbody, rfl⟩

theorem tgDecode_body {raw : Bytes} {tg : TgMessage} (hdecode : tgDecode raw = some tg) :
    tg.body.length + 1 < tgBodyMax ∧ cr ∉ tg.body.val := by
  obtain ⟨_, _, _, _, _, _, text, -, -, -, -, hread, hbody⟩ := tgDecode_steps hdecode
  obtain ⟨hlength, hcr⟩ := tgReadBody_bounds hread
  have hle := CStr.ofBuffer_length_le text
  rw [hbody]
  refine ⟨?_, fun hmem => hcr (by simp) (CStr.mem_of_mem_ofBuffer hmem)⟩
  simp only [CStr.length]
  omega

theorem tgReadKey_fieldOk {c rest : Bytes} {key : CStr} (hread : tgReadKey c = some (key, rest)) :
    tgFieldOk (some key) = true := by
  unfold tgReadKey at hread
  split at hread
  · rename_i line after hline
    split at hread
    · cases hread
    · rename_i hbounds
      obtain ⟨rfl, rfl⟩ := Prod.mk.inj (Option.some.inj hread)
      rw [not_or, not_le] at hbounds
      unfold tgReadLine at hline
      split at hline
      · rename_i buffer behind hnext
        obtain ⟨rfl, -⟩ := Prod.mk.inj (Option.some.inj hline)
        have hfree {b : UInt8} (hmem : b ∈ (CStr.ofBuffer buffer).val) : b ≠ lf ∧ b ≠ cr :=
          tgNextLine_free hnext (CStr.mem_of_mem_ofBuffer hmem)
        rw [tgFieldOk_some_iff]
        exact ⟨hbounds.1, hbounds.2, fun hmem => (hfree hmem).1 rfl, fun hmem => (hfree hmem).2 rfl⟩
      · cases hline
  · cases hread

theorem tgReadMeta_valid {kind : TgKind} {line : CStr} {sn snTo : ℤ} {timestamp : Int64}
    (hmeta : tgReadMeta kind line = some (sn, snTo, timestamp)) :
    tgSnValid sn ∧ if kind = .text then snTo = 0 else tgSnValid snTo := by
  unfold tgReadMeta at hmeta
  by_cases hkind : kind = .text
  · rw [if_pos hkind] at hmeta ⊢
    unfold tgTextMeta at hmeta
    split at hmeta
    · split at hmeta
      · rename_i hvalid
        simp only [Option.some.injEq, Prod.mk.injEq] at hmeta
        exact ⟨hmeta.1 ▸ hvalid, hmeta.2.1.symm⟩
      · cases hmeta
    · cases hmeta
  · rw [if_neg hkind] at hmeta ⊢
    unfold tgCmdMeta at hmeta
    split at hmeta
    · split at hmeta
      · cases hmeta
      · split at hmeta
        · split at hmeta
          · rename_i hvalid
            simp only [Option.some.injEq, Prod.mk.injEq] at hmeta
            exact ⟨hmeta.1 ▸ hvalid.1, hmeta.2.1 ▸ hvalid.2⟩
          · cases hmeta
        · cases hmeta
    · cases hmeta

/-- The header of a decoded record is one the encoders accept. -/
theorem tgDecode_header {raw : Bytes} {tg : TgMessage} (hdecode : tgDecode raw = some tg) :
    tgFieldOk (some tg.receiver) = true ∧ tgFieldOk (some tg.sender) = true ∧ tgSnValid tg.sn ∧
      if tg.kind = .text then tg.snTo = 0 else tgSnValid tg.snTo := by
  obtain ⟨_, _, _, _, _, _, _, -, ⟨hreceiver, -⟩, ⟨hsender, -⟩, ⟨-, -, hmeta⟩, -, -⟩ :=
    tgDecode_steps hdecode
  obtain ⟨hsn, hsnTo⟩ := tgReadMeta_valid hmeta
  exact ⟨tgReadKey_fieldOk hreceiver, tgReadKey_fieldOk hsender, hsn, hsnTo⟩

/-! ## Bodies as lists of lines -/

/-- Complete lines followed by a last one without a line feed. -/
def joinLines (lines : List Bytes) (last : Bytes) : Bytes :=
  (lines.map (· ++ [lf])).flatten ++ last

@[simp] theorem joinLines_nil (last : Bytes) : joinLines [] last = last := by
  simp [joinLines]

@[simp] theorem joinLines_cons (line : Bytes) (lines : List Bytes) (last : Bytes) :
    joinLines (line :: lines) last = line ++ lf :: joinLines lines last := by
  simp [joinLines]

theorem joinLines_append (lines : List Bytes) (last tail : Bytes) :
    joinLines lines last ++ tail = joinLines lines (last ++ tail) := by
  simp [joinLines]

theorem length_le_joinLines (lines : List Bytes) (last : Bytes) :
    lines.length ≤ (joinLines lines last).length := by
  induction lines with
  | nil => simp
  | cons line lines ih =>
      simp only [joinLines_cons, List.length_append, List.length_cons]
      omega

theorem joinLines_eq_intercalate (lines : List Bytes) (last : Bytes) :
    joinLines lines last = [lf].intercalate (lines ++ [last]) := by
  induction lines with
  | nil => simp
  | cons line lines ih =>
      rw [joinLines_cons, List.cons_append,
        List.intercalate_cons_of_ne_nil (by simp), ih]
      simp

theorem splitOn_joinLines {lines : List Bytes} {last : Bytes}
    (hlines : ∀ line ∈ lines, lf ∉ line) (hlast : lf ∉ last) :
    (joinLines lines last).splitOn lf = lines ++ [last] := by
  rw [joinLines_eq_intercalate]
  apply List.splitOn_intercalate
  · intro line hline
    rcases List.mem_append.mp hline with hmem | hmem
    · exact hlines line hmem
    · rw [List.mem_singleton.mp hmem]
      exact hlast
  · simp

theorem exists_joinLines (body : Bytes) :
    ∃ lines last, body = joinLines lines last ∧
      (∀ line ∈ lines, lf ∉ line) ∧ lf ∉ last := by
  induction body with
  | nil => exact ⟨[], [], by simp⟩
  | cons b body ih =>
      obtain ⟨lines, last, rfl, hlines, hlast⟩ := ih
      by_cases hb : b = lf
      · exact ⟨[] :: lines, last, by simp [hb], by simpa using hlines, hlast⟩
      · cases lines with
        | nil => exact ⟨[], b :: last, by simp, by simp, by simp [hlast, Ne.symm hb]⟩
        | cons line lines =>
            refine ⟨(b :: line) :: lines, last, by simp, ?_, hlast⟩
            intro other hother
            rcases List.mem_cons.mp hother with rfl | hmem
            · simp [hlines line (by simp), Ne.symm hb]
            · exact hlines other (List.mem_cons_of_mem line hmem)

theorem tgBodyOkLoop_append {line : Bytes} (rest acc : Bytes) (hlf : lf ∉ line) :
    tgBodyOkLoop (line ++ rest) acc = tgBodyOkLoop rest (acc ++ line) := by
  induction line generalizing acc with
  | nil => simp
  | cons b line ih =>
      have hb : b ≠ lf := fun h => hlf (by simp [h])
      rw [List.cons_append, tgBodyOkLoop, if_neg hb,
        ih _ fun h => hlf (List.mem_cons_of_mem b h)]
      simp

/-- `tg_body_ok` tests every line of the body. -/
theorem tgBodyOkLoop_joinLines {lines : List Bytes} {last : Bytes}
    (hlines : ∀ line ∈ lines, lf ∉ line) (hlast : lf ∉ last) :
    tgBodyOkLoop (joinLines lines last) [] = true ↔
      (∀ line ∈ lines, tgEndsInTerminator line = false) ∧
        tgEndsInTerminator last = false := by
  induction lines with
  | nil =>
      have hall := tgBodyOkLoop_append [] [] hlast
      rw [List.append_nil, List.nil_append] at hall
      simp [hall, tgBodyOkLoop]
  | cons line lines ih =>
      have hrest := ih fun other h => hlines other (List.mem_cons_of_mem line h)
      rw [joinLines_cons, tgBodyOkLoop_append _ _ (hlines line (by simp))]
      by_cases hend : tgEndsInTerminator line = true
      · simp [tgBodyOkLoop, hend]
      · simp only [Bool.not_eq_true] at hend
        simp [tgBodyOkLoop, hend, hrest]

/-- A line the decoder can read: no separator and no NUL in it. -/
def TgPlainLine (line : Bytes) : Prop :=
  lf ∉ line ∧ cr ∉ line ∧ (0 : UInt8) ∉ line

theorem TgPlainLine.take {line : Bytes} (hline : TgPlainLine line) (k : ℕ) :
    TgPlainLine (line.take k) :=
  ⟨fun h => hline.1 (List.mem_of_mem_take h),
    fun h => hline.2.1 (List.mem_of_mem_take h),
    fun h => hline.2.2 (List.mem_of_mem_take h)⟩

theorem TgPlainLine.append_terminator {line : Bytes} (hline : TgPlainLine line) :
    TgPlainLine (line ++ tgTerminator) := by
  have hterm : TgPlainLine tgTerminator := by
    refine ⟨?_, ?_, ?_⟩ <;> decide
  simp only [TgPlainLine, List.mem_append, not_or]
  exact ⟨⟨hline.1, hterm.1⟩, ⟨hline.2.1, hterm.2.1⟩, ⟨hline.2.2, hterm.2.2⟩⟩

@[simp] theorem tgTerminator_length : tgTerminator.length = 4 := rfl

theorem tgEndsInTerminator_append (line : Bytes) :
    tgEndsInTerminator (line ++ tgTerminator) = true := by
  simp [tgEndsInTerminator]

theorem tgReadBody_line {rounds : ℕ} {line : Bytes} (rest acc : Bytes)
    (hline : TgPlainLine line) :
    tgReadBody (rounds + 1) (line ++ lf :: rest) acc =
      if tgEndsInTerminator (line.take (tgLineSize - 1)) then
        if tgBodyMax ≤ acc.length + (min (tgLineSize - 1) line.length - 4) + 1 then none
        else some (acc ++ (line.take (tgLineSize - 1)).take
          (min (tgLineSize - 1) line.length - 4))
      else if tgBodyMax ≤ acc.length + min (tgLineSize - 1) line.length + 1 then none
      else tgReadBody rounds rest (acc ++ line.take (tgLineSize - 1) ++ [lf]) := by
  have hbuffer := CStr.ofBuffer_val_of_nulFree (hline.take (tgLineSize - 1)).2.2
  rw [tgReadBody, tgNextLine_append_lf line rest hline.1 hline.2.1 (by decide)]
  simp only [hbuffer, List.length_take, tgTerminator_length]
  split
  · congr 2
    omega
  · rfl

/-- A body whose lines fit is read back in full. -/
theorem tgReadBody_joinLines {rounds : ℕ} {lines : List Bytes} {last : Bytes}
    (rest acc : Bytes) (hrounds : lines.length < rounds)
    (hplain : ∀ line ∈ lines, TgPlainLine line) (hlast : TgPlainLine last)
    (hopen : ∀ line ∈ lines, tgEndsInTerminator line = false)
    (hfit : ∀ line ∈ lines, line.length < tgLineSize)
    (hlastFit : last.length + 4 < tgLineSize)
    (hroom : acc.length + (joinLines lines last).length + 1 < tgBodyMax) :
    tgReadBody rounds (joinLines lines last ++ (tgTerminator ++ lf :: rest)) acc =
      some (acc ++ joinLines lines last) := by
  induction lines generalizing rounds acc with
  | nil =>
      obtain ⟨rounds, rfl⟩ : ∃ k, rounds = k + 1 := ⟨rounds - 1, by simp at hrounds; omega⟩
      have htake : (last ++ tgTerminator).take (tgLineSize - 1) = last ++ tgTerminator :=
        List.take_of_length_le (by simp; omega)
      have hkeep : min (tgLineSize - 1) (last ++ tgTerminator).length - 4 = last.length := by
        simp only [List.length_append, tgTerminator_length]
        omega
      rw [joinLines_nil] at hroom
      rw [joinLines_nil, ← List.append_assoc, tgReadBody_line rest acc hlast.append_terminator,
        htake, hkeep, tgEndsInTerminator_append, if_pos rfl, if_neg (by omega)]
      simp
  | cons line lines ih =>
      obtain ⟨rounds, rfl⟩ : ∃ k, rounds = k + 1 := ⟨rounds - 1, by simp at hrounds; omega⟩
      have hlineFit := hfit line (by simp)
      have htake : line.take (tgLineSize - 1) = line := List.take_of_length_le (by omega)
      have hkeep : min (tgLineSize - 1) line.length = line.length := by omega
      simp only [joinLines_cons, List.length_append, List.length_cons] at hroom hrounds
      rw [joinLines_cons, List.append_assoc, List.cons_append,
        tgReadBody_line _ acc (hplain line (by simp)), htake, hkeep,
        hopen line (by simp), if_neg (by simp), if_neg (by omega),
        ih (acc ++ line ++ [lf]) (by omega)
          (fun other h => hplain other (List.mem_cons_of_mem line h))
          (fun other h => hopen other (List.mem_cons_of_mem line h))
          (fun other h => hfit other (List.mem_cons_of_mem line h))
          (by simp; omega)]
      simp

/-- The body loop never gains bytes, and loses some as soon as a line exceeds
the line buffer. -/
theorem tgReadBody_joinLines_length {rounds : ℕ} {lines : List Bytes} {last out : Bytes}
    (acc : Bytes) (hplain : ∀ line ∈ lines, TgPlainLine line) (hlast : TgPlainLine last)
    (hopen : ∀ line ∈ lines, tgEndsInTerminator line = false)
    (hread : tgReadBody rounds (joinLines lines last ++ (tgTerminator ++ [lf])) acc =
      some out) :
    out.length ≤ acc.length + (joinLines lines last).length ∧
      (out.length = acc.length + (joinLines lines last).length →
        (∀ line ∈ lines, line.length < tgLineSize) ∧ last.length + 4 < tgLineSize) := by
  induction lines generalizing rounds acc with
  | nil =>
      cases rounds with
      | zero => simp [tgReadBody] at hread
      | succ rounds =>
          rw [joinLines_nil, ← List.append_assoc,
            tgReadBody_line [] acc hlast.append_terminator] at hread
          have hempty : ∀ text, tgReadBody rounds [] text = none := by
            intro text
            cases rounds <;> simp [tgReadBody, tgNextLine]
          split at hread
          · split at hread
            · simp at hread
            · obtain rfl : _ = out := by simpa using hread
              simp only [joinLines_nil, List.length_append, List.length_take,
                tgTerminator_length]
              refine ⟨by omega, fun hlen => ⟨by simp, ?_⟩⟩
              simp only [tgLineSize, tgFieldMax] at hlen ⊢
              omega
          · split at hread
            · simp at hread
            · simp [hempty] at hread
  | cons line lines ih =>
      cases rounds with
      | zero => simp [tgReadBody] at hread
      | succ rounds =>
          have hends := hopen line (by simp)
          rw [joinLines_cons, List.append_assoc, List.cons_append,
            tgReadBody_line _ acc (hplain line (by simp))] at hread
          simp only [joinLines_cons, List.length_append, List.length_cons]
          split at hread
          · rename_i hcut
            -- a full line never ends the record, so this one was cut
            have hlong : tgLineSize ≤ line.length := by
              by_contra hshort
              rw [List.take_of_length_le (by omega), hends] at hcut
              simp at hcut
            split at hread
            · simp at hread
            · obtain rfl : _ = out := by simpa using hread
              simp only [List.length_append, List.length_take]
              constructor <;> omega
          · split at hread
            · simp at hread
            · obtain ⟨hle, hfit⟩ := ih _
                (fun other h => hplain other (List.mem_cons_of_mem line h))
                (fun other h => hopen other (List.mem_cons_of_mem line h)) hread
              simp only [List.length_append, List.length_take, List.length_singleton] at hle hfit
              refine ⟨by omega, fun hlen => ?_⟩
              obtain ⟨hlines, hlastFit⟩ := hfit (by omega)
              have hline : line.length < tgLineSize := by omega
              exact ⟨by simpa [hline] using hlines, hlastFit⟩

/-! ## The round trip -/

/-- What `tg_decode(encode(x)) == x` asks of one accepted input. -/
def TgTextRoundTrips (outSize : ℕ) (receiver sender : CStr) (sn : ℤ)
    (timestamp : Int64) (body : Option CStr) : Prop :=
  let encoded := tgEncodeText outSize (some receiver) (some sender) sn timestamp body
  ∃ tg, tgDecode (encoded.out.take encoded.code.toNat) = some tg ∧
    tg.kind = .text ∧ tg.receiver = receiver ∧ tg.sender = sender ∧ tg.sn = sn ∧
    tg.timestamp = timestamp ∧ tg.body.val = tgBodyBytes body

/-- The bodies the wire format carries. -/
structure TgBodyCarried (body : Bytes) : Prop where
  noCr : cr ∉ body
  short : body.length + 1 < tgBodyMax
  linesFit : ∀ line ∈ (body ++ tgTerminator).splitOn lf, line.length < tgLineSize

theorem tgTextRecord_length_lt {receiver sender : CStr} {sn : ℤ} (timestamp : Int64)
    (body : Bytes) (hreceiver : tgFieldOk (some receiver) = true)
    (hsender : tgFieldOk (some sender) = true) (hsn : tgSnValid sn) :
    (tgTextRecord receiver sender sn timestamp body).length < body.length + 300 := by
  have hmeta := tgTextMetaLine_length_le hsn timestamp
  have hreceiverLength := ((tgFieldOk_some_iff receiver).mp hreceiver).2.1
  have hsenderLength := ((tgFieldOk_some_iff sender).mp hsender).2.1
  simp only [CStr.length, tgFieldMax] at hreceiverLength hsenderLength
  have hheader : (bytes "ZCZC TEXT").length = 9 := rfl
  simp only [tgTextRecord, List.length_append, List.length_cons, List.length_nil, hheader,
    tgTerminator_length]
  omega

/-- Room for a body that the decoder can hold is room for its record. -/
theorem tgEncodeText_of_valid {outSize : ℕ} {receiver sender : CStr} {sn : ℤ}
    {body : Option CStr} (timestamp : Int64) (hsize : tgBodyMax + 300 ≤ outSize)
    (hreceiver : tgFieldOk (some receiver) = true) (hsender : tgFieldOk (some sender) = true)
    (hsn : tgSnValid sn) (hbody : tgBodyOk body = true)
    (hshort : (tgBodyBytes body).length < tgBodyMax) :
    tgEncodeText outSize (some receiver) (some sender) sn timestamp body =
      ⟨(tgTextRecord receiver sender sn timestamp (tgBodyBytes body)).length,
        tgTextRecord receiver sender sn timestamp (tgBodyBytes body)⟩ := by
  have hlength := tgTextRecord_length_lt timestamp (tgBodyBytes body) hreceiver hsender hsn
  simp only [tgBodyMax] at hsize hshort
  have hint : intOfSize (tgTextRecord receiver sender sn timestamp (tgBodyBytes body)).length =
      (tgTextRecord receiver sender sn timestamp (tgBodyBytes body)).length :=
    Int.bmod_eq_of_le (by omega) (by omega)
  rw [tgEncodeText_eq (by omega) timestamp hreceiver hsender hsn hbody, if_pos (by omega), hint]

theorem intOfSize_toNat {n : ℕ} (hn : n < 2 ^ 31) : (intOfSize n).toNat = n := by
  have hint : intOfSize n = n := Int.bmod_eq_of_le (by omega) (by omega)
  rw [hint]
  rfl

theorem exists_plainLines {body : Option CStr} (hok : tgBodyOk body = true)
    (hcr : cr ∉ tgBodyBytes body) :
    ∃ lines last, tgBodyBytes body = joinLines lines last ∧
      (∀ line ∈ lines, TgPlainLine line) ∧ TgPlainLine last ∧
      (∀ line ∈ lines, tgEndsInTerminator line = false) := by
  obtain ⟨lines, last, hbody, hlines, hlast⟩ := exists_joinLines (tgBodyBytes body)
  have hnul : (0 : UInt8) ∉ tgBodyBytes body := by
    cases body with
    | none => simp [tgBodyBytes]
    | some text => exact text.nulFree
  have hloop : tgBodyOkLoop (joinLines lines last) [] = true := by
    cases body with
    | none => rw [← hbody]; rfl
    | some text => rw [← hbody]; exact hok
  have hmemLine : ∀ {line b}, line ∈ lines → b ∈ line → b ∈ tgBodyBytes body := by
    intro line b hline hb
    rw [hbody]
    refine List.mem_append_left _ (List.mem_flatten.mpr
      ⟨line ++ [lf], List.mem_map.mpr ⟨line, hline, rfl⟩, ?_⟩)
    exact List.mem_append_left _ hb
  have hmemLast : ∀ {b}, b ∈ last → b ∈ tgBodyBytes body := by
    intro b hb
    rw [hbody]
    exact List.mem_append_right _ hb
  refine ⟨lines, last, hbody, ?_, ?_, ?_⟩
  · intro line hline
    exact ⟨hlines line hline, fun h => hcr (hmemLine hline h),
      fun h => hnul (hmemLine hline h)⟩
  · exact ⟨hlast, fun h => hcr (hmemLast h), fun h => hnul (hmemLast h)⟩
  · exact ((tgBodyOkLoop_joinLines hlines hlast).mp hloop).1

theorem linesFit_iff {lines : List Bytes} {last : Bytes}
    (hlines : ∀ line ∈ lines, TgPlainLine line) (hlast : TgPlainLine last) :
    (∀ line ∈ (joinLines lines last ++ tgTerminator).splitOn lf,
        line.length < tgLineSize) ↔
      (∀ line ∈ lines, line.length < tgLineSize) ∧ last.length + 4 < tgLineSize := by
  rw [joinLines_append, splitOn_joinLines (fun line h => (hlines line h).1)
    hlast.append_terminator.1]
  simp only [List.mem_append, List.mem_singleton, or_imp, forall_and, forall_eq,
    List.length_append, tgTerminator_length]

/-- For an accepted input, decoding gives the input back exactly when the body
is one the wire format carries. -/
theorem tgTextRoundTrips_iff (outSize : ℕ) (receiver sender : CStr) (sn : ℤ)
    (timestamp : Int64) (body : Option CStr)
    (haccept : 0 <
      (tgEncodeText outSize (some receiver) (some sender) sn timestamp body).code) :
    TgTextRoundTrips outSize receiver sender sn timestamp body ↔
      TgBodyCarried (tgBodyBytes body) := by
  obtain ⟨hreceiver, hsender, hsn, hok, hencoded⟩ := tgEncodeText_accepted haccept
  have hlength := tgTextRecord_length_lt timestamp (tgBodyBytes body)
    hreceiver hsender hsn
  have hdecode := tgDecode_tgTextRecord timestamp (tgBodyBytes body)
    hreceiver hsender hsn
  -- a short record is handed over whole
  have hwhole : (tgBodyBytes body).length + 1 < tgBodyMax →
      tgDecode ((tgTextRecord receiver sender sn timestamp (tgBodyBytes body)).take
        (intOfSize (tgTextRecord receiver sender sn timestamp
          (tgBodyBytes body)).length).toNat) =
      tgDecode (tgTextRecord receiver sender sn timestamp (tgBodyBytes body)) := by
    intro hshort
    rw [intOfSize_toNat (by simp only [tgBodyMax] at hshort; omega), List.take_length]
  unfold TgTextRoundTrips
  rw [hencoded]
  constructor
  · rintro ⟨tg, hdecoded, -, -, -, -, -, hbody⟩
    obtain ⟨hshort, hcr⟩ := tgDecode_body hdecoded
    rw [CStr.length, hbody] at hshort
    rw [hbody] at hcr
    dsimp only at hdecoded
    rw [hwhole hshort, hdecode] at hdecoded
    obtain ⟨text, hread, rfl⟩ := Option.map_eq_some_iff.mp hdecoded
    obtain ⟨lines, last, hjoin, hlines, hlast, hopen⟩ := exists_plainLines hok hcr
    rw [hjoin] at hread hbody
    obtain ⟨hle, hfit⟩ := tgReadBody_joinLines_length [] hlines hlast hopen hread
    have hkept := CStr.ofBuffer_length_le text
    rw [hbody] at hkept
    simp only [List.length_nil, Nat.zero_add] at hle hfit
    refine ⟨hcr, hshort, ?_⟩
    rw [hjoin]
    exact (linesFit_iff hlines hlast).mpr (hfit (by omega))
  · rintro ⟨hcr, hshort, hfit⟩
    obtain ⟨lines, last, hjoin, hlines, hlast, hopen⟩ := exists_plainLines hok hcr
    rw [hjoin] at hfit
    obtain ⟨hlinesFit, hlastFit⟩ := (linesFit_iff hlines hlast).mp hfit
    have hrounds : lines.length <
        (tgBodyBytes body ++ (tgTerminator ++ [lf])).length := by
      rw [hjoin]
      have hcount := length_le_joinLines lines last
      simp only [List.length_append, tgTerminator_length, List.length_singleton]
      omega
    have hread := tgReadBody_joinLines [] [] hrounds hlines hlast hopen hlinesFit hlastFit
      (by rw [← hjoin]; simpa using hshort)
    rw [List.nil_append, ← hjoin] at hread
    have hnul : (0 : UInt8) ∉ tgBodyBytes body := by
      cases body with
      | none => simp [tgBodyBytes]
      | some text => exact text.nulFree
    refine ⟨_, by rw [hwhole hshort, hdecode, hread]; rfl, rfl, rfl, rfl, rfl, rfl, ?_⟩
    exact CStr.ofBuffer_val_of_nulFree hnul

theorem sampleKey_nulFree : (0 : UInt8) ∉ bytes "AAAA" := by decide

def sampleKey : CStr := ⟨bytes "AAAA", sampleKey_nulFree⟩

theorem tgTextRoundTrips_iff_hello :
    0 < (tgEncodeText 256 (some sampleKey) (some sampleKey) 42 1700000000
        (some ⟨bytes "hello world", by decide⟩)).code ∧
      (TgTextRoundTrips 256 sampleKey sampleKey 42 1700000000
          (some ⟨bytes "hello world", by decide⟩) ↔
        TgBodyCarried (bytes "hello world")) :=
  ⟨by decide, tgTextRoundTrips_iff 256 sampleKey sampleKey 42 1700000000
    (some ⟨bytes "hello world", by decide⟩) (by decide)⟩

/-- One line of 140 letters is accepted, and decodes to nothing: with the
terminator it is one byte too long for the line buffer. -/
theorem tgTextRoundTrips_fails_on_long_line :
    ¬ ∀ (outSize : ℕ) (receiver sender : CStr) (sn : ℤ) (timestamp : Int64)
        (body : Option CStr),
      0 < (tgEncodeText outSize (some receiver) (some sender) sn timestamp body).code →
        TgTextRoundTrips outSize receiver sender sn timestamp body := by
  intro hall
  let body : CStr := ⟨List.replicate 140 65, by decide⟩
  obtain ⟨tg, hdecode, -⟩ := hall 512 sampleKey sampleKey 1 0 (some body) (by decide +kernel)
  have hnone : tgDecode ((tgEncodeText 512 (some sampleKey) (some sampleKey) 1 0
      (some body)).out.take (tgEncodeText 512 (some sampleKey) (some sampleKey) 1 0
        (some body)).code.toNat) = none := by
    decide +kernel
  exact Option.some_ne_none tg (hdecode.symm.trans hnone)

end ToxRelayer
