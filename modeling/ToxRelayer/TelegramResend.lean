import ToxRelayer.TelegramLines

/-!
# Sending a decoded telegram again

The decoder ends the record at the first line that ends in the terminator, and keeps
what stands in front of it.  That may end in the terminator once more, and then it is
not a body the encoder accepts.
-/

namespace ToxRelayer

open CString

/-- The line that closes the record, as the line buffer holds it. -/
def closingLine : List Bytes → Option Bytes
  | [] => none
  | line :: lines =>
      if tgTerminator <:+ line.take (tgLineSize - 1) then some (line.take (tgLineSize - 1))
      else closingLine lines

/-- `tg_encode_text` on the fields of a decoded record. -/
def TgMessage.resend (tg : TgMessage) (outSize : ℕ) : TgEncoded :=
  tgEncodeText outSize (some tg.receiver) (some tg.sender) tg.sn tg.timestamp (some tg.body)

/-- The record is written again and decodes to the same message. -/
def TgMessage.SentAgain (tg : TgMessage) (outSize : ℕ) : Prop :=
  0 < (tg.resend outSize).code ∧
    tgDecode ((tg.resend outSize).out.take (tg.resend outSize).code.toNat) = some tg

/-! ## What the body loop keeps -/

/-- The body consists of lines that fit the buffer, up to the line that closes the
record. -/
theorem tgReadBody_closingLine {rounds : ℕ} {c acc out : Bytes} (hnul : (0 : UInt8) ∉ c)
    (hread : tgReadBody rounds c acc = some out) :
    ∃ lines last, out = acc ++ joinLines lines last ∧
      closingLine (textLines c) = some (last ++ tgTerminator) ∧
      (∀ line ∈ lines, TgPlainLine line ∧ tgEndsInTerminator line = false ∧
        line.length < tgLineSize) ∧
      TgPlainLine last ∧ last.length + 4 < tgLineSize := by
  induction rounds generalizing c acc with
  | zero => cases hread
  | succ rounds ih =>
      obtain ⟨line, lines, hlines, hplain, -, hround⟩ := tgReadBody_cases hnul hread
      have hcut : (line.take (tgLineSize - 1)).length < tgLineSize := by
        rw [List.length_take]
        exact lt_of_le_of_lt (Nat.min_le_left _ _) (by decide)
      have hkept := hplain.take (tgLineSize - 1)
      rw [hlines, closingLine]
      generalize line.take (tgLineSize - 1) = kept at hround hcut hkept ⊢
      rcases hround with ⟨hends, rfl⟩ | ⟨hopen, rest, rfl, hrest, -, hread'⟩
      · obtain ⟨last, rfl⟩ := hends
        rw [List.length_append, tgTerminator_length] at hcut
        have hlast : (last ++ tgTerminator).take
            ((last ++ tgTerminator).length - tgTerminator.length) = last := by
          rw [List.length_append, Nat.add_sub_cancel, List.take_left]
        have hplainLast := hkept.take last.length
        rw [List.take_left] at hplainLast
        refine ⟨[], last, ?_, if_pos (List.suffix_append _ _), ?_, hplainLast, hcut⟩
        · rw [hlast, joinLines_nil]
        · intro other hmem
          cases hmem
      · obtain ⟨more, last, rfl, hclosing, hmore, hlast, hfit⟩ := ih hrest hread'
        refine ⟨kept :: more, last, ?_, ?_, ?_, hlast, hfit⟩
        · rw [joinLines_cons]
          simp
        · rw [if_neg hopen]
          exact hclosing
        · intro other hmem
          rcases List.mem_cons.mp hmem with rfl | hmem
          · refine ⟨hkept, ?_, hcut⟩
            rw [← Bool.not_eq_true, tgEndsInTerminator_iff]
            exact hopen
          · exact hmore other hmem

/-- The encoder accepts a decoded body unless the terminator stands twice at the end of
the closing line. -/
theorem tgDecode_closingLine {raw : Bytes} {tg : TgMessage} (hnul : (0 : UInt8) ∉ raw)
    (hdecode : tgDecode raw = some tg) :
    ∃ lines last, tg.body.val = joinLines lines last ∧
      closingLine ((textLines raw).drop 4) = some (last ++ tgTerminator) ∧
      (∀ line ∈ lines, TgPlainLine line ∧ tgEndsInTerminator line = false ∧
        line.length < tgLineSize) ∧
      TgPlainLine last ∧ last.length + 4 < tgLineSize ∧
      (tgBodyOk (some tg.body) = true ↔ ¬ tgTerminator ++ tgTerminator <:+ last ++ tgTerminator) := by
  obtain ⟨c, out, hlines, hsuffix, -, hread, hbody⟩ := tgDecode_bodyLines hdecode
  have hfree : (0 : UInt8) ∉ c := fun hmem => hnul (hsuffix.subset hmem)
  have hout : tg.body.val = out := by
    rw [hbody]
    exact CStr.ofBuffer_val_of_nulFree (tgReadBody_nulFree hfree List.not_mem_nil hread)
  obtain ⟨lines, last, rfl, hclosing, hplain, hlast, hfit⟩ := tgReadBody_closingLine hfree hread
  rw [List.nil_append] at hout
  rw [hlines] at hclosing
  refine ⟨lines, last, hout, hclosing, hplain, hlast, hfit, ?_⟩
  rw [tgBodyOk, hout, tgBodyOkLoop_joinLines (fun line hmem => (hplain line hmem).1.1) hlast.1,
    List.suffix_append_self_iff, ← tgEndsInTerminator_iff, Bool.not_eq_true]
  exact and_iff_right fun line hmem => (hplain line hmem).2.1

/-! ## The record -/

theorem tgDecode_tgTextRecord_self {raw : Bytes} {tg : TgMessage} (hnul : (0 : UInt8) ∉ raw)
    (hdecode : tgDecode raw = some tg) (htext : tg.kind = .text) :
    tgDecode (tgTextRecord tg.receiver tg.sender tg.sn tg.timestamp tg.body.val) = some tg := by
  obtain ⟨hreceiver, hsender, hsn, hsnTo⟩ := tgDecode_header hdecode
  obtain ⟨lines, last, hjoin, -, hlines, hlast, hfit, -⟩ := tgDecode_closingLine hnul hdecode
  have hrounds : lines.length < (tg.body.val ++ (tgTerminator ++ [lf])).length := by
    have hcount := length_le_joinLines lines last
    rw [hjoin, List.length_append, List.length_append, tgTerminator_length]
    omega
  have hroom := (tgDecode_body hdecode).1
  rw [CStr.length, hjoin] at hroom
  have hread := tgReadBody_joinLines [] [] hrounds (fun line hmem => (hlines line hmem).1) hlast
    (fun line hmem => (hlines line hmem).2.1) (fun line hmem => (hlines line hmem).2.2) hfit
    (by simpa using hroom)
  rw [List.nil_append, ← hjoin] at hread
  rw [if_pos htext] at hsnTo
  rw [tgDecode_tgTextRecord tg.timestamp tg.body.val hreceiver hsender hsn, hread,
    Option.map_some, CStr.ofBuffer_val, ← htext, ← hsnTo]

/-- A record of text without NUL bytes is sent again unless the line that closes it ends
in the terminator twice; then the encoder refuses the body. -/
theorem tgDecode_sentAgain_iff {raw : Bytes} {tg : TgMessage} {outSize : ℕ}
    (hnul : (0 : UInt8) ∉ raw) (hdecode : tgDecode raw = some tg) (htext : tg.kind = .text)
    (hroom : (tgTextRecord tg.receiver tg.sender tg.sn tg.timestamp tg.body.val).length <
      outSize) :
    (tg.SentAgain outSize ↔ ∀ line ∈ closingLine ((textLines raw).drop 4),
        ¬ tgTerminator ++ tgTerminator <:+ line) ∧
      (¬ tg.SentAgain outSize → tg.resend outSize = ⟨tgErrFormat, []⟩) := by
  obtain ⟨hreceiver, hsender, hsn, -⟩ := tgDecode_header hdecode
  obtain ⟨lines, last, -, hclosing, -, -, -, hok⟩ := tgDecode_closingLine hnul hdecode
  have hsize : 0 < outSize := by omega
  have hagain : tg.SentAgain outSize ↔ tgBodyOk (some tg.body) = true := by
    constructor
    · rintro ⟨haccept, -⟩
      exact (tgEncodeText_accepted haccept).2.2.2.1
    · intro hbody
      have hshort := (tgDecode_body hdecode).1
      have hlength := tgTextRecord_length_lt tg.timestamp tg.body.val hreceiver hsender hsn
      rw [CStr.length] at hshort
      simp only [tgBodyMax] at hshort
      have hwritten : tg.resend outSize =
          ⟨intOfSize (tgTextRecord tg.receiver tg.sender tg.sn tg.timestamp tg.body.val).length,
            tgTextRecord tg.receiver tg.sender tg.sn tg.timestamp tg.body.val⟩ := by
        rw [TgMessage.resend, tgEncodeText_eq hsize tg.timestamp hreceiver hsender hsn hbody]
        exact if_pos hroom
      have hpos : 0 < (tgTextRecord tg.receiver tg.sender tg.sn tg.timestamp
          tg.body.val).length := by
        simp only [tgTextRecord, List.length_append, List.length_cons]
        omega
      have hint := intOfSize_toNat (n := (tgTextRecord tg.receiver tg.sender tg.sn tg.timestamp
        tg.body.val).length) (by omega)
      rw [TgMessage.SentAgain, hwritten]
      constructor
      · dsimp only
        omega
      · rw [hint, List.take_length]
        exact tgDecode_tgTextRecord_self hnul hdecode htext
  refine ⟨?_, ?_⟩
  · rw [hagain, hok, hclosing]
    simp
  · rw [hagain]
    intro hbody
    rw [Bool.not_eq_true] at hbody
    rw [TgMessage.resend, tgEncodeText, if_neg (by omega)]
    simp [hreceiver, hsender, hsn, hbody]

theorem tgDecode_sentAgain_iff_legacy :
    let raw := bytes "ZCZC TEXT\r\nAAAA\nAAAA\n7 5\nlegacy\rNNNNN"
    let tg : TgMessage :=
      ⟨.text, sampleKey, sampleKey, 7, 0, 5, ⟨bytes "legacy\nN", by decide⟩⟩
    (tg.SentAgain 64 ↔ ∀ line ∈ closingLine ((textLines raw).drop 4),
        ¬ tgTerminator ++ tgTerminator <:+ line) ∧
      (¬ tg.SentAgain 64 → tg.resend 64 = ⟨tgErrFormat, []⟩) :=
  tgDecode_sentAgain_iff (by decide) (by decide +kernel) rfl (by decide +kernel)

/-- The body `helloNNNN` is decoded, and not accepted. -/
theorem tgDecode_refused_again :
    ¬ ∀ (raw : Bytes) (tg : TgMessage), (0 : UInt8) ∉ raw → tgDecode raw = some tg →
      tg.kind = .text → ∃ outSize, tg.SentAgain outSize := by
  intro hall
  let raw := bytes "ZCZC TEXT\nAAAA\nAAAA\n0001 100\nhelloNNNNNNNN\n"
  let body : CStr := ⟨bytes "helloNNNN", by decide⟩
  obtain ⟨outSize, haccept, -⟩ := hall raw ⟨.text, sampleKey, sampleKey, 1, 0, 100, body⟩
    (by decide) (by decide +kernel) rfl
  have hbody := (tgEncodeText_accepted haccept).2.2.2.1
  exact absurd hbody (by decide)

end ToxRelayer
