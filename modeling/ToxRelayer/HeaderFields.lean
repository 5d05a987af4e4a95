import ToxRelayer.AddressAgreement

/-!
# Header fields on the wire

A header field has no line end and a printed number has none either, so the four
header lines of a record are where the encoder put them, whatever the body
contains.
-/

namespace ToxRelayer

open CString

/-- A record, or the beginning of one, decodes to the header fields that were
written, if it decodes at all. -/
theorem tgDecode_headerFields (header metaLine : CStr) (kind : TgKind) {receiver sender : CStr}
    {sn snTo : ℤ} {timestamp : Int64} {raw rest : Bytes} {tg : TgMessage}
    (hkind : tgHeaderKind header = some kind)
    (hheader : lf ∉ header.val ∧ cr ∉ header.val ∧ header.length < tgLineSize)
    (hreceiver : tgFieldOk (some receiver) = true) (hsender : tgFieldOk (some sender) = true)
    (hmeta : lf ∉ metaLine.val ∧ cr ∉ metaLine.val ∧ metaLine.length < tgLineSize)
    (hnumbers : tgReadMeta kind metaLine = some (sn, snTo, timestamp))
    (hbegins : raw <+: header.val ++ lf :: (receiver.val ++ lf :: (sender.val ++ lf ::
      (metaLine.val ++ lf :: rest))))
    (hdecode : tgDecode raw = some tg) :
    tg.kind = kind ∧ tg.receiver = receiver ∧ tg.sender = sender ∧ tg.sn = sn ∧
      tg.snTo = snTo ∧ tg.timestamp = timestamp := by
  obtain ⟨suffix, hrecord⟩ := hbegins
  obtain ⟨line1, line4, c1, c2, c3, c4, -, ⟨hfirst, hmore1, hkind'⟩, ⟨hsecond, hmore2⟩,
    ⟨hthird, hmore3⟩, ⟨hfourth, hmore4, hnumbers'⟩, -, -⟩ := tgDecode_steps hdecode
  have hline1 := tgReadLine_append_suffix suffix hfirst hmore1
  have hline2 := tgReadKey_append_suffix suffix hsecond hmore2
  have hline3 := tgReadKey_append_suffix suffix hthird hmore3
  have hline4 := tgReadLine_append_suffix suffix hfourth hmore4
  rw [hrecord, tgReadLine_append_lf header _ hheader.1 hheader.2.1 hheader.2.2] at hline1
  simp only [Option.some.injEq, Prod.mk.injEq] at hline1
  obtain ⟨rfl, hrest1⟩ := hline1
  rw [← hrest1, tgReadKey_append_lf _ hreceiver] at hline2
  simp only [Option.some.injEq, Prod.mk.injEq] at hline2
  obtain ⟨hsame2, hrest2⟩ := hline2
  rw [← hrest2, tgReadKey_append_lf _ hsender] at hline3
  simp only [Option.some.injEq, Prod.mk.injEq] at hline3
  obtain ⟨hsame3, hrest3⟩ := hline3
  rw [← hrest3, tgReadLine_append_lf metaLine _ hmeta.1 hmeta.2.1 hmeta.2.2] at hline4
  simp only [Option.some.injEq, Prod.mk.injEq] at hline4
  obtain ⟨rfl, -⟩ := hline4
  have hsameKind : tg.kind = kind := Option.some.inj (hkind'.symm.trans hkind)
  rw [hsameKind, hnumbers, Option.some.injEq, Prod.mk.injEq, Prod.mk.injEq] at hnumbers'
  exact ⟨hsameKind, hsame2.symm, hsame3.symm, hnumbers'.1.symm, hnumbers'.2.1.symm,
    hnumbers'.2.2.symm⟩

theorem tgEncodeText_fields {outSize : ℕ} {receiver sender : Option CStr} {sn : ℤ}
    {timestamp : Int64} {body : Option CStr}
    (haccept : 0 < (tgEncodeText outSize receiver sender sn timestamp body).code) :
    ∃ addressee author, receiver = some addressee ∧ sender = some author := by
  unfold tgEncodeText at haccept
  split at haccept
  · simp [tgErrArg] at haccept
  · cases receiver with
    | none => simp [tgErrFormat] at haccept
    | some addressee =>
        cases sender with
        | none => simp [tgErrFormat] at haccept
        | some author => exact ⟨addressee, author, rfl, rfl⟩

theorem tgEncodeCmd_fields {outSize : ℕ} {receiver sender : Option CStr} {start target : ℤ}
    (haccept : 0 < (tgEncodeCmd outSize receiver sender start target).code) :
    ∃ addressee author, receiver = some addressee ∧ sender = some author := by
  unfold tgEncodeCmd at haccept
  split at haccept
  · simp [tgErrArg] at haccept
  · cases receiver with
    | none => simp [tgErrFormat] at haccept
    | some addressee =>
        cases sender with
        | none => simp [tgErrFormat] at haccept
        | some author => exact ⟨addressee, author, rfl, rfl⟩

/-- What the records of both encoders decode to. -/
structure HeaderFieldsKept (outSize : ℕ) (receiver sender : Option CStr) : Prop where
  text : ∀ (sn : ℤ) (timestamp : Int64) (body : Option CStr) (tg : TgMessage),
    0 < (tgEncodeText outSize receiver sender sn timestamp body).code →
      tgDecode (tgEncodeText outSize receiver sender sn timestamp body).wire = some tg →
        tg.kind = .text ∧ some tg.receiver = receiver ∧ some tg.sender = sender ∧ tg.sn = sn ∧
          tg.timestamp = timestamp
  cmd : ∀ start target : ℤ, 0 < (tgEncodeCmd outSize receiver sender start target).code →
    ∃ tg, tgDecode (tgEncodeCmd outSize receiver sender start target).wire = some tg ∧
      tg.kind = .cmd ∧ some tg.receiver = receiver ∧ some tg.sender = sender ∧ tg.sn = start ∧
        tg.snTo = target ∧ tg.body = CStr.empty ∧ tg.timestamp = 0

theorem headerFields_kept (outSize : ℕ) (receiver sender : Option CStr) :
    HeaderFieldsKept outSize receiver sender where
  text := by
    intro sn timestamp body tg haccept hdecode
    obtain ⟨addressee, author, rfl, rfl⟩ := tgEncodeText_fields haccept
    obtain ⟨haddressee, hauthor, hsn, -, hencoded⟩ := tgEncodeText_accepted haccept
    have hmetaFits : (tgTextMetaStr sn timestamp).length < tgLineSize := by
      have hshort := tgTextMetaLine_length_le hsn timestamp
      simp only [CStr.length, tgTextMetaStr, tgLineSize, tgFieldMax]
      omega
    have hbegins : (tgEncodeText outSize (some addressee) (some author) sn timestamp body).wire <+:
        tgTextRecord addressee author sn timestamp (tgBodyBytes body) := by
      rw [hencoded]
      exact List.take_prefix _ _
    obtain ⟨hkind, hreceiver, hsender, hserial, -, htime⟩ := tgDecode_headerFields
      ⟨bytes "ZCZC TEXT", by decide⟩ (tgTextMetaStr sn timestamp) .text (by decide) (by decide)
      haddressee hauthor
      ⟨fun hmem => (tgTextMetaLine_free hmem).1 rfl, fun hmem => (tgTextMetaLine_free hmem).2.1 rfl,
        hmetaFits⟩
      (tgTextMeta_tgTextMetaLine (tgTextMetaStr sn timestamp) hsn rfl) hbegins hdecode
    exact ⟨hkind, congrArg some hreceiver, congrArg some hsender, hserial, htime⟩
  cmd := by
    intro start target haccept
    obtain ⟨addressee, author, rfl, rfl⟩ := tgEncodeCmd_fields haccept
    obtain ⟨haddressee, hauthor, hstart, htarget, hencoded⟩ := tgEncodeCmd_accepted haccept
    have hlength := (tgEncodeCmd_of_valid le_rfl haddressee hauthor hstart htarget).1
    have hwire : (tgEncodeCmd outSize (some addressee) (some author) start target).wire =
        tgCmdRecord addressee author start target := by
      rw [hencoded, TgEncoded.wire, intOfSize_toNat (by omega)]
      exact List.take_length
    rw [hwire, tgDecode_tgCmdRecord haddressee hauthor hstart htarget]
    exact ⟨_, rfl, rfl, rfl, rfl, rfl, rfl, rfl, rfl⟩

end ToxRelayer
