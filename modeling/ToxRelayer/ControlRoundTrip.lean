import ToxRelayer.TelegramRoundTrip

/-!
# The control telegram round trip

A control record carries two serials and no body; every accepted one decodes
to what was encoded.
-/

namespace ToxRelayer

open CString

/-- The metadata line of a control telegram, without its line feed. -/
def tgCmdMetaLine (start target : ℤ) : Bytes :=
  bytes "R:" ++ formatInt 0 start ++ minus :: formatInt 0 target

/-- The complete record of a control telegram. -/
def tgCmdRecord (receiver sender : CStr) (start target : ℤ) : Bytes :=
  bytes "ZCZC CMD" ++ lf :: (receiver.val ++ lf :: (sender.val ++ lf ::
    (tgCmdMetaLine start target ++ lf :: (tgTerminator ++ [lf]))))

theorem formatInt_length_le_of_valid {sn : ℤ} (hsn : tgSnValid sn) :
    (formatInt 0 sn).length ≤ 5 := by
  have hlength := formatInt_length_le 0 (by norm_num) (tgSnValid_natAbs_lt hsn)
  omega

theorem tgCmdMetaLine_length_le {start target : ℤ} (hstart : tgSnValid start)
    (htarget : tgSnValid target) : (tgCmdMetaLine start target).length ≤ 13 := by
  have hstartLength := formatInt_length_le_of_valid hstart
  have htargetLength := formatInt_length_le_of_valid htarget
  have htag : (bytes "R:").length = 2 := rfl
  simp only [tgCmdMetaLine, List.length_append, List.length_cons, htag]
  omega

theorem flatten_tgCmdPieces (receiver sender : CStr) {start target : ℤ}
    (hstart : tgSnValid start) (htarget : tgSnValid target) :
    (tgCmdPieces receiver sender start target).flatten =
      tgCmdRecord receiver sender start target := by
  have hshort := tgCmdMetaLine_length_le hstart htarget
  have hmeta : snprintf 32
      (bytes "R:" ++ formatInt 0 start ++ minus :: formatInt 0 target ++ [lf]) =
        tgCmdMetaLine start target ++ [lf] := by
    apply List.take_of_length_le
    simp only [tgCmdMetaLine, List.length_append, List.length_cons] at hshort ⊢
    simp only [List.length_nil]
    omega
  have hhead : bytes "ZCZC CMD\n" = bytes "ZCZC CMD" ++ [lf] := by decide
  simp only [tgCmdPieces, hmeta, hhead, tgCmdRecord]
  simp

/-- With valid arguments the record is written exactly when it fits. -/
theorem tgEncodeCmd_eq {outSize : ℕ} (hsize : 0 < outSize) {receiver sender : CStr}
    {start target : ℤ} (hreceiver : tgFieldOk (some receiver) = true)
    (hsender : tgFieldOk (some sender) = true) (hstart : tgSnValid start)
    (htarget : tgSnValid target) :
    tgEncodeCmd outSize (some receiver) (some sender) start target =
      if (tgCmdRecord receiver sender start target).length < outSize then
        ⟨intOfSize (tgCmdRecord receiver sender start target).length,
          tgCmdRecord receiver sender start target⟩
      else ⟨tgErrTooSmall, []⟩ := by
  rw [tgEncodeCmd, if_neg (by omega)]
  simp only [hreceiver, hsender, hstart, htarget, not_true, Bool.not_true, Bool.or_self, or_self,
    if_false, Bool.false_eq_true]
  rw [tgFinish_foldl _ hsize, flatten_tgCmdPieces _ _ hstart htarget]

theorem tgEncodeCmd_accepted {outSize : ℕ} {receiver sender : CStr} {start target : ℤ}
    (haccept : 0 < (tgEncodeCmd outSize (some receiver) (some sender) start target).code) :
    tgFieldOk (some receiver) = true ∧ tgFieldOk (some sender) = true ∧
      tgSnValid start ∧ tgSnValid target ∧
      tgEncodeCmd outSize (some receiver) (some sender) start target =
        ⟨intOfSize (tgCmdRecord receiver sender start target).length,
          tgCmdRecord receiver sender start target⟩ := by
  unfold tgEncodeCmd at haccept ⊢
  by_cases hsize : outSize = 0
  · simp [hsize, tgErrArg] at haccept
  · simp only [hsize, if_false] at haccept ⊢
    by_cases hreceiver : tgFieldOk (some receiver) = true
    · by_cases hsender : tgFieldOk (some sender) = true
      · by_cases hserials : ¬ tgSnValid start ∨ ¬ tgSnValid target
        · simp [hreceiver, hsender, hserials, tgErrRange] at haccept
        · simp only [hreceiver, hsender, hserials, Bool.not_true, Bool.or_self, if_false,
            Bool.false_eq_true, true_and] at haccept ⊢
          obtain ⟨hstart, htarget⟩ := not_or.mp hserials
          rw [not_not] at hstart htarget
          rw [tgFinish_foldl _ (by omega), flatten_tgCmdPieces _ _ hstart htarget] at haccept ⊢
          split at haccept
          · rename_i hfits
            rw [if_pos hfits]
            exact ⟨hstart, htarget, rfl⟩
          · simp [tgErrTooSmall] at haccept
      · simp [hsender, tgErrFormat] at haccept
    · simp [hreceiver, tgErrFormat] at haccept

/-- A control record for two valid keys is accepted by a buffer of 300 bytes. -/
theorem tgEncodeCmd_of_valid {outSize : ℕ} {receiver sender : CStr} {start target : ℤ}
    (hsize : 300 ≤ outSize) (hreceiver : tgFieldOk (some receiver) = true)
    (hsender : tgFieldOk (some sender) = true) (hstart : tgSnValid start)
    (htarget : tgSnValid target) :
    (tgCmdRecord receiver sender start target).length < 300 ∧
      tgEncodeCmd outSize (some receiver) (some sender) start target =
        ⟨(tgCmdRecord receiver sender start target).length,
          tgCmdRecord receiver sender start target⟩ := by
  have hmeta := tgCmdMetaLine_length_le hstart htarget
  have hreceiverLength := ((tgFieldOk_some_iff receiver).mp hreceiver).2.1
  have hsenderLength := ((tgFieldOk_some_iff sender).mp hsender).2.1
  simp only [CStr.length, tgFieldMax] at hreceiverLength hsenderLength
  have hheader : (bytes "ZCZC CMD").length = 8 := rfl
  have hlength : (tgCmdRecord receiver sender start target).length < 300 := by
    simp only [tgCmdRecord, List.length_append, List.length_cons, List.length_nil, hheader,
      tgTerminator_length]
    omega
  have hint : intOfSize (tgCmdRecord receiver sender start target).length =
      (tgCmdRecord receiver sender start target).length :=
    Int.bmod_eq_of_le (by omega) (by omega)
  refine ⟨hlength, ?_⟩
  rw [tgEncodeCmd_eq (by omega) hreceiver hsender hstart htarget, if_pos (by omega), hint]

theorem tgCmdMetaLine_free {start target : ℤ} {b : UInt8}
    (hmem : b ∈ tgCmdMetaLine start target) : b ≠ lf ∧ b ≠ cr ∧ b ≠ 0 := by
  rcases List.mem_append.mp hmem with hhead | htail
  · rcases List.mem_append.mp hhead with htag | hstart
    · have htagBytes : bytes "R:" = [82, 58] := by decide
      rw [htagBytes] at htag
      rcases List.mem_pair.mp htag with rfl | rfl
      · decide
      · decide
    · exact formatInt_free hstart
  · rcases List.mem_cons.mp htail with rfl | htarget
    · decide
    · exact formatInt_free htarget

theorem tgCmdMeta_tgCmdMetaLine (line : CStr) {start target : ℤ} (hstart : tgSnValid start)
    (htarget : tgSnValid target) (hline : line.val = tgCmdMetaLine start target) :
    tgCmdMeta line = some (start, target, 0) := by
  have hfirst := strtol_formatInt 0 (Int64.ofInt start) (minus :: formatInt 0 target) (by
    intro b hb
    obtain rfl : minus = b := by simpa using hb
    decide)
  have hsecond := strtol_formatInt 0 (Int64.ofInt target) [] (by simp)
  rw [tgSnValid_toInt64 hstart] at hfirst
  rw [tgSnValid_toInt64 htarget, List.append_nil] at hsecond
  have htag : line.val = 82 :: 58 :: (formatInt 0 start ++ minus :: formatInt 0 target) := by
    rw [hline]
    rfl
  unfold tgCmdMeta
  rw [htag]
  simp only [ne_eq, not_true_eq_false, or_self, if_false, tgReadPair, hfirst, hsecond,
    Option.map_some, intOfLong_ofInt hstart, intOfLong_ofInt htarget, hstart, htarget, and_self,
    if_true]

theorem tgDecode_tgCmdRecord {receiver sender : CStr} {start target : ℤ}
    (hreceiver : tgFieldOk (some receiver) = true)
    (hsender : tgFieldOk (some sender) = true) (hstart : tgSnValid start)
    (htarget : tgSnValid target) :
    tgDecode (tgCmdRecord receiver sender start target) =
      some { kind := .cmd, receiver := receiver, sender := sender, sn := start, snTo := target,
             timestamp := 0, body := CStr.empty } := by
  let header : CStr := ⟨bytes "ZCZC CMD", by decide⟩
  let metaLine : CStr := ⟨tgCmdMetaLine start target,
    fun hmem => (tgCmdMetaLine_free hmem).2.2 rfl⟩
  have hheader := tgReadLine_append_lf header
    (receiver.val ++ lf :: (sender.val ++ lf ::
      (tgCmdMetaLine start target ++ lf :: (tgTerminator ++ [lf]))))
    (by decide) (by decide) (by decide)
  have hkind : tgHeaderKind header = some .cmd := by decide
  have hmetaFits : metaLine.length < tgLineSize := by
    have hshort := tgCmdMetaLine_length_le hstart htarget
    simp only [CStr.length, metaLine, tgLineSize, tgFieldMax]
    omega
  have hmeta := tgReadLine_append_lf metaLine (tgTerminator ++ [lf])
    (fun hmem => (tgCmdMetaLine_free hmem).1 rfl)
    (fun hmem => (tgCmdMetaLine_free hmem).2.1 rfl) hmetaFits
  have hnumbers := tgCmdMeta_tgCmdMetaLine metaLine hstart htarget rfl
  have hbody : tgReadBody (tgTerminator ++ [lf]).length (tgTerminator ++ [lf]) [] = some [] := by
    decide
  have hnotText : ¬ TgKind.cmd = TgKind.text := by decide
  change tgReadLine (tgCmdRecord receiver sender start target) = _ at hheader
  change tgReadLine (tgCmdMetaLine start target ++ _) = _ at hmeta
  unfold tgDecode
  rw [hheader]
  simp only [Option.bind_eq_bind, Option.bind_some, hkind,
    tgReadKey_append_lf _ hreceiver, tgReadKey_append_lf _ hsender, hmeta, tgReadMeta, hnotText,
    if_false, hnumbers, hbody]
  rfl

end ToxRelayer
