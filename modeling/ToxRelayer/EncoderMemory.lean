import ToxRelayer.CheckedMemory
import ToxRelayer.ControlRoundTrip

/-!
# The buffer of the encoders

`Telegram` keeps the bytes that have been put as a list.  Here they are in the
caller's buffer, together with the NUL behind them, and every write is checked.
-/

namespace ToxRelayer

open CString CheckedMemory

/-- `tg_buf` -/
structure TgBufMem where
  buf : Bytes
  cap : ℕ
  len : ℕ
  overflow : Bool

def tgBufInitMem (buf : Bytes) (cap : ℕ) : Option TgBufMem :=
  if 0 < cap then (store buf 0 0).map fun buf => ⟨buf, cap, 0, false⟩
  else some ⟨buf, cap, 0, false⟩

def tgBufPutnMem (b : TgBufMem) (src : Bytes) : Option TgBufMem :=
  if b.overflow ∨ b.cap = 0 then some b
  else if b.cap < b.len + src.length + 1 then some { b with overflow := true }
  else do
    let buf ← copyTo b.buf b.len src
    let buf ← store buf (b.len + src.length) 0
    some { b with buf := buf, len := b.len + src.length }

/-- The common end of both encoders: the return value and `out`. -/
def tgFinishMem (b : TgBufMem) : Option (ℤ × Bytes) :=
  if b.overflow then (store b.buf 0 0).map fun out => (tgErrTooSmall, out)
  else some (intOfSize b.len, b.buf)

/-- The strings are put one after the other. -/
def tgPutAllMem (out : Bytes) (outSize : ℕ) (pieces : List Bytes) : Option (ℤ × Bytes) := do
  let b ← tgBufInitMem out outSize
  let b ← pieces.foldlM tgBufPutnMem b
  tgFinishMem b

def tgEncodeTextMem (out : Bytes) (outSize : ℕ) (receiver sender : Option CStr) (sn : ℤ)
    (timestamp : Int64) (body : Option CStr) : Option (ℤ × Bytes) :=
  if outSize = 0 then some (tgErrArg, out)
  else do
    let out ← store out 0 0
    match receiver, sender with
    | some receiver, some sender =>
        if !tgFieldOk (some receiver) || !tgFieldOk (some sender) then some (tgErrFormat, out)
        else if ¬ tgSnValid sn then some (tgErrRange, out)
        else if !tgBodyOk body then some (tgErrFormat, out)
        else tgPutAllMem out outSize (tgTextPieces receiver sender sn timestamp body)
    | _, _ => some (tgErrFormat, out)

def tgEncodeCmdMem (out : Bytes) (outSize : ℕ) (receiver sender : Option CStr)
    (start target : ℤ) : Option (ℤ × Bytes) :=
  if outSize = 0 then some (tgErrArg, out)
  else do
    let out ← store out 0 0
    match receiver, sender with
    | some receiver, some sender =>
        if !tgFieldOk (some receiver) || !tgFieldOk (some sender) then some (tgErrFormat, out)
        else if ¬ tgSnValid start ∨ ¬ tgSnValid target then some (tgErrRange, out)
        else tgPutAllMem out outSize (tgCmdPieces receiver sender start target)
    | _, _ => some (tgErrFormat, out)

/-! ## The builder -/

/-- The buffer holds the bytes that have been put and a NUL. -/
structure TgBufMem.Shows (m : TgBufMem) (b : TgBuf) : Prop where
  cap : m.cap = b.cap
  size : m.buf.length = b.cap
  len : m.len = b.data.length
  overflow : m.overflow = b.overflow
  written : b.data ++ [0] <+: m.buf

section

variable {m : TgBufMem} {b : TgBuf} {out : Bytes}

theorem TgBufMem.Shows.put (hshows : m.Shows b) (src : Bytes) :
    ∃ m', tgBufPutnMem m src = some m' ∧ m'.Shows (tgBufPutn b src) := by
  obtain ⟨hcap, hsize, hlen, hoverflow, hwritten⟩ := hshows
  rw [tgBufPutnMem, tgBufPutn, hoverflow, hcap, hlen]
  split
  · exact ⟨m, rfl, hcap, hsize, hlen, hoverflow, hwritten⟩
  · split
    · exact ⟨_, rfl, rfl, hsize, rfl, rfl, hwritten⟩
    · rename_i hfits
      obtain ⟨buf1, hcopy, hprefix1, hlength1⟩ := copyTo_of_prefix src
        ((List.prefix_append _ _).trans hwritten) (by omega)
      obtain ⟨buf2, hstore, hprefix2, hlength2⟩ := store_of_prefix 0 hprefix1
        (by rw [List.length_append]; omega)
      rw [List.length_append] at hstore
      simp only [Option.bind_eq_bind, hcopy, hstore, Option.bind_some]
      exact ⟨_, rfl, rfl, hlength2.trans (hlength1.trans hsize), List.length_append.symm, rfl,
        hprefix2⟩

theorem TgBufMem.Shows.putAll (hshows : m.Shows b) (pieces : List Bytes) :
    ∃ m', pieces.foldlM tgBufPutnMem m = some m' ∧ m'.Shows (pieces.foldl tgBufPutn b) := by
  induction pieces generalizing m b with
  | nil => exact ⟨m, rfl, hshows⟩
  | cons piece pieces ih =>
      obtain ⟨m1, hput, hshows1⟩ := hshows.put piece
      obtain ⟨m2, hrest, hshows2⟩ := ih hshows1
      refine ⟨m2, ?_, hshows2⟩
      rw [List.foldlM_cons, hput]
      exact hrest

theorem cap_foldl_tgBufPutn (pieces : List Bytes) (b : TgBuf) :
    (pieces.foldl tgBufPutn b).cap = b.cap := by
  induction pieces generalizing b with
  | nil => rfl
  | cons piece pieces ih =>
      rw [List.foldl_cons, ih, tgBufPutn]
      split
      · rfl
      · split <;> rfl

/-- A call of an encoder is one of the specification: the same return value, and the
string it leaves in the buffer. -/
def EncodesAs (result : Option (ℤ × Bytes)) (encoded : TgEncoded) (outSize : ℕ) : Prop :=
  ∃ out, result = some (encoded.code, out) ∧ out.length = outSize ∧ encoded.out ++ [0] <+: out

theorem store_zero (block : Bytes) (hpos : 0 < block.length) :
    ∃ out', store block 0 0 = some out' ∧ out'.length = block.length ∧ [] ++ [0] <+: out' := by
  obtain ⟨out', hstore, hprefix, hlength⟩ :=
    store_of_prefix (0 : UInt8) (List.nil_prefix (l := block)) hpos
  exact ⟨out', hstore, hlength, hprefix⟩

theorem tgPutAllMem_encodes (hpos : 0 < out.length) (pieces : List Bytes) :
    EncodesAs (tgPutAllMem out out.length pieces)
      (tgFinish (pieces.foldl tgBufPutn (tgBufInit out.length))) out.length := by
  obtain ⟨out1, hstore, hlength1, hprefix1⟩ := store_zero out hpos
  have hinit : (⟨out1, out.length, 0, false⟩ : TgBufMem).Shows (tgBufInit out.length) :=
    ⟨rfl, hlength1, rfl, rfl, hprefix1⟩
  obtain ⟨m, hput, hshows⟩ := hinit.putAll pieces
  have hsize : m.buf.length = out.length := by
    rw [hshows.size, cap_foldl_tgBufPutn]
    rfl
  rw [tgPutAllMem, tgBufInitMem, if_pos hpos, hstore]
  simp only [Option.bind_eq_bind, Option.map_some, Option.bind_some, hput]
  rw [tgFinishMem, tgFinish, hshows.overflow]
  split
  · obtain ⟨out2, hstore2, hlength2, hprefix2⟩ := store_zero m.buf (by omega)
    exact ⟨out2, by rw [hstore2]; rfl, by omega, hprefix2⟩
  · exact ⟨m.buf, by rw [hshows.len], hsize, hshows.written⟩

end

/-! ## The encoders -/

section

variable {s : ℕ} (out : Vector UInt8 s) (receiver sender : Option CStr)

theorem tgEncodeTextMem_encodes (hpos : 0 < s) (sn : ℤ) (timestamp : Int64) (body : Option CStr) :
    EncodesAs (tgEncodeTextMem out.toList s receiver sender sn timestamp body)
      (tgEncodeText s receiver sender sn timestamp body) s := by
  obtain ⟨out1, hstore, hlength, hprefix⟩ :=
    store_zero out.toList (by rw [out.length_toList]; exact hpos)
  rw [out.length_toList] at hlength
  unfold tgEncodeTextMem tgEncodeText
  rw [if_neg (by omega), if_neg (by omega), hstore]
  simp only [Option.bind_eq_bind, Option.bind_some]
  have hrefused (code : ℤ) : EncodesAs (some (code, out1)) ⟨code, []⟩ s :=
    ⟨out1, rfl, hlength, hprefix⟩
  cases receiver with
  | none => exact hrefused _
  | some receiver =>
      cases sender with
      | none => exact hrefused _
      | some sender =>
          dsimp only
          by_cases hkeys : (!tgFieldOk (some receiver) || !tgFieldOk (some sender)) = true
          · rw [if_pos hkeys, if_pos hkeys]
            exact hrefused _
          · rw [if_neg hkeys, if_neg hkeys]
            by_cases hsn : ¬ tgSnValid sn
            · rw [if_pos hsn, if_pos hsn]
              exact hrefused _
            · rw [if_neg hsn, if_neg hsn]
              by_cases hbody : (!tgBodyOk body) = true
              · rw [if_pos hbody, if_pos hbody]
                exact hrefused _
              · rw [if_neg hbody, if_neg hbody]
                subst hlength
                exact tgPutAllMem_encodes hpos _

theorem tgEncodeCmdMem_encodes (hpos : 0 < s) (start target : ℤ) :
    EncodesAs (tgEncodeCmdMem out.toList s receiver sender start target)
      (tgEncodeCmd s receiver sender start target) s := by
  obtain ⟨out1, hstore, hlength, hprefix⟩ :=
    store_zero out.toList (by rw [out.length_toList]; exact hpos)
  rw [out.length_toList] at hlength
  unfold tgEncodeCmdMem tgEncodeCmd
  rw [if_neg (by omega), if_neg (by omega), hstore]
  simp only [Option.bind_eq_bind, Option.bind_some]
  have hrefused (code : ℤ) : EncodesAs (some (code, out1)) ⟨code, []⟩ s :=
    ⟨out1, rfl, hlength, hprefix⟩
  cases receiver with
  | none => exact hrefused _
  | some receiver =>
      cases sender with
      | none => exact hrefused _
      | some sender =>
          dsimp only
          by_cases hkeys : (!tgFieldOk (some receiver) || !tgFieldOk (some sender)) = true
          · rw [if_pos hkeys, if_pos hkeys]
            exact hrefused _
          · rw [if_neg hkeys, if_neg hkeys]
            by_cases hserials : ¬ tgSnValid start ∨ ¬ tgSnValid target
            · rw [if_pos hserials, if_pos hserials]
              exact hrefused _
            · rw [if_neg hserials, if_neg hserials]
              subst hlength
              exact tgPutAllMem_encodes hpos _

end

/-! ## All or nothing -/

/-- The return value is the length of the record that the buffer holds, or negative with
the empty string in the buffer. -/
def AllOrNothing (s : ℕ) (valid : Prop) (record : Bytes) (result : Option (ℤ × Bytes)) : Prop :=
  ∃ code out, result = some (code, out) ∧
    (0 < code ∧ code < s ∧ load out code.toNat = some 0 ∧ out.take code.toNat = record ∨
      code < 0 ∧ load out 0 = some 0) ∧
    (valid → (0 < code ↔ record.length + 1 ≤ s))

section

variable {s : ℕ} {valid : Prop} {record : Bytes} {result : Option (ℤ × Bytes)}

theorem allOrNothing_refused {code : ℤ} (hencodes : EncodesAs result ⟨code, []⟩ s)
    (hcode : code < 0) (hvalid : valid → s ≤ record.length) :
    AllOrNothing s valid record result := by
  obtain ⟨out, hresult, hlength, hprefix⟩ := hencodes
  refine ⟨code, out, hresult, .inr ⟨hcode, ?_⟩, ?_⟩
  · exact load_written hprefix Nat.zero_lt_one
  · intro hargs
    have hlarge := hvalid hargs
    exact iff_of_false (by omega) (by omega)

theorem allOrNothing_written (hmax : s < 2 ^ 31) (hrecord : record ≠ []) (hfits : record.length < s)
    (hencodes : EncodesAs result ⟨intOfSize record.length, record⟩ s) :
    AllOrNothing s valid record result := by
  obtain ⟨out, hresult, hlength, hprefix⟩ := hencodes
  have hpos := List.length_pos_iff.mpr hrecord
  have hint : intOfSize record.length = record.length :=
    Int.bmod_eq_of_le (by omega) (by omega)
  have hzero := load_written (i := record.length) hprefix (by simp)
  have htake := List.prefix_iff_eq_take.mp ((List.prefix_append _ _).trans hprefix)
  dsimp only at hresult hzero htake
  rw [hint] at hresult
  refine ⟨record.length, out, hresult, .inl ⟨by omega, by omega, ?_, ?_⟩, ?_⟩
  · rw [Int.toNat_natCast, hzero]
    simp
  · rw [Int.toNat_natCast]
    exact htake.symm
  · exact fun _ => iff_of_true (by omega) (by omega)

theorem allOrNothing_of_valid (hmax : s < 2 ^ 31) (hrecord : record ≠ [])
    (hencodes : EncodesAs result (if record.length < s then ⟨intOfSize record.length, record⟩
      else ⟨tgErrTooSmall, []⟩) s) :
    AllOrNothing s valid record result := by
  split at hencodes
  · rename_i hfits
    exact allOrNothing_written hmax hrecord hfits hencodes
  · exact allOrNothing_refused hencodes (by decide) fun _ => by omega

end

/-! ## Refused and accepted arguments -/

/-- The arguments `tg_encode_text` accepts. -/
def TgTextArgs (receiver sender : Option CStr) (sn : ℤ) (body : Option CStr) : Prop :=
  tgFieldOk receiver = true ∧ tgFieldOk sender = true ∧ tgSnValid sn ∧ tgBodyOk body = true

def TgCmdArgs (receiver sender : Option CStr) (start target : ℤ) : Prop :=
  tgFieldOk receiver = true ∧ tgFieldOk sender = true ∧ tgSnValid start ∧ tgSnValid target

theorem tgEncodeText_refused {s : ℕ} (hpos : 0 < s) {receiver sender : Option CStr} {sn : ℤ}
    (timestamp : Int64) {body : Option CStr} (hargs : ¬ TgTextArgs receiver sender sn body) :
    ∃ code < 0, tgEncodeText s receiver sender sn timestamp body = ⟨code, []⟩ := by
  have hformat : tgErrFormat < 0 := by decide
  have hrange : tgErrRange < 0 := by decide
  unfold tgEncodeText
  rw [if_neg (by omega)]
  cases receiver with
  | none => exact ⟨_, hformat, rfl⟩
  | some receiver =>
      cases sender with
      | none => exact ⟨_, hformat, rfl⟩
      | some sender =>
          dsimp only
          split
          · exact ⟨_, hformat, rfl⟩
          · rename_i hkeys
            split
            · exact ⟨_, hrange, rfl⟩
            · rename_i hsn
              split
              · exact ⟨_, hformat, rfl⟩
              · rename_i hbody
                have hfields : tgFieldOk (some receiver) = true ∧
                    tgFieldOk (some sender) = true := by simpa using hkeys
                have hok : tgBodyOk body = true := by simpa using hbody
                exact absurd ⟨hfields.1, hfields.2, not_not.mp hsn, hok⟩ hargs

theorem tgEncodeCmd_refused {s : ℕ} (hpos : 0 < s) {receiver sender : Option CStr}
    {start target : ℤ} (hargs : ¬ TgCmdArgs receiver sender start target) :
    ∃ code < 0, tgEncodeCmd s receiver sender start target = ⟨code, []⟩ := by
  have hformat : tgErrFormat < 0 := by decide
  have hrange : tgErrRange < 0 := by decide
  unfold tgEncodeCmd
  rw [if_neg (by omega)]
  cases receiver with
  | none => exact ⟨_, hformat, rfl⟩
  | some receiver =>
      cases sender with
      | none => exact ⟨_, hformat, rfl⟩
      | some sender =>
          dsimp only
          split
          · exact ⟨_, hformat, rfl⟩
          · rename_i hkeys
            split
            · exact ⟨_, hrange, rfl⟩
            · rename_i hserials
              have hfields : tgFieldOk (some receiver) = true ∧
                  tgFieldOk (some sender) = true := by simpa using hkeys
              obtain ⟨hstart, htarget⟩ := not_or.mp hserials
              exact absurd ⟨hfields.1, hfields.2, not_not.mp hstart, not_not.mp htarget⟩ hargs

theorem tgTextRecord_ne_nil (receiver sender : CStr) (sn : ℤ) (timestamp : Int64) (body : Bytes) :
    tgTextRecord receiver sender sn timestamp body ≠ [] := by
  simp [tgTextRecord]

theorem tgCmdRecord_ne_nil (receiver sender : CStr) (start target : ℤ) :
    tgCmdRecord receiver sender start target ≠ [] := by
  simp [tgCmdRecord]

/-- Both encoders write the complete record and its NUL, or nothing; with valid arguments
they write it exactly when there is room. -/
theorem tgEncode_allOrNothing {s : ℕ} (hpos : 0 < s) (hmax : s ≤ 2 ^ 31 - 1) (out : Vector UInt8 s)
    (receiver sender : Option CStr) :
    (∀ sn timestamp body, AllOrNothing s (TgTextArgs receiver sender sn body)
      (tgTextRecord (receiver.getD CStr.empty) (sender.getD CStr.empty) sn timestamp
        (tgBodyBytes body))
      (tgEncodeTextMem out.toList s receiver sender sn timestamp body)) ∧
    ∀ start target, AllOrNothing s (TgCmdArgs receiver sender start target)
      (tgCmdRecord (receiver.getD CStr.empty) (sender.getD CStr.empty) start target)
      (tgEncodeCmdMem out.toList s receiver sender start target) := by
  constructor
  · intro sn timestamp body
    have hencodes := tgEncodeTextMem_encodes out receiver sender hpos sn timestamp body
    by_cases hargs : TgTextArgs receiver sender sn body
    · obtain ⟨hreceiver, hsender, hsn, hbody⟩ := hargs
      cases receiver with
      | none => cases hreceiver
      | some receiver =>
          cases sender with
          | none => cases hsender
          | some sender =>
              rw [tgEncodeText_eq hpos timestamp hreceiver hsender hsn hbody] at hencodes
              exact allOrNothing_of_valid (by omega) (tgTextRecord_ne_nil _ _ _ _ _) hencodes
    · obtain ⟨code, hcode, hrefused⟩ := tgEncodeText_refused hpos timestamp hargs
      rw [hrefused] at hencodes
      exact allOrNothing_refused hencodes hcode fun hvalid => absurd hvalid hargs
  · intro start target
    have hencodes := tgEncodeCmdMem_encodes out receiver sender hpos start target
    by_cases hargs : TgCmdArgs receiver sender start target
    · obtain ⟨hreceiver, hsender, hstart, htarget⟩ := hargs
      cases receiver with
      | none => cases hreceiver
      | some receiver =>
          cases sender with
          | none => cases hsender
          | some sender =>
              rw [tgEncodeCmd_eq hpos hreceiver hsender hstart htarget] at hencodes
              exact allOrNothing_of_valid (by omega) (tgCmdRecord_ne_nil _ _ _ _) hencodes
    · obtain ⟨code, hcode, hrefused⟩ := tgEncodeCmd_refused hpos hargs
      rw [hrefused] at hencodes
      exact allOrNothing_refused hencodes hcode fun hvalid => absurd hvalid hargs

/-- The control record for two keys of four letters fills a buffer of 33 bytes. -/
theorem tgEncode_allOrNothing_full :
    ∃ code out, tgEncodeCmdMem (Vector.replicate 33 255).toList 33 (some sampleKey)
        (some sampleKey) 998 2 = some (code, out) ∧ 0 < code ∧
      out.take code.toNat = bytes "ZCZC CMD\nAAAA\nAAAA\nR:998-2\nNNNN\n" := by
  obtain ⟨code, out, hresult, hwhole, hfits⟩ :=
    (tgEncode_allOrNothing (by decide) (by decide) (Vector.replicate 33 255) (some sampleKey)
      (some sampleKey)).2 998 2
  have hwritten : 0 < code := by
    refine (hfits ⟨by decide, by decide, by decide, by decide⟩).mpr ?_
    decide +kernel
  rcases hwhole with ⟨-, -, -, htake⟩ | ⟨hneg, -⟩
  · refine ⟨code, out, hresult, hwritten, ?_⟩
    rw [htake]
    decide +kernel
  · omega

end ToxRelayer
