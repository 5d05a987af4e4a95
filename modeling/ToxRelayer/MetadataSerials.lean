import ToxRelayer.TelegramLines

/-!
# Serials on the wire

The decoder reads a serial with `strtol`, which saturates, narrows it to `int`
and only then tests its range.  The narrowing keeps the low 32 bits, so a serial
that does not fit an `int` can pass the test as another one.
-/

namespace ToxRelayer

open CString

/-- The integers written where the decoder looks for serials: at the start of the
metadata line, or behind the `R:` and behind the dash after it. -/
def writtenSerials (kind : TgKind) (line : CStr) : List ℤ :=
  if kind = .text then ((readInteger line.val).map Prod.fst).toList
  else
    match readInteger (line.val.drop 2) with
    | some (start, _ :: rest) =>
        match readInteger rest with
        | some (target, _) => [start, target]
        | none => [start]
    | some (start, []) => [start]
    | none => []

/-- The metadata line of a record is its fourth line. -/
def metadataLine (raw : Bytes) : CStr := CStr.ofBuffer ((textLines raw).getD 3 [])

/-- The serials a decoded record is acted on with. -/
def TgMessage.serials (tg : TgMessage) : List ℤ :=
  if tg.kind = .text then [tg.sn] else [tg.sn, tg.snTo]

def FitsInt (value : ℤ) : Prop := -2 ^ 31 ≤ value ∧ value < 2 ^ 31

instance (value : ℤ) : Decidable (FitsInt value) := inferInstanceAs (Decidable (_ ∧ _))

/-! ## One serial -/

theorem intOfLong_toLong {value : ℤ} (hfits : FitsInt value) :
    intOfLong (toLong value) = value := by
  obtain ⟨hlow, hhigh⟩ := hfits
  have hlong : (toLong value).toInt = value := toInt_toLong (by omega) (by omega)
  rw [intOfLong, Int64.toInt_toInt32, hlong]
  exact Int.bmod_eq_of_le (by omega) (by omega)

theorem tgSnValid.fitsInt {sn : ℤ} (hsn : tgSnValid sn) : FitsInt sn := by
  simp only [tgSnValid, tgSnMin, tgSnMax] at hsn
  constructor <;> omega

/-! ## The metadata line -/

theorem tgReadPair_written {separator : UInt8} {text : Bytes} {first second : Int64}
    (hread : tgReadPair separator text = some (first, second)) :
    ∃ start rest target last, readInteger text = some (start, separator :: rest) ∧
      readInteger rest = some (target, last) ∧ first = toLong start ∧ second = toLong target := by
  unfold tgReadPair at hread
  rw [strtol_eq_readInteger] at hread
  cases hfirst : readInteger text with
  | none => simp [hfirst] at hread
  | some result =>
      obtain ⟨start, behind⟩ := result
      cases behind with
      | nil => simp [hfirst] at hread
      | cons b rest =>
          simp only [hfirst, Option.map_some] at hread
          split at hread
          · cases hread
          · rename_i hsame
            rw [not_not] at hsame
            subst hsame
            rw [strtol_eq_readInteger, Option.map_map, Option.map_eq_some_iff] at hread
            obtain ⟨⟨target, last⟩, hsecond, hpair⟩ := hread
            simp only [Function.comp_apply, Prod.mk.injEq] at hpair
            exact ⟨start, rest, target, last, rfl, hsecond, hpair.1.symm, hpair.2.symm⟩

/-- The serials of an accepted metadata line are the written ones, narrowed. -/
theorem tgReadMeta_serials {tg : TgMessage} {line : CStr}
    (hmeta : tgReadMeta tg.kind line = some (tg.sn, tg.snTo, tg.timestamp)) :
    tg.serials = (writtenSerials tg.kind line).map (fun value => intOfLong (toLong value)) ∧
      ∀ sn ∈ tg.serials, tgSnValid sn := by
  unfold tgReadMeta at hmeta
  unfold TgMessage.serials writtenSerials
  split at hmeta
  · rename_i hkind
    rw [if_pos hkind, if_pos hkind]
    unfold tgTextMeta at hmeta
    split at hmeta
    · rename_i first second hpair
      obtain ⟨start, rest, target, last, hfirst, -, rfl, -⟩ := tgReadPair_written hpair
      split at hmeta
      · rename_i hvalid
        simp only [Option.some.injEq, Prod.mk.injEq] at hmeta
        rw [hfirst, ← hmeta.1]
        exact ⟨rfl, by simpa using hvalid⟩
      · cases hmeta
    · cases hmeta
  · rename_i hkind
    rw [if_neg hkind, if_neg hkind]
    unfold tgCmdMeta at hmeta
    split at hmeta
    · rename_i r colon text hline
      split at hmeta
      · cases hmeta
      · split at hmeta
        · rename_i first second hpair
          obtain ⟨start, rest, target, last, hfirst, hsecond, rfl, rfl⟩ := tgReadPair_written hpair
          split at hmeta
          · rename_i hvalid
            simp only [Option.some.injEq, Prod.mk.injEq] at hmeta
            rw [hline, List.drop_succ_cons, List.drop_succ_cons, List.drop_zero]
            simp only [hfirst, hsecond, ← hmeta.1, ← hmeta.2.1]
            exact ⟨rfl, by simpa using hvalid⟩
          · cases hmeta
        · cases hmeta
    · cases hmeta

/-! ## The record -/

/-- The serials written on the wire are valid, and are the serials acted on. -/
def ActedOnAsWritten (raw : Bytes) (tg : TgMessage) : Prop :=
  (∀ sn ∈ writtenSerials tg.kind (metadataLine raw), tgSnValid sn) ∧
    tg.serials = writtenSerials tg.kind (metadataLine raw)

/-- A decoded record is acted on with the serials written on it exactly when these fit
an `int`. -/
theorem tgDecode_serials_iff {raw : Bytes} {tg : TgMessage} (hdecode : tgDecode raw = some tg) :
    ActedOnAsWritten raw tg ↔ ∀ sn ∈ writtenSerials tg.kind (metadataLine raw), FitsInt sn := by
  obtain ⟨header, receiver, sender, line, lines, hlines, -, -, -, hmeta⟩ :=
    tgDecode_headerLines hdecode
  have hline : metadataLine raw = CStr.ofBuffer line := by
    rw [metadataLine, hlines]
    rfl
  obtain ⟨hserials, hvalid⟩ := tgReadMeta_serials hmeta
  rw [← hline] at hserials
  unfold ActedOnAsWritten
  generalize writtenSerials tg.kind (metadataLine raw) = written at hserials
  constructor
  · rintro ⟨hwritten, -⟩ sn hmem
    exact (hwritten sn hmem).fitsInt
  · intro hfits
    have hsame : tg.serials = written := by
      calc tg.serials = written.map fun value => intOfLong (toLong value) := hserials
        _ = written.map id := List.map_congr_left fun sn hmem => intOfLong_toLong (hfits sn hmem)
        _ = written := List.map_id written
    exact ⟨hsame ▸ hvalid, hsame⟩

theorem tgDecode_serials_iff_range :
    let raw := bytes "ZCZC CMD\nAAAA\nAAAA\nR: 0998-+2\nNNNN\n"
    ActedOnAsWritten raw ⟨.cmd, sampleKey, sampleKey, 998, 2, 0, CStr.empty⟩ ↔
      ∀ sn ∈ writtenSerials .cmd (metadataLine raw), FitsInt sn :=
  @tgDecode_serials_iff _ ⟨.cmd, sampleKey, sampleKey, 998, 2, 0, CStr.empty⟩ (by decide +kernel)

/-- `2 ^ 32 + 1` is acted on as serial `1`. -/
theorem tgDecode_narrows_serial :
    ¬ ∀ (raw : Bytes) (tg : TgMessage), tgDecode raw = some tg → ActedOnAsWritten raw tg := by
  intro hall
  let raw := bytes "ZCZC TEXT\nAAAA\nAAAA\n4294967297 100\nhelloNNNN\n"
  let body : CStr := ⟨bytes "hello", by decide⟩
  obtain ⟨hwritten, -⟩ := hall raw ⟨.text, sampleKey, sampleKey, 1, 0, 100, body⟩
    (by decide +kernel)
  have hserial : writtenSerials .text (metadataLine raw) = [4294967297] := by decide +kernel
  rw [hserial] at hwritten
  exact absurd (hwritten _ (List.mem_singleton.mpr rfl)) (by decide)

end ToxRelayer
