import ToxRelayer.CString

/-!
# The telegram codec

The wire format of `telegram.c`: serial numbers, the two encoders and the
decoder.  A `char *` argument is a `CStr`, or an `Option CStr` where the code
tests it for `NULL`; a `long` is an `Int64` and an `int` an integer that has
been through the conversion the code performs.
-/

namespace ToxRelayer

open CString

/-! ## Serial numbers -/

def tgFieldMax : ℕ := 128
def tgBodyMax : ℕ := 1024

def tgSnMin : ℤ := 1
def tgSnMax : ℤ := 999
def tgSnRange : ℤ := tgSnMax - tgSnMin + 1

def tgSnValid (sn : ℤ) : Prop := tgSnMin ≤ sn ∧ sn ≤ tgSnMax

instance (sn : ℤ) : Decidable (tgSnValid sn) :=
  inferInstanceAs (Decidable (_ ∧ _))

def tgSnNext (sn : ℤ) : ℤ :=
  if ¬ tgSnValid sn ∨ sn = tgSnMax then tgSnMin else sn + 1

def tgSnPrev (sn : ℤ) : ℤ :=
  if ¬ tgSnValid sn ∨ sn = tgSnMin then tgSnMax else sn - 1

/-- The remainder is C's, which takes the sign of the difference. -/
def tgSnDistance (start target : ℤ) : ℤ :=
  let d := (target - start).tmod tgSnRange
  if d < 0 then d + tgSnRange else d

/-! ## Encoding -/

def tgErrArg : ℤ := -1
def tgErrRange : ℤ := -2
def tgErrTooSmall : ℤ := -3
def tgErrFormat : ℤ := -4

def tgTerminator : Bytes := bytes "NNNN"

/-- The bounded string builder; `data` are the bytes written so far. -/
structure TgBuf where
  cap : ℕ
  data : Bytes
  overflow : Bool

def tgBufInit (cap : ℕ) : TgBuf := ⟨cap, [], false⟩

def tgBufPutn (b : TgBuf) (src : Bytes) : TgBuf :=
  if b.overflow ∨ b.cap = 0 then b
  else if b.cap < b.data.length + src.length + 1 then
    { b with overflow := true }
  else { b with data := b.data ++ src }

def tgFieldOk : Option CStr → Bool
  | none => false
  | some field =>
      field.val ≠ [] ∧ field.length < tgFieldMax ∧
        lf ∉ field.val ∧ cr ∉ field.val

theorem tgFieldOk_some_iff (field : CStr) :
    tgFieldOk (some field) = true ↔
      field.val ≠ [] ∧ field.length < tgFieldMax ∧ lf ∉ field.val ∧ cr ∉ field.val := by
  simp [tgFieldOk]

/-- The test `tg_body_ok` makes at the end of a line. -/
def tgEndsInTerminator (line : Bytes) : Bool :=
  tgTerminator.length ≤ line.length ∧
    line.drop (line.length - tgTerminator.length) = tgTerminator

/-- The loop of `tg_body_ok`; `line` holds the bytes from `line_start` up to
the cursor. -/
def tgBodyOkLoop : Bytes → Bytes → Bool
  | [], line => !tgEndsInTerminator line
  | b :: rest, line =>
      if b = lf then
        if tgEndsInTerminator line then false else tgBodyOkLoop rest []
      else tgBodyOkLoop rest (line ++ [b])

def tgBodyOk : Option CStr → Bool
  | none => true
  | some body => tgBodyOkLoop body.val []

/-- Conversion of a `size_t` to `int`. -/
def intOfSize (n : ℕ) : ℤ := (n : ℤ).bmod (2 ^ 32)

/-- The result of an encoder: its return value and the string in `out`. -/
structure TgEncoded where
  code : ℤ
  out : Bytes
  deriving DecidableEq

/-- The common end of both encoders. -/
def tgFinish (b : TgBuf) : TgEncoded :=
  if b.overflow then ⟨tgErrTooSmall, []⟩
  else ⟨intOfSize b.data.length, b.data⟩

/-- The body is put only when it is neither `NULL` nor empty. -/
def tgBodyPieces : Option CStr → List Bytes
  | none => []
  | some body => if body.val = [] then [] else [body.val]

/-- The strings `tg_encode_text` puts into its buffer, in order. -/
def tgTextPieces (receiver sender : CStr) (sn : ℤ) (timestamp : Int64)
    (body : Option CStr) : List Bytes :=
  [bytes "ZCZC TEXT\n", receiver.val, [lf], sender.val, [lf],
    snprintf 32 (formatInt 4 sn ++ space :: formatInt 0 timestamp.toInt ++ [lf])] ++
  tgBodyPieces body ++ [tgTerminator ++ [lf]]

def tgEncodeText (outSize : ℕ) (receiver sender : Option CStr) (sn : ℤ)
    (timestamp : Int64) (body : Option CStr) : TgEncoded :=
  if outSize = 0 then ⟨tgErrArg, []⟩
  else
    match receiver, sender with
    | some receiver, some sender =>
        if !tgFieldOk (some receiver) || !tgFieldOk (some sender) then ⟨tgErrFormat, []⟩
        else if ¬ tgSnValid sn then ⟨tgErrRange, []⟩
        else if !tgBodyOk body then ⟨tgErrFormat, []⟩
        else
          tgFinish ((tgTextPieces receiver sender sn timestamp body).foldl tgBufPutn
            (tgBufInit outSize))
    | _, _ => ⟨tgErrFormat, []⟩

/-- The strings `tg_encode_cmd` puts into its buffer, in order. -/
def tgCmdPieces (receiver sender : CStr) (start target : ℤ) : List Bytes :=
  [bytes "ZCZC CMD\n", receiver.val, [lf], sender.val, [lf],
    snprintf 32 (bytes "R:" ++ formatInt 0 start ++ minus :: formatInt 0 target ++ [lf]),
    tgTerminator ++ [lf]]

def tgEncodeCmd (outSize : ℕ) (receiver sender : Option CStr) (start target : ℤ) :
    TgEncoded :=
  if outSize = 0 then ⟨tgErrArg, []⟩
  else
    match receiver, sender with
    | some receiver, some sender =>
        if !tgFieldOk (some receiver) || !tgFieldOk (some sender) then ⟨tgErrFormat, []⟩
        else if ¬ tgSnValid start ∨ ¬ tgSnValid target then ⟨tgErrRange, []⟩
        else
          tgFinish ((tgCmdPieces receiver sender start target).foldl tgBufPutn
            (tgBufInit outSize))
    | _, _ => ⟨tgErrFormat, []⟩

/-! ## Decoding -/

inductive TgKind where
  | invalid
  | text
  | cmd
  deriving DecidableEq, Repr

structure TgMessage where
  kind : TgKind
  receiver : CStr
  sender : CStr
  sn : ℤ
  snTo : ℤ
  timestamp : Int64
  body : CStr
  deriving DecidableEq

/-- The copying loop of `tg_next_line`: what has been stored in `dst`, whether
a byte did not fit, and the input from the cursor on. -/
def tgCopyLine (dstSize : ℕ) : Bytes → Bytes → Bool → Bytes × Bool × Bytes
  | [], dst, truncated => (dst, truncated, [])
  | b :: rest, dst, truncated =>
      if b = lf ∨ b = cr then (dst, truncated, b :: rest)
      else if dst.length + 1 < dstSize then
        tgCopyLine dstSize rest (dst ++ [b]) truncated
      else tgCopyLine dstSize rest dst true

/-- Step over one byte if it is the given one. -/
def skipByte (b : UInt8) : Bytes → Bytes
  | [] => []
  | c :: rest => if c = b then rest else c :: rest

/-- `tg_next_line`: the line in `dst`, the flag `complete` and the remaining
input; `none` when the input is exhausted. -/
def tgNextLine (c : Bytes) (dstSize : ℕ) : Option (Bytes × Bool × Bytes) :=
  if c = [] ∨ dstSize = 0 then none
  else
    let copied := tgCopyLine dstSize c [] false
    some (copied.1, !copied.2.1, skipByte lf (skipByte cr copied.2.2))

/-- `sizeof(line)` in `tg_decode` -/
def tgLineSize : ℕ := tgFieldMax + 16

/-- A header line: it must exist and fit the line buffer. -/
def tgReadLine (c : Bytes) : Option (CStr × Bytes) :=
  match tgNextLine c tgLineSize with
  | some (line, true, rest) => some (CStr.ofBuffer line, rest)
  | _ => none

def tgHeaderKind (line : CStr) : Option TgKind :=
  if line.val = bytes "ZCZC TEXT" then some .text
  else if line.val = bytes "ZCZC CMD" then some .cmd
  else none

/-- The receiver or sender line. -/
def tgReadKey (c : Bytes) : Option (CStr × Bytes) :=
  match tgReadLine c with
  | some (line, rest) =>
      if line.val = [] ∨ tgFieldMax ≤ line.length then none else some (line, rest)
  | none => none

/-- Conversion of a `long` to `int`: the low 32 bits. -/
def intOfLong (value : Int64) : ℤ := value.toInt32.toInt

/-- Two numbers with one separating byte in between. -/
def tgReadPair (separator : UInt8) (text : Bytes) : Option (Int64 × Int64) :=
  match strtol text with
  | some (first, b :: rest) =>
      if b ≠ separator then none
      else (strtol rest).map fun second => (first, second.1)
  | _ => none

/-- The metadata line of a text telegram: `sn`, `sn_to` and `timestamp`. -/
def tgTextMeta (line : CStr) : Option (ℤ × ℤ × Int64) :=
  match tgReadPair space line.val with
  | some (sn, timestamp) =>
      if tgSnValid (intOfLong sn) then some (intOfLong sn, 0, timestamp) else none
  | none => none

/-- The metadata line of a control telegram. -/
def tgCmdMeta (line : CStr) : Option (ℤ × ℤ × Int64) :=
  match line.val with
  | r :: colon :: text =>
      if r ≠ 82 ∨ colon ≠ 58 then none
      else
        match tgReadPair minus text with
        | some (start, target) =>
            if tgSnValid (intOfLong start) ∧ tgSnValid (intOfLong target) then
              some (intOfLong start, intOfLong target, 0)
            else none
        | none => none
  | _ => none

def tgReadMeta (kind : TgKind) (line : CStr) : Option (ℤ × ℤ × Int64) :=
  if kind = .text then tgTextMeta line else tgCmdMeta line

/-- The body loop.  Every round consumes input, so as many rounds as there are
bytes left are enough; `complete` is not looked at. -/
def tgReadBody : ℕ → Bytes → Bytes → Option Bytes
  | 0, _, _ => none
  | rounds + 1, c, body =>
      match tgNextLine c tgLineSize with
      | none => none
      | some (buffer, _, rest) =>
          let line := (CStr.ofBuffer buffer).val
          if tgEndsInTerminator line then
            let keep := line.take (line.length - tgTerminator.length)
            if tgBodyMax ≤ body.length + keep.length + 1 then none
            else some (body ++ keep)
          else if tgBodyMax ≤ body.length + line.length + 1 then none
          else tgReadBody rounds rest (body ++ line ++ [lf])

/-- `tg_decode`; `none` is `TG_INVALID`. -/
def tgDecode (raw : Bytes) : Option TgMessage := do
  let (header, c) ← tgReadLine raw
  let kind ← tgHeaderKind header
  let (receiver, c) ← tgReadKey c
  let (sender, c) ← tgReadKey c
  let (line, c) ← tgReadLine c
  let (sn, snTo, timestamp) ← tgReadMeta kind line
  let body ← tgReadBody c.length c []
  return {
    kind, receiver, sender, sn, snTo, timestamp
    body := CStr.ofBuffer body }

/-- A two-line body, over the bytes on the wire and back. -/
example :
    let key : CStr := ⟨bytes "KEY", by decide⟩
    let body : CStr := ⟨bytes "line one\nline two", by decide⟩
    (tgDecode (tgEncodeText 256 (some key) (some key) 7 100 (some body)).out).map
      TgMessage.body = some body := by
  decide

end ToxRelayer
