import Mathlib.Data.List.DropRight
import ToxRelayer.CommandLine
import ToxRelayer.TextLines

/-!
# The settings file

`ini_gets` and `ini_puts` of `minIni.c` over the text of the file.  A position in
the file is the text from there on.  The lines of a file that is rewritten go
through a cache: they are counted, and read once more when they are written.
-/

namespace ToxRelayer

open CString TextLines

def iniBufferSize : ℕ := 512

def openBracket : UInt8 := 91
def closeBracket : UInt8 := 93
def equalsSign : UInt8 := 61
def colon : UInt8 := 58
def semicolon : UInt8 := 59
def hash : UInt8 := 35
def backslash : UInt8 := 92

/-! ## Values -/

inductive QuoteOption where
  | none
  | enquote
  | dequote
  deriving DecidableEq

/-- The characters that are skipped around names and values. -/
def isBlank (b : UInt8) : Bool := 0 < b && b ≤ 32

def skipLeading (text : Bytes) : Bytes := text.dropWhile isBlank

/-- `skiptrailing` and `striptrailing` -/
def skipTrailing (text : Bytes) : Bytes := text.rdropWhile isBlank

/-- The loop that writes a quoted text; `d` bytes have been written before. -/
def enquoteLoop (maxLen : ℕ) : ℕ → Bytes → Bytes
  | _, [] => []
  | d, b :: rest =>
      if d < maxLen - 2 then
        if b = quote then
          if maxLen - 3 ≤ d then [] else backslash :: quote :: enquoteLoop maxLen (d + 2) rest
        else b :: enquoteLoop maxLen (d + 1) rest
      else []

/-- A double quote behind another or behind a backslash stands for itself. -/
def dequoteLoop : Bytes → Bytes
  | [] => []
  | [b] => [b]
  | b :: c :: rest =>
      if (b = quote ∨ b = backslash) ∧ c = quote then c :: dequoteLoop rest
      else b :: dequoteLoop (c :: rest)

/-- `ini_strncpy`: what `maxLen` bytes hold of the source. -/
def iniStrncpy (source : Bytes) (maxLen : ℕ) (option : QuoteOption) : Bytes :=
  match option with
  | .none => source.take (maxLen - 1)
  | .enquote =>
      if maxLen < 3 then source.take (maxLen - 1)
      else quote :: enquoteLoop maxLen 1 source ++ [quote]
  | .dequote => (dequoteLoop source).take (maxLen - 1)

/-- The text up to a comment, that is to a `;` or `#` outside of quotes. -/
def cutComment : Bool → Bytes → Bytes
  | _, [] => []
  | isString, [b] => if (b = semicolon ∨ b = hash) ∧ isString = false then [] else [b]
  | isString, b :: c :: rest =>
      if (b = semicolon ∨ b = hash) ∧ isString = false then []
      else if (b = quote ∨ b = backslash) ∧ c = quote then b :: c :: cutComment isString rest
      else if b = quote then b :: cutComment (!isString) (c :: rest)
      else b :: cutComment isString (c :: rest)

def cleanString (text : Bytes) : Bytes × QuoteOption :=
  let text := skipTrailing (cutComment false text)
  if text.head? = some quote ∧ text.getLast? = some quote then (text.tail.dropLast, .dequote)
  else (text, .none)

def checkEnquote (value : Bytes) : QuoteOption :=
  if value.any (fun b => b = quote || b = semicolon || b = hash) ∨ value.getLast? = some space then
    .enquote
  else .none

/-! ## Lines -/

/-- `strnicmp` over the length of both names. -/
def sameName (name other : Bytes) : Bool := name.map toLower = other.map toLower

def isHeading (line : Bytes) : Bool := (skipLeading line).head? = some openBracket

/-- The text up to the last occurrence of a character, which is at its end. -/
def throughLast (b : UInt8) (text : Bytes) : Bytes := text.rdropWhile (· ≠ b)

/-- The line is the heading of the section. -/
def isSection (sect line : Bytes) : Bool :=
  let heading := throughLast closeBracket (skipLeading line)
  isHeading line && heading ≠ [] && sameName heading.tail.dropLast sect

/-- The text in front of a character and the text behind it. -/
def cutAt (b : UInt8) (text : Bytes) : Option (Bytes × Bytes) :=
  if b ∈ text then some (text.takeWhile (· ≠ b), (text.dropWhile (· ≠ b)).tail) else none

/-- The line is split at its first `=`, or at its first `:` when it has no `=`. -/
def splitEntry (line : Bytes) : Option (Bytes × Bytes) :=
  (cutAt equalsSign (skipLeading line)).orElse fun _ => cutAt colon (skipLeading line)

/-- The line has the name of the entry, be it in a comment. -/
def namesKey (key line : Bytes) : Bool :=
  match splitEntry line with
  | none => false
  | some (name, _) => key ≠ [] && sameName (skipTrailing name) key

def isComment (line : Bytes) : Bool :=
  (skipLeading line).head? = some semicolon || (skipLeading line).head? = some hash

/-- The value of a line as it is copied into a buffer. -/
def lineValue (line : Bytes) (bufferSize : ℕ) : Bytes :=
  match splitEntry line with
  | none => []
  | some (_, text) =>
      let cleaned := cleanString (skipLeading text)
      iniStrncpy cleaned.1 bufferSize cleaned.2

/-! ## Reading -/

/-- The value of an entry, and the positions before and behind its line. -/
structure IniFound where
  value : Bytes
  head : Bytes
  tail : Bytes

/-- `getkeystring` for a section and a key. -/
def getKeyString (sect key : Bytes) (bufferSize : ℕ) (text : Bytes) : Option IniFound :=
  let position :=
    if sect = [] then some text
    else (seek iniBufferSize (isSection sect) (text.length + 1) text).map (·.2.2)
  match position with
  | none => none
  | some rest =>
      match seek iniBufferSize
          (fun line => isHeading line || (!isComment line && namesKey key line))
          (rest.length + 1) rest with
      | none => none
      | some (head, line, tail) =>
          if isHeading line then none else some ⟨lineValue line bufferSize, head, tail⟩

/-- `ini_gets`: what it leaves in a buffer of `bufferSize` bytes. -/
def iniGets (sect key default : Bytes) (bufferSize : ℕ) (file : Option CStr) : Bytes :=
  match file.bind fun text => getKeyString sect key bufferSize text.val with
  | some found => found.value
  | none => iniStrncpy default bufferSize .none

/-! ## Writing -/

def writeSection (sect : Bytes) : Bytes :=
  if sect = [] then []
  else openBracket :: sect.take (iniBufferSize - 4 - 1) ++ [closeBracket, lf]

def writeKey (key value : Bytes) : Bytes :=
  let name := key.take (iniBufferSize - 3 - 1) ++ [equalsSign]
  name ++ iniStrncpy value (iniBufferSize - name.length - 2) (checkEnquote value) ++ [lf]

def cacheAccum (line : Bytes) (size : ℕ) : Option ℕ :=
  if iniBufferSize ≤ size + line.length then none else some (size + line.length)

/-- The loop of `cache_flush`, which reads `size` bytes into the buffer.  At the end of the
file it goes on for ever. -/
def cacheFill (size : ℕ) : ℕ → Bytes → Bytes → Option (Bytes × Bytes)
  | 0, _, _ => none
  | rounds + 1, buffer, rest =>
      if size ≤ buffer.length then some (buffer, rest)
      else
        match fgets (iniBufferSize - buffer.length) rest with
        | none => none
        | some (line, rest) => cacheFill size rounds ((buffer ++ line).take size) rest

/-- The state of a rewrite: where the old file is read, where the cache starts and how many
bytes it has, and what has been written. -/
structure IniRewrite where
  rest : Bytes
  mark : Bytes
  cacheLen : ℕ
  out : Bytes

/-- What `cache_flush` leaves: its buffer, whether that ends a line, and the state. -/
structure IniFlushed where
  buffer : Bytes
  endsLine : Bool
  state : IniRewrite

def cacheFlush (w : IniRewrite) : Option IniFlushed :=
  (cacheFill w.cacheLen (w.cacheLen + 1) [] w.mark).map fun filled =>
    ⟨filled.1, decide (1 < filled.1.length) && filled.1.getLast? = some lf,
      ⟨filled.2, filled.2, 0, w.out ++ filled.1⟩⟩

/-- The line that has just been read goes into the cache.  Where it does not fit, the cache
is flushed and the line is read again. -/
def cacheLine (w : IniRewrite) (line : Bytes) : Option IniRewrite :=
  match cacheAccum line w.cacheLen with
  | some size => some { w with cacheLen := size }
  | none =>
      (cacheFlush w).map fun flushed =>
        let again := (fgets iniBufferSize flushed.state.rest).getD
          (flushed.buffer, flushed.state.rest)
        { flushed.state with
          rest := again.2
          cacheLen := (cacheAccum again.1 flushed.state.cacheLen).getD flushed.state.cacheLen }

/-- Lines are read and go into the cache until one is to stop at, which does not; without
one the loop stops at the end of the file. -/
def copyUntil (stop : Bytes → Bool) : ℕ → IniRewrite → Option (Option Bytes × IniRewrite)
  | 0, _ => none
  | rounds + 1, w =>
      match fgets iniBufferSize w.rest with
      | none => some (none, w)
      | some (line, rest) =>
          if stop line then some (some line, { w with rest := rest })
          else (cacheLine { w with rest := rest } line).bind (copyUntil stop rounds)

/-- The end of the file has been reached: the last line is ended. -/
def appendEntry (w : IniRewrite) (written : Bytes) : Option Bytes :=
  (cacheFlush w).map fun flushed =>
    flushed.state.out ++ (if flushed.endsLine then [] else [lf]) ++ written

/-- The entry, and the rest of the file behind it: with the line that was found, if that
is the heading of the next section, and else without it. -/
def replaceEntry (w : IniRewrite) (line written : Bytes) : Option Bytes := do
  let flushed ← cacheFlush w
  let again := (fgets iniBufferSize flushed.state.rest).getD (written, flushed.state.rest)
  let w : IniRewrite :=
    if isHeading line then
      { flushed.state with
        rest := again.2
        cacheLen := (cacheAccum again.1 flushed.state.cacheLen).getD flushed.state.cacheLen
        out := flushed.state.out ++ written }
    else
      { flushed.state with rest := again.2, mark := again.2, out := flushed.state.out ++ written }
  let (_, w) ← copyUntil (fun _ => false) (w.rest.length + 1) w
  let flushed ← cacheFlush w
  return flushed.state.out

/-- From the lines of the section on. -/
def rewriteKey (key value : Bytes) (w : IniRewrite) : Option Bytes := do
  let flushed ← cacheFlush w
  let (found, w) ← copyUntil (fun line => namesKey key line || isHeading line)
    (flushed.state.rest.length + 1) flushed.state
  match found with
  | none => appendEntry w (writeKey key value)
  | some line => replaceEntry w line (writeKey key value)

/-- The text of the temporary file `ini_puts` writes. -/
def iniRewrite (sect key value text : Bytes) : Option Bytes := do
  let start : IniRewrite := ⟨text, text, 0, []⟩
  if sect = [] then rewriteKey key value start
  else
    let (found, w) ← copyUntil (isSection sect) (text.length + 1) start
    match found with
    | none => appendEntry w (writeSection sect ++ writeKey key value)
    | some line =>
        let w ← cacheLine w line
        rewriteKey key value w

/-- How the calls to the file system go: whether the file can be opened for reading and for
writing, whether the temporary one can, what a new file holds of a text once it is closed, what
stands in the place of a line that another one was written over, and whether the file can be
removed and the temporary one renamed.  Only the first three are looked at. -/
structure IniAccess where
  readable : Bool
  writable : Bool
  tempWritable : Bool
  stored : Bytes → Bytes
  overwritten : Bytes → Bytes → Bytes
  removed : Bool
  renamed : Bool

/-- Nothing that is written is lost. -/
structure IniAccess.Keeps (io : IniAccess) : Prop where
  readable : io.readable = true
  stored : ∀ text, io.stored text = text
  overwritten : ∀ old new, io.overwritten old new = new
  renamed : io.renamed = true

structure IniAccess.Works (io : IniAccess) : Prop extends io.Keeps where
  writable : io.writable = true
  tempWritable : io.tempWritable = true

/-- The file as it is opened for reading. -/
def IniAccess.read (io : IniAccess) (file : Option CStr) : Option CStr :=
  if io.readable then file else none

/-- `close_rename`: the file when there is a temporary one with the text `out`. -/
def closeRename (io : IniAccess) (text : CStr) (out : Bytes) : Option CStr :=
  if io.renamed then some (.ofBuffer (io.stored out))
  else if io.removed then none
  else some text

/-- `ini_puts`: its answer and the file; `none` if it does not return. -/
def iniPuts (io : IniAccess) (sect key value : Bytes) (file : Option CStr) :
    Option (Bool × Option CStr) :=
  match io.read file with
  | none =>
      if io.writable then
        some (true, some (.ofBuffer (io.stored (writeSection sect ++ writeKey key value))))
      else some (false, file)
  | some text =>
      let rewritten :=
        if io.tempWritable then
          (iniRewrite sect key value text.val).map fun out => (true, closeRename io text out)
        else some (false, some text)
      match getKeyString sect key iniBufferSize text.val with
      | none => rewritten
      | some found =>
          if found.value = value then some (true, some text)
          else if (writeKey key value).length = found.head.length - found.tail.length then
            if io.writable then
              let line := found.head.take (found.head.length - found.tail.length)
              some (true, some (.ofBuffer (text.val.take (text.val.length - found.head.length) ++
                io.overwritten line (writeKey key value) ++ found.tail)))
            else some (false, some text)
          else rewritten

/-- `minIni` with the file as its store. -/
def iniStore (io : IniAccess) : MinIni (Option CStr) where
  gets := fun file sect key default size =>
    .ofBuffer (iniGets sect key default size (io.read file))
  puts := fun file sect key value => ((iniPuts io sect key value file).map (·.2)).getD file

/-- Every call succeeds. -/
def IniAccess.reliable : IniAccess := ⟨true, true, true, id, fun _ new => new, true, true⟩

theorem IniAccess.reliable_works : IniAccess.reliable.Works :=
  ⟨⟨rfl, fun _ => rfl, fun _ _ => rfl, rfl⟩, rfl, rfl⟩

/-- An entry is replaced, one is added to a section, and a section is added. -/
example :
    let io := IniAccess.reliable
    let file := some (CStr.ofBuffer (bytes "[a]\nx = 1\n[b]\ny=2"))
    [iniPuts io (bytes "A") (bytes "X") (bytes "30") file,
      iniPuts io (bytes "a") (bytes "z") (bytes "3;") file,
      iniPuts io (bytes "c") (bytes "z") (bytes "3") file].map (Option.map fun put => put.2) =
    [some (some (.ofBuffer (bytes "[a]\nX=30\n[b]\ny=2"))),
      some (some (.ofBuffer (bytes "[a]\nx = 1\nz=\"3;\"\n[b]\ny=2"))),
      some (some (.ofBuffer (bytes "[a]\nx = 1\n[b]\ny=2\n[c]\nz=3\n")))] := by
  decide +kernel

/-- Where the temporary file cannot be renamed, all settings are gone and success is
reported. -/
example :
    iniPuts { IniAccess.reliable with renamed := false } (bytes "a") (bytes "x") (bytes "30")
      (some (.ofBuffer (bytes "[a]\nx = 1\n"))) = some (true, none) := by
  decide +kernel

end ToxRelayer
