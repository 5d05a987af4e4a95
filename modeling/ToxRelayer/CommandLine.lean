import ToxRelayer.Directory

/-!
# Command lines

`commands_parse` and the helpers of `misc.c` that the commands read their arguments
with.
-/

namespace ToxRelayer

open CString

def maxCommandLength : ℕ := 1372
def maxNumArgs : ℕ := 4

def quote : UInt8 := 34

def charFind (idx : ℕ) (s : Bytes) (ch : UInt8) : ℕ :=
  if s.length ≤ idx then s.length
  else idx + ((s.drop idx).takeWhile (· ≠ ch)).length

/-- The loop of `commands_parse` for the arguments that are left, from `cmd` on; `none`
when a quoted one does not end. -/
def parseArgs : ℕ → Bytes → Option (List CStr)
  | 0, _ => some []
  | rounds + 1, cmd =>
      let quoted := cmd.head? = some quote
      let i := if quoted then charFind 1 cmd quote else charFind 0 cmd space
      if quoted ∧ i = cmd.length then none
      else
        -- the closing quote belongs to the argument
        let copyLen := min (i + if quoted then 1 else 0) (maxCommandLength - 1)
        let arg := CStr.ofBuffer (cmd.take copyLen)
        let rest := (cmd.drop (i + 1)).dropWhile (· = space)
        if i = cmd.length ∨ rest = [] then some [arg]
        else (parseArgs rounds (snprintf maxCommandLength rest)).map (arg :: ·)

/-- `commands_parse`; `none` is -1. -/
def commandsParse (input : CStr) : Option (List CStr) := parseArgs maxNumArgs input.val

def unquoteStr (arg : CStr) (outSize : ℕ) : CStr :=
  let opened := if arg.val.head? = some quote then arg.val.tail else arg.val
  let closed := if opened.getLast? = some quote then opened.dropLast else opened
  .ofBuffer (snprintf outSize closed)

def toLower (b : UInt8) : UInt8 := if 65 ≤ b ∧ b ≤ 90 then b + 32 else b

/-- `strcasecmp` answers 0. -/
def sameIgnoringCase (s : CStr) (t : Bytes) : Bool := s.val.map toLower = t.map toLower

/-- `parse_group_number`; `none` is `false`. -/
def parseGroupNumber (text : CStr) : Option Int32 :=
  (parseIntRange text 0 (2 ^ 31 - 1)).map Int32.ofInt

/-- `get_elapsed_time_str` -/
def elapsedTimeStr (secs : UInt64) : Bytes :=
  formatInt 0 (secs.toNat / 3600 / 24) ++ bytes "d " ++
    formatInt 0 (secs.toNat / 3600 % 24) ++ bytes "h " ++
    formatInt 0 (secs.toNat % 3600 / 60) ++ bytes "m"

example : (commandsParse (.ofBuffer (bytes "/title 3  \"a b\" "))).map (·.map (·.val)) =
    some [bytes "/title", bytes "3", bytes "\"a b\""] := by decide

end ToxRelayer
