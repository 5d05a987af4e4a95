import ToxRelayer.Commands
import ToxRelayer.ConsoleSend
import ToxRelayer.ConsoleWords
import ToxRelayer.IntegerText

/-!
# The console

The keys typed at the console are gathered in `cm_buffer`, where a backspace only moves the end
and older lines stay behind it.  A line with a slash in front is a command for
`evaluate_input`; every other one is a message.
-/

namespace ToxRelayer

open CString

/-! ## Commands -/

/-- What `evaluate_input` is asked for. -/
inductive ConsoleCommand where
  | help
  | id
  /-- `/#`; `none` is a line that is no channel. -/
  | channel (index : Option ℤ)
  | info
  | relay (token : CStr)
  /-- `/set`; `none` is a name that is too short. -/
  | set (name : Option CStr)
  | cur
  /-- `/add` with the address for `tox_friend_add`, where `none` is `NULL`. -/
  | add (address : Option Bytes)
  | invalidAddress
  | invalid
  deriving DecidableEq

/-- The second word of a line. -/
def secondToken (userInput : ℕ → UInt8) (s : TokenState) (lineindex : ℕ) : TokenState :=
  getToken userInput (getToken userInput { s with lineindex := lineindex })

/-- `evaluate_input`; the line as it stands in the buffer and as a string. -/
def evaluateInput (userInput : ℕ → UInt8) (input : CStr) (s : TokenState) :
    ConsoleCommand × TokenState :=
  let names (command : Bytes) : Bool := (strstr command input.val).isSome
  if names (bytes "/help") then (.help, s)
  else if names (bytes "/id") then (.id, s)
  else if names (bytes "/#") then
    -- `temp` gets what stands behind the first two characters, the end of the line included
    let temp := CStr.ofBuffer ((input.val.drop 2).take 15)
    (.channel (parseIntRange temp 0 1023), s)
  else if names (bytes "/info") then (.info, s)
  else if names (bytes "/relay") then
    let s := secondToken userInput s 0
    (.relay s.str, s)
  else if names (bytes "/set") then
    let s := secondToken userInput s 0
    (.set (if s.str.length < 3 then none else some s.str), s)
  else if names (bytes "/cur") then (.cur, s)
  else if names (bytes "/add") ∧ 5 < input.length then
    let s := secondToken userInput s 1
    if s.str.length ≠ toxAddressSize * 2 then (.invalidAddress, s)
    else (.add (hexStringToBin s.str), s)
  else (.invalid, s)

/-! ## Keys -/

/-- The memory behind the console: `cm_buffer`, `line_index` and the globals of `get_token`. -/
structure ConsoleBuffer where
  cmBuffer : ℕ → UInt8
  lineIndex : ℕ
  tokens : TokenState

/-- What comes of a line. -/
inductive ConsoleOrder where
  | message (line : CStr)
  | command (line : CStr) (command : ConsoleCommand)
  deriving DecidableEq

def ConsoleOrder.line : ConsoleOrder → CStr
  | .message line => line
  | .command line _ => line

def ConsoleOrder.isCommand : ConsoleOrder → Bool
  | .message _ => false
  | .command _ _ => true

def cmBufferSize : ℕ := 512

/-- The string in `cm_buffer`. -/
def cmBufferStr (cmBuffer : ℕ → UInt8) : CStr :=
  .ofBuffer ((List.range cmBufferSize).map cmBuffer)

namespace ConsoleBuffer

/-- The statics at the start of the program. -/
def initial : ConsoleBuffer := ⟨fun _ => 0, 0, ⟨List.replicate 128 0, 0⟩⟩

/-- One key in the loop of `main`. -/
def pressKey (c : ConsoleBuffer) (inKey : UInt8) : ConsoleBuffer × Option ConsoleOrder :=
  if inKey = lf ∨ inKey = cr then
    let cmBuffer := Function.update (Function.update c.cmBuffer c.lineIndex inKey)
      (c.lineIndex + 1) 0
    if cmBuffer 0 = slash then
      let evaluated := evaluateInput cmBuffer (cmBufferStr cmBuffer) c.tokens
      (⟨cmBuffer, 0, evaluated.2⟩, some (.command (cmBufferStr cmBuffer) evaluated.1))
    else (⟨cmBuffer, 0, c.tokens⟩, some (.message (cmBufferStr cmBuffer)))
  else if inKey = backspace then
    if 0 < c.lineIndex then
      ({ c with
        cmBuffer := Function.update c.cmBuffer (c.lineIndex - 1) 0
        lineIndex := c.lineIndex - 1 }, none)
    else (c, none)
  else if c.lineIndex < 255 then
    ({ c with
      cmBuffer := Function.update c.cmBuffer c.lineIndex inKey
      lineIndex := c.lineIndex + 1 }, none)
  else (c, none)

/-- Keys one after another, and what comes of the lines they end. -/
def pressKeys (c : ConsoleBuffer) : List UInt8 → ConsoleBuffer × List ConsoleOrder
  | [] => (c, [])
  | inKey :: keys =>
      let pressed := c.pressKey inKey
      let rest := pressed.1.pressKeys keys
      (rest.1, pressed.2.toList ++ rest.2)

end ConsoleBuffer

/-- The line under way and the lines that keys end. -/
def CmBuffer.keys (b : CmBuffer) : List UInt8 → CmBuffer × List CStr
  | [] => (b, [])
  | inKey :: keys =>
      let pressed := b.key inKey
      let rest := pressed.1.keys keys
      (rest.1, pressed.2.toList ++ rest.2)

/-! ## The line in the buffer -/

section

variable {mess : ℕ → UInt8} {text : Bytes}

theorem textAt_congr {mess' : ℕ → UInt8} {p : ℕ} (hat : TextAt mess p text)
    (hsame : ∀ i, p ≤ i → i < p + text.length → mess' i = mess i) : TextAt mess' p text := by
  induction text generalizing p with
  | nil => trivial
  | cons b text ih =>
      rw [List.length_cons] at hsame
      refine ⟨(hsame p le_rfl (by omega)).trans hat.1, ih hat.2 fun i hp hi => ?_⟩
      exact hsame i (by omega) (by omega)

/-- A byte written behind a text goes on with it. -/
theorem textAt_update {p : ℕ} (hat : TextAt mess p text) (b : UInt8) :
    TextAt (Function.update mess (p + text.length) b) p (text ++ [b]) := by
  refine textAt_append.mpr ⟨textAt_congr hat fun i _ hi => ?_, ?_, trivial⟩
  · rw [Function.update_of_ne (by omega)]
  · rw [Function.update_self]

theorem map_range_of_textAt (hat : TextAt mess 0 text) :
    (List.range text.length).map mess = text := by
  induction text using List.reverseRecOn with
  | nil => rfl
  | append_singleton text b ih =>
      obtain ⟨htext, hb, -⟩ := textAt_append.mp hat
      rw [Nat.zero_add] at hb
      rw [List.length_append, List.length_singleton, List.range_succ, List.map_append, ih htext,
        List.map_singleton, hb]

/-- A NUL ends the string in the buffer. -/
theorem cmBufferStr_of_textAt (hat : TextAt mess 0 (text ++ [0]))
    (hfits : text.length < cmBufferSize) : cmBufferStr mess = .ofBuffer text := by
  obtain ⟨n, hn⟩ := Nat.exists_eq_add_of_le (Nat.succ_le_of_lt hfits)
  have hfirst := map_range_of_textAt hat
  rw [List.length_append, List.length_singleton] at hfirst
  rw [cmBufferStr, hn, List.range_add, List.map_append, hfirst, List.append_assoc,
    List.singleton_append, ofBuffer_append_nul]

end

namespace ConsoleBuffer

variable {c : ConsoleBuffer} {b : CmBuffer}

/-- The memory holds this line so far. -/
structure Holds (c : ConsoleBuffer) (b : CmBuffer) : Prop where
  text : TextAt c.cmBuffer 0 b.val
  index : c.lineIndex = b.val.length

theorem holds_initial : initial.Holds .empty := ⟨trivial, rfl⟩

/-- What a key makes of the memory. -/
structure Follows (pressed : ConsoleBuffer × Option ConsoleOrder)
    (line : CmBuffer × Option CStr) : Prop where
  holds : pressed.1.Holds line.1
  lines : pressed.2.map ConsoleOrder.line = line.2
  command : ∀ order ∈ pressed.2, order.isCommand = true ↔ order.line.val.head? = some slash

theorem ofBuffer_head? (b : UInt8) (text : Bytes) {c : UInt8} (hc : c ≠ 0) :
    (CStr.ofBuffer (b :: text)).val.head? = some c ↔ b = c := by
  change ((b :: text).takeWhile fun b => decide (b ≠ 0)).head? = some c ↔ b = c
  by_cases hb : b = 0
  · subst hb
    exact iff_of_false nofun (Ne.symm hc)
  · rw [List.takeWhile_cons, if_pos (decide_eq_true hb), List.head?_cons, Option.some.injEq]

/-- The memory at the end of a line. -/
theorem Holds.enter (hc : c.Holds b) (inKey : UInt8) :
    TextAt (Function.update (Function.update c.cmBuffer c.lineIndex inKey) (c.lineIndex + 1) 0) 0
      ((b.val ++ [inKey]) ++ [0]) := by
  have hkey := textAt_update hc.text inKey
  have hend := textAt_update hkey 0
  rwa [List.length_append, List.length_singleton, Nat.zero_add, Nat.zero_add, ← hc.index] at hend

/-- What the end of a line hands on. -/
theorem Holds.pressEnter (hc : c.Holds b) {enter : UInt8} (henter : IsEnter enter) :
    ∃ cmBuffer tokens, TextAt cmBuffer 0 ((b.val ++ [enter]) ++ [0]) ∧
      c.pressKey enter = (⟨cmBuffer, 0, tokens⟩, some
        (if (b.val ++ [enter]).head? = some slash then
          .command (.ofBuffer (b.val ++ [enter]))
            (evaluateInput cmBuffer (.ofBuffer (b.val ++ [enter])) c.tokens).1
        else .message (.ofBuffer (b.val ++ [enter])))) := by
  have hmemory := hc.enter enter
  have hfits := b.bounded
  have hstr := cmBufferStr_of_textAt hmemory (by
    rw [List.length_append, List.length_singleton, cmBufferSize]
    rw [cmLineMax] at hfits
    omega)
  obtain ⟨first, rest, hline⟩ := List.exists_cons_of_ne_nil (l := b.val ++ [enter]) (by simp)
  rw [hline] at hmemory hstr ⊢
  unfold ConsoleBuffer.pressKey
  rw [if_pos (Or.symm henter)]
  dsimp only
  rw [hmemory.1, hstr]
  simp only [List.head?_cons, Option.some.injEq]
  split
  · exact ⟨_, _, hmemory, rfl⟩
  · exact ⟨_, _, hmemory, rfl⟩

theorem Holds.pressKey (hc : c.Holds b) (inKey : UInt8) :
    Follows (c.pressKey inKey) (b.key inKey) := by
  by_cases henter : inKey = lf ∨ inKey = cr
  · obtain ⟨cmBuffer, tokens, -, hpressed⟩ := hc.pressEnter (Or.symm henter)
    have hended : b.key inKey = (.empty, some (.ofBuffer (b.val ++ [inKey]))) := by
      rw [CmBuffer.key, if_pos henter]
    obtain ⟨first, rest, hline⟩ := List.exists_cons_of_ne_nil (l := b.val ++ [inKey]) (by simp)
    have hslash : (CStr.ofBuffer (first :: rest)).val.head? = some slash ↔ first = slash :=
      ofBuffer_head? first rest (by decide)
    rw [hpressed, hended, hline]
    simp only [List.head?_cons, Option.some.injEq]
    split
    · rename_i hcommand
      refine ⟨⟨trivial, rfl⟩, rfl, ?_⟩
      rintro order ⟨⟩
      exact iff_of_true rfl (hslash.mpr hcommand)
    · rename_i hmessage
      refine ⟨⟨trivial, rfl⟩, rfl, ?_⟩
      rintro order ⟨⟩
      exact iff_of_false Bool.false_ne_true fun hhead => hmessage (hslash.mp hhead)
  · unfold ConsoleBuffer.pressKey CmBuffer.key
    rw [if_neg henter, if_neg henter]
    by_cases hback : inKey = backspace
    · rw [if_pos hback, if_pos hback]
      split
      · rename_i hsome
        refine ⟨⟨?_, ?_⟩, rfl, fun _ horder => absurd horder (Option.not_mem_none _)⟩
        · have hlength := b.val.length_dropLast
          rw [← hc.index] at hlength
          have hkept := hc.text
          have hne : b.val ≠ [] := List.ne_nil_of_length_pos (hc.index ▸ hsome)
          rw [← b.val.dropLast_append_getLast hne] at hkept
          refine textAt_congr (textAt_append.mp hkept).1 fun i _ hi => ?_
          rw [hlength, Nat.zero_add] at hi
          exact Function.update_of_ne hi.ne _ _
        · rw [List.length_dropLast, ← hc.index]
      · rename_i hnone
        have hempty : b.val = [] := List.eq_nil_of_length_eq_zero (by
          rw [← hc.index]
          omega)
        refine ⟨⟨?_, ?_⟩, rfl, fun _ horder => absurd horder (Option.not_mem_none _)⟩
        · dsimp only
          rw [hempty]
          trivial
        · dsimp only
          rw [hc.index, hempty]
          rfl
    · rw [if_neg hback, if_neg hback]
      by_cases hroom : b.val.length < cmLineMax
      · rw [if_pos (by rw [hc.index]; exact hroom), dif_pos hroom]
        refine ⟨⟨?_, ?_⟩, rfl, fun _ horder => absurd horder (Option.not_mem_none _)⟩
        · have hkey := textAt_update hc.text inKey
          rwa [Nat.zero_add, ← hc.index] at hkey
        · rw [List.length_append, List.length_singleton, ← hc.index]
      · rw [if_neg (by rw [hc.index]; exact hroom), dif_neg hroom]
        exact ⟨hc, rfl, fun _ horder => absurd horder (Option.not_mem_none _)⟩

theorem Holds.pressKeys (hc : c.Holds b) (keys : List UInt8) :
    (c.pressKeys keys).1.Holds (b.keys keys).1 ∧
      (c.pressKeys keys).2.map ConsoleOrder.line = (b.keys keys).2 ∧
      ∀ order ∈ (c.pressKeys keys).2,
        order.isCommand = true ↔ order.line.val.head? = some slash := by
  induction keys generalizing c b with
  | nil => exact ⟨hc, rfl, nofun⟩
  | cons inKey keys ih =>
      have hkey := hc.pressKey inKey
      obtain ⟨hholds, hlines, hcommands⟩ := ih hkey.holds
      refine ⟨hholds, ?_, fun order horder => ?_⟩
      · rw [ConsoleBuffer.pressKeys, CmBuffer.keys]
        dsimp only
        rw [List.map_append, hlines, ← hkey.lines, Option.toList_map]
      · rcases List.mem_append.mp horder with hfirst | hrest
        · exact hkey.command order (Option.mem_toList.mp hfirst)
        · exact hcommands order hrest

/-- The lines that come out of the memory are those of the keys typed for them, whatever older
lines have left there, and no write leaves `cm_buffer`. -/
theorem pressKeys_lines (keys : List UInt8) :
    (initial.pressKeys keys).2.map ConsoleOrder.line = (CmBuffer.empty.keys keys).2 ∧
      (∀ order ∈ (initial.pressKeys keys).2,
        order.isCommand = true ↔ order.line.val.head? = some slash) ∧
      (initial.pressKeys keys).1.lineIndex + 1 < cmBufferSize := by
  obtain ⟨hholds, hlines, hcommands⟩ := holds_initial.pressKeys keys
  refine ⟨hlines, hcommands, ?_⟩
  have hfits := (CmBuffer.empty.keys keys).1.bounded
  rw [hholds.index, cmBufferSize]
  rw [cmLineMax] at hfits
  omega

end ConsoleBuffer

/-! ## Turning to a contact -/

theorem parseIntRange_eq_some_iff (text : CStr) {min max : ℤ} (hmin : -2 ^ 63 ≤ min)
    (hmax : max < 2 ^ 63) (n : ℤ) :
    parseIntRange text min max = some n ↔ WritesInteger text.val n ∧ min ≤ n ∧ n ≤ max := by
  unfold parseIntRange
  cases htext : text.val with
  | nil => exact iff_of_false nofun fun hwrites => not_writesInteger_nil n hwrites.1
  | cons b rest =>
      dsimp only
      cases hspace : isSpace b with
      | true =>
          rw [if_pos rfl]
          refine iff_of_false nofun fun hwrites => ?_
          rw [writesInteger_head hwrites.1] at hspace
          cases hspace
      | false =>
          have hread : readInteger (b :: rest) = some (n, []) ↔ WritesInteger (b :: rest) n :=
            readInteger_eq_some_nil_iff hspace n
          rw [if_neg Bool.false_ne_true, strtol_eq_readInteger, ← hread]
          cases hresult : readInteger (b :: rest) with
          | none => exact iff_of_false nofun fun hsome => nomatch hsome.1
          | some result =>
              obtain ⟨value, behind⟩ := result
              cases behind with
              | cons c behind => exact iff_of_false nofun fun hsome => nomatch hsome.1
              | nil =>
                  have hrange := strtolOutOfRange_iff hresult
                  have hsame : some (value, ([] : Bytes)) = some (n, []) ↔ value = n := by simp
                  rw [Option.map_some, hsame]
                  dsimp only
                  by_cases hlong : value < -2 ^ 63 ∨ 2 ^ 63 ≤ value
                  · rw [if_pos (hrange.mpr hlong)]
                    refine iff_of_false nofun ?_
                    rintro ⟨rfl, hlow, hhigh⟩
                    omega
                  · rw [if_neg (mt hrange.mp hlong), toInt_toLong (by omega) (by omega)]
                    by_cases hwithin : value < min ∨ max < value
                    · rw [if_pos hwithin]
                      refine iff_of_false nofun ?_
                      rintro ⟨rfl, hlow, hhigh⟩
                      omega
                    · rw [if_neg hwithin, Option.some.injEq, iff_self_and]
                      rintro rfl
                      omega

section

variable {line : Bytes} {enter : UInt8}

/-- The end of a line is no part of a word that is looked for. -/
theorem infix_concat_enter {word : Bytes} (hne : word ≠ []) (henter : enter ∉ word) :
    word <:+: line ++ [enter] ↔ word <:+: line := by
  rw [List.infix_concat_iff]
  refine or_iff_right fun hsuffix => henter ?_
  obtain ⟨front, hfront⟩ := hsuffix
  have hlast := congrArg List.getLast? hfront
  rw [List.getLast?_append_of_ne_nil front hne, List.getLast?_concat] at hlast
  exact List.mem_of_getLast? hlast

theorem enter_notMem {word : Bytes} (hword : lf ∉ word ∧ cr ∉ word) (henter : IsEnter enter) :
    enter ∉ word := by
  rcases henter with rfl | rfl
  · exact hword.2
  · exact hword.1

/-- A number has no end of a line in it. -/
theorem WritesInteger.enter_notMem {text : Bytes} {n : ℤ} (hwrites : WritesInteger text n)
    (henter : IsEnter enter) : enter ∉ text := by
  have hdigit {digits : Bytes} (hdigits : ∀ b ∈ digits, isDigit b = true) : enter ∉ digits := by
    intro hmem
    have hb := hdigits enter hmem
    rcases henter with rfl | rfl <;> exact absurd hb (by decide)
  cases hwrites with
  | unsigned hne hdigits => exact hdigit hdigits
  | positive hne hdigits =>
      rw [List.mem_cons, not_or]
      refine ⟨?_, hdigit hdigits⟩
      rcases henter with rfl | rfl <;> decide
  | negative hne hdigits =>
      rw [List.mem_cons, not_or]
      refine ⟨?_, hdigit hdigits⟩
      rcases henter with rfl | rfl <;> decide

/-- The line asks for another contact. -/
structure AsksChannel (line : Bytes) : Prop where
  command : line.head? = some slash
  channel : bytes "/#" <:+: line
  notHelp : ¬ bytes "/help" <:+: line
  notId : ¬ bytes "/id" <:+: line

theorem evaluateInput_channel_iff (userInput : ℕ → UInt8) (input : CStr) (s : TokenState) (n : ℤ) :
    (evaluateInput userInput input s).1 = .channel (some n) ↔
      bytes "/#" <:+: input.val ∧ ¬ bytes "/help" <:+: input.val ∧ ¬ bytes "/id" <:+: input.val ∧
        parseIntRange (.ofBuffer ((input.val.drop 2).take 15)) 0 1023 = some n := by
  unfold evaluateInput
  dsimp only
  simp only [strstr_isSome_iff]
  by_cases hhelp : bytes "/help" <:+: input.val
  · rw [if_pos hhelp]
    exact iff_of_false nofun fun h => h.2.1 hhelp
  rw [if_neg hhelp]
  by_cases hid : bytes "/id" <:+: input.val
  · rw [if_pos hid]
    exact iff_of_false nofun fun h => h.2.2.1 hid
  rw [if_neg hid]
  by_cases hchannel : bytes "/#" <:+: input.val
  · rw [if_pos hchannel]
    simp [hchannel, hhelp, hid]
  · rw [if_neg hchannel]
    refine iff_of_false ?_ fun h => hchannel h.1
    split_ifs <;> exact nofun

theorem writesInteger_drop_two {n : ℤ} (henter : IsEnter enter) (htwo : 2 ≤ line.length) :
    WritesInteger (((line ++ [enter]).drop 2).take 15) n ↔
      17 ≤ line.length ∧ WritesInteger ((line.drop 2).take 15) n := by
  rw [List.drop_append_of_le_length htwo]
  by_cases hlong : 17 ≤ line.length
  · rw [List.take_append_of_le_length (by rw [List.length_drop]; omega)]
    exact (and_iff_right hlong).symm
  · refine iff_of_false (fun hwrites => hwrites.enter_notMem henter ?_) fun h => hlong h.1
    rw [List.take_of_length_le (by
      rw [List.length_append, List.length_drop, List.length_singleton]
      omega)]
    exact List.mem_append_right _ (List.mem_singleton_self enter)

end

/-- The line under way consists of keys. -/
theorem CmBuffer.mem_keys {b : CmBuffer} {keys : List UInt8} {key : UInt8}
    (hmem : key ∈ (b.keys keys).1.val) : key ∈ b.val ∨ key ∈ keys := by
  induction keys generalizing b with
  | nil => exact .inl hmem
  | cons inKey keys ih =>
      rcases ih hmem with hfirst | hrest
      · have hkey : key ∈ b.val ∨ key = inKey := by
          unfold CmBuffer.key at hfirst
          split_ifs at hfirst
          · cases hfirst
          · exact .inl (List.mem_of_mem_dropLast hfirst)
          · exact (List.mem_append.mp hfirst).imp_right List.mem_singleton.mp
          · exact .inl hfirst
        rw [List.mem_cons]
        exact hkey.imp_right .inl
      · exact .inr (List.mem_cons_of_mem inKey hrest)

namespace ConsoleBuffer

variable {c : ConsoleBuffer} {b : CmBuffer} {enter : UInt8}

/-- A line turns to another contact only when fifteen characters behind the first two are its
number: in a shorter line the end of the line is read as part of it. -/
theorem turnsTo_iff {keys : List UInt8} (hkeys : 0 ∉ keys) (henter : IsEnter enter) (n : ℤ) :
    let line := (CmBuffer.empty.keys keys).1.val
    (∃ str, ((initial.pressKeys keys).1.pressKey enter).2 =
        some (.command str (.channel (some n)))) ↔
      AsksChannel line ∧ 17 ≤ line.length ∧ WritesInteger ((line.drop 2).take 15) n ∧
        0 ≤ n ∧ n ≤ 1023 := by
  intro line
  have hholds := (holds_initial.pressKeys keys).1
  obtain ⟨cmBuffer, tokens, -, hpressed⟩ := hholds.pressEnter henter
  have hline : (CmBuffer.empty.keys keys).1.val = line := rfl
  rw [hline] at hpressed
  have hfree : (0 : UInt8) ∉ line ++ [enter] := by
    intro hmem
    rcases List.mem_append.mp hmem with hline | hend
    · exact (CmBuffer.mem_keys hline).elim List.not_mem_nil hkeys
    · rcases henter with rfl | rfl <;> exact absurd (List.mem_singleton.mp hend) (by decide)
  have hstr := CStr.ofBuffer_val_of_nulFree hfree
  have hwords {word : Bytes} (hword : lf ∉ word ∧ cr ∉ word) (hne : word ≠ []) :
      word <:+: line ++ [enter] ↔ word <:+: line :=
    infix_concat_enter hne (enter_notMem hword henter)
  have htemp : (0 : UInt8) ∉ ((line ++ [enter]).drop 2).take 15 := fun hmem =>
    hfree (List.mem_of_mem_drop (List.mem_of_mem_take hmem))
  rw [hpressed]
  have hfirst : (line ++ [enter]).head? = some slash ↔ line.head? = some slash := by
    cases line with
    | nil =>
        refine iff_of_false (fun hhead => ?_) nofun
        rcases henter with rfl | rfl <;> cases hhead
    | cons b rest => exact Iff.rfl
  have horder : (∃ str, (if (line ++ [enter]).head? = some slash then
          .command (.ofBuffer (line ++ [enter]))
            (evaluateInput cmBuffer (.ofBuffer (line ++ [enter]))
              (initial.pressKeys keys).1.tokens).1
        else .message (.ofBuffer (line ++ [enter]))) =
          ConsoleOrder.command str (.channel (some n))) ↔
      line.head? = some slash ∧ (evaluateInput cmBuffer (.ofBuffer (line ++ [enter]))
        (initial.pressKeys keys).1.tokens).1 = .channel (some n) := by
    rw [← hfirst]
    split
    · rename_i hcommand
      simp [hcommand]
    · rename_i hmessage
      exact iff_of_false (fun ⟨_, hsame⟩ => nomatch hsame) fun h => hmessage h.1
  simp only [Option.some.injEq]
  rw [horder, evaluateInput_channel_iff, hstr, parseIntRange_eq_some_iff _ (by decide) (by decide),
    CStr.ofBuffer_val_of_nulFree htemp, hwords (by decide) (by decide),
    hwords (by decide) (by decide), hwords (by decide) (by decide)]
  constructor
  · rintro ⟨hcommand, hchannel, hhelp, hid, hwrites, hrange⟩
    obtain ⟨hlong, hnumber⟩ := (writesInteger_drop_two henter hchannel.length_le).mp hwrites
    exact ⟨⟨hcommand, hchannel, hhelp, hid⟩, hlong, hnumber, hrange⟩
  · rintro ⟨hasks, hlong, hnumber, hrange⟩
    have htwo : 2 ≤ line.length := hasks.channel.length_le
    exact ⟨hasks.command, hasks.channel, hasks.notHelp, hasks.notId,
      (writesInteger_drop_two henter htwo).mpr ⟨hlong, hnumber⟩, hrange⟩

/-- `/#5` turns to nobody, `/#000000000000005` to contact 5. -/
theorem turnsTo_iff_padded :
    ((∃ str, ((initial.pressKeys (bytes "/#000000000000005")).1.pressKey lf).2 =
        some (.command str (.channel (some 5)))) ↔
      AsksChannel (bytes "/#000000000000005") ∧ 17 ≤ (bytes "/#000000000000005").length ∧
        WritesInteger (((bytes "/#000000000000005").drop 2).take 15) 5 ∧ (0 : ℤ) ≤ 5 ∧
          (5 : ℤ) ≤ 1023) ∧
      ((initial.pressKeys (bytes "/#5")).1.pressKey lf).2 =
        some (.command ⟨bytes "/#5\n", by decide⟩ (.channel none)) :=
  have hkeys : 0 ∉ bytes "/#000000000000005" := by decide
  ⟨turnsTo_iff hkeys (.inr rfl) 5, by decide +kernel⟩

end ConsoleBuffer

end ToxRelayer
