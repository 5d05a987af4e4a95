import ToxRelayer.Directory

/-!
# Numbers typed by the operator

`parse_int_range` (`misc.c`) puts four checks around `strtol`.  The text is
accepted exactly when it is an optional sign and digits and nothing else, and
the integer so written lies in the range; `*out` is written on acceptance only.
-/

namespace ToxRelayer

open CString

def plus : UInt8 := 43

/-- A text in the grammar, and the integer it writes. -/
inductive WritesInteger : Bytes → ℤ → Prop
  | unsigned {digits : Bytes} (hne : digits ≠ []) (hdigits : ∀ b ∈ digits, isDigit b = true) :
      WritesInteger digits (digitsValue digits)
  | positive {digits : Bytes} (hne : digits ≠ []) (hdigits : ∀ b ∈ digits, isDigit b = true) :
      WritesInteger (plus :: digits) (digitsValue digits)
  | negative {digits : Bytes} (hne : digits ≠ []) (hdigits : ∀ b ∈ digits, isDigit b = true) :
      WritesInteger (minus :: digits) (-(digitsValue digits : ℤ))

/-- `parse_int_range`: its answer and what `out` points to afterwards.  A null
pointer is `none`. -/
def parseIntRangeInto (text : Option CStr) (min max : Int64) (out : Option Int64) :
    Bool × Option Int64 :=
  match text, out with
  | some text, some _ =>
      if max < min then (false, out)
      else
        match text.val with
        | [] => (false, out)
        | b :: rest =>
            if isSpace b then (false, out)
            else
              match strtol (b :: rest) with
              | none => (false, out)
              | some (value, behind) =>
                  if behind ≠ [] ∨ strtolOutOfRange (b :: rest) = true then (false, out)
                  else if value < min ∨ max < value then (false, out)
                  else (true, some value)
  | _, _ => (false, out)

/-! ## What `strtol` reads completely -/

theorem readDigits_eq_some_nil_iff (text : Bytes) (value : ℕ) :
    readDigits text = some (value, []) ↔
      text ≠ [] ∧ (∀ b ∈ text, isDigit b = true) ∧ value = digitsValue text := by
  constructor
  · intro hread
    unfold readDigits at hread
    split at hread
    · cases hread
    · rename_i hne
      obtain ⟨hvalue, hrest⟩ := Prod.mk.inj (Option.some.inj hread)
      have hdigits : ∀ b ∈ text, isDigit b = true := by
        simpa [List.dropWhile_eq_nil_iff] using hrest
      have hwhole : text.takeWhile isDigit = text :=
        List.takeWhile_eq_self_iff.mpr hdigits
      rw [hwhole] at hne hvalue
      exact ⟨hne, hdigits, hvalue.symm⟩
  · rintro ⟨hne, hdigits, rfl⟩
    have hread : readDigits (text ++ []) = some (digitsValue text, []) :=
      readDigits_append hne hdigits (by simp)
    rwa [List.append_nil] at hread

/-- Without leading white space the whole text is read exactly when it is in
the grammar. -/
theorem readInteger_eq_some_nil_iff {b : UInt8} {text : Bytes} (hspace : isSpace b = false)
    (value : ℤ) :
    readInteger (b :: text) = some (value, []) ↔ WritesInteger (b :: text) value := by
  have hdrop : (b :: text).dropWhile isSpace = b :: text :=
    List.dropWhile_cons_of_neg (by simp [hspace])
  rw [readInteger, hdrop]
  constructor
  · intro hread
    obtain ⟨⟨n, behind⟩, hdigits, heq⟩ := Option.map_eq_some_iff.mp hread
    obtain ⟨hvalue, hbehind⟩ := Prod.mk.inj heq
    dsimp only at hvalue hbehind
    subst hbehind
    by_cases hminus : b = 45
    · subst hminus
      obtain ⟨hne, hall, rfl⟩ := (readDigits_eq_some_nil_iff _ _).mp hdigits
      have hwrites := WritesInteger.negative hne hall
      rw [← hvalue]
      exact hwrites
    by_cases hplus : b = 43
    · subst hplus
      obtain ⟨hne, hall, rfl⟩ := (readDigits_eq_some_nil_iff _ _).mp hdigits
      have hwrites := WritesInteger.positive hne hall
      rw [← hvalue]
      exact hwrites
    · have hsigned : splitSign (b :: text) = (false, b :: text) := by
        simp [splitSign, hminus, hplus]
      rw [hsigned] at hdigits hvalue
      obtain ⟨hne, hall, rfl⟩ := (readDigits_eq_some_nil_iff _ _).mp hdigits
      have hwrites := WritesInteger.unsigned hne hall
      rw [← hvalue]
      exact hwrites
  · intro hwrites
    generalize htext : b :: text = whole at hwrites
    cases hwrites with
    | unsigned hne hdigits =>
        have hsign := splitSign_digits [] hne hdigits
        rw [List.append_nil, ← htext, hdrop] at hsign
        have hread := (readDigits_eq_some_nil_iff whole _).mpr ⟨hne, hdigits, rfl⟩
        rw [← htext] at hread ⊢
        rw [hsign]
        simp only [hread, Option.map_some, Bool.false_eq_true, if_false]
    | positive hne hdigits =>
        have hread := (readDigits_eq_some_nil_iff _ _).mpr ⟨hne, hdigits, rfl⟩
        have hsign : ∀ digits, splitSign (plus :: digits) = (false, digits) := fun _ => rfl
        rw [hsign]
        simp only [hread, Option.map_some, Bool.false_eq_true, if_false]
    | negative hne hdigits =>
        have hread := (readDigits_eq_some_nil_iff _ _).mpr ⟨hne, hdigits, rfl⟩
        have hsign : ∀ digits, splitSign (minus :: digits) = (true, digits) := fun _ => rfl
        rw [hsign]
        simp only [hread, Option.map_some, if_true]

/-- `errno` is `ERANGE` exactly when the number does not fit a `long`. -/
theorem strtolOutOfRange_iff {text rest : Bytes} {value : ℤ}
    (hread : readInteger text = some (value, rest)) :
    strtolOutOfRange text = true ↔ value < -2 ^ 63 ∨ 2 ^ 63 ≤ value := by
  obtain ⟨⟨n, behind⟩, hdigits, heq⟩ := Option.map_eq_some_iff.mp hread
  obtain ⟨hvalue, -⟩ := Prod.mk.inj heq
  dsimp only at hvalue
  unfold strtolOutOfRange
  simp only [hdigits]
  cases hneg : (splitSign (text.dropWhile isSpace)).1 with
  | true =>
      rw [hneg, if_pos rfl] at hvalue
      rw [if_pos rfl, decide_eq_true_eq]
      omega
  | false =>
      rw [hneg, if_neg Bool.false_ne_true] at hvalue
      rw [if_neg Bool.false_ne_true, decide_eq_true_eq]
      omega

/-- A number between two `long`s is one. -/
theorem toInt_toLong_of_between {min max : Int64} {value : ℤ} (hlow : min.toInt ≤ value)
    (hhigh : value ≤ max.toInt) : (toLong value).toInt = value := by
  have hmin := min.le_toInt
  have hmax := max.toInt_lt
  exact toInt_toLong (by omega) (by omega)

theorem writesInteger_head {b : UInt8} {text : Bytes} {value : ℤ}
    (hwrites : WritesInteger (b :: text) value) : isSpace b = false := by
  generalize htext : b :: text = whole at hwrites
  cases hwrites with
  | unsigned hne hdigits =>
      subst htext
      exact (isSpace_of_isDigit (hdigits b (by simp))).1
  | positive hne hdigits =>
      obtain rfl := (List.cons.inj htext).1
      decide
  | negative hne hdigits =>
      obtain rfl := (List.cons.inj htext).1
      decide

theorem not_writesInteger_nil (value : ℤ) : ¬WritesInteger [] value := by
  intro hwrites
  generalize htext : ([] : Bytes) = whole at hwrites
  cases hwrites with
  | unsigned hne hdigits => exact hne htext.symm
  | positive hne hdigits => cases htext
  | negative hne hdigits => cases htext

/-! ## The parser -/

theorem parseIntRangeInto_true {text : CStr} {min max : Int64} {value : ℤ}
    (hwrites : WritesInteger text.val value) (hlow : min.toInt ≤ value) (hhigh : value ≤ max.toInt)
    (out : Int64) :
    parseIntRangeInto (some text) min max (some out) = (true, some (toLong value)) := by
  have hlong := toInt_toLong_of_between hlow hhigh
  have hmin := min.le_toInt
  have hmax := max.toInt_lt
  have horder : ¬max < min := by
    rw [Int64.lt_iff_toInt_lt]
    omega
  simp only [parseIntRangeInto, horder, if_false]
  cases htext : text.val with
  | nil =>
      rw [htext] at hwrites
      exact absurd hwrites (not_writesInteger_nil value)
  | cons b rest =>
      rw [htext] at hwrites
      have hspace := writesInteger_head hwrites
      have hread := (readInteger_eq_some_nil_iff hspace value).mpr hwrites
      have hrange : ¬strtolOutOfRange (b :: rest) = true := by
        rw [strtolOutOfRange_iff hread]
        omega
      have hwithin : ¬(toLong value < min ∨ max < toLong value) := by
        rw [Int64.lt_iff_toInt_lt, Int64.lt_iff_toInt_lt, hlong]
        omega
      simp only [hspace, Bool.false_eq_true, if_false, strtol_eq_readInteger, hread,
        Option.map_some, hrange, ne_eq, not_true_eq_false, or_self, hwithin]

theorem parseIntRangeInto_accepted {text : CStr} {min max out : Int64}
    (haccept : (parseIntRangeInto (some text) min max (some out)).1 = true) :
    ∃ value, WritesInteger text.val value ∧ min.toInt ≤ value ∧ value ≤ max.toInt := by
  simp only [parseIntRangeInto] at haccept
  split at haccept
  · cases haccept
  split at haccept
  · cases haccept
  rename_i b rest htext
  split at haccept
  · cases haccept
  rename_i hspace
  rw [Bool.not_eq_true] at hspace
  rw [strtol_eq_readInteger] at haccept
  cases hread : readInteger (b :: rest) with
  | none =>
      rw [hread] at haccept
      cases haccept
  | some result =>
      obtain ⟨value, behind⟩ := result
      rw [hread] at haccept
      simp only [Option.map_some] at haccept
      split at haccept
      · cases haccept
      rename_i hwhole
      obtain ⟨hbehind, hrange⟩ := not_or.mp hwhole
      obtain rfl : behind = [] := not_not.mp hbehind
      split at haccept
      · cases haccept
      rename_i hwithin
      rw [strtolOutOfRange_iff hread] at hrange
      have hlong : (toLong value).toInt = value := toInt_toLong (by omega) (by omega)
      rw [Int64.lt_iff_toInt_lt, Int64.lt_iff_toInt_lt, hlong] at hwithin
      have hwrites := (readInteger_eq_some_nil_iff hspace value).mp hread
      exact ⟨value, htext ▸ hwrites, by omega, by omega⟩

/-- A rejected text leaves `*out` alone. -/
theorem parseIntRangeInto_rejected {text : Option CStr} {min max : Int64} {out : Option Int64}
    (hreject : (parseIntRangeInto text min max out).1 = false) :
    (parseIntRangeInto text min max out).2 = out := by
  revert hreject
  unfold parseIntRangeInto
  repeat' split
  -- Only the branch that accepts writes to `*out`.
  case h_2.isFalse.isFalse => exact fun hreject => absurd hreject.symm Bool.false_ne_true
  all_goals exact fun _ => rfl

/-- What the callers see of it is the answer of the directory's `parseIntRange`. -/
theorem parseIntRangeInto_eq_parseIntRange (text : CStr) (min max out : Int64) :
    parseIntRangeInto (some text) min max (some out) =
      match parseIntRange text min.toInt max.toInt with
      | none => (false, some out)
      | some value => (true, some (toLong value)) := by
  simp only [parseIntRangeInto, parseIntRange, Int64.lt_iff_toInt_lt]
  cases htext : text.val with
  | nil => simp only [ite_self]
  | cons b rest =>
      dsimp only
      cases hspace : isSpace b with
      | true => simp only [if_true, ite_self]
      | false =>
          cases hread : strtol (b :: rest) with
          | none => simp only [Bool.false_eq_true, ite_self]
          | some result =>
              obtain ⟨value, behind⟩ := result
              cases behind with
              | cons c behind => simp
              | nil =>
                  by_cases hrange : strtolOutOfRange (b :: rest) = true
                  · simp [hrange]
                  by_cases hwithin : value.toInt < min.toInt ∨ max.toInt < value.toInt
                  · simp [hrange, hwithin]
                  have horder : ¬max.toInt < min.toInt := by omega
                  simp [hrange, hwithin, horder, toLong_toInt]

/-- The accepted texts are exactly those of the grammar with a value in range. -/
theorem parseIntRange_exact (text : CStr) (min max out : Int64) :
    ((parseIntRangeInto (some text) min max (some out)).1 = true ↔
      ∃ value, WritesInteger text.val value ∧ min.toInt ≤ value ∧ value ≤ max.toInt) ∧
    (∀ value, WritesInteger text.val value → min.toInt ≤ value → value ≤ max.toInt →
      ∃ stored : Int64, stored.toInt = value ∧
        parseIntRangeInto (some text) min max (some out) = (true, some stored)) ∧
    ((parseIntRangeInto (some text) min max (some out)).1 = false →
      (parseIntRangeInto (some text) min max (some out)).2 = some out) := by
  refine ⟨⟨parseIntRangeInto_accepted, ?_⟩, ?_, parseIntRangeInto_rejected⟩
  · rintro ⟨value, hwrites, hlow, hhigh⟩
    rw [parseIntRangeInto_true hwrites hlow hhigh]
  · intro value hwrites hlow hhigh
    exact ⟨toLong value, toInt_toLong_of_between hlow hhigh,
      parseIntRangeInto_true hwrites hlow hhigh out⟩

end ToxRelayer
