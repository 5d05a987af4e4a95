import ToxRelayer.IniValue

/-!
# Rewriting the settings file

The lines that `ini_puts` copies are counted first and read once more when the
cache is flushed.  The cache always holds the lines that have been read and not
been written yet, so the file that is written has all lines of the old one, with
the entry at one place.
-/

namespace ToxRelayer

open CString TextLines

/-- The lines that have been written, those in the cache and those still to be read. -/
structure Caching (written cached todo : List Bytes) (w : IniRewrite) : Prop where
  out : w.out = written.flatten
  mark : w.mark = (cached ++ todo).flatten
  rest : w.rest = todo.flatten
  cacheLen : w.cacheLen = cached.flatten.length
  fits : w.cacheLen < iniBufferSize
  text : IsText iniBufferSize (cached ++ todo)

/-- The lines of a file whose end has been made ready for another line. -/
inductive Ended : List Bytes → List Bytes → Prop
  | same {lines : List Bytes} (hclosed : ∀ line ∈ lines, Closed iniBufferSize line) :
      Ended lines lines
  | blank {lines : List Bytes} (hclosed : ∀ line ∈ lines, Closed iniBufferSize line) :
      Ended lines (lines ++ [[lf]])
  | lineEnd {before : List Bytes} {line : Bytes}
      (hbefore : ∀ line ∈ before, Closed iniBufferSize line)
      (hclosed : Closed iniBufferSize (line ++ [lf])) :
      Ended (before ++ [line]) (before ++ [line ++ [lf]])

/-- What putting an entry makes of the lines of a file: the lines of the section are those up
to the next heading. -/
inductive IniPut (sect key written : Bytes) : List Bytes → List Bytes → Prop
  | replaced {before within after : List Bytes} {heading line : Bytes}
      (hbefore : ∀ line ∈ before, isSection sect line = false)
      (hheading : isSection sect heading = true)
      (hwithin : ∀ line ∈ within, (namesKey key line || isHeading line) = false)
      (hnames : namesKey key line = true) (hline : isHeading line = false) :
      IniPut sect key written (before ++ heading :: (within ++ line :: after))
        (before ++ heading :: (within ++ written :: after))
  | inserted {before within after : List Bytes} {heading line : Bytes}
      (hbefore : ∀ line ∈ before, isSection sect line = false)
      (hheading : isSection sect heading = true)
      (hwithin : ∀ line ∈ within, (namesKey key line || isHeading line) = false)
      (hline : isHeading line = true) :
      IniPut sect key written (before ++ heading :: (within ++ line :: after))
        (before ++ heading :: (within ++ written :: line :: after))
  | added {before within lines : List Bytes} {heading : Bytes}
      (hbefore : ∀ line ∈ before, isSection sect line = false)
      (hheading : isSection sect heading = true)
      (hwithin : ∀ line ∈ within, (namesKey key line || isHeading line) = false)
      (hended : Ended (before ++ heading :: within) lines) :
      IniPut sect key written (before ++ heading :: within) (lines ++ [written])
  | sectionAdded {lines ended : List Bytes} (hlines : ∀ line ∈ lines, isSection sect line = false)
      (hended : Ended lines ended) :
      IniPut sect key written lines (ended ++ [writeSection sect, written])

/-! ## The cache -/

section

variable {written cached todo before after : List Bytes} {line : Bytes} {w : IniRewrite}

/-- The buffer has what is in front of the lines of the cache, and room for them. -/
theorem cacheFill_lines {buffer : Bytes} (htext : IsText iniBufferSize (cached ++ todo))
    (hfits : buffer.length + cached.flatten.length < iniBufferSize) {rounds : ℕ}
    (hrounds : cached.length < rounds) :
    cacheFill (buffer.length + cached.flatten.length) rounds buffer (cached ++ todo).flatten =
      some (buffer ++ cached.flatten, todo.flatten) := by
  induction cached generalizing buffer rounds with
  | nil =>
      obtain ⟨rounds, rfl⟩ : ∃ fewer, rounds = fewer + 1 := ⟨rounds - 1, by omega⟩
      rw [cacheFill, if_pos (by simp)]
      simp
  | cons line cached ih =>
      rw [List.length_cons] at hrounds
      obtain ⟨rounds, rfl⟩ : ∃ fewer, rounds = fewer + 1 := ⟨rounds - 1, by omega⟩
      have hhead : Piece iniBufferSize line := htext.head
      have hpos := List.length_pos_iff.mpr hhead.nonempty
      rw [List.flatten_cons, List.length_append] at hfits ⊢
      have hread : fgets (iniBufferSize - buffer.length) (line ++ (cached ++ todo).flatten) =
          some (line, (cached ++ todo).flatten) := by
        have hpiece : Piece (iniBufferSize - buffer.length) line :=
          ⟨hhead.nonempty, hhead.oneLine, by omega⟩
        apply fgets_piece hpiece
        cases hrest : cached ++ todo with
        | nil => exact .inl rfl
        | cons next lines =>
            rw [List.cons_append, hrest] at htext
            refine .inr ⟨hpiece, htext.1.ends.imp_right fun hfull => ?_⟩
            omega
      rw [cacheFill, if_neg (by omega), List.cons_append, List.flatten_cons, hread]
      dsimp only
      rw [List.take_of_length_le (by rw [List.length_append]; omega), ← List.append_assoc,
        ← ih htext.tail (by rw [List.length_append]; omega) (by omega : cached.length < rounds)]
      rw [List.length_append, Nat.add_assoc]

theorem Caching.cacheFlush (hw : Caching written cached todo w) :
    ∃ flushed, cacheFlush w = some flushed ∧ Caching (written ++ cached) [] todo flushed.state ∧
      flushed.buffer = cached.flatten ∧
      flushed.endsLine =
        (decide (1 < cached.flatten.length) && cached.flatten.getLast? = some lf) := by
  have hfits := hw.fits
  have hlength := hw.text.left.length_le
  rw [hw.cacheLen] at hfits
  have hroom : ([] : Bytes).length + cached.flatten.length < iniBufferSize := by
    rw [List.length_nil]
    omega
  have hfill := cacheFill_lines hw.text hroom
    (show cached.length < w.cacheLen + 1 by rw [hw.cacheLen]; omega)
  rw [List.length_nil, Nat.zero_add, ← hw.cacheLen, ← hw.mark, List.nil_append] at hfill
  refine ⟨_, by rw [ToxRelayer.cacheFlush, hfill, Option.map_some], ?_, rfl, rfl⟩
  exact ⟨by simp [hw.out], rfl, rfl, rfl, Nat.zero_lt_succ _, hw.text.right⟩

theorem cacheAccum_eq {line : Bytes} {size : ℕ} (hfits : size + line.length < iniBufferSize) :
    cacheAccum line size = some (size + line.length) :=
  if_neg (not_le.mpr hfits)

/-- The line that has been read is the last one in the cache, whether or not the cache had to be
written for it. -/
theorem Caching.cacheLine (hw : Caching written cached (line :: todo) w) :
    ∃ written' cached' w', cacheLine { w with rest := todo.flatten } line = some w' ∧
      Caching written' cached' todo w' ∧ written' ++ cached' = written ++ cached ++ [line] := by
  have hline : Piece iniBufferSize line := hw.text.right.head
  have hmark : cached ++ line :: todo = cached ++ [line] ++ todo := by simp
  by_cases hfits : w.cacheLen + line.length < iniBufferSize
  · refine ⟨written, cached ++ [line], ⟨todo.flatten, w.mark, w.cacheLen + line.length, w.out⟩,
      ?_, ?_, (List.append_assoc _ _ _).symm⟩
    · rw [ToxRelayer.cacheLine, cacheAccum_eq hfits]
    · refine ⟨hw.out, ?_, rfl, ?_, hfits, hmark ▸ hw.text⟩
      · rw [← hmark]
        exact hw.mark
      · simp [hw.cacheLen]
  · obtain ⟨flushed, hflush, hstate, -, -⟩ := hw.cacheFlush
    have hread : fgets iniBufferSize flushed.state.rest = some (line, todo.flatten) := by
      rw [hstate.rest]
      exact hstate.text.fgets
    have hempty : flushed.state.cacheLen = 0 := hstate.cacheLen
    refine ⟨written ++ cached, [line],
      ⟨todo.flatten, flushed.state.mark, line.length, flushed.state.out⟩, ?_, ?_, rfl⟩
    · rw [ToxRelayer.cacheLine, cacheAccum, if_pos (not_lt.mp hfits)]
      dsimp only
      rw [show ToxRelayer.cacheFlush { w with rest := todo.flatten } = some flushed from hflush,
        Option.map_some, hread, Option.getD_some, hempty,
        cacheAccum_eq (by rw [Nat.zero_add]; exact hline.fits),
        Option.getD_some, Nat.zero_add]
    · exact ⟨hstate.out, hstate.mark, rfl, by simp, hline.fits, hstate.text⟩

/-- Copying goes on up to the first line to stop at, which is read but not in the cache. -/
theorem Caching.copyUntil_some {stop : Bytes → Bool}
    (hw : Caching written cached (before ++ line :: after) w)
    (hbefore : ∀ line ∈ before, stop line = false) (hline : stop line = true) {rounds : ℕ}
    (hrounds : before.length < rounds) :
    ∃ written' cached' w', copyUntil stop rounds w =
        some (some line, { w' with rest := after.flatten }) ∧
      Caching written' cached' (line :: after) w' ∧
      written' ++ cached' = written ++ cached ++ before := by
  induction before generalizing written cached w rounds with
  | nil =>
      obtain ⟨rounds, rfl⟩ : ∃ fewer, rounds = fewer + 1 := ⟨rounds - 1, by omega⟩
      rw [List.nil_append] at hw
      refine ⟨written, cached, w, ?_, hw, (List.append_nil _).symm⟩
      rw [copyUntil, hw.rest, hw.text.right.fgets]
      exact if_pos hline
  | cons first before ih =>
      rw [List.length_cons] at hrounds
      obtain ⟨rounds, rfl⟩ : ∃ fewer, rounds = fewer + 1 := ⟨rounds - 1, by omega⟩
      obtain ⟨hfirst, hbefore⟩ := List.forall_mem_cons.mp hbefore
      rw [List.cons_append] at hw
      obtain ⟨written₁, cached₁, w₁, hcache, hw₁, hall₁⟩ := hw.cacheLine
      obtain ⟨written₂, cached₂, w₂, hcopy, hw₂, hall₂⟩ :=
        ih hw₁ hbefore (show before.length < rounds by omega)
      refine ⟨written₂, cached₂, w₂, ?_, hw₂, by rw [hall₂, hall₁]; simp⟩
      rw [copyUntil, hw.rest, hw.text.right.fgets]
      simp only [hfirst, Bool.false_eq_true, if_false]
      rw [hcache, Option.bind_some, hcopy]

theorem Caching.copyUntil_none {stop : Bytes → Bool} (hw : Caching written cached todo w)
    (htodo : ∀ line ∈ todo, stop line = false) {rounds : ℕ} (hrounds : todo.length < rounds) :
    ∃ written' cached' w', copyUntil stop rounds w = some (none, w') ∧
      Caching written' cached' [] w' ∧ written' ++ cached' = written ++ cached ++ todo := by
  induction todo generalizing written cached w rounds with
  | nil =>
      obtain ⟨rounds, rfl⟩ : ∃ fewer, rounds = fewer + 1 := ⟨rounds - 1, by omega⟩
      refine ⟨written, cached, w, ?_, hw, (List.append_nil _).symm⟩
      rw [copyUntil, hw.rest]
      rfl
  | cons first todo ih =>
      rw [List.length_cons] at hrounds
      obtain ⟨rounds, rfl⟩ : ∃ fewer, rounds = fewer + 1 := ⟨rounds - 1, by omega⟩
      obtain ⟨hfirst, htodo⟩ := List.forall_mem_cons.mp htodo
      obtain ⟨written₁, cached₁, w₁, hcache, hw₁, hall₁⟩ := hw.cacheLine
      obtain ⟨written₂, cached₂, w₂, hcopy, hw₂, hall₂⟩ :=
        ih hw₁ htodo (show todo.length < rounds by omega)
      refine ⟨written₂, cached₂, w₂, ?_, hw₂, by rw [hall₂, hall₁]; simp⟩
      rw [copyUntil, hw.rest, hw.text.right.fgets]
      simp only [hfirst, Bool.false_eq_true, if_false]
      rw [hcache, Option.bind_some, hcopy]

/-! ## The end of the file -/

theorem Ended.closed {lines ended : List Bytes} (hended : Ended lines ended) :
    ∀ line ∈ ended, Closed iniBufferSize line := by
  cases hended with
  | same hclosed => exact hclosed
  | blank hclosed =>
      refine List.forall_mem_append.mpr ⟨hclosed, List.forall_mem_singleton.mpr ?_⟩
      exact ⟨⟨List.cons_ne_nil _ _, List.not_mem_nil, by decide⟩, .inl rfl⟩
  | lineEnd hbefore hclosed =>
      exact List.forall_mem_append.mpr ⟨hbefore, List.forall_mem_singleton.mpr hclosed⟩

/-- A text that ends in a line feed needs nothing. -/
theorem ended_of_lf {lines : List Bytes} (htext : IsText iniBufferSize lines)
    (hlf : lines.flatten.getLast? = some lf) : Ended lines lines := by
  apply Ended.same
  rcases lines.eq_nil_or_concat with rfl | ⟨front, last, rfl⟩
  · exact nofun
  · rw [List.concat_eq_append] at htext hlf ⊢
    have hlast : Piece iniBufferSize last := htext.right.head
    refine List.forall_mem_append.mpr ⟨htext.closed, List.forall_mem_singleton.mpr ⟨hlast, ?_⟩⟩
    rw [List.flatten_append, List.flatten_singleton,
      List.getLast?_append_of_ne_nil _ hlast.nonempty] at hlf
    exact .inl hlf

/-- A line feed behind the text ends its last line, or is a line of its own. -/
theorem exists_ended {lines : List Bytes} (htext : IsText iniBufferSize lines) :
    ∃ ended, Ended lines ended ∧ ended.flatten = lines.flatten ++ [lf] := by
  by_cases hall : ∀ line ∈ lines, Closed iniBufferSize line
  · exact ⟨lines ++ [[lf]], .blank hall, by simp⟩
  · rcases lines.eq_nil_or_concat with rfl | ⟨front, last, rfl⟩
    · exact absurd nofun hall
    · rw [List.concat_eq_append] at htext hall ⊢
      have hfront := htext.closed
      have hlast : Piece iniBufferSize last := htext.right.head
      have hopen : ¬ Closed iniBufferSize last := by
        intro hclosed
        exact hall (List.forall_mem_append.mpr ⟨hfront, List.forall_mem_singleton.mpr hclosed⟩)
      refine ⟨front ++ [last ++ [lf]], .lineEnd hfront ?_, by simp⟩
      have hfits := hlast.fits
      have hshort : last.length + 1 ≠ iniBufferSize := fun hfull => hopen ⟨hlast, .inr hfull⟩
      rcases hlast.cases with ⟨text, rfl, -⟩ | hfree
      · exact absurd ⟨hlast, .inl List.getLast?_concat⟩ hopen
      · refine ⟨⟨by simp, by rwa [List.dropLast_concat], ?_⟩, .inl List.getLast?_concat⟩
        rw [List.length_append, List.length_singleton]
        omega

theorem Caching.appendEntry {lines : List Bytes} (hw : Caching written cached [] w)
    (hall : written ++ cached = lines) (htext : IsText iniBufferSize lines) (entry : Bytes) :
    ∃ ended, appendEntry w entry = some (ended.flatten ++ entry) ∧ Ended lines ended := by
  subst hall
  obtain ⟨flushed, hflush, hstate, -, hends⟩ := hw.cacheFlush
  rw [ToxRelayer.appendEntry, hflush, Option.map_some, hstate.out]
  cases hflag : flushed.endsLine with
  | true =>
      rw [hflag, eq_comm, Bool.and_eq_true, decide_eq_true_eq, decide_eq_true_eq] at hends
      refine ⟨written ++ cached, by simp, ended_of_lf htext ?_⟩
      have hcached : cached.flatten ≠ [] := List.ne_nil_of_length_pos (by omega)
      rw [List.flatten_append, List.getLast?_append_of_ne_nil _ hcached]
      exact hends.2
  | false =>
      obtain ⟨ended, hended, hflatten⟩ := exists_ended htext
      exact ⟨ended, by simp [hflatten], hended⟩

/-! ## The entry -/

/-- Without a line to stop at the rest of the file is copied. -/
theorem Caching.copyRest (hw : Caching written cached todo w) :
    ∃ w' flushed, copyUntil (fun _ => false) (w.rest.length + 1) w = some (none, w') ∧
      ToxRelayer.cacheFlush w' = some flushed ∧
      flushed.state.out = (written ++ cached ++ todo).flatten := by
  have hrounds : todo.length < w.rest.length + 1 := by
    rw [hw.rest]
    exact Nat.lt_succ_of_le hw.text.right.length_le
  obtain ⟨written', cached', w', hcopy, hw', hall⟩ := hw.copyUntil_none (fun _ _ => rfl) hrounds
  obtain ⟨flushed, hflush, hstate, -, -⟩ := hw'.cacheFlush
  exact ⟨w', flushed, hcopy, hflush, by rw [hstate.out, hall]⟩

theorem Caching.replaceEntry (hw : Caching written cached (line :: after) w) (entry : Bytes) :
    replaceEntry { w with rest := after.flatten } line entry =
      some ((written ++ cached).flatten ++ entry ++
        (if isHeading line then line :: after else after).flatten) := by
  obtain ⟨flushed, hflush, hstate, -, -⟩ := hw.cacheFlush
  have hread : fgets iniBufferSize flushed.state.rest = some (line, after.flatten) := by
    rw [hstate.rest]
    exact hstate.text.fgets
  have hline : Piece iniBufferSize line := hstate.text.head
  have hempty : flushed.state.cacheLen = 0 := hstate.cacheLen
  have hafter := hstate.text.tail
  have hout : flushed.state.out ++ entry = (written ++ cached ++ [entry]).flatten := by
    rw [hstate.out]
    simp
  rw [ToxRelayer.replaceEntry,
    show ToxRelayer.cacheFlush { w with rest := after.flatten } = some flushed from hflush]
  dsimp only [Option.bind_eq_bind, Option.bind_some]
  rw [hread, Option.getD_some, hempty,
    cacheAccum_eq (by rw [Nat.zero_add]; exact hline.fits : 0 + line.length < iniBufferSize),
    Option.getD_some, Nat.zero_add]
  cases hheading : isHeading line with
  | true =>
      have hcache : Caching (written ++ cached ++ [entry]) [line] after
          ⟨after.flatten, flushed.state.mark, line.length, flushed.state.out ++ entry⟩ :=
        ⟨hout, hstate.mark, rfl, by simp, hline.fits, hstate.text⟩
      obtain ⟨w', filled, hcopy, hflush', hout'⟩ := hcache.copyRest
      simp only [if_true]
      rw [hcopy, Option.bind_some, hflush', Option.bind_some, hout']
      simp
  | false =>
      have hcache : Caching (written ++ cached ++ [entry]) [] after
          ⟨after.flatten, after.flatten, 0, flushed.state.out ++ entry⟩ :=
        ⟨hout, rfl, rfl, rfl, Nat.zero_lt_succ _, hafter⟩
      obtain ⟨w', filled, hcopy, hflush', hout'⟩ := hcache.copyRest
      simp only [Bool.false_eq_true, if_false]
      rw [hcopy, Option.bind_some, hflush', Option.bind_some, hout']
      simp

/-- From the lines of the section on: the entry is put among them, or at the end of the file. -/
theorem Caching.rewriteKey_some {key : Bytes}
    (hw : Caching written cached (before ++ line :: after) w)
    (hbefore : ∀ line ∈ before, (namesKey key line || isHeading line) = false)
    (hline : (namesKey key line || isHeading line) = true) (value : Bytes) :
    rewriteKey key value w = some ((written ++ cached ++ before).flatten ++ writeKey key value ++
      (if isHeading line then line :: after else after).flatten) := by
  obtain ⟨flushed, hflush, hstate, -, -⟩ := hw.cacheFlush
  have hrounds : before.length < flushed.state.rest.length + 1 := by
    have htext : IsText iniBufferSize (before ++ line :: after) := hstate.text
    have hlength := htext.left.length_le
    rw [hstate.rest, List.flatten_append, List.length_append]
    omega
  obtain ⟨written', cached', w', hcopy, hw', hall⟩ :=
    hstate.copyUntil_some hbefore hline hrounds
  rw [ToxRelayer.rewriteKey, hflush]
  dsimp only [Option.bind_eq_bind, Option.bind_some]
  rw [hcopy, Option.bind_some]
  dsimp only
  rw [hw'.replaceEntry, hall]
  simp

theorem Caching.rewriteKey_none {lines : List Bytes} {key : Bytes}
    (hw : Caching written cached todo w) (hall : written ++ cached ++ todo = lines)
    (htext : IsText iniBufferSize lines)
    (htodo : ∀ line ∈ todo, (namesKey key line || isHeading line) = false) (value : Bytes) :
    ∃ ended, rewriteKey key value w = some (ended.flatten ++ writeKey key value) ∧
      Ended lines ended := by
  obtain ⟨flushed, hflush, hstate, -, -⟩ := hw.cacheFlush
  have hrounds : todo.length < flushed.state.rest.length + 1 := by
    rw [hstate.rest]
    exact Nat.lt_succ_of_le hstate.text.length_le
  obtain ⟨written', cached', w', hcopy, hw', hsame⟩ := hstate.copyUntil_none htodo hrounds
  rw [ToxRelayer.rewriteKey, hflush]
  dsimp only [Option.bind_eq_bind, Option.bind_some]
  rw [hcopy]
  exact hw'.appendEntry (by rw [hsame, ← hall]; simp) htext _

end

/-- Rewriting a file always comes to its end, and the new file has the old lines and the entry. -/
theorem iniRewrite_lines {sect : Bytes} (hsect : sect ≠ []) (key value : Bytes)
    {lines : List Bytes} (htext : IsText iniBufferSize lines) :
    ∃ put, iniRewrite sect key value lines.flatten = some put.flatten ∧
      IniPut sect key (writeKey key value) lines put := by
  have hstart : Caching [] [] lines ⟨lines.flatten, lines.flatten, 0, []⟩ :=
    ⟨rfl, rfl, rfl, rfl, Nat.zero_lt_succ _, htext⟩
  have hlength := htext.length_le
  rw [iniRewrite, if_neg hsect]
  rcases exists_first (isSection sect) lines with
    hnone | ⟨before, heading, rest, rfl, hbefore, hheading⟩
  · obtain ⟨written, cached, w, hcopy, hw, hall⟩ :=
      hstart.copyUntil_none hnone (Nat.lt_succ_of_le hlength)
    obtain ⟨ended, happend, hended⟩ :=
      hw.appendEntry hall htext (writeSection sect ++ writeKey key value)
    refine ⟨ended ++ [writeSection sect, writeKey key value], ?_, .sectionAdded hnone hended⟩
    rw [hcopy]
    dsimp only [Option.bind_eq_bind, Option.bind_some]
    rw [happend]
    simp
  · rw [List.length_append] at hlength
    obtain ⟨written, cached, w, hcopy, hw, hall⟩ :=
      hstart.copyUntil_some hbefore hheading (Nat.lt_succ_of_le (Nat.le_of_add_right_le hlength))
    obtain ⟨written', cached', w', hcache, hw', hall'⟩ := hw.cacheLine
    rw [hall, List.nil_append, List.nil_append] at hall'
    rw [hcopy]
    dsimp only [Option.bind_eq_bind, Option.bind_some]
    rw [hcache, Option.bind_some]
    rcases exists_first (fun line => namesKey key line || isHeading line) rest with
      hwithin | ⟨within, line, after, rfl, hwithin, hline⟩
    · obtain ⟨ended, hrewrite, hended⟩ :=
        hw'.rewriteKey_none (by rw [hall', List.append_assoc]; rfl) htext hwithin value
      refine ⟨ended ++ [writeKey key value], ?_, .added hbefore hheading hwithin hended⟩
      rw [hrewrite]
      simp
    · have hrewrite := hw'.rewriteKey_some hwithin hline value
      rw [hall'] at hrewrite
      cases hisHeading : isHeading line with
      | true =>
          rw [hisHeading] at hrewrite
          exact ⟨_, by rw [hrewrite]; simp, .inserted hbefore hheading hwithin hisHeading⟩
      | false =>
          rw [hisHeading, Bool.or_false] at hline
          rw [hisHeading] at hrewrite
          exact ⟨_, by rw [hrewrite]; simp, .replaced hbefore hheading hwithin hline hisHeading⟩

end ToxRelayer
