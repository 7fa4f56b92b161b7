-- The lines of a text: where they start, which of them holds an offset, and
-- that they follow one another without a gap. A cursor on a line serves just
-- the offsets that belong to the line.
import RegionScan.Line

namespace RegionScan

/-! ## Line starts -/

theorem endsLine_char {c : Char} {next : Option Char} (h : endsLine c next = true) :
    c = '\n' ∨ c = '\r' := by
  simp only [endsLine, Bool.or_eq_true, Bool.and_eq_true, beq_iff_eq] at h
  rcases h with h | h
  · exact Or.inl h
  · exact Or.inr h.1

/-- A later line starts behind a delimiter of the text. -/
theorem laterStarts_mem {text : Text} {here start : Nat} (h : start ∈ laterStarts here text) :
    here < start ∧ start ≤ here + text.length ∧
      ∃ c, text[start - here - 1]? = some c ∧ (c = '\n' ∨ c = '\r') := by
  induction text generalizing here with
  | nil => simp [laterStarts] at h
  | cons c rest ih =>
    have hrest : start ∈ laterStarts (here + 1) rest →
        here < start ∧ start ≤ here + (c :: rest).length ∧
          ∃ d, (c :: rest)[start - here - 1]? = some d ∧ (d = '\n' ∨ d = '\r') := by
      intro hmem
      obtain ⟨h1, h2, d, hd, hdelim⟩ := ih hmem
      refine ⟨by omega, by simp only [List.length_cons]; omega, d, ?_, hdelim⟩
      rw [show start - here - 1 = (start - (here + 1) - 1) + 1 by omega]
      simpa using hd
    unfold laterStarts at h
    split at h
    · rename_i hends
      rcases List.mem_cons.mp h with h | h
      · subst h
        refine ⟨by omega, by simp, c, by simp, endsLine_char hends⟩
      · exact hrest h
    · exact hrest h

theorem laterStarts_sorted (text : Text) (here : Nat) :
    (laterStarts here text).Pairwise (· < ·) := by
  induction text generalizing here with
  | nil => simp [laterStarts]
  | cons c rest ih =>
    unfold laterStarts
    split
    · exact List.pairwise_cons.mpr ⟨fun s hs => (laterStarts_mem hs).1, ih _⟩
    · exact ih _

theorem lineStarts_sorted (text : Text) : (lineStarts text).Pairwise (· < ·) :=
  List.pairwise_cons.mpr ⟨fun _ hs => (laterStarts_mem hs).1, laterStarts_sorted text 0⟩

theorem lineStarts_le {text : Text} {start : Nat} (h : start ∈ lineStarts text) :
    start ≤ text.length := by
  rcases List.mem_cons.mp h with h | h
  · omega
  · have := (laterStarts_mem h).2.1
    omega

/-- The character before a later line is a delimiter. -/
theorem lineStarts_delimited {text : Text} {line start : Nat}
    (h : (lineStarts text)[line + 1]? = some start) :
    0 < start ∧ ∃ c, text[start - 1]? = some c ∧ (c = '\n' ∨ c = '\r') := by
  have hmem : start ∈ laterStarts 0 text := List.mem_of_getElem? (by simpa [lineStarts] using h)
  obtain ⟨h1, _, c, hc, hdelim⟩ := laterStarts_mem hmem
  exact ⟨h1, c, by simpa using hc, hdelim⟩

theorem sorted_getElem?_lt {starts : List Nat} (hs : starts.Pairwise (· < ·)) {i j a b : Nat}
    (hij : i < j) (hi : starts[i]? = some a) (hj : starts[j]? = some b) : a < b := by
  obtain ⟨hi', rfl⟩ := List.getElem?_eq_some_iff.mp hi
  obtain ⟨hj', rfl⟩ := List.getElem?_eq_some_iff.mp hj
  exact List.pairwise_iff_getElem.mp hs i j hi' hj' hij

/-! ## The line of an offset -/

theorem lt_takeWhile_le_iff {starts : List Nat} (hs : starts.Pairwise (· < ·)) (offset i : Nat) :
    i < (starts.takeWhile (· ≤ offset)).length ↔ ∃ s, starts[i]? = some s ∧ s ≤ offset := by
  induction starts generalizing i with
  | nil => simp
  | cons first rest ih =>
    obtain ⟨hfirst, hrest⟩ := List.pairwise_cons.mp hs
    by_cases hle : first ≤ offset
    · rw [List.takeWhile_cons_of_pos (by simpa using hle)]
      cases i with
      | zero => simp [hle]
      | succ i => simpa using ih hrest i
    · rw [List.takeWhile_cons_of_neg (by simpa using hle)]
      simp only [List.length_nil, Nat.not_lt_zero, false_iff, not_exists, not_and]
      intro s hi
      cases i with
      | zero => simp only [List.getElem?_cons_zero, Option.some.injEq] at hi; omega
      | succ i => have := hfirst s (List.mem_of_getElem? (by simpa using hi)); omega

/-- The line of an offset starts at or before it, and the next line behind it. -/
theorem lineAmong_spec (text : Text) (offset : Nat) :
    ∃ start, (lineStarts text)[lineAmong (lineStarts text) offset]? = some start ∧
      start ≤ offset ∧
      ∀ next, (lineStarts text)[lineAmong (lineStarts text) offset + 1]? = some next →
        offset < next := by
  have hiff := lt_takeWhile_le_iff (lineStarts_sorted text) offset
  have hpos := (hiff 0).mpr ⟨0, rfl, Nat.zero_le _⟩
  obtain ⟨start, hstart, hle⟩ :=
    (hiff (lineAmong (lineStarts text) offset)).mp (by unfold lineAmong; omega)
  refine ⟨start, hstart, hle, ?_⟩
  intro next hnext
  by_cases h : offset < next
  · exact h
  · have := (hiff (lineAmong (lineStarts text) offset + 1)).mpr ⟨next, hnext, Nat.le_of_not_lt h⟩
    unfold lineAmong at this
    omega

/-- Only one line holds an offset. -/
theorem lineAmong_eq {text : Text} {offset line start : Nat}
    (hstart : (lineStarts text)[line]? = some start) (hle : start ≤ offset)
    (hnext : ∀ next, (lineStarts text)[line + 1]? = some next → offset < next) :
    lineAmong (lineStarts text) offset = line := by
  have hiff := lt_takeWhile_le_iff (lineStarts_sorted text) offset
  have h1 := (hiff line).mpr ⟨start, hstart, hle⟩
  have h2 : ¬ line + 1 < ((lineStarts text).takeWhile (· ≤ offset)).length := by
    intro h
    obtain ⟨next, hn, hle'⟩ := (hiff (line + 1)).mp h
    have := hnext next hn
    omega
  unfold lineAmong
  omega

/-- The line of a text that holds an offset. -/
def lineAt (text : Text) (offset : Nat) : Line :=
  let number := lineAmong (lineStarts text) offset
  ⟨((lineBetween text (lineStarts text) number).getD []).toArray, number,
    (lineStarts text).getD number 0⟩

theorem lineAt_number (text : Text) (offset : Nat) :
    (lineAt text offset).number = lineAmong (lineStarts text) offset := rfl

theorem lineAt_congr {text : Text} {a b : Nat}
    (h : lineAmong (lineStarts text) a = lineAmong (lineStarts text) b) :
    lineAt text a = lineAt text b := by
  unfold lineAt
  rw [h]

/-- A line is looked up by its number: its start and its text are those of the line that holds
an offset. -/
theorem lineAt_lookup (text : Text) (offset : Nat) :
    (lineStarts text)[(lineAt text offset).number]? = some (lineAt text offset).start ∧
      lineBetween text (lineStarts text) (lineAt text offset).number =
        some (lineAt text offset).chars.toList := by
  obtain ⟨start, hstart, _, _⟩ := lineAmong_spec text offset
  refine ⟨?_, ?_⟩
  · simp [lineAt, hstart]
  · simp [lineAt, lineBetween, hstart]

theorem lineAt_start_le (text : Text) (offset : Nat) : (lineAt text offset).start ≤ offset := by
  obtain ⟨start, hstart, hle, _⟩ := lineAmong_spec text offset
  simpa [lineAt, hstart] using hle

/-- A line reaches up to the start of the next one, and the last line to the end of the text. -/
theorem lineAt_stop (text : Text) (offset : Nat) :
    (lineAt text offset).start + (lineAt text offset).length =
      ((lineStarts text)[(lineAt text offset).number + 1]?).getD text.length := by
  obtain ⟨start, hstart, _, _⟩ := lineAmong_spec text offset
  have hle := lineStarts_le (List.mem_of_getElem? hstart)
  rcases hnext : (lineStarts text)[lineAmong (lineStarts text) offset + 1]? with _ | next
  · simp [lineAt, Line.length, lineBetween, hstart, hnext]
    omega
  · have h1 := sorted_getElem?_lt (lineStarts_sorted text) (Nat.lt_succ_self _) hstart hnext
    have h2 := lineStarts_le (List.mem_of_getElem? hnext)
    simp [lineAt, Line.length, lineBetween, stretch, hstart, hnext]
    omega

theorem lineAt_stop_le (text : Text) (offset : Nat) :
    (lineAt text offset).start + (lineAt text offset).length ≤ text.length := by
  rw [lineAt_stop]
  rcases hnext : (lineStarts text)[(lineAt text offset).number + 1]? with _ | next
  · simp
  · simpa using lineStarts_le (List.mem_of_getElem? hnext)

theorem le_lineAt_stop {text : Text} {offset : Nat} (h : offset ≤ text.length) :
    offset ≤ (lineAt text offset).start + (lineAt text offset).length := by
  obtain ⟨_, _, _, hnext⟩ := lineAmong_spec text offset
  rw [lineAt_stop, lineAt_number]
  rcases hn : (lineStarts text)[lineAmong (lineStarts text) offset + 1]? with _ | next
  · simpa using h
  · simpa using Nat.le_of_lt (hnext next hn)

/-- The line of a character holds it. -/
theorem lt_lineAt_stop {text : Text} {offset : Nat} (h : offset < text.length) :
    offset < (lineAt text offset).start + (lineAt text offset).length := by
  obtain ⟨_, _, _, hnext⟩ := lineAmong_spec text offset
  rw [lineAt_stop, lineAt_number]
  rcases hn : (lineStarts text)[lineAmong (lineStarts text) offset + 1]? with _ | next
  · simpa using h
  · simpa using hnext next hn

/-- The characters of a line are those of the text from its start on. -/
theorem lineAt_chars (text : Text) (offset : Nat) :
    (lineAt text offset).chars.toList =
      stretch text (lineAt text offset).start (lineAt text offset).length := by
  obtain ⟨start, hstart, _, _⟩ := lineAmong_spec text offset
  rcases hnext : (lineStarts text)[lineAmong (lineStarts text) offset + 1]? with _ | next
  · simp only [lineAt, Line.length, lineBetween, stretch, hstart, hnext, Option.map_some,
      Option.getD_some, List.size_toArray, List.length_drop, List.getD_eq_getElem?_getD]
    rw [List.take_of_length_le (by simp)]
  · simp [lineAt, Line.length, lineBetween, stretch, hstart, hnext]

/-! ## Breaks -/

/-- No line reaches over a break: lines that start before it end before it or at it. -/
def LineBreak (text : Text) (offset : Nat) : Prop :=
  offset ∈ lineStarts text ∨ offset = text.length

/-- The start of a line is on it. -/
theorem lineAt_start (text : Text) (offset : Nat) :
    lineAt text (lineAt text offset).start = lineAt text offset := by
  obtain ⟨_, _, _, hnext⟩ := lineAmong_spec text offset
  have hle := lineAt_start_le text offset
  exact lineAt_congr (lineAmong_eq (lineAt_lookup text offset).1 (Nat.le_refl _)
    fun next h => Nat.lt_of_le_of_lt hle (hnext next h))

/-- Every line starts at a break. -/
theorem lineAt_break (text : Text) (offset : Nat) : LineBreak text (lineAt text offset).start :=
  Or.inl (List.mem_of_getElem? (lineAt_lookup text offset).1)

theorem LineBreak.le {text : Text} {stop : Nat} (h : LineBreak text stop) :
    stop ≤ text.length := by
  rcases h with h | h
  · exact lineStarts_le h
  · omega

theorem LineBreak.stop_le {text : Text} {offset stop : Nat} (h : LineBreak text stop)
    (hlt : offset < stop) :
    (lineAt text offset).start + (lineAt text offset).length ≤ stop := by
  rcases h with h | h
  · obtain ⟨line, hline⟩ := List.getElem?_of_mem h
    obtain ⟨start, hstart, hle, hnext⟩ := lineAmong_spec text offset
    have hsorted := lineStarts_sorted text
    rw [lineAt_stop, lineAt_number]
    -- The break is the start of a later line, so the next line starts at it or before it.
    have hlater : lineAmong (lineStarts text) offset < line := by
      by_cases hlt : lineAmong (lineStarts text) offset < line
      · exact hlt
      · rcases Nat.lt_or_eq_of_le (Nat.le_of_not_lt hlt) with h' | h'
        · have := sorted_getElem?_lt hsorted h' hline hstart
          omega
        · rw [h', hstart, Option.some.injEq] at hline
          omega
    rcases hn : (lineStarts text)[lineAmong (lineStarts text) offset + 1]? with _ | next
    · have h1 := List.getElem?_eq_none_iff.mp hn
      have h2 := (List.getElem?_eq_some_iff.mp hline).1
      omega
    · rcases Nat.lt_or_eq_of_le (Nat.succ_le_of_lt hlater) with h' | h'
      · exact Nat.le_of_lt (sorted_getElem?_lt hsorted h' hn hline)
      · rw [Nat.succ_eq_add_one] at h'
        rw [h', hline, Option.some.injEq] at hn
        simp [hn]
  · exact h ▸ lineAt_stop_le text offset

/-! ## Which lookups a line serves -/

/-- An offset that a line serves lies on that line. -/
theorem lineAt_of_serves {text : Text} {a b : Nat} (h : (lineAt text a).serves b = true) :
    lineAt text b = lineAt text a := by
  simp only [Line.serves, Bool.and_eq_true, decide_eq_true_eq, Bool.or_eq_true, beq_iff_eq] at h
  obtain ⟨hle, hin⟩ := h
  have hstop := lineAt_stop text a
  obtain ⟨start, hstart, _, _⟩ := lineAmong_spec text a
  refine lineAt_congr (lineAmong_eq hstart ?_ ?_)
  · simpa [lineAt, hstart] using hle
  · intro next hnext
    rw [lineAt_number, hnext, Option.getD_some] at hstop
    rcases hin with hin | ⟨hend, hopen⟩
    · omega
    · -- A line that another one follows closes with a delimiter, so its end is not served.
      exfalso
      obtain ⟨hpos, c, hc, hdelim⟩ := lineStarts_delimited hnext
      have hlt := sorted_getElem?_lt (lineStarts_sorted text) (Nat.lt_succ_self _) hstart hnext
      have hstart' : (lineAt text a).start = start := by simp [lineAt, hstart]
      have hback : (lineAt text a).chars.back? = some c := by
        rw [← Array.getLast?_toList, List.getLast?_eq_getElem?, lineAt_chars]
        have hlen : (stretch text (lineAt text a).start (lineAt text a).length).length =
            (lineAt text a).length := by
          rw [← lineAt_chars]
          rfl
        rw [hlen, stretch, List.getElem?_take, if_pos (by omega), List.getElem?_drop,
          show (lineAt text a).start + ((lineAt text a).length - 1) = next - 1 by omega]
        exact hc
      rw [hback] at hopen
      simp only [Option.all_some, Bool.and_eq_true, bne_iff_ne, ne_eq] at hopen
      rcases hdelim with hd | hd
      · exact hopen.1 hd
      · exact hopen.2 hd

end RegionScan
