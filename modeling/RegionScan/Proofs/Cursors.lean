-- Lookups in the bytes of one line, one after another. From wherever the last lookup left it a
-- cursor comes to the next place by steps over bytes, on or back, and in a line of narrow
-- characters without a step. Each lookup finds the byte of its character in whatever order
-- they come, no step leaves the line, and column and byte are one place all the way.
import RegionScan.Proofs.LineBytes

namespace RegionScan

/-! ## Lookups -/

namespace LinePlace

/-- Takes a step a number of times. -/
def stepping (step : LinePlace → Except Misstep LinePlace) : Nat → LinePlace →
    Except Misstep LinePlace
  | 0, place => .ok place
  | count + 1, place => do stepping step count (← step place)

/-- Looks up the byte of an offset, and leaves the cursor there. Without an answer it stays where it
was. A line of as many bytes as characters has its byte in every column. -/
def seekBytes (offset : Nat) : StateT LinePlace (Except Misstep) (Option Nat) := fun place =>
  let column := offset - place.line.start
  if offset < place.line.start ∨ place.line.length < column then .ok (none, place)
  else if place.line.bytes.length = place.line.length then
    .ok (some column, { place with column, byte := column })
  else do
    let ahead ← stepping byteForward (column - place.column) place
    let there ← stepping byteBack (ahead.column - column) ahead
    return (some there.byte, there)

/-- The same by steps over characters, as a scanner looks up places in the line that it keeps. -/
def seek (offset : Nat) : StateM LinePlace (Option Nat) := fun place =>
  match place.at? offset with
  | some found => (some found.byte, found)
  | none => (none, place)

end LinePlace

/-- The byte of an offset: as many as the characters of the line before it have. An offset before
the line, or more than its length behind its start, has none. -/
def Line.byteOf? (line : Line) (offset : Nat) : Option Nat :=
  if offset < line.start ∨ line.length < offset - line.start then none
  else some (line.byteAt (offset - line.start))

namespace LinePlace

variable {place : LinePlace} {count : Nat}

/-! ## Steps over bytes and over characters -/

theorem Exact.stepping_forward (h : place.Exact)
    (hin : place.column + count ≤ place.line.length) :
    stepping byteForward count place = .ok (forward count place) := by
  induction count generalizing place with
  | zero => rfl
  | succ count ih =>
    have hlt : place.column < place.line.length := by omega
    have hnext := h.stepForward_eq hlt
    rw [stepping, h.byteForward_eq hlt]
    refine ih h.stepForward ?_
    rw [hnext]
    show place.column + 1 + count ≤ place.line.length
    omega

theorem Exact.stepping_back (h : place.Exact) (hle : count ≤ place.column) :
    stepping byteBack count place = .ok (back count place) := by
  induction count generalizing place with
  | zero => rfl
  | succ count ih =>
    have hcolumn : place.column = place.column - 1 + 1 := by omega
    rw [stepping, h.byteBack_eq (by omega)]
    refine ih h.stepBack ?_
    rw [h.stepBack_eq hcolumn]
    exact Nat.le_sub_one_of_lt hle

theorem at?_eq_none {offset : Nat}
    (hout : offset < place.line.start ∨ place.line.length < offset - place.line.start) :
    place.at? offset = none :=
  if_neg (by simp only [Bool.and_eq_true, decide_eq_true_eq]; omega)

theorem at?_eq_some {offset : Nat}
    (hin : ¬ (offset < place.line.start ∨ place.line.length < offset - place.line.start)) :
    place.at? offset = some (place.moveTo (offset - place.line.start)) :=
  if_pos (by simp only [Bool.and_eq_true, decide_eq_true_eq]; omega)

/-- From an exact place a lookup over bytes makes no misstep, and it comes to what the lookup over
characters comes to. -/
theorem Exact.seekBytes_eq (h : place.Exact) (offset : Nat) :
    seekBytes offset place = .ok (seek offset place) := by
  unfold seekBytes seek
  dsimp only
  by_cases hout : offset < place.line.start ∨ place.line.length < offset - place.line.start
  · rw [if_pos hout, at?_eq_none hout]
  rw [if_neg hout, at?_eq_some hout]
  have htarget : offset - place.line.start ≤ place.line.length := by omega
  generalize offset - place.line.start = target at htarget
  split
  · rename_i hnarrow
    rw [h.moveTo_eq htarget, Line.place, Line.byteAt_of_narrow hnarrow htarget]
  · have hmove := h.moveTo_eq htarget
    unfold LinePlace.moveTo at hmove ⊢
    rcases Nat.lt_or_ge target place.column with hlt | hle
    · have hback := h.stepping_back (Nat.sub_le place.column target)
      rw [if_neg (Nat.not_le.mpr hlt), Nat.sub_eq_zero_of_le (Nat.le_of_lt hlt), stepping]
      show stepping byteBack (place.column - target) place >>= _ = _
      rw [hback]
      rfl
    · -- The steps on come to the column, and no step back is left.
      have hon := h.stepping_forward (show place.column + (target - place.column) ≤ _ by omega)
      rw [if_pos hle] at hmove ⊢
      rw [hon, hmove]
      show stepping byteBack (target - target) _ >>= _ = _
      rw [Nat.sub_self]
      rfl

/-- A lookup gives the byte of the offset, and it leaves the cursor at an exact place. -/
theorem Exact.seek_eq (h : place.Exact) (offset : Nat) : ∃ next : LinePlace,
    next.Exact ∧ next.line = place.line ∧
      seek offset place = (place.line.byteOf? offset, next) := by
  unfold seek Line.byteOf?
  by_cases hout : offset < place.line.start ∨ place.line.length < offset - place.line.start
  · exact ⟨place, h, rfl, by rw [if_pos hout, at?_eq_none hout]⟩
  · have htarget : offset - place.line.start ≤ place.line.length := by omega
    refine ⟨_, exact_place htarget, rfl, ?_⟩
    rw [if_neg hout, at?_eq_some hout, h.moveTo_eq htarget]
    rfl

/-- So do any number of lookups, in whatever order. -/
theorem Exact.mapM_seek (h : place.Exact) (offsets : List Nat) : ∃ cursor : LinePlace,
    cursor.Exact ∧ cursor.line = place.line ∧
      offsets.mapM seekBytes place = .ok (offsets.map place.line.byteOf?, cursor) ∧
      offsets.mapM seek place = (offsets.map place.line.byteOf?, cursor) := by
  induction offsets generalizing place with
  | nil => exact ⟨place, h, rfl, rfl, rfl⟩
  | cons offset rest ih =>
    obtain ⟨next, hnext, hline, hchars⟩ := h.seek_eq offset
    have hbytes := h.seekBytes_eq offset
    obtain ⟨cursor, hcursor, hline', hrest, hrest'⟩ := ih hnext
    refine ⟨cursor, hcursor, hline'.trans hline, ?_, ?_⟩
    · rw [List.mapM_cons]
      simp only [bind, StateT.bind, hbytes, hchars, Except.bind, hrest, hline]
      rfl
    · rw [List.mapM_cons]
      simp only [bind, StateT.bind, hchars, hrest', hline]
      rfl

end LinePlace

/-! ## The law -/

/-- In whatever order offsets are looked up in a line, a lookup gives no byte just for an offset
before the line or more than its length behind its start, and otherwise as many bytes as the
characters of the line before the offset have. No step on the way goes back from the first byte or
on from the end of the line. The cursor is left, after each lookup as after the last, where a
character opens or the line is over, as many characters behind the start as are in the bytes
before it. Lookups by steps over characters give the same bytes and leave it in the same place. -/
theorem every_lookup_finds_its_byte (line : Line) (offsets : List Nat) :
    ∃ cursor : LinePlace,
      (offsets.mapM LinePlace.seekBytes).run (.atStart line) =
        .ok (offsets.map line.byteOf?, cursor) ∧
      (offsets.mapM LinePlace.seek).run (.atStart line) =
        (offsets.map line.byteOf?, cursor) ∧
      cursor.line = line ∧ cursor.Exact ∧ cursor.byte ≤ line.bytes.length ∧
      charCount (line.bytes.take cursor.byte) = cursor.column ∧
      line.bytes[cursor.byte]?.all opensChar := by
  obtain ⟨cursor, hexact, hline, hbytes, hchars⟩ :=
    (LinePlace.exact_atStart line).mapM_seek offsets
  obtain rfl : cursor.line = line := hline
  refine ⟨cursor, hbytes, hchars, rfl, hexact, hexact.byte_le, ?_, ?_⟩
  · rw [hexact.byte_eq]
    exact Line.charCount_take hexact.column_le
  · rw [hexact.byte_eq]
    exact Line.byteAt_boundary hexact.column_le

/-- The lookups of the test on characters of several bytes, on and back, to the end of the line and
to both sides of it. -/
example : (([12, 11, 14, 10, 13, 15, 9].mapM LinePlace.seekBytes).run
    (.atStart ⟨#['a', '你', 'b', '\n'], 0, 10⟩)).map Prod.fst =
      .ok [some 4, some 1, some 6, some 0, some 5, none, none] := by
  cbv

end RegionScan
