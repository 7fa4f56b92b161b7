-- The bytes of a line. A column of the line starts at a byte, and a place in the line is exact if
-- it is at a column and at the byte of it. Steps over characters lead from one exact place to
-- another, and steps over bytes, which look at each byte on the way, lead to the same ones.
import RegionScan.Line
import RegionScan.Proofs.Lines

namespace RegionScan

/-! ## Bytes and characters -/

theorem opensChar_of_first {byte : UInt8} (h : byte.IsUTF8FirstByte) : opensChar byte = true := by
  have hmask : ∀ mask lead : UInt8, byte &&& mask = lead → byte &&& 0xC0 = 0x80 →
      lead &&& 0xC0 = 0x80 &&& mask := by
    intro mask lead h1 h2
    rw [← h1, ← h2, UInt8.and_assoc, UInt8.and_assoc, UInt8.and_comm mask]
  simp only [opensChar, bne_iff_ne, ne_eq]
  intro hinside
  rcases h with h | h | h | h <;> exact absurd (hmask _ _ h hinside) (by decide)

theorem opensChar_inside (byte : UInt8) : opensChar (byte &&& 0x3f ||| 0x80) = false := by
  have h : (byte &&& 0x3f ||| 0x80) &&& 0xC0 = 0x80 := by
    rw [← UInt8.toBitVec_inj]
    apply BitVec.eq_of_getLsbD_eq
    intro i hi
    have hcases : i = 0 ∨ i = 1 ∨ i = 2 ∨ i = 3 ∨ i = 4 ∨ i = 5 ∨ i = 6 ∨ i = 7 := by omega
    rcases hcases with rfl | rfl | rfl | rfl | rfl | rfl | rfl | rfl <;> simp
  simp [opensChar, h]

/-- A character is one byte that opens it and bytes inside it. -/
theorem utf8EncodeChar_eq_cons (c : Char) : ∃ first rest,
    String.utf8EncodeChar c = first :: rest ∧ opensChar first = true ∧
      ∀ byte ∈ rest, opensChar byte = false := by
  have hfirst := opensChar_of_first (@UInt8.isUTF8FirstByte_getElem_zero_utf8EncodeChar c)
  rcases c.utf8Size_eq with h | h | h | h
  · have hbytes := String.utf8EncodeChar_eq_singleton h
    simp only [hbytes] at hfirst ⊢
    exact ⟨_, _, rfl, hfirst, by simp⟩
  · have hbytes := String.utf8EncodeChar_eq_cons_cons h
    simp only [hbytes] at hfirst ⊢
    exact ⟨_, _, rfl, hfirst, by simp [opensChar_inside]⟩
  · have hbytes := String.utf8EncodeChar_eq_cons_cons_cons h
    simp only [hbytes] at hfirst ⊢
    exact ⟨_, _, rfl, hfirst, by simp [opensChar_inside]⟩
  · have hbytes := String.utf8EncodeChar_eq_cons_cons_cons_cons h
    simp only [hbytes] at hfirst ⊢
    exact ⟨_, _, rfl, hfirst, by simp [opensChar_inside]⟩

theorem utf8_append (front back : Text) : utf8 (front ++ back) = utf8 front ++ utf8 back :=
  List.flatMap_append

theorem utf8_cons (c : Char) (text : Text) :
    utf8 (c :: text) = String.utf8EncodeChar c ++ utf8 text := rfl

/-- Characters are counted in their bytes. -/
@[simp] theorem charCount_utf8 (text : Text) : charCount (utf8 text) = text.length := by
  induction text with
  | nil => rfl
  | cons c text ih =>
    obtain ⟨first, rest, hbytes, hfirst, hrest⟩ := utf8EncodeChar_eq_cons c
    have hinside : rest.countP opensChar = 0 :=
      List.countP_eq_zero.mpr fun byte hmem => by simp [hrest byte hmem]
    unfold charCount at ih ⊢
    rw [utf8_cons, hbytes, List.countP_append, List.countP_cons, hinside, ih]
    simp [hfirst, Nat.add_comm]

theorem length_le_utf8 (text : Text) : text.length ≤ (utf8 text).length := by
  rw [← charCount_utf8 text]
  exact List.countP_le_length

/-- The last byte of a character ends a line if the character does. -/
theorem getLast?_utf8EncodeChar (c : Char) :
    ((String.utf8EncodeChar c).getLast?.all fun byte => byte != 0x0A && byte != 0x0D) =
      (c != '\n' && c != '\r') := by
  by_cases hsize : c.utf8Size = 1
  · have hbyte : ∀ d : Char, d.toNat ≤ 0x7F → (c.val.toUInt8 == d.val.toUInt8) = (c == d) := by
      intro d hd
      have hc : c.toNat ≤ 0x7F := Char.utf8Size_eq_one_iff.mp hsize
      rw [Bool.eq_iff_iff, beq_iff_eq, beq_iff_eq, ← UInt8.toNat_inj, UInt32.toNat_toUInt8,
        UInt32.toNat_toUInt8, ← Char.toNat_inj]
      show c.toNat % 256 = d.toNat % 256 ↔ _
      omega
    rw [String.utf8EncodeChar_eq_singleton hsize]
    show (!(c.val.toUInt8 == '\n'.val.toUInt8) && !(c.val.toUInt8 == '\r'.val.toUInt8)) = _
    rw [hbyte '\n' (by decide), hbyte '\r' (by decide)]
    rfl
  · -- The last byte is inside the character, and a line end is none such.
    obtain ⟨first, rest, hbytes, -, hrest⟩ := utf8EncodeChar_eq_cons c
    have hlength := String.length_utf8EncodeChar c
    rw [hbytes, List.length_cons] at hlength
    rw [hbytes, List.getLast?_cons, Option.all_some]
    obtain ⟨last, hlast⟩ : ∃ last, rest.getLast? = some last :=
      Option.isSome_iff_exists.mp (by rw [List.getLast?_isSome]; rintro rfl; simp at hlength; omega)
    rw [hlast, Option.getD_some]
    have hclosed := hrest last (List.mem_of_getLast? hlast)
    have hbreak : ∀ d : Char, d.utf8Size = 1 → c ≠ d := by
      rintro d hd rfl
      exact hsize hd
    have hinside : ∀ byte : UInt8, opensChar byte = true → last ≠ byte := by
      rintro byte hopens rfl
      simp [hclosed] at hopens
    rw [bne_iff_ne.mpr (hinside 0x0A (by decide)), bne_iff_ne.mpr (hinside 0x0D (by decide)),
      bne_iff_ne.mpr (hbreak '\n' (by decide)), bne_iff_ne.mpr (hbreak '\r' (by decide))]

/-- The last byte of a text ends a line if its last character does. -/
theorem getLast?_utf8 (text : Text) :
    ((utf8 text).getLast?.all fun byte => byte != 0x0A && byte != 0x0D) =
      text.getLast?.all fun c => c != '\n' && c != '\r' := by
  rcases List.eq_nil_or_concat text with rfl | ⟨front, c, rfl⟩
  · rfl
  · obtain ⟨first, rest, hbytes, -, -⟩ := utf8EncodeChar_eq_cons c
    have hlast := getLast?_utf8EncodeChar c
    have hone : utf8 [c] = first :: rest := (List.append_nil _).trans hbytes
    rw [hbytes, List.getLast?_cons] at hlast
    rw [List.concat_eq_append, utf8_append, hone, List.getLast?_append, List.getLast?_append,
      List.getLast?_cons]
    exact hlast

/-! ## Columns and bytes of a line -/

namespace Line

variable {line : Line} {column length : Nat}

/-- The byte of the line at which its characters from a column on start. -/
def byteAt (line : Line) (column : Nat) : Nat := (utf8 (line.chars.toList.take column)).length

theorem bytes_eq_append (line : Line) (column : Nat) :
    line.bytes = utf8 (line.chars.toList.take column) ++ utf8 (line.chars.toList.drop column) := by
  rw [← utf8_append, List.take_append_drop]
  rfl

theorem take_byteAt (line : Line) (column : Nat) :
    line.bytes.take (line.byteAt column) = utf8 (line.chars.toList.take column) := by
  rw [line.bytes_eq_append column, byteAt, List.take_left]

theorem charCount_take (h : column ≤ line.length) :
    charCount (line.bytes.take (line.byteAt column)) = column := by
  rw [take_byteAt, charCount_utf8, List.length_take, Array.length_toList]
  exact Nat.min_eq_left h

/-- The bytes between two columns are those of the characters between them. -/
theorem charCount_between (h : column + length ≤ line.length) :
    charCount ((line.bytes.take (line.byteAt (column + length))).drop (line.byteAt column)) =
      length := by
  rw [take_byteAt, List.take_add, utf8_append, byteAt, List.drop_left, charCount_utf8,
    List.length_take, List.length_drop, Array.length_toList]
  unfold Line.length at h
  omega

/-- In a line of characters of one byte each, columns and bytes are the same. -/
theorem byteAt_of_narrow (hnarrow : line.bytes.length = line.length) (h : column ≤ line.length) :
    line.byteAt column = column := by
  have hfront := length_le_utf8 (line.chars.toList.take column)
  have hback := length_le_utf8 (line.chars.toList.drop column)
  rw [line.bytes_eq_append column, List.length_append] at hnarrow
  rw [List.length_take, Array.length_toList] at hfront
  rw [List.length_drop, Array.length_toList] at hback
  unfold byteAt Line.length at *
  omega

/-- Around a character of the line. -/
theorem bytes_around (h : column < line.length) : ∃ first rest,
    line.bytes = utf8 (line.chars.toList.take column) ++
      (first :: rest ++ utf8 (line.chars.toList.drop (column + 1))) ∧
    line.byteAt (column + 1) = line.byteAt column + 1 + rest.length ∧
    opensChar first = true ∧ ∀ byte ∈ rest, opensChar byte = false := by
  have hlt : column < line.chars.toList.length := h
  obtain ⟨first, rest, hbytes, hfirst, hrest⟩ := utf8EncodeChar_eq_cons line.chars.toList[column]
  refine ⟨first, rest, ?_, ?_, hfirst, hrest⟩
  · rw [line.bytes_eq_append column, List.drop_eq_getElem_cons hlt, utf8_cons, hbytes]
  · have hone : utf8 [line.chars.toList[column]] = first :: rest := by
      rw [utf8_cons, hbytes]
      exact List.append_nil _
    rw [byteAt, List.take_succ_eq_append_getElem hlt, utf8_append, hone, List.length_append, byteAt,
      List.length_cons]
    omega

/-- One more character takes as many bytes as it has. -/
theorem byteAt_succ {c : Char} (h : line.chars[column]? = some c) :
    line.byteAt (column + 1) = line.byteAt column + c.utf8Size := by
  unfold byteAt
  rw [List.take_add_one, Array.getElem?_toList, h]
  simp [utf8, String.length_utf8EncodeChar]

theorem byteAt_lt_succ (h : column < line.length) :
    line.byteAt column < line.byteAt (column + 1) := by
  obtain ⟨first, rest, -, hnext, -, -⟩ := line.bytes_around h
  omega

theorem byteAt_le (line : Line) (column : Nat) : line.byteAt column ≤ line.bytes.length := by
  rw [line.bytes_eq_append column, List.length_append]
  exact Nat.le_add_right _ _

/-- At the byte of a column a character opens. -/
theorem opens_byteAt (h : column < line.length) :
    line.bytes[line.byteAt column]?.any opensChar := by
  obtain ⟨first, rest, hbytes, -, hfirst, -⟩ := line.bytes_around h
  rw [hbytes, byteAt, List.getElem?_append_right (Nat.le_refl _), Nat.sub_self]
  simpa using hfirst

/-- Where a column starts a character opens, or the line is over. -/
theorem byteAt_boundary (h : column ≤ line.length) :
    line.bytes[line.byteAt column]?.all opensChar := by
  rcases Nat.lt_or_eq_of_le h with hlt | rfl
  · have hopens := opens_byteAt hlt
    rcases hbyte : line.bytes[line.byteAt column]? with _ | byte
    · rfl
    · rwa [hbyte] at hopens
  · have hall : line.byteAt line.length = line.bytes.length := by
      have htake : line.chars.toList.take line.length = line.chars.toList :=
        List.take_of_length_le (Nat.le_of_eq (Array.length_toList))
      rw [byteAt, htake]
      rfl
    rw [hall, List.getElem?_eq_none (Nat.le_refl _)]
    rfl

/-- As `serves`, in the bytes of the line. -/
def servesBytes (line : Line) (offset : Nat) : Bool :=
  decide (line.start ≤ offset) &&
    (decide (offset - line.start < charCount line.bytes) ||
      (offset - line.start == charCount line.bytes &&
        line.bytes.getLast?.all fun byte => byte != 0x0A && byte != 0x0D))

theorem servesBytes_eq (line : Line) (offset : Nat) :
    line.servesBytes offset = line.serves offset := by
  have hcount : charCount line.bytes = line.length := by
    rw [bytes, charCount_utf8, Array.length_toList]
    rfl
  rw [servesBytes, serves, hcount, bytes, getLast?_utf8, Array.getLast?_toList]

/-- The place of a column. -/
def place (line : Line) (column : Nat) : LinePlace := ⟨line, column, line.byteAt column⟩

end Line

/-! ## Places -/

namespace LinePlace

/-- The place is not behind the end of its line. -/
def Inside (place : LinePlace) : Prop := place.column ≤ place.line.length

theorem forward_spec (place : LinePlace) {steps : Nat}
    (h : place.column + steps ≤ place.line.length) :
    (forward steps place).line = place.line ∧
      (forward steps place).column = place.column + steps := by
  induction steps generalizing place with
  | zero => exact ⟨rfl, rfl⟩
  | succ steps ih =>
    have hlt : place.column < place.line.chars.size := by
      unfold Line.length at h
      omega
    have hstep : place.stepForward =
        { place with
          column := place.column + 1
          byte := place.byte + place.line.chars[place.column].utf8Size } := by
      simp [stepForward, hlt]
    obtain ⟨h1, h2⟩ := ih place.stepForward (by rw [hstep]; dsimp only; omega)
    rw [hstep] at h1 h2
    exact ⟨by rw [forward, hstep, h1], by rw [forward, hstep, h2]; dsimp only; omega⟩

theorem back_spec {place : LinePlace} (steps : Nat) (hinside : place.Inside)
    (h : steps ≤ place.column) :
    (back steps place).line = place.line ∧ (back steps place).column = place.column - steps := by
  induction steps generalizing place with
  | zero => exact ⟨rfl, rfl⟩
  | succ steps ih =>
    obtain ⟨column, hcolumn⟩ : ∃ column, place.column = column + 1 :=
      ⟨place.column - 1, by omega⟩
    have hlt : column < place.line.chars.size := by
      unfold Inside Line.length at hinside
      omega
    have hstep : place.stepBack =
        { place with column, byte := place.byte - place.line.chars[column].utf8Size } := by
      simp [stepBack, hcolumn, hlt]
    have hback : place.stepBack.Inside := by
      rw [hstep]
      unfold Inside Line.length at *
      dsimp only
      omega
    obtain ⟨h1, h2⟩ := ih hback
      (by rw [hstep]; dsimp only; omega)
    rw [hstep] at h1 h2
    exact ⟨by rw [back, hstep, h1], by rw [back, hstep, h2]; dsimp only; omega⟩

/-- A place is found from any other one of its line. -/
theorem moveTo_spec {place : LinePlace} {column : Nat} (hinside : place.Inside)
    (h : column ≤ place.line.length) :
    (place.moveTo column).line = place.line ∧ (place.moveTo column).column = column := by
  unfold moveTo
  split
  · obtain ⟨h1, h2⟩ := place.forward_spec
      (show place.column + (column - place.column) ≤ place.line.length by omega)
    exact ⟨h1, by omega⟩
  · obtain ⟨h1, h2⟩ := back_spec (place.column - column) hinside (by omega)
    exact ⟨h1, by omega⟩

/-- The place of an offset is on the same line, as far behind its start as the offset is. -/
theorem at?_spec {place found : LinePlace} {offset : Nat} (hinside : place.Inside)
    (h : place.at? offset = some found) :
    found.line = place.line ∧ found.column = offset - place.line.start ∧ found.Inside := by
  unfold at? at h
  split at h
  · rename_i hin
    simp only [Bool.and_eq_true, decide_eq_true_eq] at hin
    simp only [Option.some.injEq] at h
    subst h
    obtain ⟨h1, h2⟩ := moveTo_spec hinside hin.2
    exact ⟨h1, h2, by unfold Inside; rw [h1, h2]; exact hin.2⟩
  · simp at h

/-- The place is in its line, and its byte is the one at which its column starts. -/
structure Exact (place : LinePlace) : Prop where
  column_le : place.column ≤ place.line.length
  byte_eq : place.byte = place.line.byteAt place.column

variable {place : LinePlace} {column : Nat}

theorem Exact.eq_place (h : place.Exact) : place = place.line.place place.column := by
  rw [Line.place, ← h.byte_eq]

/-- So no byte of a place leaves its line. -/
theorem Exact.byte_le (h : place.Exact) : place.byte ≤ place.line.bytes.length := by
  rw [h.byte_eq]
  exact place.line.byteAt_le place.column

theorem exact_place {line : Line} (h : column ≤ line.length) : (line.place column).Exact := ⟨h, rfl⟩

theorem exact_atStart (line : Line) : (atStart line).Exact := exact_place (Nat.zero_le _)

theorem Exact.stepForward (h : place.Exact) : place.stepForward.Exact := by
  unfold LinePlace.stepForward
  split
  · rename_i c hc
    refine ⟨(Array.getElem?_eq_some_iff.mp hc).1, ?_⟩
    rw [Line.byteAt_succ hc, ← h.byte_eq]
  · exact h

theorem Exact.stepBack (h : place.Exact) : place.stepBack.Exact := by
  unfold LinePlace.stepBack
  split
  · exact h
  · rename_i column hcolumn
    have hle := h.column_le
    have hbyte := h.byte_eq
    rw [hcolumn] at hle hbyte
    split
    · rename_i c hc
      refine ⟨Nat.le_of_succ_le hle, ?_⟩
      rw [Line.byteAt_succ hc] at hbyte
      dsimp only
      omega
    · exact h

theorem Exact.moveTo (h : place.Exact) (column : Nat) : (place.moveTo column).Exact := by
  have hforward : ∀ (steps : Nat) {place : LinePlace}, place.Exact →
      (forward steps place).Exact := by
    intro steps
    induction steps with
    | zero => exact fun h => h
    | succ steps ih => exact fun h => ih h.stepForward
  have hback : ∀ (steps : Nat) {place : LinePlace}, place.Exact → (back steps place).Exact := by
    intro steps
    induction steps with
    | zero => exact fun h => h
    | succ steps ih => exact fun h => ih h.stepBack
  unfold LinePlace.moveTo
  split
  · exact hforward _ h
  · exact hback _ h

theorem Exact.at? {found : LinePlace} {offset : Nat} (h : place.Exact)
    (hat : place.at? offset = some found) : found.Exact := by
  unfold LinePlace.at? at hat
  split at hat
  · cases hat
    exact h.moveTo _
  · cases hat

theorem Exact.stepForward_eq (h : place.Exact) (hlt : place.column < place.line.length) :
    place.stepForward = place.line.place (place.column + 1) := by
  obtain ⟨hline, hcolumn⟩ := @forward_spec place 1 hlt
  have hplace := h.stepForward.eq_place
  rwa [show place.stepForward.line = place.line from hline,
    show place.stepForward.column = place.column + 1 from hcolumn] at hplace

theorem Exact.stepBack_eq (h : place.Exact) (hcolumn : place.column = column + 1) :
    place.stepBack = place.line.place column := by
  obtain ⟨hline, hback⟩ := back_spec 1 h.column_le (by omega)
  have hplace := h.stepBack.eq_place
  rwa [show place.stepBack.line = place.line from hline,
    show place.stepBack.column = column from hback.trans (by omega)] at hplace

/-- Wherever a place is in its line, it moves to the place of a column. -/
theorem Exact.moveTo_eq (h : place.Exact) (hle : column ≤ place.line.length) :
    place.moveTo column = place.line.place column := by
  obtain ⟨hline, hcolumn⟩ := LinePlace.moveTo_spec h.column_le hle
  have hplace := (h.moveTo column).eq_place
  rwa [hline, hcolumn] at hplace

end LinePlace

/-! ## Steps over bytes -/

/-- What a step over the bytes of a line must never do. -/
inductive Misstep where
  /-- Go back from the first byte. -/
  | beforeStart
  /-- Go on from the end of the line, or look at a byte behind it. -/
  | behindEnd
  deriving DecidableEq, Repr

/-- The next byte that opens a character, or the end of the bytes. -/
def openingAfter (bytes : List UInt8) (byte : Nat) : Nat :=
  byte + 1 + ((bytes.drop (byte + 1)).takeWhile fun b => !opensChar b).length

/-- The last byte before another that opens a character. Each byte on the way is looked at. -/
def openingBack (bytes : List UInt8) : Nat → Except Misstep Nat
  | 0 => .error .beforeStart
  | byte + 1 =>
    match bytes[byte]? with
    | some b => if opensChar b then .ok byte else openingBack bytes byte
    | none => .error .behindEnd

/-- The way back ends at the first byte that opens a character. -/
theorem openingBack_eq {bytes : List UInt8} {byte : Nat} {first : UInt8}
    (hfirst : bytes[byte]? = some first) (hopens : opensChar first = true) {count : Nat}
    (hinside : ∀ i < count, ∃ inner, bytes[byte + 1 + i]? = some inner ∧
      opensChar inner = false) : openingBack bytes (byte + 1 + count) = .ok byte := by
  induction count with
  | zero =>
    rw [Nat.add_zero, openingBack, hfirst]
    exact if_pos hopens
  | succ count ih =>
    obtain ⟨inner, hinner, hclosed⟩ := hinside count (Nat.lt_succ_self count)
    rw [← Nat.add_assoc, openingBack, hinner]
    exact (if_neg (by simp [hclosed])).trans
      (ih fun i hi => hinside i (Nat.lt_succ_of_lt hi))

namespace Line

variable {line : Line} {column : Nat}

/-- Going over the bytes inside a character comes to the next one. -/
theorem openingAfter_byteAt (h : column < line.length) :
    openingAfter line.bytes (line.byteAt column) = line.byteAt (column + 1) := by
  obtain ⟨first, rest, hbytes, hnext, -, hrest⟩ := line.bytes_around h
  have hdrop : line.bytes.drop (line.byteAt column + 1) =
      rest ++ utf8 (line.chars.toList.drop (column + 1)) := by
    rw [hbytes, ← List.drop_drop, byteAt, List.drop_left]
    rfl
  -- What comes behind the character is another one, or the end of the line.
  have hbehind : (utf8 (line.chars.toList.drop (column + 1))).takeWhile
      (fun b => !opensChar b) = [] := by
    rcases line.chars.toList.drop (column + 1) with _ | ⟨c, more⟩
    · rfl
    · obtain ⟨lead, inside, hc, hlead, -⟩ := utf8EncodeChar_eq_cons c
      rw [utf8_cons, hc]
      simp [hlead]
  rw [openingAfter, hdrop, List.takeWhile_append_of_pos (by simpa using hrest), hbehind,
    List.append_nil, hnext]

/-- Going back over the bytes inside a character comes to its start. -/
theorem openingBack_byteAt (h : column < line.length) :
    openingBack line.bytes (line.byteAt (column + 1)) = .ok (line.byteAt column) := by
  obtain ⟨first, rest, hbytes, hnext, hfirst, hrest⟩ := line.bytes_around h
  have hat : ∀ i, line.bytes[line.byteAt column + i]? =
      (first :: rest ++ utf8 (line.chars.toList.drop (column + 1)))[i]? := by
    intro i
    rw [hbytes, byteAt, List.getElem?_append_right (Nat.le_add_right _ _), Nat.add_sub_cancel_left]
  have hopening : line.bytes[line.byteAt column]? = some first := hat 0
  rw [hnext]
  apply openingBack_eq hopening hfirst
  intro i hi
  refine ⟨rest[i], ?_, hrest _ (List.getElem_mem hi)⟩
  rw [Nat.add_assoc, hat, Nat.add_comm 1, List.cons_append, List.getElem?_cons_succ,
    List.getElem?_append_left hi, List.getElem?_eq_getElem hi]

end Line

namespace LinePlace

variable {place : LinePlace}

/-- As `stepForward`, over bytes: one on, and all that are inside the character. -/
def byteForward (place : LinePlace) : Except Misstep LinePlace :=
  if place.byte < place.line.bytes.length then
    .ok { place with column := place.column + 1, byte := openingAfter place.line.bytes place.byte }
  else .error .behindEnd

/-- As `stepBack`, over bytes. -/
def byteBack (place : LinePlace) : Except Misstep LinePlace := do
  let byte ← openingBack place.line.bytes place.byte
  match place.column with
  | 0 => .error .beforeStart
  | column + 1 => return { place with column, byte }

/-- Within a line a step on over bytes leads where the step over the character does. -/
theorem Exact.byteForward_eq (h : place.Exact) (hlt : place.column < place.line.length) :
    place.byteForward = .ok place.stepForward := by
  have hin : place.byte < place.line.bytes.length := by
    rw [h.byte_eq]
    exact Nat.lt_of_lt_of_le (Line.byteAt_lt_succ hlt) (place.line.byteAt_le _)
  rw [byteForward, if_pos hin, h.stepForward_eq hlt, h.byte_eq, Line.openingAfter_byteAt hlt]
  rfl

/-- So does a step back. The bytes before a character are as many as the step takes off. -/
theorem Exact.byteBack_eq (h : place.Exact) (hpos : 0 < place.column) :
    place.byteBack = .ok place.stepBack := by
  obtain ⟨column, hcolumn⟩ : ∃ column, place.column = column + 1 :=
    ⟨_, (Nat.sub_add_cancel hpos).symm⟩
  have hle := h.column_le
  have hback : openingBack place.line.bytes place.byte = .ok (place.line.byteAt column) := by
    rw [h.byte_eq, hcolumn]
    exact Line.openingBack_byteAt (by omega)
  rw [byteBack, hback, hcolumn, h.stepBack_eq hcolumn]
  rfl

end LinePlace

end RegionScan
