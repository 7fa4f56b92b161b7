-- The lines of a document as pieces of its text. The index of line starts, the texts of
-- lines and the line of an offset are all told by cutting the text behind each
-- delimiter, from left to right and the longest delimiter first.
import Mathlib.Algebra.BigOperators.Group.List.Basic
import Mathlib.Data.List.Infix
import RegionScan.VersionedText
import RegionScan.Proofs.Lines

namespace RegionScan

/-! ## Cutting a text behind its delimiters -/

/-- The delimiter that a text starts with. A longer one goes before a shorter one. -/
def delimiterAt? (text : Text) : Option Text :=
  (lineDelimiters.map String.toList).find? (·.isPrefixOf text)

/-- The text up to the end of its first delimiter, and the rest; none without a delimiter. -/
def firstPiece? : Text → Option (Text × Text)
  | [] => none
  | c :: rest =>
    match delimiterAt? (c :: rest) with
    | some delimiter => some (delimiter, (c :: rest).drop delimiter.length)
    | none => (firstPiece? rest).map fun (piece, behind) => (c :: piece, behind)

/-- Whether a text holds a delimiter anywhere. -/
def Delimited (text : Text) : Prop := ∃ delimiter ∈ lineDelimiters, delimiter.toList <:+: text

/-- A text starts with both delimiters in a row, with one that ends its line, or with none. -/
theorem delimiterAt?_cases (c : Char) (rest : Text) :
    (∃ behind, c = '\r' ∧ rest = '\n' :: behind ∧
      delimiterAt? (c :: rest) = some ['\r', '\n']) ∨
    (endsLine c rest.head? = true ∧ delimiterAt? (c :: rest) = some [c]) ∨
    ((c ≠ '\n' ∧ c ≠ '\r') ∧ delimiterAt? (c :: rest) = none) := by
  by_cases hfeed : c = '\n'
  · right
    left
    subst hfeed
    simp [endsLine, delimiterAt?, lineDelimiters]
  · by_cases hreturn : c = '\r'
    · subst hreturn
      rcases rest with _ | ⟨next, behind⟩
      · right
        left
        simp [endsLine, delimiterAt?, lineDelimiters]
      · by_cases hnext : next = '\n'
        · subst hnext
          exact Or.inl ⟨behind, rfl, rfl, by simp [delimiterAt?, lineDelimiters]⟩
        · right
          left
          simp [endsLine, delimiterAt?, lineDelimiters, hnext, Ne.symm hnext]
    · right
      right
      exact ⟨⟨hfeed, hreturn⟩,
        by simp [delimiterAt?, lineDelimiters, Ne.symm hfeed, Ne.symm hreturn]⟩

/-- A text without a delimiter has neither of the characters that end lines. -/
theorem delimited_iff {text : Text} : Delimited text ↔ '\n' ∈ text ∨ '\r' ∈ text := by
  constructor
  · rintro ⟨delimiter, hmem, hinside⟩
    have hsubset := hinside.subset
    simp only [lineDelimiters, List.mem_cons, List.not_mem_nil, or_false] at hmem
    rcases hmem with rfl | rfl | rfl
    · exact Or.inl (hsubset (by simp))
    · exact Or.inl (hsubset (by simp))
    · exact Or.inr (hsubset (by simp))
  · rintro (hmem | hmem)
    · exact ⟨"\n", by simp [lineDelimiters], by simpa using (List.singleton_infix_iff _ _).mpr hmem⟩
    · exact ⟨"\r", by simp [lineDelimiters], by simpa using (List.singleton_infix_iff _ _).mpr hmem⟩

/-- Without a first piece there is no delimiter, and no line starts behind the first one. -/
theorem firstPiece?_eq_none {text : Text} (h : firstPiece? text = none) :
    ¬ Delimited text ∧ ∀ here, laterStarts here text = [] := by
  rw [delimited_iff]
  induction text with
  | nil => exact ⟨by simp, fun _ => rfl⟩
  | cons c rest ih =>
    unfold firstPiece? at h
    rcases delimiterAt?_cases c rest with ⟨behind, -, -, hpair⟩ | ⟨-, hone⟩ | ⟨hplain, hnone⟩
    · simp [hpair] at h
    · simp [hone] at h
    · simp only [hnone, Option.map_eq_none_iff] at h
      obtain ⟨hrest, hstarts⟩ := ih h
      have hends : endsLine c rest.head? = false := by simp [endsLine, hplain.1, hplain.2]
      refine ⟨?_, fun here => by simp [laterStarts, hends, hstarts]⟩
      simp only [List.mem_cons, Ne.symm hplain.1, Ne.symm hplain.2, false_or]
      exact hrest

/-- The first piece closes with a delimiter, and the second line starts right behind it. -/
theorem firstPiece?_eq_some {text piece behind : Text}
    (h : firstPiece? text = some (piece, behind)) :
    text = piece ++ behind ∧ (∃ delimiter ∈ lineDelimiters, delimiter.toList <:+ piece) ∧
      ∀ here, laterStarts here text =
        (here + piece.length) :: laterStarts (here + piece.length) behind := by
  induction text generalizing piece with
  | nil => simp [firstPiece?] at h
  | cons c rest ih =>
    unfold firstPiece? at h
    rcases delimiterAt?_cases c rest with ⟨after, rfl, rfl, hpair⟩ | ⟨hends, hone⟩ |
      ⟨hplain, hnone⟩
    · simp only [hpair, Option.some.injEq, Prod.mk.injEq] at h
      obtain ⟨rfl, rfl⟩ := h
      refine ⟨rfl, ⟨"\r\n", by simp [lineDelimiters], by simp⟩, fun here => ?_⟩
      simp [laterStarts, endsLine]
    · simp only [hone, Option.some.injEq, Prod.mk.injEq] at h
      obtain ⟨rfl, rfl⟩ := h
      refine ⟨rfl, ?_, fun here => by simp [laterStarts, hends]⟩
      rcases endsLine_char hends with rfl | rfl
      · exact ⟨"\n", by simp [lineDelimiters], by simp⟩
      · exact ⟨"\r", by simp [lineDelimiters], by simp⟩
    · simp only [hnone, Option.map_eq_some_iff, Prod.mk.injEq, Prod.exists] at h
      obtain ⟨inner, after, hinner, rfl, rfl⟩ := h
      obtain ⟨rfl, ⟨delimiter, hmem, hcloses⟩, hstarts⟩ := ih hinner
      have hends : endsLine c (inner ++ after).head? = false := by
        simp [endsLine, hplain.1, hplain.2]
      refine ⟨rfl, ⟨delimiter, hmem, hcloses.trans (List.suffix_cons _ _)⟩, fun here => ?_⟩
      rw [laterStarts, hends, if_neg Bool.false_ne_true, hstarts, List.length_cons,
        show here + 1 + inner.length = here + (inner.length + 1) by omega]

/-- What follows on the first piece is shorter. -/
theorem firstPiece?_shortens {text piece behind : Text}
    (h : firstPiece? text = some (piece, behind)) : behind.length < text.length := by
  obtain ⟨rfl, ⟨delimiter, hmem, hcloses⟩, -⟩ := firstPiece?_eq_some h
  have hle := hcloses.length_le
  have hpos : 0 < delimiter.toList.length := by
    simp only [lineDelimiters, List.mem_cons, List.not_mem_nil, or_false] at hmem
    rcases hmem with rfl | rfl | rfl <;> simp
  rw [List.length_append]
  omega

/-- A text cut behind each of its delimiters, from left to right. -/
def linePieces (text : Text) : List Text :=
  match h : firstPiece? text with
  | none => [text]
  | some (piece, behind) =>
    have := firstPiece?_shortens h
    piece :: linePieces behind
termination_by text.length

/-! ## Lines are pieces -/

theorem linePieces_of_none {text : Text} (h : firstPiece? text = none) :
    linePieces text = [text] := by
  unfold linePieces
  split
  · rfl
  · simp_all

theorem linePieces_of_some {text piece behind : Text}
    (h : firstPiece? text = some (piece, behind)) :
    linePieces text = piece :: linePieces behind := by
  rw [linePieces]
  split
  · simp_all
  · simp_all

/-- Put together again, the pieces are the text. -/
theorem linePieces_flatten (text : Text) : (linePieces text).flatten = text := by
  induction text using linePieces.induct with
  | case1 text h => simp [linePieces_of_none h]
  | case2 text piece behind h _ ih =>
    rw [linePieces_of_some h, List.flatten_cons, ih, (firstPiece?_eq_some h).1]

/-- There is always a last piece, and it is the only one without a delimiter. -/
theorem linePieces_delimited {text piece : Text} {line : Nat}
    (h : (linePieces text)[line]? = some piece) :
    (line + 1 < (linePieces text).length → ∃ delimiter ∈ lineDelimiters,
      delimiter.toList <:+ piece) ∧
    (line + 1 = (linePieces text).length → ¬ Delimited piece) := by
  induction text using linePieces.induct generalizing line with
  | case1 text hnone =>
    rw [linePieces_of_none hnone] at h ⊢
    obtain ⟨rfl, rfl⟩ : line = 0 ∧ text = piece := by
      rcases line with _ | line <;> simp_all
    exact ⟨by simp, fun _ => (firstPiece?_eq_none hnone).1⟩
  | case2 text first behind hsome _ ih =>
    rw [linePieces_of_some hsome] at h ⊢
    rcases line with _ | line
    · obtain rfl : first = piece := by simpa using h
      refine ⟨fun _ => (firstPiece?_eq_some hsome).2.1, fun hlast => ?_⟩
      -- Behind a delimiter there is one more piece, even if it is empty.
      have hmore : linePieces behind ≠ [] := by
        unfold linePieces
        split <;> simp
      simp [hmore] at hlast
    · have hrest : (linePieces behind)[line]? = some piece := by simpa using h
      simpa using ih hrest

/-- A line starts behind all pieces before its own. -/
theorem lineStarts_getElem? (text : Text) (line : Nat) :
    (lineStarts text)[line]? =
      if line < (linePieces text).length then some ((linePieces text).take line).flatten.length
      else none := by
  have hfrom : ∀ here, (here :: laterStarts here text)[line]? =
      if line < (linePieces text).length then
        some (here + ((linePieces text).take line).flatten.length) else none := by
    induction text using linePieces.induct generalizing line with
    | case1 text hnone =>
      intro here
      rw [linePieces_of_none hnone, (firstPiece?_eq_none hnone).2]
      rcases line with _ | line <;> simp
    | case2 text first behind hsome _ ih =>
      intro here
      rw [linePieces_of_some hsome, (firstPiece?_eq_some hsome).2.2]
      rcases line with _ | line
      · simp
      · rw [List.getElem?_cons_succ, ih line]
        simp [Nat.add_assoc]
  simpa [lineStarts] using hfrom 0

theorem lineStarts_length (text : Text) :
    (lineStarts text).length = (linePieces text).length := by
  apply Nat.le_antisymm
  · apply List.getElem?_eq_none_iff.mp
    simp [lineStarts_getElem?]
  · have hnone := List.getElem?_eq_none (Nat.le_refl (lineStarts text).length)
    rw [lineStarts_getElem?] at hnone
    by_contra hlt
    simp [Nat.lt_of_not_le hlt] at hnone

/-- Behind the pieces before a line there is its own piece, and then all later ones. -/
theorem drop_linePieces {text : Text} {line : Nat} (h : line < (linePieces text).length) :
    text.drop ((linePieces text).take line).flatten.length =
      (linePieces text)[line] ++ ((linePieces text).drop (line + 1)).flatten := by
  have hdrop := List.drop_sum_flatten (linePieces text) line
  rwa [linePieces_flatten, ← List.map_take, ← List.length_flatten, List.drop_eq_getElem_cons h,
    List.flatten_cons] at hdrop

/-- The text from one start to the next is the piece in between. -/
theorem lineBetween_eq (text : Text) (line : Nat) :
    lineBetween text (lineStarts text) line = (linePieces text)[line]? := by
  unfold lineBetween
  rw [lineStarts_getElem?, lineStarts_getElem?]
  by_cases hline : line < (linePieces text).length
  · rw [if_pos hline, Option.map_some, List.getElem?_eq_getElem hline]
    by_cases hnext : line + 1 < (linePieces text).length
    · have hlength : ((linePieces text).take (line + 1)).flatten.length =
          ((linePieces text).take line).flatten.length + (linePieces text)[line].length := by
        rw [← List.take_append_getElem hline, List.flatten_append, List.length_append,
          List.flatten_singleton]
      rw [if_pos hnext]
      dsimp only
      rw [hlength, stretch, drop_linePieces hline, Nat.add_sub_cancel_left, List.take_left]
    · rw [if_neg hnext]
      dsimp only
      rw [drop_linePieces hline, List.drop_eq_nil_of_le (Nat.le_of_not_lt hnext),
        List.flatten_nil, List.append_nil]
  · rw [if_neg hline, Option.map_none, List.getElem?_eq_none (Nat.le_of_not_lt hline)]

/-! ## The law -/

namespace VersionedText

/-- An offset of the document is on the line with the last start that is not behind it. -/
theorem lineOf?_eq_some_iff (doc : VersionedText) {offset line : Nat} :
    doc.lineOf? offset = some line ↔
      offset ≤ doc.length ∧ ∃ start, doc.lineStart? line = some start ∧ start ≤ offset ∧
        (line + 1 = doc.lineCount ∨
          ∃ next, doc.lineStart? (line + 1) = some next ∧ offset < next) := by
  unfold lineOf? lineStart? lineCount length
  constructor
  · intro h
    split at h
    · rename_i hle
      cases h
      obtain ⟨start, hstart, hbefore, hnext⟩ := lineAmong_spec doc.text offset
      refine ⟨hle, start, hstart, hbefore, ?_⟩
      rcases hbehind : (lineStarts doc.text)[lineAmong (lineStarts doc.text) offset + 1]? with
        _ | next
      · have := List.getElem?_eq_none_iff.mp hbehind
        have := (List.getElem?_eq_some_iff.mp hstart).1
        exact Or.inl (by omega)
      · exact Or.inr ⟨next, rfl, hnext next hbehind⟩
    · cases h
  · rintro ⟨hle, start, hstart, hbefore, hnext⟩
    rw [if_pos hle, Option.some.injEq]
    refine lineAmong_eq hstart hbefore fun next hbehind => ?_
    rcases hnext with hlast | ⟨other, hother, hlt⟩
    · have := (List.getElem?_eq_some_iff.mp hbehind).1
      omega
    · rw [hother, Option.some.injEq] at hbehind
      omega

/-- In every document, however it has been edited, the lines are the pieces of its text: there are
as many, their texts are the pieces, and put together they are the whole text. All but the last
close with a delimiter, and the last one has none. A line starts behind all the pieces before its
own, and it holds the offsets from its start up to the start of the next line; the last line holds
the end of the text as well. -/
theorem lines_are_the_pieces_of_the_text (doc : VersionedText) :
    doc.lineCount = (linePieces doc.text).length ∧
    (∀ line, doc.lineText? line = (linePieces doc.text)[line]?) ∧
    (linePieces doc.text).flatten = doc.text ∧
    (∀ line piece, doc.lineText? line = some piece →
      (line + 1 < doc.lineCount → ∃ delimiter ∈ lineDelimiters, delimiter.toList <:+ piece) ∧
      (line + 1 = doc.lineCount → ¬ Delimited piece)) ∧
    (∀ line, doc.lineStart? line =
      if line < doc.lineCount then some ((linePieces doc.text).take line).flatten.length
      else none) ∧
    ∀ offset line, doc.lineOf? offset = some line ↔
      offset ≤ doc.length ∧ ∃ start, doc.lineStart? line = some start ∧ start ≤ offset ∧
        (line + 1 = doc.lineCount ∨
          ∃ next, doc.lineStart? (line + 1) = some next ∧ offset < next) := by
  have hcount : doc.lineCount = (linePieces doc.text).length := lineStarts_length doc.text
  have htext : ∀ line, doc.lineText? line = (linePieces doc.text)[line]? :=
    lineBetween_eq doc.text
  refine ⟨hcount, htext, linePieces_flatten doc.text, ?_, ?_, ?_⟩
  · intro line piece hpiece
    rw [hcount]
    exact linePieces_delimited (htext line ▸ hpiece)
  · intro line
    rw [hcount]
    exact lineStarts_getElem? doc.text line
  · exact fun offset line => doc.lineOf?_eq_some_iff

/-- The text of the tests on delimiters, with both orders of two delimiters that are one line end
only in one of them. -/
example : linePieces ['a', '\r', '\n', 'b', '\n', '\r', 'c'] =
    [['a', '\r', '\n'], ['b', '\n'], ['\r'], ['c']] := by cbv

end VersionedText

end RegionScan
