-- The text of a line, put together from other lookups. A document without line texts of its own
-- finds where the line starts and where the next one does, and slices what is in between.
-- That gives the lines of every document whose lookups answer from one list of lines, and so
-- a text document's own line texts, with the same refusals.
import RegionScan.Proofs.DocumentTexts
import RegionScan.Proofs.LinePieces

namespace RegionScan

/-! ## Lines in a row -/

/-- Where a line starts: behind all lines before it. -/
def lineStartIn (lines : List Text) (number : Nat) : Nat := (lines.take number).flatten.length

theorem lineStartIn_succ {lines : List Text} {number : Nat} {line : Text}
    (h : lines[number]? = some line) :
    lineStartIn lines (number + 1) = lineStartIn lines number + line.length := by
  rw [lineStartIn, List.take_add_one, h]
  simp [lineStartIn]

theorem lineStartIn_mono (lines : List Text) {first second : Nat} (h : first ≤ second) :
    lineStartIn lines first ≤ lineStartIn lines second := by
  obtain ⟨more, rfl⟩ := Nat.le.dest h
  rw [lineStartIn, lineStartIn, List.take_add, List.flatten_append, List.length_append]
  exact Nat.le_add_right _ _

theorem lineStartIn_le (lines : List Text) (number : Nat) :
    lineStartIn lines number ≤ lines.flatten.length := by
  conv => rhs; rw [← List.take_append_drop number lines, List.flatten_append, List.length_append]
  exact Nat.le_add_right _ _

/-- A line is the stretch of the text from its start on that is as long as the line. -/
theorem stretch_lineStartIn {lines : List Text} {number : Nat} {line : Text}
    (h : lines[number]? = some line) :
    stretch lines.flatten (lineStartIn lines number) line.length = line := by
  obtain ⟨hlt, hat⟩ := List.getElem?_eq_some_iff.mp h
  have hsplit : lines.flatten =
      (lines.take number).flatten ++ (line ++ (lines.drop (number + 1)).flatten) := by
    rw [← List.flatten_cons, ← hat, ← List.drop_eq_getElem_cons hlt, ← List.flatten_append,
      List.take_append_drop]
  rw [hsplit, stretch, lineStartIn, List.drop_left, List.take_left]

/-- A line by its number. A number behind the last line is refused. -/
def lineTextIn (lines : List Text) (number : Nat) : Except LookupError Text :=
  match lines[number]? with
  | some line => .ok line
  | none => .error (.lineOutOfRange number lines.length)

/-! ## Documents that answer from lines -/

namespace Document

/-- The document answers from the lines: how many they are, where each starts, and every stretch of
their text. Nothing is said of its own way to the text of a line. -/
structure AnswersFrom (document : Document) (lines : List Text) : Prop where
  length_eq : document.length = lines.flatten.length
  lineCount_eq : document.lineCount = lines.length
  lineStart_eq : ∀ number, document.lineStart number =
    if number < lines.length then .ok (lineStartIn lines number)
    else .error (.lineOutOfRange number lines.length)
  slice_eq : ∀ {offset count}, offset + count ≤ lines.flatten.length →
    document.slice offset count = .ok (stretch lines.flatten offset count)

namespace AnswersFrom

variable {document : Document} {lines : List Text} {number : Nat}

/-- A line reaches up to where the next one starts, and the last one to the end of the text. -/
theorem lineSpan_eq (h : document.AnswersFrom lines) {line : Text}
    (hline : lines[number]? = some line) :
    document.lineSpan number = .ok (lineStartIn lines number, line.length) := by
  have hnumber := (List.getElem?_eq_some_iff.mp hline).1
  have hnext := lineStartIn_succ hline
  refine Document.lineSpan_eq_ok.mpr ⟨?_, lineStartIn lines (number + 1), ?_, by omega⟩
  · rw [h.lineStart_eq, if_pos hnumber]
  · rw [h.lineCount_eq]
    split
    · rename_i hmore
      rw [h.lineStart_eq, if_pos hmore]
    · have hall : number + 1 = lines.length := by omega
      rw [h.length_eq, hall, lineStartIn, List.take_length]

/-- A line behind the last one is refused before the line after it is asked for. -/
theorem lineSpan_refused (h : document.AnswersFrom lines) (hnone : lines[number]? = none) :
    document.lineSpan number = .error (.lineOutOfRange number lines.length) := by
  have hout := List.getElem?_eq_none_iff.mp hnone
  rw [lineSpan, h.lineStart_eq, if_neg (Nat.not_lt.mpr hout)]
  rfl

/-- What is sliced for a number is the line with that number. -/
theorem slicedLineText_eq (h : document.AnswersFrom lines) (number : Nat) :
    document.slicedLineText number = lineTextIn lines number := by
  unfold slicedLineText lineTextIn
  rcases hline : lines[number]? with _ | line
  · rw [h.lineSpan_refused hline]
    rfl
  · rw [h.lineSpan_eq hline]
    show document.slice (lineStartIn lines number) line.length = .ok line
    have hend := lineStartIn_le lines (number + 1)
    rw [lineStartIn_succ hline] at hend
    rw [h.slice_eq hend, stretch_lineStartIn hline]

end AnswersFrom

end Document

/-! ## Text documents -/

namespace VersionedText

/-- A text document answers from the pieces of its text. -/
theorem toDocument_answersFrom (doc : VersionedText) :
    doc.toDocument.AnswersFrom (linePieces doc.text) where
  length_eq := by
    rw [linePieces_flatten]
    rfl
  lineCount_eq := lineStarts_length doc.text
  lineStart_eq := by
    intro number
    simp only [toDocument, lineStarts_getElem?, lineStarts_length]
    split <;> simp_all [lineStartIn]
  slice_eq := by
    intro offset count hle
    rw [linePieces_flatten] at hle ⊢
    exact toDocument_slice.mpr ⟨hle, rfl⟩

/-! ## The law -/

/-- Slicing a text document gives for every number what the document's own line text is, and what
the pieces of its text say: the same text or the same refusal. Slicing goes on to the number of the
line behind only from a line that is there, and so never passes the number of lines. -/
theorem sliced_line_texts_are_the_own_ones (doc : VersionedText) (line : Nat) :
    doc.toDocument.slicedLineText line = doc.toDocument.lineText line ∧
    doc.toDocument.lineText line = lineTextIn (linePieces doc.text) line ∧
    (line + 1 ≤ doc.toDocument.lineCount ∨
      doc.toDocument.lineStart line =
        .error (.lineOutOfRange line doc.toDocument.lineCount)) := by
  have hanswers := doc.toDocument_answersFrom
  have hown : doc.toDocument.lineText line = lineTextIn (linePieces doc.text) line := by
    rcases hpiece : (linePieces doc.text)[line]? with _ | piece <;>
      simp only [toDocument, Document.lineText, Option.getD_some, lineBetween_eq, lineTextIn,
        lineStarts_length, hpiece]
  refine ⟨(hanswers.slicedLineText_eq line).trans hown.symm, hown, ?_⟩
  rw [hanswers.lineCount_eq, hanswers.lineStart_eq]
  split
  · rename_i hlt
    exact Or.inl hlt
  · exact Or.inr rfl

/-- The line texts of the test on slicing, the last of them without a delimiter. -/
example :
    let doc : VersionedText := .ofText "one\r\ntwo\nthree".toList
    [0, 1, 2, 3].map doc.toDocument.slicedLineText =
      [.ok "one\r\n".toList, .ok "two\n".toList, .ok "three".toList,
        .error (.lineOutOfRange 3 3)] := by
  rfl

end VersionedText

end RegionScan
