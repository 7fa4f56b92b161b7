-- Documents that stand for a text. What such a document answers is true of the
-- text, and it may refuse anything. A text document refuses nothing in range,
-- and one with holes refuses just what touches a hole.
import RegionScan.Document
import RegionScan.Proofs.Lines

namespace RegionScan

/-! ## Documents over a text -/

/-- The line of an offset, put together from the lookups that a scan makes for it. -/
def Document.lineHolding? (doc : Document) (offset : Nat) : Except LookupError Line := do
  let number ← doc.lineOf offset
  let start ← doc.lineStart number
  let chars ← doc.lineText number
  return ⟨chars.toArray, number, start⟩

/-- Every answer of the document is the one that the text gives. -/
structure Document.Over (doc : Document) (text : Text) : Prop where
  length_eq : doc.length = text.length
  slice_eq : ∀ {offset count part}, doc.slice offset count = .ok part →
    offset + count ≤ text.length ∧ part = stretch text offset count
  line_eq : ∀ {offset line}, doc.lineHolding? offset = .ok line →
    offset ≤ text.length ∧ line = lineAt text offset

/-- Two lookups in a row succeed if both do. -/
theorem bind_eq_ok {α β : Type} {first : Except LookupError α} {next : α → Except LookupError β}
    {found : β} : (first >>= next) = .ok found ↔ ∃ a, first = .ok a ∧ next a = .ok found := by
  rcases first with _ | a <;> simp [bind, Except.bind]

theorem Document.lineHolding?_eq_ok {doc : Document} {offset : Nat} {line : Line} :
    doc.lineHolding? offset = .ok line ↔
      ∃ number, doc.lineOf offset = .ok number ∧ ∃ start, doc.lineStart number = .ok start ∧
        ∃ chars, doc.lineText number = .ok chars ∧ ⟨chars.toArray, number, start⟩ = line := by
  simp only [lineHolding?, bind_eq_ok, pure, Except.pure, Except.ok.injEq]

theorem Document.lineSpan_eq_ok {doc : Document} {line start count : Nat} :
    doc.lineSpan line = .ok (start, count) ↔
      doc.lineStart line = .ok start ∧
        ∃ stop, (if line + 1 < doc.lineCount then doc.lineStart (line + 1) else .ok doc.length) =
          .ok stop ∧ count = stop - start := by
  unfold lineSpan
  by_cases hnext : line + 1 < doc.lineCount
  · simp only [hnext, if_true, bind_eq_ok, pure, Except.pure, Except.ok.injEq, Prod.mk.injEq]
    constructor
    · rintro ⟨first, hfirst, stop, hstop, rfl, rfl⟩
      exact ⟨hfirst, stop, hstop, rfl⟩
    · rintro ⟨hfirst, stop, hstop, rfl⟩
      exact ⟨start, hfirst, stop, hstop, rfl, rfl⟩
  · simp only [hnext, if_false, bind_eq_ok, pure, Except.pure, Except.ok.injEq, Prod.mk.injEq]
    constructor
    · rintro ⟨first, hfirst, stop, hstop, rfl, rfl⟩
      exact ⟨hfirst, stop, hstop, rfl⟩
    · rintro ⟨hfirst, stop, hstop, rfl⟩
      exact ⟨start, hfirst, stop, hstop, rfl, rfl⟩

/-! ## Text documents -/

namespace VersionedText

variable {doc : VersionedText} {offset count : Nat}

theorem toDocument_slice {part : Text} :
    doc.toDocument.slice offset count = .ok part ↔
      offset + count ≤ doc.text.length ∧ part = stretch doc.text offset count := by
  by_cases h : offset + count ≤ doc.text.length <;> simp [toDocument, h, eq_comm]

theorem toDocument_lineOf {number : Nat} :
    doc.toDocument.lineOf offset = .ok number ↔
      offset ≤ doc.text.length ∧ number = lineAmong (lineStarts doc.text) offset := by
  by_cases h : offset ≤ doc.text.length <;> simp [toDocument, h, eq_comm]

theorem toDocument_lineStart {line start : Nat} :
    doc.toDocument.lineStart line = .ok start ↔ (lineStarts doc.text)[line]? = some start := by
  simp only [toDocument]
  rcases (lineStarts doc.text)[line]? with _ | found <;> simp

theorem toDocument_lineText {line : Nat} {chars : Text} :
    doc.toDocument.lineText line = .ok chars ↔
      lineBetween doc.text (lineStarts doc.text) line = some chars := by
  simp only [toDocument, Document.lineText, Option.getD_some]
  rcases lineBetween doc.text (lineStarts doc.text) line with _ | found <;> simp

/-- A text document finds the line of every offset up to its end. -/
theorem toDocument_lineHolding? (h : offset ≤ doc.text.length) :
    doc.toDocument.lineHolding? offset = .ok (lineAt doc.text offset) := by
  obtain ⟨hstart, hchars⟩ := lineAt_lookup doc.text offset
  exact Document.lineHolding?_eq_ok.mpr ⟨_, toDocument_lineOf.mpr ⟨h, rfl⟩,
    _, toDocument_lineStart.mpr hstart, _, toDocument_lineText.mpr hchars, rfl⟩

theorem toDocument_over (doc : VersionedText) : doc.toDocument.Over doc.text where
  length_eq := rfl
  slice_eq := fun h => toDocument_slice.mp h
  line_eq := by
    intro offset line h
    obtain ⟨number, hnumber, _⟩ := Document.lineHolding?_eq_ok.mp h
    have hle := (toDocument_lineOf.mp hnumber).1
    rw [toDocument_lineHolding? hle] at h
    exact ⟨hle, by simpa using h.symm⟩

end VersionedText

/-! ## Documents that hold answers back -/

/-- The document answers each lookup as another one does, or refuses it. -/
structure Document.Thins (document whole : Document) : Prop where
  length_eq : document.length = whole.length
  lineCount_eq : document.lineCount = whole.lineCount
  slice : ∀ {offset count part},
    document.slice offset count = .ok part → whole.slice offset count = .ok part
  lineOf : ∀ {offset number}, document.lineOf offset = .ok number → whole.lineOf offset = .ok number
  lineStart : ∀ {line start},
    document.lineStart line = .ok start → whole.lineStart line = .ok start
  ownLineText : ∀ {own}, document.ownLineText = some own →
    ∀ {line chars}, own line = .ok chars → whole.lineText line = .ok chars

namespace Document.Thins

variable {document : Document} {doc : VersionedText} {offset : Nat}

/-- The text of a line is sliced from its start up to the start of the next line. -/
theorem lineSpan_eq {start count : Nat} (h : document.Thins doc.toDocument)
    (hspan : document.lineSpan (lineAt doc.text offset).number = .ok (start, count)) :
    start = (lineAt doc.text offset).start ∧ count = (lineAt doc.text offset).length := by
  obtain ⟨hstart, stop, hstop, rfl⟩ := Document.lineSpan_eq_ok.mp hspan
  have hlookup := VersionedText.toDocument_lineStart.mp (h.lineStart hstart)
  rw [(lineAt_lookup doc.text offset).1, Option.some.injEq] at hlookup
  have hend := lineAt_stop doc.text offset
  refine ⟨hlookup.symm, ?_⟩
  -- The line ends where the next one starts, or with the text.
  split at hstop
  · rw [VersionedText.toDocument_lineStart.mp (h.lineStart hstop), Option.getD_some] at hend
    omega
  · rename_i hlast
    rw [h.lineCount_eq] at hlast
    rw [List.getElem?_eq_none (Nat.le_of_not_lt hlast), Option.getD_none] at hend
    simp only [Except.ok.injEq, h.length_eq, VersionedText.toDocument] at hstop
    omega

theorem lineText_eq {chars : Text} (h : document.Thins doc.toDocument)
    (hchars : document.lineText (lineAt doc.text offset).number = .ok chars) :
    chars = (lineAt doc.text offset).chars.toList := by
  unfold Document.lineText at hchars
  rcases hown : document.ownLineText with _ | own
  · rw [hown, Option.getD_none] at hchars
    obtain ⟨⟨first, count⟩, hspan, hslice⟩ := bind_eq_ok.mp hchars
    obtain ⟨rfl, rfl⟩ := h.lineSpan_eq hspan
    rw [lineAt_chars]
    exact (VersionedText.toDocument_slice.mp (h.slice hslice)).2
  · rw [hown, Option.getD_some] at hchars
    have hlookup := VersionedText.toDocument_lineText.mp (h.ownLineText hown hchars)
    rw [(lineAt_lookup doc.text offset).2, Option.some.injEq] at hlookup
    exact hlookup.symm

/-- What such a document over a text answers is true of the text. -/
theorem over_text (h : document.Thins doc.toDocument) : document.Over doc.text where
  length_eq := h.length_eq
  slice_eq := fun hslice => VersionedText.toDocument_slice.mp (h.slice hslice)
  line_eq := by
    intro offset line hline
    obtain ⟨number, hnumber, start, hstart, chars, hchars, rfl⟩ :=
      Document.lineHolding?_eq_ok.mp hline
    obtain ⟨hle, rfl⟩ := VersionedText.toDocument_lineOf.mp (h.lineOf hnumber)
    rw [← lineAt_number] at hstart hchars ⊢
    have hlookup := VersionedText.toDocument_lineStart.mp (h.lineStart hstart)
    rw [(lineAt_lookup doc.text offset).1, Option.some.injEq] at hlookup
    refine ⟨hle, ?_⟩
    rw [← hlookup, h.lineText_eq hchars]

end Document.Thins

/-! ## Documents that lose characters -/

/-- The document answers as another one does, but it refuses the slices that a lost character is
in, and it takes the texts of lines from slices. -/
structure Document.Loses (document whole : Document) (lost : Nat → Prop) : Prop where
  length_eq : document.length = whole.length
  lineCount_eq : document.lineCount = whole.lineCount
  lineOf_eq : document.lineOf = whole.lineOf
  lineStart_eq : document.lineStart = whole.lineStart
  ownLineText_eq : document.ownLineText = none
  slice_iff : ∀ {offset count part}, document.slice offset count = .ok part ↔
    (∀ o, lost o → offset ≤ o → offset + count ≤ o) ∧ whole.slice offset count = .ok part

namespace Document.Loses

variable {document : Document} {doc : VersionedText} {lost : Nat → Prop} {offset : Nat}

theorem thins {whole : Document} (h : document.Loses whole lost) : document.Thins whole where
  length_eq := h.length_eq
  lineCount_eq := h.lineCount_eq
  slice := fun hslice => (h.slice_iff.mp hslice).2
  lineOf := fun hnumber => h.lineOf_eq ▸ hnumber
  lineStart := fun hstart => h.lineStart_eq ▸ hstart
  ownLineText := fun hown => by cases h.ownLineText_eq.symm.trans hown

/-- A line is there if no character of it is lost. -/
theorem lineHolding?_iff (h : document.Loses doc.toDocument lost) (hle : offset ≤ doc.text.length) :
    document.lineHolding? offset = .ok (lineAt doc.text offset) ↔
      ∀ o, lost o → (lineAt doc.text offset).start ≤ o →
        (lineAt doc.text offset).start + (lineAt doc.text offset).length ≤ o := by
  have hlookup := (lineAt_lookup doc.text offset).1
  have hstart : document.lineStart (lineAt doc.text offset).number =
      .ok (lineAt doc.text offset).start := by
    rw [h.lineStart_eq]
    exact VersionedText.toDocument_lineStart.mpr hlookup
  have hnumber : document.lineOf offset = .ok (lineAt doc.text offset).number := by
    rw [h.lineOf_eq]
    exact VersionedText.toDocument_lineOf.mpr ⟨hle, rfl⟩
  obtain ⟨stop, hstop⟩ : ∃ stop, (if (lineAt doc.text offset).number + 1 < document.lineCount then
      document.lineStart ((lineAt doc.text offset).number + 1) else .ok document.length) =
        .ok stop := by
    split
    · rename_i hnext
      rw [h.lineCount_eq] at hnext
      rw [h.lineStart_eq]
      exact ⟨_, VersionedText.toDocument_lineStart.mpr (List.getElem?_eq_getElem hnext)⟩
    · exact ⟨_, rfl⟩
  have hspan := Document.lineSpan_eq_ok.mpr ⟨hstart, stop, hstop, rfl⟩
  rw [(h.thins.lineSpan_eq hspan).2] at hspan
  have htext : ∀ chars, document.lineText (lineAt doc.text offset).number = .ok chars ↔
      document.slice (lineAt doc.text offset).start (lineAt doc.text offset).length =
        .ok chars := by
    intro chars
    rw [Document.lineText, h.ownLineText_eq, Option.getD_none, Document.slicedLineText, hspan]
    rfl
  rw [Document.lineHolding?_eq_ok]
  constructor
  · rintro ⟨number, hfound, _, _, chars, hchars, _⟩
    obtain rfl : (lineAt doc.text offset).number = number :=
      Except.ok.inj (hnumber.symm.trans hfound)
    exact (h.slice_iff.mp ((htext chars).mp hchars)).1
  · intro hfree
    refine ⟨_, hnumber, _, hstart, (lineAt doc.text offset).chars.toList, (htext _).mpr ?_, rfl⟩
    refine h.slice_iff.mpr ⟨hfree, VersionedText.toDocument_slice.mpr ⟨lineAt_stop_le _ _, ?_⟩⟩
    exact lineAt_chars _ _

end Document.Loses

/-! ## Documents with holes -/

namespace PatchyDocument

/-- Whether the character at an offset is in a hole. -/
def Unreadable (doc : PatchyDocument) (offset : Nat) : Prop :=
  ∃ hole ∈ doc.holes, hole.1 ≤ offset ∧ offset < hole.2

variable {doc : PatchyDocument} {offset count : Nat}

theorem touchesHole_iff :
    doc.touchesHole offset count = true ↔
      ∃ o, offset ≤ o ∧ o < offset + count ∧ doc.Unreadable o := by
  simp only [touchesHole, List.any_eq_true, decide_eq_true_eq, Unreadable]
  constructor
  · rintro ⟨hole, hmem, hlt⟩
    exact ⟨max offset hole.1, by omega, by omega, hole, hmem, by omega, by omega⟩
  · rintro ⟨o, h1, h2, hole, hmem, h3, h4⟩
    exact ⟨hole, hmem, by omega⟩

/-- A slice is there if it is in range and no character of it is in a hole. -/
theorem toDocument_slice {part : Text} :
    doc.toDocument.slice offset count = .ok part ↔
      (∀ o, doc.Unreadable o → offset ≤ o → offset + count ≤ o) ∧
        offset + count ≤ doc.inner.text.length ∧ part = stretch doc.inner.text offset count := by
  have htouch : ¬ doc.touchesHole offset count ↔
      ∀ o, doc.Unreadable o → offset ≤ o → offset + count ≤ o := by
    rw [touchesHole_iff]
    constructor
    · intro h o ho hle
      by_cases hlt : o < offset + count
      · exact absurd ⟨o, hle, hlt, ho⟩ h
      · exact Nat.le_of_not_lt hlt
    · rintro h ⟨o, hle, hlt, ho⟩
      have := h o ho hle
      omega
  rw [← htouch, ← VersionedText.toDocument_slice]
  simp only [toDocument]
  split <;> simp_all

theorem toDocument_lineStart {line start : Nat} :
    doc.toDocument.lineStart line = .ok start ↔
      ¬ line ∈ doc.lostLines ∧ (lineStarts doc.inner.text)[line]? = some start := by
  rw [← VersionedText.toDocument_lineStart]
  simp only [toDocument]
  split <;> simp_all

/-- A hole takes answers away and changes none. -/
theorem toDocument_thins (doc : PatchyDocument) (hlength : doc.reportedLength = none) :
    doc.toDocument.Thins doc.inner.toDocument where
  length_eq := by simp [toDocument, hlength]
  lineCount_eq := rfl
  slice := fun h => VersionedText.toDocument_slice.mpr (toDocument_slice.mp h).2
  lineOf := id
  lineStart := fun h => VersionedText.toDocument_lineStart.mpr (toDocument_lineStart.mp h).2
  ownLineText := fun h => by cases h

theorem toDocument_over (doc : PatchyDocument) (hlength : doc.reportedLength = none) :
    doc.toDocument.Over doc.inner.text :=
  (doc.toDocument_thins hlength).over_text

/-- Where no line start is lost, the characters in holes are. -/
theorem toDocument_loses (doc : PatchyDocument) (hlength : doc.reportedLength = none)
    (hlines : doc.lostLines = []) : doc.toDocument.Loses doc.inner.toDocument doc.Unreadable where
  length_eq := (doc.toDocument_thins hlength).length_eq
  lineCount_eq := rfl
  lineOf_eq := rfl
  lineStart_eq := by
    funext line
    simp [toDocument, hlines]
  ownLineText_eq := rfl
  slice_iff := by
    intro offset count part
    rw [toDocument_slice, VersionedText.toDocument_slice]

end PatchyDocument

end RegionScan
