-- The laws of the window. However a scanner is driven over text documents, its
-- window shows the document that is scanned, and a read gives the character of
-- the document at the mark.
import RegionScan.Proofs.Caches
import RegionScan.Proofs.Calls

namespace RegionScan

/-- A text document, at any version. -/
def IsText (document : Document) : Prop := ∃ doc : VersionedText, document = doc.toDocument

/-! ## Steps over a text -/

namespace Scanner

variable {ρ : Type} {scanner after : Scanner ρ} {doc : VersionedText} {offset length : Nat}

/-- A range of a text is within it, and it fills the window from its start. Nothing of what was
kept of another document stays. -/
theorem assign_text (h : scanner.assign doc.toDocument offset length = .ok () after) :
    after.Current ∧ ∃ tally, after = { scanner with
      document := doc.toDocument
      delimiters := lineDelimiters
      window := scanner.window.showing offset (stretch doc.text offset
        (doc.toDocument.reach scanner.window.capacity offset))
      place := none
      mark := offset
      rangeEnd := offset + length
      tokenStart := offset
      column := none
      tally } := by
  obtain ⟨hrange, rfl⟩ := assign_eq_ok_iff.mp h
  have hle : offset + length ≤ doc.text.length := hrange
  have hserved : doc.toDocument.slice offset
      (doc.toDocument.reach scanner.window.capacity offset) = .ok (stretch doc.text offset
        (doc.toDocument.reach scanner.window.capacity offset)) :=
    VersionedText.toDocument_slice.mpr
      ⟨by show offset + (min _ doc.text.length - _) ≤ _; omega, rfl⟩
  have hreach : scanner.window.reach? doc.toDocument.length offset =
      some (doc.toDocument.reach scanner.window.capacity offset) :=
    if_pos (by show offset ≤ min _ doc.text.length; omega)
  simp only [withRange, refill, hreach, slice, hserved]
  exact ⟨⟨Or.inr hserved, fun _ hplace => by cases hplace⟩, _, rfl⟩

/-- A read over a text gives the character at the mark, up to the end of the range. -/
theorem read_text (hs : scanner.Current) (hdoc : scanner.document = doc.toDocument)
    (hmark : scanner.mark < maxOffset) :
    ∃ cache, read scanner =
        .ok (if scanner.mark < scanner.rangeEnd then doc.text[scanner.mark]? else none)
          ({ scanner with mark := scanner.mark + 1 }.withCache cache) ∧
      ({ scanner with mark := scanner.mark + 1 }.withCache cache).Current ∧
      (scanner.rangeEnd ≤ scanner.mark →
        cache.chars = scanner.window.chars ∧ cache.start = scanner.window.start) := by
  have hover : scanner.document.Over doc.text := hdoc ▸ doc.toDocument_over
  obtain ⟨char, cache, hread, hcurrent, hbehind, hinside⟩ := read_spec hs hover hmark
  refine ⟨cache, ?_, hcurrent, fun hle => (hbehind hle).2⟩
  by_cases hlt : scanner.mark < scanner.rangeEnd
  · have hchar : char = doc.text[scanner.mark]? := by
      rcases hinside hlt with ⟨hfound, _⟩ | ⟨hnone, hwithheld⟩
      · exact hfound
      · -- A text withholds nothing, so a character is missing only behind its end.
        by_cases hout : doc.text.length < scanner.mark
        · rw [hnone, List.getElem?_eq_none (by omega)]
        · rw [hdoc] at hwithheld
          exact absurd (VersionedText.toDocument_slice.mpr
            ⟨by show scanner.mark + (min _ doc.text.length - _) ≤ _; omega, rfl⟩) (hwithheld _)
    rw [hread, if_pos hlt, hchar]
  · rw [hread, if_neg hlt, (hbehind (Nat.le_of_not_lt hlt)).1]

/-- Scanners of one text read the same from one place in one range, whatever they keep of it. -/
theorem read_same {other : Scanner ρ} (hs : scanner.Current) (ho : other.Current)
    (hdoc : scanner.document = doc.toDocument) (hdoc' : other.document = doc.toDocument)
    (hmark : scanner.mark = other.mark) (hend : scanner.rangeEnd = other.rangeEnd) :
    (∃ char cache cache',
      read scanner = .ok char ({ scanner with mark := scanner.mark + 1 }.withCache cache) ∧
      ({ scanner with mark := scanner.mark + 1 }.withCache cache).Current ∧
      read other = .ok char ({ other with mark := scanner.mark + 1 }.withCache cache') ∧
      ({ other with mark := scanner.mark + 1 }.withCache cache').Current) ∨
    read scanner = .error (.faulted .offsetOverflow) scanner ∧
      read other = .error (.faulted .offsetOverflow) other := by
  by_cases hlt : scanner.mark < maxOffset
  · obtain ⟨cache, hread, hcurrent, -⟩ := read_text hs hdoc hlt
    obtain ⟨cache', hread', hcurrent', -⟩ := read_text ho hdoc' (hmark ▸ hlt)
    rw [← hmark] at hread' hcurrent'
    generalize hchar : (if scanner.mark < scanner.rangeEnd then doc.text[scanner.mark]? else none) =
      char at hread
    rw [hend] at hchar
    rw [hchar] at hread'
    exact Or.inl ⟨char, cache, cache', hread, hcurrent, hread', hcurrent'⟩
  · have hfar : ∀ scanner : Scanner ρ, ¬ scanner.mark < maxOffset →
        read scanner = .error (.faulted .offsetOverflow) scanner := by
      intro scanner hlt
      unfold read
      rw [Scan.get_bind, if_pos (Nat.le_of_not_lt hlt)]
      rfl
    exact Or.inr ⟨hfar scanner hlt, hfar other (hmark ▸ hlt)⟩

/-- A place is found for every offset up to the end of a text, and for none behind it. -/
theorem placeAt_text (hs : scanner.Current) (hdoc : scanner.document = doc.toDocument)
    (offset : Nat) :
    ∃ found cache, scanner.placeAt offset = (found, scanner.withCache cache) ∧
      (scanner.withCache cache).Current ∧
      (offset ≤ doc.text.length ∧ (∃ place, found = .ok place ∧
          place.line = lineAt doc.text offset ∧
          place.column = offset - (lineAt doc.text offset).start) ∨
        doc.text.length < offset ∧ ∃ reason, found = .error reason) := by
  have hover : scanner.document.Over doc.text := hdoc ▸ doc.toDocument_over
  by_cases hle : offset ≤ doc.text.length
  · obtain ⟨found, cache, hplace, hcurrent, hlost, hfound⟩ := placeAt_spec hs hover offset hle
    refine ⟨found, cache, hplace, hcurrent, Or.inl ⟨hle, ?_⟩⟩
    rcases found with reason | place
    · obtain ⟨lost, hline⟩ := hlost reason rfl
      rw [hdoc, VersionedText.toDocument_lineHolding? hle] at hline
      cases hline
    · exact ⟨place, rfl, (hfound place rfl).1, (hfound place rfl).2.1⟩
  · obtain ⟨near, cache, hnear, hcurrent, _, hplace⟩ := placeNear_spec hs offset
    rcases near with reason | place
    · exact ⟨.error reason, cache, by rw [placeAt, hnear], hcurrent,
        Or.inr ⟨by omega, reason, rfl⟩⟩
    · -- A line of the text does not reach behind the text.
      obtain ⟨⟨_, other, hline⟩, hwhy⟩ := hplace place rfl
      exfalso
      rcases hwhy with hholds | hserves
      · exact hle (hover.line_eq hholds).1
      · rw [(hover.line_eq hline).2] at hserves
        have hstop := lineAt_stop_le doc.text other
        simp only [Line.serves, Bool.and_eq_true, Bool.or_eq_true, decide_eq_true_eq,
          beq_iff_eq] at hserves
        omega

end Scanner

/-! ## The invariant of a scan over texts -/

/-- The scanner scans a text, all it keeps is of that text, and its window has the size it was
set up with. -/
structure OnText {ρ : Type} (settings : Settings) (scanner : Scanner ρ) : Prop where
  text : IsText scanner.document
  current : scanner.Current
  capacity : scanner.window.capacity = settings.capacity

namespace OnText

variable {ρ α : Type} {settings : Settings} {scanner : Scanner ρ}

/-- Only the document, the window and the place matter. -/
theorem congr {other : Scanner ρ} (h : OnText settings scanner)
    (hdocument : other.document = scanner.document) (hwindow : other.window = scanner.window)
    (hplace : other.place = scanner.place) : OnText settings other :=
  ⟨hdocument ▸ h.text, ⟨by rw [hdocument, hwindow]; exact h.current.window,
    by rw [hdocument, hplace]; exact h.current.place⟩, hwindow ▸ h.capacity⟩

theorem of_cache (h : OnText settings scanner) {other : Scanner ρ} {cache : Cache}
    (hdocument : other.document = scanner.document) (hwindow : other.window = scanner.window)
    (hcurrent : (other.withCache cache).Current) : OnText settings (other.withCache cache) :=
  ⟨by show IsText other.document; rw [hdocument]; exact h.text, hcurrent,
    by show other.window.capacity = _; rw [hwindow]; exact h.capacity⟩

theorem fresh {document : Document} (h : IsText document) :
    OnText settings (Scanner.fresh document settings : Scanner ρ) :=
  ⟨h, ⟨Or.inl ⟨rfl, rfl⟩, fun _ hplace => by cases hplace⟩, rfl⟩

/-! ## Another range -/

/-- A range of a text fills the window from its start. -/
theorem assign (h : OnText settings scanner) {document : Document} (htext : IsText document)
    {offset length : Nat} {after : Scanner ρ}
    (hassign : scanner.assign document offset length = .ok () after) : OnText settings after := by
  obtain ⟨doc, rfl⟩ := htext
  obtain ⟨hcurrent, tally, rfl⟩ := Scanner.assign_text hassign
  exact ⟨⟨doc, rfl⟩, hcurrent, h.capacity⟩

/-- Every operation of a scanner keeps it on a text. -/
theorem kept : KeptByCalls IsText (OnText settings : Scanner ρ → Prop) := Grounded.kept {
  congr := fun h hsame => h.congr hsame.document hsame.window hsame.place
  refill := by
    intro scanner offset h
    obtain ⟨cache, hrefill, hs⟩ := Scanner.refill_spec h.current offset
    rw [hrefill]
    exact h.of_cache rfl rfl hs
  placeAt := by
    intro scanner offset h
    obtain ⟨found, cache, hplace, hs⟩ := Scanner.placeAt_current h.current offset
    rw [hplace]
    exact h.of_cache rfl rfl hs
  enter := fun h _ => h.congr rfl rfl rfl
  leave := fun h _ => h.congr rfl rfl rfl
  assign := fun htext h hassign => h.assign htext hassign }

end OnText

/-- Every state of a session over text documents is on a text. -/
theorem Reached.onText {settings : Settings} {scanner : Scanner Region}
    (h : Reached IsText settings scanner) : OnText settings scanner :=
  h.invariant (fun _ => OnText.fresh) OnText.kept

/-! ## The laws -/

/-- In every state of every session over text documents, the window holds a stretch of the
document that is scanned, within its capacity and the document. A read gives the character at
the mark, up to the end of the range and of the document, and moves the mark by one; behind the
range it leaves the window alone. -/
theorem a_window_always_shows_its_document {settings : Settings} {scanner : Scanner Region}
    (h : Reached IsText settings scanner) :
    IsText scanner.document ∧ ∀ doc : VersionedText, scanner.document = doc.toDocument →
      scanner.window.chars.toList =
        stretch doc.text scanner.window.start scanner.window.chars.size ∧
      scanner.window.chars.size ≤ settings.capacity ∧
      scanner.window.stop ≤ doc.text.length ∧
      (scanner.mark < maxOffset → ∃ after : Scanner Region,
        Scanner.read scanner =
          .ok (if scanner.mark < scanner.rangeEnd then doc.text[scanner.mark]? else none) after ∧
        after.mark = scanner.mark + 1 ∧
        (scanner.rangeEnd ≤ scanner.mark → after.window = scanner.window)) := by
  obtain ⟨htext, hcurrent, hcapacity⟩ := h.onText
  refine ⟨htext, ?_⟩
  intro doc hdoc
  have hover : scanner.document.Over doc.text := hdoc ▸ doc.toDocument_over
  obtain ⟨hchars, hsize, hstop⟩ := hcurrent.window.within hover
  refine ⟨hchars, hcapacity ▸ hsize, hstop, ?_⟩
  intro hmark
  obtain ⟨cache, hread, _, hkept⟩ := Scanner.read_text hcurrent hdoc hmark
  refine ⟨_, hread, rfl, fun hle => ?_⟩
  simp only [Scanner.withCache, hkept hle]

/-- The law for a window of three characters that followed the mark behind its end and then
back before its start. -/
theorem a_window_shows_its_document_in_the_middle :
    ∃ scanner after : Scanner Region, Reached IsText ⟨3, by decide⟩ scanner ∧
      scanner.mark = 2 ∧ scanner.window.start = 2 ∧
      Scanner.read scanner = .ok (some 'c') after := by
  let doc : VersionedText := .ofText ['a', 'b', 'c', 'd', 'e', 'f', 'g']
  let fresh : Scanner Region := Scanner.fresh doc.toDocument ⟨3, by decide⟩
  have h0 : Reached IsText ⟨3, by decide⟩ fresh := .fresh _ ⟨doc, rfl⟩
  have h1 : Reached IsText ⟨3, by decide⟩
      { fresh with
        window := ⟨#['a', 'b', 'c'], 0, 3, by decide⟩, rangeEnd := 7, tally := ⟨1, 0⟩ } :=
    h0.call (.assign doc.toDocument 0 7) fun _ hdoc => ⟨doc, by cases hdoc; rfl⟩
  have h2 : Reached IsText ⟨3, by decide⟩
      { fresh with
        window := ⟨#['e', 'f', 'g'], 4, 3, by decide⟩, rangeEnd := 7, mark := 4,
        tally := ⟨2, 0⟩ } :=
    h1.call (.moveTo 4) fun _ hdoc => by cases hdoc
  have h3 : Reached IsText ⟨3, by decide⟩
      { fresh with
        window := ⟨#['c', 'd', 'e'], 2, 3, by decide⟩, rangeEnd := 7, mark := 2,
        tally := ⟨3, 0⟩ } :=
    h2.call (.moveTo 2) fun _ hdoc => by cases hdoc
  obtain ⟨after, hread, _⟩ := ((a_window_always_shows_its_document h3).2 doc rfl).2.2.2 (by decide)
  exact ⟨_, after, h3, rfl, rfl, hread⟩

end RegionScan
