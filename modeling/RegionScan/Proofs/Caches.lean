-- What a scanner keeps of its document: the window, and the line it looked at
-- last. Both are true of the document whatever the scanner does, so a step of a
-- scan sees the document itself, and all that is left of its lookups is a cache.
import RegionScan.Scanner.Lines
import RegionScan.Scanner.Reading
import RegionScan.Scanner.Ranges
import RegionScan.Scanner.OpenRegions
import RegionScan.Proofs.DocumentTexts
import RegionScan.Proofs.LineBytes

namespace RegionScan

/-! ## Running a scan -/

namespace Scan

variable {ρ α β : Type} {scanner middle : Scanner ρ}

/-- The first of two steps has come through. -/
theorem bind_of_ok {step : Scan ρ α} {next : α → Scan ρ β} {value : α}
    (h : step scanner = .ok value middle) : (step >>= next) scanner = next value middle := by
  simp only [bind, EStateM.bind, h]

theorem get_bind {next : Scanner ρ → Scan ρ β} :
    ((get : Scan ρ (Scanner ρ)) >>= next) scanner = next scanner scanner := rfl

theorem modify_bind {change : Scanner ρ → Scanner ρ} {next : PUnit → Scan ρ β} :
    ((modify change : Scan ρ PUnit) >>= next) scanner = next ⟨⟩ (change scanner) := rfl

/-- Two steps come through if both do. -/
theorem bind_eq_ok {ε : Type} {step : EStateM ε (Scanner ρ) α}
    {next : α → EStateM ε (Scanner ρ) β} {after : Scanner ρ} {found : β} :
    (step >>= next) scanner = .ok found after ↔
      ∃ value middle, step scanner = .ok value middle ∧ next value middle = .ok found after := by
  simp only [bind, EStateM.bind]
  rcases step scanner with ⟨value, middle⟩ | ⟨halt, middle⟩ <;>
    simp [and_assoc]

end Scan

/-! ## What is kept of a document -/

/-- How many characters a window takes in from an offset on, up to the end of the document. -/
def Document.reach (document : Document) (capacity offset : Nat) : Nat :=
  min (offset + capacity) document.length - offset

/-- The window holds characters of the document, or has never been filled. -/
def Window.Shows (window : Window) (document : Document) : Prop :=
  (window.chars = #[] ∧ window.start = 0) ∨
    document.slice window.start (document.reach window.capacity window.start) =
      .ok window.chars.toList

/-- A window over a text lies within it. -/
theorem Window.Shows.within {window : Window} {document : Document} {text : Text}
    (h : window.Shows document) (hover : document.Over text) :
    window.chars.toList = stretch text window.start window.chars.size ∧
      window.chars.size ≤ window.capacity ∧ window.stop ≤ text.length := by
  rcases h with ⟨hchars, hstart⟩ | hslice
  · simp [hchars, hstart, Window.stop, stretch]
  · obtain ⟨hle, hpart⟩ := hover.slice_eq hslice
    have hsize : window.chars.size = document.reach window.capacity window.start := by
      rw [← Array.length_toList, hpart, stretch, List.length_take, List.length_drop]
      omega
    rw [Window.stop, hsize]
    exact ⟨hpart, by unfold Document.reach; omega, hle⟩

/-- The place is in a line of the document. -/
def LinePlace.Of (place : LinePlace) (document : Document) : Prop :=
  place.Inside ∧ ∃ offset, document.lineHolding? offset = .ok place.line

/-- The document cannot fill a window that is to start at an offset. -/
def Document.Withholds (document : Document) (capacity offset : Nat) : Prop :=
  ∀ part, document.slice offset (document.reach capacity offset) ≠ .ok part

/-- The document can fill some window that an offset is in. -/
def Document.Grants (document : Document) (capacity offset : Nat) : Prop :=
  ∃ first part, first ≤ offset ∧ offset < first + document.reach capacity first ∧
    document.slice first (document.reach capacity first) = .ok part

/-- What a read can give: the character of the text, from a window that the document can fill,
or none because it cannot fill one from there on. -/
def Document.Answers (document : Document) (capacity : Nat) (text : Text) (offset : Nat)
    (char : Option Char) : Prop :=
  char = text[offset]? ∧ (char.isSome = true → document.Grants capacity offset) ∨
    char = none ∧ document.Withholds capacity offset

theorem Window.Shows.grants {window : Window} {document : Document} {text : Text}
    (h : window.Shows document) (hover : document.Over text) {offset : Nat}
    (hin : window.contains offset = true) : document.Grants window.capacity offset := by
  simp only [Window.contains, Bool.and_eq_true, decide_eq_true_eq] at hin
  obtain ⟨hfirst, hlast⟩ := hin
  unfold Window.stop at hlast
  rcases h with ⟨hchars, _⟩ | hslice
  · simp [hchars] at hlast
    omega
  · obtain ⟨-, hpart⟩ := hover.slice_eq hslice
    have hsize : window.chars.size ≤ document.reach window.capacity window.start := by
      rw [← Array.length_toList, hpart, stretch]
      exact List.length_take_le _ _
    exact ⟨window.start, _, hfirst, by omega, hslice⟩

theorem Window.Shows.get? {window : Window} {document : Document} {text : Text}
    (h : window.Shows document) (hover : document.Over text) {offset : Nat}
    (hin : window.contains offset = true) : window.get? offset = text[offset]? := by
  unfold Window.get?
  rw [if_pos hin]
  simp only [Window.contains, Bool.and_eq_true, decide_eq_true_eq] at hin
  obtain ⟨hfirst, hlast⟩ := hin
  unfold Window.stop at hlast
  rcases h with ⟨hchars, _⟩ | hslice
  · simp [hchars] at hlast
    omega
  · obtain ⟨-, hpart⟩ := hover.slice_eq hslice
    have hsize : window.chars.size ≤ document.reach window.capacity window.start := by
      rw [← Array.length_toList, hpart, stretch]
      exact List.length_take_le _ _
    have hlt : offset - window.start < document.reach window.capacity window.start := by omega
    rw [← Array.getElem?_toList, hpart, stretch, List.getElem?_take, if_pos hlt,
      List.getElem?_drop, Nat.add_sub_cancel' hfirst]

/-- All that the scanner keeps is of the document it scans. -/
structure Scanner.Current {ρ : Type} (scanner : Scanner ρ) : Prop where
  window : scanner.window.Shows scanner.document
  place : ∀ place, scanner.place = some place → place.Of scanner.document

/-- The place that the scanner keeps is in a line of the document. -/
def Scanner.KeepsLine {ρ : Type} (scanner : Scanner ρ) : Prop :=
  ∀ place, scanner.place = some place → place.Of scanner.document

/-- What lookups leave behind in a scanner. -/
structure Cache where
  chars : Array Char
  start : Nat
  place : Option LinePlace
  column : Option Nat
  tally : Tally

namespace Scanner

variable {ρ : Type} {scanner : Scanner ρ} {text : Text}

/-- The same scanner after other lookups. -/
def withCache (scanner : Scanner ρ) (cache : Cache) : Scanner ρ :=
  { scanner with
    window := { scanner.window with chars := cache.chars, start := cache.start }
    place := cache.place
    column := cache.column
    tally := cache.tally }

/-- What lookups have left behind so far. -/
def cache (scanner : Scanner ρ) : Cache :=
  ⟨scanner.window.chars, scanner.window.start, scanner.place, scanner.column, scanner.tally⟩

/-! ## Filling the window -/

/-- A refill shows the document from its offset on, or nothing changes. -/
theorem refill_spec (hs : scanner.Current) (offset : Nat) :
    ∃ cache, scanner.refill offset = scanner.withCache cache ∧
      (scanner.withCache cache).Current := by
  unfold refill
  rcases hreach : scanner.window.reach? scanner.document.length offset with _ | count
  · exact ⟨scanner.cache, rfl, hs⟩
  · simp only [slice]
    rcases hslice : scanner.document.slice offset count with _ | part
    · exact ⟨⟨scanner.window.chars, scanner.window.start, scanner.place, scanner.column, _⟩,
        rfl, hs.1, hs.2⟩
    · refine ⟨⟨part.toArray, offset, scanner.place, scanner.column, _⟩, rfl, Or.inr ?_, hs.2⟩
      unfold Window.reach? at hreach
      split at hreach
      · obtain rfl : _ = count := Option.some.inj hreach
        exact hslice
      · simp at hreach

theorem recenter_spec (hs : scanner.Current) :
    ∃ cache, scanner.recenter = scanner.withCache cache ∧ (scanner.withCache cache).Current :=
  refill_spec hs _

/-- Moving moves the mark and nothing else. -/
theorem moveTo_spec (hs : scanner.Current) (offset : Nat) :
    ∃ cache, scanner.moveTo offset = { scanner with mark := offset }.withCache cache ∧
      ({ scanner with mark := offset }.withCache cache).Current := by
  have hmoved : ({ scanner with mark := offset, column := none } : Scanner ρ).Current :=
    ⟨hs.1, hs.2⟩
  have hstay : ∃ cache, ({ scanner with mark := offset, column := none } : Scanner ρ) =
      { scanner with mark := offset }.withCache cache ∧
        ({ scanner with mark := offset }.withCache cache).Current :=
    ⟨{ scanner.cache with column := none }, rfl, hs.1, hs.2⟩
  unfold moveTo
  dsimp only
  split
  · split
    · exact recenter_spec hmoved
    · exact hstay
  · split
    · exact refill_spec hmoved _
    · split
      · exact refill_spec hmoved _
      · exact hstay

theorem stepBack_spec (hs : scanner.Current) :
    ∃ cache, scanner.stepBack = { scanner with mark := scanner.mark - 1 }.withCache cache ∧
      ({ scanner with mark := scanner.mark - 1 }.withCache cache).Current := by
  unfold stepBack
  split
  · obtain ⟨cache, hcache, hs'⟩ := recenter_spec hs
    refine ⟨{ cache with column := none }, ?_, hs'.1, hs'.2⟩
    rw [hcache]
    rfl
  · exact ⟨{ scanner.cache with column := none }, rfl, hs.1, hs.2⟩

/-! ## Setting the range -/

/-- With a range of another document, and its window filled from there if the document serves
that. -/
def withRange (scanner : Scanner ρ) (document : Document) (offset length : Nat) : Scanner ρ :=
  { ({ scanner with document, place := none } : Scanner ρ).refill offset with
    mark := offset
    tokenStart := offset
    column := none
    rangeEnd := offset + length
    delimiters := document.delimiters }

/-- A range that is accepted ends within the document. -/
theorem rangeEndIn_le {document : Document} {offset length rangeEnd : Nat}
    (h : rangeEndIn document offset length = .ok rangeEnd) : rangeEnd ≤ document.length := by
  unfold rangeEndIn at h
  split at h
  · cases h
    assumption
  · cases h

/-- A range is set if and only if it is within the document. -/
theorem assign_eq_ok_iff {after : Scanner ρ} {document : Document} {offset length : Nat} :
    scanner.assign document offset length = .ok () after ↔
      offset + length ≤ document.length ∧ after = scanner.withRange document offset length := by
  unfold assign rangeEndIn
  by_cases hrange : offset + length ≤ document.length
  · rw [if_pos hrange]
    constructor
    · intro h
      cases h
      exact ⟨hrange, rfl⟩
    · rintro ⟨-, rfl⟩
      rfl
  · rw [if_neg hrange]
    exact ⟨fun h => (nomatch h), fun h => absurd h.1 hrange⟩

theorem assign_withRange (scanner : Scanner ρ) {document : Document} {offset length : Nat}
    (h : offset + length ≤ document.length) :
    scanner.assign document offset length = .ok () (scanner.withRange document offset length) :=
  assign_eq_ok_iff.mpr ⟨h, rfl⟩

theorem assign_refused (scanner : Scanner ρ) {document : Document} {offset length : Nat}
    (h : document.length < offset + length) :
    scanner.assign document offset length =
      .error (.invalidRange offset length document.length) scanner := by
  unfold assign rangeEndIn
  rw [if_neg (Nat.not_le.mpr h)]
  rfl

/-- A fresh scanner with a range of a document is fresh over that document, but for the range and
what lookups have left. -/
theorem fresh_withRange (ρ : Type) (document other : Document) (settings : Settings)
    (offset length : Nat) :
    ∃ cache, (fresh other settings : Scanner ρ).withRange document offset length =
        { ((fresh document settings).withCache cache : Scanner ρ) with
          mark := offset, tokenStart := offset, rangeEnd := offset + length } ∧
      ((fresh document settings).withCache cache : Scanner ρ).Current := by
  have hfresh : ({ fresh other settings with document, place := none } : Scanner ρ).Current :=
    ⟨Or.inl ⟨rfl, rfl⟩, fun _ hplace => by cases hplace⟩
  obtain ⟨cache, hrefill, hcurrent⟩ := refill_spec hfresh offset
  refine ⟨{ cache with column := none }, ?_, hcurrent.1, hcurrent.2⟩
  rw [withRange, hrefill]
  rfl

/-! ## Entering and leaving -/

/-- Entering a range saves the active one. -/
theorem enterRange_of_le {offset length : Nat} (h : offset + length ≤ scanner.document.length) :
    enterRange offset length scanner = .ok () ({ scanner with
      frames := scanner.frame :: scanner.frames, rangeEnd := offset + length }.moveTo offset) := by
  have hrange : rangeEndIn scanner.document offset length = .ok (offset + length) := if_pos h
  unfold enterRange
  rw [Scan.get_bind, hrange]
  rfl

/-- A range that the document does not reach is refused, and nothing changes. -/
theorem enterRange_refused {offset length : Nat} (h : scanner.document.length < offset + length) :
    enterRange offset length scanner =
      .error (.failed (.invalidRange offset length scanner.document.length)) scanner := by
  have hrange : rangeEndIn scanner.document offset length =
      .error (.invalidRange offset length scanner.document.length) := if_neg (Nat.not_le.mpr h)
  unfold enterRange
  rw [Scan.get_bind, hrange]
  rfl

/-- Leaving takes the range that was saved last. -/
theorem leaveRange_of_cons {saved : Frame} {frames : List Frame}
    (h : scanner.frames = saved :: frames) :
    leaveRange scanner = .ok () ({ scanner with
      frames, rangeEnd := saved.rangeEnd, lastMatch := saved.lastMatch }.moveTo saved.offset) := by
  unfold leaveRange
  rw [Scan.get_bind, h]
  rfl

/-- Where no range is saved, none comes back, and nothing changes. -/
theorem leaveRange_refused (h : scanner.frames = []) :
    leaveRange scanner = .error (.failed .noSavedRange) scanner := by
  unfold leaveRange
  rw [Scan.get_bind, h]
  rfl

/-- Closing takes the region that was opened last. -/
theorem closeRegion_of_cons {region : ρ} {openRegions : List ρ}
    (h : scanner.openRegions = region :: openRegions) :
    closeRegion scanner = .ok region { scanner with openRegions } := by
  unfold closeRegion
  rw [Scan.get_bind, h]
  rfl

theorem closeRegion_refused (h : scanner.openRegions = []) :
    closeRegion scanner = .error (.failed .noOpenRegion) scanner := by
  unfold closeRegion
  rw [Scan.get_bind, h]
  rfl

/-! ## Reading -/

/-- A refill that the document does not refuse makes a window from its offset on. -/
theorem refill_window (hover : scanner.document.Over text) (offset : Nat) :
    (scanner.refill offset).window = scanner.window ∧ (text.length < offset ∨
        scanner.document.Withholds scanner.window.capacity offset) ∨
      ∃ part, scanner.document.slice offset
          (scanner.document.reach scanner.window.capacity offset) = .ok part ∧
        (scanner.refill offset).window = scanner.window.showing offset part := by
  have hlength := hover.length_eq
  unfold refill Window.reach?
  split
  · rename_i hreach
    split at hreach
    · cases hreach
    · exact Or.inl ⟨rfl, Or.inl (by omega)⟩
  · rename_i count hreach
    split at hreach
    · obtain rfl : scanner.document.reach scanner.window.capacity offset = count :=
        Option.some.inj hreach
      simp only [slice]
      rcases hslice : scanner.document.slice offset
        (scanner.document.reach scanner.window.capacity offset) with _ | part
      · refine Or.inl ⟨rfl, Or.inr fun part h => ?_⟩
        rw [hslice] at h
        cases h
      · exact Or.inr ⟨part, rfl, rfl⟩
    · cases hreach

/-- After a refill the window shows the character at its offset, if the document has one there
and serves it. -/
theorem refill_get? (hover : scanner.document.Over text) {offset : Nat}
    (hout : scanner.window.contains offset = false) :
    scanner.document.Answers scanner.window.capacity text offset
      ((scanner.refill offset).window.get? offset) := by
  have hlength := hover.length_eq
  have hkept : scanner.window.get? offset = none := by simp [Window.get?, hout]
  rcases refill_window hover offset with ⟨hwindow, hwhy⟩ | ⟨part, hslice, hwindow⟩
  · rw [hwindow, hkept]
    rcases hwhy with hbehind | hwithheld
    · exact Or.inl ⟨(List.getElem?_eq_none (by omega)).symm, fun hsome => by cases hsome⟩
    · exact Or.inr ⟨rfl, hwithheld⟩
  · rw [hwindow]
    have hshows : (scanner.window.showing offset part).Shows scanner.document := Or.inr hslice
    have hsize : part.length = scanner.document.reach scanner.window.capacity offset := by
      obtain ⟨hle, rfl⟩ := hover.slice_eq hslice
      rw [stretch, List.length_take, List.length_drop]
      omega
    have hcapacity := scanner.window.capacity_pos
    left
    rcases hin : (scanner.window.showing offset part).contains offset with _ | _
    · have hnone : (scanner.window.showing offset part).get? offset = none := by
        simp [Window.get?, hin]
      simp only [Window.contains, Window.stop, Window.showing, List.size_toArray, hsize,
        Nat.le_refl, decide_true, Bool.true_and, decide_eq_false_iff_not, Document.reach] at hin
      rw [hnone, List.getElem?_eq_none (by omega)]
      exact ⟨rfl, fun hsome => by cases hsome⟩
    · exact ⟨hshows.get? hover hin, fun _ => hshows.grants hover hin⟩

/-- The character at the mark is that of the text. Inside the range it can be missing only if
the window cannot be filled from there; from the end of the range on there is none. -/
theorem read_spec (hs : scanner.Current) (hover : scanner.document.Over text)
    (hmark : scanner.mark < maxOffset) :
    ∃ char cache,
      read scanner = .ok char ({ scanner with mark := scanner.mark + 1 }.withCache cache) ∧
      ({ scanner with mark := scanner.mark + 1 }.withCache cache).Current ∧
      (scanner.rangeEnd ≤ scanner.mark → char = none ∧
        cache.chars = scanner.window.chars ∧ cache.start = scanner.window.start) ∧
      (scanner.mark < scanner.rangeEnd →
        scanner.document.Answers scanner.window.capacity text scanner.mark char) := by
  have hgo : ¬ maxOffset ≤ scanner.mark := by omega
  by_cases hend : scanner.rangeEnd ≤ scanner.mark
  · refine ⟨none, { scanner.cache with column := none },
      ?_, ⟨hs.1, hs.2⟩, fun _ => ⟨rfl, rfl, rfl⟩, fun h => absurd hend (by omega)⟩
    unfold read
    rw [Scan.get_bind, if_neg hgo, if_pos hend]
    rfl
  · have hread : ∀ filled : Scanner ρ,
        (if scanner.window.contains scanner.mark then scanner
          else scanner.refill scanner.mark) = filled →
        read scanner = .ok (filled.window.get? scanner.mark)
          { filled with mark := scanner.mark + 1, column := none } := by
      intro filled hfilled
      unfold read
      rw [Scan.get_bind, if_neg hgo, if_neg hend, hfilled]
      rfl
    rcases hin : scanner.window.contains scanner.mark with _ | _
    · obtain ⟨cache, hcache, hs'⟩ := refill_spec hs scanner.mark
      have hfound := refill_get? hover hin
      refine ⟨_, { cache with column := none }, hread (scanner.withCache cache)
        (by rw [hin]; exact hcache), ⟨hs'.1, hs'.2⟩, fun h => absurd h hend, ?_⟩
      intro _
      rw [hcache] at hfound
      exact hfound
    · refine ⟨_, { scanner.cache with column := none },
        hread scanner (by rw [hin]; rfl), ⟨hs.1, hs.2⟩, fun h => absurd h hend, fun _ => Or.inl ?_⟩
      exact ⟨hs.window.get? hover hin, fun _ => hs.window.grants hover hin⟩

/-! ## Lines -/

/-- A line lookup changes the tally alone. -/
theorem lineText_spec (scanner : Scanner ρ) (line : Nat) :
    ∃ tally, scanner.lineText line = (scanner.document.lineText line, { scanner with tally }) := by
  unfold lineText Document.lineText
  rcases hown : scanner.document.ownLineText with _ | own
  · dsimp only [Option.getD_none, Document.slicedLineText]
    rcases hspan : scanner.document.lineSpan line with _ | ⟨start, count⟩
    · exact ⟨scanner.tally, rfl⟩
    · exact ⟨_, rfl⟩
  · exact ⟨scanner.tally, rfl⟩

theorem lineNumbered_spec (scanner : Scanner ρ) (number : Nat) :
    ∃ tally, scanner.lineNumbered number =
      ((do
        let start ← scanner.document.lineStart number
        let chars ← scanner.document.lineText number
        return ⟨chars.toArray, number, start⟩), { scanner with tally }) := by
  unfold lineNumbered
  rcases hstart : scanner.document.lineStart number with _ | start
  · exact ⟨scanner.tally, rfl⟩
  · obtain ⟨tally, htext⟩ := scanner.lineText_spec number
    refine ⟨tally, ?_⟩
    rw [htext]
    rcases scanner.document.lineText number with _ | chars <;> rfl

theorem lineHolding_spec (scanner : Scanner ρ) (offset : Nat) :
    ∃ tally, scanner.lineHolding offset =
      (scanner.document.lineHolding? offset, { scanner with tally }) := by
  unfold lineHolding lineOf Document.lineHolding?
  rcases hnumber : scanner.document.lineOf offset with _ | number
  · exact ⟨_, rfl⟩
  · obtain ⟨tally, hline⟩ := lineNumbered_spec
      { scanner with tally.lineLookups := scanner.tally.lineLookups + 1 } number
    exact ⟨tally, hline⟩

/-- A place near an offset is on a line of the document: on the line that the document has for
the offset, or on one that serves the offset. -/
theorem placeNear_line (hs : scanner.KeepsLine) (offset : Nat) :
    ∃ found kept tally,
      scanner.placeNear offset = (found, { scanner with place := kept, tally }) ∧
      ({ scanner with place := kept, tally } : Scanner ρ).KeepsLine ∧
      (∀ reason, found = .error reason → scanner.document.lineHolding? offset = .error reason) ∧
      (∀ place, found = .ok place → place.Of scanner.document ∧
        (scanner.document.lineHolding? offset = .ok place.line ∨
          place.line.serves offset = true)) := by
  unfold placeNear
  split
  · rename_i place hplace
    obtain ⟨hkept, hserves⟩ := Option.filter_eq_some_iff.mp hplace
    refine ⟨.ok place, scanner.place, scanner.tally, rfl, hs, fun _ h => by simp at h, ?_⟩
    intro p hp
    obtain rfl : place = p := Except.ok.inj hp
    exact ⟨hs place hkept, Or.inr hserves⟩
  · obtain ⟨tally, hline⟩ := scanner.lineHolding_spec offset
    rw [hline]
    rcases hfound : scanner.document.lineHolding? offset with reason | line
    · refine ⟨.error reason, scanner.place, tally, rfl, hs, fun r hr => ?_, fun _ h => by simp at h⟩
      obtain rfl : reason = r := Except.error.inj hr
      rfl
    · have hof : (LinePlace.atStart line).Of scanner.document :=
        ⟨Nat.zero_le _, offset, hfound⟩
      refine ⟨.ok (.atStart line), some (.atStart line), tally, rfl, fun p hp => ?_,
        fun _ h => by simp at h, fun p hp => ?_⟩
      · obtain rfl : LinePlace.atStart line = p := Option.some.inj hp
        exact hof
      · obtain rfl : LinePlace.atStart line = p := Except.ok.inj hp
        exact ⟨hof, Or.inl rfl⟩

/-- Looking for the place of an offset keeps a place in a line of the document. -/
theorem placeAt_line (hs : scanner.KeepsLine) (offset : Nat) :
    ∃ found kept tally,
      scanner.placeAt offset = (found, { scanner with place := kept, tally }) ∧
      ({ scanner with place := kept, tally } : Scanner ρ).KeepsLine := by
  obtain ⟨near, kept, tally, hnear, hs', _, hplace⟩ := placeNear_line hs offset
  unfold placeAt
  rw [hnear]
  rcases near with reason | place
  · exact ⟨_, kept, tally, rfl, hs'⟩
  · dsimp only
    rcases hat : place.at? offset with _ | found
    · exact ⟨_, kept, tally, rfl, hs'⟩
    · obtain ⟨⟨hinside, o, hline⟩, _⟩ := hplace place rfl
      obtain ⟨h1, _, h3⟩ := LinePlace.at?_spec hinside hat
      refine ⟨_, some found, tally, rfl, fun p hp => ?_⟩
      obtain rfl : found = p := Option.some.inj hp
      exact ⟨h3, o, by rw [h1]; exact hline⟩

/-- As `placeNear_line`, for all that is kept of the document. -/
theorem placeNear_spec (hs : scanner.Current) (offset : Nat) :
    ∃ found cache, scanner.placeNear offset = (found, scanner.withCache cache) ∧
      (scanner.withCache cache).Current ∧
      (∀ reason, found = .error reason → scanner.document.lineHolding? offset = .error reason) ∧
      (∀ place, found = .ok place → place.Of scanner.document ∧
        (scanner.document.lineHolding? offset = .ok place.line ∨
          place.line.serves offset = true)) := by
  obtain ⟨found, kept, tally, hnear, hkept, hfound⟩ := placeNear_line hs.place offset
  exact ⟨found, ⟨scanner.window.chars, scanner.window.start, kept, scanner.column, tally⟩, hnear,
    ⟨hs.window, hkept⟩, hfound⟩

/-- As `placeAt_line`, for all that is kept of the document. -/
theorem placeAt_current (hs : scanner.Current) (offset : Nat) :
    ∃ found cache, scanner.placeAt offset = (found, scanner.withCache cache) ∧
      (scanner.withCache cache).Current := by
  obtain ⟨found, kept, tally, hplace, hkept⟩ := placeAt_line hs.place offset
  exact ⟨found, ⟨scanner.window.chars, scanner.window.start, kept, scanner.column, tally⟩, hplace,
    hs.window, hkept⟩

/-- The place of an offset is the one that the text has, on the whole line of the offset. It can
be missing only if the document cannot give that line. -/
theorem placeAt_spec (hs : scanner.Current) (hover : scanner.document.Over text) (offset : Nat)
    (ho : offset ≤ text.length) :
    ∃ found cache, scanner.placeAt offset = (found, scanner.withCache cache) ∧
      (scanner.withCache cache).Current ∧
      (∀ reason, found = .error reason →
        ∃ lost, scanner.document.lineHolding? offset = .error lost) ∧
      (∀ place, found = .ok place → place.line = lineAt text offset ∧
        place.column = offset - (lineAt text offset).start ∧
        ∃ other, scanner.document.lineHolding? other = .ok (lineAt text offset)) := by
  obtain ⟨near, cache, hnear, hs', herror, hplace⟩ := placeNear_spec hs offset
  unfold placeAt
  rw [hnear]
  rcases near with reason | place
  · exact ⟨_, cache, rfl, hs', fun _ _ => ⟨reason, herror reason rfl⟩, fun _ h => by simp at h⟩
  · obtain ⟨⟨hinside, o, hline⟩, hwhy⟩ := hplace place rfl
    have hat : place.line = lineAt text offset := by
      rcases hwhy with h | h
      · exact (hover.line_eq h).2
      · rw [(hover.line_eq hline).2] at h ⊢
        exact (lineAt_of_serves h).symm
    have hcolumn : offset - (lineAt text offset).start ≤ (lineAt text offset).length := by
      have := le_lineAt_stop ho
      omega
    obtain ⟨found, hfound⟩ : ∃ found, place.at? offset = some found := by
      refine ⟨_, if_pos ?_⟩
      rw [hat]
      simp only [Bool.and_eq_true, decide_eq_true_eq]
      exact ⟨lineAt_start_le text offset, hcolumn⟩
    obtain ⟨h1, h2, h3⟩ := LinePlace.at?_spec hinside hfound
    dsimp only
    rw [hfound]
    refine ⟨_, { cache with place := some found }, rfl, ⟨hs'.1, fun p hp => ?_⟩,
      fun _ h => by simp at h, fun p hp => ?_⟩
    · obtain rfl : found = p := Option.some.inj hp
      exact ⟨h3, o, by rw [h1]; exact hline⟩
    · obtain rfl : found = p := Except.ok.inj hp
      exact ⟨h1.trans hat, by rw [h2, hat], o, hat ▸ hline⟩

/-! ## What lookups leave alone

Whatever the document answers, and whether the scanner is current or not, a lookup leaves its mark
in the cache alone. -/

variable (scanner)

theorem refill_cached (offset : Nat) :
    ∃ cache, scanner.refill offset = scanner.withCache cache := by
  unfold refill
  rcases scanner.window.reach? scanner.document.length offset with _ | count
  · exact ⟨scanner.cache, rfl⟩
  · simp only [slice]
    rcases scanner.document.slice offset count with _ | part
    · exact ⟨⟨scanner.window.chars, scanner.window.start, scanner.place, scanner.column, _⟩, rfl⟩
    · exact ⟨⟨part.toArray, offset, scanner.place, scanner.column, _⟩, rfl⟩

theorem moveTo_cached (offset : Nat) :
    ∃ cache, scanner.moveTo offset = { scanner with mark := offset }.withCache cache := by
  have hrefill : ∀ first, ∃ cache,
      ({ scanner with mark := offset, column := none } : Scanner ρ).refill first =
        { scanner with mark := offset }.withCache cache := fun first =>
    refill_cached { scanner with mark := offset, column := none } first
  unfold moveTo recenter
  dsimp only
  repeat' split
  all_goals first
    | exact hrefill _
    | exact ⟨{ scanner.cache with column := none }, rfl⟩

@[simp] theorem moveTo_mark (offset : Nat) :
    (scanner.moveTo offset).mark = offset := by
  obtain ⟨cache, hmove⟩ := scanner.moveTo_cached offset
  rw [hmove]
  rfl

@[simp] theorem moveTo_rangeEnd (offset : Nat) :
    (scanner.moveTo offset).rangeEnd = scanner.rangeEnd := by
  obtain ⟨cache, hmove⟩ := scanner.moveTo_cached offset
  rw [hmove]
  rfl

@[simp] theorem moveTo_frames (offset : Nat) :
    (scanner.moveTo offset).frames = scanner.frames := by
  obtain ⟨cache, hmove⟩ := scanner.moveTo_cached offset
  rw [hmove]
  rfl

theorem placeAt_cached (offset : Nat) :
    ∃ found place tally, scanner.placeAt offset = (found, { scanner with place, tally }) := by
  have hnear : ∃ found place tally,
      scanner.placeNear offset = (found, { scanner with place, tally }) := by
    unfold placeNear
    split
    · exact ⟨_, scanner.place, scanner.tally, rfl⟩
    · obtain ⟨tally, hline⟩ := scanner.lineHolding_spec offset
      rw [hline]
      rcases scanner.document.lineHolding? offset with reason | line
      · exact ⟨_, scanner.place, tally, rfl⟩
      · exact ⟨_, _, tally, rfl⟩
  obtain ⟨found, place, tally, hfound⟩ := hnear
  unfold placeAt
  rw [hfound]
  rcases found with reason | near
  · exact ⟨_, place, tally, rfl⟩
  · dsimp only
    rcases near.at? offset with _ | moved
    · exact ⟨_, place, tally, rfl⟩
    · exact ⟨_, _, tally, rfl⟩

theorem stepBack_cached :
    ∃ cache, scanner.stepBack = { scanner with mark := scanner.mark - 1 }.withCache cache := by
  unfold stepBack recenter
  split
  · obtain ⟨cache, hcache⟩ :=
      scanner.refill_cached (scanner.window.start - scanner.window.capacity / 2)
    exact ⟨{ cache with column := none }, by rw [hcache]; rfl⟩
  · exact ⟨{ scanner.cache with column := none }, rfl⟩

/-- A read moves the mark, unless that would pass the largest offset. -/
theorem read_cached : (∃ char cache,
    read scanner = .ok char ({ scanner with mark := scanner.mark + 1 }.withCache cache)) ∨
      read scanner = .error (.faulted .offsetOverflow) scanner := by
  unfold read
  rw [Scan.get_bind]
  by_cases hfar : maxOffset ≤ scanner.mark
  · exact Or.inr (if_pos hfar ▸ rfl)
  · rw [if_neg hfar]
    left
    by_cases hend : scanner.rangeEnd ≤ scanner.mark
    · rw [if_pos hend]
      exact ⟨none, { scanner.cache with column := none }, rfl⟩
    · rw [if_neg hend]
      by_cases hin : scanner.window.contains scanner.mark = true
      · simp only [hin, if_true]
        exact ⟨_, { scanner.cache with column := none }, rfl⟩
      · obtain ⟨cache, hcache⟩ := scanner.refill_cached scanner.mark
        simp only [hin, hcache]
        exact ⟨_, { cache with column := none }, rfl⟩

end Scanner

end RegionScan
