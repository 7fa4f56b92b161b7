-- The kept line against the lines of the document. A document may end its lines with any
-- characters, and a scanner tells from the characters whether the end of the line it keeps
-- belongs to that line. It is right wherever it looks just if the lines of the document end
-- with the characters it goes by.
import RegionScan.Proofs.Calls
import RegionScan.Proofs.LineTexts

namespace RegionScan

/-! ## Documents made of lines -/

/-- The line holds the character at an offset, or it is the last one and the offset is not before
its start. -/
def HoldsIn (lines : List Text) (number offset : Nat) : Prop :=
  ∃ line, lines[number]? = some line ∧ lineStartIn lines number ≤ offset ∧
    (offset < lineStartIn lines number + line.length ∨ number + 1 = lines.length)

/-- Up to the end of the text, an offset is held by one line only. -/
theorem HoldsIn.unique {lines : List Text} {first second offset : Nat}
    (hfirst : HoldsIn lines first offset) (hsecond : HoldsIn lines second offset) :
    first = second := by
  have hle : ∀ {a b}, HoldsIn lines a offset → HoldsIn lines b offset → b ≤ a := by
    rintro a b ⟨line, hline, -, hend⟩ ⟨other, hother, hstart, -⟩
    have hb := (List.getElem?_eq_some_iff.mp hother).1
    by_cases hlt : a < b
    · have hnext := lineStartIn_mono lines hlt
      rw [Nat.succ_eq_add_one, lineStartIn_succ hline] at hnext
      omega
    · omega
  have h1 := hle hfirst hsecond
  have h2 := hle hsecond hfirst
  omega

namespace Document

/-- The document consists of the lines: it has their texts and no others, each starts where those
before it end, and the line of an offset is the one that holds it, the last line for the end of
the text. -/
structure Divided (document : Document) (lines : List Text) : Prop where
  length_eq : document.length = lines.flatten.length
  text_eq : ∀ {number line}, lines[number]? = some line → document.lineText number = .ok line
  start_eq : ∀ {number line}, lines[number]? = some line →
    document.lineStart number = .ok (lineStartIn lines number)
  finds : ∀ {offset}, offset ≤ document.length → ∃ number, document.lineOf offset = .ok number
  holds : ∀ {offset number}, document.lineOf offset = .ok number → HoldsIn lines number offset

namespace Divided

variable {document : Document} {lines : List Text} {offset : Nat} {line : Line}

/-- A lookup finds the line that holds the offset, as a whole. -/
theorem lineHolding?_eq_ok (h : document.Divided lines)
    (hline : document.lineHolding? offset = .ok line) :
    HoldsIn lines line.number offset ∧ lines[line.number]? = some line.chars.toList ∧
      line.start = lineStartIn lines line.number := by
  obtain ⟨number, hnumber, start, hstart, chars, hchars, rfl⟩ :=
    Document.lineHolding?_eq_ok.mp hline
  have hholds := h.holds hnumber
  obtain ⟨text, htext, -⟩ := hholds
  rw [h.start_eq htext, Except.ok.injEq] at hstart
  rw [h.text_eq htext, Except.ok.injEq] at hchars
  exact ⟨h.holds hnumber, by rw [htext, hchars], hstart.symm⟩

/-- Every offset up to the end of the text has its line. -/
theorem lineHolding?_finds (h : document.Divided lines) (hle : offset ≤ document.length) :
    ∃ line, document.lineHolding? offset = .ok line := by
  obtain ⟨number, hnumber⟩ := h.finds hle
  obtain ⟨text, htext, -⟩ := h.holds hnumber
  exact ⟨_, Document.lineHolding?_eq_ok.mpr
    ⟨number, hnumber, _, h.start_eq htext, text, h.text_eq htext, rfl⟩⟩

/-- Lines with one number are one line. -/
theorem line_ext (h : document.Divided lines) {other : Line} {o : Nat}
    (hline : document.lineHolding? offset = .ok line)
    (hother : document.lineHolding? o = .ok other) (hnumber : line.number = other.number) :
    line = other := by
  obtain ⟨-, hchars, hstart⟩ := h.lineHolding?_eq_ok hline
  obtain ⟨-, hchars', hstart'⟩ := h.lineHolding?_eq_ok hother
  rcases line with ⟨chars, number, start⟩
  rcases other with ⟨chars', number', start'⟩
  cases hnumber
  rw [hchars, Option.some.injEq, Array.toList_inj] at hchars'
  cases hchars'
  cases hstart.trans hstart'.symm
  rfl

end Divided

end Document

/-! ## Lines of any kind -/

/-- The line that holds an offset, counted from the first of the lines on. -/
def lineHeldIn : List Text → Nat → Nat
  | [], _ => 0
  | [_], _ => 0
  | line :: next :: rest, offset =>
    if offset < line.length then 0 else lineHeldIn (next :: rest) (offset - line.length) + 1

theorem holdsIn_lineHeldIn {lines : List Text} (hlines : lines ≠ []) (offset : Nat) :
    HoldsIn lines (lineHeldIn lines offset) offset := by
  induction lines generalizing offset with
  | nil => exact absurd rfl hlines
  | cons line rest ih =>
    rcases rest with _ | ⟨next, rest⟩
    · exact ⟨line, rfl, Nat.zero_le _, Or.inr rfl⟩
    · unfold lineHeldIn
      split
      · rename_i hlt
        exact ⟨line, rfl, Nat.zero_le _, Or.inl (by simpa [lineStartIn] using hlt)⟩
      · rename_i hle
        obtain ⟨held, hheld, hstart, hend⟩ := ih (List.cons_ne_nil _ _) (offset - line.length)
        have hfirst : lineStartIn (line :: next :: rest)
            (lineHeldIn (next :: rest) (offset - line.length) + 1) =
              line.length + lineStartIn (next :: rest)
                (lineHeldIn (next :: rest) (offset - line.length)) := by
          simp [lineStartIn]
        refine ⟨held, hheld, by omega, ?_⟩
        rcases hend with hlt | hlast
        · exact Or.inl (by omega)
        · exact Or.inr (congrArg (· + 1) hlast)

/-- The document that consists of some lines, whatever they end with. -/
def Document.ofLines (lines : List Text) (delimiters : List String) : Document where
  length := lines.flatten.length
  slice := fun offset count =>
    if offset + count ≤ lines.flatten.length then .ok (stretch lines.flatten offset count)
    else .error (.outOfRange offset count lines.flatten.length)
  lineOf := fun offset =>
    if offset ≤ lines.flatten.length then .ok (lineHeldIn lines offset)
    else .error (.outOfRange offset 0 lines.flatten.length)
  lineStart := fun number =>
    if number < lines.length then .ok (lineStartIn lines number)
    else .error (.lineOutOfRange number lines.length)
  lineCount := lines.length
  delimiters
  ownLineText := none

/-- It answers from its lines. -/
theorem Document.ofLines_answersFrom (lines : List Text) (delimiters : List String) :
    (Document.ofLines lines delimiters).AnswersFrom lines where
  length_eq := rfl
  lineCount_eq := rfl
  lineStart_eq := fun _ => rfl
  slice_eq := fun hle => if_pos hle

/-- Its lines are sliced out of its text. -/
theorem Document.ofLines_divided {lines : List Text} (hlines : lines ≠ [])
    (delimiters : List String) : (Document.ofLines lines delimiters).Divided lines where
  length_eq := rfl
  text_eq := by
    intro number line hline
    have hsliced := (ofLines_answersFrom lines delimiters).slicedLineText_eq number
    rwa [lineTextIn, hline] at hsliced
  start_eq := by
    intro number line hline
    exact if_pos (List.getElem?_eq_some_iff.mp hline).1
  finds := fun hle => ⟨_, if_pos hle⟩
  holds := by
    intro offset number hnumber
    simp only [ofLines] at hnumber
    split at hnumber
    · cases hnumber
      exact holdsIn_lineHeldIn hlines offset
    · cases hnumber

/-! ## The kept line -/

/-- Every line that another one follows ends with a line feed or a carriage return, unless it is
empty. -/
def EndsInBreaks (lines : List Text) : Prop :=
  ∀ number line, lines[number]? = some line → number + 1 < lines.length →
    ∀ c, line.getLast? = some c → c = '\n' ∨ c = '\r'

theorem Scanner.KeepsLine.refill {ρ : Type} {scanner : Scanner ρ} (h : scanner.KeepsLine)
    (offset : Nat) : (scanner.refill offset).KeepsLine := by
  unfold Scanner.refill Scanner.slice
  split
  · exact h
  · rcases scanner.document.slice offset _ with _ | part <;> exact h

/-- Every operation keeps a place in a line of the document, whatever documents come in. -/
theorem Scanner.KeepsLine.kept {ρ : Type} (Admits : Document → Prop) :
    KeptByCalls Admits (Scanner.KeepsLine : Scanner ρ → Prop) := Grounded.kept {
  congr := by
    intro scanner other h hsame place hplace
    rw [hsame.place] at hplace
    rw [hsame.document]
    exact h place hplace
  refill := fun offset h => h.refill offset
  placeAt := by
    intro scanner offset h
    obtain ⟨found, kept, tally, hplace, hkept⟩ := Scanner.placeAt_line h offset
    rw [hplace]
    exact hkept
  enter := fun h _ => h
  leave := fun h _ => h
  assign := by
    intro scanner after document offset length _ _ hassign
    obtain ⟨-, rfl⟩ := Scanner.assign_eq_ok_iff.mp hassign
    have hnone : ({ scanner with document, place := none } : Scanner ρ).KeepsLine :=
      fun _ hplace => by cases hplace
    exact hnone.refill offset }

variable {document : Document} {lines : List Text} {offset : Nat}

/-- A place near an offset that its line reaches leads to the place of the offset, on the same
line. -/
theorem Scanner.placeAt_of_near {ρ : Type} {scanner after : Scanner ρ} {place : LinePlace}
    (hnear : scanner.placeNear offset = (.ok place, after)) (hinside : place.Inside)
    (hstart : place.line.start ≤ offset)
    (hstop : offset ≤ place.line.start + place.line.length) :
    ∃ found, scanner.placeAt offset = (.ok found, { after with place := some found }) ∧
      found.line = place.line ∧ found.Inside := by
  obtain ⟨found, hfound⟩ : ∃ found, place.at? offset = some found := by
    refine ⟨_, if_pos ?_⟩
    simp only [Bool.and_eq_true, decide_eq_true_eq]
    omega
  obtain ⟨hline, -, hfits⟩ := LinePlace.at?_spec hinside hfound
  refine ⟨found, ?_, hline, hfits⟩
  rw [placeAt, hnear]
  dsimp only
  rw [hfound]

/-- The line of an offset reaches up to it. -/
theorem Document.Divided.reaches (h : document.Divided lines) {line : Line}
    (hle : offset ≤ document.length) (hline : document.lineHolding? offset = .ok line) :
    line.start ≤ offset ∧ offset ≤ line.start + line.length := by
  obtain ⟨⟨text, htext, hstart, hend⟩, hchars, hbegins⟩ := h.lineHolding?_eq_ok hline
  have hsize : text.length = line.length := by
    rw [htext, Option.some.injEq] at hchars
    rw [hchars]
    rfl
  rw [hbegins]
  refine ⟨hstart, ?_⟩
  rcases hend with hlt | hlast
  · omega
  · have hnext := lineStartIn_succ htext
    rw [hlast, lineStartIn, List.take_length, ← h.length_eq] at hnext
    omega

/-- Where lines end in breaks, a kept line that serves an offset is the line of the offset. -/
theorem Document.Divided.serves_holds (h : document.Divided lines) (hbreaks : EndsInBreaks lines)
    {line : Line} {o : Nat} (hline : document.lineHolding? o = .ok line)
    (hserves : line.serves offset = true) : HoldsIn lines line.number offset := by
  obtain ⟨⟨text, htext, hfirst, hend⟩, hchars, hbegins⟩ := h.lineHolding?_eq_ok hline
  have hsame : text = line.chars.toList := by
    rw [htext, Option.some.injEq] at hchars
    exact hchars
  have hsize : text.length = line.length := by
    rw [hsame]
    rfl
  simp only [Line.serves, Bool.and_eq_true, Bool.or_eq_true, decide_eq_true_eq,
    beq_iff_eq] at hserves
  obtain ⟨hstart, hin⟩ := hserves
  refine ⟨text, htext, by omega, ?_⟩
  rcases hin with hlt | ⟨hat, hopen⟩
  · left
    omega
  · right
    -- At its end a line is kept only if it ends in no break, so no other line follows it.
    by_cases hlast : line.number + 1 = lines.length
    · exact hlast
    · exfalso
      have hnumber := (List.getElem?_eq_some_iff.mp htext).1
      have hlong : text ≠ [] := by
        rintro rfl
        simp only [List.length_nil] at hend
        omega
      have hends := List.getLast?_eq_some_getLast hlong
      have hbreak := hbreaks line.number text htext (by omega) _ hends
      rw [← Array.getLast?_toList, ← hsame, hends] at hopen
      rcases hbreak with hc | hc <;> simp [hc] at hopen

/-- A line that another one follows and that ends in no break is still kept at its end. -/
theorem Line.serves_end {line : Line} {text : Text} {c : Char} (hchars : text = line.chars.toList)
    (hc : text.getLast? = some c) (hopen : ¬ (c = '\n' ∨ c = '\r')) :
    line.serves (line.start + line.length) = true := by
  have hback : line.chars.back? = some c := by rw [← Array.getLast?_toList, ← hchars, hc]
  simpa [serves, hback] using hopen

/-- A scanner that keeps no place looks the line of an offset up. -/
theorem Scanner.placeNear_of_none {ρ : Type} (scanner : Scanner ρ) {line : Line}
    (hnone : scanner.place = none) (hline : scanner.document.lineHolding? offset = .ok line) :
    ∃ tally, scanner.placeNear offset =
      (.ok (.atStart line), { scanner with place := some (.atStart line), tally }) := by
  obtain ⟨tally, hlookup⟩ := scanner.lineHolding_spec offset
  refine ⟨tally, ?_⟩
  unfold placeNear
  rw [hnone, Option.filter_none, hlookup, hline]

theorem Scanner.placeNear_of_serves {ρ : Type} {scanner : Scanner ρ} {place : LinePlace}
    (hplace : scanner.place = some place) (hserves : place.line.serves offset = true) :
    scanner.placeNear offset = (.ok place, scanner) := by
  unfold placeNear
  rw [hplace, Option.filter_some, if_pos hserves]

/-- A line that has been looked up is found again at every offset that it serves, whatever line
the document has for that offset. -/
theorem a_line_is_kept_where_it_serves (settings : Settings) {line : Line} {first : Nat}
    (hline : document.lineHolding? first = .ok line) (hstart : line.start ≤ first)
    (hstop : first ≤ line.start + line.length) (hserves : line.serves offset = true) :
    ∃ scanner : Scanner Region, Reached (fun _ => True) settings scanner ∧
      scanner.document = document ∧
      ∃ found, (scanner.placeAt offset).1 = .ok found ∧ found.line = line := by
  let fresh : Scanner Region := Scanner.fresh document settings
  have hfresh : Reached (fun _ => True) settings fresh := .fresh document trivial
  obtain ⟨tally, hnear⟩ := fresh.placeNear_of_none rfl hline
  obtain ⟨place, hplace, hsame, hinside⟩ :=
    Scanner.placeAt_of_near hnear (Nat.zero_le _) hstart hstop
  have hreached := hfresh.call (.placeAt first) (fun _ _ => trivial)
  rw [Call.placeAt_after, hplace] at hreached
  let looked : Scanner Region := { fresh with place := some place, tally }
  refine ⟨looked, hreached, rfl, ?_⟩
  have hkept : looked.place = some place := rfl
  have hagain : place.line.serves offset = true := hsame ▸ hserves
  have hreaches : place.line.start ≤ offset ∧ offset ≤ place.line.start + place.line.length := by
    simp only [Line.serves, Bool.and_eq_true, Bool.or_eq_true, decide_eq_true_eq,
      beq_iff_eq] at hagain
    omega
  obtain ⟨found, hfound, hfoundline, -⟩ := Scanner.placeAt_of_near
    (Scanner.placeNear_of_serves hkept hagain) hinside hreaches.1 hreaches.2
  exact ⟨found, congrArg Prod.fst hfound, hfoundline.trans hsame⟩

/-! ## The law -/

/-- Where a session may scan any documents, and this one divides its text into lines in its own
way, each lookup of an offset in it finds the line that a new lookup finds just if every line
that another one follows ends with a line feed or a carriage return, unless it is empty. -/
theorem kept_lines_are_those_of_the_document_iff (h : document.Divided lines)
    (settings : Settings) :
    (∀ scanner : Scanner Region, Reached (fun _ => True) settings scanner →
      scanner.document = document → ∀ offset ≤ document.length,
        Except.map LinePlace.line (scanner.placeAt offset).1 = (scanner.lineHolding offset).1) ↔
    EndsInBreaks lines := by
  constructor
  · intro hsame number text htext hnext c hc
    by_cases hbreak : c = '\n' ∨ c = '\r'
    · exact hbreak
    · exfalso
      have hend := lineStartIn_succ htext
      have hle := lineStartIn_le lines (number + 1)
      have hlong : text ≠ [] := by
        rintro rfl
        simp at hc
      have hholds : HoldsIn lines number (lineStartIn lines number) :=
        ⟨text, htext, Nat.le_refl _, Or.inl (by have := List.length_pos_iff.mpr hlong; omega)⟩
      -- The line is looked up at its start, and then asked for at its end.
      obtain ⟨line, hline⟩ : ∃ line, document.lineHolding? (lineStartIn lines number) = .ok line :=
        h.lineHolding?_finds (h.length_eq ▸ lineStartIn_le lines number)
      obtain ⟨hat, hchars, hstart⟩ := h.lineHolding?_eq_ok hline
      obtain rfl := hat.unique hholds
      rw [htext, Option.some.injEq] at hchars
      have hstop : line.start + line.length = lineStartIn lines (line.number + 1) := by
        rw [hend, hstart, hchars]
        rfl
      obtain ⟨scanner, hreached, hdoc, found, hfound, hkept⟩ :=
        a_line_is_kept_where_it_serves settings hline (by omega) (by omega)
          (Line.serves_end hchars hc hbreak)
      have hagree := hsame scanner hreached hdoc (line.start + line.length)
        (by rw [hstop, h.length_eq]; exact hle)
      obtain ⟨_, hlookup⟩ := scanner.lineHolding_spec (line.start + line.length)
      rw [hfound, hlookup, hdoc, Except.map, hkept] at hagree
      obtain ⟨⟨other, hother, -, hend'⟩, -⟩ := h.lineHolding?_eq_ok hagree.symm
      obtain rfl : text = other := Option.some.inj (htext.symm.trans hother)
      omega
  · intro hbreaks scanner hreached hdoc offset hle
    have hkept : scanner.KeepsLine := hreached.invariant (fun _ _ _ hplace => by cases hplace)
      (Scanner.KeepsLine.kept fun _ => True)
    obtain ⟨near, kept, tally, hnear, -, herror, hplace⟩ := Scanner.placeNear_line hkept offset
    obtain ⟨_, hlookup⟩ := scanner.lineHolding_spec offset
    obtain ⟨line, hline⟩ := h.lineHolding?_finds hle
    rw [hdoc] at herror hplace hlookup
    rw [hlookup, hline]
    rcases near with reason | place
    · cases hline.symm.trans (herror reason rfl)
    · obtain ⟨⟨hinside, o, hof⟩, hwhy⟩ := hplace place rfl
      have hat : place.line = line := by
        rcases hwhy with hholds | hserves
        · exact Except.ok.inj (hholds.symm.trans hline)
        · exact h.line_ext hof hline ((h.serves_holds hbreaks hof hserves).unique
            (h.lineHolding?_eq_ok hline).1)
      obtain ⟨hstart, hstop⟩ := h.reaches hle hline
      obtain ⟨found, hfound, hfoundline, -⟩ :=
        Scanner.placeAt_of_near hnear hinside (hat ▸ hstart) (hat ▸ hstop)
      rw [hfound, ← hat, ← hfoundline]
      rfl

/-- A document that counts line feeds and semicolons as ends of lines, of which its lines happen
to end with line feeds only. -/
theorem kept_lines_with_line_feeds_are_those_of_the_document :
    ∃ document : Document, document.delimiters = ["\n", ";"] ∧
      document.Divided [['a', '\n'], ['b']] ∧
      ∀ scanner : Scanner Region, Reached (fun _ => True) ⟨3, by decide⟩ scanner →
        scanner.document = document → ∀ offset ≤ document.length,
          Except.map LinePlace.line (scanner.placeAt offset).1 =
            (scanner.lineHolding offset).1 := by
  have hdivided := Document.ofLines_divided (show [['a', '\n'], ['b']] ≠ [] by decide) ["\n", ";"]
  refine ⟨_, rfl, hdivided, (kept_lines_are_those_of_the_document_iff hdivided _).mpr ?_⟩
  intro number line hline hnext c hc
  obtain rfl : number = 0 := by
    simp only [List.length_cons, List.length_nil] at hnext
    omega
  cases hline
  simp only [List.getLast?_cons_cons, List.getLast?_singleton, Option.some.injEq] at hc
  exact Or.inl hc.symm

/-- The first line of `a;b`, in a document whose lines end with semicolons, is looked up and then
found again for the offset at which the second line starts. -/
theorem a_line_with_a_semicolon_is_kept_behind_its_end :
    let document := Document.ofLines [['a', ';'], ['b']] [";"]
    document.Divided [['a', ';'], ['b']] ∧ 2 ≤ document.length ∧
      ∃ scanner : Scanner Region, Reached (fun _ => True) ⟨3, by decide⟩ scanner ∧
        scanner.document = document ∧
        Except.map LinePlace.line (scanner.placeAt 2).1 = .ok ⟨#['a', ';'], 0, 0⟩ ∧
        (scanner.lineHolding 2).1 = .ok ⟨#['b'], 1, 2⟩ := by
  intro document
  refine ⟨Document.ofLines_divided (by decide) _, by decide,
    (Call.placeAt 0).step.after (Scanner.fresh document ⟨3, by decide⟩),
    (Reached.fresh document trivial).call _ fun _ _ => trivial, rfl, rfl, rfl⟩

end RegionScan
