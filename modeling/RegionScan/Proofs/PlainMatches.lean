-- Matches in the bytes of a line. A scanner keeps the line it looked at last, and comes to a
-- place in it by steps from the place before. All the same a match at the mark is the one
-- that a search of the UTF-8 of the whole line finds there.
import RegionScan.Proofs.Cursors
import RegionScan.Proofs.Faults

namespace RegionScan

/-! ## Matches in bytes -/

namespace Pattern

variable {pattern : Pattern} {line : Line} {column length : Nat}

/-- The byte of the line at which the pattern's match from another byte on ends. No match starts
inside a character. -/
def matchStop? (pattern : Pattern) (line : Line) (first : Nat) : Option Nat :=
  let column := charCount (line.bytes.take first)
  if line.byteAt column = first then
    (pattern.matchLength? line.chars column).map fun length => line.byteAt (column + length)
  else none

/-- The length of a match is the number of characters in its bytes. -/
theorem matchStop?_map (pattern : Pattern) (hcolumn : column ≤ line.length) :
    ((pattern.matchStop? line (line.byteAt column)).map fun stop =>
      charCount ((line.bytes.take stop).drop (line.byteAt column))) =
        pattern.matchLength? line.chars column := by
  rw [matchStop?, Line.charCount_take hcolumn, if_pos rfl, Option.map_map]
  rcases hfound : pattern.matchLength? line.chars column with _ | length
  · rfl
  · have hle := pattern.matchLength?_le hfound
    have hin : column + length ≤ line.length := by
      unfold Line.length at *
      omega
    exact congrArg some (Line.charCount_between hin)

end Pattern

/-- As `Scanner.placeNear`, by the bytes of the line that is kept. -/
def Scanner.placeBytesNear {ρ : Type} (scanner : Scanner ρ) (offset : Nat) :
    Except LookupError LinePlace × Scanner ρ :=
  match scanner.place.filter (·.line.servesBytes offset) with
  | some place => (.ok place, scanner)
  | none =>
    match scanner.lineHolding offset with
    | (.ok line, scanner) =>
      (.ok (.atStart line), { scanner with place := some (.atStart line) })
    | (.error reason, scanner) => (.error reason, scanner)

/-- As `Scanner.placeAt`, by steps over bytes. -/
def Scanner.placeBytesAt {ρ : Type} (scanner : Scanner ρ) (offset : Nat) :
    Except Misstep (Except LookupError LinePlace × Scanner ρ) :=
  match scanner.placeBytesNear offset with
  | (.error reason, scanner) => return (.error reason, scanner)
  | (.ok place, scanner) => do
    match ← LinePlace.seekBytes offset place with
    | (some _, place) => return (.ok place, { scanner with place := some place })
    | (none, _) => return (.error (.outOfRange offset 0 scanner.document.length), scanner)

/-- As `matchAtMark`, in the bytes of the line: the search starts at the byte of the mark and gives
the byte behind the match, and the characters between the two are counted. -/
def matchBytesAtMark (pattern : Pattern) (scanner : Scanner Region) :
    Except Misstep (EStateM.Result Halt (Scanner Region) (Option Nat)) := do
  if scanner.rangeEnd < scanner.mark then return .ok none scanner
  let (place, after) ← scanner.placeBytesAt scanner.mark
  match place with
  | .error _ => return .ok none after
  | .ok place =>
    match pattern.matchStop? place.line place.byte with
    | none => return .ok none after
    | some stop =>
      let length := charCount ((place.line.bytes.take stop).drop place.byte)
      return (do
        return if (← Scan.sum scanner.mark length) ≤ scanner.rangeEnd then some length else none :
          RuleScan (Option Nat)) after

theorem Scanner.placeBytesNear_eq {ρ : Type} (scanner : Scanner ρ) (offset : Nat) :
    scanner.placeBytesNear offset = scanner.placeNear offset := by
  unfold Scanner.placeBytesNear Scanner.placeNear
  generalize hkept : scanner.place.filter (·.line.servesBytes offset) = kept
  simp only [Line.servesBytes_eq] at hkept
  subst hkept
  rfl

/-- The steps over bytes make no misstep, and they come to the place of the offset. -/
theorem Scanner.KeepsExact.placeBytesAt_eq {ρ : Type} {scanner : Scanner ρ}
    (h : scanner.KeepsExact) (offset : Nat) :
    scanner.placeBytesAt offset = .ok (scanner.placeAt offset) := by
  have hexact := (h.placeNear offset).2
  unfold Scanner.placeBytesAt Scanner.placeAt
  rw [scanner.placeBytesNear_eq offset]
  rcases hnear : scanner.placeNear offset with ⟨reason | place, after⟩ <;> rw [hnear] at hexact
  · rfl
  · dsimp only
    rw [(hexact place rfl).seekBytes_eq, LinePlace.seek]
    rcases place.at? offset with _ | found <;> rfl

/-- A match over bytes at the mark is the match over characters. -/
theorem Scanner.KeepsExact.matchBytesAtMark_eq {scanner : Scanner Region} (h : scanner.KeepsExact)
    (pattern : Pattern) : matchBytesAtMark pattern scanner = .ok (matchAtMark pattern scanner) := by
  have hexact := (h.placeAt scanner.mark).2
  unfold matchBytesAtMark
  rw [matchAtMark_eq, h.placeBytesAt_eq]
  split
  · rfl
  · rcases hplace : scanner.placeAt scanner.mark with ⟨reason | place, after⟩ <;>
      rw [hplace] at hexact
    · rfl
    · have hlength := Pattern.matchStop?_map pattern (hexact place rfl).column_le
      rw [← (hexact place rfl).byte_eq] at hlength
      dsimp only
      rw [← hlength]
      simp only [bind, Except.bind]
      rcases pattern.matchStop? place.line place.byte with _ | stop
      · rfl
      · dsimp only [Option.map_some]
        generalize charCount ((place.line.bytes.take stop).drop place.byte) = length
        unfold EStateM.bind Scan.sum
        by_cases hsum : scanner.mark + length ≤ maxOffset
        · rw [if_pos hsum, if_pos hsum]
          rfl
        · rw [if_neg hsum, if_neg hsum]
          rfl

/-! ## The law -/

/-- Over a text, the match at the mark is the one on the line of the mark, if it ends in the
range. -/
theorem matchAtMark_text {doc : VersionedText} {scanner : Scanner Region} (hs : scanner.Current)
    (hdoc : scanner.document = doc.toDocument) (hsmall : doc.text.length ≤ maxOffset)
    (pattern : Pattern) :
    ∃ found after, matchAtMark pattern scanner = .ok found after ∧ ∀ n, found = some n ↔
      scanner.mark ≤ scanner.rangeEnd ∧ scanner.mark ≤ doc.text.length ∧
        pattern.lengthIn? doc.text scanner.mark = some n ∧
        scanner.mark + n ≤ scanner.rangeEnd := by
  rw [matchAtMark_eq]
  by_cases hrange : scanner.rangeEnd < scanner.mark
  · rw [if_pos hrange]
    exact ⟨none, _, rfl, fun n => ⟨nofun, fun h => by omega⟩⟩
  · rw [if_neg hrange]
    obtain ⟨found, cache, hplace, -, hwhich⟩ := Scanner.placeAt_text hs hdoc scanner.mark
    rw [hplace]
    rcases hwhich with ⟨hle, place, rfl, hline, hcolumn⟩ | ⟨hlt, reason, rfl⟩
    · have hlength : pattern.matchLength? place.line.chars place.column =
          pattern.lengthIn? doc.text scanner.mark := by
        rw [hline, hcolumn]
        rfl
      dsimp only
      rw [hlength]
      rcases hfound : pattern.lengthIn? doc.text scanner.mark with _ | length
      · exact ⟨none, _, rfl, fun n => ⟨nofun, fun h => nomatch h.2.2.1⟩⟩
      · have hstop := Pattern.lengthIn?_le_length hfound hle
        dsimp only
        rw [if_pos (Nat.le_trans hstop hsmall)]
        refine ⟨_, _, rfl, fun n => ?_⟩
        by_cases hend : scanner.mark + length ≤ scanner.rangeEnd
        · rw [if_pos hend]
          constructor
          · intro h
            cases h
            exact ⟨Nat.le_of_not_lt hrange, hle, rfl, hend⟩
          · exact fun h => h.2.2.1
        · rw [if_neg hend]
          constructor
          · intro h
            cases h
          · rintro ⟨-, -, h, hin⟩
            cases h
            exact absurd hin hend
    · exact ⟨none, _, rfl, fun n => ⟨nofun, fun h => by omega⟩⟩

/-- In every state of every session over texts, a match at the mark is found just where the mark
is in the range and in the text, and a search of the UTF-8 of the whole line of the mark, from
the byte of the mark on, finds a match that ends in the range. Its length is the number of
characters in the bytes that it matches. The line that is kept, and the place in it, make no
difference: over bytes all the way the match is the same, for the byte that is come to by steps
from there is the byte of the mark, and no step is a misstep. -/
theorem a_match_is_the_one_in_the_bytes_of_its_line {settings : Settings}
    {scanner : Scanner Region} (h : Reached IsText settings scanner) {doc : VersionedText}
    (hdoc : scanner.document = doc.toDocument) (hsmall : doc.text.length ≤ maxOffset)
    (pattern : Pattern) :
    ∃ found after, matchAtMark pattern scanner = .ok found after ∧
      matchBytesAtMark pattern scanner = .ok (.ok found after) ∧
      Reached IsText settings after ∧
      (∀ n, found = some n ↔ scanner.mark ≤ scanner.rangeEnd ∧ scanner.mark ≤ doc.text.length ∧
        (∃ line stop, scanner.document.lineHolding? scanner.mark = .ok line ∧
          pattern.matchStop? line (line.byteAt (scanner.mark - line.start)) = some stop ∧
          charCount ((line.bytes.take stop).drop (line.byteAt (scanner.mark - line.start))) = n) ∧
        scanner.mark + n ≤ scanner.rangeEnd) ∧
      (∀ place, scanner.place = some place →
        LinePlace.seekBytes scanner.mark place = .ok (LinePlace.seek scanner.mark place)) ∧
      ∀ place, (scanner.placeAt scanner.mark).1 = .ok place →
        place.byte = place.line.byteAt (scanner.mark - place.line.start) := by
  obtain ⟨-, hcurrent, -⟩ := h.onText
  have hexact : scanner.KeepsExact :=
    h.invariant (fun _ _ _ hplace => by cases hplace) (Scanner.KeepsExact.kept IsText)
  obtain ⟨found, after, hmatch, hfound⟩ := matchAtMark_text hcurrent hdoc hsmall pattern
  refine ⟨found, after, hmatch, hmatch ▸ hexact.matchBytesAtMark_eq pattern, ?_, ?_, ?_, ?_⟩
  · have hafter : (matchAtMark pattern).after scanner = after := by rw [Scan.after, hmatch]
    rcases matchAtMark_after pattern scanner with hsame | hlookup
    · rw [← hafter, hsame]
      exact h
    · rw [← hafter, hlookup, ← Call.placeAt_after]
      exact h.call _ fun _ hnone => by cases hnone
  · intro n
    rw [hfound n]
    refine and_congr_right fun _ => and_congr_right fun hle => and_congr_left fun _ => ?_
    have hcolumn : scanner.mark - (lineAt doc.text scanner.mark).start ≤
        (lineAt doc.text scanner.mark).length := by
      have := le_lineAt_stop hle
      omega
    rw [Pattern.lengthIn?, ← Pattern.matchStop?_map pattern hcolumn, Option.map_eq_some_iff, hdoc,
      VersionedText.toDocument_lineHolding? hle]
    simp
  · exact fun place hplace => (hexact place hplace).seekBytes_eq scanner.mark
  · intro place hplace
    have hcolumn : place.column = scanner.mark - place.line.start := by
      obtain ⟨near, cache, hnear, -, hwhich⟩ := Scanner.placeAt_text hcurrent hdoc scanner.mark
      rw [hnear] at hplace
      rcases hwhich with ⟨-, other, hother, hline, hcolumn⟩ | ⟨-, reason, hreason⟩
      · obtain rfl : other = place := Except.ok.inj (hother.symm.trans hplace)
        rw [hcolumn, hline]
      · cases hreason.symm.trans hplace
    rw [((hexact.placeAt scanner.mark).2 place hplace).byte_eq, hcolumn]

/-- A match of a character of two bytes, behind a break of two characters, while the place that
is kept is inside that break. -/
theorem a_match_is_the_one_in_the_bytes_of_the_second_line :
    ∃ scanner after : Scanner Region, Reached IsText ⟨3, by decide⟩ scanner ∧
      scanner.place = some ⟨⟨#['é', '\r', '\n'], 0, 0⟩, 2, 3⟩ ∧ scanner.mark = 3 ∧
      matchAtMark (.char 'ü') scanner = .ok (some 1) after := by
  let doc : VersionedText := .ofText ['é', '\r', '\n', 'ü', 'x']
  let fresh : Scanner Region := Scanner.fresh doc.toDocument ⟨3, by decide⟩
  let ranged : Scanner Region := { fresh with
    window := ⟨#['é', '\r', '\n'], 0, 3, by decide⟩, rangeEnd := 5, tally := ⟨1, 0⟩ }
  let placed : Scanner Region := { ranged with
    place := some ⟨⟨#['é', '\r', '\n'], 0, 0⟩, 2, 3⟩, tally := ⟨1, 1⟩ }
  have h0 : Reached IsText ⟨3, by decide⟩ fresh := .fresh _ ⟨doc, rfl⟩
  have h1 : Reached IsText ⟨3, by decide⟩ ranged :=
    h0.call (.assign doc.toDocument 0 5) fun _ hdoc => ⟨doc, by cases hdoc; rfl⟩
  have h2 : Reached IsText ⟨3, by decide⟩ placed :=
    h1.call (.placeAt 2) fun _ hdoc => by cases hdoc
  have h3 : Reached IsText ⟨3, by decide⟩ { placed with
      window := ⟨#['ü', 'x'], 3, 3, by decide⟩, mark := 3, tally := ⟨2, 1⟩ } :=
    h2.call (.moveTo 3) fun _ hdoc => by cases hdoc
  have hdoc : placed.document = doc.toDocument := rfl
  obtain ⟨found, after, hmatch, -, -, hfound, -⟩ :=
    a_match_is_the_one_in_the_bytes_of_its_line h3 hdoc (by decide) (.char 'ü')
  have hone : found = some 1 :=
    (hfound 1).mpr ⟨by decide, by decide, ⟨⟨#['ü', 'x'], 1, 3⟩, 2, rfl, by decide, by decide⟩,
      by decide⟩
  exact ⟨_, after, h3, rfl, rfl, hone ▸ hmatch⟩

end RegionScan
