-- Steps of a scan, one law for each: what the step gives, in words of the text, and
-- that of the scanner it changes the mark, the queue and the parked end alone, but
-- for what lookups leave behind.
import RegionScan.Proofs.Caches
import RegionScan.Proofs.Calls
import RegionScan.Proofs.Walks

namespace RegionScan

/-! ## Steps that come through -/

/-- A step comes through, with a value and a state of which `post` holds. -/
def Scan.Leads {ρ α : Type} (step : Scan ρ α) (scanner : Scanner ρ)
    (post : α → Scanner ρ → Prop) : Prop :=
  ∃ value after, step scanner = .ok value after ∧ post value after

namespace Scan.Leads

variable {ρ α β : Type} {scanner : Scanner ρ} {step : Scan ρ α} {next : α → Scan ρ β}
  {post : β → Scanner ρ → Prop}

theorem bind (h : step.Leads scanner fun value after => (next value).Leads after post) :
    (step >>= next).Leads scanner post := by
  obtain ⟨value, middle, hstep, final, after, hnext, hpost⟩ := h
  refine ⟨final, after, ?_, hpost⟩
  simp only [Bind.bind, EStateM.bind, hstep]
  exact hnext

theorem mono {post post' : α → Scanner ρ → Prop} (h : step.Leads scanner post)
    (himp : ∀ value after, post value after → post' value after) : step.Leads scanner post' := by
  obtain ⟨value, after, hstep, hpost⟩ := h
  exact ⟨value, after, hstep, himp value after hpost⟩

/-- A step comes through if it goes on as one that comes through. -/
theorem of_eq {other : Scan ρ α} {middle : Scanner ρ} {post : α → Scanner ρ → Prop}
    (heq : step scanner = other middle) (h : other.Leads middle post) :
    step.Leads scanner post := by
  obtain ⟨value, after, hother, hpost⟩ := h
  exact ⟨value, after, heq.trans hother, hpost⟩

theorem pure {value : β} (h : post value scanner) :
    (Pure.pure value : Scan ρ β).Leads scanner post := ⟨value, scanner, rfl, h⟩

theorem difference {start stop : Nat} {post : Nat → Scanner ρ → Prop} (hle : start ≤ stop)
    (h : post (stop - start) scanner) : (Scan.difference stop start).Leads scanner post :=
  ⟨stop - start, scanner, by rw [Scan.difference, if_pos hle]; rfl, h⟩

theorem sum {offset length : Nat} {post : Nat → Scanner ρ → Prop}
    (hle : offset + length ≤ maxOffset) (h : post (offset + length) scanner) :
    (Scan.sum offset length).Leads scanner post :=
  ⟨offset + length, scanner, by rw [Scan.sum, if_pos hle]; rfl, h⟩

theorem get {next : Scanner ρ → Scan ρ β} (h : (next scanner).Leads scanner post) :
    (MonadState.get >>= next).Leads scanner post := bind ⟨scanner, scanner, rfl, h⟩

theorem changed {change : Scanner ρ → Scanner ρ} {post : Unit → Scanner ρ → Prop}
    (h : post () (change scanner)) :
    (modify change : Scan ρ Unit).Leads scanner post := ⟨(), change scanner, rfl, h⟩

end Scan.Leads

/-! ## States along a walk -/

/-- What the document gives, and what of the text a window of some capacity may miss, is known. -/
structure Document.Shows (document : Document) (capacity : Nat) (text : Text) (sight : Sight) :
    Prop where
  holds : document.Over text
  small : text.length < maxOffset
  hides : ∀ offset, offset ≤ text.length → ∀ lost,
    document.lineHolding? offset = .error lost → sight.hides offset
  shown : ∀ offset other, document.lineHolding? other = .ok (lineAt text offset) →
    ¬ sight.hides offset
  withholds : ∀ offset, offset < text.length → document.Withholds capacity offset →
    sight.withholds offset
  grants : ∀ offset, document.Grants capacity offset → sight.grants offset

/-- A text document shows everything. -/
theorem VersionedText.toDocument_shows (doc : VersionedText) (capacity : Nat)
    (hsmall : doc.text.length < maxOffset) :
    doc.toDocument.Shows capacity doc.text Sight.whole where
  holds := doc.toDocument_over
  small := hsmall
  hides := by
    intro offset hle lost hlost
    rw [toDocument_lineHolding? hle] at hlost
    cases hlost
  shown := fun _ _ _ => id
  withholds := by
    intro offset hlt h
    exact absurd (toDocument_slice.mpr
      ⟨by show offset + (min _ doc.text.length - _) ≤ _; omega, rfl⟩) (h _)
  grants := fun _ _ => trivial

/-- What a text with lost characters shows to windows of some capacity: a line with one of them in
it is hidden, and a window over one cannot be filled. -/
def Sight.missing (text : Text) (lost : Nat → Prop) (capacity : Nat) : Sight where
  hides offset := ∃ o, lost o ∧ (lineAt text offset).start ≤ o ∧
    o < (lineAt text offset).start + (lineAt text offset).length
  withholds offset := ∃ o, lost o ∧ offset ≤ o ∧ o < min (offset + capacity) text.length
  grants offset := ∃ first, first ≤ offset ∧ offset < min (first + capacity) text.length ∧
    ∀ o, lost o → first ≤ o → min (first + capacity) text.length ≤ o

theorem Document.Loses.shows {document : Document} {doc : VersionedText} {lost : Nat → Prop}
    (h : document.Loses doc.toDocument lost) (capacity : Nat)
    (hsmall : doc.text.length < maxOffset) :
    document.Shows capacity doc.text (.missing doc.text lost capacity) where
  holds := h.thins.over_text
  small := hsmall
  hides := by
    intro offset hle reason hreason
    refine Classical.byContradiction fun hwhole => ?_
    have hline : document.lineHolding? offset = .ok (lineAt doc.text offset) :=
      (h.lineHolding?_iff hle).mpr fun o ho hstart =>
        Nat.le_of_not_lt fun hlt => hwhole ⟨o, ho, hstart, hlt⟩
    rw [hreason] at hline
    cases hline
  shown := by
    rintro offset other hother ⟨o, ho, hstart, hlt⟩
    obtain ⟨hle, hsame⟩ := h.thins.over_text.line_eq hother
    rw [hsame] at hother hstart hlt
    exact absurd hlt (Nat.not_lt_of_le ((h.lineHolding?_iff hle).mp hother o ho hstart))
  withholds := by
    intro offset hlt hwithheld
    have hlength : document.length = doc.text.length := h.length_eq
    refine Classical.byContradiction fun hwhole => hwithheld _ (h.slice_iff.mpr
      ⟨?_, VersionedText.toDocument_slice.mpr ⟨?_, rfl⟩⟩)
    · intro o ho hle
      refine Nat.le_of_not_lt fun hin => hwhole ⟨o, ho, hle, ?_⟩
      unfold Document.reach at hin
      rw [hlength] at hin
      omega
    · unfold Document.reach
      rw [hlength]
      omega
  grants := by
    rintro offset ⟨first, part, hfirst, hlt, hslice⟩
    have hlength : document.length = doc.text.length := h.length_eq
    unfold Document.reach at hlt hslice
    rw [hlength] at hlt hslice
    refine ⟨first, hfirst, by omega, fun o ho hle => ?_⟩
    have hout := (h.slice_iff.mp hslice).1 o ho hle
    omega

namespace Scanner

/-- The scanner stands in a range of a text. -/
structure Sees (scanner : Scanner Region) (text : Text) (sight : Sight) : Prop where
  current : scanner.Current
  shows : scanner.document.Shows scanner.window.capacity text sight
  mark_le : scanner.mark ≤ scanner.rangeEnd
  end_le : scanner.rangeEnd ≤ text.length

/-- Open regions do not matter. -/
theorem Sees.openRegion {scanner : Scanner Region} {text : Text} {sight : Sight}
    (h : scanner.Sees text sight) (region : Region) : (scanner.openRegion region).Sees text sight :=
  ⟨⟨h.current.1, h.current.2⟩, h.shows, h.mark_le, h.end_le⟩

/-- The state behind a passage: spans are queued, the mark and the parked end are given, and all
else is as it was, but for lookups and for the last match. -/
structure Walked (scanner after : Scanner Region) (spans : List Span) (mark : Nat)
    (parked : Option (ParkedEnd Region)) : Prop where
  eq : ∃ cache lastMatch, after =
    { scanner with mark, queue := scanner.queue ++ spans, parked, lastMatch }.withCache cache
  current : after.Current

variable {scanner middle after : Scanner Region} {text : Text} {sight : Sight}
  {spans more : List Span} {mark : Nat} {parked other : Option (ParkedEnd Region)}

namespace Walked

theorem mark_eq (h : scanner.Walked after spans mark parked) : after.mark = mark := by
  obtain ⟨cache, lastMatch, rfl⟩ := h.eq
  rfl

theorem queue_eq (h : scanner.Walked after spans mark parked) :
    after.queue = scanner.queue ++ spans := by
  obtain ⟨cache, lastMatch, rfl⟩ := h.eq
  rfl

theorem parked_eq (h : scanner.Walked after spans mark parked) : after.parked = parked := by
  obtain ⟨cache, lastMatch, rfl⟩ := h.eq
  rfl

theorem rangeEnd_eq (h : scanner.Walked after spans mark parked) :
    after.rangeEnd = scanner.rangeEnd := by
  obtain ⟨cache, lastMatch, rfl⟩ := h.eq
  rfl

theorem openRegions_eq (h : scanner.Walked after spans mark parked) :
    after.openRegions = scanner.openRegions := by
  obtain ⟨cache, lastMatch, rfl⟩ := h.eq
  rfl

theorem frames_eq (h : scanner.Walked after spans mark parked) :
    after.frames = scanner.frames := by
  obtain ⟨cache, lastMatch, rfl⟩ := h.eq
  rfl

theorem token_eq (h : scanner.Walked after spans mark parked) :
    after.tokenStart = scanner.tokenStart ∧ after.currentSpan = scanner.currentSpan := by
  obtain ⟨cache, lastMatch, rfl⟩ := h.eq
  exact ⟨rfl, rfl⟩

theorem trans {stop : Nat} (h : scanner.Walked middle spans mark parked)
    (hmore : middle.Walked after more stop other) :
    scanner.Walked after (spans ++ more) stop other := by
  obtain ⟨cache, lastMatch, rfl⟩ := h.eq
  obtain ⟨cache', lastMatch', rfl⟩ := hmore.eq
  refine ⟨⟨cache', lastMatch', ?_⟩, hmore.current⟩
  simp only [withCache, List.append_assoc]

theorem setLastMatch (h : scanner.Walked after spans mark parked) (lastMatch : Nat) :
    scanner.Walked { after with lastMatch } spans mark parked := by
  have hcurrent := h.current
  obtain ⟨cache, other, rfl⟩ := h.eq
  exact ⟨⟨cache, lastMatch, rfl⟩, hcurrent.1, hcurrent.2⟩

/-- As `trans`, where the second stretch queues nothing. -/
theorem still {stop : Nat} (h : scanner.Walked middle spans mark parked)
    (hmore : middle.Walked after [] stop other) : scanner.Walked after spans stop other := by
  have := h.trans hmore
  rwa [List.append_nil] at this

/-- Behind a passage in a range of the text the scanner stands in that range. -/
theorem stands (h : scanner.Walked after spans mark parked)
    (hshows : scanner.document.Shows scanner.window.capacity text sight)
    (hend : scanner.rangeEnd ≤ text.length) (hmark : mark ≤ scanner.rangeEnd) :
    after.Sees text sight := by
  have hcurrent := h.current
  obtain ⟨cache, lastMatch, rfl⟩ := h.eq
  exact ⟨hcurrent, hshows, hmark, hend⟩

theorem sees (h : scanner.Walked after spans mark parked) (hs : scanner.Sees text sight)
    (hmark : mark ≤ scanner.rangeEnd) : after.Sees text sight :=
  h.stands hs.shows hs.end_le hmark

end Walked

theorem Current.stays (h : scanner.Current) :
    scanner.Walked scanner [] scanner.mark scanner.parked :=
  ⟨⟨scanner.cache, scanner.lastMatch, by simp only [withCache, cache, List.append_nil]⟩, h⟩

end Scanner

/-! ## Moving, reading and reporting -/

section

variable {scanner : Scanner Region} {text : Text} {sight : Sight}

theorem moveTo_walks (hs : scanner.Current) (offset : Nat) :
    scanner.Walked (scanner.moveTo offset) [] offset scanner.parked := by
  obtain ⟨cache, hmove, hcurrent⟩ := Scanner.moveTo_spec hs offset
  rw [hmove]
  exact ⟨⟨cache, scanner.lastMatch, by simp only [List.append_nil]⟩, hcurrent⟩

theorem endMatchAt_leads (hs : scanner.Current) (stop : Nat) :
    (endMatchAt stop).Leads scanner fun _ after =>
      scanner.Walked after [] stop scanner.parked := by
  obtain ⟨cache, hmove, hcurrent⟩ := Scanner.moveTo_spec hs stop
  apply Scan.Leads.changed
  rw [hmove]
  exact ⟨⟨cache, stop, by simp only [List.append_nil]; rfl⟩, hcurrent.1, hcurrent.2⟩

theorem report_leads (hs : scanner.Current) (token : Token) (offset length : Nat) :
    (report token offset length).Leads scanner fun _ after =>
      scanner.Walked after (piece ⟨token, offset, length⟩) scanner.mark scanner.parked := by
  unfold report piece
  dsimp only
  split
  · exact Scan.Leads.changed ⟨⟨scanner.cache, scanner.lastMatch, rfl⟩, hs.1, hs.2⟩
  · exact Scan.Leads.pure hs.stays

/-- A read that is taken back where there is no character leaves the mark in its place. -/
theorem read_leads (hs : scanner.Sees text sight) :
    Scanner.read.Leads scanner fun char after =>
      (char.isSome = true → scanner.mark < scanner.rangeEnd ∧ sight.grants scanner.mark ∧
        scanner.Walked after [] (scanner.mark + 1) scanner.parked) ∧
      (char = none → (scanner.rangeEnd ≤ scanner.mark ∨ sight.withholds scanner.mark) ∧
        scanner.Walked after.stepBack [] scanner.mark scanner.parked) := by
  have hmark := hs.mark_le
  have hend := hs.end_le
  have hsmall := hs.shows.small
  obtain ⟨char, cache, hread, hcurrent, hbehind, hinside⟩ :=
    Scanner.read_spec hs.current hs.shows.holds (by omega)
  have hwalked : scanner.Walked ({ scanner with mark := scanner.mark + 1 }.withCache cache) []
      (scanner.mark + 1) scanner.parked :=
    ⟨⟨cache, scanner.lastMatch, by simp only [List.append_nil]⟩, hcurrent⟩
  refine ⟨char, _, hread, fun hsome => ?_, fun hnone => ⟨?_, ?_⟩⟩
  · by_cases hlt : scanner.mark < scanner.rangeEnd
    · rcases hinside hlt with ⟨_, hgrants⟩ | ⟨hnone, _⟩
      · exact ⟨hlt, hs.shows.grants _ (hgrants hsome), hwalked⟩
      · rw [hnone] at hsome
        cases hsome
    · rw [(hbehind (Nat.le_of_not_lt hlt)).1] at hsome
      cases hsome
  · by_cases hlt : scanner.mark < scanner.rangeEnd
    · rcases hinside hlt with ⟨hfound, _⟩ | ⟨_, hwithheld⟩
      · rw [hnone, eq_comm, List.getElem?_eq_none_iff] at hfound
        omega
      · exact Or.inr (hs.shows.withholds _ (by omega) hwithheld)
    · exact Or.inl (Nat.le_of_not_lt hlt)
  · obtain ⟨cache', hback, hcurrent'⟩ := Scanner.stepBack_spec hcurrent
    rw [hback]
    exact ⟨⟨cache', scanner.lastMatch, by simp only [List.append_nil]; rfl⟩, hcurrent'⟩

/-! ## Matching -/

theorem matchAtMark_leads (hs : scanner.Sees text sight) (pattern : Pattern) :
    (matchAtMark pattern).Leads scanner fun found after =>
      sight.Finds text pattern scanner.mark scanner.rangeEnd found ∧
        scanner.Walked after [] scanner.mark scanner.parked := by
  have hmark := hs.mark_le
  have hend := hs.end_le
  obtain ⟨found, cache, hplace, hcurrent, hlost, hat⟩ :=
    Scanner.placeAt_spec hs.current hs.shows.holds scanner.mark (by omega)
  have hwalked : scanner.Walked (scanner.withCache cache) [] scanner.mark scanner.parked :=
    ⟨⟨cache, scanner.lastMatch, by simp only [List.append_nil]⟩, hcurrent⟩
  have heq := matchAtMark_eq pattern scanner
  rw [if_neg (by omega), hplace] at heq
  rcases found with reason | place
  · obtain ⟨lost, hline⟩ := hlost reason rfl
    exact ⟨none, _, heq, Or.inr ⟨hs.shows.hides _ (by omega) lost hline, rfl⟩, hwalked⟩
  · obtain ⟨hline, hcolumn, other, hother⟩ := hat place rfl
    have hshown := hs.shows.shown _ _ hother
    have hlength : pattern.matchLength? place.line.chars place.column =
        pattern.lengthIn? text scanner.mark := by
      rw [hline, hcolumn]
      rfl
    dsimp only at heq
    rw [hlength] at heq
    rcases hfound : pattern.lengthIn? text scanner.mark with _ | length
    · rw [hfound] at heq
      exact ⟨none, _, heq, Or.inl ⟨hshown, by simp [Pattern.hit?, hfound]⟩, hwalked⟩
    · rw [hfound] at heq
      dsimp only at heq
      have hle := Pattern.lengthIn?_le_length hfound (by omega)
      have hsmall := hs.shows.small
      rw [if_pos (by omega)] at heq
      refine ⟨_, _, heq, Or.inl ⟨hshown, ?_⟩, hwalked⟩
      simp only [Pattern.hit?, hfound, Option.filter_some, decide_eq_true_eq]

theorem claimAtMark_leads (hs : scanner.Sees text sight) (pattern : Pattern) :
    (claimAtMark pattern).Leads scanner fun found after =>
      sight.Claims text pattern scanner.mark scanner.rangeEnd found ∧
        scanner.Walked after [] scanner.mark scanner.parked := by
  apply Scan.Leads.bind
  apply (matchAtMark_leads hs pattern).mono
  intro found after h
  refine Scan.Leads.pure ⟨?_, h.2⟩
  rcases h.1 with ⟨hshown, rfl⟩ | ⟨hhides, rfl⟩
  · exact Or.inl ⟨hshown, rfl⟩
  · exact Or.inr ⟨hhides, rfl⟩

theorem firstEnd_leads (hs : scanner.Sees text sight) (regions : List Region) :
    (firstEnd regions).Leads scanner fun found after =>
      OuterEnd text sight scanner.rangeEnd scanner.mark regions found ∧
        scanner.Walked after [] scanner.mark scanner.parked := by
  induction regions generalizing scanner with
  | nil => exact Scan.Leads.pure ⟨.none, hs.current.stays⟩
  | cons region outer ih =>
    unfold firstEnd
    split
    · rename_i hsealed
      exact Scan.Leads.pure ⟨.sealed hsealed, hs.current.stays⟩
    · rename_i hopen
      simp only [Bool.not_eq_true] at hopen
      apply Scan.Leads.bind
      apply (matchAtMark_leads hs region.endPattern).mono
      intro found after h
      obtain ⟨hfinds, hwalked⟩ := h
      rcases found with _ | length
      · have hs' := hwalked.sees hs hs.mark_le
        apply (ih hs').mono
        intro found final h
        rw [hwalked.mark_eq, hwalked.rangeEnd_eq, hwalked.parked_eq] at h
        exact ⟨.further hopen hfinds h.1, hwalked.still h.2⟩
      · exact Scan.Leads.pure ⟨.found hopen hfinds, hwalked⟩

theorem outerEnd_leads (hs : scanner.Sees text sight) {region : Region} {outer : List Region}
    (hregions : scanner.openRegions = region :: outer) :
    outerEnd.Leads scanner fun found after =>
      OuterEnd text sight scanner.rangeEnd scanner.mark outer found ∧
        scanner.Walked after [] scanner.mark scanner.parked := by
  apply Scan.Leads.get
  rw [hregions]
  exact firstEnd_leads hs outer

end

end RegionScan
