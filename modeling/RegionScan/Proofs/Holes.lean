-- Scans of texts with holes. A refill that fails inside a region ends the region as
-- the end of the range would, so what a scan says of the text in front of a hole can
-- differ from what a scan of the whole text says. A scan is faithful where it does
-- not, which holds if there is next to nothing in front of the hole.
import RegionScan.Proofs.Pushdown

namespace RegionScan

variable {grammar : Grammar} {text : Text} {sight : Sight}

/-! ## Scans of whole documents -/

/-- A range of a document is within it, and a fresh scanner that is given the range stands at its
start with nothing found yet. -/
theorem Scanner.fresh_assign_sees {document other : Document} {settings : Settings}
    {offset length : Nat} {scanner : Scanner Region}
    (hshows : document.Shows settings.capacity text sight)
    (h : (Scanner.fresh other settings).assign document offset length = .ok () scanner) :
    scanner.Sees text sight ∧ scanner.mark = offset ∧ scanner.rangeEnd = offset + length ∧
      scanner.queue = [] ∧ scanner.parked = none ∧ scanner.openRegions = [] := by
  obtain ⟨hrange, rfl⟩ := Scanner.assign_eq_ok_iff.mp h
  obtain ⟨cache, hfresh, hcurrent⟩ :=
    Scanner.fresh_withRange Region document other settings offset length
  rw [hfresh]
  exact ⟨⟨⟨hcurrent.1, hcurrent.2⟩, hshows, Nat.le_add_right _ _, hshows.holds.length_eq ▸ hrange⟩,
    rfl, rfl, rfl, rfl, rfl⟩

/-- A scan of a whole document starts at its first character, with nothing found yet. -/
theorem Scanner.fresh_assign {document : Document} {settings : Settings}
    (hshows : document.Shows settings.capacity text sight) :
    ∃ scanner : Scanner Region,
      (Scanner.fresh document settings).assign document 0 document.length = .ok () scanner ∧
      scanner.Sees text sight ∧ scanner.mark = 0 ∧ scanner.rangeEnd = text.length ∧
      scanner.queue = [] ∧ scanner.parked = none ∧ scanner.openRegions = [] := by
  have hassign : (Scanner.fresh document settings : Scanner Region).assign document 0
      document.length = .ok () _ :=
    Scanner.assign_eq_ok_iff.mpr ⟨Nat.le_of_eq (Nat.zero_add document.length), rfl⟩
  obtain ⟨hs, hmark, hend, hclear⟩ := Scanner.fresh_assign_sees hshows hassign
  exact ⟨_, hassign, hs, hmark, by rw [hend, Nat.zero_add, hshows.holds.length_eq], hclear⟩

/-- A scan of a whole text comes through, and labels it as the machine does. -/
theorem spansOf_text (hplain : grammar.Plain) (hbegins : grammar.BeginsDefined)
    (heof : ¬ grammar.Gives .eof) (hsmall : text.length < maxOffset) :
    ∃ spans, grammar.spansOf (VersionedText.ofText text).toDocument = .ok spans ∧
      Tiles 0 text.length spans ∧ Pushdown.Runs grammar text
        ⟨0, grammar.outermost text.length, []⟩ (labels spans) := by
  obtain ⟨scanner, hassign, hs, hmark, hend, hqueue, hparked, hopen⟩ :=
    Scanner.fresh_assign ((VersionedText.ofText text).toDocument_shows Settings.standard.capacity
      hsmall)
  obtain ⟨spans, after, htokenize, htiles, hruns⟩ :=
    tokenize_runs hplain hbegins heof hs hqueue hparked hopen
  rw [hmark, hend] at htiles hruns
  refine ⟨spans, ?_, htiles, hruns⟩
  unfold Grammar.spansOf
  dsimp only
  rw [Scan.bind_of_ok (Scan.ofTrial_eq_ok.mpr hassign), htokenize]

/-! ## Texts with holes -/

namespace PatchyDocument

/-- A text of which some stretches cannot be read. -/
def holed (text : Text) (holes : List (Nat × Nat)) : PatchyDocument :=
  ⟨.ofText text, holes, [], none, none⟩

/-- What such a text shows to windows of some capacity: a line with a hole in it is hidden, and a
window over a hole cannot be filled. -/
def view (doc : PatchyDocument) (capacity : Nat) : Sight where
  hides offset := ∃ o, doc.Unreadable o ∧ (lineAt doc.inner.text offset).start ≤ o ∧
    o < (lineAt doc.inner.text offset).start + (lineAt doc.inner.text offset).length
  withholds offset := ∃ o, doc.Unreadable o ∧ offset ≤ o ∧
    o < min (offset + capacity) doc.inner.text.length
  grants offset := ∃ first, first ≤ offset ∧
    offset < min (first + capacity) doc.inner.text.length ∧
    ∀ o, doc.Unreadable o → first ≤ o → min (first + capacity) doc.inner.text.length ≤ o

theorem holed_shows (holes : List (Nat × Nat)) (capacity : Nat) (hsmall : text.length < maxOffset) :
    (holed text holes).toDocument.Shows capacity text ((holed text holes).view capacity) :=
  ((holed text holes).toDocument_loses rfl rfl).shows capacity hsmall

end PatchyDocument

/-! ## What a scan says of single characters -/

/-- Some span gives the character at an offset this token. -/
def Covers (spans : List Span) (offset : Nat) (token : Token) : Prop :=
  ∃ span ∈ spans, span.token = token ∧ span.offset ≤ offset ∧ offset < span.offset + span.length

theorem Tiles.covers_iff {first stop offset : Nat} {spans : List Span} {token : Token}
    (h : Tiles first stop spans) (hle : first ≤ offset) :
    Covers spans offset token ↔ (labels spans)[offset - first]? = some token := by
  induction spans generalizing first with
  | nil => simp [Covers, labels]
  | cons span rest ih =>
    obtain ⟨rfl, _, hrest⟩ := h
    have hlabels : labels (span :: rest) =
        List.replicate span.length span.token ++ labels rest := rfl
    rw [hlabels]
    by_cases hin : offset < span.offset + span.length
    · rw [List.getElem?_append_left (by rw [List.length_replicate]; omega),
        List.getElem?_replicate, if_pos (by omega), Option.some.injEq]
      constructor
      · rintro ⟨other, hmem, rfl, hfirst, _⟩
        rcases List.mem_cons.mp hmem with rfl | hmem
        · rfl
        · have := hrest.first_le hmem
          omega
      · rintro rfl
        exact ⟨span, List.mem_cons_self, rfl, hle, hin⟩
    · rw [List.getElem?_append_right (by rw [List.length_replicate]; omega),
        List.length_replicate, show offset - span.offset - span.length =
          offset - (span.offset + span.length) by omega, ← ih hrest (Nat.le_of_not_lt hin)]
      constructor
      · rintro ⟨other, hmem, htoken, hfirst, hlt⟩
        rcases List.mem_cons.mp hmem with rfl | hmem
        · omega
        · exact ⟨other, hmem, htoken, hfirst, hlt⟩
      · rintro ⟨other, hmem, h⟩
        exact ⟨other, List.mem_cons_of_mem _ hmem, h⟩

/-- A scan of a text with holes, up to its first error, gives every character that it covers the
token that a scan of the whole text gives it. -/
def Grammar.Faithful (grammar : Grammar) (settings : Settings) (text : Text)
    (holes : List (Nat × Nat)) : Prop :=
  ∃ (scanner : Scanner Region) (spans : List Span),
    (Scanner.fresh (PatchyDocument.holed text holes).toDocument settings).assign
      (PatchyDocument.holed text holes).toDocument 0 text.length = .ok () scanner ∧
    grammar.spansOf (VersionedText.ofText text).toDocument = .ok spans ∧
    ∀ count, ∀ record ∈ (grammar.trace count scanner).1, ∀ offset, record.offset ≤ offset →
      offset < record.offset + record.length → Covers spans offset record.token

/-- A scan of a text with holes is faithful if whatever it makes of a part of the text is
labelled so by the machine. -/
theorem faithful_of_strides {settings : Settings} {holes : List (Nat × Nat)}
    (hplain : grammar.Plain) (hbegins : grammar.BeginsDefined) (heof : ¬ grammar.Gives .eof)
    (hshows : (PatchyDocument.holed text holes).toDocument.Shows settings.capacity text sight)
    (h : ∀ spans last tokens, Strides grammar text sight [] text.length 0 spans last →
      Pushdown.Runs grammar text ⟨0, grammar.outermost text.length, []⟩ tokens →
      ∀ span ∈ spans, ∀ offset, span.offset ≤ offset → offset < span.offset + span.length →
        tokens[offset]? = some span.token) : grammar.Faithful settings text holes := by
  obtain ⟨scanner, hassign, hs, hmark, hend, hqueue, hparked, hopen⟩ := Scanner.fresh_assign hshows
  obtain ⟨spans, hspans, htiles, hruns⟩ := spansOf_text hplain hbegins heof hshows.small
  refine ⟨scanner, spans, hassign, hspans, ?_⟩
  intro count record hrecord offset hfirst hlt
  obtain ⟨handed, after, hpassed, hdone⟩ := trace_cases hplain.customs hbegins count hs hparked
  have hpos : 0 < record.span.length := by
    have hlength : record.span.length = record.length := rfl
    omega
  have hhanded : record.span ∈ handed := hdone.mem_handed (List.mem_map_of_mem hrecord) hpos
  obtain ⟨strides, hqueued, hstrides⟩ := hpassed.spans_eq
  rw [hqueue, List.nil_append] at hqueued
  rw [hopen, hmark, hend] at hstrides
  rw [htiles.covers_iff (Nat.zero_le _), Nat.sub_zero]
  exact h strides _ _ hstrides hruns record.span
    (hqueued ▸ List.mem_append_left _ hhanded) offset hfirst hlt

/-! ## Texts without holes -/

theorem PatchyDocument.holed_shows_whole {holes : List (Nat × Nat)} (capacity : Nat)
    (hsmall : text.length < maxOffset)
    (h : ∀ o, o < text.length → ¬ (holed text holes).Unreadable o) :
    (holed text holes).toDocument.Shows capacity text Sight.whole := by
  have hshows := holed_shows holes capacity hsmall
  refine ⟨hshows.holds, hsmall, fun offset hle lost hlost => ?_, fun _ _ _ => id,
    fun offset hlt hwithheld => ?_, fun _ _ => trivial⟩
  · obtain ⟨o, ho, _, hin⟩ := hshows.hides offset hle lost hlost
    exact h o (Nat.lt_of_lt_of_le hin (lineAt_stop_le _ _)) ho
  · obtain ⟨o, ho, _, hin⟩ := hshows.withholds offset hlt hwithheld
    exact h o (Nat.lt_of_lt_of_le hin (Nat.min_le_right _ _)) ho

theorem faithful_of_whole {settings : Settings} {holes : List (Nat × Nat)}
    (hplain : grammar.Plain) (hbegins : grammar.BeginsDefined) (heof : ¬ grammar.Gives .eof)
    (hsmall : text.length < maxOffset)
    (h : ∀ o, o < text.length → ¬ (PatchyDocument.holed text holes).Unreadable o) :
    grammar.Faithful settings text holes := by
  refine faithful_of_strides hplain hbegins heof
    (PatchyDocument.holed_shows_whole settings.capacity hsmall h) ?_
  intro spans last tokens hstrides hruns span hspan offset hfirst hlt
  obtain ⟨opened, hreach⟩ := hstrides.reaches hplain (Nat.zero_le _)
  obtain ⟨more, rfl⟩ := hreach.isPrefix hruns
  have hcovers := (hstrides.tiles.covers_iff (Nat.zero_le _)).mp ⟨span, hspan, rfl, hfirst, hlt⟩
  rw [Nat.sub_zero] at hcovers
  rw [List.getElem?_append_left (List.getElem?_eq_some_iff.mp hcovers).1]
  exact hcovers

/-! ## Where nothing is shown -/

section

variable {enters : Region → List Region → Nat → Nat → Passage → Prop} {region : Region}
  {openRegions outer : List Region} {rules : List Rule} {passage : Passage} {found : Option Passage}
  {stop here pending start length : Nat} {started : Bool}

/-- Neither the line of an offset nor its character is shown. -/
structure Sight.Dark (sight : Sight) (offset : Nat) : Prop where
  hides : sight.hides offset
  withheld : ¬ sight.grants offset

theorem Sight.Finds.dark {pattern : Pattern} {found : Option Nat} (hhides : sight.hides here)
    (h : sight.Finds text pattern here stop found) : found = none := by
  rcases h with ⟨hshown, _⟩ | ⟨_, h⟩
  · exact absurd hhides hshown
  · exact h

theorem Sight.Claims.dark {pattern : Pattern} {found : Option Nat} (hhides : sight.hides here)
    (h : sight.Claims text pattern here stop found) : found = none := by
  rcases h with ⟨hshown, _⟩ | ⟨_, h⟩
  · exact absurd hhides hshown
  · exact h

theorem Grammar.Starts.dark {rule : Rule} {found : Option Nat} (hhides : sight.hides here)
    (h : grammar.Starts text sight here stop rule found) : found = none := by
  unfold Grammar.Starts at h
  split at h
  · exact h
  · exact Sight.Claims.dark hhides h

/-- On a hidden line no rule starts. -/
theorem Tries.dark (hhides : sight.hides here)
    (h : Tries grammar text sight enters openRegions stop here rules started found) :
    found = none := by
  induction h with
  | done => rfl
  | skip _ _ ih => exact ih
  | reject hstarts _ _ _ => cases hstarts.dark hhides
  | word hclaims _ => cases hclaims.dark hhides
  | enter _ hclaims _ => cases hclaims.dark hhides

theorem OuterEnd.dark {found : Option (Region × Nat)} (hhides : sight.hides here)
    (h : OuterEnd text sight stop here outer found) : found = Option.none := by
  induction h with
  | none => rfl
  | sealed => rfl
  | found _ hfinds => cases hfinds.dark hhides
  | further _ _ _ ih => exact ih

/-- A region whose inside is dark ends where it starts. -/
theorem Interior.dark (hdark : sight.Dark here)
    (h : Interior grammar text sight enters region outer stop here pending passage) :
    passage = ⟨piece ⟨region.contentToken, pending, here - pending⟩, here, none⟩ := by
  cases h with
  | ownEnd _ hfinds => cases hfinds.dark hdark.hides
  | outerEnd _ _ houter => cases houter.dark hdark.hides
  | onward _ htries _ _ => cases htries.dark hdark.hides
  | taken _ _ htries _ _ => cases htries.dark hdark.hides
  | passed _ _ htries _ _ => cases htries.dark hdark.hides
  | char _ _ _ hgrants _ => exact absurd hgrants hdark.withheld
  | stopped _ _ _ => rfl

theorem Seeks.dark {pattern : Pattern} (hdark : sight.Dark here)
    (h : Seeks text sight pattern stop here start length) : start = here ∧ length = 0 := by
  cases h with
  | found hfinds => cases hfinds.dark hdark.hides
  | further _ _ hgrants _ => exact absurd hgrants hdark.withheld
  | ended _ _ => exact ⟨rfl, rfl⟩

theorem Strides.dark {spans : List Span} {last : Nat} (hdark : sight.Dark here)
    (h : Strides grammar text sight openRegions stop here spans last) : spans = [] := by
  cases h with
  | stay => rfl
  | claim htries _ => cases htries.dark hdark.hides
  | char _ _ hgrants _ => exact absurd hgrants hdark.withheld

/-! ## One character in front of the dark -/

/-- A region that starts with one character and is dark inside is that character. -/
theorem Enters.before_dark (hdark : sight.Dark (here + 1))
    (hone : ∀ length, sight.Claims text region.beginPattern here stop (some length) → length = 1)
    (h : Enters grammar text sight region openRegions stop here passage) :
    passage = ⟨[⟨region.beginToken, here, 1⟩], here + 1, none⟩ := by
  obtain ⟨_ | depth, h⟩ := h
  · exact h.elim
  · cases h with
    | region _ hclaims hinterior =>
      obtain rfl := hone _ hclaims
      rw [hinterior.dark hdark, Nat.sub_self]
      rfl
    | block _ hclaims hseeks hinterior =>
      obtain rfl := hone _ hclaims
      obtain ⟨rfl, rfl⟩ := hseeks.dark hdark
      rw [hinterior.dark hdark, Nat.sub_self]
      rfl

theorem Tries.before_dark (hshown : ¬ sight.hides here) (hdark : sight.Dark (here + 1))
    (hone : ∀ pattern length, sight.Claims text pattern here stop (some length) → length = 1)
    (h : Tries grammar text sight (Enters grammar text sight) openRegions stop here rules started
      (some passage)) :
    ∃ move token, grammar.move? text here stop rules = some move ∧
      (∀ state : Pushdown, (state.moved text move).1 = [token]) ∧
      passage = ⟨[⟨token, here, 1⟩], here + 1, none⟩ := by
  generalize hfound : some passage = found at h
  induction h with
  | done => cases hfound
  | skip hstarts _ ih =>
    obtain ⟨move, token, hmove, hpassage⟩ := ih hfound
    refine ⟨move, token, ?_, hpassage⟩
    rw [Grammar.move?, List.findSome?_cons, hstarts.moveOf?_eq hshown]
    exact hmove
  | reject _ hrejected _ ih =>
    obtain ⟨move, token, hmove, hpassage⟩ := ih hfound
    refine ⟨move, token, ?_, hpassage⟩
    rw [Grammar.move?, List.findSome?_cons, moveOf?_rejected hshown hrejected]
    exact hmove
  | @word pattern token rest length hclaims htoken =>
    cases hfound
    obtain rfl := hone _ _ hclaims
    refine ⟨.word token 1, token, ?_, fun _ => rfl, rfl⟩
    rw [Grammar.move?, List.findSome?_cons, Grammar.moveOf?, if_neg htoken,
      ← (Sight.claims_shown hshown).mp hclaims, Option.map_some]
  | @enter id region rest entered length hregion hclaims henter =>
    cases hfound
    obtain rfl := hone _ _ hclaims
    have hclaim := ((Sight.claims_shown hshown).mp hclaims).symm
    refine ⟨.enter region 1, region.beginToken, ?_, fun _ => rfl,
      henter.before_dark hdark fun length h => hone _ length h⟩
    rw [Grammar.move?, List.findSome?_cons, Grammar.moveOf?, hregion]
    simp only [Option.bind_eq_bind, Option.bind_some, hclaim, Option.map_some]

/-- What is made of one character in front of the dark is what the machine makes of it. -/
theorem Strides.before_dark (hshown : ¬ sight.hides here) (hdark : sight.Dark (here + 1))
    (hone : ∀ pattern length, sight.Claims text pattern here stop (some length) → length = 1)
    {spans : List Span} {last : Nat} (hlt : here < stop)
    (h : Strides grammar text sight [] stop here spans last) :
    spans = [] ∨ ∃ token state, spans = [⟨token, here, 1⟩] ∧
      Pushdown.step? grammar text ⟨here, grammar.outermost stop, []⟩ = some ([token], state) := by
  cases h with
  | stay => exact Or.inl rfl
  | claim htries hrest =>
    right
    obtain ⟨move, token, hmove, hlabels, rfl⟩ := htries.before_dark hshown hdark hone
    obtain rfl := hrest.dark hdark
    let first : Pushdown := ⟨here, grammar.outermost stop, []⟩
    have hstep : first.step? grammar text = some (first.moved text move) :=
      Pushdown.step?_move hlt rfl hmove
    exact ⟨token, (first.moved text move).2, rfl, hstep.trans (by rw [← hlabels first])⟩
  | char htries _ _ hrest =>
    right
    obtain rfl := hrest.dark hdark
    exact ⟨_, _, rfl, Pushdown.step?_filler hlt rfl (htries.nothing_moves hshown)⟩

end

/-! ## Texts with nothing to read in front of a hole -/

theorem PatchyDocument.holed_dark {holes : List (Nat × Nat)} {offset : Nat} (capacity : Nat)
    (hlt : offset < text.length) (h : (holed text holes).Unreadable offset) :
    ((holed text holes).view capacity).Dark offset := by
  refine ⟨⟨offset, h, lineAt_start_le _ _, lt_lineAt_stop hlt⟩, ?_⟩
  rintro ⟨first, hfirst, hin, hfree⟩
  exact absurd hin (Nat.not_lt_of_le (hfree offset h hfirst))

/-- If the first character cannot be read, nothing at all is said. -/
theorem faithful_of_lost_start {settings : Settings} {holes : List (Nat × Nat)}
    (hplain : grammar.Plain) (hbegins : grammar.BeginsDefined) (heof : ¬ grammar.Gives .eof)
    (hsmall : text.length < maxOffset) (hlt : 0 < text.length)
    (h : (PatchyDocument.holed text holes).Unreadable 0) :
    grammar.Faithful settings text holes := by
  have hdark := PatchyDocument.holed_dark settings.capacity hlt h
  refine faithful_of_strides hplain hbegins heof
    (PatchyDocument.holed_shows holes settings.capacity hsmall) ?_
  intro spans last tokens hstrides _ span hspan
  rw [hstrides.dark hdark] at hspan
  cases hspan

/-- If only the first line can be read, and it has but one character, that character is told
right. -/
theorem faithful_of_short_line {settings : Settings} {holes : List (Nat × Nat)}
    (hplain : grammar.Plain) (hbegins : grammar.BeginsDefined) (heof : ¬ grammar.Gives .eof)
    (hsmall : text.length < maxOffset) (hlt : 1 < text.length) (hbreak : LineBreak text 1)
    (hfirst : ¬ (PatchyDocument.holed text holes).Unreadable 0)
    (h : (PatchyDocument.holed text holes).Unreadable 1) :
    grammar.Faithful settings text holes := by
  have hdark := PatchyDocument.holed_dark settings.capacity hlt h
  have hshown : ¬ ((PatchyDocument.holed text holes).view settings.capacity).hides 0 := by
    rintro ⟨o, ho, _, hin⟩
    have hstop : (lineAt text 0).start + (lineAt text 0).length ≤ 1 := hbreak.stop_le Nat.one_pos
    obtain rfl : o = 0 := Nat.lt_one_iff.mp (Nat.lt_of_lt_of_le hin hstop)
    exact hfirst ho
  refine faithful_of_strides hplain hbegins heof
    (PatchyDocument.holed_shows holes settings.capacity hsmall) ?_
  intro spans last tokens hstrides hruns span hspan offset hle hin
  have hone : ∀ pattern length, ((PatchyDocument.holed text holes).view settings.capacity).Claims
      text pattern 0 text.length (some length) → length = 1 := by
    intro pattern length hclaims
    obtain ⟨hlength, _, hpos⟩ := hclaims.length
    have := Pattern.lengthIn?_le_break hlength hbreak Nat.one_pos
    omega
  rcases hstrides.before_dark hshown hdark hone (Nat.lt_of_succ_lt hlt) with
    rfl | ⟨token, state, rfl, hstep⟩
  · cases hspan
  · rw [List.mem_singleton.mp hspan] at hle hin ⊢
    obtain rfl : offset = 0 := by dsimp only at hin; omega
    obtain ⟨more, rfl⟩ := (Pushdown.Reaches.single hstep).isPrefix hruns
    rfl

end RegionScan
