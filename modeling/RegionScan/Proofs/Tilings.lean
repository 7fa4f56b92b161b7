-- The spans of a whole range tile it. A scan over a text document hands out spans
-- that lie one behind the other up to the end of the range, and joins neighbours
-- that have the same token.
import Mathlib.Data.List.Chain
import RegionScan.Proofs.TokenWalks
import RegionScan.Proofs.WindowLaws

namespace RegionScan

variable {grammar : Grammar} {text : Text} {sight : Sight}
  {enters : Region → List Region → Nat → Nat → Passage → Prop}
  {region : Region} {openRegions outer : List Region} {passage : Passage}
  {stop here pending : Nat} {started : Bool}

/-! ## Tokens of a grammar -/

/-- The tokens that a rule of the grammar can report. -/
inductive Grammar.Gives (grammar : Grammar) : Token → Prop
  | default : grammar.Gives grammar.defaultToken
  | rule {pattern : Pattern} {token : Token} : .pattern pattern token ∈ grammar.rules →
    grammar.Gives token
  | inner {region : Region} {pattern : Pattern} {token : Token} : region ∈ grammar.regions →
    .pattern pattern token ∈ region.rules → grammar.Gives token
  | begins {region : Region} : region ∈ grammar.regions → grammar.Gives region.beginToken
  | content {region : Region} : region ∈ grammar.regions → grammar.Gives region.contentToken
  | ends {region : Region} : region ∈ grammar.regions → grammar.Gives region.endToken

/-- The token that a rule has of its own. -/
def Rule.token? : Rule → Option Token
  | .pattern _ token => some token
  | .region _ => none
  | .custom _ => none

/-- All tokens that the rules of the grammar can report. -/
def Grammar.tokens (grammar : Grammar) : List Token :=
  grammar.defaultToken :: (grammar.rules.filterMap Rule.token? ++
    grammar.regions.flatMap fun region =>
      region.beginToken :: region.contentToken :: region.endToken ::
        region.rules.filterMap Rule.token?)

theorem Rule.token?_eq_some {rule : Rule} {token : Token} :
    rule.token? = some token ↔ ∃ pattern, rule = .pattern pattern token := by
  cases rule <;> simp [Rule.token?]

theorem Grammar.mem_tokens {token : Token} : token ∈ grammar.tokens ↔ grammar.Gives token := by
  simp only [Grammar.tokens, List.mem_cons, List.mem_append, List.mem_filterMap, List.mem_flatMap,
    Rule.token?_eq_some]
  constructor
  · rintro (rfl | ⟨_, hrule, pattern, rfl⟩ | ⟨region, hregion, htoken⟩)
    · exact .default
    · exact .rule hrule
    · rcases htoken with rfl | rfl | rfl | ⟨_, hrule, pattern, rfl⟩
      · exact .begins hregion
      · exact .content hregion
      · exact .ends hregion
      · exact .inner hregion hrule
  · intro h
    cases h with
    | default => exact Or.inl rfl
    | rule hrule => exact Or.inr (Or.inl ⟨_, hrule, _, rfl⟩)
    | inner hregion hrule =>
      exact Or.inr (Or.inr ⟨_, hregion, Or.inr (Or.inr (Or.inr ⟨_, hrule, _, rfl⟩))⟩)
    | begins hregion => exact Or.inr (Or.inr ⟨_, hregion, Or.inl rfl⟩)
    | content hregion => exact Or.inr (Or.inr ⟨_, hregion, Or.inr (Or.inl rfl)⟩)
    | ends hregion => exact Or.inr (Or.inr ⟨_, hregion, Or.inr (Or.inr (Or.inl rfl))⟩)

instance (token : Token) : Decidable (grammar.Gives token) :=
  decidable_of_iff _ Grammar.mem_tokens

/-- A region that is open and has the place of a region of the grammar is that region: places
tell regions apart. -/
def Grammar.Owns (grammar : Grammar) (openRegions : List Region) : Prop :=
  ∀ opened ∈ openRegions, ∀ region ∈ grammar.regions, opened.id = region.id → opened = region

theorem Grammar.Plain.owns_cons (hplain : grammar.Plain) (hregion : region ∈ grammar.regions)
    (howns : grammar.Owns outer) : grammar.Owns (region :: outer) := by
  intro opened hopened own hown hid
  rcases List.mem_cons.mp hopened with rfl | hopened
  · obtain ⟨i, hi⟩ := List.getElem?_of_mem hregion
    obtain ⟨j, hj⟩ := List.getElem?_of_mem hown
    rw [← hplain.ids hi, hid, hplain.ids hj, hj] at hi
    exact (Option.some.inj hi).symm
  · exact howns opened hopened own hown hid

/-- Every span has a token of the grammar. -/
def Grammar.GivesAll (grammar : Grammar) (spans : List Span) : Prop :=
  ∀ span ∈ spans, grammar.Gives span.token

theorem givesAll_append {spans more : List Span} :
    grammar.GivesAll (spans ++ more) ↔ grammar.GivesAll spans ∧ grammar.GivesAll more := by
  simp only [Grammar.GivesAll, List.mem_append, or_imp, forall_and]

theorem givesAll_piece {span : Span} (h : grammar.Gives span.token) :
    grammar.GivesAll (piece span) := by
  unfold piece
  intro found hfound
  split at hfound
  · rw [List.mem_singleton.mp hfound]
    exact h
  · cases hfound

/-- Regions of the grammar have tokens of the grammar alone. -/
def EntersGive (grammar : Grammar)
    (enters : Region → List Region → Nat → Nat → Passage → Prop) : Prop :=
  ∀ ⦃region openRegions stop here passage⦄, region ∈ grammar.regions →
    grammar.Owns openRegions → enters region openRegions stop here passage →
      grammar.GivesAll passage.spans

theorem Tries.gives (hgive : EntersGive grammar enters) (howns : grammar.Owns openRegions)
    {rules : List Rule}
    (hrules : ∀ pattern token, .pattern pattern token ∈ rules → grammar.Gives token)
    (h : Tries grammar text sight enters openRegions stop here rules started (some passage)) :
    grammar.GivesAll passage.spans := by
  generalize hfound : some passage = found at h
  induction h with
  | done => cases hfound
  | skip _ _ ih | reject _ _ _ ih =>
    exact ih (fun pattern token hmem => hrules pattern token (List.mem_cons_of_mem _ hmem)) hfound
  | word _ _ =>
    cases hfound
    intro span hspan
    rw [List.mem_singleton.mp hspan]
    exact hrules _ _ List.mem_cons_self
  | enter hregion _ henter =>
    cases hfound
    exact hgive (List.mem_of_getElem? hregion) howns henter

theorem Interior.gives (hplain : grammar.Plain) (hfit : EntersFit enters)
    (hgive : EntersGive grammar enters) (hregion : region ∈ grammar.regions)
    (howns : grammar.Owns outer)
    (h : Interior grammar text sight enters region outer stop here pending passage) :
    grammar.GivesAll passage.spans := by
  have howns' := hplain.owns_cons hregion howns
  have hcontent : ∀ pending here, grammar.GivesAll
      (piece ⟨region.contentToken, pending, here - pending⟩) :=
    fun _ _ => givesAll_piece (.content hregion)
  have hrules : ∀ pattern token, .pattern pattern token ∈ region.rules → grammar.Gives token :=
    fun _ _ hmem => .inner hregion hmem
  induction h with
  | ownEnd _ _ =>
    exact givesAll_append.mpr ⟨hcontent _ _, givesAll_piece (.ends hregion)⟩
  | outerEnd _ _ _ => exact hcontent _ _
  | onward _ htries _ _ ih =>
    exact givesAll_append.mpr
      ⟨givesAll_append.mpr ⟨hcontent _ _, htries.gives hgive howns' hrules⟩, ih⟩
  | taken _ _ htries hparked hid =>
    obtain ⟨_, _, _, hmem, hdelimiter⟩ := (htries.fits hfit).2.parked _ hparked
    have hown := howns' _ (List.takeWhile_subset _ hmem) region hregion hid
    refine givesAll_append.mpr
      ⟨givesAll_append.mpr ⟨hcontent _ _, htries.gives hgive howns' hrules⟩, givesAll_piece ?_⟩
    rw [hdelimiter, hown]
    exact .ends hregion
  | passed _ _ htries _ _ =>
    exact givesAll_append.mpr ⟨hcontent _ _, htries.gives hgive howns' hrules⟩
  | @char _ _ started _ _ _ _ _ _ ih =>
    refine givesAll_append.mpr ⟨?_, ih⟩
    cases started
    · exact fun _ hspan => by cases hspan
    · exact hcontent _ _
  | stopped => exact hcontent _ _

theorem EntersOnce.gives (hplain : grammar.Plain) (hfit : EntersFit enters)
    (hgive : EntersGive grammar enters) :
    EntersGive grammar (EntersOnce grammar text sight enters) := by
  intro region openRegions stop here passage hregion howns h
  have hbegin : ∀ length, grammar.GivesAll [⟨region.beginToken, here, length⟩] := by
    intro length span hspan
    rw [List.mem_singleton.mp hspan]
    exact .begins hregion
  cases h with
  | region _ _ hinterior =>
    exact givesAll_append.mpr ⟨hbegin _, hinterior.gives hplain hfit hgive hregion howns⟩
  | block _ _ _ hinterior =>
    exact givesAll_append.mpr ⟨givesAll_append.mpr
      ⟨hbegin _, hinterior.gives hplain hfit hgive hregion howns⟩, givesAll_piece (.ends hregion)⟩

theorem EntersWithin.gives (hplain : grammar.Plain) (depth : Nat) :
    EntersGive grammar (EntersWithin grammar text sight depth) := by
  induction depth with
  | zero => exact fun _ _ _ _ _ _ _ h => h.elim
  | succ depth ih => exact EntersOnce.gives hplain (EntersWithin.fits depth) ih

theorem Enters.gives (hplain : grammar.Plain) :
    EntersGive grammar (Enters grammar text sight) :=
  fun _ _ _ _ _ hregion howns ⟨depth, h⟩ => EntersWithin.gives hplain depth hregion howns h

theorem Strides.gives (hplain : grammar.Plain) (howns : grammar.Owns openRegions)
    {spans : List Span} {last : Nat}
    (h : Strides grammar text sight openRegions stop here spans last) :
    grammar.GivesAll spans := by
  induction h with
  | stay => exact fun _ hspan => by cases hspan
  | claim htries _ ih =>
    exact givesAll_append.mpr
      ⟨htries.gives (Enters.gives hplain) howns fun _ _ hmem => .rule hmem, ih⟩
  | char _ _ _ _ ih =>
    intro span hspan
    rcases List.mem_cons.mp hspan with rfl | hspan
    · exact .default
    · exact ih span hspan

/-! ## Joining neighbours -/

theorem tiles_append {first stop : Nat} {spans more : List Span} :
    Tiles first stop (spans ++ more) ↔
      ∃ middle, Tiles first middle spans ∧ Tiles middle stop more := by
  constructor
  · intro h
    induction spans generalizing first with
    | nil => exact ⟨first, rfl, h⟩
    | cons span rest ih =>
      obtain ⟨middle, hrest, hmore⟩ := ih h.2.2
      exact ⟨middle, ⟨h.1, h.2.1, hrest⟩, hmore⟩
  · rintro ⟨middle, h, hmore⟩
    exact h.append hmore

/-- The spans so far, held last first, with one more. -/
def joined (spans : List Span) (span : Span) : List Span :=
  match spans with
  | last :: earlier =>
    if last.token = span.token then { last with length := last.length + span.length } :: earlier
    else span :: spans
  | [] => [span]

/-- Spans, held last first, that tile a stretch so that neighbours have different tokens. -/
structure Stacked (first stop : Nat) (spans : List Span) : Prop where
  tiles : Tiles first stop spans.reverse
  differ : spans.IsChain fun later earlier => later.token ≠ earlier.token

theorem Stacked.head {first : Nat} {last : Span} {earlier : List Span}
    (h : Stacked first here (last :: earlier)) :
    Tiles first last.offset earlier.reverse ∧ 0 < last.length ∧
      last.offset + last.length = here := by
  have htiles := h.tiles
  rw [List.reverse_cons, tiles_append] at htiles
  obtain ⟨middle, hearlier, rfl, hpos, hend⟩ := htiles
  exact ⟨hearlier, hpos, hend⟩

theorem Stacked.joined {first : Nat} {spans : List Span} {span : Span}
    (h : Stacked first here spans) (hoffset : span.offset = here) (hpos : 0 < span.length) :
    Stacked first (here + span.length) (joined spans span) := by
  unfold RegionScan.joined
  split
  · rename_i last earlier
    obtain ⟨hearlier, hlast, hend⟩ := h.head
    split
    · refine ⟨?_, ?_⟩
      · rw [List.reverse_cons, tiles_append]
        exact ⟨_, hearlier, rfl, by dsimp only; omega, by show _ + (_ + _) = _; omega⟩
      · exact List.isChain_cons.mpr (List.isChain_cons.mp h.differ)
    · rename_i hne
      refine ⟨?_, List.isChain_cons.mpr ⟨fun other hother => ?_, h.differ⟩⟩
      · rw [List.reverse_cons, tiles_append]
        exact ⟨_, h.tiles, hoffset, hpos, rfl⟩
      · obtain rfl := Option.some.inj hother
        exact Ne.symm hne
  · obtain rfl : first = here := h.tiles
    exact ⟨⟨hoffset, hpos, rfl⟩, List.isChain_singleton _⟩

/-- Spans of a text are joined without any sum of lengths that is too large. -/
theorem addToken_leads {first : Nat} {spans : List Span} {span : Span} {scanner : Scanner Region}
    (h : Stacked first here spans) (hoffset : span.offset = here) (hpos : 0 < span.length)
    (hend : here + span.length ≤ maxOffset) :
    addToken spans span scanner = .ok (joined spans span) scanner := by
  have hne : ¬ span.length = 0 := by omega
  rcases spans with _ | ⟨last, earlier⟩
  · simp only [addToken, joined, if_neg hne]
    rfl
  · by_cases htoken : last.token = span.token
    · obtain ⟨_, hlast, hstop⟩ := h.head
      have hsum : last.stop? = some (last.offset + last.length) := by
        unfold Span.stop?
        exact if_pos (by omega)
      have hsame : last.offset + last.length = span.offset := by omega
      have hfits : ¬ maxOffset < last.length + span.length := by omega
      simp only [addToken, joined, if_neg hne, if_pos htoken, hsum, if_pos hsame, if_neg hfits]
      rfl
    · simp only [addToken, joined, if_neg hne, if_neg htoken]
      rfl

/-! ## Whole runs -/

/-- A scan over a text that has joined some of its spans, up to an offset, and has others in its
queue, all of them with tokens of the grammar. -/
structure Underway (grammar : Grammar) (text : Text) (scanner : Scanner Region) (first here : Nat)
    (spans : List Span) : Prop where
  sees : scanner.Sees text Sight.whole
  parked_eq : scanner.parked = none
  owns : grammar.Owns scanner.openRegions
  queue : Tiles here scanner.mark scanner.queue
  gives : grammar.GivesAll scanner.queue
  stacked : Stacked first here spans

/-- The next span goes on where the last one has ended. -/
theorem Underway.passed {scanner after : Scanner Region} {first : Nat} {spans : List Span}
    {span : Span} (hplain : grammar.Plain) (h : Underway grammar text scanner first here spans)
    (hpassed : scanner.Passed grammar text Sight.whole after [span]) :
    span.offset = here ∧ 0 < span.length ∧ grammar.Gives span.token ∧
      Underway grammar text after first (here + span.length) (joined spans span) := by
  obtain ⟨strides, hqueue, hstrides⟩ := hpassed.spans_eq
  have htiles := h.queue.append hstrides.tiles
  have hgives := givesAll_append.mpr ⟨h.gives, hstrides.gives hplain h.owns⟩
  rw [hqueue] at htiles hgives
  obtain ⟨hoffset, hpos, hrest⟩ := htiles
  obtain ⟨hspan, hmore⟩ := givesAll_append.mp hgives
  refine ⟨hoffset, hpos, hspan span List.mem_cons_self, hpassed.sees, hpassed.parked_eq, ?_, hrest,
    hmore, h.stacked.joined hoffset hpos⟩
  rw [hpassed.openRegions_eq]
  exact h.owns

theorem addTokens_leads (hplain : grammar.Plain) (hbegins : grammar.BeginsDefined)
    (heof : ¬ grammar.Gives .eof) {scanner : Scanner Region} {first : Nat} {spans : List Span}
    (count : Nat) (h : Underway grammar text scanner first here spans) :
    (grammar.addTokens count spans).Leads scanner fun result after =>
      ∃ handed stop, result.1 = handed.foldl joined spans ∧
        scanner.Passed grammar text Sight.whole after handed ∧
        Underway grammar text after first stop result.1 ∧
        (result.2 = true → after.mark = scanner.rangeEnd ∧ after.queue = []) ∧
        (result.2 = false → handed.length = count) := by
  induction count generalizing scanner here spans with
  | zero =>
    exact Scan.Leads.pure ⟨[], here, rfl, .refl h.sees h.parked_eq, h,
      fun hdone => (by cases hdone),
      fun _ => rfl⟩
  | succ count ih =>
    unfold Grammar.addTokens
    rcases nextToken_cases hplain.customs hbegins h.sees h.parked_eq with
      ⟨span, after, hnext, hoffset, hlength, hpassed⟩ |
      ⟨after, hnext, hmark, _, hpassed, hstay, hempty, _⟩ |
      ⟨_, _, _, hwithheld, _⟩
    · obtain ⟨hat, hpos, hgives, hafter⟩ := h.passed hplain hpassed
      have htoken : span.token.isEof = false := by
        rcases heq : span.token <;> simp_all [Token.isEof]
      have hstop : here + span.length ≤ maxOffset := by
        have h1 := hafter.queue.le
        have h2 := hpassed.sees.mark_le
        have h3 := hpassed.sees.end_le
        have h4 := hpassed.sees.shows.small
        omega
      have hadd : grammar.addNext spans scanner = .ok (some (joined spans span)) after := by
        unfold Grammar.addNext
        rw [Scan.bind_of_ok hnext, htoken, if_neg (by decide), Scan.get_bind, hoffset, hlength,
          Scan.bind_of_ok (addToken_leads h.stacked hat hpos hstop)]
        rfl
      refine Scan.Leads.bind ⟨_, after, hadd, (ih hafter).mono fun result final h => ?_⟩
      obtain ⟨handed, stop, hresult, hmore, hfinal, hdone, hcount⟩ := h
      exact ⟨span :: handed, stop, hresult, hpassed.trans hmore, hfinal,
        fun hend => hpassed.rangeEnd_eq ▸ hdone hend, fun hleft => by simp [hcount hleft]⟩
    · have hadd : grammar.addNext spans scanner = .ok none after := by
        unfold Grammar.addNext
        rw [Scan.bind_of_ok hnext]
        rfl
      refine Scan.Leads.bind ⟨none, after, hadd, Scan.Leads.pure
        ⟨[], here, rfl, hpassed, ?_, fun _ => ⟨hstay.trans hmark, hempty⟩,
          fun hdone => by cases hdone⟩⟩
      obtain ⟨strides, hqueue, hstrides⟩ := hpassed.spans_eq
      have htiles := h.queue.append hstrides.tiles
      have hgives := givesAll_append.mpr ⟨h.gives, hstrides.gives hplain h.owns⟩
      rw [hqueue] at htiles hgives
      exact ⟨hpassed.sees, hpassed.parked_eq, hpassed.openRegions_eq ▸ h.owns, htiles, hgives,
        h.stacked⟩
    · exact hwithheld.elim

theorem addAll_leads (hplain : grammar.Plain) (hbegins : grammar.BeginsDefined)
    (heof : ¬ grammar.Gives .eof) {scanner : Scanner Region} {first : Nat} {spans : List Span}
    (turns : Nat) (h : Underway grammar text scanner first here spans)
    (hturns : scanner.rangeEnd - scanner.mark < turns) :
    (grammar.addAll turns spans).Leads scanner fun result after =>
      ∃ handed, result = handed.foldl joined spans ∧
        scanner.Passed grammar text Sight.whole after handed ∧
        Stacked first scanner.rangeEnd result ∧
        after.mark = scanner.rangeEnd ∧ after.queue = [] := by
  induction turns generalizing scanner here spans with
  | zero => omega
  | succ turns ih =>
    apply Scan.Leads.get
    apply Scan.Leads.bind
    apply (addTokens_leads hplain hbegins heof (scanner.queue.length + 1) h).mono
    intro result after hresult
    obtain ⟨result, done⟩ := result
    obtain ⟨handed, stop, rfl, hpassed, hafter, hdone, hcount⟩ := hresult
    dsimp only at hdone hcount hafter ⊢
    rcases done with _ | _
    · -- More spans were handed out than had been queued, so the mark has moved.
      have hmoved : scanner.mark < after.mark := by
        obtain ⟨strides, hqueue, hstrides⟩ := hpassed.spans_eq
        obtain ⟨hle, _, hstill⟩ := hstrides.fits h.sees.mark_le
        rcases Nat.lt_or_eq_of_le hle with hlt | heq
        · exact hlt
        · have hlengths := congrArg List.length hqueue
          rw [hstill heq, List.append_nil, List.length_append, hcount rfl] at hlengths
          omega
      have hmark := hpassed.sees.mark_le
      have hrange := hpassed.rangeEnd_eq
      apply (ih hafter (by omega)).mono
      intro result final hrest
      obtain ⟨more, hresult, hmore, hstacked, hend, hempty⟩ := hrest
      rw [hrange] at hstacked hend
      exact ⟨handed ++ more, by rw [hresult, List.foldl_append], hpassed.trans hmore, hstacked,
        hend, hempty⟩
    · obtain ⟨hend, hempty⟩ := hdone rfl
      obtain rfl : stop = scanner.rangeEnd := by
        have := hafter.queue
        rw [hempty, hend] at this
        exact this
      exact Scan.Leads.pure ⟨handed, rfl, hpassed, hafter.stacked, hend, hempty⟩

/-- A scan of a range comes through. Its spans are those of strides over the whole range, with
neighbours of one token joined. -/
theorem tokenize_leads (hplain : grammar.Plain) (hbegins : grammar.BeginsDefined)
    (heof : ¬ grammar.Gives .eof) {scanner : Scanner Region} (hs : scanner.Sees text Sight.whole)
    (hqueue : scanner.queue = []) (hparked : scanner.parked = none)
    (howns : grammar.Owns scanner.openRegions) :
    grammar.tokenize.Leads scanner fun spans after =>
      ∃ handed, spans = (handed.foldl joined []).reverse ∧
        Strides grammar text Sight.whole scanner.openRegions scanner.rangeEnd scanner.mark handed
          scanner.rangeEnd ∧
        Stacked scanner.mark scanner.rangeEnd spans.reverse ∧ after.mark = scanner.rangeEnd := by
  have hstart : Underway grammar text scanner scanner.mark scanner.mark [] :=
    ⟨hs, hparked, howns, by rw [hqueue]; rfl,
      by rw [hqueue]; exact fun _ hspan => (by cases hspan), rfl, List.isChain_nil⟩
  refine Scan.Leads.get (Scan.Leads.bind ((addAll_leads hplain hbegins heof (turnsLeft scanner)
    hstart (by unfold turnsLeft; omega)).mono fun result after h => Scan.Leads.pure ?_))
  obtain ⟨handed, rfl, hpassed, hstacked, hend, hempty⟩ := h
  obtain ⟨strides, hspans, hstrides⟩ := hpassed.spans_eq
  rw [hqueue, hempty, List.nil_append, List.append_nil] at hspans
  rw [hspans, hend] at hstrides
  exact ⟨handed, rfl, hstrides, by rw [List.reverse_reverse]; exact hstacked, hend⟩

/-- In every state that a session over text documents reaches, with nothing queued or parked and
whatever regions are open, the range from the mark on is divided into spans: none is empty, they
lie one behind the other up to the end of the range, and neighbours have different tokens. -/
theorem the_spans_of_a_range_tile_it {settings : Settings} {scanner : Scanner Region}
    {doc : VersionedText} (hreached : Reached IsText settings scanner)
    (hdoc : scanner.document = doc.toDocument) (hsmall : doc.text.length < maxOffset)
    (hplain : grammar.Plain) (hbegins : grammar.BeginsDefined) (heof : ¬ grammar.Gives .eof)
    (hmark : scanner.mark ≤ scanner.rangeEnd) (hend : scanner.rangeEnd ≤ doc.text.length)
    (hqueue : scanner.queue = []) (hparked : scanner.parked = none)
    (howns : grammar.Owns scanner.openRegions) :
    ∃ spans after, grammar.tokenize scanner = .ok spans after ∧
      Tiles scanner.mark scanner.rangeEnd spans ∧
      (spans = [] ↔ scanner.mark = scanner.rangeEnd) ∧
      spans.IsChain (fun span next => span.token ≠ next.token) ∧
      after.mark = scanner.rangeEnd := by
  have hs : scanner.Sees doc.text Sight.whole :=
    ⟨hreached.onText.current, hdoc ▸ doc.toDocument_shows _ hsmall, hmark, hend⟩
  obtain ⟨spans, after, htokenize, handed, _, _, hstacked, hdone⟩ :=
    tokenize_leads hplain hbegins heof hs hqueue hparked howns
  have htiles := hstacked.tiles
  rw [List.reverse_reverse] at htiles
  have hdiffer := List.isChain_reverse.mp hstacked.differ
  refine ⟨spans, after, htokenize, htiles, ⟨fun hnone => ?_, fun heq => ?_⟩, ?_, hdone⟩
  · rw [hnone] at htiles
    exact htiles
  · rcases spans with _ | ⟨span, rest⟩
    · rfl
    · obtain ⟨_, hpos, hrest⟩ := htiles
      have := hrest.le
      omega
  · exact hdiffer.imp fun span next hne heq => hne heq.symm

/-- A pattern that matches one character. -/
def Pattern.char (c : Char) : Pattern :=
  .ofProgram (String.singleton c) ⟨#[.accept, .take (.single c) 0], 1⟩

/-- Brackets of one kind, which can hold brackets of both kinds. -/
def Region.brackets (id : Nat) (first last : Char) : Region where
  id := id
  name := "brackets"
  beginPattern := .char first
  endPattern := .char last
  beginToken := .other "open"
  contentToken := .other "inside"
  endToken := .other "close"
  rules := [.region 0, .region 1]
  embedded := false

/-- Round and square brackets, nested to any depth. -/
def Grammar.brackets : Grammar where
  regions := [.brackets 0 '(' ')', .brackets 1 '[' ']']
  customs := []
  rules := [.region 0, .region 1]
  defaultToken := .other "outside"

theorem Grammar.brackets_plain : Grammar.brackets.Plain := .of_ids rfl rfl

theorem Grammar.brackets_begin : Grammar.brackets.BeginsDefined := by
  decide

theorem Grammar.brackets_lack_eof : ¬ Grammar.brackets.Gives .eof := by
  decide

/-- The start of a scan over `(a)`. -/
def Scanner.atBracket : Scanner Region :=
  (Scanner.fresh (VersionedText.ofText ['(', 'a', ')']).toDocument
    ⟨3, Nat.zero_lt_succ 2⟩).withRange (VersionedText.ofText ['(', 'a', ')']).toDocument 0 3

theorem Scanner.atBracket_reached : Reached IsText ⟨3, by decide⟩ .atBracket :=
  (Reached.fresh _ ⟨_, rfl⟩).withRange ⟨_, rfl⟩ (by decide)

/-- A range that starts inside brackets, with others that are opened in it and not closed. -/
theorem the_spans_of_brackets_tile_them :
    ∃ (scanner after : Scanner Region) (spans : List Span),
      Reached IsText ⟨3, by decide⟩ scanner ∧ scanner.openRegions.length = 1 ∧
      Grammar.brackets.tokenize scanner = .ok spans after ∧ Tiles 2 7 spans := by
  let doc : VersionedText := .ofText ['x', '(', 'a', '[', 'b', ')', '[']
  let fresh : Scanner Region := Scanner.fresh doc.toDocument ⟨3, by decide⟩
  have h0 : Reached IsText ⟨3, by decide⟩ fresh := .fresh _ ⟨doc, rfl⟩
  have h1 : Reached IsText ⟨3, by decide⟩
      { fresh with
        window := ⟨#['a', '[', 'b'], 2, 3, by decide⟩, rangeEnd := 7, mark := 2, tokenStart := 2,
        tally := ⟨1, 0⟩ } :=
    h0.call (.assign doc.toDocument 2 5) fun _ hdoc => ⟨doc, by cases hdoc; rfl⟩
  have h2 := h1.call (.openRegion (.brackets 0 '(' ')')) fun _ hdoc => by cases hdoc
  obtain ⟨spans, after, htokenize, htiles, _⟩ :=
    the_spans_of_a_range_tile_it h2 (show _ = doc.toDocument from rfl) (by decide)
      Grammar.brackets_plain Grammar.brackets_begin Grammar.brackets_lack_eof (by decide)
      (by decide) rfl rfl (fun opened hopened own hown hid => by
        rw [List.mem_singleton.mp hopened] at hid ⊢
        rcases List.mem_pair.mp hown with rfl | rfl
        · rfl
        · cases hid)
  exact ⟨_, after, spans, h2, rfl, htokenize, htiles⟩

end RegionScan
