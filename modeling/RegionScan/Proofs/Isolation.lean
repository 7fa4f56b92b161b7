-- Embedded blocks are isolated. What a block makes of a text is the same whatever
-- regions are open around it, and its inside stays between its delimiters.
import RegionScan.Proofs.Tilings
import RegionScan.Proofs.WalkUniqueness

namespace RegionScan

/-! ## Rules inside rules -/

/-- The rules that can be tried once one of these is: they themselves, and the rules of regions
that they enter. -/
inductive Grammar.Nests (grammar : Grammar) (rules : List Rule) : Rule → Prop
  | here {rule : Rule} : rule ∈ rules → grammar.Nests rules rule
  | inside {id : Nat} {region : Region} {rule : Rule} : grammar.Nests rules (.region id) →
    grammar.regions[id]? = some region → rule ∈ region.rules → grammar.Nests rules rule

/-- A rule of the grammar's own that enters no region with the undefined token. -/
def Grammar.Enterable (grammar : Grammar) : Rule → Prop
  | .pattern _ _ => True
  | .region id => ∀ region, grammar.regions[id]? = some region → region.beginToken ≠ .undefined
  | .custom _ => False

variable {grammar : Grammar}

instance (rule : Rule) : Decidable (grammar.Enterable rule) :=
  match rule with
  | .pattern _ _ => .isTrue trivial
  | .region id => inferInstanceAs
      (Decidable (∀ region ∈ grammar.regions[id]?, region.beginToken ≠ .undefined))
  | .custom _ => .isFalse id

theorem Grammar.Nests.enterable {rules : List Rule} {rule : Rule}
    (hrules : ∀ rule ∈ rules, grammar.Enterable rule)
    (hregions : ∀ region ∈ grammar.regions, ∀ rule ∈ region.rules, grammar.Enterable rule)
    (h : grammar.Nests rules rule) : grammar.Enterable rule := by
  cases h with
  | here hmem => exact hrules rule hmem
  | inside _ hregion hmem => exact hregions _ (List.mem_of_getElem? hregion) rule hmem

/-- What can be tried inside a region can be tried once its rule is. -/
theorem Grammar.Nests.of_region {id : Nat} {region : Region} {rule nested : Rule}
    (hregion : grammar.regions[id]? = some region) (hrule : rule ∈ region.rules)
    (h : grammar.Nests [rule] nested) : grammar.Nests [.region id] nested := by
  induction h with
  | here hmem =>
    rw [List.mem_singleton.mp hmem]
    exact .inside (.here List.mem_cons_self) hregion hrule
  | inside _ hinner hmem ih => exact .inside ih hinner hmem

theorem Grammar.Nests.of_mem {rules : List Rule} {rule nested : Rule} (hrule : rule ∈ rules)
    (h : grammar.Nests [rule] nested) : grammar.Nests rules nested := by
  induction h with
  | here hmem =>
    rw [List.mem_singleton.mp hmem]
    exact .here hrule
  | inside _ hinner hmem ih => exact .inside ih hinner hmem

/-! ## Rules that do not matter -/

section

variable {other : Grammar} {attempt attempt' : Rule → RuleScan Token} {region : Region}

theorem tryRules_congr {mayStart mayStart' : Rule → RuleScan Bool} {rules : List Rule}
    (h : ∀ rule ∈ rules, mayStart rule = mayStart' rule ∧ attempt rule = attempt' rule)
    (content : Option Token) (here pending : Nat) :
    tryRules mayStart attempt content here rules pending =
      tryRules mayStart' attempt' content here rules pending := by
  induction rules generalizing pending with
  | nil => rfl
  | cons rule rest ih =>
    obtain ⟨⟨hstart, hattempt⟩, hrest⟩ := List.forall_mem_cons.mp h
    simp only [tryRules, hstart, hattempt, ih hrest]

variable (h : ∀ rule ∈ region.rules,
  grammar.mayStart rule = other.mayStart rule ∧ attempt rule = attempt' rule)

include h

theorem scanRegion_congr (turns pending : Nat) :
    scanRegion grammar attempt region turns pending =
      scanRegion other attempt' region turns pending := by
  induction turns generalizing pending with
  | zero => rfl
  | succ turns ih => simp only [scanRegion, tryRules_congr h, ih]

theorem scanBlock_congr (turns pending : Nat) :
    scanBlock grammar attempt region turns pending =
      scanBlock other attempt' region turns pending := by
  induction turns generalizing pending with
  | zero => rfl
  | succ turns ih => simp only [scanBlock, tryRules_congr h, ih]

theorem attemptRegion_congr :
    attemptRegion grammar turnsLeft attempt region =
      attemptRegion other turnsLeft attempt' region := by
  simp only [attemptRegion, scanRegion_congr h]

theorem attemptBlock_congr :
    attemptBlock grammar turnsLeft attempt region =
      attemptBlock other turnsLeft attempt' region := by
  simp only [attemptBlock, scanBlock_congr h]

end

/-- The region, with a begin token in any case. -/
def Region.completed (region : Region) : Region :=
  if region.beginToken = .undefined then { region with beginToken := .eof } else region

/-- The grammar without rules of a host, and with a begin token for every region. -/
def Grammar.completed (grammar : Grammar) : Grammar :=
  { grammar with regions := grammar.regions.map Region.completed, customs := [] }

theorem Grammar.completed_begins (grammar : Grammar) : grammar.completed.BeginsDefined := by
  intro region hregion
  obtain ⟨first, -, rfl⟩ := List.mem_map.mp hregion
  unfold Region.completed
  split
  · exact Token.noConfusion
  · assumption

theorem Region.completed_of_defined {region : Region} (h : region.beginToken ≠ .undefined) :
    region.completed = region := if_neg h

theorem Grammar.completed_regions (grammar : Grammar) (id : Nat) :
    grammar.completed.regions[id]? = grammar.regions[id]?.map Region.completed :=
  List.getElem?_map

theorem mayStart_completed {rule : Rule} (h : grammar.Enterable rule) :
    grammar.mayStart rule = grammar.completed.mayStart rule := by
  cases rule with
  | pattern pattern token => rfl
  | region id =>
    simp only [Grammar.mayStart, Grammar.completed_regions]
    rcases hregion : grammar.regions[id]? with _ | region
    · rfl
    · rw [Option.map_some, Region.completed_of_defined (h region hregion)]
  | custom index => exact h.elim

/-- Only regions that can be entered matter. -/
theorem attemptWithin_completed (depth : Nat) {rule : Rule}
    (h : ∀ nested, grammar.Nests [rule] nested → grammar.Enterable nested) :
    grammar.attemptWithin turnsLeft depth rule =
      grammar.completed.attemptWithin turnsLeft depth rule := by
  induction depth generalizing rule with
  | zero => rfl
  | succ depth ih =>
    have hrule := h rule (.here List.mem_cons_self)
    cases rule with
    | pattern pattern token => rfl
    | region id =>
      simp only [Grammar.attemptWithin, Grammar.completed_regions]
      rcases hregion : grammar.regions[id]? with _ | region
      · rfl
      · rw [Option.map_some, Region.completed_of_defined (hrule region hregion)]
        have hinside : ∀ rule ∈ region.rules,
            grammar.mayStart rule = grammar.completed.mayStart rule ∧
              grammar.attemptWithin turnsLeft depth rule =
                grammar.completed.attemptWithin turnsLeft depth rule :=
          fun rule hmem =>
            ⟨mayStart_completed (h rule (.inside (.here List.mem_cons_self) hregion hmem)),
              ih fun nested hnested => h nested (hnested.of_region hregion hmem)⟩
        simp only [attemptBlock_congr hinside, attemptRegion_congr hinside]
    | custom index => exact hrule.elim

/-! ## What a block comes to -/

/-- From an offset of a range on, this is the first place where the pattern matches, with the
length of the match; or it is the end of the range, if there is no match. -/
structure Pattern.EndsFirst (pattern : Pattern) (text : Text) (stop first last length : Nat) :
    Prop where
  first_le : first ≤ last
  none_before : ∀ offset, first ≤ offset → offset < last → pattern.hit? text offset stop = none
  found : pattern.hit? text last stop = some length ∨
    pattern.hit? text last stop = none ∧ last = stop ∧ length = 0

/-- What an embedded block at an offset of a range comes to: a token, the place where the scan goes
on, and the spans that are queued. If the block starts there, they are its begin match, spans that
lie inside it, and its end match. -/
inductive BlockOutcome (block : Region) (text : Text) (stop here : Nat) :
    Token → Nat → List Span → Prop
  | absent : block.beginPattern.claim? text here stop = none →
    BlockOutcome block text stop here .undefined here []
  | scanned {length last endLength : Nat} {inside : List Span} :
    block.beginPattern.claim? text here stop = some length →
    block.endPattern.EndsFirst text stop (here + length) last endLength →
    Tiles (here + length) last inside → (∀ span ∈ inside, span.Within (here + length) last) →
      BlockOutcome block text stop here block.beginToken (last + endLength)
        (⟨block.beginToken, here, length⟩ :: inside ++ piece ⟨block.endToken, last, endLength⟩)

/-- A block as it is walked with some regions open around it: it does not start, or it is
entered. -/
inductive BlockWalk (grammar : Grammar) (text : Text) (depth : Nat) (block : Region)
    (openRegions : List Region) (stop here : Nat) : Token → Nat → List Span → Prop
  | absent : Sight.whole.Claims text block.beginPattern here stop none →
    BlockWalk grammar text depth block openRegions stop here .undefined here []
  | entered {passage : Passage} :
    EntersWithin grammar text .whole (depth + 1) block openRegions stop here passage →
      BlockWalk grammar text depth block openRegions stop here block.beginToken passage.stop
        passage.spans

section

variable {text : Text} {block region : Region} {openRegions other : List Region}
  {stop here mark mark' depth : Nat} {token token' : Token} {spans spans' : List Span}

theorem Seeks.endsFirst {pattern : Pattern} {start length : Nat} (hhere : here ≤ stop)
    (h : Seeks text .whole pattern stop here start length) :
    pattern.EndsFirst text stop here start length := by
  induction h with
  | found hfinds =>
    exact ⟨Nat.le_refl _, fun _ hle hlt => absurd hlt (Nat.not_lt_of_le hle),
      Or.inl (Sight.finds_whole.mp hfinds).symm⟩
  | @further here start length hnone hlt _ _ ih =>
    obtain ⟨hle, hbefore, hfound⟩ := ih hlt
    refine ⟨Nat.le_of_succ_le hle, fun offset hfirst hlast => ?_, hfound⟩
    rcases Nat.eq_or_lt_of_le hfirst with rfl | hlater
    · exact (Sight.finds_whole.mp hnone).symm
    · exact hbefore offset hlater hlast
  | ended hnone hend =>
    exact ⟨Nat.le_refl _, fun _ hle hlt => absurd hlt (Nat.not_lt_of_le hle),
      Or.inr ⟨(Sight.finds_whole.mp hnone).symm,
        Nat.le_antisymm hhere (hend.resolve_right id), rfl⟩⟩

theorem EntersWithin.claims {passage : Passage}
    (h : EntersWithin grammar text .whole depth region openRegions stop here passage) :
    ∃ length, Sight.whole.Claims text region.beginPattern here stop (some length) := by
  cases depth with
  | zero => exact h.elim
  | succ depth =>
    cases h with
    | region _ hclaims | block _ hclaims => exact ⟨_, hclaims⟩

/-- A block is walked in the same way, whatever is open around it. -/
theorem BlockWalk.unique (hsealed : block.embedded = true)
    (h : BlockWalk grammar text depth block openRegions stop here token mark spans)
    (h' : BlockWalk grammar text depth block other stop here token' mark' spans') :
    token = token' ∧ mark = mark' ∧ spans = spans' := by
  cases h with
  | absent hnone =>
    cases h' with
    | absent => exact ⟨rfl, rfl, rfl⟩
    | entered henters =>
      obtain ⟨length, hclaims⟩ := henters.claims
      cases hnone.unique hclaims
  | entered henters =>
    cases h' with
    | absent hnone =>
      obtain ⟨length, hclaims⟩ := henters.claims
      cases hnone.unique hclaims
    | entered henters' =>
      cases EntersWithin.unique (depth + 1)
        (fun hopen => absurd (hsealed.symm.trans hopen) (by decide)) henters henters'
      exact ⟨rfl, rfl, rfl⟩

/-- The inside of a block stays between its delimiters. -/
theorem BlockWalk.outcome (hsealed : block.embedded = true)
    (h : BlockWalk grammar text depth block openRegions stop here token mark spans) :
    BlockOutcome block text stop here token mark spans := by
  cases h with
  | absent hnone => exact .absent (Sight.claims_whole.mp hnone).symm
  | entered henters =>
    cases henters with
    | region hopen => exact absurd (hsealed.symm.trans hopen) (by decide)
    | block _ hclaims hseeks hinside =>
      obtain ⟨-, hle, -⟩ := hclaims.length
      obtain ⟨hstart, -⟩ := hseeks.fits hle
      have htiles := hinside.tiles (EntersWithin.fits depth) (EntersWithin.tiles depth) hstart
        (Nat.le_refl _)
      rw [hinside.stop_eq_of_embedded (EntersWithin.fits depth) hstart hsealed] at htiles
      exact .scanned (Sight.claims_whole.mp hclaims).symm (hseeks.endsFirst hle) htiles
        fun span hspan => htiles.within hspan

/-! ## Blocks in a scan -/

variable {scanner : Scanner Region}

/-- A block whose nested rules can all be entered is walked. -/
theorem attemptBlock_walks (hsealed : block.embedded = true)
    (hnested : ∀ rule, grammar.Nests block.rules rule → grammar.Enterable rule)
    (hs : scanner.Sees text .whole) (hparked : scanner.parked = none)
    (hdepth : scanner.rangeEnd - scanner.mark < depth + 1) :
    (attemptBlock grammar turnsLeft (grammar.attemptWithin turnsLeft depth) block).Leads scanner
      fun token after => ∃ mark spans, BlockWalk grammar.completed text depth block
        scanner.openRegions scanner.rangeEnd scanner.mark token mark spans ∧
          scanner.Walked after spans mark none := by
  have hinside : ∀ rule ∈ block.rules,
      grammar.mayStart rule = grammar.completed.mayStart rule ∧
        grammar.attemptWithin turnsLeft depth rule =
          grammar.completed.attemptWithin turnsLeft depth rule :=
    fun rule hmem => ⟨mayStart_completed (hnested rule (.here hmem)),
      attemptWithin_completed depth fun nested h => hnested nested (h.of_mem hmem)⟩
  rw [attemptBlock_congr hinside]
  refine (attemptBlock_leads turnsLeft_enough rfl grammar.completed_begins (EntersWithin.fits depth)
    (EntersWithin.queues depth) (attemptWithin_leads turnsLeft_enough rfl
      grammar.completed_begins depth) hsealed hs hparked hdepth).mono ?_
  rintro token after (⟨rfl, hnone, hwalked⟩ | ⟨rfl, passage, henters, hwalked⟩)
  · exact ⟨_, _, .absent hnone, hwalked⟩
  · refine ⟨_, _, .entered henters, ?_⟩
    cases henters with
    | region hopen => exact absurd (hsealed.symm.trans hopen) (by decide)
    | block => exact hwalked

end

theorem attempt_block {id : Nat} {block : Region} (hblock : grammar.regions[id]? = some block)
    (hsealed : block.embedded = true) {scanner : Scanner Region} {depth : Nat}
    (hdepth : turnsLeft scanner = depth + 1) :
    grammar.attempt (.region id) scanner =
      attemptBlock grammar turnsLeft (grammar.attemptWithin turnsLeft depth) block scanner := by
  unfold Grammar.attempt
  rw [Scan.get_bind, hdepth]
  simp only [Grammar.attemptWithin, hblock, hsealed, if_true]

/-- Over a text, with nothing parked, an embedded block whose rules enter no region with the
undefined token comes to the same whatever regions are open around it: the same token, the same
spans and the same mark, and nothing is parked. The spans of its inside lie between its begin match
and the first end match behind that, or the end of the range if there is none. -/
theorem embedded_blocks_are_isolated {settings : Settings} {scanner : Scanner Region}
    (hreached : Reached IsText settings scanner) {doc : VersionedText}
    (hdocument : scanner.document = doc.toDocument) (hsmall : doc.text.length < maxOffset)
    (hmark : scanner.mark ≤ scanner.rangeEnd) (hend : scanner.rangeEnd ≤ doc.text.length)
    (hparked : scanner.parked = none) {id : Nat} {block : Region}
    (hblock : grammar.regions[id]? = some block) (hsealed : block.embedded = true)
    (hnested : ∀ rule, grammar.Nests block.rules rule → grammar.Enterable rule) :
    ∃ token mark spans,
      BlockOutcome block doc.text scanner.rangeEnd scanner.mark token mark spans ∧
      ∀ openRegions, ∃ after,
        grammar.attempt (.region id) { scanner with openRegions } = .ok token after ∧
        after.queue = scanner.queue ++ spans ∧ after.mark = mark ∧ after.parked = none := by
  obtain ⟨-, hcurrent, -⟩ := hreached.onText
  obtain ⟨depth, hdepth⟩ : ∃ depth, turnsLeft scanner = depth + 1 := ⟨_, rfl⟩
  have henough := hdepth ▸ turnsLeft_enough scanner
  have hwalks : ∀ openRegions, ∃ token after mark spans,
      grammar.attempt (.region id) { scanner with openRegions } = .ok token after ∧
      BlockWalk grammar.completed doc.text depth block openRegions scanner.rangeEnd
        scanner.mark token mark spans ∧
      after.queue = scanner.queue ++ spans ∧ after.mark = mark ∧ after.parked = none := by
    intro openRegions
    have hs : ({ scanner with openRegions } : Scanner Region).Sees doc.text .whole :=
      ⟨⟨hcurrent.1, hcurrent.2⟩, hdocument ▸ doc.toDocument_shows _ hsmall, hmark, hend⟩
    obtain ⟨token, after, hattempt, mark, spans, hwalk, hwalked⟩ :=
      attemptBlock_walks hsealed hnested hs hparked henough
    refine ⟨token, after, mark, spans, ?_, hwalk, hwalked.queue_eq, hwalked.mark_eq,
      hwalked.parked_eq⟩
    -- The turns that are left do not depend on the regions that are open.
    rw [attempt_block hblock hsealed (show turnsLeft { scanner with openRegions } = _ from hdepth)]
    exact hattempt
  obtain ⟨token, -, mark, spans, -, hwalk, -⟩ := hwalks []
  refine ⟨token, mark, spans, hwalk.outcome hsealed, fun openRegions => ?_⟩
  obtain ⟨_, after, _, _, hattempt, hwalk', hafter⟩ := hwalks openRegions
  obtain ⟨rfl, rfl, rfl⟩ := hwalk.unique hsealed hwalk'
  exact ⟨after, hattempt, hafter⟩

/-- Round brackets, and square ones that are a block. Both can hold both. -/
def Grammar.sealedBrackets : Grammar where
  regions := [.brackets 0 '(' ')', { Region.brackets 1 '[' ']' with embedded := true }]
  customs := []
  rules := [.region 0, .region 1]
  defaultToken := .other "outside"

/-- A block in which round brackets are opened and not closed, whether round brackets are open
around it or not. -/
theorem a_block_in_brackets_is_isolated :
    ∃ (scanner : Scanner Region) (token : Token) (mark : Nat) (spans : List Span),
      Reached IsText ⟨3, by decide⟩ scanner ∧
      BlockOutcome { Region.brackets 1 '[' ']' with embedded := true } ['[', '(', 'a', ']', ')'] 5
        0 token mark spans ∧
      ∀ openRegions, ∃ after,
        Grammar.sealedBrackets.attempt (.region 1) { scanner with openRegions } =
          .ok token after ∧
        after.queue = spans ∧ after.mark = mark ∧ after.parked = none := by
  let doc : VersionedText := .ofText ['[', '(', 'a', ']', ')']
  have hreached : Reached IsText ⟨3, by decide⟩ _ :=
    (Reached.fresh doc.toDocument ⟨doc, rfl⟩).withRange ⟨doc, rfl⟩
      (show 0 + 5 ≤ doc.toDocument.length by decide)
  obtain ⟨token, mark, spans, houtcome, hruns⟩ :=
    embedded_blocks_are_isolated hreached (show _ = doc.toDocument from rfl) (by decide)
      (by decide) (by decide) rfl (show Grammar.sealedBrackets.regions[1]? = some _ from rfl) rfl
      fun rule => Grammar.Nests.enterable (by decide) (by decide)
  exact ⟨_, token, mark, spans, hreached, houtcome, hruns⟩

end RegionScan
