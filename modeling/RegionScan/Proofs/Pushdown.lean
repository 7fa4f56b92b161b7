-- A pushdown machine for nested regions, and the law that a scan does what it does.
-- The machine closes any number of regions in one step. A scan closes one at a
-- time: an end that is seen from further inside is parked until its region is back.
import RegionScan.Proofs.Tilings

namespace RegionScan

/-! ## The machine -/

/-- A range that is walked by rules of its own: the text of a scan, or the inside of an embedded
block. Characters that no rule claims get the filler where no region is open in it. -/
structure Level where
  rules : List Rule
  filler : Token
  stop : Nat
  opened : List Region

/-- What comes behind a block. -/
structure Delimiter where
  token : Token
  length : Nat

/-- A state of the machine: its place, the range it walks, and for each block around its place
the end of the block with the range that goes on behind it. -/
structure Pushdown where
  here : Nat
  level : Level
  around : List (Delimiter × Level)

namespace Level

/-- The rules that are tried: those of the innermost region. -/
def rulesHere (level : Level) : List Rule :=
  match level.opened with
  | [] => level.rules
  | region :: _ => region.rules

/-- What a character is labelled if no rule claims it. -/
def fillerHere (level : Level) : Token :=
  match level.opened with
  | [] => level.filler
  | region :: _ => region.contentToken

end Level

/-- The end of the innermost region that ends at an offset: its token, its length, and the
regions that stay open around it. -/
def closing? (text : Text) (here stop : Nat) : List Region → Option (Token × Nat × List Region)
  | [] => none
  | region :: outer =>
    match region.endPattern.hit? text here stop with
    | some length => some (region.endToken, length, outer)
    | none => closing? text here stop outer

/-- What a rule does where it claims text. -/
inductive Move where
  | word (token : Token) (length : Nat)
  | enter (region : Region) (length : Nat)

/-- What one rule does at an offset. The undefined token is no token to label text with. -/
def Grammar.moveOf? (grammar : Grammar) (text : Text) (here stop : Nat) : Rule → Option Move
  | .pattern pattern token =>
    if token = .undefined then none else (pattern.claim? text here stop).map (.word token)
  | .region id => do
    let region ← grammar.regions[id]?
    (region.beginPattern.claim? text here stop).map (.enter region)
  | .custom _ => none

/-- What the first rule does that claims text at an offset. -/
def Grammar.move? (grammar : Grammar) (text : Text) (here stop : Nat) (rules : List Rule) :
    Option Move :=
  rules.findSome? (grammar.moveOf? text here stop)

/-- Where a block ends, and how long its end is: the first match among `left` offsets and the one
behind them, or the end of the range. -/
def Pattern.blockEnd (pattern : Pattern) (text : Text) (stop : Nat) : Nat → Nat → Nat × Nat
  | 0, here => (here, (pattern.hit? text here stop).getD 0)
  | left + 1, here =>
    match pattern.hit? text here stop with
    | some length => (here, length)
    | none => pattern.blockEnd text stop left (here + 1)

namespace Pushdown

/-- Behind the begin match of a region. A block gets a range of its own. -/
def entered (state : Pushdown) (text : Text) (region : Region) (length : Nat) : Pushdown :=
  let inside := state.here + length
  if region.embedded then
    let found := region.endPattern.blockEnd text state.level.stop (state.level.stop - inside) inside
    ⟨inside, ⟨region.rules, region.contentToken, found.1, []⟩,
      (⟨region.endToken, found.2⟩, state.level) :: state.around⟩
  else
    { state with
      here := inside, level := { state.level with opened := region :: state.level.opened } }

/-- The labels that a move gives, and the state behind it. -/
def moved (state : Pushdown) (text : Text) : Move → List Token × Pushdown
  | .word token length => (.replicate length token, { state with here := state.here + length })
  | .enter region length =>
    (.replicate length region.beginToken, state.entered text region length)

/-- One step: a region is closed, or a rule claims text, or a character is passed. At the end of
its range a block is left, and the machine stops at the end of the outermost range. -/
def step? (grammar : Grammar) (text : Text) (state : Pushdown) : Option (List Token × Pushdown) :=
  let ⟨here, level, around⟩ := state
  if here < level.stop then
    match closing? text here level.stop level.opened with
    | some (token, length, outer) =>
      some (.replicate length token, ⟨here + length, { level with opened := outer }, around⟩)
    | none =>
      match grammar.move? text here level.stop level.rulesHere with
      | some move => some (state.moved text move)
      | none => some ([level.fillerHere], ⟨here + 1, level, around⟩)
  else
    match around with
    | [] => none
    | (delimiter, outer) :: around =>
      some (.replicate delimiter.length delimiter.token, ⟨here + delimiter.length, outer, around⟩)

/-- The machine gets from one state to another, and labels text on the way. -/
inductive Reaches (grammar : Grammar) (text : Text) : Pushdown → List Token → Pushdown → Prop
  | refl {state} : Reaches grammar text state [] state
  | step {state middle last labels more} : state.step? grammar text = some (labels, middle) →
    Reaches grammar text middle more last → Reaches grammar text state (labels ++ more) last

/-- The machine labels a text and stops. -/
def Runs (grammar : Grammar) (text : Text) (state : Pushdown) (tokens : List Token) : Prop :=
  ∃ last, Reaches grammar text state tokens last ∧ last.step? grammar text = none

variable {grammar : Grammar} {text : Text} {state middle last : Pushdown}
  {tokens more : List Token}

theorem Reaches.single (h : state.step? grammar text = some (tokens, last)) :
    Reaches grammar text state tokens last := by
  have hreach : Reaches grammar text state (tokens ++ []) last := .step h .refl
  rwa [List.append_nil] at hreach

theorem Reaches.trans (h : Reaches grammar text state tokens middle)
    (hmore : Reaches grammar text middle more last) :
    Reaches grammar text state (tokens ++ more) last := by
  induction h with
  | refl => exact hmore
  | step hstep _ ih =>
    rw [List.append_assoc]
    exact .step hstep (ih hmore)

section

variable {here : Nat} {level : Level} {around : List (Delimiter × Level)}

theorem step?_closing {token : Token} {length : Nat} {outer : List Region} (hlt : here < level.stop)
    (h : closing? text here level.stop level.opened = some (token, length, outer)) :
    step? grammar text ⟨here, level, around⟩ = some (.replicate length token,
      ⟨here + length, { level with opened := outer }, around⟩) := by
  simp only [step?, if_pos hlt, h]

theorem step?_move {move : Move} (hlt : here < level.stop)
    (hopen : closing? text here level.stop level.opened = none)
    (h : grammar.move? text here level.stop level.rulesHere = some move) :
    step? grammar text ⟨here, level, around⟩ = some (moved ⟨here, level, around⟩ text move) := by
  simp only [step?, if_pos hlt, hopen, h]

theorem step?_filler (hlt : here < level.stop)
    (hopen : closing? text here level.stop level.opened = none)
    (h : grammar.move? text here level.stop level.rulesHere = none) :
    step? grammar text ⟨here, level, around⟩ =
      some ([level.fillerHere], ⟨here + 1, level, around⟩) := by
  simp only [step?, if_pos hlt, hopen, h]

theorem step?_leave {delimiter : Delimiter} {outer : Level} (hstop : here = level.stop) :
    step? grammar text ⟨here, level, (delimiter, outer) :: around⟩ = some
      (.replicate delimiter.length delimiter.token, ⟨here + delimiter.length, outer, around⟩) := by
  simp only [step?, if_neg (show ¬ here < level.stop by omega)]

end

/-- What the machine has labelled so far stays as it goes on. -/
theorem Reaches.isPrefix (h : Reaches grammar text state more middle)
    (hruns : Runs grammar text state tokens) : more <+: tokens := by
  induction h generalizing tokens with
  | refl => exact List.nil_prefix
  | step hstep _ ih =>
    obtain ⟨last, hreach, hstop⟩ := hruns
    cases hreach with
    | refl => cases hstop.symm.trans hstep
    | step hstep' hmore =>
      cases hstep.symm.trans hstep'
      exact (List.prefix_append_right_inj _).mpr (ih ⟨last, hmore, hstop⟩)

/-- What the machine labels a text with is settled by the state it starts in. -/
theorem Runs.unique (h : Runs grammar text state tokens) (hmore : Runs grammar text state more) :
    tokens = more := by
  obtain ⟨last, hreach, _⟩ := id h
  obtain ⟨last', hreach', _⟩ := id hmore
  exact (hreach.isPrefix hmore).eq_of_length_le (hreach'.isPrefix h).length_le

end Pushdown

variable {grammar : Grammar} {text : Text} {sight : Sight}
  {enters : Region → List Region → Nat → Nat → Passage → Prop}
  {region : Region} {openRegions outer : List Region} {rules : List Rule} {passage : Passage}
  {stop here pending length : Nat} {started : Bool} {level : Level}
  {around : List (Delimiter × Level)}

/-! ## Labels of spans -/

/-- The tokens of the characters that the spans cover. -/
def labels (spans : List Span) : List Token :=
  spans.flatMap fun span => List.replicate span.length span.token

theorem labels_append {spans more : List Span} :
    labels (spans ++ more) = labels spans ++ labels more :=
  List.flatMap_append

theorem labels_piece (span : Span) :
    labels (piece span) = List.replicate span.length span.token := by
  unfold piece
  split
  · exact List.flatMap_singleton _ _
  · rw [show span.length = 0 by omega]
    rfl

theorem labels_joined {spans : List Span} {span : Span} :
    labels (joined spans span).reverse =
      labels spans.reverse ++ List.replicate span.length span.token := by
  unfold joined
  split
  · rename_i last earlier
    split
    · rename_i htoken
      simp only [List.reverse_cons, labels_append, List.append_assoc]
      simp only [labels, List.flatMap_singleton, ← htoken, List.replicate_append_replicate]
    · rw [List.reverse_cons, labels_append]
      simp only [labels, List.flatMap_singleton]
  · simp only [labels, List.reverse_singleton, List.reverse_nil, List.flatMap_nil,
      List.flatMap_singleton, List.nil_append]

/-- Joining neighbours changes no label. -/
theorem labels_foldl_joined {spans handed : List Span} :
    labels (handed.foldl joined spans).reverse = labels spans.reverse ++ labels handed := by
  induction handed generalizing spans with
  | nil => exact (List.append_nil _).symm
  | cons span rest ih =>
    rw [List.foldl_cons, ih, labels_joined, List.append_assoc]
    rfl

/-! ## Ends and moves of the machine -/

/-- Behind regions that do not end, an end is found as without them. -/
theorem closing?_append {missed : List Region}
    (hmissed : ∀ region ∈ missed, region.endPattern.hit? text here stop = none) :
    closing? text here stop (missed ++ openRegions) = closing? text here stop openRegions := by
  induction missed with
  | nil => rfl
  | cons region rest ih =>
    rw [List.cons_append]
    conv => lhs; unfold closing?
    rw [hmissed region List.mem_cons_self]
    exact ih fun other hother => hmissed other (List.mem_cons_of_mem _ hother)

theorem OuterEnd.nothing_closes (h : OuterEnd text Sight.whole stop here openRegions Option.none) :
    closing? text here stop (endable openRegions) = Option.none := by
  generalize hresult : Option.none = result at h
  induction h with
  | none => rfl
  | sealed hsealed =>
    rw [endable_sealed hsealed]
    rfl
  | found => cases hresult
  | further hopen hfinds _ ih =>
    rw [endable_open hopen, closing?, ← Sight.finds_whole.mp hfinds]
    exact ih hresult

theorem StaysOpen.nothing_closes (h : StaysOpen text Sight.whole region outer stop here) :
    closing? text here stop (endable (region :: outer)) = none := by
  rcases h with hsealed | ⟨hopen, hfinds, houter⟩
  · rw [endable_sealed hsealed]
    rfl
  · rw [endable_open hopen, closing?, ← Sight.finds_whole.mp hfinds]
    exact houter.nothing_closes

theorem OuterEnd.hit {found : Region}
    (h : OuterEnd text Sight.whole stop here openRegions (some (found, length))) :
    found.endPattern.hit? text here stop = some length := by
  generalize hresult : some (found, length) = result at h
  induction h with
  | none => cases hresult
  | sealed => cases hresult
  | found _ hfinds =>
    cases hresult
    exact (Sight.finds_whole.mp hfinds).symm
  | further _ _ _ ih => exact ih hresult

/-- A rule that does not start on a line that is shown makes no move. -/
theorem Grammar.Starts.moveOf?_eq {rule : Rule} (hshown : ¬ sight.hides here)
    (h : grammar.Starts text sight here stop rule none) :
    grammar.moveOf? text here stop rule = none := by
  rcases rule with ⟨pattern, token⟩ | id | index
  · have hnone : none = pattern.claim? text here stop := (Sight.claims_shown hshown).mp h
    rw [Grammar.moveOf?, ← hnone, Option.map_none, ite_self]
  · unfold Grammar.Starts Grammar.opening? at h
    dsimp only at h
    rcases hregion : grammar.regions[id]? with _ | region
    · simp only [Grammar.moveOf?, hregion, Option.bind_eq_bind, Option.bind_none]
    · rw [hregion] at h
      have hnone : none = region.beginPattern.claim? text here stop :=
        (Sight.claims_shown hshown).mp h
      simp only [Grammar.moveOf?, hregion, Option.bind_eq_bind, Option.bind_some, ← hnone,
        Option.map_none]
  · rfl

/-- Nor does one that gives the undefined token. -/
theorem moveOf?_rejected {rule : Rule} (hshown : ¬ sight.hides here)
    (h : (∃ pattern, rule = .pattern pattern .undefined) ∨
      grammar.Starts text sight here stop rule none) :
    grammar.moveOf? text here stop rule = none := by
  rcases h with ⟨pattern, rfl⟩ | h
  · rfl
  · exact h.moveOf?_eq hshown

theorem Tries.nothing_moves (hshown : ¬ sight.hides here)
    (h : Tries grammar text sight enters openRegions stop here rules started none) :
    grammar.move? text here stop rules = none := by
  generalize hfound : none = found at h
  induction h with
  | done => rfl
  | skip hstarts _ ih =>
    rw [Grammar.move?, List.findSome?_cons, hstarts.moveOf?_eq hshown]
    exact ih hfound
  | reject _ hrejected _ ih =>
    rw [Grammar.move?, List.findSome?_cons, moveOf?_rejected hshown hrejected]
    exact ih hfound
  | word => cases hfound
  | enter => cases hfound

/-! ## A scan does what the machine does -/

/-- While an end is parked, the machine has regions open which do not end here, inside those
that the end was looked for among. It is about to close them all at once. -/
structure ParkedEnd.Due (waiting : ParkedEnd Region) (text : Text) (stop here : Nat)
    (outer opened : List Region) : Prop where
  missed : ∃ missed, opened = missed ++ endable outer ∧
    ∀ region ∈ missed, region.endPattern.hit? text here stop = none
  ends : OuterEnd text Sight.whole stop here outer
    (some (waiting.region, waiting.stop - waiting.start))

/-- Which regions the machine has open behind a passage: those around it, or more if an end is
parked. -/
structure Passage.Settles (passage : Passage) (text : Text) (stop : Nat)
    (outer opened : List Region) : Prop where
  none_parked : passage.parked = none → opened = endable outer
  parked : ∀ waiting, passage.parked = some waiting →
    waiting.Due text stop passage.stop outer opened

/-- The machine labels the text of a passage in a range, and ends where the passage does. -/
def Pushdown.Lands (grammar : Grammar) (text : Text) (state : Pushdown) (level : Level)
    (around : List (Delimiter × Level)) (outer : List Region) (tokens : List Token)
    (passage : Passage) : Prop :=
  ∃ opened, state.Reaches grammar text tokens ⟨passage.stop, { level with opened }, around⟩ ∧
    (passage.stop = level.stop ∨ passage.Settles text level.stop outer opened)

/-- A range in which a region is the innermost one. The inside of a block is a range of its own. -/
structure Level.Suits (level : Level) (region : Region) (outer : List Region) : Prop where
  opened : level.opened = endable (region :: outer)
  rules : region.embedded = true → level.rules = region.rules
  filler : region.embedded = true → level.filler = region.contentToken

theorem Level.Suits.rulesHere (h : level.Suits region outer) : level.rulesHere = region.rules := by
  unfold Level.rulesHere
  rw [h.opened]
  rcases hembedded : region.embedded
  · rw [endable_open hembedded]
  · rw [endable_sealed hembedded]
    exact h.rules hembedded

theorem Level.Suits.fillerHere (h : level.Suits region outer) :
    level.fillerHere = region.contentToken := by
  unfold Level.fillerHere
  rw [h.opened]
  rcases hembedded : region.embedded
  · rw [endable_open hembedded]
  · rw [endable_sealed hembedded]
    exact h.filler hembedded

/-- What the machine does behind the begin match of a region is what the scan does. -/
def EntersLand (grammar : Grammar) (text : Text)
    (enters : Region → List Region → Nat → Nat → Passage → Prop) : Prop :=
  ∀ ⦃region openRegions stop here passage⦄ (level : Level) (around : List (Delimiter × Level))
    (length : Nat), region ∈ grammar.regions → grammar.Owns openRegions →
    enters region openRegions stop here passage →
    region.beginPattern.claim? text here stop = some length →
    level.stop = stop → level.opened = endable openRegions →
    ∃ tokens, labels passage.spans = List.replicate length region.beginToken ++ tokens ∧
      Pushdown.Lands grammar text (Pushdown.entered ⟨here, level, around⟩ text region length)
        level around openRegions tokens passage

theorem Tries.moves (hland : EntersLand grammar text enters) (howns : grammar.Owns openRegions)
    (hstop : level.stop = stop) (hopened : level.opened = endable openRegions)
    (h : Tries grammar text Sight.whole enters openRegions stop here rules started (some passage)) :
    ∃ move tokens, grammar.move? text here stop rules = some move ∧
      labels passage.spans = (Pushdown.moved ⟨here, level, around⟩ text move).1 ++ tokens ∧
      Pushdown.Lands grammar text (Pushdown.moved ⟨here, level, around⟩ text move).2 level around
        openRegions tokens passage := by
  generalize hfound : some passage = found at h
  induction h with
  | done => cases hfound
  | skip hstarts _ ih =>
    obtain ⟨move, tokens, hmove, hlands⟩ := ih hfound
    refine ⟨move, tokens, ?_, hlands⟩
    rw [Grammar.move?, List.findSome?_cons, hstarts.moveOf?_eq id]
    exact hmove
  | reject _ hrejected _ ih =>
    obtain ⟨move, tokens, hmove, hlands⟩ := ih hfound
    refine ⟨move, tokens, ?_, hlands⟩
    rw [Grammar.move?, List.findSome?_cons, moveOf?_rejected id hrejected]
    exact hmove
  | @word pattern token rest length hclaims htoken =>
    cases hfound
    refine ⟨.word token length, [], ?_, ?_, level.opened, .refl, Or.inr ⟨fun _ => hopened, ?_⟩⟩
    · rw [Grammar.move?, List.findSome?_cons, Grammar.moveOf?, if_neg htoken,
        ← Sight.claims_whole.mp hclaims, Option.map_some]
    · simp only [labels, List.flatMap_singleton, Pushdown.moved, List.append_nil]
    · exact fun _ hparked => by cases hparked
  | @enter id region rest entered length hregion hclaims henter =>
    cases hfound
    have hclaim := (Sight.claims_whole.mp hclaims).symm
    obtain ⟨tokens, hlabels, hlands⟩ := hland level around length (List.mem_of_getElem? hregion)
      howns henter hclaim hstop hopened
    refine ⟨.enter region length, tokens, ?_, hlabels, hlands⟩
    rw [Grammar.move?, List.findSome?_cons, Grammar.moveOf?, hregion]
    simp only [Option.bind_eq_bind, Option.bind_some, hclaim, Option.map_some]

/-- At the end of its range the machine has nothing to do. -/
theorem Pushdown.Lands.at_stop (hhere : passage.stop = here) (hstop : here = level.stop) :
    Pushdown.Lands grammar text ⟨here, level, around⟩ level around outer [] passage :=
  ⟨level.opened, hhere ▸ .refl, Or.inl (hhere.trans hstop)⟩

/-- Where no region ends, the machine takes the first rule that claims text. -/
theorem Tries.lands (around : List (Delimiter × Level)) (hfit : EntersFit enters)
    (hland : EntersLand grammar text enters) (howns : grammar.Owns openRegions)
    (hopened : level.opened = endable openRegions)
    (hclosing : closing? text here level.stop level.opened = none)
    (hrules : level.rulesHere = rules)
    (h : Tries grammar text Sight.whole enters openRegions level.stop here rules started
      (some passage)) :
    Pushdown.Lands grammar text ⟨here, level, around⟩ level around openRegions
      (labels passage.spans) passage := by
  obtain ⟨hforward, hfits⟩ := h.fits hfit
  have hlt : here < level.stop := Nat.lt_of_lt_of_le hforward hfits.stop_le
  obtain ⟨move, tokens, hmove, hlabels, opened, hreach, hsettled⟩ := h.moves hland howns rfl hopened
  rw [hlabels]
  exact ⟨opened, .step (Pushdown.step?_move hlt hclosing (hrules.symm ▸ hmove)) hreach, hsettled⟩

/-- At the end of its range a walk leaves nothing behind. -/
theorem Interior.at_stop (hfit : EntersFit enters) (htile : EntersTile enters)
    (h : Interior grammar text Sight.whole enters region outer stop stop stop passage) :
    passage.stop = stop ∧ labels passage.spans = [] := by
  obtain ⟨hle, hfits⟩ := h.fits hfit (Nat.le_refl _)
  have hstop : passage.stop = stop := Nat.le_antisymm hfits.stop_le hle
  have htiles := h.tiles hfit htile (Nat.le_refl _) (Nat.le_refl _)
  rw [hstop] at htiles
  rcases hspans : passage.spans with _ | ⟨span, rest⟩
  · exact ⟨hstop, rfl⟩
  · rw [hspans] at htiles
    obtain ⟨_, hpos, hrest⟩ := htiles
    have := hrest.le
    omega

/-- What is parked for a region further out leaves this one among those that do not end here. -/
theorem ParkedEnd.Due.further {waiting : ParkedEnd Region} {opened : List Region}
    (h : waiting.Due text stop here (region :: outer) opened) (hopen : region.embedded = false)
    (hid : waiting.region.id ≠ region.id) : waiting.Due text stop here outer opened := by
  obtain ⟨⟨missed, hopened, hmissed⟩, houter⟩ := h
  rw [endable_open hopen] at hopened
  generalize hfound : some (waiting.region, waiting.stop - waiting.start) = found at houter
  cases houter with
  | sealed => cases hfound
  | found =>
    cases hfound
    exact absurd rfl hid
  | further _ hfinds houter =>
    subst hfound
    refine ⟨⟨missed ++ [region], by rw [hopened, List.append_assoc]; rfl, ?_⟩, houter⟩
    intro other hother
    rcases List.mem_append.mp hother with hother | hother
    · exact hmissed other hother
    · rw [List.mem_singleton.mp hother]
      exact (Sight.finds_whole.mp hfinds).symm

theorem Interior.lands (level : Level) (around : List (Delimiter × Level))
    (hplain : grammar.Plain) (hfit : EntersFit enters)
    (htile : EntersTile enters) (hland : EntersLand grammar text enters)
    (hregion : region ∈ grammar.regions) (howns : grammar.Owns outer)
    (hhere : here ≤ stop) (hpending : pending ≤ here) (hstop : level.stop = stop)
    (hsuits : level.Suits region outer)
    (h : Interior grammar text Sight.whole enters region outer stop here pending passage) :
    ∃ tokens, labels passage.spans =
        List.replicate (here - pending) region.contentToken ++ tokens ∧
      Pushdown.Lands grammar text ⟨here, level, around⟩ level around outer tokens passage := by
  have howns' := hplain.owns_cons hregion howns
  subst hstop
  induction h with
  | @ownEnd here pending length hopen hfinds =>
    obtain ⟨_, hle⟩ := hfinds.length
    refine ⟨List.replicate length region.endToken, ?_, ?_⟩
    · rw [labels_append, labels_piece, labels_piece]
    rcases Nat.lt_or_eq_of_le hhere with hlt | heq
    · have hclosing : closing? text here level.stop level.opened =
          some (region.endToken, length, endable outer) := by
        rw [hsuits.opened, endable_open hopen, closing?, ← Sight.finds_whole.mp hfinds]
      exact ⟨_, .single (Pushdown.step?_closing hlt hclosing),
        Or.inr ⟨fun _ => rfl, fun _ hparked => by cases hparked⟩⟩
    · obtain rfl : length = 0 := by omega
      exact Pushdown.Lands.at_stop rfl heq
  | @outerEnd here pending found length hopen hfinds houter =>
    refine ⟨[], by rw [labels_piece, List.append_nil], _, .refl, Or.inr ⟨fun hnone => ?_, ?_⟩⟩
    · cases hnone
    · intro waiting hparked
      cases hparked
      refine ⟨⟨[region], by rw [hsuits.opened, endable_open hopen]; rfl, ?_⟩, ?_⟩
      · intro missed hmissed
        rw [List.mem_singleton.mp hmissed]
        exact (Sight.finds_whole.mp hfinds).symm
      · dsimp only
        rw [Nat.add_sub_cancel_left]
        exact houter
  | @onward here pending started passage rest hstays htries hparked hrest ih =>
    obtain ⟨hforward, hfits⟩ := htries.fits hfit
    obtain ⟨opened, hreach, hend | hsettled⟩ := htries.lands around hfit hland howns'
      hsuits.opened (hsuits.opened ▸ hstays.nothing_closes) hsuits.rulesHere
    · rw [hend] at hrest
      obtain ⟨hstop, hnothing⟩ := hrest.at_stop hfit htile
      refine ⟨labels passage.spans, ?_, opened, ?_, Or.inl hstop⟩
      · show labels (_ ++ _ ++ rest.spans) = _
        rw [labels_append, labels_append, labels_piece, hnothing, List.append_nil]
      · show Pushdown.Reaches _ _ _ _ ⟨rest.stop, _, _⟩
        rw [hstop]
        exact hend ▸ hreach
    · obtain rfl : opened = level.opened :=
        (hsettled.none_parked hparked).trans hsuits.opened.symm
      obtain ⟨tokens, hlabels, final, hreach', hsettled'⟩ := ih (Nat.le_refl _) hfits.stop_le
      refine ⟨labels passage.spans ++ tokens, ?_, final, hreach.trans hreach', ?_⟩
      · show labels (_ ++ _ ++ rest.spans) = _
        rw [labels_append, labels_append, labels_piece, hlabels, Nat.sub_self, List.append_assoc]
        rfl
      · exact hsettled'.imp_right fun h => ⟨h.none_parked, h.parked⟩
  | @taken here pending started passage waiting hopen hstays htries hparked hid =>
    obtain ⟨hforward, hfits⟩ := htries.fits hfit
    obtain ⟨hstart, hle, hmost, hmem, hdelimiter⟩ := hfits.parked _ hparked
    have hown : waiting.region = region :=
      howns' _ (List.takeWhile_subset _ hmem) region hregion hid
    obtain ⟨opened, hreach, hsettled⟩ := htries.lands around hfit hland howns'
      hsuits.opened (hsuits.opened ▸ hstays.nothing_closes) hsuits.rulesHere
    have hlabels : labels (piece ⟨region.contentToken, pending, here - pending⟩ ++ passage.spans ++
        piece waiting.delimiter) = List.replicate (here - pending) region.contentToken ++
          (labels passage.spans ++
            List.replicate (waiting.stop - waiting.start) region.endToken) := by
      rw [labels_append, labels_append, labels_piece, labels_piece, List.append_assoc, hdelimiter,
        hown]
    refine ⟨_, hlabels, ?_⟩
    rcases Nat.lt_or_eq_of_le hfits.stop_le with hlt | hend
    · obtain ⟨⟨missed, rfl, hmissed⟩, houter⟩ :=
        (hsettled.resolve_left (Nat.ne_of_lt hlt)).parked _ hparked
      have hclosing : closing? text passage.stop level.stop (missed ++ endable (region :: outer)) =
          some (region.endToken, waiting.stop - waiting.start, endable outer) := by
        rw [closing?_append hmissed, endable_open hopen, closing?, ← hown, houter.hit, hown]
      have hwaiting : passage.stop + (waiting.stop - waiting.start) = waiting.stop := by omega
      have hclose := hreach.trans (.single (Pushdown.step?_closing hlt hclosing))
      rw [hwaiting] at hclose
      exact ⟨_, hclose, Or.inr ⟨fun _ => rfl, fun _ hnone => by cases hnone⟩⟩
    · have hwaiting : passage.stop = waiting.stop := by omega
      rw [show waiting.stop - waiting.start = 0 by omega, List.replicate_zero, List.append_nil]
      exact ⟨opened, hwaiting ▸ hreach, Or.inl (hwaiting ▸ hend)⟩
  | @passed here pending started passage waiting hopen hstays htries hparked hid =>
    obtain ⟨opened, hreach, hsettled⟩ := htries.lands around hfit hland howns'
      hsuits.opened (hsuits.opened ▸ hstays.nothing_closes) hsuits.rulesHere
    refine ⟨labels passage.spans, ?_, opened, hreach, hsettled.imp_right fun h => ?_⟩
    · show labels (_ ++ passage.spans) = _
      rw [labels_append, labels_piece]
    · refine ⟨fun hnone => (by cases hparked.symm.trans hnone), ?_⟩
      intro other hother
      obtain rfl := Option.some.inj (hparked.symm.trans hother)
      exact (h.parked _ hparked).further hopen hid
  | @char here pending started rest hstays htries hlt _ _ ih =>
    have hstep : Pushdown.step? grammar text ⟨here, level, around⟩ =
        some ([region.contentToken], ⟨here + 1, level, around⟩) :=
      hsuits.fillerHere ▸ Pushdown.step?_filler hlt (hsuits.opened ▸ hstays.nothing_closes)
        (hsuits.rulesHere ▸ htries.nothing_moves id)
    obtain ⟨tokens, hlabels, final, hreach, hsettled⟩ := ih (by split <;> omega) hlt
    refine ⟨region.contentToken :: tokens, ?_, final, .step hstep hreach, ?_⟩
    · show labels (_ ++ rest.spans) = _
      rw [labels_append, hlabels]
      cases started
      · show [] ++ (List.replicate (here + 1 - pending) _ ++ tokens) = _
        rw [List.nil_append, Nat.succ_sub hpending, List.replicate_succ', List.append_assoc]
        rfl
      · simp only [if_true]
        rw [labels_piece, Nat.add_sub_cancel_left]
        rfl
    · exact hsettled.imp_right fun h => ⟨h.none_parked, h.parked⟩
  | @stopped here pending started hstays htries hend =>
    obtain rfl : here = level.stop := by
      rcases hend with hle | hlost
      · omega
      · exact hlost.elim
    exact ⟨[], by rw [labels_piece, List.append_nil], Pushdown.Lands.at_stop rfl rfl⟩

/-- The end of a block is where it was found beforehand. -/
theorem Seeks.blockEnd_eq {pattern : Pattern} {start : Nat} (hhere : here ≤ stop)
    (h : Seeks text Sight.whole pattern stop here start length) :
    pattern.blockEnd text stop (stop - here) here = (start, length) := by
  induction h with
  | @found here length hfinds =>
    rcases stop - here with _ | left
    · rw [Pattern.blockEnd, ← Sight.finds_whole.mp hfinds]
      rfl
    · rw [Pattern.blockEnd, ← Sight.finds_whole.mp hfinds]
  | @further here start length hfinds hlt _ _ ih =>
    rw [show stop - here = stop - (here + 1) + 1 by omega, Pattern.blockEnd,
      ← Sight.finds_whole.mp hfinds]
    exact ih hlt
  | @ended here hfinds hend =>
    obtain rfl : here = stop := Nat.le_antisymm hhere (hend.resolve_right id)
    rw [Nat.sub_self, Pattern.blockEnd, ← Sight.finds_whole.mp hfinds]
    rfl

theorem EntersOnce.lands (hplain : grammar.Plain) (hfit : EntersFit enters)
    (htile : EntersTile enters) (hland : EntersLand grammar text enters) :
    EntersLand grammar text (EntersOnce grammar text Sight.whole enters) := by
  intro region openRegions stop here passage level around length hregion howns h hclaim hstop
    hopened
  subst hstop
  cases h with
  | region hopen hclaims hinterior =>
    cases hclaim.symm.trans (Sight.claims_whole.mp hclaims).symm
    have hle := hclaims.length.2.1
    obtain ⟨tokens, hlabels, opened, hreach, hsettled⟩ :=
      hinterior.lands { level with opened := region :: level.opened } around hplain hfit htile hland
        hregion howns hle (Nat.le_refl _) rfl
        ⟨by rw [endable_open hopen, hopened],
          fun hsealed => absurd (hopen.symm.trans hsealed) (by decide),
          fun hsealed => absurd (hopen.symm.trans hsealed) (by decide)⟩
    refine ⟨tokens, ?_, opened, ?_, hsettled.imp_right fun h => ⟨h.none_parked, h.parked⟩⟩
    · show labels ([_] ++ _) = _
      rw [labels_append, hlabels, Nat.sub_self]
      simp only [labels, List.flatMap_singleton, List.replicate_zero, List.nil_append]
    · rw [Pushdown.entered, hopen]
      exact hreach
  | @block _ start endLength passage hsealed hclaims hseeks hinterior =>
    cases hclaim.symm.trans (Sight.claims_whole.mp hclaims).symm
    obtain ⟨hforward, hend⟩ := hseeks.fits hclaims.length.2.1
    have hstop := hinterior.stop_eq_of_embedded hfit hforward hsealed
    obtain ⟨tokens, hlabels, opened, hreach, _⟩ :=
      hinterior.lands ⟨region.rules, region.contentToken, start, []⟩
        ((⟨region.endToken, endLength⟩, level) :: around) hplain hfit htile hland hregion
        howns hforward (Nat.le_refl _) rfl
        ⟨(endable_sealed hsealed).symm, fun _ => rfl, fun _ => rfl⟩
    have hleave := hreach.trans (.single (Pushdown.step?_leave hstop))
    refine ⟨tokens ++ .replicate endLength region.endToken, ?_, level.opened, ?_,
      Or.inr ⟨fun _ => hopened, fun _ hparked => by cases hparked⟩⟩
    · show labels ([_] ++ passage.spans ++ piece _) = _
      rw [labels_append, labels_append, labels_piece, hlabels, Nat.sub_self]
      simp only [labels, List.flatMap_singleton, List.replicate_zero, List.nil_append,
        List.append_assoc]
    · rw [Pushdown.entered, if_pos hsealed]
      dsimp only
      rw [hseeks.blockEnd_eq hclaims.length.2.1]
      exact hstop ▸ hleave

theorem EntersWithin.lands (hplain : grammar.Plain) (depth : Nat) :
    EntersLand grammar text (EntersWithin grammar text Sight.whole depth) := by
  induction depth with
  | zero => exact fun _ _ _ _ _ _ _ _ _ _ h => h.elim
  | succ depth ih =>
    exact EntersOnce.lands hplain (EntersWithin.fits depth) (EntersWithin.tiles depth) ih

theorem Enters.lands (hplain : grammar.Plain) :
    EntersLand grammar text (Enters grammar text Sight.whole) :=
  fun _ _ _ _ _ level around length hregion howns ⟨depth, h⟩ =>
    EntersWithin.lands hplain depth level around length hregion howns h

/-! ## Whole ranges -/

/-- The range of a scan, with no region open in it. -/
def Grammar.outermost (grammar : Grammar) (stop : Nat) : Level :=
  ⟨grammar.rules, grammar.defaultToken, stop, []⟩

theorem Strides.reaches (hplain : grammar.Plain) {spans : List Span} {last : Nat}
    (hhere : here ≤ stop) (h : Strides grammar text Sight.whole [] stop here spans last) :
    ∃ opened, Pushdown.Reaches grammar text ⟨here, grammar.outermost stop, []⟩ (labels spans)
      ⟨last, { grammar.outermost stop with opened }, []⟩ := by
  induction h with
  | stay => exact ⟨[], .refl⟩
  | @claim here started passage spans last htries hstrides ih =>
    obtain ⟨_, hfits⟩ := htries.fits Enters.fits
    have hlands : Pushdown.Lands grammar text ⟨here, grammar.outermost stop, []⟩
        (grammar.outermost stop) [] [] (labels passage.spans) passage :=
      htries.lands [] Enters.fits (Enters.lands hplain) (fun _ hmem => by cases hmem) rfl rfl rfl
    obtain ⟨opened, hreach, hend | hsettled⟩ := hlands
    · -- Regions may be left open here, but at the end of the range that is all there is.
      have hend : passage.stop = stop := hend
      rw [hend] at hstrides
      obtain ⟨hforward, hmost, hnone⟩ := hstrides.fits (Nat.le_refl _)
      have hlast : stop = last := Nat.le_antisymm hforward hmost
      rw [hnone hlast, List.append_nil, ← hlast, ← hend]
      exact ⟨opened, hend ▸ hreach⟩
    · have hparked : passage.parked = none := by
        rcases hparked : passage.parked with _ | waiting
        · rfl
        · cases (hfits.parked waiting hparked).mem
      obtain rfl : opened = [] := hsettled.none_parked hparked
      obtain ⟨final, hmore⟩ := ih hfits.stop_le
      rw [labels_append]
      exact ⟨final, hreach.trans hmore⟩
  | char htries hlt _ _ ih =>
    obtain ⟨final, hmore⟩ := ih hlt
    exact ⟨final, .step (Pushdown.step?_filler hlt rfl (htries.nothing_moves id)) hmore⟩

/-- A scan of a range that has no region open yet labels it as the machine does. -/
theorem tokenize_runs (hplain : grammar.Plain) (hbegins : grammar.BeginsDefined)
    (heof : ¬ grammar.Gives .eof) {scanner : Scanner Region} (hs : scanner.Sees text Sight.whole)
    (hqueue : scanner.queue = []) (hparked : scanner.parked = none)
    (hopen : scanner.openRegions = []) :
    grammar.tokenize.Leads scanner fun spans _ =>
      Tiles scanner.mark scanner.rangeEnd spans ∧
        Pushdown.Runs grammar text ⟨scanner.mark, grammar.outermost scanner.rangeEnd, []⟩
          (labels spans) := by
  have howns : grammar.Owns scanner.openRegions := by
    rw [hopen]
    exact fun _ hmem => by cases hmem
  apply (tokenize_leads hplain hbegins heof hs hqueue hparked howns).mono
  intro spans after h
  obtain ⟨handed, rfl, hstrides, hstacked, _⟩ := h
  have htiles := hstacked.tiles
  rw [List.reverse_reverse] at htiles
  rw [hopen] at hstrides
  obtain ⟨opened, hreach⟩ := hstrides.reaches hplain hs.mark_le
  have hlabels : labels (handed.foldl joined []).reverse = labels handed := labels_foldl_joined
  refine ⟨htiles, _, hlabels ▸ hreach, ?_⟩
  simp only [Pushdown.step?, Grammar.outermost, Nat.lt_irrefl, if_false]

/-- In every state that a session over text documents reaches, with nothing queued, parked or
open, the spans of the range give every character the label that the machine gives it. The
machine stops, and labels the range in no other way. -/
theorem a_scan_labels_as_the_machine_does {settings : Settings} {scanner : Scanner Region}
    {doc : VersionedText} (hreached : Reached IsText settings scanner)
    (hdoc : scanner.document = doc.toDocument) (hsmall : doc.text.length < maxOffset)
    (hplain : grammar.Plain) (hbegins : grammar.BeginsDefined) (heof : ¬ grammar.Gives .eof)
    (hmark : scanner.mark ≤ scanner.rangeEnd) (hend : scanner.rangeEnd ≤ doc.text.length)
    (hqueue : scanner.queue = []) (hparked : scanner.parked = none)
    (hopen : scanner.openRegions = []) :
    ∃ spans after, grammar.tokenize scanner = .ok spans after ∧
      Tiles scanner.mark scanner.rangeEnd spans ∧
      ∀ tokens, Pushdown.Runs grammar doc.text
        ⟨scanner.mark, grammar.outermost scanner.rangeEnd, []⟩ tokens ↔ tokens = labels spans := by
  have hs : scanner.Sees doc.text Sight.whole :=
    ⟨hreached.onText.current, hdoc ▸ doc.toDocument_shows _ hsmall, hmark, hend⟩
  obtain ⟨spans, after, htokenize, htiles, hruns⟩ :=
    tokenize_runs hplain hbegins heof hs hqueue hparked hopen
  refine ⟨spans, after, htokenize, htiles, fun tokens => ⟨fun h => h.unique hruns, fun h => ?_⟩⟩
  rw [h]
  exact hruns

/-- One bracket closes two regions: the square one is never closed itself. -/
theorem a_scan_closes_two_brackets_at_once :
    ∃ (scanner after : Scanner Region) (spans : List Span), Reached IsText ⟨3, by decide⟩ scanner ∧
      Grammar.brackets.tokenize scanner = .ok spans after ∧
      labels spans = [.other "open", .other "open", .other "inside", .other "close",
        .other "outside"] := by
  let doc : VersionedText := .ofText ['(', '[', 'a', ')', 'x']
  let fresh : Scanner Region := Scanner.fresh doc.toDocument ⟨3, by decide⟩
  have h0 : Reached IsText ⟨3, by decide⟩ fresh := .fresh _ ⟨doc, rfl⟩
  have h1 : Reached IsText ⟨3, by decide⟩
      { fresh with
        window := ⟨#['(', '[', 'a'], 0, 3, by decide⟩, rangeEnd := 5, tally := ⟨1, 0⟩ } :=
    h0.call (.assign doc.toDocument 0 5) fun _ hdoc => ⟨doc, by cases hdoc; rfl⟩
  obtain ⟨spans, after, htokenize, _, hruns⟩ :=
    a_scan_labels_as_the_machine_does h1 (show _ = doc.toDocument from rfl) (by decide)
      Grammar.brackets_plain Grammar.brackets_begin Grammar.brackets_lack_eof (by decide)
      (by decide) rfl rfl rfl
  have hreach : Pushdown.Reaches Grammar.brackets doc.text ⟨0, Grammar.brackets.outermost 5, []⟩
      ([.other "open"] ++ ([.other "open"] ++ ([.other "inside"] ++ ([.other "close"] ++
        ([.other "outside"] ++ []))))) ⟨5, Grammar.brackets.outermost 5, []⟩ :=
    .step rfl (.step rfl (.step rfl (.step rfl (.step rfl .refl))))
  exact ⟨_, after, spans, h1, htokenize, ((hruns _).mp ⟨_, hreach, rfl⟩).symm⟩

end RegionScan
