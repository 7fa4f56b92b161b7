-- Walks: what the rules of a grammar make of a text, with nothing of a scanner in
-- it but its open regions. A walk may miss lines and characters that a document
-- refuses to show. Rules inside regions are handed in as a relation, so that
-- depths of nesting come last.
import RegionScan.Rules
import RegionScan.Proofs.TextMatches

namespace RegionScan

/-! ## What patterns find -/

/-- What a document shows of a text. It hides the line of an offset from every search or from
none. The character at an offset it may withhold from a read and may grant to one, if that
depends on where the window is. -/
structure Sight where
  hides : Nat → Prop
  withholds : Nat → Prop
  grants : Nat → Prop

/-- Nothing is refused. -/
def Sight.whole : Sight := ⟨fun _ => False, fun _ => False, fun _ => True⟩

namespace Pattern

/-- The match of the pattern at an offset, if it ends in a range. -/
def hit? (pattern : Pattern) (text : Text) (here stop : Nat) : Option Nat :=
  (pattern.lengthIn? text here).filter fun length => decide (here + length ≤ stop)

/-- As `hit?`, for matches that claim some text. -/
def claim? (pattern : Pattern) (text : Text) (here stop : Nat) : Option Nat :=
  (pattern.hit? text here stop).filter fun length => decide (0 < length)

variable {pattern : Pattern} {text : Text} {here stop length : Nat}

theorem hit?_eq_some :
    pattern.hit? text here stop = some length ↔
      pattern.lengthIn? text here = some length ∧ here + length ≤ stop := by
  simp [hit?, Option.filter_eq_some_iff]

theorem claim?_eq_some :
    pattern.claim? text here stop = some length ↔
      pattern.lengthIn? text here = some length ∧ here + length ≤ stop ∧ 0 < length := by
  simp [claim?, Option.filter_eq_some_iff, hit?_eq_some, and_assoc]

end Pattern

/-- A search for the pattern finds its match, and nothing if the line is not shown. -/
def Sight.Finds (sight : Sight) (text : Text) (pattern : Pattern) (here stop : Nat)
    (found : Option Nat) : Prop :=
  ¬ sight.hides here ∧ found = pattern.hit? text here stop ∨ sight.hides here ∧ found = none

/-- As `Finds`, for matches that claim some text. -/
def Sight.Claims (sight : Sight) (text : Text) (pattern : Pattern) (here stop : Nat)
    (found : Option Nat) : Prop :=
  ¬ sight.hides here ∧ found = pattern.claim? text here stop ∨ sight.hides here ∧ found = none

namespace Sight

variable {sight : Sight} {text : Text} {pattern : Pattern} {here stop : Nat} {found : Option Nat}

theorem Finds.length {length : Nat} (h : sight.Finds text pattern here stop (some length)) :
    pattern.lengthIn? text here = some length ∧ here + length ≤ stop := by
  rcases h with ⟨_, h⟩ | ⟨_, h⟩
  · exact Pattern.hit?_eq_some.mp h.symm
  · cases h

theorem Claims.length {length : Nat} (h : sight.Claims text pattern here stop (some length)) :
    pattern.lengthIn? text here = some length ∧ here + length ≤ stop ∧ 0 < length := by
  rcases h with ⟨_, h⟩ | ⟨_, h⟩
  · exact Pattern.claim?_eq_some.mp h.symm
  · cases h

theorem finds_shown (hshown : ¬ sight.hides here) :
    sight.Finds text pattern here stop found ↔ found = pattern.hit? text here stop := by
  simp [Finds, hshown]

theorem claims_shown (hshown : ¬ sight.hides here) :
    sight.Claims text pattern here stop found ↔ found = pattern.claim? text here stop := by
  simp [Claims, hshown]

theorem finds_whole : whole.Finds text pattern here stop found ↔
    found = pattern.hit? text here stop := finds_shown id

theorem claims_whole : whole.Claims text pattern here stop found ↔
    found = pattern.claim? text here stop := claims_shown id

end Sight

/-! ## Passages -/

/-- What a walk over a stretch of text leaves behind: the spans it queues, where it ends, and
the end match it parks. -/
structure Passage where
  spans : List Span
  stop : Nat
  parked : Option (ParkedEnd Region)

/-- A passage with spans queued before it. -/
def Passage.behind (spans : List Span) (passage : Passage) : Passage :=
  { passage with spans := spans ++ passage.spans }

/-- A span that is queued unless it is empty. -/
def piece (span : Span) : List Span := if 0 < span.length then [span] else []

/-! ## Rules -/

/-- A rule that belongs to the grammar alone: it starts with a match of this pattern. -/
def Grammar.opening? (grammar : Grammar) : Rule → Option Pattern
  | .pattern pattern _ => some pattern
  | .region id => grammar.regions[id]?.map Region.beginPattern
  | .custom _ => none

/-- Whether a rule may start, and with how many characters. -/
def Grammar.Starts (grammar : Grammar) (text : Text) (sight : Sight) (here stop : Nat)
    (rule : Rule) (found : Option Nat) : Prop :=
  match grammar.opening? rule with
  | none => found = none
  | some pattern => sight.Claims text pattern here stop found

/-- A region starts with a match of its begin pattern. -/
theorem Grammar.starts_region {grammar : Grammar} {text : Text} {sight : Sight}
    {here stop id : Nat} {region : Region} {found : Option Nat}
    (h : grammar.regions[id]? = some region) :
    grammar.Starts text sight here stop (.region id) found ↔
      sight.Claims text region.beginPattern here stop found := by
  simp only [Starts, opening?, h, Option.map_some]

section

variable (grammar : Grammar) (text : Text) (sight : Sight)
  (enters : Region → List Region → Nat → Nat → Passage → Prop)

/-- Rules tried in order at an offset: whether any of them started, and the passage of the one
that claimed text. The relation `enters` gives the passages of regions. A rule that starts but
gives the undefined token claims nothing. -/
inductive Tries (openRegions : List Region) (stop here : Nat) :
    List Rule → Bool → Option Passage → Prop
  | done : Tries openRegions stop here [] false none
  | skip {rule rest started found} : grammar.Starts text sight here stop rule none →
    Tries openRegions stop here rest started found →
      Tries openRegions stop here (rule :: rest) started found
  | reject {rule rest started found length} :
    grammar.Starts text sight here stop rule (some length) →
    ((∃ pattern, rule = .pattern pattern .undefined) ∨
      grammar.Starts text sight here stop rule none) →
    Tries openRegions stop here rest started found →
      Tries openRegions stop here (rule :: rest) true found
  | word {pattern token rest length} :
    sight.Claims text pattern here stop (some length) → token ≠ .undefined →
      Tries openRegions stop here (.pattern pattern token :: rest) true
        (some ⟨[⟨token, here, length⟩], here + length, none⟩)
  | enter {id region rest passage length} : grammar.regions[id]? = some region →
    sight.Claims text region.beginPattern here stop (some length) →
    enters region openRegions stop here passage →
      Tries openRegions stop here (.region id :: rest) true (some passage)

/-! ## Regions -/

/-- The end of the innermost of some regions that ends here. No end is seen past an embedded
block. -/
inductive OuterEnd (stop here : Nat) : List Region → Option (Region × Nat) → Prop
  | none : OuterEnd stop here [] none
  | sealed {region outer} : region.embedded = true → OuterEnd stop here (region :: outer) none
  | found {region outer length} : region.embedded = false →
    sight.Finds text region.endPattern here stop (some length) →
      OuterEnd stop here (region :: outer) (some (region, length))
  | further {region outer found} : region.embedded = false →
    sight.Finds text region.endPattern here stop none → OuterEnd stop here outer found →
      OuterEnd stop here (region :: outer) found

/-- No region ends here. The end of an embedded block is known beforehand, so none is sought. -/
def StaysOpen (region : Region) (outer : List Region) (stop here : Nat) : Prop :=
  region.embedded = true ∨
    region.embedded = false ∧ sight.Finds text region.endPattern here stop none ∧
      OuterEnd text sight stop here outer none

/-- The inside of a region or of an embedded block, from an offset up to the end of the region,
of one around it, or of the range. Content is pending from the second offset on; it is reported
before anything else, and also before a rule that starts and then claims nothing. -/
inductive Interior (region : Region) (outer : List Region) (stop : Nat) :
    Nat → Nat → Passage → Prop
  | ownEnd {here pending length} : region.embedded = false →
    sight.Finds text region.endPattern here stop (some length) →
      Interior region outer stop here pending
        ⟨piece ⟨region.contentToken, pending, here - pending⟩ ++
          piece ⟨region.endToken, here, length⟩, here + length, none⟩
  | outerEnd {here pending found length} : region.embedded = false →
    sight.Finds text region.endPattern here stop none →
    OuterEnd text sight stop here outer (some (found, length)) →
      Interior region outer stop here pending
        ⟨piece ⟨region.contentToken, pending, here - pending⟩, here,
          some ⟨here, here + length, found, ⟨found.endToken, here, length⟩⟩⟩
  | onward {here pending started passage rest} : StaysOpen text sight region outer stop here →
    Tries grammar text sight enters (region :: outer) stop here region.rules started
      (some passage) →
    passage.parked = none → Interior region outer stop passage.stop passage.stop rest →
      Interior region outer stop here pending
        (rest.behind (piece ⟨region.contentToken, pending, here - pending⟩ ++ passage.spans))
  | taken {here pending started passage waiting} : region.embedded = false →
    StaysOpen text sight region outer stop here →
    Tries grammar text sight enters (region :: outer) stop here region.rules started
      (some passage) →
    passage.parked = some waiting → waiting.region.id = region.id →
      Interior region outer stop here pending
        ⟨piece ⟨region.contentToken, pending, here - pending⟩ ++ passage.spans ++
          piece waiting.delimiter, waiting.stop, none⟩
  | passed {here pending started passage waiting} : region.embedded = false →
    StaysOpen text sight region outer stop here →
    Tries grammar text sight enters (region :: outer) stop here region.rules started
      (some passage) →
    passage.parked = some waiting → waiting.region.id ≠ region.id →
      Interior region outer stop here pending
        (passage.behind (piece ⟨region.contentToken, pending, here - pending⟩))
  | char {here pending started rest} : StaysOpen text sight region outer stop here →
    Tries grammar text sight enters (region :: outer) stop here region.rules started none →
    here < stop → sight.grants here →
    Interior region outer stop (here + 1) (if started then here else pending) rest →
      Interior region outer stop here pending
        (rest.behind
          (if started then piece ⟨region.contentToken, pending, here - pending⟩ else []))
  | stopped {here pending started} : StaysOpen text sight region outer stop here →
    Tries grammar text sight enters (region :: outer) stop here region.rules started none →
    stop ≤ here ∨ sight.withholds here →
      Interior region outer stop here pending
        ⟨piece ⟨region.contentToken, pending, here - pending⟩, here, none⟩

/-- Where the end of a block starts, and how long it is: the first match at an offset or behind
it, or the end of the range. -/
inductive Seeks (pattern : Pattern) (stop : Nat) : Nat → Nat → Nat → Prop
  | found {here length} : sight.Finds text pattern here stop (some length) →
      Seeks pattern stop here here length
  | further {here start length} : sight.Finds text pattern here stop none → here < stop →
    sight.grants here → Seeks pattern stop (here + 1) start length →
      Seeks pattern stop here start length
  | ended {here} : sight.Finds text pattern here stop none → stop ≤ here ∨ sight.withholds here →
      Seeks pattern stop here here 0

/-- A region or an embedded block that starts at an offset. A block is walked in a range of its
own, up to its end. -/
inductive EntersOnce (region : Region) (openRegions : List Region) (stop here : Nat) :
    Passage → Prop
  | region {length passage} : region.embedded = false →
    sight.Claims text region.beginPattern here stop (some length) →
    Interior grammar text sight enters region openRegions stop (here + length) (here + length)
      passage →
      EntersOnce region openRegions stop here
        (passage.behind [⟨region.beginToken, here, length⟩])
  | block {length start endLength passage} : region.embedded = true →
    sight.Claims text region.beginPattern here stop (some length) →
    Seeks text sight region.endPattern stop (here + length) start endLength →
    Interior grammar text sight enters region openRegions start (here + length) (here + length)
      passage →
      EntersOnce region openRegions stop here
        ⟨⟨region.beginToken, here, length⟩ :: passage.spans ++
          piece ⟨region.endToken, start, endLength⟩, start + endLength, none⟩

end

/-! ## Nesting -/

/-- As `EntersOnce`, with regions nested up to a depth. -/
def EntersWithin (grammar : Grammar) (text : Text) (sight : Sight) :
    Nat → Region → List Region → Nat → Nat → Passage → Prop
  | 0 => fun _ _ _ _ _ => False
  | depth + 1 => EntersOnce grammar text sight (EntersWithin grammar text sight depth)

/-- As `EntersOnce`, with regions nested as deep as they go. -/
def Enters (grammar : Grammar) (text : Text) (sight : Sight) (region : Region)
    (openRegions : List Region) (stop here : Nat) (passage : Passage) : Prop :=
  ∃ depth, EntersWithin grammar text sight depth region openRegions stop here passage

/-! ## Whole ranges -/

/-- From one offset of a range to another outside the regions of the grammar: rules are tried,
and where none claims text one character is passed as the default token. An end that was parked
behind a rule is dropped. -/
inductive Strides (grammar : Grammar) (text : Text) (sight : Sight) (openRegions : List Region)
    (stop : Nat) : Nat → List Span → Nat → Prop
  | stay {here} : Strides grammar text sight openRegions stop here [] here
  | claim {here started passage spans last} :
    Tries grammar text sight (Enters grammar text sight) openRegions stop here grammar.rules
      started (some passage) →
    Strides grammar text sight openRegions stop passage.stop spans last →
      Strides grammar text sight openRegions stop here (passage.spans ++ spans) last
  | char {here started spans last} :
    Tries grammar text sight (Enters grammar text sight) openRegions stop here grammar.rules
      started none →
    here < stop → sight.grants here →
    Strides grammar text sight openRegions stop (here + 1) spans last →
      Strides grammar text sight openRegions stop here
        (⟨grammar.defaultToken, here, 1⟩ :: spans) last

theorem Strides.trans {grammar : Grammar} {text : Text} {sight : Sight}
    {openRegions : List Region} {stop here middle last : Nat} {spans more : List Span}
    (h : Strides grammar text sight openRegions stop here spans middle)
    (hmore : Strides grammar text sight openRegions stop middle more last) :
    Strides grammar text sight openRegions stop here (spans ++ more) last := by
  induction h with
  | stay => exact hmore
  | claim htries _ ih =>
    rw [List.append_assoc]
    exact .claim htries (ih hmore)
  | char htries hlt hgrants _ ih => exact .char htries hlt hgrants (ih hmore)

end RegionScan
