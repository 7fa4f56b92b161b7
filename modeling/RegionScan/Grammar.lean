-- Grammars: the rules by which text is divided into tokens. Regions stand in a
-- table and rules name them by their place in it, so a region can hold itself.
import RegionScan.Pattern
import RegionScan.Scanner.Basic

namespace RegionScan

/-! ## Rules and regions -/

inductive Rule where
  /-- Claims what its pattern matches. -/
  | pattern (pattern : Pattern) (token : Token)
  /-- Enters a region of the grammar. -/
  | region (id : Nat)
  /-- Hands over to a rule of the host. -/
  | custom (index : Nat)

/-- Text between two delimiters, with rules of its own. -/
structure Region where
  /-- The place in the table of regions, by which a region is told from all others. -/
  id : Nat
  name : String
  beginPattern : Pattern
  endPattern : Pattern
  beginToken : Token
  /-- What the inside is reported as where no rule claims it. -/
  contentToken : Token
  endToken : Token
  rules : List Rule
  /-- An embedded block is scanned as a range of its own: its end is found first, and the ends
  of regions around it close nothing inside it. -/
  embedded : Bool

/-- A scan by rules; what it opens are regions. -/
abbrev RuleScan := Scan Region

/-- A rule of the host. -/
structure CustomRule where
  /-- Whether the rule is worth a try at the mark. -/
  mayStart : RuleScan Bool
  /-- Claims text from the mark by moving it, or gives the undefined token. -/
  attempt : RuleScan Token

/-! ## Grammars -/

structure Grammar where
  regions : List Region
  customs : List CustomRule
  /-- The rules tried outside all regions, in the order of preference. -/
  rules : List Rule
  /-- What a character is reported as when no rule claims it. -/
  defaultToken : Token

/-- The region of that name. Of several, the one that was built last counts. -/
def Grammar.regionNamed? (grammar : Grammar) (name : String) : Option Region :=
  grammar.regions.reverse.find? fun region => region.name == name

/-! ## A rule with fixed steps -/

/-- What a fixed rule does wherever it is tried. -/
structure FixedRule where
  token : Token
  /-- How far it moves the mark. -/
  advance : Int
  starts : Bool
  fails : Bool

/-- A rule that looks at no text. It starts anywhere before the end of the range, and it moves
the mark within the limits of offsets. -/
def FixedRule.toCustom (rule : FixedRule) : CustomRule where
  mayStart := do
    let scanner ← get
    return rule.starts && decide (scanner.mark < scanner.rangeEnd)
  attempt := do
    let mark := (← get).mark
    if rule.fails then Scan.fail (.unreadable mark)
    modify (·.moveTo (min (mark + rule.advance).toNat maxOffset))
    return rule.token

end RegionScan
