-- Grammars as they are written down: rules inside rules, with names for rules
-- that are used in several places.
import RegionScan.Grammar

namespace RegionScan

/-! ## Outlines -/

/-- A region without its rules. -/
structure RegionHeader where
  name : String
  beginSource : String
  endSource : String
  beginToken : Token
  contentToken : Token
  endToken : Token
  embedded : Bool

inductive RuleOutline where
  | pattern (source : String) (token : Token)
  | region (header : RegionHeader) (rules : List RuleOutline)
  /-- The rule defined under a name. -/
  | forward (name : String)
  | fixed (rule : FixedRule)

structure Outline where
  /-- Rules by their names. -/
  definitions : List (String × RuleOutline)
  rules : List RuleOutline
  defaultToken : Token

/-! ## Building

Regions and custom rules get their places as they are met, a region after those inside it.
Names are looked up when all rules have their places. -/

/-- A rule, or the name of one. -/
inductive RuleLink where
  | rule (rule : Rule)
  | named (name : String)

/-- What has been built so far. -/
structure Draft where
  /-- Regions that still lack their rules, and those rules. -/
  regions : Array (Region × List RuleLink)
  customs : Array CustomRule

abbrev Building := StateT Draft (Except ScanError)

def buildPattern (source : String) : Building Pattern :=
  match Pattern.read? source with
  | some pattern => pure pattern
  | none => throw .invalidPattern

mutual
def RuleOutline.build : RuleOutline → Building RuleLink
  | .pattern source token => do return .rule (.pattern (← buildPattern source) token)
  | .region header rules => do
    let beginPattern ← buildPattern header.beginSource
    let endPattern ← buildPattern header.endSource
    let rules ← RuleOutline.buildAll rules
    let id := (← get).regions.size
    let region : Region :=
      { id, name := header.name, beginPattern, endPattern
        beginToken := header.beginToken
        contentToken := header.contentToken
        endToken := header.endToken
        rules := []
        embedded := header.embedded }
    modify fun draft => { draft with regions := draft.regions.push (region, rules) }
    return .rule (.region id)
  | .forward name => return .named name
  | .fixed rule => do
    let index := (← get).customs.size
    modify fun draft => { draft with customs := draft.customs.push rule.toCustom }
    return .rule (.custom index)

def RuleOutline.buildAll : List RuleOutline → Building (List RuleLink)
  | [] => return []
  | outline :: rest => do
    let link ← outline.build
    return link :: (← RuleOutline.buildAll rest)
end

/-- The rule behind a link. A chain of names that is longer than there are definitions runs in
a circle. -/
def RuleLink.follow (definitions : List (String × RuleLink)) :
    Nat → RuleLink → Except ScanError Rule
  | _, .rule found => .ok found
  | 0, .named name => .error (.unknownRule name)
  | steps + 1, .named name =>
    match definitions.find? fun entry => entry.1 == name with
    | some (_, link) => link.follow definitions steps
    | none => .error (.unknownRule name)

/-- The grammar of an outline. Definitions are built first, in the order of their names. -/
def Outline.compile (outline : Outline) : Except ScanError Grammar := do
  let definitions := outline.definitions.mergeSort fun a b => decide (a.1 ≤ b.1)
  let build : Building (List RuleLink × List RuleLink) := do
    return (← RuleOutline.buildAll (definitions.map Prod.snd), ← RuleOutline.buildAll outline.rules)
  let ((defined, rules), draft) ← build.run ⟨#[], #[]⟩
  let named := (definitions.map Prod.fst).zip defined
  let follow := RuleLink.follow named (named.length + 1)
  let regions ← draft.regions.toList.mapM fun (region, links) => do
    return { region with rules := ← links.mapM follow }
  return ⟨regions, draft.customs.toList, ← rules.mapM follow, outline.defaultToken⟩

end RegionScan
