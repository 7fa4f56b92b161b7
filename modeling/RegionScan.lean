import RegionScan.Session
import RegionScan.Grammar.Outline
import RegionScan.Proofs.WindowLaws
import RegionScan.Proofs.HoleLaws
import RegionScan.Proofs.Switches
import RegionScan.Proofs.Bounds
import RegionScan.Proofs.LineLocality
import RegionScan.Proofs.RuleBounds
import RegionScan.Proofs.TokenBounds
import RegionScan.Proofs.Faults
import RegionScan.Proofs.Endings
import RegionScan.Proofs.Stacks
import RegionScan.Proofs.WindowIndependence
import RegionScan.Proofs.Leftovers
import RegionScan.Proofs.LostCharacters
import RegionScan.Proofs.Reuse
import RegionScan.Proofs.SavedRanges
import RegionScan.Proofs.RangeTokens
import RegionScan.Proofs.Isolation
import RegionScan.Proofs.Rejections
import RegionScan.Proofs.PlainMatches
import RegionScan.Proofs.CachedLines
import RegionScan.Proofs.Partitions
import RegionScan.Proofs.FailingRules
import RegionScan.Proofs.LinePieces
import RegionScan.Proofs.Columns
import RegionScan.Proofs.Excerpts
import RegionScan.Proofs.NestedRanges
import RegionScan.Proofs.Edits
import RegionScan.Proofs.LineTexts
import RegionScan.Proofs.Cursors
