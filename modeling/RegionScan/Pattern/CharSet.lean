-- Sets of characters as ranges of code points.

namespace RegionScan.Pattern

/-- The largest code point. -/
def maxCode : Nat := 0x10FFFF

/-- A set of characters: ranges of code points, both ends included, in rising order and
without overlap. -/
structure CharSet where
  ranges : List (Nat × Nat)
  deriving DecidableEq, Repr

namespace CharSet

/-- Whether a code point lies in one of the ranges. They rise, so the search ends at the
first range that starts beyond it. -/
def holds (code : Nat) : List (Nat × Nat) → Bool
  | [] => false
  | (first, last) :: rest =>
    if code < first then false else if code ≤ last then true else holds code rest

def hasCode (set : CharSet) (code : Nat) : Bool := holds code set.ranges

def contains (set : CharSet) (c : Char) : Bool := set.hasCode c.toNat

/-! ## Building -/

def empty : CharSet := ⟨[]⟩

def all : CharSet := ⟨[(0, maxCode)]⟩

def single (c : Char) : CharSet := ⟨[(c.toNat, c.toNat)]⟩

/-- Joins ranges that touch or overlap, given in the order of their starts. `growing` is the
range that is still growing. -/
def joinRanges (growing : Nat × Nat) : List (Nat × Nat) → List (Nat × Nat)
  | [] => [growing]
  | (first, last) :: rest =>
    if first ≤ growing.2 + 1 then joinRanges (growing.1, max growing.2 last) rest
    else growing :: joinRanges (first, last) rest

/-- The set of all characters in some ranges, in any order. -/
def ofRanges (ranges : List (Nat × Nat)) : CharSet :=
  match ranges.mergeSort fun a b => decide (a.1 ≤ b.1) with
  | [] => empty
  | first :: rest => ⟨joinRanges first rest⟩

/-! ## Set operations -/

def union (a b : CharSet) : CharSet := ofRanges (a.ranges ++ b.ranges)

/-- The gaps between ranges from the code point `next` on. -/
def gaps (next : Nat) : List (Nat × Nat) → List (Nat × Nat)
  | [] => if next ≤ maxCode then [(next, maxCode)] else []
  | (first, last) :: rest =>
    if next < first then (next, first - 1) :: gaps (last + 1) rest else gaps (last + 1) rest

def complement (set : CharSet) : CharSet := ⟨gaps 0 set.ranges⟩

def inter (a b : CharSet) : CharSet := (a.complement.union b.complement).complement

def diff (a b : CharSet) : CharSet := a.inter b.complement

/-- The characters in exactly one of the two sets. -/
def symmDiff (a b : CharSet) : CharSet := (a.union b).diff (a.inter b)

/-- Whether the set stays among the first 128 characters. -/
def isAscii (set : CharSet) : Bool := set.ranges.all fun range => decide (range.2 < 0x80)

end CharSet

end RegionScan.Pattern
