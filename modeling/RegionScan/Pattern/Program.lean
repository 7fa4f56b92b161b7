-- Expressions as programs, and running one at a position of a text. All ways to
-- match are followed at once, one character at a time, in the order of
-- preference; the most preferred way that succeeds decides how long the match is.
import RegionScan.Pattern.Regex

namespace RegionScan.Pattern

/-! ## Programs -/

inductive Step where
  | accept
  /-- Takes one character of a set. -/
  | take (set : CharSet) (next : Nat)
  | check (look : Look) (next : Nat)
  /-- Goes on at two places; the first is preferred. -/
  | fork (first second : Nat)

/-- Steps by their addresses. Address 0 accepts. -/
abbrev Code := Array Step

/-- Adds a step and gives its address. -/
def Code.add (code : Code) (step : Step) : Nat × Code := (code.size, code.push step)

def Code.addFork (code : Code) (greedy : Bool) (enter leave : Nat) : Nat × Code :=
  Code.add code (if greedy then .fork enter leave else .fork leave enter)

/-! ## Building

A program is built from its end: each part is told the address at which the match goes on
behind it, and gives the address at which it starts itself. -/

/-- Builds one part before an address. -/
abbrev Builder := Nat → Code → Nat × Code

/-- `count` copies one after the other. -/
def Builder.times (item : Builder) : Nat → Builder
  | 0, next, code => (next, code)
  | count + 1, next, code =>
    let (entry, code) := item next code
    Builder.times item count entry code

/-- Up to `count` copies; whoever stops early goes on at `next`. -/
def Builder.upTo (item : Builder) (greedy : Bool) : Nat → Builder
  | 0, next, code => (next, code)
  | count + 1, next, code =>
    let (rest, code) := Builder.upTo item greedy count next code
    let (entry, code) := item rest code
    Code.addFork code greedy entry next

/-- One copy or more. The loop's address is taken before its contents are built. -/
def Builder.oneOrMore (item : Builder) (greedy : Bool) : Builder := fun next code =>
  let (loop, code) := Code.add code (.fork next next)
  let (entry, code) := item loop code
  (entry, code.setIfInBounds loop (if greedy then .fork entry next else .fork next entry))

/-- Any number of copies: nothing, or one copy or more. Written so, a copy that takes nothing
cannot come before the ways that take something. -/
def Builder.anyNumber (item : Builder) (greedy : Bool) : Builder := fun next code =>
  let (entry, code) := Builder.oneOrMore item greedy next code
  Code.addFork code greedy entry next

def Regex.build : Regex → Builder
  | .empty => fun next code => (next, code)
  | .one set => fun next code => Code.add code (.take set next)
  | .look demand => fun next code => Code.add code (.check demand next)
  | .seq first second => fun next code =>
    let (middle, code) := second.build next code
    first.build middle code
  | .alt first second => fun next code =>
    let (entry₁, code) := first.build next code
    let (entry₂, code) := second.build next code
    Code.add code (.fork entry₁ entry₂)
  | .repeat 0 none greedy item => Builder.anyNumber item.build greedy
  | .repeat (least + 1) none greedy item => fun next code =>
    let (entry, code) := Builder.oneOrMore item.build greedy next code
    Builder.times item.build least entry code
  | .repeat least (some most) greedy item => fun next code =>
    let (entry, code) := Builder.upTo item.build greedy (most - least) next code
    Builder.times item.build least entry code

/-! ## Size -/

/-- How many steps over bytes a set takes: characters outside the first 128 are several bytes
long. -/
def CharSet.weight (set : CharSet) : Nat :=
  1 + (set.ranges.filter fun range => decide (0x80 ≤ range.2)).length

/-- About how large the program of an expression is. -/
def Regex.weight : Regex → Nat
  | .empty => 1
  | .one set => set.weight
  | .look _ => 1
  | .seq first second => first.weight + second.weight
  | .alt first second => first.weight + second.weight + 1
  | .repeat least none _ item => (least + 1) * (item.weight + 1)
  | .repeat _ (some most) _ item => most * (item.weight + 1) + 1

/-- The largest program a pattern may have. -/
def weightLimit : Nat := 327680

structure Program where
  code : Code
  entry : Nat

/-- The program of an expression, unless it is too large. -/
def Program.ofRegex? (regex : Regex) : Option Program :=
  if regex.weight ≤ weightLimit then
    let (entry, code) := regex.build 0 #[.accept]
    some ⟨code, entry⟩
  else none

/-! ## Running -/

/-- What a text offers at a position: each way that wants a character, in the order of
preference, and whether a match ends here after all of them. -/
structure Frontier where
  takers : List (CharSet × Nat)
  accepted : Bool

namespace Program

/-- Follows steps that take nothing from the addresses in `work`, the first address before the
others, and each address only once. What comes after an accepting step is less preferred than
the match, so it is dropped. -/
def follow (code : Code) (before after : Option Char) :
    Nat → List Nat → Array Bool → List (CharSet × Nat) → Frontier
  | 0, _, _, takers => ⟨takers.reverse, false⟩
  | _ + 1, [], _, takers => ⟨takers.reverse, false⟩
  | steps + 1, address :: work, seen, takers =>
    if seen.getD address true then follow code before after steps work seen takers
    else
      let seen := seen.setIfInBounds address true
      match code[address]? with
      | none => follow code before after steps work seen takers
      | some .accept => ⟨takers.reverse, true⟩
      | some (.take set next) => follow code before after steps work seen ((set, next) :: takers)
      | some (.check look next) =>
        if look.holds before after then follow code before after steps (next :: work) seen takers
        else follow code before after steps work seen takers
      | some (.fork first second) =>
        follow code before after steps (first :: second :: work) seen takers

/-- All that can happen at a position reached at the addresses in `work`. Each address pays
for the two it may add. -/
def frontier (code : Code) (before after : Option Char) (work : List Nat) : Frontier :=
  follow code before after (work.length + 2 * code.size + 1) work
    (Array.replicate code.size false) []

/-- All that can happen at a position of a line. -/
def frontierAt (code : Code) (chars : Array Char) (here : Nat) (work : List Nat) : Frontier :=
  frontier code (if here = 0 then none else chars[here - 1]?) chars[here]? work

/-- The length of the match among the ways in `work`, `taken` characters behind the start.
`left` characters may still be taken, and `best` is the length of the most preferred match so
far. -/
def run (code : Code) (chars : Array Char) (start : Nat) :
    Nat → Nat → List Nat → Option Nat → Option Nat
  | 0, taken, work, best =>
    if (frontierAt code chars (start + taken) work).accepted then some taken else best
  | left + 1, taken, work, best =>
    let frontier := frontierAt code chars (start + taken) work
    let best := if frontier.accepted then some taken else best
    match chars[start + taken]? with
    | none => best
    | some c =>
      let work := frontier.takers.filterMap fun (set, next) =>
        if set.contains c then some next else none
      if work.isEmpty then best else run code chars start left (taken + 1) work best

/-- The number of characters matched from `start` on, in a line given as a whole so that looks
see the text before the start. -/
def matchLength? (program : Program) (chars : Array Char) (start : Nat) : Option Nat :=
  run program.code chars start (chars.size - start) 0 [program.entry] none

/-- A program takes no more characters than it may, whatever way it goes. -/
theorem run_le {code : Code} {chars : Array Char} {start left taken : Nat}
    {work : List Nat} {best : Option Nat} {n : Nat}
    (h : run code chars start left taken work best = some n)
    (hbest : ∀ b, best = some b → b ≤ taken) : n ≤ taken + left := by
  induction left generalizing taken work best with
  | zero =>
    unfold run at h
    split at h
    · simp only [Option.some.injEq] at h
      omega
    · have := hbest n h
      omega
  | succ left ih =>
    have hnow : ∀ b, (if (frontierAt code chars (start + taken) work).accepted then some taken
        else best) = some b → b ≤ taken := by
      intro b hb
      split at hb
      · simp only [Option.some.injEq] at hb
        omega
      · exact hbest b hb
    unfold run at h
    dsimp only at h
    split at h
    · have := hnow n h
      omega
    · split at h
      · have := hnow n h
        omega
      · have := ih h (fun b hb => Nat.le_succ_of_le (hnow b hb))
        omega

/-- A match ends on its line. -/
theorem matchLength?_le {program : Program} {chars : Array Char} {start n : Nat}
    (h : program.matchLength? chars start = some n) : n ≤ chars.size - start := by
  have := run_le h (by simp)
  omega

end Program

end RegionScan.Pattern
