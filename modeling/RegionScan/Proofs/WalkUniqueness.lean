-- Walks are unique. Where nothing is refused, a text and an offset determine what the
-- rules make of it, and of the regions that are open only those matter that an end can
-- be found for: the ones inside the innermost embedded block.
import RegionScan.Proofs.WalkShapes

namespace RegionScan

variable {grammar : Grammar} {text : Text}
  {enters : Region → List Region → Nat → Nat → Passage → Prop}
  {region : Region} {openRegions outer other : List Region} {rules : List Rule}
  {passage passage' : Passage} {stop here pending start start' length length' : Nat}
  {started started' : Bool}

/-! ## What is found at an offset -/

theorem Sight.Finds.unique {pattern : Pattern} {found found' : Option Nat}
    (h : whole.Finds text pattern here stop found)
    (h' : whole.Finds text pattern here stop found') : found = found' :=
  (finds_whole.mp h).trans (finds_whole.mp h').symm

theorem Sight.Claims.unique {pattern : Pattern} {found found' : Option Nat}
    (h : whole.Claims text pattern here stop found)
    (h' : whole.Claims text pattern here stop found') : found = found' :=
  (claims_whole.mp h).trans (claims_whole.mp h').symm

theorem Grammar.Starts.unique {rule : Rule} {found found' : Option Nat}
    (h : grammar.Starts text .whole here stop rule found)
    (h' : grammar.Starts text .whole here stop rule found') : found = found' := by
  unfold Grammar.Starts at h h'
  rcases hopening : grammar.opening? rule with _ | pattern
  · simp only [hopening] at h h'
    exact h.trans h'.symm
  · simp only [hopening] at h h'
    exact h.unique h'

/-- A pattern that claims text starts its rule. -/
theorem Grammar.starts_pattern {pattern : Pattern} {token : Token} {found : Option Nat} :
    grammar.Starts text .whole here stop (.pattern pattern token) found ↔
      Sight.whole.Claims text pattern here stop found := Iff.rfl

/-- The end that is found is that of the innermost region in reach. -/
theorem OuterEnd.eq {found : Option (Region × Nat)}
    (h : OuterEnd text .whole stop here outer found) :
    found = (endable outer).findSome? fun opened =>
      (opened.endPattern.hit? text here stop).map (opened, ·) := by
  induction h with
  | none => rfl
  | sealed hsealed => rw [endable_sealed hsealed, List.findSome?_nil]
  | found hopen hfinds =>
    rw [endable_open hopen, List.findSome?_cons, ← Sight.finds_whole.mp hfinds]
    rfl
  | further hopen hfinds _ ih =>
    rw [endable_open hopen, List.findSome?_cons, ← Sight.finds_whole.mp hfinds, ih]
    rfl

theorem OuterEnd.unique {found found' : Option (Region × Nat)}
    (halike : endable outer = endable other) (h : OuterEnd text .whole stop here outer found)
    (h' : OuterEnd text .whole stop here other found') : found = found' := by
  rw [h.eq, h'.eq, halike]

/-- A region that stays open does not end, and none around it does. -/
theorem StaysOpen.not_ended (h : StaysOpen text .whole region outer stop here)
    (hopen : region.embedded = false) :
    Sight.whole.Finds text region.endPattern here stop none ∧
      OuterEnd text .whole stop here outer none := by
  rcases h with hsealed | ⟨-, hown, houter⟩
  · exact absurd (hsealed.symm.trans hopen) (by decide)
  · exact ⟨hown, houter⟩

/-! ## Rules and the inside of regions -/

/-- What a region is to two stacks below it is the same, if the same ends can be found in both, or
if it is an embedded block. -/
def EntersAlike (enters : Region → List Region → Nat → Nat → Passage → Prop) : Prop :=
  ∀ ⦃region openRegions other stop here passage passage'⦄,
    (region.embedded = false → endable openRegions = endable other) →
    enters region openRegions stop here passage → enters region other stop here passage' →
      passage = passage'

theorem Tries.unique {found found' : Option Passage} (halike : EntersAlike enters)
    (hends : endable openRegions = endable other)
    (h : Tries grammar text .whole enters openRegions stop here rules started found)
    (h' : Tries grammar text .whole enters other stop here rules started' found') :
    started = started' ∧ found = found' := by
  induction h generalizing started' found' with
  | done =>
    cases h'
    exact ⟨rfl, rfl⟩
  | skip hnone _ ih =>
    cases h' with
    | skip _ hrest => exact ih hrest
    | reject hsome _ _ => cases hnone.unique hsome
    | word hclaims _ => cases hnone.unique (Grammar.starts_pattern.mpr hclaims)
    | enter hregion hclaims _ => cases hnone.unique ((Grammar.starts_region hregion).mpr hclaims)
  | reject hsome hwhy _ ih =>
    cases h' with
    | skip hnone _ => cases hsome.unique hnone
    | reject _ _ hrest => exact ⟨rfl, (ih hrest).2⟩
    | word hclaims hdefined =>
      rcases hwhy with ⟨pattern, hrule⟩ | hnone
      · cases hrule
        exact absurd rfl hdefined
      · cases hsome.unique hnone
    | enter hregion hclaims _ =>
      rcases hwhy with ⟨pattern, hrule⟩ | hnone
      · cases hrule
      · cases hsome.unique hnone
  | word hclaims hdefined =>
    cases h' with
    | skip hnone _ => cases hnone.unique (Grammar.starts_pattern.mpr hclaims)
    | reject hsome hwhy _ =>
      rcases hwhy with ⟨pattern, hrule⟩ | hnone
      · cases hrule
        exact absurd rfl hdefined
      · cases hsome.unique hnone
    | word hclaims' _ =>
      cases hclaims.unique hclaims'
      exact ⟨rfl, rfl⟩
  | enter hregion hclaims henters =>
    cases h' with
    | skip hnone _ => cases hnone.unique ((Grammar.starts_region hregion).mpr hclaims)
    | reject hsome hwhy _ =>
      rcases hwhy with ⟨pattern, hrule⟩ | hnone
      · cases hrule
      · cases hsome.unique hnone
    | enter hregion' _ henters' =>
      cases hregion.symm.trans hregion'
      exact ⟨rfl, congrArg some (halike (fun _ => hends) henters henters')⟩

theorem endable_cons (hends : region.embedded = false → endable outer = endable other) :
    endable (region :: outer) = endable (region :: other) := by
  rcases hsealed : region.embedded with _ | _
  · rw [endable_open hsealed, endable_open hsealed, hends hsealed]
  · rw [endable_sealed hsealed, endable_sealed hsealed]

section

variable (halike : EntersAlike enters)
  (hends : region.embedded = false → endable outer = endable other)

include halike hends

/-- How a walk over the inside goes on where the region stays open and a rule claims text. -/
theorem Interior.goes_on (hstays : StaysOpen text .whole region outer stop here)
    (htries : Tries grammar text .whole enters (region :: outer) stop here region.rules started
      (some passage))
    (h : Interior grammar text .whole enters region other stop here pending passage') :
    (passage.parked = none ∧ ∃ rest,
      Interior grammar text .whole enters region other stop passage.stop passage.stop rest ∧
        passage' = rest.behind (piece ⟨region.contentToken, pending, here - pending⟩ ++
          passage.spans)) ∨
    ∃ waiting, passage.parked = some waiting ∧ passage' =
      if waiting.region.id = region.id then
        ⟨piece ⟨region.contentToken, pending, here - pending⟩ ++ passage.spans ++
          piece waiting.delimiter, waiting.stop, none⟩
      else passage.behind (piece ⟨region.contentToken, pending, here - pending⟩) := by
  have hinside := endable_cons hends
  cases h with
  | ownEnd hopen hfinds => cases hfinds.unique (hstays.not_ended hopen).1
  | outerEnd hopen _ houter =>
    cases OuterEnd.unique (hends hopen) (hstays.not_ended hopen).2 houter
  | onward _ htries' hparked hrest =>
    cases (htries.unique halike hinside htries').2
    exact Or.inl ⟨hparked, _, hrest, rfl⟩
  | taken _ _ htries' hparked hid =>
    cases (htries.unique halike hinside htries').2
    exact Or.inr ⟨_, hparked, (if_pos hid).symm⟩
  | passed _ _ htries' hparked hid =>
    cases (htries.unique halike hinside htries').2
    exact Or.inr ⟨_, hparked, (if_neg hid).symm⟩
  | char _ htries' | stopped _ htries' => cases (htries.unique halike hinside htries').2

/-- How it goes on where the region stays open and no rule claims text. -/
theorem Interior.reads_on (hstays : StaysOpen text .whole region outer stop here)
    (htries : Tries grammar text .whole enters (region :: outer) stop here region.rules started
      none)
    (h : Interior grammar text .whole enters region other stop here pending passage') :
    (here < stop ∧ ∃ rest, Interior grammar text .whole enters region other stop (here + 1)
      (if started then here else pending) rest ∧ passage' = rest.behind
        (if started then piece ⟨region.contentToken, pending, here - pending⟩ else [])) ∨
    stop ≤ here ∧
      passage' = ⟨piece ⟨region.contentToken, pending, here - pending⟩, here, none⟩ := by
  have hinside := endable_cons hends
  cases h with
  | ownEnd hopen hfinds => cases hfinds.unique (hstays.not_ended hopen).1
  | outerEnd hopen _ houter =>
    cases OuterEnd.unique (hends hopen) (hstays.not_ended hopen).2 houter
  | onward _ htries' | taken _ _ htries' | passed _ _ htries' =>
    cases (htries.unique halike hinside htries').2
  | char _ htries' hlt _ hrest =>
    obtain ⟨rfl, -⟩ := htries.unique halike hinside htries'
    exact Or.inl ⟨hlt, _, hrest, rfl⟩
  | stopped _ _ hend => exact Or.inr ⟨hend.resolve_right id, rfl⟩

theorem Interior.unique
    (h : Interior grammar text .whole enters region outer stop here pending passage)
    (h' : Interior grammar text .whole enters region other stop here pending passage') :
    passage = passage' := by
  induction h generalizing passage' with
  | ownEnd hopen hfinds =>
    cases h' with
    | ownEnd _ hfinds' =>
      cases hfinds.unique hfinds'
      rfl
    | outerEnd _ hnone _ => cases hfinds.unique hnone
    | onward hstays | taken _ hstays | passed _ hstays | char hstays | stopped hstays =>
      cases hfinds.unique (hstays.not_ended hopen).1
  | outerEnd hopen hnone houter =>
    cases h' with
    | ownEnd _ hfinds => cases hfinds.unique hnone
    | outerEnd _ _ houter' =>
      cases houter.unique (hends hopen) houter'
      rfl
    | onward hstays | taken _ hstays | passed _ hstays | char hstays | stopped hstays =>
      cases houter.unique (hends hopen) (hstays.not_ended hopen).2
  | onward hstays htries hparked _ ih =>
    rcases h'.goes_on halike hends hstays htries with ⟨-, rest, hrest, rfl⟩ | ⟨_, hwaiting, -⟩
    · rw [ih hrest]
    · cases hparked.symm.trans hwaiting
  | taken _ hstays htries hwaiting hid =>
    rcases h'.goes_on halike hends hstays htries with ⟨hparked, -⟩ | ⟨_, hwaiting', rfl⟩
    · cases hparked.symm.trans hwaiting
    · cases hwaiting.symm.trans hwaiting'
      exact (if_pos hid).symm
  | passed _ hstays htries hwaiting hid =>
    rcases h'.goes_on halike hends hstays htries with ⟨hparked, -⟩ | ⟨_, hwaiting', rfl⟩
    · cases hparked.symm.trans hwaiting
    · cases hwaiting.symm.trans hwaiting'
      exact (if_neg hid).symm
  | char hstays htries hlt _ _ ih =>
    rcases h'.reads_on halike hends hstays htries with ⟨-, rest, hrest, rfl⟩ | ⟨hle, -⟩
    · rw [ih hrest]
    · exact absurd hlt (Nat.not_lt_of_le hle)
  | stopped hstays htries hend =>
    rcases h'.reads_on halike hends hstays htries with ⟨hlt, -⟩ | ⟨-, rfl⟩
    · exact absurd hlt (Nat.not_lt_of_le (hend.resolve_right id))
    · rfl

end

/-! ## Regions at any depth -/

theorem Seeks.unique {pattern : Pattern} (h : Seeks text .whole pattern stop here start length)
    (h' : Seeks text .whole pattern stop here start' length') :
    start = start' ∧ length = length' := by
  induction h with
  | found hfinds =>
    cases h' with
    | found hfinds' =>
      cases hfinds.unique hfinds'
      exact ⟨rfl, rfl⟩
    | further hnone _ _ _ | ended hnone _ => cases hfinds.unique hnone
  | further hnone hlt _ _ ih =>
    cases h' with
    | found hfinds => cases hfinds.unique hnone
    | further _ _ _ hrest => exact ih hrest
    | ended _ hend => exact absurd hlt (Nat.not_lt_of_le (hend.resolve_right id))
  | ended hnone hend =>
    cases h' with
    | found hfinds => cases hfinds.unique hnone
    | further _ hlt _ _ => exact absurd hlt (Nat.not_lt_of_le (hend.resolve_right id))
    | ended _ _ => exact ⟨rfl, rfl⟩

theorem EntersOnce.unique (halike : EntersAlike enters) :
    EntersAlike (EntersOnce grammar text .whole enters) := by
  intro region openRegions other stop here passage passage' hends h h'
  cases h with
  | region hopen hclaims hinside =>
    cases h' with
    | region _ hclaims' hinside' =>
      cases hclaims.unique hclaims'
      rw [hinside.unique halike hends hinside']
    | block hsealed => exact absurd (hsealed.symm.trans hopen) (by decide)
  | block hsealed hclaims hseeks hinside =>
    cases h' with
    | region hopen => exact absurd (hsealed.symm.trans hopen) (by decide)
    | block _ hclaims' hseeks' hinside' =>
      cases hclaims.unique hclaims'
      obtain ⟨rfl, rfl⟩ := hseeks.unique hseeks'
      rw [hinside.unique halike hends hinside']

/-- Walks into regions are unique at every depth. -/
theorem EntersWithin.unique (depth : Nat) :
    EntersAlike (EntersWithin grammar text .whole depth) := by
  induction depth with
  | zero => exact fun _ _ _ _ _ _ _ _ h => h.elim
  | succ depth ih => exact EntersOnce.unique ih

end RegionScan
