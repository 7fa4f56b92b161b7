-- The shape of walks: a passage goes forward and stays in its range, what it parks
-- is the end of an open region, and where nothing is refused its spans tile the
-- text it passes.
import RegionScan.Proofs.Walks

namespace RegionScan

/-! ## Which regions an end can be parked for -/

/-- The open regions whose ends are looked for: those inside the innermost embedded block. -/
def endable (openRegions : List Region) : List Region :=
  openRegions.takeWhile fun region => !region.embedded

theorem endable_open {region : Region} {outer : List Region} (h : region.embedded = false) :
    endable (region :: outer) = region :: endable outer := by
  simp [endable, h]

theorem endable_sealed {region : Region} {outer : List Region} (h : region.embedded = true) :
    endable (region :: outer) = [] := by
  simp [endable, h]

/-- An end match that was parked at an offset, for a region among those that can end. -/
structure ParkedEnd.Fits (waiting : ParkedEnd Region) (openRegions : List Region)
    (here stop : Nat) : Prop where
  start_eq : waiting.start = here
  start_le : waiting.start ≤ waiting.stop
  stop_le : waiting.stop ≤ stop
  mem : waiting.region ∈ endable openRegions
  delimiter_eq : waiting.delimiter =
    ⟨waiting.region.endToken, waiting.start, waiting.stop - waiting.start⟩

/-- A passage that ends in its range and parks at most the end of an open region. -/
structure Passage.Fits (passage : Passage) (openRegions : List Region) (stop : Nat) : Prop where
  stop_le : passage.stop ≤ stop
  parked : ∀ waiting, passage.parked = some waiting →
    waiting.Fits openRegions passage.stop stop

variable {grammar : Grammar} {text : Text} {sight : Sight}
  {enters : Region → List Region → Nat → Nat → Passage → Prop}
  {region : Region} {openRegions outer : List Region} {rules : List Rule} {passage : Passage}
  {stop here pending start length : Nat} {started : Bool}

/-! ## Forward and within the range -/

theorem OuterEnd.fits {found : Region}
    (h : OuterEnd text sight stop here outer (some (found, length))) :
    found ∈ endable outer ∧ here + length ≤ stop := by
  generalize hresult : some (found, length) = result at h
  induction h with
  | none => cases hresult
  | sealed _ => cases hresult
  | found hopen hfinds =>
    cases hresult
    exact ⟨by rw [endable_open hopen]; exact List.mem_cons_self, hfinds.length.2⟩
  | further hopen _ _ ih =>
    obtain ⟨hmem, hle⟩ := ih hresult
    exact ⟨by rw [endable_open hopen]; exact List.mem_cons_of_mem _ hmem, hle⟩

/-- Nothing is parked where the end of no open region is looked for. -/
theorem Passage.Fits.parked_eq (h : passage.Fits openRegions stop)
    (hsealed : endable openRegions = []) : passage.parked = none := by
  rcases hwaiting : passage.parked with _ | waiting
  · rfl
  · have hmem := (h.parked waiting hwaiting).mem
    rw [hsealed] at hmem
    cases hmem

/-- Regions pass some text and stay in the range. -/
def EntersFit (enters : Region → List Region → Nat → Nat → Passage → Prop) : Prop :=
  ∀ ⦃region openRegions stop here passage⦄, enters region openRegions stop here passage →
    here < passage.stop ∧ passage.Fits openRegions stop

theorem Tries.fits (henters : EntersFit enters)
    (h : Tries grammar text sight enters openRegions stop here rules started (some passage)) :
    here < passage.stop ∧ passage.Fits openRegions stop := by
  generalize hfound : some passage = found at h
  induction h with
  | done => cases hfound
  | skip _ _ ih => exact ih hfound
  | reject _ _ _ ih => exact ih hfound
  | word hclaims _ =>
    cases hfound
    obtain ⟨_, hle, hpos⟩ := hclaims.length
    exact ⟨by dsimp only; omega, hle, fun _ hparked => by cases hparked⟩
  | enter _ _ henter =>
    cases hfound
    exact henters henter

/-- What is parked inside a region, and is not the region's own end, is an end further out. -/
theorem ParkedEnd.Fits.further {waiting : ParkedEnd Region} (hopen : region.embedded = false)
    (h : waiting.Fits (region :: outer) here stop) (hid : waiting.region.id ≠ region.id) :
    waiting.Fits outer here stop := by
  refine ⟨h.start_eq, h.start_le, h.stop_le, ?_, h.delimiter_eq⟩
  have hmem := h.mem
  rw [endable_open hopen] at hmem
  rcases List.mem_cons.mp hmem with heq | hmem
  · exact absurd (by rw [heq]) hid
  · exact hmem

theorem Interior.fits (henters : EntersFit enters) (hhere : here ≤ stop)
    (h : Interior grammar text sight enters region outer stop here pending passage) :
    here ≤ passage.stop ∧ passage.Fits outer stop := by
  induction h with
  | ownEnd _ hfinds =>
    exact ⟨Nat.le_add_right _ _, hfinds.length.2, fun _ hparked => by cases hparked⟩
  | @outerEnd here pending found length _ _ houter =>
    obtain ⟨hmem, hle⟩ := houter.fits
    refine ⟨Nat.le_refl _, hhere, ?_⟩
    intro waiting hparked
    cases hparked
    exact ⟨rfl, Nat.le_add_right _ _, hle, hmem, by simp⟩
  | onward _ htries _ _ ih =>
    obtain ⟨hlt, hfits⟩ := htries.fits henters
    obtain ⟨hle, hrest⟩ := ih hfits.stop_le
    exact ⟨Nat.le_trans (Nat.le_of_lt hlt) hle, hrest.stop_le, hrest.parked⟩
  | taken _ _ htries hparked _ =>
    obtain ⟨hlt, hfits⟩ := htries.fits henters
    have hwaiting := hfits.parked _ hparked
    have := hwaiting.start_eq
    have := hwaiting.start_le
    exact ⟨by dsimp only; omega, hwaiting.stop_le, fun _ hnone => by cases hnone⟩
  | passed hopen _ htries hparked hid =>
    obtain ⟨hlt, hfits⟩ := htries.fits henters
    refine ⟨Nat.le_of_lt hlt, hfits.stop_le, ?_⟩
    intro waiting hwaiting
    obtain rfl := Option.some.inj (hparked.symm.trans hwaiting)
    exact (hfits.parked _ hparked).further hopen hid
  | char _ _ hlt _ _ ih =>
    obtain ⟨hle, hrest⟩ := ih hlt
    exact ⟨Nat.le_of_succ_le hle, hrest.stop_le, hrest.parked⟩
  | stopped => exact ⟨Nat.le_refl _, hhere, fun _ hparked => by cases hparked⟩

/-- Nothing is parked by an embedded block. -/
theorem Interior.parked_of_embedded (hsealed : region.embedded = true)
    (h : Interior grammar text sight enters region outer stop here pending passage) :
    passage.parked = none := by
  induction h with
  | ownEnd hopen _ | outerEnd hopen _ _ | taken hopen _ _ _ _ | passed hopen _ _ _ _ =>
    exact absurd (hsealed.symm.trans hopen) (by decide)
  | onward _ _ _ _ ih => exact ih
  | char _ _ _ _ _ ih => exact ih
  | stopped => rfl

theorem Seeks.fits {pattern : Pattern} (hhere : here ≤ stop)
    (h : Seeks text sight pattern stop here start length) :
    here ≤ start ∧ start + length ≤ stop := by
  induction h with
  | found hfinds => exact ⟨Nat.le_refl _, hfinds.length.2⟩
  | further _ hlt _ _ ih =>
    obtain ⟨hle, hstop⟩ := ih hlt
    exact ⟨Nat.le_of_succ_le hle, hstop⟩
  | ended => exact ⟨Nat.le_refl _, hhere⟩

theorem EntersOnce.fits (henters : EntersFit enters) :
    EntersFit (EntersOnce grammar text sight enters) := by
  intro region openRegions stop here passage h
  cases h with
  | region _ hclaims hinterior =>
    obtain ⟨_, hle, hpos⟩ := hclaims.length
    obtain ⟨hforward, hfits⟩ := hinterior.fits henters hle
    exact ⟨by dsimp only [Passage.behind]; omega, hfits.stop_le, hfits.parked⟩
  | block _ hclaims hseeks _ =>
    obtain ⟨_, hle, hpos⟩ := hclaims.length
    obtain ⟨hforward, hstop⟩ := hseeks.fits hle
    exact ⟨by dsimp only; omega, hstop, fun _ hparked => by cases hparked⟩

theorem EntersWithin.fits (depth : Nat) : EntersFit (EntersWithin grammar text sight depth) := by
  induction depth with
  | zero => exact fun _ _ _ _ _ h => h.elim
  | succ depth ih => exact EntersOnce.fits ih

/-- Every region queues at least its begin match. -/
def EntersQueue (enters : Region → List Region → Nat → Nat → Passage → Prop) : Prop :=
  ∀ ⦃region openRegions stop here passage⦄, enters region openRegions stop here passage →
    passage.spans ≠ []

theorem EntersOnce.queues : EntersQueue (EntersOnce grammar text sight enters) := by
  intro region openRegions stop here passage h
  cases h <;> exact List.cons_ne_nil _ _

theorem Tries.queues (hqueue : EntersQueue enters)
    (h : Tries grammar text sight enters openRegions stop here rules started (some passage)) :
    passage.spans ≠ [] := by
  generalize hfound : some passage = found at h
  induction h with
  | done => cases hfound
  | skip _ _ ih => exact ih hfound
  | reject _ _ _ ih => exact ih hfound
  | word _ _ =>
    cases hfound
    exact List.cons_ne_nil _ _
  | enter _ _ henter =>
    cases hfound
    exact hqueue henter

theorem EntersWithin.queues (depth : Nat) :
    EntersQueue (EntersWithin grammar text sight depth) := by
  cases depth with
  | zero => exact fun _ _ _ _ _ h => h.elim
  | succ depth => exact EntersOnce.queues

/-! ## Tilings -/

/-- The spans lie one behind the other, with nothing between them, and none is empty. -/
def Tiles : Nat → Nat → List Span → Prop
  | first, stop, [] => first = stop
  | first, stop, span :: rest =>
    span.offset = first ∧ 0 < span.length ∧ Tiles (first + span.length) stop rest

theorem Tiles.append {first middle stop : Nat} {spans more : List Span}
    (h : Tiles first middle spans) (hmore : Tiles middle stop more) :
    Tiles first stop (spans ++ more) := by
  induction spans generalizing first with
  | nil =>
    obtain rfl : first = middle := h
    exact hmore
  | cons span rest ih =>
    obtain ⟨hoffset, hpos, hrest⟩ := h
    exact ⟨hoffset, hpos, ih hrest⟩

theorem Tiles.single {token : Token} (hpos : 0 < length) :
    Tiles here (here + length) [⟨token, here, length⟩] := ⟨rfl, hpos, rfl⟩

theorem tiles_piece (token : Token) (here length : Nat) :
    Tiles here (here + length) (piece ⟨token, here, length⟩) := by
  unfold piece
  split
  · rename_i hpos
    exact Tiles.single hpos
  · rename_i hpos
    show here = here + length
    dsimp only at hpos
    omega

theorem tiles_content {token : Token} (h : pending ≤ here) :
    Tiles pending here (piece ⟨token, pending, here - pending⟩) := by
  have := tiles_piece token pending (here - pending)
  rwa [Nat.add_sub_cancel' h] at this

theorem Tiles.le {first stop : Nat} {spans : List Span} (h : Tiles first stop spans) :
    first ≤ stop := by
  induction spans generalizing first with
  | nil => exact Nat.le_of_eq h
  | cons span rest ih =>
    have := ih h.2.2
    omega

theorem Tiles.ne_nil {first stop : Nat} {spans : List Span} (h : Tiles first stop spans)
    (hlt : first < stop) : spans ≠ [] := by
  rintro rfl
  exact absurd h (Nat.ne_of_lt hlt)

/-- Spans tile a stretch up to one offset only. -/
theorem Tiles.stop_unique {first last stop : Nat} {spans : List Span} (h : Tiles first last spans)
    (hother : Tiles first stop spans) : last = stop := by
  induction spans generalizing first with
  | nil => exact (Eq.symm h : last = first).trans hother
  | cons span rest ih => exact ih h.2.2 hother.2.2

theorem Tiles.first_le {first stop : Nat} {spans : List Span} {span : Span}
    (h : Tiles first stop spans) (hmem : span ∈ spans) : first ≤ span.offset := by
  induction spans generalizing first with
  | nil => cases hmem
  | cons head rest ih =>
    rcases List.mem_cons.mp hmem with rfl | hmem
    · exact Nat.le_of_eq h.1.symm
    · have := ih h.2.2 hmem
      omega

/-- The span lies between the two offsets. -/
def Span.Within (first stop : Nat) (span : Span) : Prop :=
  first ≤ span.offset ∧ span.offset + span.length ≤ stop

theorem Span.Within.mono {first last : Nat} {span : Span} (h : span.Within first last)
    (hstart : start ≤ first) (hlast : last ≤ stop) : span.Within start stop :=
  ⟨Nat.le_trans hstart h.1, Nat.le_trans h.2 hlast⟩

/-- Spans that tile a stretch lie in it. -/
theorem Tiles.within {first stop : Nat} {spans : List Span} {span : Span}
    (h : Tiles first stop spans) (hmem : span ∈ spans) : span.Within first stop := by
  induction spans generalizing first with
  | nil => cases hmem
  | cons head rest ih =>
    rcases List.mem_cons.mp hmem with rfl | hmem
    · exact ⟨Nat.le_of_eq h.1.symm, h.1 ▸ h.2.2.le⟩
    · exact (ih h.2.2 hmem).mono (Nat.le_add_right _ _) (Nat.le_refl _)

/-- Regions tile the text they pass. -/
def EntersTile (enters : Region → List Region → Nat → Nat → Passage → Prop) : Prop :=
  ∀ ⦃region openRegions stop here passage⦄, enters region openRegions stop here passage →
    Tiles here passage.stop passage.spans

theorem Tries.tiles (henters : EntersTile enters)
    (h : Tries grammar text sight enters openRegions stop here rules started (some passage)) :
    Tiles here passage.stop passage.spans := by
  generalize hfound : some passage = found at h
  induction h with
  | done => cases hfound
  | skip _ _ ih => exact ih hfound
  | reject _ _ _ ih => exact ih hfound
  | word hclaims _ =>
    cases hfound
    exact Tiles.single hclaims.length.2.2
  | enter _ _ henter =>
    cases hfound
    exact henters henter

/-- Content that is reported early or late covers the same text. -/
theorem tiles_early {token : Token} (h : pending ≤ here) :
    Tiles pending (if started then here else pending)
      (if started then piece ⟨token, pending, here - pending⟩ else []) := by
  cases started
  · rfl
  · exact tiles_content h

theorem Interior.tiles (hfit : EntersFit enters) (htile : EntersTile enters) (hhere : here ≤ stop)
    (hpending : pending ≤ here)
    (h : Interior grammar text sight enters region outer stop here pending passage) :
    Tiles pending passage.stop passage.spans := by
  induction h with
  | ownEnd _ _ => exact (tiles_content hpending).append (tiles_piece _ _ _)
  | outerEnd _ _ _ => exact tiles_content hpending
  | onward _ htries _ _ ih =>
    obtain ⟨_, hfits⟩ := htries.fits hfit
    exact ((tiles_content hpending).append (htries.tiles htile)).append
      (ih hfits.stop_le (Nat.le_refl _))
  | taken _ _ htries hparked _ =>
    obtain ⟨hstart, hle, _, _, hdelimiter⟩ := (htries.fits hfit).2.parked _ hparked
    refine ((tiles_content hpending).append (htries.tiles htile)).append ?_
    rw [hdelimiter, ← hstart]
    exact tiles_content hle
  | passed _ _ htries _ _ => exact (tiles_content hpending).append (htries.tiles htile)
  | char _ _ hlt _ _ ih =>
    refine (tiles_early hpending).append (ih hlt ?_)
    split <;> omega
  | stopped => exact tiles_content hpending

/-- A block whose characters are all there is passed up to its end. -/
theorem Interior.stop_eq_of_embedded (hfit : EntersFit enters) (hhere : here ≤ stop)
    (hsealed : region.embedded = true)
    (h : Interior grammar text Sight.whole enters region outer stop here pending passage) :
    passage.stop = stop := by
  induction h with
  | ownEnd hopen _ | outerEnd hopen _ _ | taken hopen _ _ _ _ | passed hopen _ _ _ _ =>
    exact absurd (hsealed.symm.trans hopen) (by decide)
  | onward _ htries _ _ ih => exact ih (htries.fits hfit).2.stop_le
  | char _ _ hlt _ _ ih => exact ih hlt
  | stopped _ _ hend =>
    rcases hend with hle | hlost
    · exact Nat.le_antisymm hhere hle
    · exact hlost.elim

theorem EntersOnce.tiles (hfit : EntersFit enters) (htile : EntersTile enters) :
    EntersTile (EntersOnce grammar text Sight.whole enters) := by
  intro region openRegions stop here passage h
  cases h with
  | region _ hclaims hinterior =>
    obtain ⟨_, hle, hpos⟩ := hclaims.length
    exact (Tiles.single hpos).append (hinterior.tiles hfit htile hle (Nat.le_refl _))
  | block hsealed hclaims hseeks hinterior =>
    obtain ⟨_, hle, hpos⟩ := hclaims.length
    obtain ⟨hforward, _⟩ := hseeks.fits hle
    have hinside := hinterior.tiles hfit htile hforward (Nat.le_refl _)
    rw [hinterior.stop_eq_of_embedded hfit hforward hsealed] at hinside
    exact ((Tiles.single hpos).append hinside).append (tiles_piece _ _ _)

theorem EntersWithin.tiles (depth : Nat) :
    EntersTile (EntersWithin grammar text Sight.whole depth) := by
  induction depth with
  | zero => exact fun _ _ _ _ _ h => h.elim
  | succ depth ih => exact EntersOnce.tiles (EntersWithin.fits depth) ih

/-! ## At any depth, and over whole ranges -/

theorem Enters.fits : EntersFit (Enters grammar text sight) :=
  fun _ _ _ _ _ ⟨depth, h⟩ => EntersWithin.fits depth h

theorem Enters.queues : EntersQueue (Enters grammar text sight) :=
  fun _ _ _ _ _ ⟨depth, h⟩ => EntersWithin.queues depth h

theorem Enters.tiles : EntersTile (Enters grammar text Sight.whole) :=
  fun _ _ _ _ _ ⟨depth, h⟩ => EntersWithin.tiles depth h

/-- Strides go forward within the range. -/
theorem Strides.fits {spans : List Span} {last : Nat} (hhere : here ≤ stop)
    (h : Strides grammar text sight openRegions stop here spans last) :
    here ≤ last ∧ last ≤ stop ∧ (here = last → spans = []) := by
  induction h with
  | stay => exact ⟨Nat.le_refl _, hhere, fun _ => rfl⟩
  | claim htries _ ih =>
    obtain ⟨hforward, hfits⟩ := htries.fits Enters.fits
    obtain ⟨hle, hstop, _⟩ := ih hfits.stop_le
    exact ⟨by omega, hstop, fun heq => by omega⟩
  | char _ hlt _ _ ih =>
    obtain ⟨hle, hstop, _⟩ := ih hlt
    exact ⟨by omega, hstop, fun heq => by omega⟩

theorem Strides.tiles {spans : List Span} {last : Nat}
    (h : Strides grammar text Sight.whole openRegions stop here spans last) :
    Tiles here last spans := by
  induction h with
  | stay => exact rfl
  | claim htries _ ih => exact (htries.tiles Enters.tiles).append ih
  | char _ _ _ _ ih => exact ⟨rfl, Nat.one_pos, ih⟩

end RegionScan
