-- Ranges inside a partition. The window is filled from the start of the partition, so it can hold
-- other characters than for the range alone, and the scanner is told where the partition starts.
-- Nothing else that can be asked of a scan is any different.
import RegionScan.Proofs.WindowIndependence

namespace RegionScan

/-! ## Accepted ranges -/

/-- A range inside a partition is accepted if and only if the range alone is. -/
theorem Scanner.assignPart_accepts_iff {ρ : Type} {scanner : Scanner ρ} {document : Document}
    (hsmall : document.length ≤ maxOffset) {offset length : Nat} {contentType : Option String}
    {partitionStart : Option Nat} :
    (∃ after, scanner.assignPart document offset length contentType partitionStart =
      .ok () after) ↔ offset + length ≤ document.length := by
  constructor
  · rintro ⟨after, hafter⟩
    obtain ⟨found, hfound, -⟩ := Scanner.assignPart_eq_ok hafter
    have hrange := (Scanner.assign_eq_ok_iff.mp hfound).1
    omega
  · intro hrange
    have hwhole := scanner.assign_withRange hrange
    unfold Scanner.assignPart
    rcases partitionStart with _ | start
    · exact ⟨_, Scan.bind_eq_ok.mpr ⟨(), _, hwhole, rfl⟩⟩
    · dsimp only
      by_cases hearlier : start < offset
      · have hwide := scanner.assign_withRange
          (show start + (length + (offset - start)) ≤ document.length by omega)
        rw [if_pos hearlier, if_pos (by omega)]
        exact ⟨_, Scan.bind_eq_ok.mpr ⟨(), _, hwide, rfl⟩⟩
      · rw [if_neg hearlier]
        exact ⟨_, Scan.bind_eq_ok.mpr ⟨(), _, hwhole, rfl⟩⟩

/-! ## Scanners without their windows -/

/-- A scanner without its window, without the place it keeps and without the partition. -/
def Scanner.bare {ρ : Type} (scanner : Scanner ρ) : Scanner ρ :=
  { scanner with
    window := .unfilled 1 Nat.one_pos
    place := none
    contentType := none
    partitionStart := none
    tally := ⟨0, 0⟩ }

/-- Two scanners of one text that differ in nothing but what `Scanner.bare` leaves out. -/
structure Scanner.AlikeBare (scanner other : Scanner Region) : Prop where
  alike : scanner.Alike Eq other
  bare : scanner.bare = other.bare

namespace Scanner

variable {ρ : Type} (scanner : Scanner ρ)

theorem refill_bare (offset : Nat) : (scanner.refill offset).bare = scanner.bare := by
  unfold refill
  split
  · rfl
  · unfold slice
    rcases scanner.document.slice offset _ with _ | part <;> rfl

theorem moveTo_bare (offset : Nat) :
    (scanner.moveTo offset).bare = { scanner.bare with mark := offset, column := none } := by
  unfold moveTo recenter
  dsimp only
  split
  · split
    · exact refill_bare _ _
    · rfl
  · split
    · exact refill_bare _ _
    · split
      · exact refill_bare _ _
      · rfl

theorem stepBack_bare :
    scanner.stepBack.bare = { scanner.bare with mark := scanner.mark - 1, column := none } := by
  unfold stepBack recenter
  split
  · exact congrArg (fun bare : Scanner ρ => { bare with mark := bare.mark - 1, column := none })
      (scanner.refill_bare _)
  · rfl

theorem read_bare : (read.after scanner).bare =
    if maxOffset ≤ scanner.mark then scanner.bare
    else { scanner.bare with mark := scanner.mark + 1, column := none } := by
  unfold Scan.after read
  rw [Scan.get_bind]
  by_cases hfar : maxOffset ≤ scanner.mark
  · rw [if_pos hfar, if_pos hfar]
    rfl
  · rw [if_neg hfar, if_neg hfar]
    by_cases hend : scanner.rangeEnd ≤ scanner.mark
    · rw [if_pos hend]
      rfl
    · rw [if_neg hend]
      have hfilled : (if scanner.window.contains scanner.mark then scanner
          else scanner.refill scanner.mark).bare = scanner.bare := by
        split
        · rfl
        · exact scanner.refill_bare _
      exact congrArg (fun bare : Scanner ρ =>
        { bare with mark := scanner.mark + 1, column := none }) hfilled

end Scanner

/-! ## Steps that do not ask for the window -/

/-- A bare scanner with what is made of its column. -/
def Scanner.bareBut {ρ : Type} (keep : Option Nat → Option Nat) (scanner : Scanner ρ) :
    Scanner ρ :=
  { scanner.bare with column := keep scanner.column }

namespace Scanner

variable {keep : Option Nat → Option Nat} (scanner : Scanner Region)

theorem moveTo_bareBut (offset : Nat) : (scanner.moveTo offset).bareBut keep =
    { scanner.bareBut keep with mark := offset, column := keep none } :=
  congrArg (fun bare : Scanner Region => { bare with column := keep bare.column })
    (scanner.moveTo_bare offset)

theorem stepBack_bareBut : scanner.stepBack.bareBut keep =
    { scanner.bareBut keep with mark := scanner.mark - 1, column := keep none } :=
  congrArg (fun bare : Scanner Region => { bare with column := keep bare.column })
    scanner.stepBack_bare

theorem read_bareBut : (read.after scanner).bareBut keep =
    if maxOffset ≤ scanner.mark then scanner.bareBut keep
    else { scanner.bareBut keep with mark := scanner.mark + 1, column := keep none } := by
  have hread := scanner.read_bare
  by_cases hfar : maxOffset ≤ scanner.mark
  · rw [if_pos hfar] at hread ⊢
    exact congrArg (fun bare : Scanner Region => { bare with column := keep bare.column }) hread
  · rw [if_neg hfar] at hread ⊢
    exact congrArg (fun bare : Scanner Region => { bare with column := keep bare.column }) hread

/-- What a call makes of a scanner does not depend on what has been left out of it. -/
theorem bareBut_after (hkeep : ∀ column, keep (keep column) = keep column) {call : Call Region}
    (hby : call.ByRules) : (call.step.after scanner).bareBut keep =
      (call.step.after (scanner.bareBut keep)).bareBut keep := by
  have hagain : ∀ scanner : Scanner Region,
      (scanner.bareBut keep).bareBut keep = scanner.bareBut keep := by
    intro scanner
    simp only [bareBut, bare, hkeep]
  cases call with
  | read =>
    rw [Call.read_after, Call.read_after, read_bareBut, read_bareBut, hagain]
    rfl
  | stepBack =>
    show scanner.stepBack.bareBut keep = (scanner.bareBut keep).stepBack.bareBut keep
    rw [stepBack_bareBut, stepBack_bareBut, hagain]
    rfl
  | moveTo offset =>
    show (scanner.moveTo offset).bareBut keep = ((scanner.bareBut keep).moveTo offset).bareBut keep
    rw [moveTo_bareBut, moveTo_bareBut, hagain]
  | enterRange offset length =>
    by_cases hrange : offset + length ≤ scanner.document.length
    · have hrange' : offset + length ≤ (scanner.bareBut keep).document.length := hrange
      rw [Call.enterRange_after hrange, Call.enterRange_after hrange', moveTo_bareBut,
        moveTo_bareBut]
      rfl
    · have hrange' : (scanner.bareBut keep).document.length < offset + length :=
        Nat.lt_of_not_le hrange
      rw [Call.enterRange_after_refused (Nat.lt_of_not_le hrange),
        Call.enterRange_after_refused hrange', hagain]
  | leaveRange =>
    rcases hframes : scanner.frames with _ | ⟨saved, frames⟩
    · have hframes' : (scanner.bareBut keep).frames = [] := hframes
      rw [Call.leaveRange_after_refused hframes, Call.leaveRange_after_refused hframes', hagain]
    · have hframes' : (scanner.bareBut keep).frames = saved :: frames := hframes
      rw [Call.leaveRange_after hframes, Call.leaveRange_after hframes', moveTo_bareBut,
        moveTo_bareBut]
      rfl
  | placeAt offset =>
    obtain ⟨found, place, tally, hplace⟩ := scanner.placeAt_cached offset
    obtain ⟨found', place', tally', hplace'⟩ := (scanner.bareBut keep).placeAt_cached offset
    rw [Call.placeAt_after, Call.placeAt_after, hplace, hplace']
    exact (hagain scanner).symm
  | setLastMatch offset => exact (hagain { scanner with lastMatch := offset }).symm
  | startToken => rfl
  | setToken token => exact (hagain (scanner.setToken token)).symm
  | enqueue span => exact (hagain (scanner.enqueue span)).symm
  | dequeue =>
    rw [Call.dequeue_after, Call.dequeue_after]
    exact (hagain { scanner with
      queue := scanner.queue.tail
      token := scanner.queue.head?.map Span.token
      currentSpan := scanner.queue.head? }).symm
  | openRegion region => exact (hagain (scanner.openRegion region)).symm
  | closeRegion =>
    rw [Call.closeRegion_after, Call.closeRegion_after]
    exact (hagain { scanner with openRegions := scanner.openRegions.tail }).symm
  | park parked =>
    rw [Call.park_after, Call.park_after]
    exact (hagain { scanner with parked := scanner.parked.or (some parked) }).symm
  | unpark => exact (hagain scanner.unpark).symm
  | _ => exact hby.elim

theorem bareBut_after_eq (hkeep : ∀ column, keep (keep column) = keep column) {call : Call Region}
    (hby : call.ByRules) {scanner other : Scanner Region}
    (h : scanner.bareBut keep = other.bareBut keep) :
    (call.step.after scanner).bareBut keep = (call.step.after other).bareBut keep := by
  rw [scanner.bareBut_after hkeep hby, other.bareBut_after hkeep hby, h]

end Scanner

namespace Scanner.AlikeBare

theorem eq_alikeWith :
    AlikeBare = AlikeWith fun scanner other => scanner.bareBut id = other.bareBut id := by
  funext scanner other
  exact propext ⟨fun h => ⟨h.alike, h.bare⟩, fun h => ⟨h.alike, h.same⟩⟩

theorem kept {call : Call Region} (hby : call.ByRules) {scanner other : Scanner Region}
    (h : scanner.AlikeWith (fun scanner other => scanner.bareBut id = other.bareBut id) other) :
    (call.step.after scanner).bareBut id = (call.step.after other).bareBut id :=
  bareBut_after_eq (fun _ => rfl) hby h.same

/-- All that rules do comes to the same. -/
theorem inherited : Inherited fun step => Scan.Uniform AlikeBare step := by
  rw [eq_alikeWith]
  exact AlikeWith.inherited fun _ hby _ _ => kept hby

/-- The column is looked up in the document, or it is one that was worked out before. -/
theorem column :
    Scan.Uniform Scanner.AlikeBare (modifyGet Scanner.columnOfMark : RuleScan Nat) := by
  have hplain : ∀ scanner : Scanner Region, ∃ column lastColumn tally,
      scanner.columnOfMark =
        (scanner.bare.columnOfMark.1, { scanner with column, lastColumn, tally }) ∧
      ({ scanner with column, lastColumn, tally } : Scanner Region).bare =
        scanner.bare.columnOfMark.2.bare := by
    intro scanner
    have hcolumn : scanner.bare.column = scanner.column := rfl
    have hmark : scanner.bare.mark = scanner.mark := rfl
    have hdocument : scanner.bare.document = scanner.document := rfl
    unfold Scanner.columnOfMark Scanner.lineOf
    rw [hcolumn, hmark, hdocument]
    rcases scanner.column with _ | column
    · dsimp only
      rcases (scanner.document.lineOf scanner.mark).bind scanner.document.lineStart with _ | start
      · exact ⟨_, _, _, rfl, rfl⟩
      · exact ⟨_, _, _, rfl, rfl⟩
    · exact ⟨_, _, _, rfl, rfl⟩
  intro scanner other h
  obtain ⟨column, lastColumn, tally, hfound, hbare⟩ := hplain scanner
  obtain ⟨column', lastColumn', tally', hfound', hbare'⟩ := hplain other
  rw [← h.bare] at hfound' hbare'
  show SameOutcome _ (.ok scanner.columnOfMark.1 scanner.columnOfMark.2)
    (.ok other.columnOfMark.1 other.columnOfMark.2)
  rw [hfound, hfound']
  exact .ok _ ⟨h.alike.changed ⟨rfl, rfl, rfl, rfl⟩ ⟨rfl, rfl, rfl, rfl⟩ { h.alike.view with }
    h.alike.lastMatch, hbare.trans hbare'.symm⟩

end Scanner.AlikeBare

/-- A rule of the host that asks neither for the window nor for the partition. -/
def CustomRule.Blind (custom : CustomRule) : Prop :=
  Scan.Uniform Scanner.AlikeBare custom.mayStart ∧ Scan.Uniform Scanner.AlikeBare custom.attempt

theorem FixedRule.toCustom_blind (rule : FixedRule) : rule.toCustom.Blind :=
  Scanner.AlikeBare.inherited.fixedRule rule

/-! ## Sessions -/

/-- What a host goes on to ask for, once it has set a range. -/
inductive Request where
  | read
  | stepBack
  | moveTo (offset : Nat)
  | enterRange (offset length : Nat)
  | leaveRange
  | excerpt (offset count : Nat)
  | column
  | nextToken (grammar : Grammar)

namespace Request

def step : Request → RuleScan Reply
  | read => do return .char (← Scanner.read)
  | stepBack => do
    modify Scanner.stepBack
    return .nothing
  | moveTo offset => do
    modify (·.moveTo offset)
    return .nothing
  | enterRange offset length => do
    Scanner.enterRange offset length
    return .nothing
  | leaveRange => do
    Scanner.leaveRange
    return .nothing
  | excerpt offset count => do return .text (← Scanner.excerpt offset count)
  | column => do return .number (← modifyGet Scanner.columnOfMark)
  | nextToken grammar => do return .token (← grammar.nextToken)

/-- The rules of the host that the request may try are blind. -/
def Blind : Request → Prop
  | nextToken grammar => ∀ custom ∈ grammar.customs, custom.Blind
  | _ => True

/-- What comes of a request, and all of the scanner that it leaves but the window, the place that
is kept and the partition. -/
structure Answer where
  result : Except Halt Reply
  scanner : Scanner Region

/-- The answers to some requests in turn. After an error the session goes on; a fault ends it. -/
def answers : List Request → Scanner Region → List Answer
  | [], _ => []
  | request :: rest, scanner =>
    match request.step scanner with
    | .ok reply after => ⟨.ok reply, after.bare⟩ :: answers rest after
    | .error (.failed error) after => ⟨.error (.failed error), after.bare⟩ :: answers rest after
    | .error (.faulted fault) after => [⟨.error (.faulted fault), after.bare⟩]

/-- The rules of the host that the request may try. -/
def customs : Request → List CustomRule
  | nextToken grammar => grammar.customs
  | _ => []

variable {same : Scanner Region → Scanner Region → Prop}

/-- A request comes to the same if what else is the same stays so. -/
theorem step_uniform
    (hcalls : ∀ call : Call Region, call.ByRules → ∀ scanner other : Scanner Region,
      scanner.AlikeWith same other → same (call.step.after scanner) (call.step.after other))
    (hcolumn : Scan.Uniform (Scanner.AlikeWith same)
      (modifyGet Scanner.columnOfMark : RuleScan Nat))
    {request : Request} (hcustoms : ∀ custom ∈ request.customs,
      Scan.Uniform (Scanner.AlikeWith same) custom.mayStart ∧
        Scan.Uniform (Scanner.AlikeWith same) custom.attempt) :
    Scan.Uniform (Scanner.AlikeWith same) request.step := by
  have hrules := Scanner.AlikeWith.inherited hcalls
  cases request with
  | read => exact hrules.read.bind fun _ => Scan.Uniform.pure _
  | stepBack => exact hrules.stepBack.bind fun _ => Scan.Uniform.pure _
  | moveTo offset => exact (hrules.moveTo offset).bind fun _ => Scan.Uniform.pure _
  | enterRange offset length =>
    exact (Scanner.AlikeWith.enterRange hcalls offset length).bind fun _ => Scan.Uniform.pure _
  | leaveRange => exact (Scanner.AlikeWith.leaveRange hcalls).bind fun _ => Scan.Uniform.pure _
  | excerpt offset count => exact (hrules.excerpt offset count).bind fun _ => Scan.Uniform.pure _
  | column => exact hcolumn.bind fun _ => Scan.Uniform.pure _
  | nextToken grammar => exact (hrules.nextToken hcustoms).bind fun _ => Scan.Uniform.pure _

/-- So do all of them in turn, with what is seen of the scanners. -/
theorem answers_map_eq {alike : Scanner Region → Scanner Region → Prop} {β : Type}
    {see : Answer → β} (hsee : ∀ result (scanner other : Scanner Region), alike scanner other →
      see ⟨result, scanner.bare⟩ = see ⟨result, other.bare⟩)
    {requests : List Request} (hstep : ∀ request ∈ requests, Scan.Uniform alike request.step)
    {scanner other : Scanner Region} (h : alike scanner other) :
    (answers requests scanner).map see = (answers requests other).map see := by
  induction requests generalizing scanner other with
  | nil => rfl
  | cons request rest ih =>
    obtain ⟨hfirst, hrest⟩ := List.forall_mem_cons.mp hstep
    have hsame := hfirst scanner other h
    unfold answers
    generalize request.step scanner = result at hsame ⊢
    generalize request.step other = result' at hsame ⊢
    cases hsame with
    | ok reply h =>
      dsimp only
      rw [List.map_cons, List.map_cons, hsee _ _ _ h, ih hrest h]
    | error halt h =>
      rcases halt with error | fault
      · dsimp only
        rw [List.map_cons, List.map_cons, hsee _ _ _ h, ih hrest h]
      · dsimp only
        rw [List.map_cons, List.map_cons, hsee _ _ _ h]

theorem Blind.step_uniform {request : Request} (h : request.Blind) :
    Scan.Uniform Scanner.AlikeBare request.step := by
  have hcolumn := Scanner.AlikeBare.column
  have hcustoms : ∀ custom ∈ request.customs, custom.Blind := by
    cases request with
    | nextToken grammar => exact h
    | _ => exact fun _ hmem => by cases hmem
  simp only [CustomRule.Blind] at hcustoms
  rw [Scanner.AlikeBare.eq_alikeWith] at hcolumn hcustoms ⊢
  exact Request.step_uniform (fun _ hby _ _ => Scanner.AlikeBare.kept hby) hcolumn hcustoms

theorem answers_eq {requests : List Request} (hblind : ∀ request ∈ requests, request.Blind)
    {scanner other : Scanner Region} (h : scanner.AlikeBare other) :
    answers requests scanner = answers requests other := by
  have hsame : (answers requests scanner).map id = (answers requests other).map id :=
    answers_map_eq (fun _ _ _ h => by rw [h.bare])
      (fun request hmem => (hblind request hmem).step_uniform) h
  rwa [List.map_id, List.map_id] at hsame

end Request

/-! ## The law -/

/-- A range inside a partition differs from the range alone in nothing but what is left out. -/
theorem Scanner.assignPart_alikeBare {scanner after other : Scanner Region} {doc : VersionedText}
    {offset length : Nat} {contentType : Option String} {partitionStart : Option Nat}
    (hpart : scanner.assignPart doc.toDocument offset length contentType partitionStart =
      .ok () after)
    (hwhole : scanner.assign doc.toDocument offset length = .ok () other) :
    after.AlikeBare other ∧ after.contentType = contentType ∧
      after.partitionStart = partitionStart := by
  obtain ⟨found, hfound, rfl⟩ := Scanner.assignPart_eq_ok hpart
  obtain ⟨hs, tally, rfl⟩ := Scanner.assign_text hfound
  obtain ⟨ho, tally', rfl⟩ := Scanner.assign_text hwhole
  have hend : min (partitionStart.getD offset) offset +
      (length + (offset - partitionStart.getD offset)) = offset + length := by omega
  refine ⟨⟨⟨⟨doc, rfl⟩, rfl, ⟨hs.1, hs.2⟩, ho, ?_, ?_, rfl⟩, ?_⟩, rfl, rfl⟩
  · exact ⟨rfl, hend, rfl, rfl, rfl, rfl, rfl, rfl⟩
  · exact List.forall₂_same.mpr fun frame _ => ⟨rfl, rfl, rfl⟩
  · simp only [Scanner.bare, hend]

/-- Whatever a scanner has been used for, a range of a text inside a partition is set just where
the range alone would be, if it ends within the text; if it is refused, nothing changes. If it is
set, the mark, the start of the token and the end of the range are those of the range alone,
the type and the start of the partition are the given ones, and whatever is asked of the scanner
from then on, in any order, the answers are the same. -/
theorem a_partition_shows_in_the_window_only (scanner : Scanner Region) {doc : VersionedText}
    (hsmall : doc.text.length ≤ maxOffset) (offset length : Nat) (contentType : Option String)
    (partitionStart : Option Nat) :
    let part : Call Region :=
      .assignPart doc.toDocument offset length contentType partitionStart
    let whole : Call Region := .assign doc.toDocument offset length
    ((∃ after, part.step scanner = .ok () after) ↔ offset + length ≤ doc.text.length) ∧
    ((∃ other, whole.step scanner = .ok () other) ↔ offset + length ≤ doc.text.length) ∧
    (∀ halt after, part.step scanner = .error halt after → after = scanner) ∧
    ∀ after other, part.step scanner = .ok () after → whole.step scanner = .ok () other →
      after.mark = other.mark ∧ after.tokenStart = other.tokenStart ∧
      after.rangeEnd = other.rangeEnd ∧
      after.contentType = contentType ∧ after.partitionStart = partitionStart ∧
      ∀ requests : List Request, (∀ request ∈ requests, request.Blind) →
        Request.answers requests after = Request.answers requests other := by
  intro part whole
  have hset : ∀ {trial : Trial Region Unit},
      (∃ after, Scan.ofTrial trial scanner = .ok () after) ↔
        ∃ after, trial scanner = .ok () after :=
    exists_congr fun _ => Scan.ofTrial_eq_ok
  refine ⟨hset.trans (Scanner.assignPart_accepts_iff hsmall), hset.trans ?_, ?_, ?_⟩
  · constructor
    · rintro ⟨_, hother⟩
      exact (Scanner.assign_eq_ok_iff.mp hother).1
    · exact fun hrange => ⟨_, scanner.assign_withRange hrange⟩
  · intro halt after hrefused
    exact (Scanner.assignPart_atomic doc.toDocument offset length contentType
      partitionStart).refused hrefused
  · intro after other hpart hwhole
    obtain ⟨hbare, hcontent, hstart⟩ := Scanner.assignPart_alikeBare
      (Scan.ofTrial_eq_ok.mp hpart) (Scan.ofTrial_eq_ok.mp hwhole)
    refine ⟨hbare.alike.view.mark, hbare.alike.view.tokenStart, hbare.alike.view.rangeEnd,
      hcontent, hstart, fun requests hblind => Request.answers_eq hblind hbare⟩

/-- A range behind brackets that are the start of its partition, longer than the window. -/
theorem a_partition_longer_than_the_window_shows_there_only :
    let doc : VersionedText := .ofText ['(', 'a', 'b', ')', '\n', '[', 'c', ']']
    let fresh : Scanner Region := .fresh doc.toDocument ⟨3, by decide⟩
    ∃ after other : Scanner Region,
      (Call.assignPart doc.toDocument 5 3 (some "code") (some 0)).step fresh = .ok () after ∧
      (Call.assign doc.toDocument 5 3).step fresh = .ok () other ∧
      after.window.start = 0 ∧ other.window.start = 5 ∧
      Request.answers [.column, .nextToken .brackets, .excerpt 0 4, .enterRange 0 5, .read] after =
        Request.answers [.column, .nextToken .brackets, .excerpt 0 4, .enterRange 0 5, .read]
          other := by
  intro doc fresh
  obtain ⟨-, -, -, hsame⟩ := a_partition_shows_in_the_window_only fresh
    (show doc.text.length ≤ maxOffset by decide) 5 3 (some "code") (some 0)
  have hblind : ∀ request ∈ ([.column, .nextToken .brackets, .excerpt 0 4, .enterRange 0 5,
      .read] : List Request), request.Blind := by
    simp only [List.forall_mem_cons]
    exact ⟨trivial, nofun, trivial, trivial, trivial, nofun⟩
  have hpart : (Call.assignPart doc.toDocument 5 3 (some "code") (some 0)).step fresh =
      .ok () _ := rfl
  have hwhole : (Call.assign doc.toDocument 5 3).step fresh = .ok () _ := rfl
  obtain ⟨-, -, -, -, -, hanswers⟩ := hsame _ _ hpart hwhole
  exact ⟨_, _, hpart, hwhole, rfl, rfl, hanswers _ hblind⟩

end RegionScan
