-- What may be asked of a scanner, and the states it gets into that way. The rules
-- of a grammar go through the same operations as a host does, so what every
-- operation keeps is kept by every token as well.
import RegionScan.Session
import RegionScan.Proofs.Caches
import RegionScan.Proofs.Inherited

namespace RegionScan

variable {ρ α β : Type}

/-! ## Calls -/

/-- The state a step leaves behind, also where it stops short. -/
def Scan.after (step : Scan ρ α) (scanner : Scanner ρ) : Scanner ρ :=
  match step scanner with
  | .ok _ scanner => scanner
  | .error _ scanner => scanner

/-- What a step gives, or why it stops short. -/
def Scan.result (step : Scan ρ α) (scanner : Scanner ρ) : Except Halt α :=
  match step scanner with
  | .ok value _ => .ok value
  | .error halt _ => .error halt

theorem Scan.result_eq_error {step : Scan ρ α} {scanner : Scanner ρ} {halt : Halt} :
    step.result scanner = .error halt ↔ step scanner = .error halt (step.after scanner) := by
  unfold Scan.result Scan.after
  rcases step scanner with ⟨value, after⟩ | ⟨other, after⟩ <;> simp

theorem Scan.result_eq_ok {step : Scan ρ α} {scanner : Scanner ρ} {value : α} :
    step.result scanner = .ok value ↔ step scanner = .ok value (step.after scanner) := by
  unfold Scan.result Scan.after
  rcases step scanner with ⟨found, after⟩ | ⟨halt, after⟩ <;> simp

theorem Scan.after_of_ok {step : Scan ρ α} {scanner after : Scanner ρ} {value : α}
    (h : step scanner = .ok value after) : step.after scanner = after := by
  rw [Scan.after, h]

theorem Scan.after_of_error {step : Scan ρ α} {scanner after : Scanner ρ} {halt : Halt}
    (h : step scanner = .error halt after) : step.after scanner = after := by
  rw [Scan.after, h]

theorem Scan.after_discard (step : Scan ρ α) (scanner : Scanner ρ) :
    (discard step : Scan ρ Unit).after scanner = step.after scanner := by
  simp only [Scan.after, discard, Functor.mapConst, EStateM.map, Function.comp]
  rcases step scanner with _ | _ <;> rfl

/-- The operations of a scanner. -/
inductive Call (ρ : Type) where
  | assign (document : Document) (offset length : Nat)
  | assignPart (document : Document) (offset length : Nat) (contentType : Option String)
      (partitionStart : Option Nat)
  | read
  | stepBack
  | moveTo (offset : Nat)
  | enterRange (offset length : Nat)
  | leaveRange
  | excerpt (offset count : Nat)
  | textToEnd (offset : Nat)
  | column
  | lineOf (offset : Nat)
  | lineNumbered (number : Nat)
  | lineHolding (offset : Nat)
  | placeAt (offset : Nat)
  | setLastMatch (offset : Nat)
  | setContinuing (value : Bool)
  | startToken
  | setToken (token : Token)
  | enqueue (span : Span)
  | dequeue
  | setCurrentSpan (span : Span)
  | openRegion (region : ρ)
  | closeRegion
  | park (parked : ParkedEnd ρ)
  | unpark

namespace Call

/-- The document that a call brings in. -/
def document? : Call ρ → Option Document
  | assign document _ _ => some document
  | assignPart document _ _ _ _ => some document
  | _ => none

/-- The calls that rules are made of. -/
def ByRules : Call ρ → Prop
  | read | stepBack | moveTo _ | enterRange _ _ | leaveRange | placeAt _ | setLastMatch _
  | startToken | setToken _ | enqueue _ | dequeue | openRegion _ | closeRegion | park _ | unpark =>
    True
  | _ => False

/-- The calls after which the same range is active. They set none, enter none and leave none. -/
def StaysInRange : Call ρ → Prop
  | assign _ _ _ | assignPart _ _ _ _ _ | enterRange _ _ | leaveRange => False
  | _ => True

theorem ByRules.document? {call : Call ρ} (h : call.ByRules) : call.document? = none := by
  cases call <;> first
    | rfl
    | exact h.elim

theorem StaysInRange.document? {call : Call ρ} (h : call.StaysInRange) : call.document? = none := by
  cases call <;> first
    | rfl
    | exact h.elim

/-- What a call does. -/
def step : Call ρ → Scan ρ Unit
  | assign document offset length => Scan.ofTrial (Scanner.assign document offset length)
  | assignPart document offset length contentType partitionStart =>
    Scan.ofTrial (Scanner.assignPart document offset length contentType partitionStart)
  | read => discard Scanner.read
  | stepBack => modify Scanner.stepBack
  | moveTo offset => modify (·.moveTo offset)
  | enterRange offset length => Scanner.enterRange offset length
  | leaveRange => Scanner.leaveRange
  | excerpt offset count => discard (Scanner.excerpt offset count)
  | textToEnd offset => discard (modifyGet (·.textToEnd offset))
  | column => discard (modifyGet Scanner.columnOfMark)
  | lineOf offset => discard (Session.lookup (·.lineOf offset))
  | lineNumbered number => discard (Session.lookup (·.lineNumbered number))
  | lineHolding offset => discard (Session.lookup (·.lineHolding offset))
  | placeAt offset => discard (Session.lookup (·.placeAt offset))
  | setLastMatch offset => modify fun scanner => { scanner with lastMatch := offset }
  | setContinuing value => modify fun scanner => { scanner with continuing := value }
  | startToken => modify Scanner.startToken
  | setToken token => modify (·.setToken token)
  | enqueue span => modify (·.enqueue span)
  | dequeue => discard (modifyGet Scanner.dequeue)
  | setCurrentSpan span => modify (·.setCurrentSpan span)
  | openRegion region => modify (·.openRegion region)
  | closeRegion => discard Scanner.closeRegion
  | park parked => Scanner.park parked
  | unpark => modify Scanner.unpark

end Call

/-! ## What calls leave behind -/

theorem Call.assign_after {scanner : Scanner ρ} {document : Document} {offset length : Nat}
    (h : offset + length ≤ document.length) :
    (Call.assign document offset length).step.after scanner =
      scanner.withRange document offset length := by
  show (Scan.ofTrial _).after scanner = _
  simp only [Scan.after, Scan.ofTrial, scanner.assign_withRange h]

theorem Call.read_after (scanner : Scanner ρ) :
    Call.read.step.after scanner = Scanner.read.after scanner :=
  Scan.after_discard _ scanner

theorem Call.excerpt_after (scanner : Scanner ρ) (offset count : Nat) :
    (Call.excerpt offset count).step.after scanner =
      (Scanner.excerpt offset count).after scanner :=
  Scan.after_discard _ scanner

theorem Call.dequeue_after (scanner : Scanner ρ) : Call.dequeue.step.after scanner =
    { scanner with
      queue := scanner.queue.tail
      token := scanner.queue.head?.map Span.token
      currentSpan := scanner.queue.head? } := by
  show scanner.dequeue.2 = _
  unfold Scanner.dequeue
  rcases scanner.queue with _ | ⟨span, queue⟩ <;> rfl

theorem Call.closeRegion_after (scanner : Scanner ρ) : Call.closeRegion.step.after scanner =
    { scanner with openRegions := scanner.openRegions.tail } := by
  refine (Scan.after_discard _ scanner).trans ?_
  rcases hopen : scanner.openRegions with _ | ⟨region, openRegions⟩
  · rw [Scan.after_of_error (Scanner.closeRegion_refused hopen), List.tail_nil, ← hopen]
  · rw [Scan.after_of_ok (Scanner.closeRegion_of_cons hopen), List.tail_cons]

theorem Call.park_after (scanner : Scanner ρ) (parked : ParkedEnd ρ) :
    (Call.park parked).step.after scanner =
      { scanner with parked := scanner.parked.or (some parked) } := by
  show (Scanner.park parked).after scanner = _
  unfold Scan.after Scanner.park
  rw [Scan.get_bind]
  rcases hparked : scanner.parked with _ | waiting
  · rfl
  · show scanner = { scanner with parked := some waiting }
    rw [← hparked]

theorem Scan.after_lookup (ask : Scanner ρ → Except LookupError α × Scanner ρ)
    (scanner : Scanner ρ) :
    (discard (Session.lookup ask) : Scan ρ Unit).after scanner = (ask scanner).2 := by
  rw [Scan.after_discard]
  unfold Scan.after Session.lookup
  rcases ask scanner with ⟨_ | _, after⟩ <;> rfl

theorem Call.placeAt_after (scanner : Scanner ρ) (offset : Nat) :
    (Call.placeAt offset).step.after scanner = (scanner.placeAt offset).2 :=
  Scan.after_lookup (·.placeAt offset) scanner

theorem Call.enterRange_after {scanner : Scanner ρ} {offset length : Nat}
    (h : offset + length ≤ scanner.document.length) :
    (Call.enterRange offset length).step.after scanner = { scanner with
      frames := scanner.frame :: scanner.frames, rangeEnd := offset + length }.moveTo offset :=
  Scan.after_of_ok (Scanner.enterRange_of_le h)

theorem Call.enterRange_after_refused {scanner : Scanner ρ} {offset length : Nat}
    (h : scanner.document.length < offset + length) :
    (Call.enterRange offset length).step.after scanner = scanner :=
  Scan.after_of_error (Scanner.enterRange_refused h)

theorem Call.leaveRange_after {scanner : Scanner ρ} {saved : Frame} {frames : List Frame}
    (h : scanner.frames = saved :: frames) :
    Call.leaveRange.step.after scanner = { scanner with
      frames, rangeEnd := saved.rangeEnd, lastMatch := saved.lastMatch }.moveTo saved.offset :=
  Scan.after_of_ok (Scanner.leaveRange_of_cons h)

theorem Call.leaveRange_after_refused {scanner : Scanner ρ} (h : scanner.frames = []) :
    Call.leaveRange.step.after scanner = scanner :=
  Scan.after_of_error (Scanner.leaveRange_refused h)

/-! ## What steps keep -/

/-- A step keeps a property of the state, whatever comes of it. -/
def Keeps (P : Scanner ρ → Prop) (step : Scan ρ α) : Prop :=
  ∀ scanner, P scanner → P (step.after scanner)

/-- Every operation keeps the property, over the documents that may come in. -/
def KeptByCalls (Admits : Document → Prop) (P : Scanner ρ → Prop) : Prop :=
  ∀ call : Call ρ, (∀ document, call.document? = some document → Admits document) →
    Keeps P call.step

variable {P : Scanner ρ → Prop}

namespace Keeps

theorem pure (value : α) : Keeps P (Pure.pure value : Scan ρ α) := fun _ h => h

theorem get : Keeps P (MonadState.get : Scan ρ (Scanner ρ)) := fun _ h => h

theorem fail (error : ScanError) : Keeps P (Scan.fail error : Scan ρ α) := fun _ h => h

theorem fault (fault : Fault) : Keeps P (Scan.fault fault : Scan ρ α) := fun _ h => h

theorem bind {step : Scan ρ α} {next : α → Scan ρ β} (hstep : Keeps P step)
    (hnext : ∀ value, Keeps P (next value)) : Keeps P (step >>= next) := by
  intro scanner h
  have hmid := hstep scanner h
  unfold Scan.after at hmid ⊢
  simp only [Bind.bind, EStateM.bind]
  rcases hrun : step scanner with ⟨value, mid⟩ | ⟨halt, mid⟩
  · rw [hrun] at hmid
    exact hnext value mid hmid
  · rw [hrun] at hmid
    exact hmid

theorem discard_iff {step : Scan ρ α} : Keeps P (discard step) ↔ Keeps P step := by
  simp only [Keeps, Scan.after_discard]

theorem outcome {step : Scan ρ α} (h : Keeps P step) : Keeps P (Scan.outcome step) := by
  intro scanner hs
  have := h scanner hs
  unfold Scan.after at this ⊢
  unfold Scan.outcome
  rcases hrun : step scanner with ⟨value, mid⟩ | ⟨halt | halt, mid⟩ <;> rw [hrun] at this <;>
    exact this

end Keeps

/-! ## Properties of what a scan stands on -/

/-- Two states of a scan with the same document, the same of it kept, and the same ranges. -/
structure Scanner.SameGround (scanner other : Scanner ρ) : Prop where
  document : other.document = scanner.document
  window : other.window = scanner.window
  place : other.place = scanner.place
  rangeEnd : other.rangeEnd = scanner.rangeEnd
  frames : other.frames = scanner.frames

/-- The few changes through which the operations that stay in a range reach the document and what
is kept of it. A property of these and of the ranges is kept by those operations if it is kept by
these changes. -/
structure Steady (P : Scanner ρ → Prop) : Prop where
  congr : ∀ {scanner other : Scanner ρ}, P scanner → scanner.SameGround other → P other
  refill : ∀ {scanner : Scanner ρ} (offset : Nat), P scanner → P (scanner.refill offset)
  placeAt : ∀ {scanner : Scanner ρ} (offset : Nat), P scanner → P (scanner.placeAt offset).2

/-- With the changes of the ranges, such a property is kept by every operation. -/
structure Grounded (Admits : Document → Prop) (P : Scanner ρ → Prop) : Prop extends Steady P where
  enter : ∀ {scanner : Scanner ρ} {offset length rangeEnd : Nat}, P scanner →
    Scanner.rangeEndIn scanner.document offset length = .ok rangeEnd →
      P { scanner with frames := scanner.frame :: scanner.frames, rangeEnd }
  leave : ∀ {scanner : Scanner ρ} {saved : Frame} {frames : List Frame}, P scanner →
    scanner.frames = saved :: frames → P { scanner with frames, rangeEnd := saved.rangeEnd }
  assign : ∀ {scanner after : Scanner ρ} {document : Document} {offset length : Nat},
    Admits document → P scanner → scanner.assign document offset length = .ok () after → P after

/-- A range inside a partition is a range that starts where the partition does, if that is
earlier, with the mark at the place to go on from. -/
theorem Scanner.assignPart_eq_ok {scanner after : Scanner ρ} {document : Document}
    {offset length : Nat} {contentType : Option String} {partitionStart : Option Nat}
    (h : scanner.assignPart document offset length contentType partitionStart = .ok () after) :
    ∃ found, scanner.assign document (min (partitionStart.getD offset) offset)
        (length + (offset - partitionStart.getD offset)) = .ok () found ∧
      after = { found with mark := offset, tokenStart := offset, contentType, partitionStart } := by
  have hplain : (do
      Scanner.assign document offset length
      modify fun scanner => { scanner with contentType, partitionStart } :
        Trial ρ Unit) scanner = .ok () after →
      ∃ found, scanner.assign document offset length = .ok () found ∧ after =
        { found with mark := offset, tokenStart := offset, contentType, partitionStart } := by
    intro hafter
    obtain ⟨⟨⟩, found, hfound, hlast⟩ := Scan.bind_eq_ok.mp hafter
    cases hlast
    obtain ⟨-, rfl⟩ := Scanner.assign_eq_ok_iff.mp hfound
    exact ⟨_, hfound, rfl⟩
  unfold assignPart at h
  split at h
  · rename_i start
    rw [Option.getD_some]
    split at h
    · rename_i hearlier
      rw [Nat.min_eq_left (Nat.le_of_lt hearlier)]
      split at h
      · obtain ⟨⟨⟩, wide, hwide, hlast⟩ := Scan.bind_eq_ok.mp h
        cases hlast
        exact ⟨wide, hwide, rfl⟩
      · cases h
    · rename_i hlater
      have hlater := Nat.le_of_not_lt hlater
      rw [Nat.min_eq_right hlater, Nat.sub_eq_zero_of_le hlater]
      exact hplain h
  · rw [Option.getD_none, Nat.min_self, Nat.sub_self]
    exact hplain h

/-! ## Trials -/

/-- If the trial is refused, it has changed nothing. -/
def Trial.Atomic {α : Type} (trial : Trial ρ α) : Prop :=
  ∀ scanner error after, trial scanner = .error error after → after = scanner

theorem Trial.Atomic.bind {α β : Type} {trial : Trial ρ α} {next : α → Trial ρ β}
    (h : trial.Atomic)
    (hnext : ∀ value scanner, ∃ found after, next value scanner = .ok found after) :
    (trial >>= next).Atomic := by
  intro scanner error after hrefused
  simp only [Bind.bind, EStateM.bind] at hrefused
  rcases htrial : trial scanner with ⟨value, middle⟩ | ⟨reason, middle⟩ <;> rw [htrial] at hrefused
  · obtain ⟨found, last, hlast⟩ := hnext value middle
    cases hlast.symm.trans hrefused
  · cases hrefused
    exact h scanner _ _ htrial

theorem Scanner.assign_atomic (document : Document) (offset length : Nat) :
    (Scanner.assign document offset length : Trial ρ Unit).Atomic := by
  intro scanner error after hrefused
  rcases Nat.lt_or_ge document.length (offset + length) with hlt | hle
  · cases (scanner.assign_refused hlt).symm.trans hrefused
    rfl
  · cases (scanner.assign_withRange hle).symm.trans hrefused

theorem Scanner.assignPart_atomic (document : Document) (offset length : Nat)
    (contentType : Option String) (partitionStart : Option Nat) :
    (Scanner.assignPart document offset length contentType partitionStart :
      Trial ρ Unit).Atomic := by
  have hassign : ∀ start count (change : Scanner ρ → Scanner ρ), (do
      Scanner.assign document start count
      modify change : Trial ρ Unit).Atomic :=
    fun start count _ => (Scanner.assign_atomic document start count).bind
      fun _ _ => ⟨_, _, rfl⟩
  unfold Scanner.assignPart
  split
  · split
    · split
      · exact (Scanner.assign_atomic document _ _).bind fun _ _ => ⟨_, _, rfl⟩
      · intro scanner error after hrefused
        cases hrefused
        rfl
    · exact hassign _ _ _
  · exact hassign _ _ _

/-- A trial comes through as a step just where it does by itself. -/
theorem Scan.ofTrial_eq_ok {α : Type} {trial : Trial ρ α} {scanner after : Scanner ρ} {value : α} :
    Scan.ofTrial trial scanner = .ok value after ↔ trial scanner = .ok value after := by
  unfold Scan.ofTrial
  rcases trial scanner with ⟨found, last⟩ | ⟨error, last⟩
  · simp
  · simp

theorem Trial.Atomic.refused {α : Type} {trial : Trial ρ α} (h : trial.Atomic)
    {scanner after : Scanner ρ} {halt : Halt}
    (hrefused : Scan.ofTrial trial scanner = .error halt after) : after = scanner := by
  unfold Scan.ofTrial at hrefused
  rcases htrial : trial scanner with ⟨value, last⟩ | ⟨error, last⟩ <;> rw [htrial] at hrefused
  · cases hrefused
  · cases hrefused
    exact h scanner error _ htrial

namespace Keeps

/-- What is kept where a trial comes through is kept by the trial. -/
theorem ofTrial {trial : Trial ρ Unit} (hatomic : trial.Atomic)
    (h : ∀ scanner after, P scanner → trial scanner = .ok () after → P after) :
    Keeps P (Scan.ofTrial trial) := by
  intro scanner hs
  unfold Scan.after Scan.ofTrial
  rcases htrial : trial scanner with ⟨_, after⟩ | ⟨error, after⟩
  · exact h scanner after hs htrial
  · obtain rfl := hatomic scanner error after htrial
    exact hs

end Keeps

namespace Steady

variable {scanner : Scanner ρ}

theorem moveTo (h : Steady P) (hs : P scanner) (offset : Nat) :
    P (scanner.moveTo offset) := by
  have hmoved : P { scanner with mark := offset, column := none } :=
    h.congr hs ⟨rfl, rfl, rfl, rfl, rfl⟩
  unfold Scanner.moveTo
  dsimp only
  split
  · split
    · exact h.refill _ hmoved
    · exact hmoved
  · split
    · exact h.refill _ hmoved
    · split
      · exact h.refill _ hmoved
      · exact hmoved

theorem stepBack (h : Steady P) (hs : P scanner) : P scanner.stepBack := by
  unfold Scanner.stepBack
  split
  · exact h.congr (h.refill _ hs) ⟨rfl, rfl, rfl, rfl, rfl⟩
  · exact h.congr hs ⟨rfl, rfl, rfl, rfl, rfl⟩

theorem read (h : Steady P) : Keeps P (Scanner.read : Scan ρ (Option Char)) := by
  intro scanner hs
  unfold Scan.after Scanner.read
  rw [Scan.get_bind]
  by_cases hfar : maxOffset ≤ scanner.mark
  · rw [if_pos hfar]
    exact hs
  · rw [if_neg hfar]
    by_cases hend : scanner.rangeEnd ≤ scanner.mark
    · rw [if_pos hend]
      exact h.congr hs ⟨rfl, rfl, rfl, rfl, rfl⟩
    · rw [if_neg hend]
      have hfilled : P (if scanner.window.contains scanner.mark then scanner
          else scanner.refill scanner.mark) := by
        split
        · exact hs
        · exact h.refill _ hs
      exact h.congr hfilled ⟨rfl, rfl, rfl, rfl, rfl⟩

theorem readUpTo (h : Steady P) (count : Nat) :
    Keeps P (Scanner.readUpTo count : Scan ρ Text) := by
  induction count with
  | zero => exact Keeps.pure _
  | succ count ih =>
    apply h.read.bind
    intro char
    rcases char with _ | c
    · exact Keeps.pure _
    · exact ih.bind fun _ => Keeps.pure _

theorem excerpt (h : Steady P) (offset count : Nat) :
    Keeps P (Scanner.excerpt offset count : Scan ρ Text) :=
  Keeps.get.bind fun scanner => Keeps.bind (fun _ hs => h.moveTo hs offset) fun _ =>
    (h.readUpTo count).bind fun _ => Keeps.bind (fun _ hs => h.moveTo hs scanner.mark) fun _ =>
      Keeps.pure _

/-- All other operations that stay in the range change nothing but what such a property does not
look at. -/
theorem kept (h : Steady P) {call : Call ρ} (hcall : call.StaysInRange) : Keeps P call.step := by
  cases call with
  | assign | assignPart | enterRange | leaveRange => exact hcall.elim
  | read => exact Keeps.discard_iff.mpr h.read
  | stepBack => exact fun _ hs => h.stepBack hs
  | moveTo offset => exact fun _ hs => h.moveTo hs offset
  | excerpt offset count => exact Keeps.discard_iff.mpr (h.excerpt offset count)
  | textToEnd offset =>
    refine Keeps.discard_iff.mpr fun scanner hs => ?_
    show P (scanner.textToEnd offset).2
    unfold Scanner.textToEnd
    rcases hslice : scanner.document.slice offset (scanner.document.length - offset) with _ | part
      <;> simp only [Scanner.slice, hslice] <;> exact h.congr hs ⟨rfl, rfl, rfl, rfl, rfl⟩
  | column =>
    refine Keeps.discard_iff.mpr fun scanner hs => ?_
    show P scanner.columnOfMark.2
    unfold Scanner.columnOfMark Scanner.lineOf
    split
    · exact hs
    · dsimp only
      split <;> exact h.congr hs ⟨rfl, rfl, rfl, rfl, rfl⟩
  | lineOf offset =>
    intro scanner hs
    rw [Call.step, Scan.after_lookup]
    exact h.congr hs ⟨rfl, rfl, rfl, rfl, rfl⟩
  | lineNumbered number =>
    intro scanner hs
    obtain ⟨tally, hline⟩ := scanner.lineNumbered_spec number
    rw [Call.step, Scan.after_lookup, hline]
    exact h.congr hs ⟨rfl, rfl, rfl, rfl, rfl⟩
  | lineHolding offset =>
    intro scanner hs
    obtain ⟨tally, hline⟩ := scanner.lineHolding_spec offset
    rw [Call.step, Scan.after_lookup, hline]
    exact h.congr hs ⟨rfl, rfl, rfl, rfl, rfl⟩
  | placeAt offset =>
    intro scanner hs
    rw [Call.placeAt_after]
    exact h.placeAt offset hs
  | setLastMatch offset => exact fun _ hs => h.congr hs ⟨rfl, rfl, rfl, rfl, rfl⟩
  | setContinuing value => exact fun _ hs => h.congr hs ⟨rfl, rfl, rfl, rfl, rfl⟩
  | startToken => exact fun _ hs => h.congr hs ⟨rfl, rfl, rfl, rfl, rfl⟩
  | setToken token => exact fun _ hs => h.congr hs ⟨rfl, rfl, rfl, rfl, rfl⟩
  | enqueue span => exact fun _ hs => h.congr hs ⟨rfl, rfl, rfl, rfl, rfl⟩
  | dequeue =>
    intro scanner hs
    rw [Call.dequeue_after]
    exact h.congr hs ⟨rfl, rfl, rfl, rfl, rfl⟩
  | setCurrentSpan span => exact fun _ hs => h.congr hs ⟨rfl, rfl, rfl, rfl, rfl⟩
  | openRegion region => exact fun _ hs => h.congr hs ⟨rfl, rfl, rfl, rfl, rfl⟩
  | closeRegion =>
    intro scanner hs
    rw [Call.closeRegion_after]
    exact h.congr hs ⟨rfl, rfl, rfl, rfl, rfl⟩
  | park parked =>
    intro scanner hs
    rw [Call.park_after]
    exact h.congr hs ⟨rfl, rfl, rfl, rfl, rfl⟩
  | unpark => exact fun _ hs => h.congr hs ⟨rfl, rfl, rfl, rfl, rfl⟩

end Steady

namespace Grounded

variable {Admits : Document → Prop} {scanner : Scanner ρ}

theorem assignPart (h : Grounded Admits P) (hs : P scanner) {document : Document}
    (hadmits : Admits document) {offset length : Nat} {contentType : Option String}
    {partitionStart : Option Nat} {after : Scanner ρ}
    (hassign : scanner.assignPart document offset length contentType partitionStart =
      .ok () after) :
    P after := by
  obtain ⟨found, hfound, rfl⟩ := Scanner.assignPart_eq_ok hassign
  exact h.congr (h.assign hadmits hs hfound) ⟨rfl, rfl, rfl, rfl, rfl⟩

/-- Every operation stays in the range, or it sets one, enters one or leaves one. -/
theorem kept (h : Grounded Admits P) : KeptByCalls Admits P := by
  intro call hadmits
  cases call with
  | assign document offset length =>
    exact Keeps.ofTrial (Scanner.assign_atomic document offset length)
      fun _ _ hs hassign => h.assign (hadmits document rfl) hs hassign
  | assignPart document offset length contentType partitionStart =>
    exact Keeps.ofTrial
      (Scanner.assignPart_atomic document offset length contentType partitionStart)
      fun _ _ hs hassign => h.assignPart hs (hadmits document rfl) hassign
  | enterRange offset length =>
    intro scanner hs
    by_cases hrange : offset + length ≤ scanner.document.length
    · rw [Call.enterRange_after hrange]
      exact h.moveTo (h.enter hs (if_pos hrange)) offset
    · rwa [Call.enterRange_after_refused (Nat.lt_of_not_le hrange)]
  | leaveRange =>
    intro scanner hs
    rcases hframes : scanner.frames with _ | ⟨saved, frames⟩
    · rwa [Call.leaveRange_after_refused hframes]
    · rw [Call.leaveRange_after hframes]
      have hback : P { scanner with
          frames, rangeEnd := saved.rangeEnd, lastMatch := saved.lastMatch } :=
        h.congr (h.leave hs hframes) ⟨rfl, rfl, rfl, rfl, rfl⟩
      exact h.moveTo hback saved.offset
  | _ => exact h.toSteady.kept trivial

end Grounded

/-- What holds of the documents that may come in holds of the one that is scanned. -/
theorem Scanner.document_grounded {Admits Q : Document → Prop}
    (h : ∀ document, Admits document → Q document) :
    Grounded Admits fun scanner : Scanner ρ => Q scanner.document where
  congr := fun hs hsame => hsame.document ▸ hs
  refill := by
    intro scanner offset hs
    obtain ⟨cache, hrefill⟩ := scanner.refill_cached offset
    rw [hrefill]
    exact hs
  placeAt := by
    intro scanner offset hs
    obtain ⟨found, place, tally, hplace⟩ := scanner.placeAt_cached offset
    rw [hplace]
    exact hs
  enter := fun hs _ => hs
  leave := fun hs _ => hs
  assign := by
    intro scanner after document offset length hadmits _ hassign
    obtain ⟨-, rfl⟩ := Scanner.assign_eq_ok_iff.mp hassign
    obtain ⟨cache, hrefill⟩ :=
      ({ scanner with document, place := none } : Scanner ρ).refill_cached offset
    show Q ({ scanner with document, place := none }.refill offset).document
    rw [hrefill]
    exact h document hadmits

/-! ## The rules go through the operations -/

/-- A match at the mark is one lookup of the place and one search in its line. -/
theorem matchAtMark_eq (pattern : Pattern) (scanner : Scanner Region) :
    matchAtMark pattern scanner =
      if scanner.rangeEnd < scanner.mark then .ok none scanner
      else
        match scanner.placeAt scanner.mark with
        | (.error _, after) => .ok none after
        | (.ok place, after) =>
          match pattern.matchLength? place.line.chars place.column with
          | none => .ok none after
          | some length =>
            if scanner.mark + length ≤ maxOffset then
              .ok (if scanner.mark + length ≤ scanner.rangeEnd then some length else none) after
            else .error (.faulted .offsetOverflow) after := by
  unfold matchAtMark
  rw [Scan.get_bind]
  split
  · rfl
  · rcases scanner.placeAt scanner.mark with ⟨_ | place, after⟩
    · rfl
    · simp only [set]
      rcases pattern.matchLength? place.line.chars place.column with _ | length
      · rfl
      · simp only [Scan.sum]
        split <;> rfl

/-- Whatever the document answers, a match at the mark is a lookup, and it does not end past the
range. -/
theorem matchAtMark_cached (pattern : Pattern) (scanner : Scanner Region) :
    (∃ found cache, matchAtMark pattern scanner = .ok found (scanner.withCache cache) ∧
      ∀ length, found = some length → scanner.mark + length ≤ scanner.rangeEnd) ∨
    ∃ after, matchAtMark pattern scanner = .error (.faulted .offsetOverflow) after := by
  obtain ⟨found, place, tally, hplace⟩ := scanner.placeAt_cached scanner.mark
  have hcache : ({ scanner with place, tally } : Scanner Region) = scanner.withCache
      ⟨scanner.window.chars, scanner.window.start, place, scanner.column, tally⟩ := rfl
  rw [matchAtMark_eq, hplace, hcache]
  by_cases hrange : scanner.rangeEnd < scanner.mark
  · rw [if_pos hrange]
    exact Or.inl ⟨none, scanner.cache, rfl, by simp⟩
  · rw [if_neg hrange]
    rcases found with reason | here
    · exact Or.inl ⟨none, _, rfl, by simp⟩
    · dsimp only
      rcases pattern.matchLength? here.line.chars here.column with _ | length
      · exact Or.inl ⟨none, _, rfl, by simp⟩
      · dsimp only
        by_cases hsum : scanner.mark + length ≤ maxOffset
        · rw [if_pos hsum]
          refine Or.inl ⟨_, _, rfl, fun other hother => ?_⟩
          split at hother
          · cases hother
            assumption
          · cases hother
        · rw [if_neg hsum]
          exact Or.inr ⟨_, rfl⟩

/-- A match at the mark is a lookup of the place there, or nothing at all behind the range. -/
theorem matchAtMark_after_eq (pattern : Pattern) (scanner : Scanner Region) :
    (matchAtMark pattern).after scanner =
      if scanner.rangeEnd < scanner.mark then scanner else (scanner.placeAt scanner.mark).2 := by
  rw [Scan.after, matchAtMark_eq]
  by_cases hrange : scanner.rangeEnd < scanner.mark
  · rw [if_pos hrange, if_pos hrange]
  · rw [if_neg hrange, if_neg hrange]
    rcases scanner.placeAt scanner.mark with ⟨_ | place, after⟩
    · rfl
    · dsimp only
      rcases pattern.matchLength? place.line.chars place.column with _ | length
      · rfl
      · dsimp only
        by_cases hsum : scanner.mark + length ≤ maxOffset
        · rw [if_pos hsum]
        · rw [if_neg hsum]

theorem matchAtMark_after (pattern : Pattern) (scanner : Scanner Region) :
    (matchAtMark pattern).after scanner = scanner ∨
      (matchAtMark pattern).after scanner = (scanner.placeAt scanner.mark).2 := by
  rw [matchAtMark_after_eq]
  by_cases hrange : scanner.rangeEnd < scanner.mark
  · exact Or.inl (if_pos hrange)
  · exact Or.inr (if_neg hrange)

/-- Every call that rules are made of keeps the property. -/
def KeptByRuleCalls (P : Scanner Region → Prop) : Prop :=
  ∀ call : Call Region, call.ByRules → Keeps P call.step

namespace KeptByRuleCalls

variable {P : Scanner Region → Prop}

theorem matchAtMark (h : KeptByRuleCalls P) (pattern : Pattern) :
    Keeps P (matchAtMark pattern) := by
  intro scanner hs
  rcases matchAtMark_after pattern scanner with hsame | hlookup
  · rw [hsame]
    exact hs
  · have hplace := h (.placeAt scanner.mark) trivial scanner hs
    rwa [hlookup, ← Call.placeAt_after]

/-- The rules of a grammar keep what the calls they are made of keep. -/
theorem inherited (h : KeptByRuleCalls P) : Inherited fun step => Keeps P step where
  pure := Keeps.pure
  fail := Keeps.fail
  fault := Keeps.fault
  bind := Keeps.bind
  look := fun _ hnext => Keeps.get.bind hnext
  read := Keeps.discard_iff.mp (h .read trivial)
  stepBack := h .stepBack trivial
  moveTo := fun offset => h (.moveTo offset) trivial
  matchAtMark := h.matchAtMark
  setLastMatch := fun offset => h (.setLastMatch offset) trivial
  startToken := h .startToken trivial
  setToken := fun token => h (.setToken token) trivial
  enqueue := fun span => h (.enqueue span) trivial
  dequeue := Keeps.discard_iff.mp (h .dequeue trivial)
  park := fun parked => h (.park parked) trivial
  unpark := h .unpark trivial
  inRegion := fun hinside hnext => Keeps.bind (h (.openRegion _) trivial) fun _ =>
    (Keeps.outcome hinside).bind fun scanned =>
      (Keeps.discard_iff.mp (h .closeRegion trivial)).bind fun popped => hnext scanned popped
  inBlock := fun hinside hnext => Keeps.bind (h (.enterRange _ _) trivial) fun _ =>
    Keeps.bind (h (.openRegion _) trivial) fun _ => (Keeps.outcome hinside).bind fun scanned =>
      (Keeps.discard_iff.mp (h .closeRegion trivial)).bind fun _ =>
        Keeps.bind (h .leaveRange trivial) fun _ => hnext scanned

end KeptByRuleCalls

namespace KeptByCalls

variable {Admits : Document → Prop} {P : Scanner Region → Prop}

/-- An operation that brings in no document keeps the property. -/
theorem keeps (h : KeptByCalls Admits P) (call : Call Region) (hnone : call.document? = none) :
    Keeps P call.step :=
  h call fun document hdoc => by rw [hnone] at hdoc; cases hdoc

/-- A range that was saved comes back, and by then all is kept that the operations keep. -/
theorem comes_back (h : KeptByCalls Admits P) {scanner : Scanner Region} (hs : P scanner)
    {frame : Frame} (hframe : frame ∈ scanner.frames) :
    ∃ later, P later ∧ later.rangeEnd = frame.rangeEnd := by
  induction hframes : scanner.frames generalizing scanner with
  | nil =>
    rw [hframes] at hframe
    cases hframe
  | cons saved frames ih =>
    have hnext := h.keeps .leaveRange rfl scanner hs
    rw [Call.leaveRange_after hframes] at hnext
    rw [hframes] at hframe
    rcases List.mem_cons.mp hframe with rfl | hmore
    · exact ⟨_, hnext, by simp⟩
    · exact ih hnext (by simpa using hmore) (by simp)

/-- The rules of a grammar keep what all operations keep. -/
theorem inherited (h : KeptByCalls Admits P) : Inherited fun step => Keeps P step :=
  KeptByRuleCalls.inherited fun call hby => h.keeps call hby.document?

end KeptByCalls

/-- The host's rules of a grammar keep the property. -/
def Grammar.CustomsKeep (grammar : Grammar) (P : Scanner Region → Prop) : Prop :=
  ∀ custom ∈ grammar.customs, Keeps P custom.mayStart ∧ Keeps P custom.attempt

/-- What all operations and the host's rules keep is kept by each token of a grammar. -/
theorem KeptByCalls.nextToken {Admits : Document → Prop} {P : Scanner Region → Prop}
    {grammar : Grammar} (h : KeptByCalls Admits P) (hcustoms : grammar.CustomsKeep P) :
    Keeps P grammar.nextToken :=
  h.inherited.nextToken hcustoms

/-! ## States that can be reached -/

/-- The states that calls lead to from a state. -/
inductive Follows (Admits : Document → Prop) (first : Scanner ρ) : Scanner ρ → Prop
  | same : Follows Admits first first
  | call {scanner : Scanner ρ} (call : Call ρ) :
    (∀ document, call.document? = some document → Admits document) →
      Follows Admits first scanner → Follows Admits first (call.step.after scanner)

/-- A rule of the host that goes through the operations of the scanner, as all code outside the
scanner must. -/
def CustomRule.ByCalls (Admits : Document → Prop) (custom : CustomRule) : Prop :=
  ∀ scanner, Follows Admits scanner (custom.mayStart.after scanner) ∧
    Follows Admits scanner (custom.attempt.after scanner)

/-- The states of all sessions with a scanner of some settings: it is started on a document,
and then there are calls, tokens of any grammars, and rules tried one by one. -/
inductive Reached (Admits : Document → Prop) (settings : Settings) : Scanner Region → Prop
  | fresh (document : Document) :
    Admits document → Reached Admits settings (Scanner.fresh document settings)
  | call {scanner : Scanner Region} (call : Call Region) :
    (∀ document, call.document? = some document → Admits document) →
      Reached Admits settings scanner → Reached Admits settings (call.step.after scanner)
  | nextToken {scanner : Scanner Region} (grammar : Grammar) :
    (∀ custom ∈ grammar.customs, custom.ByCalls Admits) →
      Reached Admits settings scanner → Reached Admits settings (grammar.nextToken.after scanner)
  | attempt {scanner : Scanner Region} (grammar : Grammar) (rule : Rule) :
    (∀ custom ∈ grammar.customs, custom.ByCalls Admits) →
      Reached Admits settings scanner →
        Reached Admits settings ((grammar.attempt rule).after scanner)
  | tokenize {scanner : Scanner Region} (grammar : Grammar) :
    (∀ custom ∈ grammar.customs, custom.ByCalls Admits) →
      Reached Admits settings scanner → Reached Admits settings (grammar.tokenize.after scanner)

/-- A session goes on with any range of any document that may come in. -/
theorem Reached.withRange {Admits : Document → Prop} {settings : Settings}
    {scanner : Scanner Region} (h : Reached Admits settings scanner) {document : Document}
    (hadmits : Admits document) {offset length : Nat} (hrange : offset + length ≤ document.length) :
    Reached Admits settings (scanner.withRange document offset length) := by
  rw [← Call.assign_after hrange]
  exact h.call _ fun _ hdoc => Option.some.inj hdoc ▸ hadmits

theorem Follows.keeps {Admits : Document → Prop} {P : Scanner ρ → Prop}
    (h : KeptByCalls Admits P) {first scanner : Scanner ρ} (hfirst : P first)
    (hs : Follows Admits first scanner) : P scanner := by
  induction hs with
  | same => exact hfirst
  | call call hadmits _ ih => exact h call hadmits _ ih

/-- The rules of a host that go through the operations keep what the operations keep. -/
theorem KeptByCalls.customs {Admits : Document → Prop} {P : Scanner Region → Prop}
    (h : KeptByCalls Admits P) {grammar : Grammar}
    (hcustoms : ∀ custom ∈ grammar.customs, custom.ByCalls Admits) : grammar.CustomsKeep P :=
  fun custom hmem => ⟨fun s hs => (hcustoms custom hmem s).1.keeps h hs,
    fun s hs => (hcustoms custom hmem s).2.keeps h hs⟩

/-- What a fresh scanner has and all operations keep, every state of a session has. -/
theorem Reached.invariant {Admits : Document → Prop} {settings : Settings}
    {P : Scanner Region → Prop} {scanner : Scanner Region}
    (hfresh : ∀ document, Admits document → P (Scanner.fresh document settings))
    (h : KeptByCalls Admits P) (hs : Reached Admits settings scanner) : P scanner := by
  induction hs with
  | fresh document hadmits => exact hfresh document hadmits
  | call call hadmits _ ih => exact h call hadmits _ ih
  | nextToken grammar hby _ ih => exact h.nextToken (h.customs hby) _ ih
  | attempt grammar rule hby _ ih => exact h.inherited.attempt (h.customs hby) rule _ ih
  | tokenize grammar hby _ ih => exact h.inherited.tokenize (h.customs hby) _ ih

end RegionScan
