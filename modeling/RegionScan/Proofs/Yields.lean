-- Steps that return. What holds of that which a step gives, as a value or as an error, and of the
-- state behind it, is put together from what holds of its parts.
import RegionScan.Scanner.Basic

namespace RegionScan

/-! ## Ways out of a step -/

/-- If the step comes through, `post` holds of its value and of the state behind it, and if it
stops short, `stops` holds of the reason and of the state that is left. -/
def Scan.Meets {ρ α : Type} (step : Scan ρ α) (scanner : Scanner ρ)
    (post : α → Scanner ρ → Prop) (stops : Halt → Scanner ρ → Prop) : Prop :=
  match step scanner with
  | .ok value after => post value after
  | .error halt after => stops halt after

namespace Scan

variable {ρ α β : Type} {scanner : Scanner ρ} {step : Scan ρ α} {next : α → Scan ρ β}

/-- An error is looked at like a value, a fault on its own. -/
def Caught (post : Except ScanError α → Scanner ρ → Prop) (faults : Fault → Scanner ρ → Prop) :
    Halt → Scanner ρ → Prop
  | .failed error => post (.error error)
  | .faulted fault => faults fault

namespace Meets

variable {post : β → Scanner ρ → Prop} {stops : Halt → Scanner ρ → Prop}

theorem of_ok {post : α → Scanner ρ → Prop} {value : α} {after : Scanner ρ}
    (hstep : step scanner = .ok value after) (h : post value after) :
    step.Meets scanner post stops := by
  rw [Meets, hstep]
  exact h

theorem of_error {post : α → Scanner ρ → Prop} {halt : Halt} {after : Scanner ρ}
    (hstep : step scanner = .error halt after) (h : stops halt after) :
    step.Meets scanner post stops := by
  rw [Meets, hstep]
  exact h

theorem bind
    (h : step.Meets scanner (fun value after => (next value).Meets after post stops) stops) :
    (step >>= next).Meets scanner post stops := by
  unfold Meets at h ⊢
  simp only [Bind.bind, EStateM.bind]
  rcases hstep : step scanner with ⟨value, middle⟩ | ⟨halt, middle⟩ <;> rw [hstep] at h <;> exact h

theorem mono {post post' : α → Scanner ρ → Prop} {stops' : Halt → Scanner ρ → Prop}
    (h : step.Meets scanner post stops)
    (hpost : ∀ value after, post value after → post' value after)
    (hstops : ∀ halt after, stops halt after → stops' halt after) :
    step.Meets scanner post' stops' := by
  unfold Meets at h ⊢
  rcases hstep : step scanner with ⟨value, after⟩ | ⟨halt, after⟩ <;> rw [hstep] at h
  · exact hpost value after h
  · exact hstops halt after h

/-- The reasons to stop short stay as they are. -/
theorem weaken {post post' : α → Scanner ρ → Prop} (h : step.Meets scanner post stops)
    (hpost : ∀ value after, post value after → post' value after) :
    step.Meets scanner post' stops :=
  h.mono hpost fun _ _ hstops => hstops

theorem pure {value : β} (h : post value scanner) :
    (Pure.pure value : Scan ρ β).Meets scanner post stops := h

theorem get {next : Scanner ρ → Scan ρ β} (h : (next scanner).Meets scanner post stops) :
    (MonadState.get >>= next).Meets scanner post stops := bind (of_ok rfl h)

theorem changed {change : Scanner ρ → Scanner ρ} {post : Unit → Scanner ρ → Prop}
    (h : post () (change scanner)) : (modify change : Scan ρ Unit).Meets scanner post stops :=
  of_ok rfl h

theorem sum {offset length : Nat} {post : Nat → Scanner ρ → Prop}
    (hover : stops (.faulted .offsetOverflow) scanner)
    (h : offset + length ≤ maxOffset → post (offset + length) scanner) :
    (Scan.sum offset length : Scan ρ Nat).Meets scanner post stops := by
  unfold Scan.sum
  split
  · exact pure (h ‹_›)
  · exact of_error rfl hover

theorem difference {stop start : Nat} {post : Nat → Scanner ρ → Prop}
    (hunder : stops (.faulted .negativeLength) scanner)
    (h : start ≤ stop → post (stop - start) scanner) :
    (Scan.difference stop start : Scan ρ Nat).Meets scanner post stops := by
  unfold Scan.difference
  split
  · exact pure (h ‹_›)
  · exact of_error rfl hunder

/-- An error becomes a value. -/
theorem outcome {post : Except ScanError α → Scanner ρ → Prop}
    (h : step.Meets scanner (fun value => post (.ok value))
      (Caught post fun fault => stops (.faulted fault))) :
    (Scan.outcome step).Meets scanner post stops := by
  unfold Meets at h ⊢
  unfold Scan.outcome
  rcases hstep : step scanner with ⟨value, after⟩ | ⟨error | fault, after⟩ <;> rw [hstep] at h <;>
    exact h

end Meets

/-! ## Steps that return -/

/-- If the step returns, with a value or with an error, then `post` holds of what it returns and
of the state it leaves behind. A step that meets a fault does not return. -/
def Yields (step : Scan ρ α) (scanner : Scanner ρ)
    (post : Except ScanError α → Scanner ρ → Prop) : Prop :=
  step.Meets scanner (fun value => post (.ok value)) (Caught post fun _ _ => True)

theorem Yields.of_ok {post : Except ScanError α → Scanner ρ → Prop} {value : α}
    {after : Scanner ρ} (h : step scanner = .ok value after) (hpost : post (.ok value) after) :
    step.Yields scanner post :=
  Meets.of_ok h hpost

theorem Yields.of_fault {post : Except ScanError α → Scanner ρ → Prop} {fault : Fault}
    {after : Scanner ρ} (h : step scanner = .error (.faulted fault) after) :
    step.Yields scanner post :=
  Meets.of_error h trivial

theorem Yields.of_failed {post : Except ScanError α → Scanner ρ → Prop} {error : ScanError}
    {after : Scanner ρ} (h : step scanner = .error (.failed error) after)
    (hpost : post (.error error) after) : step.Yields scanner post :=
  Meets.of_error h hpost

theorem Yields.ok {post : Except ScanError α → Scanner ρ → Prop} {value : α} {after : Scanner ρ}
    (h : step.Yields scanner post) (hstep : step scanner = .ok value after) :
    post (.ok value) after := by
  rwa [Yields, Meets, hstep] at h

theorem Yields.failed {post : Except ScanError α → Scanner ρ → Prop} {error : ScanError}
    {after : Scanner ρ} (h : step.Yields scanner post)
    (hstep : step scanner = .error (.failed error) after) : post (.error error) after := by
  rwa [Yields, Meets, hstep] at h

theorem Yields.of_eq {other : Scan ρ α} {middle : Scanner ρ}
    {post : Except ScanError α → Scanner ρ → Prop} (heq : step scanner = other middle)
    (h : other.Yields middle post) : step.Yields scanner post := by
  unfold Yields Meets at h ⊢
  rwa [heq]

/-- An error of the first of two steps is one of both. -/
theorem Yields.bind {post : Except ScanError β → Scanner ρ → Prop}
    (h : step.Yields scanner fun result after =>
      match result with
      | .ok value => (next value).Yields after post
      | .error error => post (.error error) after) : (step >>= next).Yields scanner post := by
  refine Meets.bind (Meets.mono h (fun _ _ hnext => hnext) fun halt after hstops => ?_)
  cases halt <;> exact hstops

theorem Yields.mono {post post' : Except ScanError α → Scanner ρ → Prop}
    (h : step.Yields scanner post) (himp : ∀ result after, post result after → post' result after) :
    step.Yields scanner post' := by
  refine Meets.mono h (fun value after hpost => himp _ after hpost) fun halt after hstops => ?_
  rcases halt with error | fault
  · exact himp _ after hstops
  · trivial

/-- An error becomes a value. -/
theorem Yields.outcome {post : Except ScanError (Except ScanError α) → Scanner ρ → Prop}
    (h : step.Yields scanner fun result after => post (.ok result) after) :
    (Scan.outcome step).Yields scanner post :=
  Meets.outcome h

/-! ## Values and errors -/

/-- What a step comes to, as a value or as an error, with the state behind it. -/
def Ending (post : α → Scanner ρ → Prop) (bad : ScanError → Scanner ρ → Prop) :
    Except ScanError α → Scanner ρ → Prop
  | .ok value => post value
  | .error error => bad error

/-- If the step gives a value, then `post` holds, and if it fails, then `bad` holds. -/
def Ensures (step : Scan ρ α) (scanner : Scanner ρ) (post : α → Scanner ρ → Prop)
    (bad : ScanError → Scanner ρ → Prop) : Prop :=
  step.Yields scanner (Ending post bad)

namespace Ensures

variable {post : β → Scanner ρ → Prop} {bad : ScanError → Scanner ρ → Prop}

theorem bind
    (h : step.Ensures scanner (fun value after => (next value).Ensures after post bad) bad) :
    (step >>= next).Ensures scanner post bad := by
  apply Yields.bind
  apply Yields.mono h
  intro result after hafter
  cases result <;> exact hafter

theorem mono {post post' : α → Scanner ρ → Prop} {bad' : ScanError → Scanner ρ → Prop}
    (h : step.Ensures scanner post bad)
    (hpost : ∀ value after, post value after → post' value after)
    (hbad : ∀ error after, bad error after → bad' error after) :
    step.Ensures scanner post' bad' := by
  apply Yields.mono h
  intro result after hafter
  cases result with
  | ok value => exact hpost value after hafter
  | error error => exact hbad error after hafter

/-- The errors stay as they are. -/
theorem weaken {post post' : α → Scanner ρ → Prop} (h : step.Ensures scanner post bad)
    (hpost : ∀ value after, post value after → post' value after) :
    step.Ensures scanner post' bad :=
  h.mono hpost fun _ _ hbad => hbad

theorem of_ok {post : α → Scanner ρ → Prop} {value : α} {after : Scanner ρ}
    (hstep : step scanner = .ok value after) (h : post value after) :
    step.Ensures scanner post bad :=
  Yields.of_ok hstep h

theorem of_fault {post : α → Scanner ρ → Prop} {fault : Fault} {after : Scanner ρ}
    (hstep : step scanner = .error (.faulted fault) after) : step.Ensures scanner post bad :=
  Yields.of_fault hstep

theorem of_eq {other : Scan ρ α} {middle : Scanner ρ} {post : α → Scanner ρ → Prop}
    (heq : step scanner = other middle) (h : other.Ensures middle post bad) :
    step.Ensures scanner post bad :=
  Yields.of_eq heq h

theorem pure {value : β} (h : post value scanner) :
    (Pure.pure value : Scan ρ β).Ensures scanner post bad := h

theorem fault (fault : Fault) : (Scan.fault fault : Scan ρ β).Ensures scanner post bad :=
  of_fault rfl

theorem fail {error : ScanError} (h : bad error scanner) :
    (Scan.fail error : Scan ρ β).Ensures scanner post bad := h

theorem get {next : Scanner ρ → Scan ρ β} (h : (next scanner).Ensures scanner post bad) :
    (MonadState.get >>= next).Ensures scanner post bad := bind (of_ok rfl h)

theorem changed {change : Scanner ρ → Scanner ρ} {post : Unit → Scanner ρ → Prop}
    (h : post () (change scanner)) : (modify change : Scan ρ Unit).Ensures scanner post bad :=
  of_ok rfl h

theorem sum {offset length : Nat} {post : Nat → Scanner ρ → Prop}
    (h : post (offset + length) scanner) :
    (Scan.sum offset length : Scan ρ Nat).Ensures scanner post bad :=
  Meets.sum trivial fun _ => h

theorem difference {stop start : Nat} {post : Nat → Scanner ρ → Prop}
    (h : start ≤ stop → post (stop - start) scanner) :
    (Scan.difference stop start : Scan ρ Nat).Ensures scanner post bad :=
  Meets.difference trivial h

/-- Errors become values. -/
theorem outcome {post : α → Scanner ρ → Prop} (h : step.Ensures scanner post bad)
    (other : ScanError → Scanner ρ → Prop) :
    (Scan.outcome step).Ensures scanner (Ending post bad) other :=
  Yields.outcome h

/-- An error is that of the step. -/
theorem failing {post : α → Scanner ρ → Prop} (h : step.Ensures scanner post bad) :
    step.Ensures scanner post fun error after =>
      bad error after ∧ step scanner = .error (.failed error) after := by
  unfold Ensures Yields Meets at h ⊢
  rcases hstep : step scanner with ⟨value, after⟩ | ⟨error | fault, after⟩ <;> rw [hstep] at h
  · exact h
  · exact ⟨h, rfl⟩
  · trivial

end Ensures

/-! ## Steps from state to state -/

/-- Whenever the step returns, with a value or with an error, the state behind it is related to the
one before. -/
def Passes (R : Scanner ρ → Scanner ρ → Prop) (step : Scan ρ α) : Prop :=
  ∀ scanner, step.Yields scanner fun _ after => R scanner after

namespace Passes

variable {R : Scanner ρ → Scanner ρ → Prop}

theorem changed {change : Scanner ρ → Scanner ρ} (h : ∀ scanner, R scanner (change scanner)) :
    Passes R (modify change : Scan ρ Unit) := h

theorem bind (htrans : ∀ first middle last, R first middle → R middle last → R first last)
    (hstep : Passes R step) (hnext : ∀ value, Passes R (next value)) :
    Passes R (step >>= next) := by
  intro scanner
  apply Yields.bind
  apply (hstep scanner).mono
  intro result middle hmiddle
  rcases result with error | value
  · exact hmiddle
  · exact (hnext value middle).mono fun _ after hafter => htrans _ _ after hmiddle hafter

theorem get {next : Scanner ρ → Scan ρ β} (hnext : ∀ scanner, Passes R (next scanner)) :
    Passes R (MonadState.get >>= next) :=
  fun scanner => Yields.bind (Yields.of_ok rfl (hnext scanner scanner))

theorem outcome (h : Passes R step) : Passes R (Scan.outcome step) :=
  fun scanner => Yields.outcome ((h scanner).mono fun _ _ hafter => hafter)

end Passes

end Scan

end RegionScan
