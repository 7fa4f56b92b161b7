-- Two runs of one step, side by side. From states that are alike the step comes to the same
-- in both: it gives the same, or stops short for the same reason, and leaves states behind
-- that are alike again. What is alike is said by a relation.
import RegionScan.Proofs.Calls

namespace RegionScan

/-! ## Outcomes -/

variable {α β : Type} {alike : Scanner Region → Scanner Region → Prop}

/-- Two outcomes are the same, but for states that are alike. -/
inductive SameOutcome (alike : Scanner Region → Scanner Region → Prop) :
    EStateM.Result Halt (Scanner Region) α → EStateM.Result Halt (Scanner Region) α → Prop
  | ok (value : α) {after other : Scanner Region} :
    alike after other → SameOutcome alike (.ok value after) (.ok value other)
  | error (halt : Halt) {after other : Scanner Region} :
    alike after other → SameOutcome alike (.error halt after) (.error halt other)

/-- From states that are alike the step comes to the same. -/
def Scan.Uniform (alike : Scanner Region → Scanner Region → Prop) (step : RuleScan α) : Prop :=
  ∀ scanner other, alike scanner other → SameOutcome alike (step scanner) (step other)

namespace SameOutcome

variable {step : RuleScan α} {scanner other : Scanner Region}

theorem result_eq (h : SameOutcome alike (step scanner) (step other)) :
    step.result scanner = step.result other := by
  unfold Scan.result
  generalize step scanner = result at h ⊢
  generalize step other = result' at h ⊢
  cases h <;> rfl

theorem after (h : SameOutcome alike (step scanner) (step other)) :
    alike (step.after scanner) (step.after other) := by
  unfold Scan.after
  generalize step scanner = result at h ⊢
  generalize step other = result' at h ⊢
  cases h <;> assumption

end SameOutcome

/-! ## Steps in a row -/

namespace Scan.Uniform

variable {step : RuleScan α} {next : α → RuleScan β}

theorem pure (value : α) : Uniform alike (Pure.pure value : RuleScan α) := fun _ _ h => .ok value h

theorem fail (error : ScanError) : Uniform alike (Scan.fail error : RuleScan α) :=
  fun _ _ h => .error _ h

theorem fault (fault : Fault) : Uniform alike (Scan.fault fault : RuleScan α) :=
  fun _ _ h => .error _ h

theorem bind (hstep : Uniform alike step) (hnext : ∀ value, Uniform alike (next value)) :
    Uniform alike (step >>= next) := by
  intro scanner other h
  have hmid := hstep scanner other h
  simp only [Bind.bind, EStateM.bind]
  generalize step scanner = result at hmid ⊢
  generalize step other = result' at hmid ⊢
  cases hmid with
  | ok value h => exact hnext value _ _ h
  | error halt h => exact .error halt h

/-- What the relation keeps the same may be looked at. -/
theorem look {next : Scanner Region → RuleScan β}
    (hsame : ∀ scanner other, alike scanner other → next scanner = next other)
    (hnext : ∀ scanner, Uniform alike (next scanner)) : Uniform alike (get >>= next) := by
  intro scanner other h
  rw [get_bind, get_bind, hsame scanner other h]
  exact hnext other scanner other h

theorem outcome (hstep : Uniform alike step) : Uniform alike (Scan.outcome step) := by
  intro scanner other h
  have hmid := hstep scanner other h
  unfold Scan.outcome
  generalize step scanner = result at hmid ⊢
  generalize step other = result' at hmid ⊢
  cases hmid with
  | ok value h => exact .ok _ h
  | error halt h =>
    rcases halt with error | fault
    · exact .ok _ h
    · exact .error _ h

theorem changed {change : Scanner Region → Scanner Region}
    (h : ∀ scanner other, alike scanner other → alike (change scanner) (change other)) :
    Uniform alike (modify change : RuleScan Unit) := fun scanner other halike =>
  .ok () (h scanner other halike)

end Scan.Uniform

end RegionScan
