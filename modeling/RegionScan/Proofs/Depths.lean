-- The depth to which regions may nest and the turns that a scan of one is given are bounds and
-- nothing else: where they are enough, more of them make no difference. So a rule has one answer,
-- the one that loops without a bound come to.
import RegionScan.Tokenize

namespace RegionScan

/-! ## Steps that may run away -/

/-- The first step does as the second one wherever it does not run away. -/
def Scan.Shortens {ρ α : Type} (step whole : Scan ρ α) : Prop :=
  ∀ scanner, step scanner = whole scanner ∨
    ∃ after, step scanner = .error (.faulted .runaway) after

namespace Scan.Shortens

variable {ρ α β : Type} {step whole : Scan ρ α}

theorem refl (step : Scan ρ α) : step.Shortens step := fun _ => Or.inl rfl

theorem bind {next rest : α → Scan ρ β} (h : step.Shortens whole)
    (hnext : ∀ value, (next value).Shortens (rest value)) :
    (step >>= next).Shortens (whole >>= rest) := by
  intro scanner
  rcases h scanner with heq | ⟨after, hrunaway⟩
  · simp only [Bind.bind, EStateM.bind, heq]
    rcases whole scanner with ⟨value, middle⟩ | ⟨halt, middle⟩
    · exact hnext value middle
    · exact Or.inl rfl
  · exact Or.inr ⟨after, by simp only [Bind.bind, EStateM.bind, hrunaway]⟩

/-- Steps that begin alike. -/
theorem next {first : Scan ρ α} {next rest : α → Scan ρ β}
    (h : ∀ value, (next value).Shortens (rest value)) :
    (first >>= next).Shortens (first >>= rest) :=
  (refl first).bind h

theorem outcome (h : step.Shortens whole) : (Scan.outcome step).Shortens (Scan.outcome whole) := by
  intro scanner
  rcases h scanner with heq | ⟨after, hrunaway⟩
  · exact Or.inl (by simp only [Scan.outcome, heq])
  · exact Or.inr ⟨after, by simp only [Scan.outcome, hrunaway]⟩

theorem eq_of_ends (h : step.Shortens whole) {scanner : Scanner ρ}
    (hends : ∀ after, step scanner ≠ .error (.faulted .runaway) after) :
    step scanner = whole scanner :=
  (h scanner).resolve_right fun ⟨after, hrunaway⟩ => hends after hrunaway

end Scan.Shortens

/-! ## Loops -/

section

variable {grammar : Grammar} {attempt whole : Rule → RuleScan Token}
  (h : ∀ rule, (attempt rule).Shortens (whole rule))

include h

theorem tryRules_shortens {mayStart : Rule → RuleScan Bool} (content : Option Token) (here : Nat)
    (rules : List Rule) (pending : Nat) :
    (tryRules mayStart attempt content here rules pending).Shortens
      (tryRules mayStart whole content here rules pending) := by
  induction rules generalizing pending with
  | nil => exact .refl _
  | cons rule rest ih =>
    unfold tryRules
    apply Scan.Shortens.next
    intro starts
    split
    · exact ih pending
    · refine .next fun pending => .next fun _ => (h rule).bind fun token => .next fun scanner => ?_
      split
      · exact .next fun _ => ih pending
      · exact .refl _

theorem scanRegion_shortens (region : Region) {turns more : Nat} (hle : turns ≤ more)
    (pending : Nat) :
    (scanRegion grammar attempt region turns pending).Shortens
      (scanRegion grammar whole region more pending) := by
  induction turns generalizing more pending with
  | zero => exact fun scanner => Or.inr ⟨scanner, rfl⟩
  | succ turns ih =>
    obtain ⟨more, rfl⟩ := Nat.exists_eq_succ_of_ne_zero (Nat.ne_of_gt (Nat.zero_lt_of_lt hle))
    have ih := ih (Nat.le_of_succ_le_succ hle)
    unfold scanRegion
    refine .next fun scanner => .next fun own => ?_
    rcases own with _ | length
    · apply Scan.Shortens.next
      intro outer
      rcases outer with _ | ⟨outer, length⟩
      · refine (tryRules_shortens h _ _ _ _).bind fun ⟨claimed, pending⟩ => ?_
        dsimp only
        split
        · apply Scan.Shortens.next
          intro tried
          rcases tried.parked with _ | waiting
          · exact .next fun _ => ih _
          · exact .refl _
        · apply Scan.Shortens.next
          intro char
          rcases char with _ | c
          · exact .refl _
          · exact ih pending
      · exact .refl _
    · exact .refl _

theorem scanBlock_shortens (region : Region) {turns more : Nat} (hle : turns ≤ more)
    (pending : Nat) :
    (scanBlock grammar attempt region turns pending).Shortens
      (scanBlock grammar whole region more pending) := by
  induction turns generalizing more pending with
  | zero => exact fun scanner => Or.inr ⟨scanner, rfl⟩
  | succ turns ih =>
    obtain ⟨more, rfl⟩ := Nat.exists_eq_succ_of_ne_zero (Nat.ne_of_gt (Nat.zero_lt_of_lt hle))
    have ih := ih (Nat.le_of_succ_le_succ hle)
    unfold scanBlock
    apply Scan.Shortens.next
    intro scanner
    refine (tryRules_shortens h _ _ _ _).bind fun ⟨claimed, pending⟩ => ?_
    dsimp only
    split
    · exact .next fun _ => ih _
    · apply Scan.Shortens.next
      intro char
      rcases char with _ | c
      · exact .refl _
      · exact ih pending

omit h in
theorem findBlockEnd_shortens (region : Region) {turns more : Nat} (hle : turns ≤ more) :
    (findBlockEnd region turns).Shortens (findBlockEnd region more) := by
  induction turns generalizing more with
  | zero => exact fun scanner => Or.inr ⟨scanner, rfl⟩
  | succ turns ih =>
    obtain ⟨more, rfl⟩ := Nat.exists_eq_succ_of_ne_zero (Nat.ne_of_gt (Nat.zero_lt_of_lt hle))
    unfold findBlockEnd
    refine .next fun scanner => .next fun own => ?_
    rcases own with _ | length
    · apply Scan.Shortens.next
      intro char
      rcases char with _ | c
      · exact .refl _
      · exact ih (Nat.le_of_succ_le_succ hle)
    · exact .refl _

/-! ## Rules and tokens -/

variable {turns more : Turns}

theorem attemptRegion_shortens (hturns : ∀ scanner, turns scanner ≤ more scanner)
    (region : Region) :
    (attemptRegion grammar turns attempt region).Shortens
      (attemptRegion grammar more whole region) := by
  unfold attemptRegion
  refine .next fun scanner => .next fun found => ?_
  rcases found with _ | length
  · exact .refl _
  · refine .next fun _ => .next fun start => .next fun _ => .next fun _ => ?_
    exact (Scan.Shortens.outcome (.next fun inner =>
      scanRegion_shortens h region (hturns inner) start)).bind fun scanned => .refl _

theorem attemptBlock_shortens (hturns : ∀ scanner, turns scanner ≤ more scanner)
    (region : Region) :
    (attemptBlock grammar turns attempt region).Shortens
      (attemptBlock grammar more whole region) := by
  unfold attemptBlock
  refine .next fun scanner => .next fun found => ?_
  rcases found with _ | length
  · exact .refl _
  · refine .next fun start => .next fun _ => .next fun first => ?_
    refine (findBlockEnd_shortens region (hturns first)).bind fun found => ?_
    refine .next fun _ => .next fun _ => .next fun _ => .next fun _ => .next fun _ =>
      .next fun _ => ?_
    exact (Scan.Shortens.outcome (.next fun inner =>
      scanBlock_shortens h region (hturns inner) start)).bind fun scanned => .refl _

theorem nextTokenBy_shortens :
    (grammar.nextTokenBy attempt).Shortens (grammar.nextTokenBy whole) := by
  unfold Grammar.nextTokenBy
  apply Scan.Shortens.next
  intro queued
  split
  · exact .refl _
  · exact .next fun _ => .next fun scanner => (tryRules_shortens h _ _ _ _).bind fun _ => .refl _

end

/-- With more turns and at a greater depth a rule does as before, where it does not run away. -/
theorem attemptWithin_shortens {grammar : Grammar} {turns more : Turns}
    (hturns : ∀ scanner, turns scanner ≤ more scanner) {depth deeper : Nat} (hle : depth ≤ deeper)
    (rule : Rule) :
    (grammar.attemptWithin turns depth rule).Shortens (grammar.attemptWithin more deeper rule) := by
  induction depth generalizing deeper rule with
  | zero => exact fun scanner => Or.inr ⟨scanner, rfl⟩
  | succ depth ih =>
    obtain ⟨deeper, rfl⟩ := Nat.exists_eq_succ_of_ne_zero (Nat.ne_of_gt (Nat.zero_lt_of_lt hle))
    have ih := ih (Nat.le_of_succ_le_succ hle)
    unfold Grammar.attemptWithin
    rcases rule with ⟨pattern, token⟩ | id | index
    · exact .refl _
    · dsimp only
      rcases grammar.regions[id]? with _ | region
      · exact .refl _
      · dsimp only
        split
        · exact attemptBlock_shortens ih hturns region
        · exact attemptRegion_shortens ih hturns region
    · exact .refl _

theorem attempt_eq (grammar : Grammar) (rule : Rule) (scanner : Scanner Region) :
    grammar.attempt rule scanner =
      grammar.attemptWithin turnsLeft (turnsLeft scanner) rule scanner := rfl

/-! ## One answer -/

section

variable {grammar : Grammar} {turns more : Turns} {depth deeper : Nat} {scanner : Scanner Region}

/-- Whatever turns and whatever depth rules are given twice, some turns and some depth are enough
for both. -/
theorem attemptWithin_joined (grammar : Grammar) (turns more : Turns) (depth deeper : Nat) :
    ∃ whole : Rule → RuleScan Token,
      (∀ rule, (grammar.attemptWithin turns depth rule).Shortens (whole rule)) ∧
        ∀ rule, (grammar.attemptWithin more deeper rule).Shortens (whole rule) :=
  ⟨grammar.attemptWithin (fun scanner => max (turns scanner) (more scanner)) (max depth deeper),
    attemptWithin_shortens (fun _ => Nat.le_max_left _ _) (Nat.le_max_left _ _),
    attemptWithin_shortens (fun _ => Nat.le_max_right _ _) (Nat.le_max_right _ _)⟩

/-- Whatever turns and whatever depth it is given, a rule that does not run away does the same. -/
theorem attemptWithin_agrees {rule : Rule}
    (hends : ∀ after, grammar.attemptWithin turns depth rule scanner ≠
      .error (.faulted .runaway) after)
    (hmore : ∀ after, grammar.attemptWithin more deeper rule scanner ≠
      .error (.faulted .runaway) after) :
    grammar.attemptWithin turns depth rule scanner =
      grammar.attemptWithin more deeper rule scanner := by
  obtain ⟨whole, hfirst, hsecond⟩ := attemptWithin_joined grammar turns more depth deeper
  exact ((hfirst rule).eq_of_ends hends).trans ((hsecond rule).eq_of_ends hmore).symm

/-- And so is the next token the same, where nothing runs away while it is sought. -/
theorem nextTokenBy_agrees
    (hends : ∀ after, grammar.nextTokenBy (grammar.attemptWithin turns depth) scanner ≠
      .error (.faulted .runaway) after)
    (hmore : ∀ after, grammar.nextTokenBy (grammar.attemptWithin more deeper) scanner ≠
      .error (.faulted .runaway) after) :
    grammar.nextTokenBy (grammar.attemptWithin turns depth) scanner =
      grammar.nextTokenBy (grammar.attemptWithin more deeper) scanner := by
  obtain ⟨whole, hfirst, hsecond⟩ := attemptWithin_joined grammar turns more depth deeper
  exact ((nextTokenBy_shortens hfirst).eq_of_ends hends).trans
    ((nextTokenBy_shortens hsecond).eq_of_ends hmore).symm

end

end RegionScan
