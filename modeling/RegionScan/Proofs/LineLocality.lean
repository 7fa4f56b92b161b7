-- Scanning is local to lines, from the left. Two texts that are the same up to the
-- start of a line are labelled the same up to there, whatever comes behind it: no
-- match reaches over the end of a line, and an end that is sought far ahead says no
-- more than that it is not here yet.
import RegionScan.Proofs.Pushdown
import RegionScan.Proofs.Holes
import RegionScan.Proofs.Edits

namespace RegionScan

/-! ## Lines before an edge -/

theorem laterStarts_cons (c : Char) (rest : Text) (here : Nat) :
    laterStarts here (c :: rest) =
      (if endsLine c rest.head? then [here + 1] else []) ++ laterStarts (here + 1) rest := by
  rw [laterStarts]
  split <;> rfl

/-- The starts of the lines in the first part of a text stay where they are if a line ends with
the part. -/
theorem laterStarts_append {part rest : Text} {here : Nat}
    (h : part = [] ∨ here + part.length ∈ laterStarts here (part ++ rest)) :
    laterStarts here (part ++ rest) =
      laterStarts here part ++ laterStarts (here + part.length) rest := by
  induction part generalizing here with
  | nil => simp [laterStarts]
  | cons c part ih =>
    have hmem := h.resolve_left (by simp)
    rw [List.cons_append, laterStarts_cons, List.length_cons] at hmem
    rw [List.cons_append, laterStarts_cons, laterStarts_cons, List.length_cons,
      show here + (part.length + 1) = here + 1 + part.length by omega]
    rcases part with _ | ⟨d, part⟩
    · -- The last character of the part is one that ends a line.
      have hends : endsLine c rest.head? = true := by
        by_cases hends : endsLine c rest.head? = true
        · exact hends
        · have hlater : here + 1 ∈ laterStarts (here + 1) rest := by simpa [hends] using hmem
          have := (laterStarts_mem hlater).1
          omega
      have hlast : endsLine c none = true := by
        rcases endsLine_char hends with rfl | rfl <;> rfl
      simp [laterStarts, hends, hlast]
    · have htail : here + 1 + (d :: part).length ∈ laterStarts (here + 1) (d :: part ++ rest) := by
        rcases List.mem_append.mp hmem with hfirst | hlater
        · split at hfirst <;> simp at hfirst
        · rwa [show here + ((d :: part).length + 1) = here + 1 + (d :: part).length by omega]
            at hlater
      rw [ih (Or.inr htail), List.append_assoc]
      rfl

theorem lineStarts_append {part rest : Text} (h : part.length ∈ lineStarts (part ++ rest)) :
    lineStarts (part ++ rest) = lineStarts part ++ laterStarts part.length rest := by
  have hedge : part = [] ∨ 0 + part.length ∈ laterStarts 0 (part ++ rest) := by
    rcases List.mem_cons.mp h with hzero | hmem
    · exact Or.inl (List.length_eq_zero_iff.mp hzero)
    · exact Or.inr (by rwa [Nat.zero_add])
  rw [lineStarts, laterStarts_append hedge, Nat.zero_add]
  rfl

/-- A line in the first part of a text is the same whatever comes behind the part. -/
theorem lineAt_append {part rest : Text} {offset : Nat}
    (h : part.length ∈ lineStarts (part ++ rest)) (hlt : offset < part.length) :
    lineAt (part ++ rest) offset = lineAt part offset := by
  have hstarts := lineStarts_append h
  have hedge : part.length ∈ lineStarts part := by
    rw [hstarts] at h
    rcases List.mem_append.mp h with h | h
    · exact h
    · have := (laterStarts_mem h).1
      omega
  obtain ⟨start, hstart, hle, hnext⟩ := lineAmong_spec part offset
  generalize hnumber : lineAmong (lineStarts part) offset = number at hstart hnext
  -- The line after it starts in the part as well, at its end or before it.
  obtain ⟨next, hnext', hbound⟩ : ∃ next, (lineStarts part)[number + 1]? = some next ∧
      next ≤ part.length := by
    obtain ⟨last, hlast⟩ := List.getElem?_of_mem hedge
    have hlater : number < last := by
      rcases Nat.lt_trichotomy number last with hlt' | heq | hgt
      · exact hlt'
      · rw [heq, hlast, Option.some.injEq] at hstart
        omega
      · have := sorted_getElem?_lt (lineStarts_sorted part) hgt hlast hstart
        omega
    have hin : number + 1 < (lineStarts part).length := by
      have := (List.getElem?_eq_some_iff.mp hlast).1
      omega
    exact ⟨_, List.getElem?_eq_getElem hin, lineStarts_le (List.getElem_mem hin)⟩
  have hkept : ∀ {i s : Nat}, (lineStarts part)[i]? = some s →
      (lineStarts (part ++ rest))[i]? = some s := by
    intro i s hs
    rw [hstarts, List.getElem?_append_left (List.getElem?_eq_some_iff.mp hs).1, hs]
  have hsame : lineAmong (lineStarts (part ++ rest)) offset = number := by
    refine lineAmong_eq (hkept hstart) hle fun other hother => ?_
    rw [hkept hnext', Option.some.injEq] at hother
    exact hother ▸ hnext next hnext'
  have hchars : stretch (part ++ rest) start (next - start) =
      stretch part start (next - start) := by
    unfold stretch
    rw [List.drop_append_of_le_length (by omega),
      List.take_append_of_le_length (by rw [List.length_drop]; omega)]
  simp only [lineAt, lineBetween, hnumber, hsame, hstart, hnext', hkept hstart, hkept hnext',
    List.getD_eq_getElem?_getD]
  simp only [Option.map_some, hchars]

/-- The end of a block is sought forward. -/
theorem Pattern.le_blockEnd (pattern : Pattern) (text : Text) (stop left here : Nat) :
    here ≤ (pattern.blockEnd text stop left here).1 := by
  induction left generalizing here with
  | zero => exact Nat.le_refl _
  | succ left ih =>
    unfold Pattern.blockEnd
    split
    · exact Nat.le_refl _
    · exact Nat.le_of_succ_le (ih (here + 1))

/-- Two texts are the same up to an offset at which both start a line. -/
structure AgreeBefore (text other : Text) (edge : Nat) : Prop where
  take_eq : text.take edge = other.take edge
  starts : edge ∈ lineStarts text
  starts' : edge ∈ lineStarts other

namespace AgreeBefore

variable {text other : Text} {edge here stop stop' : Nat}

theorem lineAt_eq (h : AgreeBefore text other edge) (hlt : here < edge) :
    lineAt text here = lineAt other here := by
  have hpart : ∀ {whole : Text}, edge ∈ lineStarts whole →
      lineAt whole here = lineAt (whole.take edge) here := by
    intro whole hstart
    have hlength : (whole.take edge).length = edge := by
      rw [List.length_take, Nat.min_eq_left (lineStarts_le hstart)]
    have happend : lineAt (whole.take edge ++ whole.drop edge) here =
        lineAt (whole.take edge) here :=
      lineAt_append (by rwa [List.take_append_drop, hlength]) (by rwa [hlength])
    rwa [List.take_append_drop] at happend
  rw [hpart h.starts, hpart h.starts', h.take_eq]

/-! ## Matches before an edge -/

/-- Two ranges end in the same place, or both of them at the edge or behind it. -/
def Ends (edge stop stop' : Nat) : Prop := stop = stop' ∨ edge ≤ stop ∧ edge ≤ stop'

theorem lengthIn?_eq (h : AgreeBefore text other edge) (pattern : Pattern) (hlt : here < edge) :
    pattern.lengthIn? text here = pattern.lengthIn? other here := by
  unfold Pattern.lengthIn?
  rw [h.lineAt_eq hlt]

theorem hit?_eq (h : AgreeBefore text other edge) (pattern : Pattern) (hlt : here < edge)
    (hends : Ends edge stop stop') :
    pattern.hit? text here stop = pattern.hit? other here stop' := by
  unfold Pattern.hit?
  rw [← h.lengthIn?_eq pattern hlt]
  rcases hends with rfl | ⟨hle, hle'⟩
  · rfl
  · rcases hlength : pattern.lengthIn? text here with _ | length
    · rfl
    · -- A match ends with its line, so before the edge or at it.
      have := Pattern.lengthIn?_le_break hlength (Or.inl h.starts) hlt
      rw [Option.filter_some, Option.filter_some,
        if_pos (decide_eq_true (show here + length ≤ stop by omega)),
        if_pos (decide_eq_true (show here + length ≤ stop' by omega))]

theorem claim?_eq (h : AgreeBefore text other edge) (pattern : Pattern) (hlt : here < edge)
    (hends : Ends edge stop stop') :
    pattern.claim? text here stop = pattern.claim? other here stop' := by
  unfold Pattern.claim?
  rw [h.hit?_eq pattern hlt hends]

theorem closing?_eq (h : AgreeBefore text other edge) (hlt : here < edge)
    (hends : Ends edge stop stop') (regions : List Region) :
    closing? text here stop regions = closing? other here stop' regions := by
  induction regions with
  | nil => rfl
  | cons region outer ih => simp only [closing?, h.hit?_eq region.endPattern hlt hends, ih]

theorem move?_eq (h : AgreeBefore text other edge) (grammar : Grammar) (hlt : here < edge)
    (hends : Ends edge stop stop') (rules : List Rule) :
    grammar.move? text here stop rules = grammar.move? other here stop' rules := by
  have hrule : grammar.moveOf? text here stop = grammar.moveOf? other here stop' := by
    funext rule
    cases rule <;> simp only [Grammar.moveOf?, h.claim?_eq _ hlt hends]
  rw [Grammar.move?, hrule, Grammar.move?]

/-- The end of a block is in the same place in both texts, or in both it is not before the
edge. -/
theorem blockEnd_eq (h : AgreeBefore text other edge) (pattern : Pattern)
    (hends : Ends edge stop stop') (hstop : here ≤ stop) (hstop' : here ≤ stop') :
    pattern.blockEnd text stop (stop - here) here =
        pattern.blockEnd other stop' (stop' - here) here ∨
      edge ≤ (pattern.blockEnd text stop (stop - here) here).1 ∧
        edge ≤ (pattern.blockEnd other stop' (stop' - here) here).1 := by
  induction hleft : stop - here generalizing here with
  | zero =>
    by_cases hlt : here < edge
    · -- The range ends here, before the edge, so it is the same range.
      obtain rfl : stop = stop' := by
        rcases hends with heq | ⟨hle, _⟩
        · exact heq
        · omega
      left
      simp only [hleft, Pattern.blockEnd, h.hit?_eq pattern hlt hends]
    · exact Or.inr ⟨Nat.le_of_not_lt hlt,
        Nat.le_trans (Nat.le_of_not_lt hlt) (Pattern.le_blockEnd _ _ _ _ _)⟩
  | succ left ih =>
    by_cases hlt : here < edge
    · obtain ⟨left', hleft'⟩ : ∃ left', stop' - here = left' + 1 := by
        refine ⟨stop' - here - 1, ?_⟩
        rcases hends with heq | ⟨_, hle⟩ <;> omega
      rw [hleft']
      simp only [Pattern.blockEnd, h.hit?_eq pattern hlt hends]
      rcases pattern.hit? other here stop' with _ | length
      · have hrest := @ih (here + 1) (by omega) (by omega) (by omega)
        rwa [show stop' - (here + 1) = left' by omega] at hrest
      · exact Or.inl rfl
    · exact Or.inr ⟨Nat.le_trans (Nat.le_of_not_lt hlt) (Pattern.le_blockEnd _ _ _ _ _),
        Nat.le_trans (Nat.le_of_not_lt hlt) (Pattern.le_blockEnd _ _ _ _ _)⟩

end AgreeBefore

/-! ## The machine before an edge -/

/-- A region is entered where its begin pattern claims text. -/
theorem Grammar.claim?_of_move? {grammar : Grammar} {text : Text} {here stop : Nat}
    {rules : List Rule} {region : Region} {length : Nat}
    (h : grammar.move? text here stop rules = some (.enter region length)) :
    region.beginPattern.claim? text here stop = some length := by
  obtain ⟨rule, _, hrule⟩ := List.exists_of_findSome?_eq_some h
  cases rule with
  | pattern pattern token =>
    simp only [Grammar.moveOf?] at hrule
    split at hrule
    · cases hrule
    · obtain ⟨found, _, hfound⟩ := Option.map_eq_some_iff.mp hrule
      cases hfound
  | region id =>
    simp only [Grammar.moveOf?, Option.bind_eq_bind, Option.bind_eq_some_iff,
      Option.map_eq_some_iff] at hrule
    obtain ⟨found, _, length, hclaim, hmove⟩ := hrule
    cases hmove
    exact hclaim
  | custom index => cases hrule

/-- Two ranges of the machine, with what is around them, that it walks alike up to an edge. They
are the same range with such ranges around it, or neither of them ends before the edge; then
what is around them does not matter, as the machine does not come to it. -/
inductive AlikeUpTo (edge : Nat) :
    Level → List (Delimiter × Level) → Level → List (Delimiter × Level) → Prop
  | beyond {rules filler opened stop stop' around around'} : edge ≤ stop → edge ≤ stop' →
    AlikeUpTo edge ⟨rules, filler, stop, opened⟩ around ⟨rules, filler, stop', opened⟩ around'
  | within {level delimiter outer outer' around around'} :
    AlikeUpTo edge outer around outer' around' →
      AlikeUpTo edge level ((delimiter, outer) :: around) level ((delimiter, outer') :: around')

namespace AlikeUpTo

variable {edge : Nat} {level level' : Level} {around around' : List (Delimiter × Level)}

theorem ends (h : AlikeUpTo edge level around level' around') :
    AgreeBefore.Ends edge level.stop level'.stop := by
  cases h with
  | beyond hle hle' => exact Or.inr ⟨hle, hle'⟩
  | within _ => exact Or.inl rfl

theorem opened_eq (h : AlikeUpTo edge level around level' around') :
    level.opened = level'.opened := by
  cases h <;> rfl

theorem rulesHere_eq (h : AlikeUpTo edge level around level' around') :
    level.rulesHere = level'.rulesHere := by
  cases h <;> rfl

theorem fillerHere_eq (h : AlikeUpTo edge level around level' around') :
    level.fillerHere = level'.fillerHere := by
  cases h <;> rfl

theorem reopened (h : AlikeUpTo edge level around level' around') (opened : List Region) :
    AlikeUpTo edge { level with opened } around { level' with opened } around' := by
  cases h with
  | beyond hle hle' => exact .beyond hle hle'
  | within houter => exact .within houter

end AlikeUpTo

/-- Two states of the machine in the same place, in ranges that are walked alike if the place is
before the edge. -/
structure Pushdown.Abreast (edge : Nat) (state state' : Pushdown) : Prop where
  here_eq : state.here = state'.here
  alike : state.here < edge → AlikeUpTo edge state.level state.around state'.level state'.around

namespace Pushdown.Abreast

variable {text other : Text} {edge : Nat} {grammar : Grammar} {state state' : Pushdown}

/-- Behind the begin match of a region both states are in the same place again. -/
theorem entered (hagree : AgreeBefore text other edge) (h : Abreast edge state state')
    (hlt : state.here < edge) {region : Region} {length : Nat}
    (hclaim : region.beginPattern.claim? text state.here state.level.stop = some length) :
    Abreast edge (state.entered text region length) (state'.entered other region length) := by
  obtain ⟨here, level, around⟩ := state
  obtain ⟨here', level', around'⟩ := state'
  obtain rfl : here = here' := h.here_eq
  have halike := h.alike hlt
  have hclaim' := hclaim
  rw [hagree.claim?_eq _ hlt halike.ends] at hclaim'
  have hle := (Pattern.claim?_eq_some.mp hclaim).2.1
  have hle' := (Pattern.claim?_eq_some.mp hclaim').2.1
  unfold Pushdown.entered
  dsimp only at hle hle' ⊢
  split
  · refine ⟨rfl, fun _ => ?_⟩
    rcases hagree.blockEnd_eq region.endPattern halike.ends hle hle' with heq | ⟨hfar, hfar'⟩
    · rw [heq]
      exact .within halike
    · exact .beyond hfar hfar'
  · refine ⟨rfl, fun _ => ?_⟩
    rw [halike.opened_eq]
    exact halike.reopened _

/-- Before the edge both states give the same labels in one step, and are abreast again. -/
theorem step (grammar : Grammar) (hagree : AgreeBefore text other edge)
    (h : Abreast edge state state') (hlt : state.here < edge) :
    ∃ tokens middle middle', state.step? grammar text = some (tokens, middle) ∧
      state'.step? grammar other = some (tokens, middle') ∧
      Abreast edge middle middle' ∧ middle.here = state.here + tokens.length := by
  obtain ⟨here, level, around⟩ := state
  obtain ⟨here', level', around'⟩ := state'
  obtain rfl : here = here' := h.here_eq
  have halike : AlikeUpTo edge level around level' around' := h.alike hlt
  replace hlt : here < edge := hlt
  by_cases hin : here < level.stop
  · have hin' : here < level'.stop := by
      rcases halike.ends with heq | ⟨_, hle⟩ <;> omega
    have hclosing := hagree.closing?_eq hlt halike.ends level.opened
    have hmove := hagree.move?_eq grammar hlt halike.ends level.rulesHere
    rcases hclosed : closing? text here level.stop level.opened with _ | ⟨token, length, outer⟩
    · rw [hclosed, halike.opened_eq, eq_comm] at hclosing
      rcases hmoved : grammar.move? text here level.stop level.rulesHere with _ | move
      · rw [hmoved, halike.rulesHere_eq, eq_comm] at hmove
        refine ⟨[level.fillerHere], ⟨here + 1, level, around⟩, ⟨here + 1, level', around'⟩,
          step?_filler hin hclosed hmoved, ?_, ⟨rfl, fun _ => halike⟩, rfl⟩
        rw [halike.fillerHere_eq]
        exact step?_filler hin' hclosing hmove
      · rw [hmoved, halike.rulesHere_eq, eq_comm] at hmove
        have hstep : step? grammar text ⟨here, level, around⟩ = _ := step?_move hin hclosed hmoved
        have hstep' : step? grammar other ⟨here, level', around'⟩ = _ :=
          step?_move hin' hclosing hmove
        rcases move with ⟨token, length⟩ | ⟨region, length⟩
        · refine ⟨.replicate length token, ⟨here + length, level, around⟩,
            ⟨here + length, level', around'⟩, hstep, hstep', ⟨rfl, fun _ => halike⟩, ?_⟩
          rw [List.length_replicate]
        · refine ⟨.replicate length region.beginToken, _, _, hstep, hstep',
            h.entered hagree hlt (Grammar.claim?_of_move? hmoved), ?_⟩
          rw [List.length_replicate, Pushdown.entered]
          split <;> rfl
    · rw [hclosed, halike.opened_eq, eq_comm] at hclosing
      refine ⟨.replicate length token, ⟨here + length, { level with opened := outer }, around⟩,
        ⟨here + length, { level' with opened := outer }, around'⟩, step?_closing hin hclosed,
        step?_closing hin' hclosing, ⟨rfl, fun _ => halike.reopened outer⟩, ?_⟩
      rw [List.length_replicate]
  · -- A range that ends before the edge is the same range, with something around it.
    cases halike with
    | beyond hle _ =>
      dsimp only at hin
      omega
    | @within _ delimiter outer outer' around around' houter =>
      have hleave : ∀ {whole : Text} {next : Level} {rest : List (Delimiter × Level)},
          step? grammar whole ⟨here, level, (delimiter, next) :: rest⟩ =
            some (.replicate delimiter.length delimiter.token,
              ⟨here + delimiter.length, next, rest⟩) := by
        intro whole next rest
        simp only [step?, if_neg hin]
      refine ⟨.replicate delimiter.length delimiter.token, ⟨here + delimiter.length, outer, around⟩,
        ⟨here + delimiter.length, outer', around'⟩, hleave, hleave, ⟨rfl, fun _ => houter⟩, ?_⟩
      rw [List.length_replicate]

/-- What the machine labels before the edge is the same. -/
theorem runs (hagree : AgreeBefore text other edge) {tokens tokens' : List Token}
    (h : Abreast edge state state') (hruns : Runs grammar text state tokens)
    (hruns' : Runs grammar other state' tokens') :
    tokens.take (edge - state.here) = tokens'.take (edge - state.here) := by
  obtain ⟨last, hreach, hstop⟩ := hruns
  induction hreach generalizing state' tokens' with
  | @refl state =>
    by_cases hlt : state.here < edge
    · obtain ⟨labels, middle, middle', hstep, _⟩ := h.step grammar hagree hlt
      cases hstop.symm.trans hstep
    · simp [show edge - state.here = 0 by omega]
  | @step state middle last tokens more hstep _ ih =>
    by_cases hlt : state.here < edge
    · obtain ⟨labels, next, next', hnext, hnext', habreast, hhere⟩ :=
        h.step grammar hagree hlt
      cases hstep.symm.trans hnext
      obtain ⟨last', hreach', hstop'⟩ := hruns'
      cases hreach' with
      | refl => cases hstop'.symm.trans hnext'
      | @step _ _ _ _ more' hstep' hmore' =>
        cases hstep'.symm.trans hnext'
        have hrest := ih habreast ⟨last', hmore', hstop'⟩ hstop
        rw [hhere, ← Nat.sub_sub] at hrest
        rw [List.take_append, List.take_append, hrest]
    · simp [show edge - state.here = 0 by omega]

end Pushdown.Abreast

/-! ## The law -/

theorem Tiles.labels_length {first stop : Nat} {spans : List Span} (h : Tiles first stop spans) :
    first + (labels spans).length = stop := by
  induction spans generalizing first with
  | nil => exact h
  | cons span rest ih =>
    have hrest := ih h.2.2
    have hlabels : labels (span :: rest) = .replicate span.length span.token ++ labels rest := rfl
    rw [hlabels, List.length_append, List.length_replicate]
    omega

/-- A scanner of a session over text documents, in a range of one of them, with nothing queued,
parked or open. -/
structure Scanner.Poised (settings : Settings) (doc : VersionedText) (scanner : Scanner Region) :
    Prop where
  reached : Reached IsText settings scanner
  document_eq : scanner.document = doc.toDocument
  small : doc.text.length < maxOffset
  mark_le : scanner.mark ≤ scanner.rangeEnd
  end_le : scanner.rangeEnd ≤ doc.text.length
  queue_eq : scanner.queue = []
  parked_eq : scanner.parked = none
  open_eq : scanner.openRegions = []

theorem Scanner.Poised.tokenize_runs {settings : Settings} {doc : VersionedText}
    {scanner : Scanner Region} {grammar : Grammar} (h : scanner.Poised settings doc)
    (hplain : grammar.Plain) (hbegins : grammar.BeginsDefined) (heof : ¬ grammar.Gives .eof) :
    grammar.tokenize.Leads scanner fun spans _ =>
      Tiles scanner.mark scanner.rangeEnd spans ∧
        Pushdown.Runs grammar doc.text ⟨scanner.mark, grammar.outermost scanner.rangeEnd, []⟩
          (labels spans) :=
  RegionScan.tokenize_runs hplain hbegins heof
    ⟨h.reached.onText.current, h.document_eq ▸ doc.toDocument_shows _ h.small, h.mark_le, h.end_le⟩
    h.queue_eq h.parked_eq h.open_eq

/-- Two texts agree before the start of a line. Then two ranges that start at the same offset,
and end at that line or behind it, give every character before the line one and the same
token. -/
theorem characters_before_a_line_keep_their_tokens {settings settings' : Settings}
    {scanner scanner' : Scanner Region} {doc doc' : VersionedText} {edge : Nat} {grammar : Grammar}
    (h : scanner.Poised settings doc) (h' : scanner'.Poised settings' doc')
    (hagree : AgreeBefore doc.text doc'.text edge) (hmark : scanner.mark = scanner'.mark)
    (hend : edge ≤ scanner.rangeEnd) (hend' : edge ≤ scanner'.rangeEnd)
    (hplain : grammar.Plain) (hbegins : grammar.BeginsDefined) (heof : ¬ grammar.Gives .eof) :
    ∃ spans after spans' after', grammar.tokenize scanner = .ok spans after ∧
      grammar.tokenize scanner' = .ok spans' after' ∧
      ∀ offset, scanner.mark ≤ offset → offset < edge → ∃ token, ∀ other,
        (Covers spans offset other ↔ other = token) ∧
          (Covers spans' offset other ↔ other = token) := by
  obtain ⟨spans, after, htokenize, htiles, hruns⟩ := h.tokenize_runs hplain hbegins heof
  obtain ⟨spans', after', htokenize', htiles', hruns'⟩ := h'.tokenize_runs hplain hbegins heof
  refine ⟨spans, after, spans', after', htokenize, htokenize', ?_⟩
  intro offset hle hlt
  -- Both runs of the machine start abreast, in ranges that do not end before the line.
  have habreast : Pushdown.Abreast edge ⟨scanner.mark, grammar.outermost scanner.rangeEnd, []⟩
      ⟨scanner'.mark, grammar.outermost scanner'.rangeEnd, []⟩ :=
    ⟨hmark, fun _ => .beyond hend hend'⟩
  have hsame : (labels spans)[offset - scanner.mark]? =
      (labels spans')[offset - scanner.mark]? := by
    have htake := habreast.runs hagree hruns hruns'
    have hin : offset - scanner.mark < edge - scanner.mark := by omega
    rw [← List.getElem?_take_of_lt hin]
    exact (congrArg (·[offset - scanner.mark]?) htake).trans (List.getElem?_take_of_lt hin)
  have hcovers := fun token : Token => @Tiles.covers_iff _ _ _ _ token htiles hle
  have hcovers' := fun token : Token => @Tiles.covers_iff _ _ _ _ token htiles' (hmark ▸ hle)
  obtain ⟨token, htoken⟩ : ∃ token, (labels spans)[offset - scanner.mark]? = some token := by
    have hlength := htiles.labels_length
    exact ⟨_, List.getElem?_eq_getElem (by omega)⟩
  refine ⟨token, fun other => ⟨?_, ?_⟩⟩
  · rw [hcovers, htoken, Option.some.injEq, eq_comm]
  · rw [hcovers', ← hmark, ← hsame, htoken, Option.some.injEq, eq_comm]

/-- A bracket that stays open over the end of its line, and edits behind that end. -/
theorem an_edit_behind_a_line_leaves_its_tokens :
    ∃ (scanner scanner' after after' : Scanner Region) (spans spans' : List Span) (token : Token),
      scanner.document = (VersionedText.ofText ['(', '\n', ']', ')']).toDocument ∧
      scanner'.document = (((VersionedText.ofText ['(', '\n', ']', ')']).insert 3 ['[']).delete 2
        1).toDocument ∧
      Grammar.brackets.tokenize scanner = .ok spans after ∧
      Grammar.brackets.tokenize scanner' = .ok spans' after' ∧
      Covers spans 1 token ∧ Covers spans' 1 token := by
  let doc : VersionedText := .ofText ['(', '\n', ']', ')']
  let edited : VersionedText := (doc.insert 3 ['[']).delete 2 1
  let fresh : Scanner Region := Scanner.fresh doc.toDocument ⟨3, by decide⟩
  let fresh' : Scanner Region := Scanner.fresh edited.toDocument ⟨3, by decide⟩
  have h0 : Reached IsText ⟨3, by decide⟩ fresh := .fresh _ ⟨doc, rfl⟩
  have h0' : Reached IsText ⟨3, by decide⟩ fresh' := .fresh _ ⟨edited, rfl⟩
  have h1 : Reached IsText ⟨3, by decide⟩
      { fresh with
        window := ⟨#['(', '\n', ']'], 0, 3, by decide⟩, rangeEnd := 4, tally := ⟨1, 0⟩ } :=
    h0.call (.assign doc.toDocument 0 4) fun _ hdoc => ⟨doc, by cases hdoc; rfl⟩
  have h1' : Reached IsText ⟨3, by decide⟩
      { fresh' with
        window := ⟨#['(', '\n', '['], 0, 3, by decide⟩, rangeEnd := 3, tally := ⟨1, 0⟩ } :=
    h0'.call (.assign edited.toDocument 0 3) fun _ hdoc => ⟨edited, by cases hdoc; rfl⟩
  have hagree : AgreeBefore doc.text edited.text 2 := by
    refine ⟨?_, by decide, by decide⟩
    rw [VersionedText.delete_take (by decide), VersionedText.insert_take (by decide) (by decide)]
  obtain ⟨spans, after, spans', after', htokenize, htokenize', hsame⟩ :=
    characters_before_a_line_keep_their_tokens
      (⟨h1, rfl, by decide, by decide, by decide, rfl, rfl, rfl⟩ : Scanner.Poised _ doc _)
      (⟨h1', rfl, by decide, by decide, by decide, rfl, rfl, rfl⟩ : Scanner.Poised _ edited _)
      hagree rfl (by decide) (by decide) Grammar.brackets_plain Grammar.brackets_begin
      Grammar.brackets_lack_eof
  obtain ⟨token, htoken⟩ := hsame 1 (by decide) (by decide)
  exact ⟨_, _, after, after', spans, spans', token, rfl, rfl, htokenize, htokenize',
    (htoken token).1.mpr rfl, (htoken token).2.mpr rfl⟩

end RegionScan
