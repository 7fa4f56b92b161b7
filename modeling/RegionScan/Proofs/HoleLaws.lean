-- The law of scans over texts with holes: which holes no scan can be misled by. For
-- all others a grammar of one rule is misled, and there are two such grammars: one
-- whose region ends at a refill that fails, and one whose pattern is not found on a
-- line of which only a part can be read.
import Mathlib.Data.Nat.Find
import RegionScan.Proofs.Holes

namespace RegionScan

variable {grammar : Grammar} {text : Text} {sight : Sight}

/-! ## Two patterns -/

namespace Pattern

/-- Takes any one character. -/
def Program.any : Program := ⟨#[.accept, .take .all 0], 1⟩

/-- Has no steps. -/
def Program.never : Program := ⟨#[], 0⟩

/-- A pattern that matches any one character. -/
def any : Pattern := .ofProgram "(?s)." .any

/-- A pattern that matches nowhere. -/
def never : Pattern := .ofProgram "[a&&b]" .never

theorem CharSet.contains_all (c : Char) : CharSet.all.contains c = true := by
  have hvalid := c.valid
  have hle : c.toNat ≤ maxCode := by
    unfold maxCode
    rcases hvalid with h | h
    · simp only [Char.toNat]
      omega
    · simp only [Char.toNat]
      omega
  simp [CharSet.contains, CharSet.hasCode, CharSet.all, CharSet.holds, hle]

theorem any_frontier (before after : Option Char) :
    Program.frontier Program.any.code before after [1] = ⟨[(.all, 0)], false⟩ := rfl

theorem accept_frontier (before after : Option Char) :
    Program.frontier Program.any.code before after [0] = ⟨[], true⟩ := rfl

theorem never_frontier (before after : Option Char) :
    Program.frontier Program.never.code before after [0] = ⟨[], false⟩ := rfl

theorem lengthIn?_any {offset : Nat} (hlt : offset < text.length) :
    any.lengthIn? text offset = some 1 := by
  have hle := lineAt_start_le text offset
  have hstop := lt_lineAt_stop hlt
  obtain ⟨c, hc⟩ : ∃ c,
      (lineAt text offset).chars[offset - (lineAt text offset).start]? = some c :=
    ⟨_, Array.getElem?_eq_getElem (by unfold Line.length at hstop; omega)⟩
  show Program.any.matchLength? _ _ = _
  unfold Program.matchLength?
  generalize (lineAt text offset).chars = chars at hc
  generalize offset - (lineAt text offset).start = start at hc
  have hin := (Array.getElem?_eq_some_iff.mp hc).1
  -- Behind one character the program is at the step that accepts, and takes no more.
  have hnext : ∀ left, Program.run Program.any.code chars start left 1 [0] none = some 1 := by
    intro left
    unfold Program.run
    split
    · simp only [Program.frontierAt, accept_frontier, if_true]
    · simp only [Program.frontierAt, accept_frontier, if_true, List.filterMap_nil,
        List.isEmpty_nil]
      split <;> rfl
  rw [show chars.size - start = chars.size - start - 1 + 1 by omega]
  unfold Program.run
  dsimp only [Program.frontierAt]
  rw [show Program.any.entry = 1 from rfl, any_frontier, Nat.add_zero, hc]
  dsimp only
  rw [List.filterMap_cons]
  dsimp only
  rw [CharSet.contains_all c]
  exact hnext _

theorem claim?_any {here stop : Nat} (hlt : here < stop) (hstop : stop ≤ text.length) :
    any.claim? text here stop = some 1 :=
  claim?_eq_some.mpr ⟨lengthIn?_any (Nat.lt_of_lt_of_le hlt hstop), hlt, Nat.one_pos⟩

theorem lengthIn?_never {offset : Nat} : never.lengthIn? text offset = none := by
  show Program.never.matchLength? _ _ = _
  unfold Program.matchLength? Program.run
  rw [show Program.never.entry = 0 from rfl]
  split
  · simp only [Program.frontierAt, never_frontier, Bool.false_eq_true, if_false]
  · simp only [Program.frontierAt, never_frontier, Bool.false_eq_true, if_false,
      List.filterMap_nil, List.isEmpty_nil, if_true]
    split <;> rfl

theorem hit?_never {here stop : Nat} : never.hit? text here stop = none := by
  rw [hit?, lengthIn?_never]
  rfl

end Pattern

/-- Any character on a line that is shown is found. -/
theorem Sight.Claims.any {here stop : Nat} {found : Option Nat} (hshown : ¬ sight.hides here)
    (hlt : here < stop) (hstop : stop ≤ text.length)
    (h : sight.Claims text .any here stop found) : found = some 1 := by
  rw [← Pattern.claim?_any hlt hstop]
  exact (Sight.claims_shown hshown).mp h

/-! ## Scans character by character -/

section

variable {tokenAt : Nat → Token} {limit stop here last : Nat} {spans : List Span}

/-- In front of the limit a scan goes one character at a time, and each character gets the token
that is given for it. -/
def Grammar.GoesByOne (grammar : Grammar) (text : Text) (sight : Sight) (tokenAt : Nat → Token)
    (limit stop : Nat) : Prop :=
  ∀ ⦃here started found⦄, here < limit →
    Tries grammar text sight (Enters grammar text sight) [] stop here grammar.rules started found →
      found = some ⟨[⟨tokenAt here, here, 1⟩], here + 1, none⟩ ∨
        found = none ∧ tokenAt here = grammar.defaultToken ∧ ¬ sight.withholds here

/-- Spans from an offset on that, in front of the limit, are one character long. The last of them
ends where the scan does. -/
structure OneByOne (tokenAt : Nat → Token) (limit here : Nat) (spans : List Span) (last : Nat) :
    Prop where
  span_eq : ∀ i span, spans[i]? = some span → here + i < limit →
    span = ⟨tokenAt (here + i), here + i, 1⟩
  last_eq : here + spans.length < limit → last = here + spans.length

theorem OneByOne.cons (h : OneByOne tokenAt limit (here + 1) spans last) :
    OneByOne tokenAt limit here (⟨tokenAt here, here, 1⟩ :: spans) last := by
  refine ⟨fun i span hspan hlt => ?_, fun hlt => ?_⟩
  · rcases i with _ | i
    · simp at hspan
      exact hspan.symm
    · have hnext : here + 1 + i = here + (i + 1) := by omega
      have hrest := h.span_eq i span (by simpa using hspan) (by omega)
      rwa [hnext] at hrest
  · rw [List.length_cons] at hlt ⊢
    have := h.last_eq (by omega)
    omega

theorem OneByOne.beyond (hle : limit ≤ here) : OneByOne tokenAt limit here spans last :=
  ⟨fun _ _ _ hlt => by omega, fun hlt => by omega⟩

theorem Strides.one_by_one (hone : grammar.GoesByOne text sight tokenAt limit stop)
    (h : Strides grammar text sight [] stop here spans last) :
    OneByOne tokenAt limit here spans last := by
  induction h with
  | stay => exact ⟨fun i span hspan => by simp at hspan, fun _ => rfl⟩
  | @claim here started passage spans last htries _ ih =>
    by_cases hlt : here < limit
    · rcases hone hlt htries with hfound | ⟨hfound, _⟩
      · cases hfound
        exact ih.cons
      · cases hfound
    · exact .beyond (Nat.le_of_not_lt hlt)
  | @char here started spans last htries _ _ _ ih =>
    by_cases hlt : here < limit
    · rcases hone hlt htries with hfound | ⟨_, htoken, _⟩
      · cases hfound
      · exact htoken ▸ ih.cons
    · exact .beyond (Nat.le_of_not_lt hlt)

/-- Whatever ends its trace, such a scan has come as far as the limit. -/
theorem TraceEnd.limit_le {after : Scanner Region} {handed records : List Span}
    (hone : grammar.GoesByOne text sight tokenAt limit after.rangeEnd)
    (hlimit : limit ≤ after.rangeEnd) (hopen : after.openRegions = [])
    (hlast : after.queue = [] → handed.length < limit → after.mark = handed.length)
    (heof : ∀ span ∈ handed, span.token ≠ .eof)
    (h : TraceEnd grammar text sight after limit handed records) : limit ≤ handed.length := by
  by_contra hshort
  have hlt : handed.length < limit := Nat.lt_of_not_le hshort
  cases h with
  | full hcount => exact hshort (Nat.le_of_eq hcount.symm)
  | named hmem htoken => exact heof _ hmem htoken
  | eof hend hempty =>
    have := hlast hempty hlt
    omega
  | lost _ hwithheld hempty htries =>
    have hmark := hlast hempty hlt
    rw [hopen] at htries
    rcases hone (hmark ▸ hlt) htries with hfound | ⟨_, _, hgiven⟩
    · cases hfound
    · exact hgiven hwithheld

/-- Every character in front of the limit is handed out. -/
theorem trace_one_by_one {scanner : Scanner Region} (hplain : grammar.Plain)
    (hbegins : grammar.BeginsDefined) (heof : ¬ grammar.Gives .eof)
    (hs : scanner.Sees text sight) (hmark : scanner.mark = 0) (hqueue : scanner.queue = [])
    (hparked : scanner.parked = none) (hopen : scanner.openRegions = [])
    (hone : grammar.GoesByOne text sight tokenAt limit scanner.rangeEnd)
    (hlimit : limit ≤ scanner.rangeEnd) (hlt : here < limit) :
    ∃ record ∈ (grammar.trace limit scanner).1, record.span = ⟨tokenAt here, here, 1⟩ := by
  obtain ⟨handed, after, hpassed, hdone⟩ := trace_cases hplain.customs hbegins limit hs hparked
  obtain ⟨strides, hqueued, hstrides⟩ := hpassed.spans_eq
  rw [hqueue, List.nil_append] at hqueued
  rw [hopen, hmark] at hstrides
  have hunits := hstrides.one_by_one hone
  have hlast : after.queue = [] → handed.length < limit → after.mark = handed.length := by
    intro hempty hshort
    rw [hempty, List.append_nil] at hqueued
    have hend := hunits.last_eq (by rw [hqueued]; omega)
    rw [hend, hqueued, Nat.zero_add]
  have hgives : ∀ span ∈ handed, span.token ≠ .eof := by
    intro span hmem htoken
    have hgiven := hstrides.gives hplain (fun _ hmem => by cases hmem) _
      (hqueued ▸ List.mem_append_left _ hmem)
    exact heof (htoken ▸ hgiven)
  have hlength := hdone.limit_le (hpassed.rangeEnd_eq ▸ hone) (hpassed.rangeEnd_eq ▸ hlimit)
    (hpassed.openRegions_eq.trans hopen) hlast hgives
  have hget : handed[here]? = some handed[here] := List.getElem?_eq_getElem (by omega)
  have hin : strides[here]? = some handed[here] := by
    rw [hqueued, List.getElem?_append_left (by omega), hget]
  have hspan := hunits.span_eq here _ hin (by omega)
  rw [Nat.zero_add] at hspan
  rw [hspan] at hget
  exact List.mem_map.mp (hdone.mem_records (List.mem_of_getElem? hget))

end

/-- A scan that goes character by character is not faithful if the machine labels one of the
characters otherwise. -/
theorem not_faithful_of_one {settings : Settings} {holes : List (Nat × Nat)}
    {tokenAt : Nat → Token} {limit here : Nat} {tokens : List Token} {token : Token}
    {state : Pushdown} (hplain : grammar.Plain) (hbegins : grammar.BeginsDefined)
    (heof : ¬ grammar.Gives .eof)
    (hshows : (PatchyDocument.holed text holes).toDocument.Shows settings.capacity text sight)
    (hone : grammar.GoesByOne text sight tokenAt limit text.length) (hlimit : limit ≤ text.length)
    (hlt : here < limit)
    (hreach : Pushdown.Reaches grammar text ⟨0, grammar.outermost text.length, []⟩ tokens state)
    (htoken : tokens[here]? = some token) (hne : token ≠ tokenAt here) :
    ¬ grammar.Faithful settings text holes := by
  rintro ⟨scanner, spans, hassign, hspans, hfaithful⟩
  obtain ⟨scanner', hassign', hs, hmark, hend, hqueue, hparked, hopen⟩ :=
    Scanner.fresh_assign hshows
  rw [hshows.holds.length_eq] at hassign'
  cases hassign.symm.trans hassign'
  obtain ⟨spans', hspans', htiles, hruns⟩ := spansOf_text hplain hbegins heof hshows.small
  cases hspans.symm.trans hspans'
  obtain ⟨record, hrecord, hspan⟩ := trace_one_by_one hplain hbegins heof hs hmark hqueue hparked
    hopen (hend ▸ hone) (hend ▸ hlimit) hlt
  injection hspan with hgiven hoffset hlength
  have hcovers := hfaithful limit record hrecord here (by omega) (by omega)
  rw [htiles.covers_iff (Nat.zero_le _), Nat.sub_zero, hgiven] at hcovers
  obtain ⟨more, hmore⟩ := hreach.isPrefix hruns
  rw [← hmore, List.getElem?_append_left (List.getElem?_eq_some_iff.mp htoken).1, htoken] at hcovers
  exact hne (Option.some.inj hcovers)

/-! ## The first character that cannot be read -/

structure FirstLost (text : Text) (holes : List (Nat × Nat)) (lost : Nat) : Prop where
  lt : lost < text.length
  unreadable : (PatchyDocument.holed text holes).Unreadable lost
  before : ∀ o, o < lost → ¬ (PatchyDocument.holed text holes).Unreadable o

namespace FirstLost

variable {holes : List (Nat × Nat)} {lost capacity : Nat}

theorem exists_of {o : Nat} (hlt : o < text.length)
    (h : (PatchyDocument.holed text holes).Unreadable o) : ∃ lost, FirstLost text holes lost := by
  classical
  have hsome : ∃ o, o < text.length ∧ (PatchyDocument.holed text holes).Unreadable o := ⟨o, hlt, h⟩
  obtain ⟨hfirst, hunreadable⟩ := Nat.find_spec hsome
  refine ⟨Nat.find hsome, hfirst, hunreadable, ?_⟩
  intro other hother hlost
  exact Nat.find_min hsome hother ⟨Nat.lt_trans hother hfirst, hlost⟩

/-- The lines before its line are shown. -/
theorem shown (h : FirstLost text holes lost) {o : Nat} (hlt : o < (lineAt text lost).start) :
    ¬ ((PatchyDocument.holed text holes).view capacity).hides o := by
  rintro ⟨other, hother, _, hin⟩
  have hstop := (lineAt_break text lost).stop_le hlt
  have hle := lineAt_start_le text lost
  exact h.before other (Nat.lt_of_lt_of_le hin (Nat.le_trans hstop hle)) hother

/-- Its line is hidden, from its start on. -/
theorem hides (h : FirstLost text holes lost) :
    ((PatchyDocument.holed text holes).view capacity).hides (lineAt text lost).start := by
  refine ⟨lost, h.unreadable, ?_⟩
  rw [show (PatchyDocument.holed text holes).inner.text = text from rfl, lineAt_start]
  exact ⟨lineAt_start_le text lost, lt_lineAt_stop h.lt⟩

end FirstLost

/-! ## A pattern on a line of which a part cannot be read -/

/-- Every character is a word of its own. -/
def Grammar.words : Grammar where
  regions := []
  customs := []
  rules := [.pattern .any (.other "word")]
  defaultToken := .other "rest"

theorem Grammar.words_plain : Grammar.words.Plain := .of_ids rfl rfl

theorem Grammar.words_begin : Grammar.words.BeginsDefined := by
  decide

theorem Grammar.words_lack_eof : ¬ Grammar.words.Gives .eof := by
  decide

/-- Up to a line that is hidden each character is found to be a word, and the first one on that
line is not. -/
theorem words_go_by_one {shown stop : Nat} (hlt : shown < stop) (hstop : stop ≤ text.length)
    (hshown : ∀ o, o < shown → ¬ sight.hides o) (hhides : sight.hides shown)
    (hgiven : ¬ sight.withholds shown) :
    Grammar.words.GoesByOne text sight
      (fun o => if o < shown then .other "word" else .other "rest") (shown + 1) stop := by
  intro here started found hhere htries
  by_cases hbefore : here < shown
  · left
    have hclaim : ∀ found, sight.Claims text .any here stop found → found = some 1 :=
      fun _ h => h.any (hshown here hbefore) (Nat.lt_trans hbefore hlt) hstop
    dsimp only
    rw [if_pos hbefore]
    cases htries with
    | skip h _ => cases hclaim _ h
    | reject _ h _ =>
      rcases h with ⟨_, h⟩ | h
      · cases h
      · cases hclaim _ h
    | word h _ =>
      cases hclaim _ h
      rfl
  · right
    obtain rfl : here = shown := by omega
    exact ⟨htries.dark hhides, if_neg hbefore, hgiven⟩

/-- The machine finds every character to be one. -/
theorem words_reach {count : Nat} (hle : count ≤ text.length) :
    Pushdown.Reaches Grammar.words text ⟨0, Grammar.words.outermost text.length, []⟩
      (.replicate count (.other "word")) ⟨count, Grammar.words.outermost text.length, []⟩ := by
  induction count with
  | zero => exact .refl
  | succ count ih =>
    have hmove : Grammar.words.move? text count text.length Grammar.words.rules =
        some (.word (.other "word") 1) := by
      rw [Grammar.move?, Grammar.words, List.findSome?_cons, Grammar.moveOf?,
        Pattern.claim?_any hle (Nat.le_refl _)]
      rfl
    have hstep : Pushdown.step? Grammar.words text
        ⟨count, Grammar.words.outermost text.length, []⟩ =
          some ([.other "word"], ⟨count + 1, Grammar.words.outermost text.length, []⟩) :=
      Pushdown.step?_move (show count < (Grammar.words.outermost text.length).stop from hle) rfl
        hmove
    rw [List.replicate_succ']
    exact (ih (Nat.le_of_lt hle)).trans (.single hstep)

theorem words_not_faithful {holes : List (Nat × Nat)} {lost : Nat}
    (hsmall : text.length < maxOffset) (h : FirstLost text holes lost)
    (hpart : (lineAt text lost).start < lost) :
    ¬ Grammar.words.Faithful ⟨1, Nat.one_pos⟩ text holes := by
  have hlt : (lineAt text lost).start < text.length := Nat.lt_trans hpart h.lt
  have hgiven : ¬ ((PatchyDocument.holed text holes).view 1).withholds
      (lineAt text lost).start := by
    rintro ⟨o, ho, _, hin⟩
    exact h.before o (by omega) ho
  have htoken : (List.replicate text.length (Token.other "word"))[(lineAt text lost).start]? =
      some (.other "word") := by
    rw [List.getElem?_replicate, if_pos hlt]
  refine not_faithful_of_one Grammar.words_plain Grammar.words_begin Grammar.words_lack_eof
    (PatchyDocument.holed_shows holes 1 hsmall)
    (words_go_by_one hlt (Nat.le_refl _) (fun _ => h.shown) h.hides hgiven) hlt (Nat.lt_succ_self _)
    (words_reach (Nat.le_refl _)) htoken ?_
  rw [if_neg (Nat.lt_irrefl _)]
  decide

/-! ## A region whose refill fails -/

/-- A region that starts at any character, and never ends. -/
def Region.endless : Region where
  id := 0
  name := "endless"
  beginPattern := .any
  endPattern := .never
  beginToken := .other "open"
  contentToken := .other "inside"
  endToken := .other "close"
  rules := []
  embedded := false

def Grammar.endless : Grammar where
  regions := [.endless]
  customs := []
  rules := [.region 0]
  defaultToken := .other "outside"

theorem Grammar.endless_plain : Grammar.endless.Plain := .of_ids rfl rfl

theorem Grammar.endless_begin : Grammar.endless.BeginsDefined := by
  decide

theorem Grammar.endless_lacks_eof : ¬ Grammar.endless.Gives .eof := by
  decide

/-- Inside the region there is nothing to find: the inside ends where it starts, if no character
can be read there. -/
theorem endless_inside {enters : Region → List Region → Nat → Nat → Passage → Prop}
    {stop here pending : Nat} {passage : Passage} (hunread : ¬ sight.grants here)
    (h : Interior Grammar.endless text sight enters .endless [] stop here pending passage) :
    passage = ⟨piece ⟨.other "inside", pending, here - pending⟩, here, none⟩ := by
  cases h with
  | ownEnd _ hfinds => cases hfinds.length.1.symm.trans Pattern.lengthIn?_never
  | outerEnd _ _ houter => cases houter
  | onward _ htries _ _ => cases htries
  | taken _ _ htries _ _ => cases htries
  | passed _ _ htries _ _ => cases htries
  | char _ _ _ hgrants _ => exact absurd hgrants hunread
  | stopped _ _ _ => rfl

/-- Where nothing can be read, the region ends behind the character it starts at. -/
theorem endless_goes_by_one {limit stop : Nat} (hlimit : limit ≤ stop) (hstop : stop ≤ text.length)
    (hshown : ∀ o, o < limit → ¬ sight.hides o) (hunread : ∀ o, o ≤ limit → ¬ sight.grants o) :
    Grammar.endless.GoesByOne text sight (fun _ => .other "open") limit stop := by
  intro here started found hlt htries
  left
  have hclaim : ∀ found, sight.Claims text .any here stop found → found = some 1 :=
    fun _ h => h.any (hshown here hlt) (Nat.lt_of_lt_of_le hlt hlimit) hstop
  cases htries with
  | skip h _ => cases hclaim _ h
  | reject _ h _ =>
    rcases h with ⟨_, h⟩ | h
    · cases h
    · cases hclaim _ h
  | enter hregion _ henter =>
    cases hregion
    obtain ⟨_ | depth, henter⟩ := henter
    · exact henter.elim
    · cases henter with
      | region _ h hinterior =>
        cases hclaim _ h
        rw [endless_inside (hunread _ hlt) hinterior, Nat.sub_self]
        rfl
      | block hsealed => cases hsealed

/-- The machine stays inside the region. -/
theorem endless_reaches (hlt : 1 < text.length) :
    ∃ state, Pushdown.Reaches Grammar.endless text
      ⟨0, Grammar.endless.outermost text.length, []⟩ [.other "open", .other "inside"] state := by
  have hmove : Grammar.endless.move? text 0 text.length Grammar.endless.rules =
      some (.enter .endless 1) := by
    rw [Grammar.move?, Grammar.endless, List.findSome?_cons, Grammar.moveOf?]
    simp [Region.endless, Pattern.claim?_any (Nat.lt_of_succ_lt hlt) (Nat.le_refl _)]
  have hinside : closing? text 1 text.length [Region.endless] = none := by
    simp [closing?, Region.endless, Pattern.hit?_never]
  let outer := Grammar.endless.outermost text.length
  have hfirst : Pushdown.step? Grammar.endless text ⟨0, outer, []⟩ =
      some ([.other "open"], ⟨1, { outer with opened := [.endless] }, []⟩) :=
    Pushdown.step?_move (show 0 < outer.stop from Nat.lt_of_succ_lt hlt) rfl hmove
  have hsecond : Pushdown.step? Grammar.endless text
      ⟨1, { outer with opened := [.endless] }, []⟩ =
        some ([.other "inside"], ⟨2, { outer with opened := [.endless] }, []⟩) :=
    Pushdown.step?_filler (show 1 < outer.stop from hlt) hinside rfl
  exact ⟨_, .step hfirst (.single hsecond)⟩

theorem endless_not_faithful {holes : List (Nat × Nat)} {lost : Nat}
    (hsmall : text.length < maxOffset) (h : FirstLost text holes lost) (htwo : 1 < lost)
    (hstart : (lineAt text lost).start = lost) :
    ¬ Grammar.endless.Faithful ⟨text.length, Nat.zero_lt_of_lt h.lt⟩ text holes := by
  have hlength : 2 ≤ text.length := Nat.le_trans htwo (Nat.le_of_lt h.lt)
  obtain ⟨state, hreach⟩ := endless_reaches hlength
  have hunread : ∀ o, o ≤ 2 →
      ¬ ((PatchyDocument.holed text holes).view text.length).grants o := by
    rintro o hle ⟨first, hfirst, _, hfree⟩
    have hover := hfree lost h.unreadable (by omega)
    have hwhole : (PatchyDocument.holed text holes).inner.text = text := rfl
    rw [hwhole, Nat.min_eq_right (Nat.le_add_left _ _)] at hover
    exact Nat.not_lt_of_le hover h.lt
  refine not_faithful_of_one Grammar.endless_plain Grammar.endless_begin Grammar.endless_lacks_eof
    (PatchyDocument.holed_shows holes text.length hsmall)
    (endless_goes_by_one hlength (Nat.le_refl _) (fun o hlt => h.shown (by omega)) hunread)
    hlength (Nat.lt_succ_self 1) hreach rfl (by decide)

/-! ## The law -/

/-- No pattern gives the undefined token. -/
def Grammar.PatternsDefined (grammar : Grammar) : Prop :=
  (∀ rule ∈ grammar.rules, rule.token? ≠ some .undefined) ∧
    ∀ region ∈ grammar.regions, ∀ rule ∈ region.rules, rule.token? ≠ some .undefined

instance (grammar : Grammar) : Decidable grammar.PatternsDefined :=
  inferInstanceAs (Decidable ((∀ rule ∈ grammar.rules, rule.token? ≠ some .undefined) ∧
    ∀ region ∈ grammar.regions, ∀ rule ∈ region.rules, rule.token? ≠ some .undefined))

theorem Grammar.words_defined : Grammar.words.PatternsDefined := by
  decide

theorem Grammar.endless_defined : Grammar.endless.PatternsDefined := by
  decide

/-- A program searches for the pattern. -/
def Pattern.Compiled (pattern : Pattern) : Prop :=
  ∃ program : Pattern.Program, pattern.matchLength? = program.matchLength?

def Rule.Compiled : Rule → Prop
  | .pattern sought _ => sought.Compiled
  | .region _ | .custom _ => True

/-- Programs search for all patterns of the grammar. -/
def Grammar.Compiled (grammar : Grammar) : Prop :=
  (∀ rule ∈ grammar.rules, rule.Compiled) ∧
    ∀ region ∈ grammar.regions, region.beginPattern.Compiled ∧ region.endPattern.Compiled ∧
      ∀ rule ∈ region.rules, rule.Compiled

theorem Grammar.words_compiled : Grammar.words.Compiled := by
  refine ⟨fun rule hmem => ?_, fun _ hmem => nomatch hmem⟩
  rw [List.mem_singleton.mp hmem]
  exact ⟨.any, rfl⟩

theorem Grammar.endless_compiled : Grammar.endless.Compiled := by
  refine ⟨fun rule hmem => ?_, fun region hmem => ?_⟩
  · rw [List.mem_singleton.mp hmem]
    trivial
  · rw [List.mem_singleton.mp hmem]
    exact ⟨⟨.any, rfl⟩, ⟨.never, rfl⟩, fun _ hmem => nomatch hmem⟩

/-- A compiled grammar of one rule is misled, unless there is nothing or but a line of one character
in front of what is lost. -/
theorem FirstLost.misleads {holes : List (Nat × Nat)} {lost : Nat}
    (hsmall : text.length < maxOffset) (h : FirstLost text holes lost) (hpos : 0 < lost)
    (hlong : ¬ (lost = 1 ∧ LineBreak text 1)) :
    ∃ (settings : Settings) (grammar : Grammar), grammar.Compiled ∧ grammar.Plain ∧
      grammar.BeginsDefined ∧ grammar.PatternsDefined ∧ ¬ grammar.Gives .eof ∧
        ¬ grammar.Faithful settings text holes := by
  by_cases hpart : (lineAt text lost).start < lost
  · exact ⟨_, _, Grammar.words_compiled, Grammar.words_plain, Grammar.words_begin,
      Grammar.words_defined, Grammar.words_lack_eof, words_not_faithful hsmall h hpart⟩
  · have hstart : (lineAt text lost).start = lost := by
      have := lineAt_start_le text lost
      omega
    have htwo : 1 < lost := by
      by_contra hone
      obtain rfl : lost = 1 := by omega
      have hbreak := lineAt_break text 1
      rw [hstart] at hbreak
      exact hlong ⟨rfl, hbreak⟩
    exact ⟨_, _, Grammar.endless_compiled, Grammar.endless_plain, Grammar.endless_begin,
      Grammar.endless_defined, Grammar.endless_lacks_eof,
      endless_not_faithful hsmall h htwo hstart⟩

/-- The holes in a text can mislead no grammar: there are none, or the first character is lost, or
the second is lost and the first is a line of its own. -/
def HarmlessHoles (text : Text) (holes : List (Nat × Nat)) : Prop :=
  (∀ o, o < text.length → ¬ (PatchyDocument.holed text holes).Unreadable o) ∨
    (PatchyDocument.holed text holes).Unreadable 0 ∨
    (PatchyDocument.holed text holes).Unreadable 1 ∧ LineBreak text 1

theorem HarmlessHoles.faithful {settings : Settings} {holes : List (Nat × Nat)}
    (h : HarmlessHoles text holes) (hsmall : text.length < maxOffset) (hplain : grammar.Plain)
    (hbegins : grammar.BeginsDefined) (heof : ¬ grammar.Gives .eof) :
    grammar.Faithful settings text holes := by
  by_cases hwhole : ∀ o, o < text.length → ¬ (PatchyDocument.holed text holes).Unreadable o
  · exact faithful_of_whole hplain hbegins heof hsmall hwhole
  · obtain ⟨o, hlost⟩ := Classical.not_forall.mp hwhole
    have hlength : 0 < text.length := Nat.zero_lt_of_lt (Classical.not_imp.mp hlost).1
    by_cases hzero : (PatchyDocument.holed text holes).Unreadable 0
    · exact faithful_of_lost_start hplain hbegins heof hsmall hlength hzero
    · obtain ⟨hone, hbreak⟩ := (h.resolve_left hwhole).resolve_left hzero
      obtain ⟨hin, hlost⟩ := Classical.not_imp.mp hlost
      have hlong : 1 < text.length := by
        by_contra hshort
        obtain rfl : o = 0 := by omega
        exact hzero (Classical.not_not.mp hlost)
      exact faithful_of_short_line hplain hbegins heof hsmall hlong hbreak hzero hone

theorem HarmlessHoles.of_compiled {holes : List (Nat × Nat)} (hsmall : text.length < maxOffset)
    (h : ∀ (settings : Settings) (grammar : Grammar), grammar.Compiled → grammar.Plain →
      grammar.BeginsDefined → grammar.PatternsDefined → ¬ grammar.Gives .eof →
        grammar.Faithful settings text holes) : HarmlessHoles text holes := by
  by_contra hnot
  obtain ⟨o, hlost⟩ := Classical.not_forall.mp fun hwhole => hnot (.inl hwhole)
  obtain ⟨hin, hlost⟩ := Classical.not_imp.mp hlost
  obtain ⟨lost, hfirst⟩ := FirstLost.exists_of hin (Classical.not_not.mp hlost)
  have hpos : 0 < lost := by
    by_contra hzero
    obtain rfl : lost = 0 := by omega
    exact hnot (.inr (.inl hfirst.unreadable))
  have hlong : ¬ (lost = 1 ∧ LineBreak text 1) := by
    rintro ⟨rfl, hbreak⟩
    exact hnot (.inr (.inr ⟨hfirst.unreadable, hbreak⟩))
  obtain ⟨settings, grammar, hcompiled, hplain, hbegins, hdefined, heof, hmisled⟩ :=
    hfirst.misleads hsmall hpos hlong
  exact hmisled (h settings grammar hcompiled hplain hbegins hdefined heof)

/-- No grammar and no window is misled by the holes in a text if and only if there are none, or
the first character is lost, or the second is lost and the first is a line of its own. So it is
however patterns are searched for, and as well if only compiled grammars count. -/
theorem no_scan_is_misled_by_holes_iff {holes : List (Nat × Nat)}
    (hsmall : text.length < maxOffset) :
    ((∀ (settings : Settings) (grammar : Grammar), grammar.Plain → grammar.BeginsDefined →
      grammar.PatternsDefined → ¬ grammar.Gives .eof → grammar.Faithful settings text holes) ↔
        HarmlessHoles text holes) ∧
    ((∀ (settings : Settings) (grammar : Grammar), grammar.Compiled → grammar.Plain →
      grammar.BeginsDefined → grammar.PatternsDefined → ¬ grammar.Gives .eof →
        grammar.Faithful settings text holes) ↔ HarmlessHoles text holes) := by
  refine ⟨⟨fun h => ?_, fun hharmless => ?_⟩, ⟨fun h => ?_, fun hharmless => ?_⟩⟩
  · exact .of_compiled hsmall fun settings grammar _ => h settings grammar
  · intro settings grammar hplain hbegins _ heof
    exact hharmless.faithful hsmall hplain hbegins heof
  · exact .of_compiled hsmall h
  · intro settings grammar _ hplain hbegins _ heof
    exact hharmless.faithful hsmall hplain hbegins heof

/-- What is lost behind a first line of one character misleads no scan. Behind a longer first line
it misleads some, of compiled grammars also. -/
theorem a_hole_behind_one_character_misleads_no_scan :
    (∀ (settings : Settings) (grammar : Grammar), grammar.Plain → grammar.BeginsDefined →
      grammar.PatternsDefined → ¬ grammar.Gives .eof →
        grammar.Faithful settings ['\n', 'z'] [(1, 2)]) ∧
    ¬ ∀ (settings : Settings) (grammar : Grammar), grammar.Compiled → grammar.Plain →
      grammar.BeginsDefined → grammar.PatternsDefined → ¬ grammar.Gives .eof →
        grammar.Faithful settings ['x', '\n', 'z'] [(2, 3)] := by
  refine ⟨(no_scan_is_misled_by_holes_iff (by decide)).1.mpr
    (Or.inr (Or.inr ⟨⟨_, List.mem_cons_self, by decide⟩, Or.inl (by decide)⟩)), ?_⟩
  intro h
  rcases (no_scan_is_misled_by_holes_iff (by decide)).2.mp h with hnone | hzero | ⟨hone, _⟩
  · exact hnone 2 (by decide) ⟨_, List.mem_cons_self, by decide⟩
  · obtain ⟨hole, hmem, hle, _⟩ := hzero
    cases List.mem_singleton.mp hmem
    exact absurd hle (by decide)
  · obtain ⟨hole, hmem, hle, _⟩ := hone
    cases List.mem_singleton.mp hmem
    exact absurd hle (by decide)

/-- Text from `x` to `y`, with any line feeds in it, and line feeds elsewhere. -/
def Grammar.crossed : Grammar where
  regions := [{
    id := 0
    name := "crossed"
    beginPattern := .char 'x'
    endPattern := .char 'y'
    beginToken := .other "inside"
    contentToken := .other "inside"
    endToken := .other "inside"
    rules := []
    embedded := false }]
  customs := []
  rules := [.region 0, .pattern (.char '\n') (.other "feed")]
  defaultToken := .other "outside"

/-- The line feed is inside the region, and it can be read. But the window cannot be filled from it
on, which ends the region. -/
theorem a_failed_refill_ends_a_region :
    Grammar.crossed.Plain ∧ Grammar.crossed.BeginsDefined ∧ Grammar.crossed.PatternsDefined ∧
      ¬ Grammar.crossed.Gives .eof ∧
      ¬ Grammar.crossed.Faithful ⟨3, by decide⟩ ['x', '\n', 'z'] [(2, 3)] := by
  refine ⟨.of_ids rfl rfl, by decide, by decide, by decide, ?_⟩
  rintro ⟨scanner, spans, hassign, hspans, hfaithful⟩
  obtain ⟨-, rfl⟩ := Scanner.assign_eq_ok_iff.mp hassign
  let doc := (PatchyDocument.holed ['x', '\n', 'z'] [(2, 3)]).toDocument
  have hrecords : (Grammar.crossed.trace 2
      ((Scanner.fresh doc ⟨3, by decide⟩).withRange doc 0 3)).1 =
        [⟨0, 1, .other "inside", 1, 0, 1⟩, ⟨1, 1, .other "feed", 2, 0, 2⟩] := by
    decide +kernel
  have hwhole :
      (Grammar.crossed.spansOf (VersionedText.ofText ['x', '\n', 'z']).toDocument).toOption =
        some [⟨.other "inside", 0, 3⟩] := by
    decide +kernel
  rw [hspans] at hwhole
  have hfeed : ⟨1, 1, .other "feed", 2, 0, 2⟩ ∈ (Grammar.crossed.trace 2
      ((Scanner.fresh doc ⟨3, by decide⟩).withRange doc 0 3)).1 := by
    rw [hrecords]
    exact List.mem_cons_of_mem _ List.mem_cons_self
  obtain ⟨span, hmem, htoken, _⟩ := hfaithful 2 _ hfeed 1 (by decide) (by decide)
  rw [Option.some.inj hwhole] at hmem
  rw [List.mem_singleton.mp hmem] at htoken
  exact absurd htoken (by decide)

end RegionScan
