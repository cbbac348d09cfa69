import NestedCss.Proofs.ChainLengths
import NestedCss.Proofs.Headings
import NestedCss.Proofs.NestedBodies

set_option autoImplicit false

/-! The limit on nesting. Where no node can fail by itself, reading a body comes back with
the first body in it that is too deep for the levels that are left, or with none: an outermost
body is too deep when no level is left for it, and any other one when it is too deep, by one
level less, in the outermost body that it lies in. Bodies of mixins are not read where they
stand, so nothing in them is too deep. -/

namespace NestedCss

namespace Glyph

/-- At an index stands the body of a rule or of a media block, in no body of a mixin, and
at least so many other bodies stand around it. -/
structure TooDeep (limit : Nat) (whole : List Glyph) (index : Nat) (body : Body) : Prop where
  stands : ∃ header, BodyAt whole index header body ∧ ¬ Node.mixinMark <+: header
  outside : ∀ place header, BodyAround whole index body place header →
    ¬ Node.mixinMark <+: header
  deep : AtLeast limit fun place => ∃ header, BodyAround whole index body place header

end Glyph

open Glyph Slice

namespace SlicedInto

variable {glyphs rest : List Glyph} {whole last : Segmentation} {slices : List Slice}
variable {index place : Nat} {header : Text} {body outer : Body}

private theorem tooDeep_zero_of_holdsBody (sliced : SlicedInto glyphs whole slices rest last)
    (faultless : whole.fault? = none) (held : HoldsBody slices index header body)
    (plain : ¬ Node.mixinMark <+: header) : TooDeep 0 glyphs index body where
  stands := ⟨header, sliced.bodyAt_of_holdsBody held, plain⟩
  outside := fun _ _ around => absurd around (sliced.not_bodyAround_of_holdsBody faultless held)
  deep := ⟨∅, Nat.le_refl _, fun _ present => absurd present (Finset.notMem_empty _)⟩

private theorem exists_holdsBody_of_tooDeep (sliced : SlicedInto glyphs whole slices rest last)
    (faultless : whole.fault? = none) {limit : Nat} (deep : TooDeep limit glyphs index body) :
    ∃ place header outer, HoldsBody slices place header outer ∧ ¬ Node.mixinMark <+: header ∧
      place ≤ index := by
  obtain ⟨header, stands, plain⟩ := deep.stands
  rcases sliced.holdsBody_or_within faultless stands with
    held | ⟨place, heading, outer, further, held, rfl, within⟩
  · exact ⟨index, header, body, held, plain, Nat.le_refl _⟩
  · have around :=
      (sliced.bodyAround_of_within_iff faultless held within place heading).mpr (Or.inl ⟨rfl, rfl⟩)
    exact ⟨place, heading, outer, held, deep.outside _ _ around, Nat.le_add_right _ _⟩

/-- A body is too deep by one level more where it is too deep in the outermost body that it
lies in. -/
theorem tooDeep_succ_iff (sliced : SlicedInto glyphs whole slices rest last)
    (faultless : whole.fault? = none) {limit : Nat} :
    TooDeep (limit + 1) glyphs index body ↔
      ∃ place header outer, HoldsBody slices place header outer ∧ ¬ Node.mixinMark <+: header ∧
        ∃ inner, index = place + inner ∧ TooDeep limit outer.glyphs inner body := by
  constructor
  · intro deep
    obtain ⟨header, stands, plain⟩ := deep.stands
    rcases sliced.holdsBody_or_within faultless stands with
      held | ⟨place, heading, outer, inner, held, rfl, within⟩
    · -- Nothing stands around an outermost body, but something should.
      obtain ⟨places, enough, each⟩ := deep.deep
      obtain ⟨place, present⟩ := Finset.card_pos.mp (Nat.lt_of_lt_of_le (Nat.succ_pos limit) enough)
      obtain ⟨name, around⟩ := each place present
      exact absurd around (sliced.not_bodyAround_of_holdsBody faultless held)
    · have around := fun other name =>
        (sliced.bodyAround_of_within_iff faultless held within other name).mpr
      refine ⟨place, heading, outer, held, deep.outside _ _ (around _ _ (Or.inl ⟨rfl, rfl⟩)), inner,
        rfl, ⟨header, within, plain⟩, ?_,
        (sliced.atLeast_bodyAround_succ_iff faultless held within).mp deep.deep⟩
      exact fun other name inside => deep.outside _ _ (around _ _ (Or.inr ⟨other, rfl, inside⟩))
  · rintro ⟨place, heading, outer, held, plain, inner, rfl, deep⟩
    obtain ⟨header, within, plainToo⟩ := deep.stands
    refine ⟨⟨header, sliced.bodyAt_of_within held within, plainToo⟩, ?_,
      (sliced.atLeast_bodyAround_succ_iff faultless held within).mpr deep.deep⟩
    intro place' name found
    rcases (sliced.bodyAround_of_within_iff faultless held within _ _).mp found with
      ⟨_, rfl⟩ | ⟨further, _, inside⟩
    · exact plain
    · exact deep.outside _ _ inside

end SlicedInto

/-! ### Nodes that cannot fail by themselves -/

/-- Comments aside, no inclusion and no variable is spelled in some glyphs. -/
structure Glyph.Direct (glyphs : List Glyph) : Prop where
  noInclusion : ¬ Node.includeMark <:+: spoken glyphs
  noVariable : '$' ∉ spoken glyphs

private theorem Glyph.Direct.of_infix {part whole : List Glyph} (direct : Direct whole)
    (within : part <:+: whole) : Direct part := by
  obtain ⟨front, back, rfl⟩ := within
  have spoken : spoken part <:+: spoken (front ++ part ++ back) := by
    rw [spoken_append, spoken_append]
    exact List.infix_append _ _ _
  exact ⟨fun found => direct.noInclusion (found.trans spoken),
    fun present => direct.noVariable (spoken.subset present)⟩

section Nodes

variable (options : CompileOptions) (nested : BodyReader) (site : Site) (tree : RuleTree)

private theorem exists_applyNode_statement {written : List Glyph} (direct : Direct written)
    (location : Location) :
    ∃ after, (applyNode options nested site tree
      (Node.ofStatement (spokenText written) location)).outcome = .ok after := by
  have trimmed : spokenText written <:+: spoken written := Text.trim_isInfix _
  have noRequest : Text.afterLead? Node.includeMark (spokenText written) = none :=
    Text.afterLead?_eq_none fun leads => direct.noInclusion (leads.isInfix.trans trimmed)
  have noVariable : '$' ∉ spokenText written :=
    fun present => direct.noVariable (trimmed.subset present)
  have notBinding : (spokenText written).head? ≠ some '$' :=
    fun begins => noVariable (List.mem_of_mem_head? begins)
  have noReference : Reference.ofValue?
      (Property.ofStatement (spokenText written) location).value.trim = none := by
    rw [Reference.ofValue?_eq_none_iff]
    intro begins
    have held := Text.mem_of_mem_trim (Text.mem_of_mem_trim (List.mem_of_mem_head? begins))
    exact noVariable ((List.dropWhile_sublist _).subset (List.mem_of_mem_drop held))
  rw [Node.ofStatement, noRequest]
  simp only [if_neg notBinding, applyNode, RuleTree.substitute, noReference]
  exact ⟨_, rfl⟩

private theorem exists_applyNode_mixin {header : Text} (mixin : Node.mixinMark <+: header)
    (body : Body) :
    ∃ after, (applyNode options nested site tree (Node.ofBlock header body)).outcome = .ok after := by
  obtain ⟨rest, rfl⟩ := mixin
  rw [Node.ofBlock, Text.afterLead?_append]
  exact ⟨_, rfl⟩

private theorem exists_applyNode_block {header : Text} (plain : ¬ Node.mixinMark <+: header)
    (body : Body) :
    ∃ within middle, applyNode options nested site tree (Node.ofBlock header body) =
      nested within body middle := by
  rw [Node.ofBlock, Text.afterLead?_eq_none plain]
  cases Text.afterLead? Node.mediaMark header with
  | some query => exact ⟨_, _, rfl⟩
  | none => exact ⟨_, _, rfl⟩

end Nodes

/-! ### The first body that is too deep -/

/-- Reading goes well where there are no such bodies, and otherwise the first of them makes
it fail. -/
inductive FailsAtFirst (such : Nat → Body → Prop) : Except Error RuleTree → Prop
  | passes (none : ∀ index body, ¬ such index body) (tree : RuleTree) :
      FailsAtFirst such (.ok tree)
  | fails {index : Nat} {body : Body} (found : such index body)
      (first : ∀ other below, such other below → index ≤ other) :
      FailsAtFirst such (.error ⟨.nestingTooDeep nestingLimit, body.origin⟩)

private theorem FailsAtFirst.of_ok {such : Nat → Body → Prop} {outcome : Except Error RuleTree}
    (none : ∀ index body, ¬ such index body) (ended : ∃ after, outcome = .ok after) :
    FailsAtFirst such outcome := by
  obtain ⟨after, rfl⟩ := ended
  exact .passes none after

private theorem FailsAtFirst.of_covered {such wide : Nat → Body → Prop}
    {outcome : Except Error RuleTree}
    (fails : FailsAtFirst such outcome) (sound : ∀ index body, such index body → wide index body)
    (covered : ∀ index body, wide index body → ∃ other below, such other below ∧ other ≤ index) :
    FailsAtFirst wide outcome := by
  cases fails with
  | passes none tree =>
      refine .passes (fun index body found => ?_) tree
      obtain ⟨other, below, some, _⟩ := covered index body found
      exact none other below some
  | fails found first =>
      refine .fails (sound _ _ found) fun index body further => ?_
      obtain ⟨other, below, some, before⟩ := covered index body further
      exact (first other below some).trans before

private theorem FailsAtFirst.shift {such : Nat → Body → Prop} {outcome : Except Error RuleTree}
    (fails : FailsAtFirst such outcome) (place : Nat) :
    FailsAtFirst (fun index body => ∃ inner, index = place + inner ∧ such inner body) outcome := by
  cases fails with
  | passes none tree =>
      refine .passes ?_ tree
      rintro _ body ⟨inner, rfl, found⟩
      exact none inner body found
  | fails found first =>
      refine .fails ⟨_, rfl, found⟩ ?_
      rintro _ below ⟨inner, rfl, present⟩
      exact Nat.add_le_add_left (first inner below present) place

def DeepWithin (levels place : Nat) (outer : Body) (index : Nat) (body : Body) : Prop :=
  match levels with
  | 0 => index = place ∧ body = outer
  | limit + 1 => ∃ inner, index = place + inner ∧ TooDeep limit outer.glyphs inner body

private theorem DeepWithin.bounds {levels place index : Nat} {outer body : Body}
    (deep : DeepWithin levels place outer index body) :
    place ≤ index ∧ index ≤ place + outer.text.length := by
  cases levels with
  | zero =>
      obtain ⟨rfl, _⟩ := deep
      exact ⟨Nat.le_refl _, Nat.le_add_right _ _⟩
  | succ limit =>
      obtain ⟨inner, rfl, ⟨header, stands, _⟩, _⟩ := deep
      have ends := stands.bounds.2
      rw [length_glyphs] at ends
      omega

def DeepAmong (levels start : Nat) (slices : List Slice) (index : Nat) (body : Body) : Prop :=
  ∃ place header outer, HoldsBody slices place header outer ∧ ¬ Node.mixinMark <+: header ∧
    DeepWithin levels (start + place) outer index body

section Slices

variable {levels start index : Nat} {body : Body}

private theorem not_deepAmong_nil : ¬ DeepAmong levels start [] index body := by
  rintro ⟨place, header, outer, held, _⟩
  exact not_holdsBody_nil held

private theorem deepAmong_singleton_iff {slice : Slice} :
    DeepAmong levels start [slice] index body ↔
      ∃ written opening outer closing, slice = .block written opening outer closing ∧
        outer.text.allBlank = false ∧ ¬ Node.mixinMark <+: spokenText written ∧
        DeepWithin levels (start + (written.length + 1)) outer index body := by
  constructor
  · rintro ⟨place, header, outer, held, plain, deep⟩
    rcases holdsBody_cons_iff.mp held with
      ⟨written, opening, closing, same, solid, rfl, rfl⟩ | ⟨further, _, none⟩
    · exact ⟨written, opening, outer, closing, same, solid, plain, deep⟩
    · exact absurd none not_holdsBody_nil
  · rintro ⟨written, opening, outer, closing, same, solid, plain, deep⟩
    exact ⟨_, _, outer,
      holdsBody_cons_iff.mpr (Or.inl ⟨written, opening, closing, same, solid, rfl, rfl⟩), plain, deep⟩

private theorem deepAmong_cons_iff {slice : Slice} {others : List Slice} :
    DeepAmong levels start (slice :: others) index body ↔
      DeepAmong levels start [slice] index body ∨
        DeepAmong levels (start + slice.glyphs.length) others index body := by
  constructor
  · rintro ⟨place, header, outer, held, plain, deep⟩
    rcases holdsBody_cons_iff.mp held with own | ⟨further, rfl, later⟩
    · exact Or.inl ⟨place, header, outer, holdsBody_cons_iff.mpr (Or.inl own), plain, deep⟩
    · rw [← Nat.add_assoc] at deep
      exact Or.inr ⟨further, header, outer, later, plain, deep⟩
  · rintro (⟨place, header, outer, held, plain, deep⟩ | ⟨further, header, outer, later, plain, deep⟩)
    · rcases holdsBody_cons_iff.mp held with own | ⟨_, _, none⟩
      · exact ⟨place, header, outer, holdsBody_cons_iff.mpr (Or.inl own), plain, deep⟩
      · exact absurd none not_holdsBody_nil
    · rw [Nat.add_assoc] at deep
      exact ⟨_, header, outer, holdsBody_cons_iff.mpr (Or.inr ⟨further, rfl, later⟩), plain, deep⟩

end Slices

private theorem SlicedInto.tooDeep_of_deepAmong {glyphs rest : List Glyph}
    {whole last : Segmentation}
    {slices : List Slice} (sliced : SlicedInto glyphs whole slices rest last)
    (faultless : whole.fault? = none) {levels index : Nat} {body : Body}
    (deep : DeepAmong levels 0 slices index body) : TooDeep levels glyphs index body := by
  obtain ⟨place, header, outer, held, plain, within⟩ := deep
  rw [Nat.zero_add] at within
  cases levels with
  | zero =>
      obtain ⟨rfl, rfl⟩ := within
      exact sliced.tooDeep_zero_of_holdsBody faultless held plain
  | succ limit =>
      exact (sliced.tooDeep_succ_iff faultless).mpr ⟨place, header, outer, held, plain, within⟩

private theorem SlicedInto.exists_deepAmong {glyphs rest : List Glyph} {whole last : Segmentation}
    {slices : List Slice} (sliced : SlicedInto glyphs whole slices rest last)
    (faultless : whole.fault? = none) {levels index : Nat} {body : Body}
    (deep : TooDeep levels glyphs index body) :
    ∃ other below, DeepAmong levels 0 slices other below ∧ other ≤ index := by
  cases levels with
  | zero =>
      obtain ⟨place, header, outer, held, plain, before⟩ :=
        sliced.exists_holdsBody_of_tooDeep faultless deep
      refine ⟨place, outer, ⟨place, header, outer, held, plain, ?_⟩, before⟩
      exact ⟨(Nat.zero_add _).symm, rfl⟩
  | succ limit =>
      obtain ⟨place, header, outer, held, plain, within⟩ :=
        (sliced.tooDeep_succ_iff faultless).mp deep
      refine ⟨index, body, ⟨place, header, outer, held, plain, ?_⟩, Nat.le_refl _⟩
      rwa [Nat.zero_add]

/-! ### Reading in the order of the text -/

private theorem FailsAtFirst.andThen {first : Traced RuleTree} {next : RuleTree → Traced RuleTree}
    {early late such : Nat → Body → Prop} (fails : FailsAtFirst early first.outcome)
    (further : ∀ tree, FailsAtFirst late (next tree).outcome)
    (parts : ∀ index body, such index body ↔ early index body ∨ late index body)
    (apart : ∀ index body other below, early index body → late other below → index ≤ other) :
    FailsAtFirst such (first.andThen next).outcome := by
  obtain ⟨dropped, outcome⟩ := first
  cases fails with
  | passes none tree =>
      refine (further tree).of_covered (fun index body found => (parts _ _).mpr (Or.inr found)) ?_
      intro index body found
      exact ⟨index, body, ((parts _ _).mp found).resolve_left (none _ _), Nat.le_refl _⟩
  | fails found first =>
      refine .fails ((parts _ _).mpr (Or.inl found)) fun other below present => ?_
      rcases (parts _ _).mp present with here | later
      · exact first other below here
      · exact apart _ _ _ _ found later

section Reading

variable {options : CompileOptions} {levels : Nat} {site : Site}

/-- Bodies that are read with so many levels left fail at the first body that is too deep. -/
def ReadsDeep (options : CompileOptions) (levels : Nat) : Prop :=
  ∀ site outer tree place, outer.text.Closed → Direct outer.glyphs →
    FailsAtFirst (DeepWithin levels place outer) (readBody options levels site outer tree).outcome

def readSlices (options : CompileOptions) (levels : Nat) (site : Site) (tree : RuleTree)
    (slices : List Slice) : Traced RuleTree :=
  Traced.foldl (applyNode options (readBody options levels) site) tree
    ((slices.filterMap Slice.segment?).map Node.ofSegment)

private theorem readSlices_singleton (tree : RuleTree) (slice : Slice) :
    readSlices options levels site tree [slice] =
      Traced.foldl (applyNode options (readBody options levels) site) tree
        (slice.segment?.toList.map Node.ofSegment) := by
  rw [readSlices, List.filterMap_cons]
  cases slice.segment? <;> rfl

private theorem exists_foldl_statement (written : List Glyph) (direct : Direct written)
    (substitute : Location) (tree : RuleTree) :
    ∃ after, (Traced.foldl (applyNode options (readBody options levels) site) tree
      ((statement? written substitute).toList.map Node.ofSegment)).outcome = .ok after := by
  unfold statement?
  split
  · exact ⟨tree, rfl⟩
  · simp only [Option.toList_some, List.map_singleton, Node.ofSegment, Traced.foldl_singleton]
    exact exists_applyNode_statement options _ site tree direct _

private theorem failsAtFirst_block (reads : ReadsDeep options levels) {written : List Glyph}
    {opening closing : Glyph} {inner : Body} (closed : inner.text.Closed) (direct : Direct inner.glyphs)
    (start : Nat) (tree : RuleTree) :
    FailsAtFirst (DeepAmong levels start [.block written opening inner closing])
      (readSlices options levels site tree [.block written opening inner closing]).outcome := by
  rw [readSlices_singleton, Slice.segment?]
  by_cases blank : inner.text.allBlank = true
  · rw [if_pos blank]
    refine .of_ok (fun index body deep => ?_) ⟨tree, rfl⟩
    obtain ⟨_, _, _, _, same, solid, _⟩ := deepAmong_singleton_iff.mp deep
    cases same
    exact Bool.eq_false_iff.mp solid blank
  · rw [if_neg blank]
    simp only [Option.toList_some, List.map_singleton, Node.ofSegment, Traced.foldl_singleton]
    by_cases mixin : Node.mixinMark <+: spokenText written
    · refine .of_ok (fun index body deep => ?_)
        (exists_applyNode_mixin options _ site tree mixin inner)
      obtain ⟨_, _, _, _, same, _, plain, _⟩ := deepAmong_singleton_iff.mp deep
      cases same
      exact plain mixin
    · obtain ⟨within, middle, same⟩ :=
        exists_applyNode_block options (readBody options levels) site tree mixin inner
      rw [same]
      refine (reads within inner middle (start + (written.length + 1)) closed direct).of_covered
        (fun index body deep => ?_) fun index body deep => ?_
      · exact deepAmong_singleton_iff.mpr
          ⟨written, opening, inner, closing, rfl, Bool.eq_false_iff.mpr blank, mixin, deep⟩
      · obtain ⟨_, _, _, _, same, _, _, deep⟩ := deepAmong_singleton_iff.mp deep
        cases same
        exact ⟨index, body, deep, Nat.le_refl _⟩

private theorem failsAtFirst_slice (reads : ReadsDeep options levels) {slice : Slice}
    (proper : slice.Proper) (direct : Direct slice.glyphs) (start : Nat) (tree : RuleTree) :
    FailsAtFirst (DeepAmong levels start [slice])
      (readSlices options levels site tree [slice]).outcome := by
  cases proper with
  | @comment lead text location idle attached unclosed =>
      refine .of_ok (fun index body deep => ?_) ⟨_, rfl⟩
      obtain ⟨_, _, _, _, same, _⟩ := deepAmong_singleton_iff.mp deep
      cases same
  | @statement written ending undivided ends =>
      have spoken : Direct written := direct.of_infix (List.infix_append [] written [ending])
      rw [readSlices_singleton]
      refine .of_ok (fun index body deep => ?_)
        (exists_foldl_statement written spoken ending.location tree)
      obtain ⟨_, _, _, _, same, _⟩ := deepAmong_singleton_iff.mp deep
      cases same
  | @block written opening closing inner undivided opens closes closed =>
      exact failsAtFirst_block reads closed
        (direct.of_infix ⟨written ++ [opening], [closing], by simp [Slice.glyphs]⟩) start tree

/-- Slices are read one after the other, and what is too deep in one of them lies before
what is too deep in the next. -/
theorem failsAtFirst_slices (reads : ReadsDeep options levels) (slices : List Slice) :
    (∀ slice ∈ slices, slice.Proper) → Direct (slices.flatMap Slice.glyphs) → ∀ start tree,
      FailsAtFirst (DeepAmong levels start slices)
        (readSlices options levels site tree slices).outcome := by
  induction slices with
  | nil => exact fun _ _ start tree => .passes (fun _ _ => not_deepAmong_nil) tree
  | cons slice others ih =>
      intro proper direct start tree
      obtain ⟨own, properToo⟩ := List.forall_mem_cons.mp proper
      rw [List.flatMap_cons] at direct
      have head : Direct slice.glyphs := direct.of_infix (List.infix_append [] _ _)
      have tail : Direct (others.flatMap Slice.glyphs) := direct.of_infix ⟨slice.glyphs, [], by simp⟩
      have parted : readSlices options levels site tree (slice :: others) =
          (readSlices options levels site tree [slice]).andThen fun middle =>
            readSlices options levels site middle others := by
        simp only [readSlices]
        rw [← Traced.foldl_append, ← List.map_append, ← List.filterMap_append]
        rfl
      rw [parted]
      refine (failsAtFirst_slice reads own head start tree).andThen
        (fun middle => ih properToo tail (start + slice.glyphs.length) middle)
        (fun _ _ => deepAmong_cons_iff) ?_
      intro index body other below here later
      obtain ⟨written, opening, outer, closing, rfl, _, _, deep⟩ := deepAmong_singleton_iff.mp here
      obtain ⟨place, _, _, _, _, deepToo⟩ := later
      have ends := deep.bounds.2
      have begins := deepToo.bounds.1
      simp only [Slice.glyphs, List.length_append, List.length_cons, length_glyphs] at begins
      omega

private theorem failsAtFirst_text (reads : ReadsDeep options levels) {body : Body}
    (faultless : body.segmentation.fault? = none) (direct : Direct body.glyphs) (tree : RuleTree) :
    FailsAtFirst (TooDeep levels body.glyphs)
      (readBody options (levels + 1) site body tree).outcome := by
  obtain ⟨slices, rest, last, sliced⟩ := body.exists_slicedInto
  obtain ⟨_, rfl⟩ := sliced.ends_of_faultless faultless
  have spoken : Direct (slices.flatMap Slice.glyphs ++ rest) := sliced.split ▸ direct
  have parted : readBody options (levels + 1) site body tree =
      (readSlices options levels site tree slices).andThen fun middle =>
        Traced.foldl (applyNode options (readBody options levels) site) middle
          ((statement? rest .start).toList.map Node.ofSegment) := by
    have whole : readBody options (levels + 1) site body tree =
        applySegmentation options (readBody options levels) site body.segmentation tree := rfl
    rw [whole, applySegmentation, Traced.foldNodes, faultless]
    simp only [Traced.andThen_done, sliced.segments_eq, Segmentation.behind, List.map_append,
      Traced.foldl_append]
    rfl
  have among : FailsAtFirst (DeepAmong levels 0 slices)
      (readBody options (levels + 1) site body tree).outcome := by
    rw [parted]
    refine (failsAtFirst_slices reads slices sliced.proper
      (spoken.of_infix (List.infix_append [] _ _)) 0 tree).andThen
      (fun middle => .of_ok (fun _ _ => not_false)
        (exists_foldl_statement rest (spoken.of_infix ⟨_, [], List.append_nil _⟩) .start middle))
      (fun _ _ => (or_iff_left not_false).symm) fun _ _ _ _ _ impossible => impossible.elim
  exact among.of_covered (fun index body deep => sliced.tooDeep_of_deepAmong faultless deep)
    fun index body deep => sliced.exists_deepAmong faultless deep

private theorem readsDeep (options : CompileOptions) (levels : Nat) : ReadsDeep options levels := by
  -- What lies in an outermost body is read with one level less, and its place is counted
  -- from where that body begins.
  induction levels with
  | zero =>
      intro site outer tree place _ _
      have found : DeepWithin 0 place outer place outer := ⟨rfl, rfl⟩
      refine .fails found ?_
      rintro other below ⟨rfl, _⟩
      exact Nat.le_refl _
  | succ limit ih =>
      intro site outer tree place closed direct
      exact (failsAtFirst_text ih closed.fault?_eq_none direct tree).shift place

end Reading

/-! ### The limit -/

private theorem Glyph.TooDeep.location_eq {limit index : Nat} {source : Text} {body : Body}
    (deep : TooDeep limit (Body.ofSource source).glyphs index body) :
    body.origin = Location.start.advanceOver (source.take index) := by
  obtain ⟨header, stands, _⟩ := deep.stands
  exact stands.origin_eq

/-- The limit on nesting is exact. A text without a fault, in which no inclusion and no
variable is spelled outside comments, cannot be read exactly when the body of some rule or
media block, in no body of a mixin, has at least as many other bodies around it as the limit
says, and what is blamed is the place where the first of these bodies begins. In any tree that
is read no rule has more rules above it than the limit says, so that no path down the tree is
longer and the sheet is written within as many levels. -/
theorem nesting_limit_exact (options : CompileOptions) (source : Text) :
    ((Body.ofSource source).segmentation.fault? = none →
      ¬ Node.includeMark <:+: spoken (Body.ofSource source).glyphs →
      '$' ∉ spoken (Body.ofSource source).glyphs →
      ((∃ error, (RuleTree.ofSource options source).outcome = .error error) ↔
        ∃ index body, TooDeep nestingLimit (Body.ofSource source).glyphs index body) ∧
      ∀ error, (RuleTree.ofSource options source).outcome = .error error →
        ∃ index body, TooDeep nestingLimit (Body.ofSource source).glyphs index body ∧
          (∀ other below, TooDeep nestingLimit (Body.ofSource source).glyphs other below →
            index ≤ other) ∧
          error = ⟨.nestingTooDeep nestingLimit, Location.start.advanceOver (source.take index)⟩) ∧
    ∀ tree, (RuleTree.ofSource options source).outcome = .ok tree →
      (∀ id, id < tree.size → (tree.ancestors id).length ≤ nestingLimit + 1) ∧
      (∀ id ids, tree.Path RuleTree.root id ids → ids.length ≤ nestingLimit + 1) ∧
      tree.sheetWithin (nestingLimit + 1) RuleTree.root = tree.sheet := by
  refine ⟨?_, ?_⟩
  · intro faultless noInclusion noVariable
    have fails : FailsAtFirst (TooDeep nestingLimit (Body.ofSource source).glyphs)
        (RuleTree.ofSource options source).outcome :=
      failsAtFirst_text (readsDeep options nestingLimit) faultless ⟨noInclusion, noVariable⟩ .empty
    generalize (RuleTree.ofSource options source).outcome = outcome at fails
    cases fails with
    | passes none tree =>
        refine ⟨⟨?_, ?_⟩, ?_⟩
        · rintro ⟨error, impossible⟩
          cases impossible
        · rintro ⟨index, body, deep⟩
          exact absurd deep (none index body)
        · intro error impossible
          cases impossible
    | @fails index body found first =>
        refine ⟨⟨fun _ => ⟨index, body, found⟩, fun _ => ⟨_, rfl⟩⟩, ?_⟩
        intro error same
        injection same with same
        exact ⟨index, body, found, first, by rw [← same, found.location_eq]⟩
  · intro tree ended
    have shallow := shallow_ofSource ended
    have ordered := ordered_ofSource ended
    have linked := linked_ofSource ended
    exact ⟨shallow, fun id ids path => shallow.length_path_le ordered linked path,
      shallow.sheetWithin_eq ordered linked⟩

/-- Rules in each other, with one declaration in the innermost. -/
def staircase (depth : Nat) : Text :=
  (List.replicate depth "a\x7b".toList).flatten ++ "b:c".toList ++ List.replicate depth '}'

theorem nesting_limit_of_staircases :
    (∃ index body, TooDeep nestingLimit (Body.ofSource (staircase 65)).glyphs index body ∧
      (⟨1, 131⟩ : Location) = Location.start.advanceOver ((staircase 65).take index)) ∧
    ∃ tree, (RuleTree.ofSource {} (staircase 64)).outcome = .ok tree ∧ tree.size = 65 ∧
      tree.sheetWithin 65 RuleTree.root = tree.sheet := by
  constructor
  · have deep : ((RuleTree.ofSource {} (staircase 65)).map RuleTree.size).outcome =
        .error ⟨.nestingTooDeep 64, ⟨1, 131⟩⟩ := by decide +kernel
    obtain ⟨index, body, found, _, blamed⟩ :=
      ((nesting_limit_exact {} (staircase 65)).1 (by decide +kernel) (by decide +kernel)
        (by decide +kernel)).2 _ (Traced.outcome_map_eq_error.mp deep)
    exact ⟨index, body, found, congrArg Error.location blamed⟩
  · have sized : ((RuleTree.ofSource {} (staircase 64)).map RuleTree.size).outcome = .ok 65 := by
      decide +kernel
    obtain ⟨tree, ended, size⟩ := Traced.outcome_map_eq_ok.mp sized
    exact ⟨tree, ended, size, ((nesting_limit_exact {} (staircase 64)).2 tree ended).2.2⟩

/-- An inclusion with a comment in its mark is spelled only where comments are left out. It
fails in a text without any body. -/
theorem inclusion_spelled_around_comment :
    (Body.ofSource "@in/**/clude m;".toList).segmentation.fault? = none ∧
    ¬ Node.includeMark <:+: "@in/**/clude m;".toList ∧ '$' ∉ "@in/**/clude m;".toList ∧
    (∀ index body, ¬ TooDeep nestingLimit (Body.ofSource "@in/**/clude m;".toList).glyphs index body) ∧
    (RuleTree.ofSource ⟨true⟩ "@in/**/clude m;".toList).outcome =
      .error ⟨.unresolvedMixin "m".toList, .start⟩ := by
  refine ⟨by decide +kernel, by decide, by decide, ?_, rfl⟩
  intro index body deep
  have bare : ∀ glyph ∈ (Body.ofSource "@in/**/clude m;".toList).glyphs, glyph.member ≠ '{' := by
    decide +kernel
  obtain ⟨header, ⟨split, _, opens, _⟩, _⟩ := deep.stands
  refine bare _ ?_ opens.2
  rw [split]
  exact List.mem_append_right _ (List.mem_cons_self ..)

end NestedCss
