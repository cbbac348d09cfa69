import NestedCss.Proofs.Positions
import NestedCss.Proofs.Selector

set_option autoImplicit false

/-! Slices of a text. Every segment is cut out of the text as it stands there: the text of
a comment and the body of a block are verbatim, and a statement or a header is what is
written since the slice before, without its comments and trimmed. The slices follow each
other without a gap, those that are dropped for being blank included, so nothing that is
written is lost or read twice. -/

namespace NestedCss

namespace Glyph

instance (glyph : Glyph) : Decidable glyph.Begins :=
  inferInstanceAs (Decidable (glyph.role.isComment = false ∧ isBlank glyph.member = false))

def startOf (written : List Glyph) (substitute : Location) : Location :=
  ((written.find? fun glyph => decide glyph.Begins).map Glyph.location).getD substitute

/-- What is written up to a delimiter. No comment ends in it before anything else begins,
because such a comment stands on its own. -/
structure Undivided (written : List Glyph) : Prop where
  plain : ∀ glyph ∈ written, ¬ glyph.Delimits
  attached : ∀ glyph ∈ written.takeWhile fun glyph => !decide glyph.Begins,
    glyph.role ≠ .commentClose

def statement? (written : List Glyph) (substitute : Location) : Option Segment :=
  if spokenText written = [] then none
  else some (.statement (spokenText written) (startOf written substitute))

def unclosedContext (written : List Glyph) : Text :=
  if spokenText written = [] then "unclosed `\x7b`".toList
  else "unclosed block `".toList ++ spokenText written ++ "`".toList

/-- What is written without comments, blanks and line breaks. -/
def content (glyphs : List Glyph) : Text :=
  (glyphs.filter fun glyph => decide glyph.Begins).map Glyph.member

end Glyph

inductive Slice where
  /-- A comment that stands on its own, and the blanks and line comments before it. -/
  | comment (lead : List Glyph) (start : Location) (text : Text)
  | statement (written : List Glyph) (ending : Glyph)
  | block (written : List Glyph) (opening : Glyph) (inner : Body) (closing : Glyph)

/-- What is written of a segment, its own braces included. -/
def Segment.content : Segment → Text
  | .statement text _ => text.dropBlanks
  | .block header _ body => header.dropBlanks ++ '{' :: (Glyph.content body.glyphs ++ ['}'])
  | .comment _ _ => []

namespace Slice

def glyphs : Slice → List Glyph
  | .comment lead start text => lead ++ Glyph.blockComment start text
  | .statement written ending => written ++ [ending]
  | .block written opening inner closing => written ++ opening :: (inner.glyphs ++ [closing])

def text : Slice → Text
  | .comment lead _ text => lead.map Glyph.member ++ ("/*".toList ++ text ++ "*/".toList)
  | .statement written _ => written.map Glyph.member ++ [';']
  | .block written _ inner _ => written.map Glyph.member ++ '{' :: (inner.text ++ ['}'])

def segment? : Slice → Option Segment
  | .comment _ start text => some (.comment text start)
  | .statement written ending => Glyph.statement? written ending.location
  | .block written opening inner _ =>
      if inner.text.allBlank then none
      else some (.block (Glyph.spokenText written) (Glyph.startOf written opening.location) inner)

inductive Proper : Slice → Prop
  | comment {lead : List Glyph} {text : Text} (start : Location)
      (idle : ∀ glyph ∈ lead, ¬ glyph.Begins) (attached : Glyph.Undivided lead)
      (unclosed : ¬ ['*', '/'] <:+: text) : Proper (.comment lead start text)
  | statement {written : List Glyph} {ending : Glyph} (undivided : Glyph.Undivided written)
      (ends : ending.IsCode ';') : Proper (.statement written ending)
  | block {written : List Glyph} {opening closing : Glyph} {inner : Body}
      (undivided : Glyph.Undivided written) (opens : opening.IsCode '{')
      (closes : closing.IsCode '}') (closed : inner.text.Closed) :
      Proper (.block written opening inner closing)

theorem not_begins_of_comment {lead : List Glyph} {text : Text} (start : Location)
    (idle : ∀ glyph ∈ lead, ¬ glyph.Begins) (unclosed : ¬ ['*', '/'] <:+: text) :
    ∀ glyph ∈ (comment lead start text).glyphs, ¬ glyph.Begins :=
  List.forall_mem_append.mpr ⟨idle, fun _ present =>
    Glyph.not_begins_of_isComment (Glyph.isComment_of_mem_blockComment unclosed present)⟩

/-- What is written in a slice is in its segment, apart from the header of a block that is
dropped. -/
def content (slice : Slice) : Text :=
  let held := slice.segment?.elim [] Segment.content
  match slice with
  | .comment _ _ _ => held
  | .statement _ _ => held ++ [';']
  | .block written _ inner _ =>
      if inner.text.allBlank then (Glyph.spokenText written).dropBlanks ++ ['{', '}'] else held

end Slice

/-- What the end of a text leaves: a statement that nothing ends, or a brace without a
partner and everything after it. -/
inductive Remainder : List Glyph → Segmentation → Prop
  | ends {written : List Glyph} (undivided : Glyph.Undivided written) :
      Remainder written ⟨(Glyph.statement? written .start).toList, none⟩
  | unclosed {written after : List Glyph} {opening : Glyph} (undivided : Glyph.Undivided written)
      (opens : opening.IsCode '{') (stays : Glyph.openAfter 0 after ≠ none) :
      Remainder (written ++ opening :: after)
        ⟨[], some (Assembly.unbalanced (Glyph.unclosedContext written) opening.location)⟩
  | unexpected {written after : List Glyph} {closing : Glyph} (undivided : Glyph.Undivided written)
      (closes : closing.IsCode '}') :
      Remainder (written ++ closing :: after)
        ⟨[], some (Assembly.unbalanced "unexpected `\x7d`".toList closing.location)⟩

/-- Some glyphs fall into slices and a remainder, and so do their segments. -/
structure SlicedInto (glyphs : List Glyph) (whole : Segmentation) (slices : List Slice)
    (rest : List Glyph) (last : Segmentation) : Prop where
  split : glyphs = slices.flatMap Slice.glyphs ++ rest
  proper : ∀ slice ∈ slices, slice.Proper
  remains : Remainder rest last
  segments_eq : whole = last.behind (slices.filterMap Slice.segment?)

namespace SlicedInto

private theorem remainder {rest : List Glyph} {last : Segmentation}
    (remains : Remainder rest last) :
    SlicedInto rest last [] rest last where
  split := rfl
  proper := fun _ present => by cases present
  remains := remains
  segments_eq := rfl

variable {glyphs rest : List Glyph} {whole last : Segmentation} {slices : List Slice} {slice : Slice}

private theorem cons_none (sliced : SlicedInto glyphs whole slices rest last)
    (proper : slice.Proper) (dropped : slice.segment? = none) :
    SlicedInto (slice.glyphs ++ glyphs) whole (slice :: slices) rest last where
  split := by rw [sliced.split, List.flatMap_cons, List.append_assoc]
  proper := List.forall_mem_cons.mpr ⟨proper, sliced.proper⟩
  remains := sliced.remains
  segments_eq := by
    rw [sliced.segments_eq, List.filterMap_cons, dropped]

private theorem cons_some (sliced : SlicedInto glyphs whole slices rest last)
    (proper : slice.Proper) {segment : Segment} (kept : slice.segment? = some segment) :
    SlicedInto (slice.glyphs ++ glyphs) (whole.cons segment) (slice :: slices) rest last where
  split := by rw [sliced.split, List.flatMap_cons, List.append_assoc]
  proper := List.forall_mem_cons.mpr ⟨proper, sliced.proper⟩
  remains := sliced.remains
  segments_eq := by
    rw [sliced.segments_eq, List.filterMap_cons, kept]
    rfl

end SlicedInto

/-! ### What is spoken -/

namespace Glyph

theorem begins_of_delimits {glyph : Glyph} (delimits : glyph.Delimits) : glyph.Begins := by
  rcases delimits with ⟨code, same⟩ | ⟨code, same⟩ | ⟨code, same⟩ <;>
    exact ⟨by rw [code]; rfl, by rw [same]; decide⟩

private theorem isBlank_of_not_begins {glyph : Glyph} (quiet : ¬ glyph.Begins)
    (spoken : glyph.role.isComment = false) : isBlank glyph.member = true := by
  cases blank : isBlank glyph.member with
  | true => rfl
  | false => exact absurd ⟨spoken, blank⟩ quiet

theorem spokenText_append_of_idle {lead : List Glyph} (idle : ∀ glyph ∈ lead, ¬ glyph.Begins)
    (spoken : List Glyph) : spokenText (lead ++ spoken) = spokenText spoken := by
  induction lead with
  | nil => rfl
  | cons glyph rest ih =>
      rw [← ih fun other present => idle other (List.mem_cons_of_mem _ present), List.cons_append]
      cases comment : glyph.role.isComment with
      | true => rw [spokenText, List.filter_cons_of_neg (by simp [comment]), ← spokenText]
      | false =>
          have blank := isBlank_of_not_begins (idle glyph (List.mem_cons_self ..)) comment
          rw [spokenText, List.filter_cons_of_pos (by simp [comment]), List.map_cons,
            Text.trim_cons_of_isBlank _ _ blank, ← spokenText]

private theorem dropBlanks_spokenText (glyphs : List Glyph) :
    (spokenText glyphs).dropBlanks = content glyphs := by
  rw [spokenText, Text.dropBlanks_trim, Text.dropBlanks, List.filter_map, List.filter_filter,
    content]
  congr 1
  refine List.filter_congr fun glyph _ => ?_
  have begins : decide glyph.Begins =
      decide (glyph.role.isComment = false ∧ isBlank glyph.member = false) := rfl
  rw [begins, Bool.decide_and, Bool.and_comm]
  simp

private theorem spokenText_eq_nil_iff (glyphs : List Glyph) :
    spokenText glyphs = [] ↔ ∀ glyph ∈ glyphs, ¬ glyph.Begins := by
  constructor
  · intro bare glyph present begins
    have kept := dropBlanks_spokenText glyphs
    rw [bare] at kept
    have some : glyph.member ∈ content glyphs :=
      List.mem_map_of_mem (List.mem_filter.mpr ⟨present, decide_eq_true begins⟩)
    rw [← kept] at some
    cases some
  · intro idle
    have whole := spokenText_append_of_idle idle []
    rw [List.append_nil] at whole
    exact whole

end Glyph

/-! ### The header that is held -/

/-- What is written since the last slice, and those of its glyphs that are held as a header,
latest first. -/
structure Glyph.HeldAs (written header : List Glyph) : Prop where
  parts : ∃ lead spoken, written = lead ++ spoken ∧ Glyph.Keeps [] lead spoken header ∧
    ∀ glyph ∈ lead, glyph.role ≠ .commentClose

namespace Glyph.HeldAs

variable {written header : List Glyph} {glyph : Glyph}

private theorem nil : HeldAs [] [] where
  parts := by
    refine ⟨[], [], rfl, Keeps.fresh ?_, ?_⟩ <;> exact fun _ present => by cases present

private theorem aside (held : HeldAs written header) (comment : glyph.role.isComment = true)
    (silent : header = [] → glyph.role ≠ .commentClose) : HeldAs (written ++ [glyph]) header where
  parts := by
    obtain ⟨lead, spoken, rfl, keeps, still⟩ := held.parts
    rcases keeps.aside comment with ⟨bare, rfl, further⟩ | further
    · refine ⟨lead ++ [glyph], [], by simp, further, ?_⟩
      exact List.forall_mem_append.mpr ⟨still, List.forall_mem_singleton.mpr (silent bare)⟩
    · exact ⟨lead, spoken ++ [glyph], by simp, further, still⟩

private theorem extend (held : HeldAs written header) (spoken : glyph.role.isComment = false)
    (plain : ¬ glyph.Delimits) :
    HeldAs (written ++ [glyph]) (Assembly.extend ⟨header, .surface⟩ glyph).header where
  parts := by
    obtain ⟨lead, others, rfl, keeps, still⟩ := held.parts
    have open? : glyph.role ≠ .commentClose := by
      intro closes
      rw [closes] at spoken
      cases spoken
    rcases keeps.extend spoken plain with ⟨rfl, further⟩ | further
    · refine ⟨lead ++ [glyph], [], by simp, further, ?_⟩
      exact List.forall_mem_append.mpr ⟨still, List.forall_mem_singleton.mpr open?⟩
    · exact ⟨lead, others ++ [glyph], by simp, further, still⟩

private theorem undivided (held : HeldAs written header) : Undivided written := by
  obtain ⟨lead, spoken, rfl, keeps, still⟩ := held.parts
  constructor
  · refine List.forall_mem_append.mpr ⟨?_, keeps.undivided⟩
    exact fun glyph present delimits => keeps.idle glyph present (begins_of_delimits delimits)
  · intro glyph present
    refine still glyph ?_
    rw [List.takeWhile_append_of_pos fun other inside => by simp [keeps.idle other inside]]
      at present
    cases spoken with
    | nil => simpa using present
    | cons first others =>
        rw [List.takeWhile_cons_of_neg (by simp [keeps.begins first rfl])] at present
        simpa using present

private theorem headerText_eq (held : HeldAs written header) :
    Assembly.headerText ⟨header, .surface⟩ = spokenText written := by
  obtain ⟨lead, spoken, rfl, keeps, _⟩ := held.parts
  rw [spokenText_append_of_idle keeps.idle, keeps.headerText_eq]

private theorem headerLocation_eq (held : HeldAs written header) (substitute : Location) :
    Assembly.headerLocation ⟨header, .surface⟩ substitute = startOf written substitute := by
  obtain ⟨lead, spoken, rfl, keeps, _⟩ := held.parts
  have passed : (lead.find? fun glyph => decide glyph.Begins) = none :=
    List.find?_eq_none.mpr fun glyph present => by simp [keeps.idle glyph present]
  rw [startOf, List.find?_append, passed, Option.none_or]
  by_cases bare : header = []
  · subst bare
    cases spoken with
    | nil => rfl
    | cons first others =>
        have held := keeps.held
        simp [(keeps.begins first rfl).1] at held
  · obtain ⟨first, others, rfl, placed⟩ := keeps.exists_first bare
    rw [placed, List.find?_cons_of_pos (by simp [keeps.begins first rfl])]
    rfl

private theorem isEmpty_eq (held : HeldAs written header) :
    header.isEmpty = decide (spokenText written = []) := by
  obtain ⟨lead, spoken, rfl, keeps, _⟩ := held.parts
  rw [spokenText_append_of_idle keeps.idle, Bool.eq_iff_iff, List.isEmpty_iff,
    decide_eq_true_iff, spokenText_eq_nil_iff]
  constructor
  · rintro rfl
    intro glyph present begins
    have absent := List.filter_eq_nil_iff.mp keeps.held.symm glyph present
    simp [begins.1] at absent
  · intro idle
    by_contra begun
    obtain ⟨first, others, rfl, _⟩ := keeps.exists_first begun
    exact idle first (List.mem_cons_self ..) (keeps.begins first rfl)

private theorem statement?_eq (held : HeldAs written header) (substitute : Location) :
    statement? written substitute =
      if header.isEmpty then none
      else some (.statement (Assembly.headerText ⟨header, .surface⟩)
        (Assembly.headerLocation ⟨header, .surface⟩ substitute)) := by
  simp only [statement?, held.headerText_eq, held.headerLocation_eq, held.isEmpty_eq,
    decide_eq_true_eq]

end Glyph.HeldAs

/-! ### Scans are sliced -/

private theorem Assembly.Scans.exists_slicedInto {header glyphs : List Glyph} {whole : Segmentation}
    (scan : Scans header glyphs whole) : ∀ written, Glyph.HeldAs written header →
      ∃ slices rest last, SlicedInto (written ++ glyphs) whole slices rest last := by
  -- What has been read since the last slice is put in front until a slice is complete.
  induction scan with
  | finish header =>
      intro written held
      refine ⟨[], _, _, .remainder ?_⟩
      have same : Assembly.finish ⟨header, .surface⟩ =
          ⟨(Glyph.statement? written .start).toList, none⟩ := by
        rw [held.statement?_eq, Assembly.finish]
        cases header.isEmpty <;> rfl
      rw [same, List.append_nil]
      exact .ends held.undivided
  | aside comment silent _ ih =>
      intro written held
      rw [List.append_cons]
      exact ih _ (held.aside comment silent)
  | @comment text unclosed start rest whole _ ih =>
      intro written held
      obtain ⟨slices, beyond, last, sliced⟩ := ih [] .nil
      have idle : ∀ glyph ∈ written, ¬ glyph.Begins := by
        rw [← Glyph.spokenText_eq_nil_iff]
        simpa using held.isEmpty_eq
      refine ⟨.comment written start text :: slices, beyond, last, ?_⟩
      rw [← List.append_assoc]
      exact sliced.cons_some (.comment start idle held.undivided unclosed) rfl
  | extend spoken plain _ ih =>
      intro written held
      rw [List.append_cons]
      exact ih _ (held.extend spoken plain)
  | @blankStatement rest ending whole ends _ ih =>
      intro written held
      obtain ⟨slices, beyond, last, sliced⟩ := ih [] .nil
      refine ⟨.statement written ending :: slices, beyond, last, ?_⟩
      rw [List.append_cons]
      exact sliced.cons_none (.statement held.undivided ends) (held.statement?_eq _)
  | @statement header rest ending whole ends begun _ ih =>
      intro written held
      obtain ⟨slices, beyond, last, sliced⟩ := ih [] .nil
      refine ⟨.statement written ending :: slices, beyond, last, ?_⟩
      rw [List.append_cons]
      refine sliced.cons_some (.statement held.undivided ends) ?_
      rw [Slice.segment?, held.statement?_eq, List.isEmpty_eq_false_iff.mpr begun]
      rfl
  | @blankBlock header rest opening closing inner whole opens closes closed blank _ ih =>
      intro written held
      obtain ⟨slices, beyond, last, sliced⟩ := ih [] .nil
      refine ⟨.block written opening inner closing :: slices, beyond, last, ?_⟩
      have proper : (Slice.block written opening inner closing).Proper :=
        .block held.undivided opens closes closed
      have further := sliced.cons_none proper (if_pos blank)
      simpa [Slice.glyphs] using further
  | @block header rest opening closing inner whole opens closes closed solid _ ih =>
      intro written held
      obtain ⟨slices, beyond, last, sliced⟩ := ih [] .nil
      refine ⟨.block written opening inner closing :: slices, beyond, last, ?_⟩
      have proper : (Slice.block written opening inner closing).Proper :=
        .block held.undivided opens closes closed
      have further := sliced.cons_some proper (if_neg (by simp [solid]))
      rw [held.headerText_eq, held.headerLocation_eq]
      simpa [Slice.glyphs] using further
  | @unclosed header rest opening opens stays =>
      intro written held
      refine ⟨[], _, _, .remainder ?_⟩
      have context : Assembly.finish ⟨header, .block opening.location 0 []⟩ =
          ⟨[], some (unbalanced (Glyph.unclosedContext written) opening.location)⟩ := by
        have heading : Assembly.headerText ⟨header, .block opening.location 0 []⟩ =
          Glyph.spokenText written := held.headerText_eq
        simp only [Assembly.finish, heading, held.isEmpty_eq, decide_eq_true_eq, Glyph.unclosedContext]
      rw [context]
      exact .unclosed held.undivided opens stays
  | unexpected closes =>
      intro written held
      exact ⟨[], _, _, .remainder (.unexpected held.undivided closes)⟩

theorem Body.exists_slicedInto (body : Body) :
    ∃ slices rest last, SlicedInto body.glyphs body.segmentation slices rest last :=
  body.scans.exists_slicedInto [] .nil

/-! ### Nothing is lost -/

namespace Glyph

private theorem content_append (first second : List Glyph) :
    content (first ++ second) = content first ++ content second := by
  rw [content, List.filter_append, List.map_append]
  rfl

private theorem content_flatMap {α : Type} (slices : List α) (glyphs : α → List Glyph) :
    content (slices.flatMap glyphs) = slices.flatMap fun slice => content (glyphs slice) := by
  rw [content, List.filter_flatMap, List.map_flatMap]
  rfl

private theorem content_cons_of_delimits {glyph : Glyph} (delimits : glyph.Delimits)
    (rest : List Glyph) :
    content (glyph :: rest) = glyph.member :: content rest := by
  have begins : decide glyph.Begins = true := decide_eq_true (begins_of_delimits delimits)
  rw [content, List.filter_cons, if_pos begins, List.map_cons]
  rfl

private theorem content_eq_nil_of_idle {glyphs : List Glyph}
    (idle : ∀ glyph ∈ glyphs, ¬ glyph.Begins) :
    content glyphs = [] := by
  rw [content, List.filter_eq_nil_iff.mpr fun glyph present => by simp [idle glyph present]]
  rfl

private theorem content_statement? (written : List Glyph) (substitute : Location) :
    (statement? written substitute).elim [] Segment.content = content written := by
  rw [← dropBlanks_spokenText, statement?]
  split
  · rename_i bare
    rw [bare]
    rfl
  · rfl

end Glyph

theorem Body.not_begins_of_blank {body : Body} (blank : body.text.allBlank = true) :
    ∀ glyph ∈ body.glyphs, ¬ glyph.Begins := by
  rintro glyph present ⟨_, solid⟩
  have inside : glyph.member ∈ body.text := by
    rw [← Glyph.map_member_list (.code false) body.origin body.text]
    exact List.mem_map_of_mem present
  rw [List.all_eq_true.mp blank _ inside] at solid
  cases solid

private theorem Body.content_glyphs_of_blank {body : Body} (blank : body.text.allBlank = true) :
    Glyph.content body.glyphs = [] := Glyph.content_eq_nil_of_idle (not_begins_of_blank blank)

namespace Slice.Proper

variable {slice : Slice}

private theorem map_member_glyphs (proper : slice.Proper) :
    slice.glyphs.map Glyph.member = slice.text := by
  cases proper with
  | comment start _ _ _ =>
      rw [Slice.glyphs, List.map_append, Glyph.blockComment, Glyph.map_member_list]
      rfl
  | statement _ ends =>
      rw [Slice.glyphs, List.map_append, List.map_singleton, ends.2]
      rfl
  | @block written opening closing inner _ opens closes _ =>
      rw [Slice.glyphs, List.map_append, List.map_cons, List.map_append, List.map_singleton,
        opens.2, closes.2, Body.glyphs, Glyph.map_member_list]
      rfl

private theorem content_glyphs (proper : slice.Proper) :
    Glyph.content slice.glyphs = slice.content := by
  cases proper with
  | comment start idle _ unclosed =>
      exact Glyph.content_eq_nil_of_idle (not_begins_of_comment start idle unclosed)
  | @statement written ending _ ends =>
      rw [Slice.glyphs, Glyph.content_append, Glyph.content_cons_of_delimits (Or.inl ends), ends.2,
        ← Glyph.content_statement? written ending.location]
      rfl
  | @block written opening closing inner _ opens closes _ =>
      have braces : Glyph.content (opening :: (inner.glyphs ++ [closing])) =
          '{' :: (Glyph.content inner.glyphs ++ ['}']) := by
        rw [Glyph.content_cons_of_delimits (Or.inr (Or.inl opens)), Glyph.content_append,
          Glyph.content_cons_of_delimits (Or.inr (Or.inr closes)), opens.2, closes.2]
        rfl
      rw [Slice.glyphs, Glyph.content_append, braces, ← Glyph.dropBlanks_spokenText]
      cases blank : inner.text.allBlank with
      | true =>
          rw [Body.content_glyphs_of_blank blank]
          simp [Slice.content, blank]
      | false => simp [Slice.content, Slice.segment?, Segment.content, blank]

end Slice.Proper

/-- Segments are verbatim slices of the text that they are read from. The text falls into
slices and a remainder, one after the other; each slice gives its segment unless it is blank;
and what is written without comments and blanks is found again in the segments, in the same
order and once, except for the headers of dropped blocks. -/
theorem Body.segmentation_verbatim (body : Body) :
    ∃ slices rest last, SlicedInto body.glyphs body.segmentation slices rest last ∧
      body.text = slices.flatMap Slice.text ++ rest.map Glyph.member ∧
      Glyph.content body.glyphs = slices.flatMap Slice.content ++ Glyph.content rest ∧
      (last.fault? = none → Glyph.content rest = last.segments.flatMap Segment.content) := by
  obtain ⟨slices, rest, last, sliced⟩ := body.exists_slicedInto
  refine ⟨slices, rest, last, sliced, ?_, ?_, ?_⟩
  · have whole : body.glyphs.map Glyph.member = body.text := Glyph.map_member_list _ _ _
    rw [← whole, sliced.split, List.map_append, List.map_flatMap]
    congr 1
    exact List.flatMap_congr fun slice present => (sliced.proper slice present).map_member_glyphs
  · rw [sliced.split, Glyph.content_append, Glyph.content_flatMap]
    congr 1
    exact List.flatMap_congr fun slice present => (sliced.proper slice present).content_glyphs
  · intro faultless
    cases sliced.remains with
    | ends undivided =>
        rw [← Glyph.content_statement? rest .start]
        cases Glyph.statement? rest .start <;> simp
    | unclosed _ _ _ => cases faultless
    | unexpected _ _ => cases faultless

end NestedCss
