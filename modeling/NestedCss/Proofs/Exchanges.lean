import NestedCss.Proofs.Correspondence
import NestedCss.Proofs.Headings
import NestedCss.Proofs.Places

set_option autoImplicit false

/-! One piece of a text in place of another. Two pieces that open and close no block and
leave what follows them to be read alike differ in the text of one field: of the statement or
the header that they stand in, or of the body of the outermost block around them. What else
the texts consist of is the same, and so is what is wrong with them. -/

namespace NestedCss

/-- How the text of a field may change, by the field. -/
structure Change where
  statement : Text → Text → Prop
  header : Text → Text → Prop
  body : Text → Text → Prop
  comment : Text → Text → Prop

def Change.ofBodies (related : Text → Text → Prop) : Change :=
  ⟨fun _ _ => False, fun _ _ => False, related, fun _ _ => False⟩

/-- The same segment, at any place, but for the text of one field. -/
inductive Segment.Varies (change : Change) : Segment → Segment → Prop
  | statement {text other : Text} (changed : change.statement text other) (here there : Location) :
      Varies change (.statement text here) (.statement other there)
  | header {header other : Text} (changed : change.header header other) (here there : Location)
      {body copy : Body} (same : body.text = copy.text) :
      Varies change (.block header here body) (.block other there copy)
  | body (header : Text) (here there : Location) {body other : Body}
      (changed : change.body body.text other.text) :
      Varies change (.block header here body) (.block header there other)
  | comment {text other : Text} (changed : change.comment text other) (here there : Location) :
      Varies change (.comment text here) (.comment other there)

structure Segmentation.Same (whole other : Segmentation) : Prop where
  alike : whole.Alike other
  cause : whole.fault?.map Error.cause = other.fault?.map Error.cause

/-- The same, but for the text of one field at most: of a segment, or of the header that the
fault tells of. -/
inductive Segmentation.Varies (change : Change) : Segmentation → Segmentation → Prop
  | nowhere {whole other : Segmentation} (same : whole.Same other) : Varies change whole other
  | first {segment copy : Segment} {whole other : Segmentation}
      (varies : segment.Varies change copy) (same : whole.Same other) :
      Varies change (whole.cons segment) (other.cons copy)
  | later {segment copy : Segment} {whole other : Segmentation} (alike : segment.Alike copy)
      (varies : Varies change whole other) : Varies change (whole.cons segment) (other.cons copy)
  | unclosed {header other : Text} (changed : change.header header other)
      (here there : Location) :
      Varies change
        ⟨[], some (Assembly.unbalanced ("unclosed block `".toList ++ header ++ "`".toList) here)⟩
        ⟨[], some (Assembly.unbalanced ("unclosed block `".toList ++ other ++ "`".toList) there)⟩

/-- The delimiter that ends what is underway in a text: the first one that is neither quoted
nor in a comment. -/
def Mode.delimiter? (mode : Mode) : Text → Option Char
  | [] => none
  | member :: rest =>
      if (mode.step member rest.head?).1 = .code ∧ member ∈ [';', '{', '}'] then some member
      else (mode.step member rest.head?).2.delimiter? rest

def Change.endedBy (change : Change) (delimiter? : Option Char) : Text → Text → Prop :=
  if delimiter? = some '{' then change.header else change.statement

structure Text.BodyAround (before piece after first last : Text) : Prop where
  within : ∃ outside beyond, before = outside ++ '{' :: first ∧ after = last ++ '}' :: beyond ∧
    ∃ afterColon, (Mode.code false).after outside = .code afterColon
  closed : (first ++ piece ++ last).Closed

/-- A piece that shows no seam: neither the text before it nor the piece itself is read other
than on its own, and no block is opened or closed in the piece. -/
structure Text.Seamless (piece before after : Text) : Prop where
  apart : (Mode.code false).Unaffected (piece ++ after).head? before
  unaffected : ((Mode.code false).after before).Unaffected after.head? piece
  openAfter_eq : ∀ depth, ((Mode.code false).after before).openAfter depth piece = some depth

/-! ### Seams -/

namespace Mode

private theorem unaffected_none (mode : Mode) (text : Text) : mode.Unaffected none text := by
  induction text generalizing mode with
  | nil => exact True.intro
  | cons member rest ih =>
      cases rest with
      | nil => exact rfl
      | cons second others => exact ih _

private theorem Unaffected.of_append {mode : Mode} {text front back : Text}
    (unaffected : mode.Unaffected (front ++ back).head? text) :
    mode.Unaffected front.head? text := by
  cases front with
  | nil => exact unaffected_none mode text
  | cons member rest => exact unaffected

private theorem Unaffected.behind {mode : Mode} {front back : Text} {next? : Option Char}
    (apart : mode.Unaffected back.head? front) (unaffected : mode.Unaffected next? (front ++ back)) :
    (mode.after front).Unaffected next? back := by
  induction front generalizing mode with
  | nil => exact unaffected
  | cons member rest ih =>
      have later : (mode.step member (rest ++ back).head?).2.Unaffected next? (rest ++ back) :=
        unaffected_tail unaffected
      rw [step_head?_append apart] at later
      exact ih (unaffected_tail apart) later

private theorem Unaffected.in_block {outside first : Text} {next? : Option Char}
    (code : ∃ afterColon, (Mode.code false).after outside = .code afterColon)
    (unaffected : (Mode.code false).Unaffected next? (outside ++ '{' :: first)) :
    (Mode.code false).Unaffected next? first := by
  obtain ⟨afterColon, settled⟩ := code
  have brace := Unaffected.behind (unaffected_of_plain _ outside (by simp) (by simp)) unaffected
  rw [settled] at brace
  exact unaffected_tail brace

end Mode

theorem Mode.delimiter?_append {mode : Mode} {first second : Text}
    (unaffected : mode.Unaffected second.head? first) :
    mode.delimiter? (first ++ second) =
      (mode.delimiter? first).or ((mode.after first).delimiter? second) := by
  induction first generalizing mode with
  | nil => exact Option.none_or.symm
  | cons member rest ih =>
      rw [List.cons_append, delimiter?, delimiter?, step_head?_append unaffected]
      split
      · rfl
      · exact ih (unaffected_tail unaffected)

theorem Text.getLast?_ne_of_block {outside first : Text} {member : Char}
    (apart : (outside ++ '{' :: first).getLast? ≠ some member) : first.getLast? ≠ some member := by
  intro same
  cases first with
  | nil => cases same
  | cons begun others =>
      rw [List.getLast?_append_of_ne_nil _ (List.cons_ne_nil _ _), List.getLast?_cons_cons] at apart
      exact apart same

/-! ### Faults -/

namespace Assembly

private theorem cause_of_rejected {pending : Assembly} {glyph : Glyph} {fault : Error}
    (stepped : pending.step glyph = .rejected fault) :
    fault.cause = .unbalancedBlock (some "unexpected `\x7d`".toList) := by
  obtain ⟨header, enclosure⟩ := pending
  cases enclosure with
  | surface =>
      have outside := stepsOutside_surface header glyph
      rw [stepped] at outside
      generalize rejected : Progress.rejected fault = progress at outside
      cases outside with
      | unexpected closes =>
          injection rejected with same
          rw [same]
          rfl
      | statement ends =>
          unfold endStatement at rejected
          split at rejected <;> cases rejected
      | aside => cases rejected
      | comment => cases rejected
      | extend => cases rejected
      | block => cases rejected
  | comment start text =>
      simp only [step, stepComment] at stepped
      split at stepped
      · cases stepped
      · unfold endComment at stepped
        split at stepped <;> cases stepped
      all_goals cases stepped
  | block opening depth taken =>
      rcases step_block_cases header opening depth taken glyph with
        ⟨_, _, _, closing⟩ | ⟨_, _, within⟩
      · rw [closing] at stepped
        unfold endBlock at stepped
        split at stepped <;> cases stepped
      · rw [within] at stepped
        cases stepped

private theorem Alike.finish_same {pending other : Assembly} (alike : pending.Alike other) :
    pending.finish.Same other.finish := by
  refine ⟨alike.finish, ?_⟩
  have bare := alike.isEmpty_eq
  have spelled := alike.headerText_eq
  obtain ⟨header, enclosure⟩ := pending
  obtain ⟨written, enclosing⟩ := other
  have enclosed : enclosure.Alike enclosing := alike.enclosure
  simp only at bare
  cases enclosed with
  | surface =>
      simp only [Assembly.finish, bare]
      split <;> rfl
  | comment start begun text =>
      simp only [Assembly.finish, bare]
      split <;> rfl
  | block opening begun depth text =>
      simp only [Assembly.finish, bare, spelled, Option.map_some, unbalanced]

theorem segmentation_same (text : Text) :
    ∀ {pending other : Assembly}, pending.Alike other → ∀ (mode : Mode) (here there : Location),
      (pending.segmentation (Glyph.list mode here text)).Same
        (other.segmentation (Glyph.list mode there text)) := by
  intro pending other alike mode here there
  refine ⟨segmentation_alike text alike mode here there, ?_⟩
  induction text generalizing pending other mode here there with
  | nil => exact alike.finish_same.cause
  | cons member rest ih =>
      have stepped := alike.step member (mode.step member rest.head?).1 here there
      rw [Glyph.list, Glyph.list, segmentation_cons, segmentation_cons]
      cases outcome : pending.step ⟨member, (mode.step member rest.head?).1, here⟩ with
      | reading following =>
          rw [outcome] at stepped
          generalize other.step ⟨member, (mode.step member rest.head?).1, there⟩ = advance at *
          cases stepped with
          | reading same => exact ih same _ _ _
      | complete segment =>
          rw [outcome] at stepped
          generalize other.step ⟨member, (mode.step member rest.head?).1, there⟩ = advance at *
          cases stepped with
          | complete same => exact ih alike_empty _ _ _
      | rejected fault =>
          rw [outcome] at stepped
          cases outcomeToo : other.step ⟨member, (mode.step member rest.head?).1, there⟩ with
          | reading following => rw [outcomeToo] at stepped; cases stepped
          | complete segment => rw [outcomeToo] at stepped; cases stepped
          | rejected mistake =>
              simp only [Progress.followedBy, Option.map_some, cause_of_rejected outcome,
                cause_of_rejected outcomeToo]

end Assembly

namespace Segmentation

private theorem Varies.behind {change : Change} {whole other : Segmentation}
    (varies : whole.Varies change other) {segments copies : List Segment}
    (front : List.Forall₂ Segment.Alike segments copies) :
    (whole.behind segments).Varies change (other.behind copies) := by
  induction front with
  | nil => exact varies
  | cons alike _ ih => exact .later alike ih

theorem Varies.resembles {change : Change} {related : Text → Text → Prop}
    (refl : ∀ text, related text text)
    (nodes : ∀ segment copy : Segment, segment.Varies change copy →
      (Node.ofSegment segment).Resembles related (.ofSegment copy))
    {whole other : Segmentation} (varies : whole.Varies change other) :
    whole.Resembles related other := by
  induction varies with
  | nowhere same => exact same.alike.resembles refl
  | first varies same => exact (same.alike.resembles refl).cons (nodes _ _ varies)
  | later alike _ ih => exact ih.cons (alike.node.resembles refl)
  | unclosed => exact (Segmentation.alike_of_fault _ _).resembles refl

end Segmentation

theorem Segment.Varies.node_resembles {related : Text → Text → Prop} {segment copy : Segment}
    (varies : segment.Varies (.ofBodies related) copy) :
    (Node.ofSegment segment).Resembles related (.ofSegment copy) := by
  cases varies with
  | body header here there same => exact Node.resembles_ofBlock header same
  | statement impossible => cases impossible
  | header impossible => cases impossible
  | comment impossible => cases impossible

/-! ### Inside a block -/

namespace Assembly

private theorem segmentation_block_varies {change : Change} {header written : List Glyph}
    {opening begun : Location} {taken took : Text} (mode : Mode) (here there : Location)
    (depth : Nat) (text : Text)
    (closed : ∀ last beyond, text = last ++ '}' :: beyond → mode.openAfter depth last = some 0 →
      (∃ afterColon, mode.after last = .code afterColon) →
      Text.allBlank (last.reverse ++ taken) = Text.allBlank (last.reverse ++ took) ∧
      (Segment.block (headerText ⟨header, .surface⟩) (headerLocation ⟨header, .surface⟩ opening)
          ⟨(last.reverse ++ taken).reverse, opening.advance '{'⟩).Varies change
        (.block (headerText ⟨written, .surface⟩) (headerLocation ⟨written, .surface⟩ begun)
          ⟨(last.reverse ++ took).reverse, begun.advance '{'⟩))
    (unclosed : (finish ⟨header, .block opening 0 []⟩).Varies change
      (finish ⟨written, .block begun 0 []⟩)) :
    (segmentation ⟨header, .block opening depth taken⟩ (Glyph.list mode here text)).Varies change
      (segmentation ⟨written, .block begun depth took⟩ (Glyph.list mode there text)) := by
  rcases segmentation_block header opening text mode here depth taken with
    ⟨last, beyond, rfl, balanced, ⟨colon, ended⟩, whole⟩ | ⟨stays, whole⟩
  · obtain ⟨blank, varies⟩ := closed last beyond rfl balanced ⟨colon, ended⟩
    have further := segmentation_same beyond alike_empty (.code false)
      (here.advanceOver (last ++ ['}'])) (there.advanceOver (last ++ ['}']))
    rw [whole, segmentation_closing written begun took balanced ended]
    unfold endBlock
    rw [blank]
    split
    · exact .nowhere further
    · exact .first varies further
  · rcases segmentation_block written begun text mode there depth took with
      ⟨last, beyond, rfl, balanced, ⟨colon, ended⟩, _⟩ | ⟨_, wholeToo⟩
    · exact absurd (Mode.openAfter_closing balanced ended beyond) stays
    · rw [whole, wholeToo]
      exact unclosed

/-! ### Two headers -/

theorem written_append_list (mode : Mode) (here : Location) (text : Text) (header : List Glyph)
    (enclosure : Enclosure) :
    written ⟨(Glyph.list mode here text).reverse ++ header, enclosure⟩ =
      (header.map Glyph.member).reverse ++ text := by
  rw [written, List.reverse_append, List.reverse_reverse, List.map_append, Glyph.map_member_list,
    List.map_reverse]

/-- Outside blocks two headers are underway, and their texts are related however they go on. -/
structure Abreast (related : Text → Text → Prop) (pending other : Assembly) : Prop where
  outside : pending.level = 0
  enclosure : pending.enclosure.Alike other.enclosure
  begun : pending.header ≠ [] ∧ other.header ≠ []
  related : ∀ further : Text, related (Text.trim (pending.written ++ further))
    (Text.trim (other.written ++ further))

namespace Abreast

variable {related : Text → Text → Prop} {pending other : Assembly}

private theorem enclose (abreast : Abreast related pending other) {inside within : Enclosure}
    (outside : level ⟨pending.header, inside⟩ = 0) (enclosed : inside.Alike within) :
    Abreast related ⟨pending.header, inside⟩ ⟨other.header, within⟩ :=
  ⟨outside, enclosed, abreast.begun, abreast.related⟩

private theorem isEmpty_eq_false (abreast : Abreast related pending other) :
    pending.header.isEmpty = false ∧ other.header.isEmpty = false :=
  ⟨List.isEmpty_eq_false_iff.mpr abreast.begun.1, List.isEmpty_eq_false_iff.mpr abreast.begun.2⟩

private theorem extend (abreast : Abreast related pending other) (member : Char) (role : Role)
    (here there : Location) :
    Abreast related (pending.extend ⟨member, role, here⟩) (other.extend ⟨member, role, there⟩) := by
  have taken : ∀ {reached : Assembly} (place : Location), reached.header ≠ [] →
      reached.extend ⟨member, role, place⟩ =
        ⟨⟨member, role, place⟩ :: reached.header, reached.enclosure⟩ := by
    intro reached place begun
    simp [Assembly.extend, begun]
  rw [taken here abreast.begun.1, taken there abreast.begun.2]
  refine ⟨abreast.outside, abreast.enclosure, ⟨List.cons_ne_nil _ _, List.cons_ne_nil _ _⟩,
    fun further => ?_⟩
  have grown := abreast.related (member :: further)
  simpa [written] using grown

private theorem step (abreast : Abreast related pending other) {member : Char} {role : Role}
    (plain : ¬ (role = .code ∧ member ∈ [';', '{', '}'])) (here there : Location) :
    ∃ following next, pending.step ⟨member, role, here⟩ = .reading following ∧
      other.step ⟨member, role, there⟩ = .reading next ∧ Abreast related following next := by
  obtain ⟨header, enclosure⟩ := pending
  obtain ⟨heading, enclosing⟩ := other
  have enclosed : enclosure.Alike enclosing := abreast.enclosure
  have begun : header.isEmpty = false ∧ heading.isEmpty = false := abreast.isEmpty_eq_false
  cases enclosed with
  | surface =>
      cases role with
      | code =>
          simp only [true_and, List.mem_cons, List.not_mem_nil, or_false, not_or] at plain
          obtain ⟨noStatement, noOpening, noClosing⟩ := plain
          simp only [Assembly.step, stepSurface, noStatement, noOpening, noClosing, if_false]
          exact ⟨_, _, rfl, rfl, abreast.extend member .code here there⟩
      | quoted => exact ⟨_, _, rfl, rfl, abreast.extend member .quoted here there⟩
      | commentOpen => exact ⟨_, _, rfl, rfl, abreast.enclose rfl (.comment here there [])⟩
      | commentMark => exact ⟨_, _, rfl, rfl, abreast⟩
      | comment => exact ⟨_, _, rfl, rfl, abreast⟩
      | commentClose => exact ⟨_, _, rfl, rfl, abreast⟩
      | remark => exact ⟨_, _, rfl, rfl, abreast⟩
  | comment start place text =>
      cases role with
      | comment => exact ⟨_, _, rfl, rfl, abreast.enclose rfl (.comment start place _)⟩
      | commentClose =>
          simp only [Assembly.step, stepComment, endComment, begun, Bool.false_eq_true, if_false]
          exact ⟨_, _, rfl, rfl, abreast.enclose rfl .surface⟩
      | code => exact ⟨_, _, rfl, rfl, abreast⟩
      | quoted => exact ⟨_, _, rfl, rfl, abreast⟩
      | commentOpen => exact ⟨_, _, rfl, rfl, abreast⟩
      | commentMark => exact ⟨_, _, rfl, rfl, abreast⟩
      | remark => exact ⟨_, _, rfl, rfl, abreast⟩
  | block opening place depth text => cases abreast.outside

private theorem headerText (abreast : Abreast related pending other) :
    related pending.headerText other.headerText := by
  have here := abreast.related []
  rwa [List.append_nil, List.append_nil] at here

private theorem finish {change : Change} (abreast : Abreast change.statement pending other) :
    pending.finish.Varies change other.finish := by
  have changed := abreast.headerText
  obtain ⟨header, enclosure⟩ := pending
  obtain ⟨heading, enclosing⟩ := other
  have enclosed : enclosure.Alike enclosing := abreast.enclosure
  have begun : header.isEmpty = false ∧ heading.isEmpty = false := abreast.isEmpty_eq_false
  have nothing : Segmentation.Same ⟨[], none⟩ ⟨[], none⟩ := ⟨⟨.nil, Iff.rfl⟩, rfl⟩
  cases enclosed with
  | surface =>
      simp only [Assembly.finish, begun, Bool.false_eq_true, if_false]
      exact .first (.statement changed _ _) nothing
  | comment start place text =>
      simp only [Assembly.finish, begun, Bool.false_eq_true, if_false]
      exact .first (.statement changed _ _) nothing
  | block opening place depth text => cases abreast.outside

private theorem delimiter {change : Change} {member : Char} (delimits : member ∈ [';', '{', '}'])
    (surface : pending.enclosure = .surface)
    (abreast : Abreast (change.endedBy (some member)) pending other) (here there : Location)
    (mode : Mode) (ahead beyond : Location) (text : Text) :
    ((pending.step ⟨member, .code, here⟩).followedBy (Glyph.list mode ahead text)).Varies change
      ((other.step ⟨member, .code, there⟩).followedBy (Glyph.list mode beyond text)) := by
  have changed := abreast.headerText
  obtain ⟨header, enclosure⟩ := pending
  obtain ⟨heading, enclosing⟩ := other
  have outside : enclosure = .surface := surface
  have enclosed : enclosure.Alike enclosing := abreast.enclosure
  subst outside
  cases enclosed
  have begun : header.isEmpty = false ∧ heading.isEmpty = false := abreast.isEmpty_eq_false
  simp only [List.mem_cons, List.not_mem_nil, or_false] at delimits
  rcases delimits with rfl | rfl | rfl
  · have ended : ∀ {glyphs : List Glyph} (place : Location), glyphs.isEmpty = false →
        Assembly.step ⟨glyphs, .surface⟩ ⟨';', .code, place⟩ = .complete (.statement
          (Assembly.headerText ⟨glyphs, .surface⟩) (headerLocation ⟨glyphs, .surface⟩ place)) := by
      intro glyphs place some
      simp [Assembly.step, stepSurface, endStatement, some]
    rw [ended here begun.1, ended there begun.2]
    exact .first (.statement changed _ _) (segmentation_same text alike_empty mode ahead beyond)
  · refine segmentation_block_varies mode ahead beyond 0 text (fun last beyond _ _ _ => ⟨rfl, ?_⟩) ?_
    · exact .header changed _ _ rfl
    · simp only [Assembly.finish, begun, Bool.false_eq_true, if_false]
      exact .unclosed changed here there
  · exact .nowhere ⟨Segmentation.alike_of_fault _ _, rfl⟩

theorem segmentation_varies {change : Change} (text : Text) :
    ∀ {pending other : Assembly} {mode : Mode} {here there : Location}, pending.Fits mode →
      Abreast (change.endedBy (mode.delimiter? text)) pending other →
      (pending.segmentation (Glyph.list mode here text)).Varies change
        (other.segmentation (Glyph.list mode there text)) := by
  induction text with
  | nil => exact fun _ abreast => abreast.finish
  | cons member rest ih =>
      intro pending other mode here there fits abreast
      rw [Glyph.list, Glyph.list, segmentation_cons, segmentation_cons]
      rw [Mode.delimiter?] at abreast
      by_cases delimits : (mode.step member rest.head?).1 = .code ∧ member ∈ [';', '{', '}']
      · rw [if_pos delimits] at abreast
        rw [delimits.1]
        refine abreast.delimiter delimits.2 ?_ here there _ _ _ rest
        cases enclosed : pending.enclosure with
        | surface => rfl
        | comment start text =>
            -- Inside a comment there are no delimiters.
            have inside : mode.InComment := by simpa only [Fits, enclosed] using fits
            have comment := isComment_step_of_inComment inside member rest.head?
            rw [delimits.1] at comment
            cases comment
        | block opening depth text =>
            have outside := abreast.outside
            simp only [level, enclosed] at outside
            cases outside
      · rw [if_neg delimits] at abreast
        have fitting := step_fits here member rest.head? fits
        obtain ⟨following, next, stepped, steppedToo, further⟩ := abreast.step delimits here there
        rw [stepped] at fitting ⊢
        rw [steppedToo]
        exact ih fitting.1 further

end Abreast
end Assembly

/-! ### The exchange -/

namespace Text

variable {before after text other : Text}

private theorem segmentation_varies_in_block {change : Change} {outside first : Text}
    (code : ∃ afterColon, (Mode.code false).after outside = .code afterColon) {depth : Nat}
    (opened : (Mode.code false).openAfter 0 first = some depth)
    (seamless : text.Seamless (outside ++ '{' :: first) after)
    (seamlessToo : other.Seamless (outside ++ '{' :: first) after)
    (agree : (((Mode.code false).after (outside ++ '{' :: first)).after text).AgreeOn
      (((Mode.code false).after (outside ++ '{' :: first)).after other) after)
    (bodies : ∀ begun last, BodyAround (outside ++ '{' :: first) other after begun last →
      Text.allBlank (begun ++ text ++ last) = Text.allBlank (begun ++ other ++ last) ∧
        change.body (begun ++ text ++ last) (begun ++ other ++ last))
    {header written : List Glyph} {opening begun : Location}
    (same : Assembly.Alike ⟨header, .surface⟩ ⟨written, .surface⟩) (here there : Location) :
    (Assembly.segmentation ⟨header, .block opening depth first.reverse⟩
        (Glyph.list ((Mode.code false).after (outside ++ '{' :: first)) here
          (text ++ after))).Varies change
      (Assembly.segmentation ⟨written, .block begun depth first.reverse⟩
        (Glyph.list ((Mode.code false).after (outside ++ '{' :: first)) there
          (other ++ after))) := by
  -- Both pieces go into the body, and what follows them is read from the same mode.
  have taken : ∀ {piece : Text} (glyphs : List Glyph) (start place : Location),
      piece.Seamless (outside ++ '{' :: first) after →
      Assembly.segmentation ⟨glyphs, .block start depth first.reverse⟩
          (Glyph.list ((Mode.code false).after (outside ++ '{' :: first)) place (piece ++ after)) =
        Assembly.segmentation ⟨glyphs, .block start depth (piece.reverse ++ first.reverse)⟩
          (Glyph.list (((Mode.code false).after (outside ++ '{' :: first)).after piece)
            (place.advanceOver piece) after) := by
    intro piece glyphs start place seam
    rw [Glyph.list_append place seam.unaffected, Assembly.segmentation_append
      (Assembly.read_block glyphs start piece _ place depth first.reverse (seam.openAfter_eq depth)),
      Segmentation.behind_nil]
  rw [taken header opening here seamless, taken written begun there seamlessToo, agree.list_eq]
  have outer := code
  obtain ⟨colon, settled⟩ := code
  refine Assembly.segmentation_block_varies _ _ _ depth after
    (fun last beyond split balanced ended => ?_)
    (.nowhere (same.enclose (.block opening begun 0 [])).finish_same)
  have body : BodyAround (outside ++ '{' :: first) other after first last := by
    refine ⟨⟨outside, beyond, rfl, split, outer⟩, ?_⟩
    have front := seamlessToo.apart
    have back := seamlessToo.unaffected
    have counted := seamlessToo.openAfter_eq depth
    rw [split, ← List.append_assoc] at front
    rw [split] at back
    rw [Mode.after_opening settled] at back counted balanced ended
    have apart := (front.in_block outer).of_append
    constructor
    · rw [List.append_assoc, Mode.openAfter_append apart, opened, Option.bind_some,
        Mode.openAfter_append back.of_append, counted]
      exact balanced
    · rw [List.append_assoc, Mode.after_append apart, Mode.after_append back.of_append]
      exact ended
  obtain ⟨blank, changed⟩ := bodies first last body
  have spelled : ∀ piece : Text, last.reverse ++ (piece.reverse ++ first.reverse) =
      (first ++ piece ++ last).reverse := by simp
  rw [spelled, spelled, Text.allBlank_reverse, Text.allBlank_reverse, List.reverse_reverse,
    List.reverse_reverse, same.headerText_eq]
  exact ⟨blank, .body _ _ _ changed⟩

/-- What holds between segmentations that differ in one field, and goes on holding behind the
same segments, holds between those of a text with one piece and with the other in its place,
if it does where the pieces stand outside every block. -/
theorem segmentation_joined {change : Change} {joined : Segmentation → Segmentation → Prop}
    (varied : ∀ {whole other : Segmentation}, whole.Varies change other → joined whole other)
    (behind : ∀ {whole other : Segmentation} {segments copies : List Segment}, joined whole other →
      List.Forall₂ Segment.Alike segments copies →
      joined (whole.behind segments) (other.behind copies))
    (settled : ∃ afterColon, (Mode.code false).after before = .code afterColon)
    (seamless : text.Seamless before after) (seamlessToo : other.Seamless before after)
    (agree : (((Mode.code false).after before).after text).AgreeOn
      (((Mode.code false).after before).after other) after)
    (bodies : ∀ first last, BodyAround before other after first last →
      Text.allBlank (first ++ text ++ last) = Text.allBlank (first ++ other ++ last) ∧
        change.body (first ++ text ++ last) (first ++ other ++ last))
    (outside : ∀ (place : Location) {segments : List Segment} {header written : List Glyph},
      Assembly.empty.read (Glyph.list (.code false) place before) =
        some (segments, ⟨header, .surface⟩) →
      Assembly.Alike ⟨header, .surface⟩ ⟨written, .surface⟩ → ∀ here there,
      joined (Assembly.segmentation ⟨header, .surface⟩
          (Glyph.list ((Mode.code false).after before) here (text ++ after)))
        (Assembly.segmentation ⟨written, .surface⟩
          (Glyph.list ((Mode.code false).after before) there (other ++ after))))
    (here there : Location) :
    joined (Body.mk (before ++ text ++ after) here).segmentation
      (Body.mk (before ++ other ++ after) there).segmentation := by
  rw [Body.segmentation, Body.segmentation, List.append_assoc, List.append_assoc,
    Glyph.list_append here seamless.apart, Glyph.list_append there seamlessToo.apart]
  cases run : Assembly.empty.read (Glyph.list (.code false) here before) with
  | none =>
      have runToo : Assembly.empty.read (Glyph.list (.code false) there before) = none := by
        rw [Option.eq_none_iff_forall_ne_some]
        rintro ⟨segments, pending⟩ runToo
        obtain ⟨_, _, impossible, _⟩ :=
          Assembly.read_alike before Assembly.alike_empty _ _ here runToo
        rw [run] at impossible
        cases impossible
      rw [Assembly.segmentation_append_of_read_eq_none run,
        Assembly.segmentation_append_of_read_eq_none runToo]
      exact varied (.nowhere (Assembly.segmentation_same before Assembly.alike_empty _ _ _))
  | some result =>
      obtain ⟨segments, header, enclosure⟩ := result
      obtain ⟨copies, ⟨written, enclosing⟩, runToo, front, same⟩ :=
        Assembly.read_alike before Assembly.alike_empty _ _ there run
      rw [Assembly.segmentation_append run, Assembly.segmentation_append runToo]
      refine behind ?_ front
      have fits := (Assembly.read_fits Assembly.fits_empty run).1
      have enclosed : enclosure.Alike enclosing := same.enclosure
      obtain ⟨afterColon, code⟩ := settled
      cases enclosed with
      | surface => exact outside here run same _ _
      | comment start begun taken =>
          rw [code] at fits
          cases fits
      | block opening begun depth taken =>
          rcases Assembly.read_to_block Assembly.fits_empty run with
            ⟨_, _, impossible, _⟩ | ⟨front, first, rfl, rfl, ⟨colon, outer⟩, opened⟩
          · cases impossible
          · exact varied (segmentation_varies_in_block ⟨colon, outer⟩ opened seamless seamlessToo
              agree bodies (same.enclose .surface) _ _)

/-- With one piece and with the other in its place a text consists of the same, but for the
field that the pieces stand in. -/
theorem segmentation_varies {change : Change}
    (settled : ∃ afterColon, (Mode.code false).after before = .code afterColon)
    (seamless : text.Seamless before after) (seamlessToo : other.Seamless before after)
    (agree : (((Mode.code false).after before).after text).AgreeOn
      (((Mode.code false).after before).after other) after)
    (bodies : ∀ first last, BodyAround before other after first last →
      Text.allBlank (first ++ text ++ last) = Text.allBlank (first ++ other ++ last) ∧
        change.body (first ++ text ++ last) (first ++ other ++ last))
    (outside : ∀ (place : Location) {segments : List Segment} {header written : List Glyph},
      Assembly.empty.read (Glyph.list (.code false) place before) =
        some (segments, ⟨header, .surface⟩) →
      Assembly.Alike ⟨header, .surface⟩ ⟨written, .surface⟩ → ∀ here there,
      (Assembly.segmentation ⟨header, .surface⟩
          (Glyph.list ((Mode.code false).after before) here (text ++ after))).Varies change
        (Assembly.segmentation ⟨written, .surface⟩
          (Glyph.list ((Mode.code false).after before) there (other ++ after))))
    (here there : Location) :
    (Body.mk (before ++ text ++ after) here).segmentation.Varies change
      (Body.mk (before ++ other ++ after) there).segmentation :=
  segmentation_joined id (fun varies front => varies.behind front) settled seamless seamlessToo agree
    bodies outside here there

end Text
end NestedCss
