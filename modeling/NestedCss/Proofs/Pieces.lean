import NestedCss.Proofs.BlockBodies
import NestedCss.Proofs.Relocation
import NestedCss.Traced

set_option autoImplicit false

/-! The pieces that a text is made of. A text is whole when it ends between two
segments, so that what follows it is read as if it stood alone. Closed texts
become whole by a semicolon, and a heading becomes whole by a block of its own. -/

namespace NestedCss

/-- A text that leaves no segment, no string and no comment unfinished. -/
structure Text.Whole (text : Text) : Prop where
  read : ∃ segments,
    Assembly.empty.read (Glyph.list (.code false) .start text) = some (segments, .empty)
  settled : ∃ afterColon, (Mode.code false).after text = .code afterColon

/-- A text that begins one segment and goes no further than its header. -/
structure Text.Heading (text : Text) : Prop where
  read : ∃ header,
    Assembly.empty.read (Glyph.list (.code false) .start text) = some ([], ⟨header, .surface⟩)
  settled : ∃ afterColon, (Mode.code false).after text = .code afterColon

theorem Text.whole_iff (text : Text) :
    text.Whole ↔
      (Assembly.empty.read (Glyph.list (.code false) .start text)).map Prod.snd = some .empty ∧
        ∃ afterColon ∈ [true, false], (Mode.code false).after text = .code afterColon := by
  constructor
  · rintro ⟨⟨segments, run⟩, afterColon, settled⟩
    exact ⟨by rw [run]; rfl, afterColon, by cases afterColon <;> decide, settled⟩
  · rintro ⟨read, afterColon, _, settled⟩
    obtain ⟨⟨segments, final⟩, run, bare⟩ := Option.map_eq_some_iff.mp read
    exact ⟨⟨segments, bare ▸ run⟩, afterColon, settled⟩

instance (text : Text) : Decidable text.Whole := decidable_of_iff _ text.whole_iff.symm

namespace Mode

theorem step_of_settled {mode : Mode} {member : Char} {afterColon : Bool} (next? : Option Char)
    (settled : (mode.step member none).2 = .code afterColon)
    (plain : (mode.step member none).1 = .code → member ≠ '/') :
    mode.step member next? = mode.step member none := by
  cases mode with
  | code colon =>
      have other : member ≠ '/' := by
        intro slash
        subst slash
        exact plain rfl rfl
      simp only [step, stepCode, other, false_and, if_false]
  | comment =>
      simp only [step] at settled
      split at settled <;> cases settled
  | quoted quote => rfl
  | escaped quote => rfl
  | commentOpening => rfl
  | commentClosing => rfl
  | remarkOpening => rfl
  | remark => rfl

end Mode

namespace Assembly

theorem step_slash (pending : Assembly) (here : Location) :
    ∃ following, pending.step ⟨'/', .code, here⟩ = .reading following ∧ following ≠ empty := by
  obtain ⟨header, enclosure⟩ := pending
  cases enclosure with
  | surface =>
      refine ⟨extend ⟨header, .surface⟩ ⟨'/', .code, here⟩, rfl, ?_⟩
      have solid : isBlank '/' = false := by decide
      intro bare
      exact header_extend_ne_nil (Or.inr solid) (congrArg Assembly.header bare)
  | comment start text =>
      refine ⟨⟨header, .comment start text⟩, rfl, ?_⟩
      intro bare
      cases congrArg Assembly.enclosure bare
  | block opening depth text =>
      refine ⟨⟨header, .block opening depth ('/' :: text)⟩, rfl, ?_⟩
      intro bare
      cases congrArg Assembly.enclosure bare

theorem unaffected_of_read (next? : Option Char) {text : Text} :
    ∀ {pending : Assembly} {mode : Mode} {here : Location} {segments : List Segment}
      {afterColon : Bool}, pending.read (Glyph.list mode here text) = some (segments, empty) →
      mode.after text = .code afterColon → mode.Unaffected next? text := by
  induction text with
  | nil => exact fun _ _ => True.intro
  | cons member rest ih =>
      intro pending mode here segments afterColon run settled
      cases rest with
      -- Only the last character looks beyond the end of the text. If it is a slash, it is
      -- part of a header or of a body, and the text does not end between two segments.
      | nil =>
          refine Mode.step_of_settled next? settled ?_
          intro role slash
          subst slash
          obtain ⟨following, stepped, busy⟩ := step_slash pending here
          simp only [Glyph.list, List.head?_nil, role, read, stepped] at run
          injection run with ended
          injection ended with _ bare
          exact busy bare
      | cons second others =>
          rw [Glyph.list_cons] at run
          rcases read_cons_cases run with ⟨_, _, tail⟩ | ⟨_, _, _, tail, _⟩
          · exact ih tail settled
          · exact ih tail settled

end Assembly

namespace Text.Whole

variable {text : Text}

theorem read_at (whole : text.Whole) (here : Location) :
    ∃ segments, Assembly.empty.read (Glyph.list (.code false) here text) =
      some (segments, .empty) := by
  obtain ⟨segments, run⟩ := whole.read
  obtain ⟨others, final, runToo, _, same⟩ :=
    Assembly.read_alike text Assembly.alike_empty _ _ here run
  rw [same.eq_empty] at runToo
  exact ⟨others, runToo⟩

theorem after_eq (whole : text.Whole) : (Mode.code false).after text = .code false := by
  obtain ⟨segments, run⟩ := whole.read
  obtain ⟨afterColon, settled⟩ := whole.settled
  have fits := (Assembly.read_fits Assembly.fits_empty run).1
  rw [settled] at fits ⊢
  have idle : afterColon = false := fits.2 rfl
  rw [idle]

theorem unaffected (whole : text.Whole) (next? : Option Char) :
    (Mode.code false).Unaffected next? text := by
  obtain ⟨segments, run⟩ := whole.read
  exact Assembly.unaffected_of_read next? run whole.after_eq

theorem segmentation_eq (whole : text.Whole) (here : Location) :
    ∃ segments, (Body.mk text here).segmentation = ⟨segments, none⟩ := by
  obtain ⟨segments, run⟩ := whole.read_at here
  refine ⟨segments, ?_⟩
  rw [Body.segmentation, Assembly.segmentation_of_read run]
  simp [Segmentation.behind, Assembly.finish, Assembly.empty]

/-- After a whole text the rest is read as if it stood alone. -/
theorem segmentation_append (whole : text.Whole) (rest : Text) (here : Location) :
    (Body.mk (text ++ rest) here).segmentation =
      (Body.mk rest (here.advanceOver text)).segmentation.behind
        (Body.mk text here).segmentation.segments := by
  obtain ⟨segments, run⟩ := whole.read_at here
  have alone := Assembly.segmentation_of_read run
  rw [Body.segmentation, Glyph.list_append here (whole.unaffected _),
    Assembly.segmentation_append run, whole.after_eq, Body.segmentation, Body.segmentation, alone]
  simp [Segmentation.behind, Assembly.finish, Assembly.empty]

theorem closed (whole : text.Whole) : text.Closed := by
  obtain ⟨segments, run⟩ := whole.read
  exact ⟨(Assembly.read_fits Assembly.fits_empty run).2, whole.settled⟩

theorem append (whole : text.Whole) {rest : Text} (further : rest.Whole) :
    (text ++ rest).Whole := by
  obtain ⟨segments, run⟩ := whole.read
  obtain ⟨others, runOn⟩ := further.read_at (Location.start.advanceOver text)
  constructor
  · refine ⟨segments ++ others, ?_⟩
    rw [Glyph.list_append .start (whole.unaffected _), Assembly.read_append run, whole.after_eq,
      runOn]
    rfl
  · rw [Mode.after_append (whole.unaffected _), whole.after_eq]
    exact further.settled

theorem closed_append_iff (whole : text.Whole) (rest : Text) :
    (text ++ rest).Closed ↔ rest.Closed := by
  have depth := Mode.openAfter_append (whole.unaffected rest.head?) 0
  have mode := Mode.after_append (whole.unaffected rest.head?)
  rw [whole.closed.balanced, Option.bind_some, whole.after_eq] at depth
  rw [whole.after_eq] at mode
  constructor
  · rintro ⟨balanced, settled⟩
    exact ⟨depth ▸ balanced, mode ▸ settled⟩
  · rintro ⟨balanced, settled⟩
    exact ⟨depth ▸ balanced, mode ▸ settled⟩

end Text.Whole

/-! ### Statements -/

namespace Assembly

theorem segmentation_semicolon {pending : Assembly} (surface : pending.enclosure = .surface)
    (here : Location) :
    pending.segmentation [⟨';', .code, here⟩] = pending.finish ∧
      ∃ segments, pending.read [⟨';', .code, here⟩] = some (segments, empty) := by
  obtain ⟨header, enclosure⟩ := pending
  have outside : enclosure = .surface := surface
  subst outside
  have stepped : step ⟨header, .surface⟩ ⟨';', .code, here⟩ =
      endStatement ⟨header, .surface⟩ here := rfl
  cases header with
  | nil => exact ⟨rfl, [], rfl⟩
  | cons glyph rest =>
      have located : headerLocation ⟨glyph :: rest, .surface⟩ here =
          headerLocation ⟨glyph :: rest, .surface⟩ .start := by
        cases last : (glyph :: rest).getLast? with
        | none => exact absurd (List.getLast?_eq_none_iff.mp last) (List.cons_ne_nil _ _)
        | some first => simp only [headerLocation, last, Option.map_some, Option.getD_some]
      have ended : endStatement ⟨glyph :: rest, .surface⟩ here =
          .complete (.statement (headerText ⟨glyph :: rest, .surface⟩)
            (headerLocation ⟨glyph :: rest, .surface⟩ .start)) := by
        rw [← located]
        rfl
      constructor
      · rw [segmentation_cons, stepped, ended]
        rfl
      · refine ⟨[.statement (headerText ⟨glyph :: rest, .surface⟩)
          (headerLocation ⟨glyph :: rest, .surface⟩ .start)], ?_⟩
        rw [read, stepped, ended]
        rfl

end Assembly

namespace Text.Closed

variable {text : Text}

theorem read_at (closed : text.Closed) (here : Location) :
    ∃ segments last, Assembly.empty.read (Glyph.list (.code false) here text) =
      some (segments, last) ∧ last.enclosure = .surface := by
  obtain ⟨segments, last, run⟩ := Assembly.exists_read here Assembly.fits_empty closed.balanced
  refine ⟨segments, last, run, ?_⟩
  obtain ⟨fits, counted⟩ := Assembly.read_fits Assembly.fits_empty run
  obtain ⟨afterColon, settled⟩ := closed.settled
  have shallow : last.level = 0 := by
    have same := counted.symm.trans closed.balanced
    injection same
  rw [settled] at fits
  obtain ⟨header, enclosure⟩ := last
  cases enclosure with
  | surface => rfl
  | comment start text => cases fits
  | block opening depth text => cases shallow

theorem list_semicolon (closed : text.Closed) (here : Location) :
    Glyph.list (.code false) here (text ++ [';']) =
      Glyph.list (.code false) here text ++ [⟨';', .code, here.advanceOver text⟩] := by
  obtain ⟨afterColon, settled⟩ := closed.settled
  rw [Glyph.list_append here (Mode.unaffected_of_plain _ text (by decide) (by decide)), settled]
  rfl

theorem segmentation_semicolon (closed : text.Closed) (here : Location) :
    (Body.mk (text ++ [';']) here).segmentation = (Body.mk text here).segmentation := by
  obtain ⟨segments, last, run, surface⟩ := closed.read_at here
  have ended := (Assembly.segmentation_semicolon surface (here.advanceOver text)).1
  rw [Body.segmentation, Body.segmentation, closed.list_semicolon here,
    Assembly.segmentation_append run, Assembly.segmentation_of_read run, ended]

theorem whole_semicolon (closed : text.Closed) : (text ++ [';']).Whole := by
  obtain ⟨segments, last, run, surface⟩ := closed.read_at .start
  obtain ⟨others, ended⟩ :=
    (Assembly.segmentation_semicolon surface (Location.start.advanceOver text)).2
  obtain ⟨afterColon, settled⟩ := closed.settled
  constructor
  · refine ⟨segments ++ others, ?_⟩
    rw [closed.list_semicolon .start, Assembly.read_append run, ended]
    rfl
  · refine ⟨false, ?_⟩
    rw [Mode.after_append (Mode.unaffected_of_plain _ text (by decide) (by decide)), settled]
    rfl

end Text.Closed

/-! ### Blocks -/

def Text.block (heading inner : Text) : Text := heading ++ '{' :: (inner ++ ['}'])

theorem Text.allBlank_eq_false {text : Text} {member : Char} (present : member ∈ text)
    (solid : isBlank member = false) : text.allBlank = false := by
  rw [allBlank, List.all_eq_false]
  refine ⟨member, present, ?_⟩
  rw [solid]
  exact Bool.false_ne_true

theorem Text.allBlank_append_eq_false {first : Text} (solid : first.allBlank = false)
    (rest : Text) : (first ++ rest).allBlank = false := by
  rw [allBlank, List.all_append]
  rw [allBlank] at solid
  rw [solid, Bool.false_and]

theorem Text.allBlank_reverse (text : Text) : Text.allBlank text.reverse = text.allBlank :=
  List.all_reverse

theorem Text.allBlank_block (heading inner : Text) : (Text.block heading inner).allBlank = false :=
  allBlank_eq_false (List.mem_append_right heading (List.mem_cons_self ..))
    (by decide : isBlank '{' = false)

namespace Assembly

theorem read_block (header : List Glyph) (opening : Location) (text : Text) :
    ∀ (mode : Mode) (here : Location) (depth : Nat) (taken : Text) {left : Nat},
      mode.openAfter depth text = some left →
        read ⟨header, .block opening depth taken⟩ (Glyph.list mode here text) =
          some ([], ⟨header, .block opening left (text.reverse ++ taken)⟩) := by
  induction text with
  | nil =>
      intro mode here depth taken left counted
      injection counted with same
      subst same
      rfl
  | cons member rest ih =>
      intro mode here depth taken left counted
      obtain ⟨inner, after, later⟩ := Option.bind_eq_some_iff.mp counted
      have within := step_block_cases header opening depth taken
        ⟨member, (mode.step member rest.head?).1, here⟩
      rcases within with ⟨role, brace, shallow, _⟩ | ⟨deeper, counted, stepped⟩
      · simp only at role brace
        rw [role, brace, shallow] at after
        cases after
      · have same : deeper = inner := by
          rw [after] at counted
          injection counted with same
          exact same.symm
        rw [Glyph.list, read, stepped, List.reverse_cons, List.append_assoc]
        exact same ▸ ih _ _ deeper (member :: taken) (same ▸ later)

variable {heading inner : Text} {header : List Glyph} {here : Location}

theorem list_block (settled : ∃ afterColon, (Mode.code false).after heading = .code afterColon)
    (closed : inner.Closed) (here : Location) :
    ∃ last, Glyph.list (.code false) here (Text.block heading inner) =
      Glyph.list (.code false) here heading ++ ⟨'{', .code, here.advanceOver heading⟩ ::
        (Glyph.list (.code false) ((here.advanceOver heading).advance '{') inner ++
          [⟨'}', .code, last⟩]) := by
  obtain ⟨afterColon, settled⟩ := settled
  obtain ⟨colon, ended⟩ := closed.settled
  refine ⟨((here.advanceOver heading).advance '{').advanceOver inner, ?_⟩
  have front : Glyph.list (.code afterColon) (here.advanceOver heading) ('{' :: (inner ++ ['}'])) =
      ⟨'{', .code, here.advanceOver heading⟩ ::
        Glyph.list (.code false) ((here.advanceOver heading).advance '{') (inner ++ ['}']) := rfl
  have plain : (Mode.code false).Unaffected (some '{') heading :=
    Mode.unaffected_of_plain _ heading (by decide) (by decide)
  have apart : (Mode.code false).Unaffected ('{' :: (inner ++ ['}'])).head? heading := plain
  rw [Text.block, Glyph.list_append here apart, settled, front,
    Glyph.list_append _ (Mode.unaffected_of_plain _ inner (by decide) (by decide)), ended]
  rfl

theorem read_heading_block
    (begun : empty.read (Glyph.list (.code false) here heading) = some ([], ⟨header, .surface⟩))
    (settled : ∃ afterColon, (Mode.code false).after heading = .code afterColon)
    (closed : inner.Closed) :
    empty.read (Glyph.list (.code false) here (Text.block heading inner)) =
      some (if inner.allBlank then [] else [.block (headerText ⟨header, .surface⟩)
        (headerLocation ⟨header, .surface⟩ (here.advanceOver heading))
        ⟨inner, (here.advanceOver heading).advance '{'⟩], empty) := by
  obtain ⟨last, listed⟩ := list_block settled closed here
  have within := read_block header (here.advanceOver heading) inner (.code false)
    ((here.advanceOver heading).advance '{') 0 [] closed.balanced
  have closing : step ⟨header, .block (here.advanceOver heading) 0 inner.reverse⟩
      ⟨'}', .code, last⟩ =
        endBlock ⟨header, .surface⟩ (here.advanceOver heading) inner.reverse := rfl
  have opened : step ⟨header, .surface⟩ ⟨'{', .code, here.advanceOver heading⟩ =
      .reading ⟨header, .block (here.advanceOver heading) 0 []⟩ := rfl
  rw [listed, read_append begun, read, opened]
  simp only
  rw [read_append within, List.append_nil, read, closing, endBlock, Text.allBlank_reverse,
    List.reverse_reverse]
  cases inner.allBlank with
  | true => rfl
  | false => rfl

theorem segmentation_heading_block
    (begun : empty.read (Glyph.list (.code false) here heading) = some ([], ⟨header, .surface⟩))
    (settled : ∃ afterColon, (Mode.code false).after heading = .code afterColon)
    (closed : inner.Closed) (solid : inner.allBlank = false) :
    (Body.mk (Text.block heading inner) here).segmentation =
      ⟨[.block (headerText ⟨header, .surface⟩)
        (headerLocation ⟨header, .surface⟩ (here.advanceOver heading))
        ⟨inner, (here.advanceOver heading).advance '{'⟩], none⟩ := by
  have run := read_heading_block begun settled closed
  rw [solid, if_neg Bool.false_ne_true] at run
  exact segmentation_of_read run

end Assembly

namespace Text.Heading

variable {heading inner : Text}

theorem whole_block (begins : heading.Heading) (closed : inner.Closed) :
    (Text.block heading inner).Whole := by
  obtain ⟨header, begun⟩ := begins.read
  refine ⟨⟨_, Assembly.read_heading_block begun begins.settled closed⟩, false, ?_⟩
  obtain ⟨afterColon, settled⟩ := begins.settled
  obtain ⟨colon, ended⟩ := closed.settled
  have plain : (Mode.code false).Unaffected (some '{') heading :=
    Mode.unaffected_of_plain _ heading (by decide) (by decide)
  have apart : (Mode.code false).Unaffected ('{' :: (inner ++ ['}'])).head? heading := plain
  have opened : (Mode.code afterColon).after ('{' :: (inner ++ ['}'])) =
      (Mode.code false).after (inner ++ ['}']) := rfl
  rw [Text.block, Mode.after_append apart, settled, opened,
    Mode.after_append (Mode.unaffected_of_plain _ inner (by decide) (by decide)), ended]
  rfl

theorem read_at (begins : heading.Heading) (here : Location) :
    ∃ header, Assembly.empty.read (Glyph.list (.code false) here heading) =
      some ([], ⟨header, .surface⟩) := by
  obtain ⟨header, begun⟩ := begins.read
  obtain ⟨others, ⟨placed, enclosure⟩, run, same, alike⟩ :=
    Assembly.read_alike heading Assembly.alike_empty _ _ here begun
  have none : others = [] := List.forall₂_nil_left_iff.mp same
  have outside : Enclosure.surface.Alike enclosure := alike.enclosure
  subst none
  cases outside with
  | surface => exact ⟨placed, run⟩

theorem segmentation_blank_block (begins : heading.Heading) (closed : inner.Closed)
    (blank : inner.allBlank = true) (here : Location) :
    (Body.mk (Text.block heading inner) here).segmentation = ⟨[], none⟩ := by
  obtain ⟨header, run⟩ := begins.read_at here
  have dropped := Assembly.read_heading_block run begins.settled closed
  rw [blank, if_pos rfl] at dropped
  exact Assembly.segmentation_of_read dropped

theorem segmentation_block (begins : heading.Heading) (here : Location) :
    ∃ header location place, ∀ inner : Text, inner.Closed → inner.allBlank = false →
      (Body.mk (Text.block heading inner) here).segmentation =
        ⟨[.block header location ⟨inner, place⟩], none⟩ := by
  obtain ⟨header, run⟩ := begins.read_at here
  refine ⟨Assembly.headerText ⟨header, .surface⟩,
    Assembly.headerLocation ⟨header, .surface⟩ (here.advanceOver heading),
    (here.advanceOver heading).advance '{', ?_⟩
  intro inner closed solid
  exact Assembly.segmentation_heading_block run begins.settled closed solid

end Text.Heading

namespace Traced

variable {α : Type}

theorem foldNodes_behind (step : α → Node → Traced α) (start : α) (segments : List Segment)
    (whole : Segmentation) :
    foldNodes step start (whole.behind segments) =
      (foldNodes step start ⟨segments, none⟩).andThen fun reached =>
        foldNodes step reached whole := by
  simp only [foldNodes, Segmentation.behind, List.map_append, foldl_append, andThen_assoc,
    done_andThen]

/-- Whatever the nodes do: a whole text is read first, and then what follows it. -/
theorem foldNodes_append {first : Text} (whole : first.Whole) (rest : Text) (here : Location)
    (step : α → Node → Traced α) (start : α) :
    foldNodes step start (Body.mk (first ++ rest) here).segmentation =
      (foldNodes step start (Body.mk first here).segmentation).andThen fun reached =>
        foldNodes step reached (Body.mk rest (here.advanceOver first)).segmentation := by
  obtain ⟨segments, alone⟩ := whole.segmentation_eq here
  rw [whole.segmentation_append rest here, alone, foldNodes_behind]

end Traced
end NestedCss
