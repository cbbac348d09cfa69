import NestedCss.Proofs.Exchanges
import NestedCss.Proofs.Printing

set_option autoImplicit false

/-! Parameter lists. A list in which no parenthesis is nested is dropped from the name of a
mixin wherever it stands behind the directive, so lists of this kind may be added to the
inclusions and to the mixins of a stylesheet. Where parentheses are nested, the list is
dropped up to the first closing one only, and what is left of it belongs to the name. -/

namespace NestedCss

def Text.argumentList (arguments : Text) : Text := '(' :: (arguments ++ [')'])

/-- A place where a list of arguments may stand: outside strings and comments, behind a
directive and a name without parentheses, in an inclusion or in the heading of a mixin. -/
structure Text.TakesArguments (before after : Text) : Prop where
  code : ∃ afterColon, (Mode.code false).after before = .code afterColon
  apart : before.getLast? ≠ some '/'
  /-- A list parts two slashes from a colon. -/
  colon : after.head? = some '/' → (Mode.code false).after before = .code false
  directive : ∃ name, '(' ∉ name ∧
    (((Mode.code false).heading [] before).trimStart = Node.includeMark ++ name ∧
        (Mode.code false).delimiter? after ≠ some '{' ∨
      ((Mode.code false).heading [] before).trimStart = Node.mixinMark ++ name ∧
        (Mode.code false).delimiter? after = some '{')

/-- The second text has one list of arguments more, without nested parentheses. -/
inductive Text.AddsArguments : Text → Text → Prop
  | list {before after arguments : Text} (takes : TakesArguments before after)
      (plain : arguments.Plain) (flat : '(' ∉ arguments ∧ ')' ∉ arguments) :
      AddsArguments (before ++ after) (before ++ arguments.argumentList ++ after)

/-! ### Names -/

private theorem dropParametersFrom_append {front : Text} (bare : '(' ∉ front) (rest : Text) :
    dropParametersFrom false (front ++ rest) = front ++ dropParametersFrom false rest := by
  induction front with
  | nil => rfl
  | cons member others ih =>
      have own : member ≠ '(' := fun same => bare (same ▸ List.mem_cons_self ..)
      rw [List.cons_append, dropParametersFrom, if_neg fun opens => own opens.1,
        ih fun later => bare (List.mem_cons_of_mem _ later)]
      rfl

private theorem dropParametersFrom_closing {inner : Text} (unclosed : ')' ∉ inner) (rest : Text) :
    dropParametersFrom true (inner ++ ')' :: rest) = dropParametersFrom false rest := by
  induction inner with
  | nil => rfl
  | cons member others ih =>
      rw [List.mem_cons, not_or] at unclosed
      have goesOn : (member != ')') = true := bne_iff_ne.mpr (Ne.symm unclosed.1)
      rw [List.cons_append, dropParametersFrom, goesOn]
      exact ih unclosed.2

private theorem dropParametersFrom_list {inner : Text} (unclosed : ')' ∉ inner) (rest : Text) :
    dropParametersFrom false ('(' :: (inner ++ ')' :: rest)) = dropParametersFrom false rest := by
  have closing : ')' ∈ inner ++ ')' :: rest :=
    List.mem_append_right inner (List.mem_cons_self ..)
  rw [dropParametersFrom, if_pos ⟨rfl, closing⟩, dropParametersFrom_closing unclosed]

private theorem dropParametersFrom_blanks {blanks : Text}
    (blank : ∀ member ∈ blanks, isBlank member = true) (text : Text) :
    dropParametersFrom false (text ++ blanks) = dropParametersFrom false text ++ blanks ∧
      (')' ∈ text →
        dropParametersFrom true (text ++ blanks) = dropParametersFrom true text ++ blanks) := by
  have noClosing : ')' ∉ blanks := by
    intro present
    exact absurd (blank _ present) (by decide)
  have noOpening : '(' ∉ blanks := by
    intro present
    exact absurd (blank _ present) (by decide)
  induction text with
  | nil => exact ⟨dropParametersFrom_eq_self noOpening, fun absent => by cases absent⟩
  | cons member rest ih =>
      have closing : ')' ∈ rest ++ blanks ↔ ')' ∈ rest := by
        rw [List.mem_append, or_iff_left noClosing]
      constructor
      · simp only [List.cons_append, dropParametersFrom, closing]
        split
        · rename_i opens
          exact ih.2 opens.2
        · rw [ih.1]
          rfl
      · intro present
        simp only [List.cons_append, dropParametersFrom]
        cases ends : member != ')' with
        | false => exact ih.1
        | true =>
            refine ih.2 ((List.mem_cons.mp present).resolve_left fun same => ?_)
            rw [← same] at ends
            cases ends

theorem directiveName_trimEnd (text : Text) : directiveName text.trimEnd = directiveName text := by
  obtain ⟨blanks, blank, whole⟩ := text.exists_trimEnd_append
  have dropped := (dropParametersFrom_blanks blank text.trimEnd).1
  rw [whole] at dropped
  rw [directiveName, directiveName, dropped, Text.trim_append_of_blank _ blank]

private theorem directiveName_argumentList {name arguments : Text} (bare : '(' ∉ name)
    (flat : ')' ∉ arguments) (rest : Text) :
    directiveName (name ++ (arguments.argumentList ++ rest)) = directiveName (name ++ rest) := by
  have spelled : arguments.argumentList ++ rest = '(' :: (arguments ++ ')' :: rest) := by
    simp [Text.argumentList]
  rw [directiveName, directiveName, dropParametersFrom_append bare, dropParametersFrom_append bare,
    spelled, dropParametersFrom_list flat]

/-! ### Nested parentheses -/

namespace Text

private theorem Paired.count_eq {text : Text} (paired : text.Paired) :
    text.count '(' = text.count ')' := by
  induction paired with
  | nil => rfl
  | @plain member rest other following ih =>
      rw [List.count_cons_of_ne other.1, List.count_cons_of_ne other.2, ih]
  | @group inner rest within following ihWithin ihFollowing =>
      simp only [List.count_cons, List.count_append, ihWithin, ihFollowing]
      simp
      omega

private theorem Paired.exists_closing {text : Text} (paired : text.Paired) (nested : '(' ∈ text) :
    ∃ inner rest, text = inner ++ ')' :: rest ∧ ')' ∉ inner ∧ '(' ∈ inner := by
  induction paired with
  | nil => cases nested
  | @plain member rest other following ih =>
      obtain ⟨inner, others, rfl, unclosed, opened⟩ :=
        ih ((List.mem_cons.mp nested).resolve_left (Ne.symm other.1))
      refine ⟨member :: inner, others, rfl, ?_, List.mem_cons_of_mem _ opened⟩
      rw [List.mem_cons, not_or]
      exact ⟨Ne.symm other.2, unclosed⟩
  | @group inner rest within following ih _ =>
      by_cases deeper : '(' ∈ inner
      · obtain ⟨first, others, rfl, unclosed, _⟩ := ih deeper
        refine ⟨'(' :: first, others ++ ')' :: rest, by simp, ?_, List.mem_cons_self ..⟩
        rw [List.mem_cons, not_or]
        exact ⟨by decide, unclosed⟩
      · have unclosed : ')' ∉ inner := by
          rw [← List.count_eq_zero] at deeper ⊢
          rw [← within.count_eq, deeper]
        refine ⟨'(' :: inner, rest, rfl, ?_, List.mem_cons_self ..⟩
        rw [List.mem_cons, not_or]
        exact ⟨by decide, unclosed⟩

end Text

private theorem count_closing_le (text : Text) :
    text.count ')' ≤ (dropParametersFrom false text).count ')' + text.count '(' ∧
      text.count ')' ≤ (dropParametersFrom true text).count ')' + text.count '(' + 1 := by
  induction text with
  | nil => exact ⟨Nat.zero_le _, Nat.zero_le _⟩
  | cons member rest ih =>
      obtain ⟨outside, inside⟩ := ih
      constructor
      · by_cases opens : member = '(' ∧ ')' ∈ rest
        · rw [dropParametersFrom, if_pos opens, opens.1, List.count_cons_self,
            List.count_cons_of_ne (by decide)]
          omega
        · rw [dropParametersFrom, if_neg opens]
          simp only [List.count_cons]
          omega
      · rw [dropParametersFrom]
        cases ends : member != ')' with
        | false =>
            obtain rfl : member = ')' := bne_eq_false_iff_eq.mp ends
            rw [List.count_cons_self, List.count_cons_of_ne (by decide)]
            omega
        | true =>
            rw [List.count_cons_of_ne (bne_iff_ne.mp ends), List.count_cons]
            omega

/-- With a list of arguments whose parentheses pair off, the name is read as it is written
exactly when none of them are nested. -/
theorem directiveName_eq_name_iff {name arguments : Text} (isName : name.IsName)
    (paired : arguments.Paired) :
    directiveName (' ' :: (name ++ arguments.argumentList)) = name ↔ '(' ∉ arguments := by
  obtain ⟨trimmed, some, plain, noOpening, noClosing⟩ := isName
  have bare : '(' ∉ ' ' :: name := by simpa using noOpening
  constructor
  · intro same nested
    obtain ⟨inner, others, rfl, unclosed, opened⟩ := paired.exists_closing nested
    have spelled : ' ' :: (name ++ (inner ++ ')' :: others).argumentList) =
        ' ' :: name ++ '(' :: (inner ++ ')' :: (others ++ [')'])) := by
      simp [Text.argumentList]
    -- What is left behind the first list has a closing parenthesis too many.
    have left : ')' ∈ dropParametersFrom false (others ++ [')']) := by
      have pairs := paired.count_eq
      have counted := (count_closing_le (others ++ [')'])).1
      have begun := List.count_pos_iff.mpr opened
      have none := List.count_eq_zero.mpr unclosed
      rw [List.count_append, List.count_append, List.count_cons_self,
        List.count_cons_of_ne (by decide), none] at pairs
      rw [List.count_append, List.count_append, List.count_singleton_self,
        List.count_singleton] at counted
      simp only [Char.reduceBEq, Bool.false_eq_true, if_false] at counted
      refine List.count_pos_iff.mp ?_
      omega
    have kept : ')' ∈ Text.trim (' ' :: name ++ dropParametersFrom false (others ++ [')'])) :=
      Text.mem_trim_of_mem (List.mem_append_right _ left) (by decide)
    rw [spelled, directiveName, dropParametersFrom_append bare,
      dropParametersFrom_list unclosed] at same
    rw [same] at kept
    exact noClosing kept
  · intro flat
    have unclosed : ')' ∉ arguments := by
      rw [← List.count_eq_zero] at flat ⊢
      rw [← paired.count_eq, flat]
    have dropped := directiveName_argumentList bare unclosed []
    rw [List.append_nil, List.append_nil] at dropped
    exact dropped.trans (directiveName_of_isName ⟨trimmed, some, plain, noOpening, noClosing⟩)

/-! ### Directives as they are read -/

namespace Node

private theorem trim_directive {mark : Text} (trimmed : mark.trim = mark) (some : mark ≠ [])
    (rest : Text) :
    (mark ++ rest).trim = mark ++ rest.trimEnd := Text.trim_around [] rest trimmed some

private theorem ofStatement_include (rest : Text) (location : Location) :
    ofStatement (includeMark ++ rest).trim location = .inclusion ⟨directiveName rest, location⟩ := by
  rw [trim_directive (by decide) (by decide), ofStatement, Text.afterLead?_append]
  simp only [directiveName_trimEnd]

private theorem ofBlock_mixin (rest : Text) (body : Body) :
    ofBlock (mixinMark ++ rest).trim body = .mixin ⟨directiveName rest, body⟩ := by
  rw [trim_directive (by decide) (by decide), ofBlock, Text.afterLead?_append]
  simp only [directiveName_trimEnd]

end Node

namespace Text

variable {arguments : Text}

private theorem plain_argumentList (plain : arguments.Plain) : arguments.argumentList.Plain := by
  intro member present
  rw [argumentList, List.mem_cons, List.mem_append, List.mem_singleton] at present
  rcases present with rfl | inside | rfl
  · decide
  · exact plain member inside
  · decide

private theorem getLast?_argumentList (arguments : Text) :
    arguments.argumentList.getLast? = some ')' := by
  rw [argumentList, ← List.cons_append, List.getLast?_concat]

private theorem trim_argumentList (arguments : Text) :
    arguments.argumentList.trim = arguments.argumentList :=
  trim_between ['('] arguments [')'] (by decide) (by decide) (by decide) (by decide)

private theorem after_argumentList (plain : arguments.Plain) (afterColon : Bool) :
    (Mode.code afterColon).after arguments.argumentList = .code false := by
  obtain ⟨colon, settled⟩ := ((plain_argumentList plain).quotable.gathers afterColon).settled
  cases colon with
  | false => exact settled
  | true =>
      have last : arguments.argumentList.getLast? = some ':' :=
        Mode.getLast?_of_afterColon (List.cons_ne_nil _ _) settled
      rw [getLast?_argumentList] at last
      cases last

private theorem unaffected_argumentList (plain : arguments.Plain) (afterColon : Bool)
    (next? : Option Char) : (Mode.code afterColon).Unaffected next? arguments.argumentList := by
  refine Mode.unaffected_of_settled (after_argumentList plain afterColon) ?_ next?
  rw [getLast?_argumentList]
  decide

private theorem quotable_directive {mark name : Text} (trimmed : mark.trim = mark)
    (some : mark ≠ []) (ordinary : mark.Plain) (isName : name.IsName) (plain : arguments.Plain) :
    let text := mark ++ ' ' :: (name ++ arguments.argumentList)
    text.Quotable ∧ text.trim = text := by
  intro text
  have whole : text = mark ++ (' ' :: (name ++ '(' :: arguments) ++ [')']) := by
    simp [text, argumentList]
  constructor
  · refine ordinary.quotable.append (.plain (by decide) (by decide) ?_)
    exact isName.2.2.1.quotable.append (plain_argumentList plain).quotable
  · rw [whole]
    exact trim_between _ _ _ trimmed (by decide) some (by decide)

private theorem nodes_inclusion {name : Text} (isName : name.IsName) (plain : arguments.Plain)
    (here : Location) :
    let statement := Node.includeMark ++ ' ' :: (name ++ arguments.argumentList)
    ∃ location, (Body.mk (statement ++ [';']) here).nodes =
      [.inclusion ⟨directiveName (' ' :: (name ++ arguments.argumentList)), location⟩] := by
  intro statement
  obtain ⟨quotable, trimmed⟩ : statement.Quotable ∧ statement.trim = statement :=
    quotable_directive (by decide) (by decide) (by decide) isName plain
  obtain ⟨location, single⟩ :=
    quotable.segmentation_statement trimmed (List.cons_ne_nil _ _) here
  refine ⟨location, ?_⟩
  have read := Node.ofStatement_include (' ' :: (name ++ arguments.argumentList)) location
  rw [trimmed] at read
  rw [Body.nodes, single, List.map_singleton, Node.ofSegment, read]

private theorem nodes_mixin {name : Text} (isName : name.IsName) (plain : arguments.Plain)
    {body : Body} (enclosable : body.Enclosable) (here : Location) :
    let heading := Node.mixinMark ++ ' ' :: (name ++ arguments.argumentList)
    ∃ place, (Body.mk (block heading body.text) here).nodes =
      [.mixin ⟨directiveName (' ' :: (name ++ arguments.argumentList)), ⟨body.text, place⟩⟩] := by
  intro heading
  obtain ⟨quotable, trimmed⟩ : heading.Quotable ∧ heading.trim = heading :=
    quotable_directive (by decide) (by decide) (by decide) isName plain
  obtain ⟨location, single⟩ := quotable.segmentation_block
    ((trim_eq_self_iff heading).mp trimmed).1 enclosable.closed enclosable.solid here
  refine ⟨(here.advanceOver heading).advance '{', ?_⟩
  rw [Body.nodes, single, List.map_singleton, Node.ofSegment, Node.ofBlock_mixin]

end Text

/-! ### Lists added to a text -/

def SameButArguments (text other : Text) : Prop := text = other ∨ text.AddsArguments other

def Change.ofArguments : Change where
  statement text other := ∃ name, ∀ here, Node.ofStatement text here = .inclusion ⟨name, here⟩ ∧
    Node.ofStatement other here = .inclusion ⟨name, here⟩
  header text other := ∃ name, ∀ body, Node.ofBlock text body = .mixin ⟨name, body⟩ ∧
    Node.ofBlock other body = .mixin ⟨name, body⟩
  body := SameButArguments
  comment _ _ := False

private theorem Segment.Varies.resembles {segment copy : Segment}
    (varies : segment.Varies .ofArguments copy) :
    (Node.ofSegment segment).Resembles SameButArguments (.ofSegment copy) := by
  cases varies with
  | statement changed here there =>
      obtain ⟨name, read⟩ := changed
      rw [Node.ofSegment, Node.ofSegment, (read here).1, (read there).2]
      exact .inclusion name here there
  | @header _ _ changed here there body copy same =>
      obtain ⟨name, read⟩ := changed
      rw [Node.ofSegment, Node.ofSegment, (read body).1, (read copy).2]
      exact .mixin name (Or.inl same)
  | body header here there changed => exact Node.resembles_ofBlock header changed
  | comment changed => cases changed

namespace Text.TakesArguments

variable {before after arguments : Text}

private theorem inside {outside first last beyond : Text}
    (takes : TakesArguments (outside ++ '{' :: first) (last ++ '}' :: beyond))
    (code : ∃ afterColon, (Mode.code false).after outside = .code afterColon)
    (ended : ∃ afterColon, (Mode.code false).after last = .code afterColon) :
    TakesArguments first last := by
  obtain ⟨colon, outer⟩ := code
  obtain ⟨settled, apart, parted, name, bare, directive⟩ := takes
  rw [Mode.after_opening outer] at settled parted
  rw [Mode.heading_opening outer] at directive
  -- The brace ends what the body leaves underway.
  have delimiter : (Mode.code false).delimiter? (last ++ '}' :: beyond) =
      ((Mode.code false).delimiter? last).or (some '}') := by
    obtain ⟨afterColon, code⟩ := ended
    rw [Mode.delimiter?_append (Mode.unaffected_of_plain _ last (by simp) (by simp)), code]
    simp [Mode.delimiter?, Mode.step, Mode.stepCode, isQuote]
  refine ⟨settled, getLast?_ne_of_block apart, fun slash => parted ?_, name, bare, ?_⟩
  · cases last with
    | nil => cases slash
    | cons begun others => exact slash
  · rw [delimiter] at directive
    cases own : (Mode.code false).delimiter? last with
    | none => simpa [own] using directive
    | some member => simpa [own] using directive

private theorem allBlank_eq_false (takes : TakesArguments before after) (back : Text) :
    Text.allBlank (before ++ back) = false := by
  obtain ⟨_, _, _, name, _, directive⟩ := takes
  have present : '@' ∈ ((Mode.code false).heading [] before).trimStart := by
    rcases directive with ⟨same, _⟩ | ⟨same, _⟩ <;> rw [same] <;> exact List.mem_cons_self ..
  have written := Mode.mem_of_mem_heading (List.dropWhile_subset _ present)
  refine Text.allBlank_eq_false (List.mem_append_left back ?_) (by decide : isBlank '@' = false)
  exact written.resolve_left List.not_mem_nil

private theorem abreast (takes : TakesArguments before after) (flat : ')' ∉ arguments)
    {header written : List Glyph} (same : Assembly.Alike ⟨header, .surface⟩ ⟨written, .surface⟩)
    (carries : Assembly.written ⟨header, .surface⟩ =
      ((Mode.code false).heading [] before).trimStart) (mode : Mode) (place : Location) :
    Assembly.Abreast (Change.ofArguments.endedBy ((Mode.code false).delimiter? after))
      ⟨header, .surface⟩
      ⟨(Glyph.list mode place arguments.argumentList).reverse ++ written, .surface⟩ := by
  obtain ⟨_, _, _, name, bare, directive⟩ := takes
  have members : (written.map Glyph.member).reverse = Assembly.written ⟨header, .surface⟩ := by
    have paired : header.map Glyph.member = written.map Glyph.member := same.header
    rw [← paired, Assembly.written, List.map_reverse]
  have begun : header ≠ [] := by
    rw [Ne, ← Assembly.written_eq_nil_iff ⟨header, .surface⟩, carries]
    rcases directive with ⟨spelled, _⟩ | ⟨spelled, _⟩ <;> rw [spelled] <;>
      exact List.cons_ne_nil _ _
  have added : (Glyph.list mode place arguments.argumentList).reverse ++ written ≠ [] :=
    List.append_ne_nil_of_left_ne_nil (List.reverse_ne_nil_iff.mpr (List.cons_ne_nil _ _)) _
  have named : ∀ further : Text, directiveName (name ++ (arguments.argumentList ++ further)) =
      directiveName (name ++ further) := directiveName_argumentList bare flat
  refine ⟨rfl, .surface, ⟨begun, added⟩, fun further => ?_⟩
  rw [Assembly.written_append_list, members, carries]
  rcases directive with ⟨spelled, statement⟩ | ⟨spelled, block⟩
  · rw [Change.endedBy, if_neg statement, spelled]
    refine ⟨directiveName (name ++ further), fun here => ⟨?_, ?_⟩⟩
    · rw [List.append_assoc, Node.ofStatement_include]
    · rw [List.append_assoc, List.append_assoc, Node.ofStatement_include, named]
  · rw [Change.endedBy, if_pos block, spelled]
    refine ⟨directiveName (name ++ further), fun body => ⟨?_, ?_⟩⟩
    · rw [List.append_assoc, Node.ofBlock_mixin]
    · rw [List.append_assoc, List.append_assoc, Node.ofBlock_mixin, named]

private theorem agreeOn (takes : TakesArguments before after) {afterColon : Bool}
    (settled : (Mode.code false).after before = .code afterColon) :
    (Mode.code afterColon).AgreeOn (.code false) after := by
  have colon := takes.colon
  cases after with
  | nil => exact True.intro
  | cons member rest =>
      by_cases slash : member = '/'
      · have plain := settled.symm.trans (colon (by rw [slash]; rfl))
        rw [plain]
        exact rfl
      · simp only [Mode.AgreeOn, Mode.step, Mode.stepCode, slash, false_and, if_false]

/-- A flat list at such a place changes no name, wherever the place is. -/
theorem varies (takes : TakesArguments before after) (plain : arguments.Plain)
    (flat : '(' ∉ arguments ∧ ')' ∉ arguments) (here there : Location) :
    (Body.mk (before ++ [] ++ after) here).segmentation.Varies .ofArguments
      (Body.mk (before ++ arguments.argumentList ++ after) there).segmentation := by
  obtain ⟨afterColon, settled⟩ := takes.code
  have gathered := (plain_argumentList plain).quotable.gathers afterColon
  have apart := Mode.unaffected_of_settled settled takes.apart
  have bare : Seamless [] before after := ⟨apart _, True.intro, fun _ => rfl⟩
  have seamless : arguments.argumentList.Seamless before after := by
    refine ⟨apart _, ?_, ?_⟩
    · rw [settled]
      exact unaffected_argumentList plain afterColon _
    · rw [settled]
      exact gathered.openAfter_eq
  have ended : ((Mode.code false).after before).after arguments.argumentList = .code false := by
    rw [settled]
    exact after_argumentList plain afterColon
  have agree : (((Mode.code false).after before).after []).AgreeOn
      (((Mode.code false).after before).after arguments.argumentList) after := by
    rw [ended, settled]
    exact takes.agreeOn settled
  refine segmentation_varies takes.code bare seamless agree (fun first last around => ?_) ?_
    here there
  · obtain ⟨⟨outside, beyond, rfl, rfl, code⟩, closed⟩ := around
    have body : ∃ colon, (Mode.code false).after last = .code colon := by
      have whole := closed.settled
      obtain ⟨colon, outer⟩ := code
      rw [Mode.after_opening outer] at settled
      have front : (Mode.code false).Unaffected (arguments.argumentList ++ last).head? first :=
        Mode.unaffected_of_plain _ first (by simp [argumentList]) (by simp [argumentList])
      rwa [List.append_assoc, Mode.after_append front, settled,
        Mode.after_append (unaffected_argumentList plain afterColon _),
        after_argumentList plain afterColon] at whole
    have within := takes.inside code body
    refine ⟨?_, Or.inr ?_⟩
    · rw [List.append_assoc, List.append_assoc, within.allBlank_eq_false,
        within.allBlank_eq_false]
    · rw [List.append_nil]
      exact .list within plain flat
  · intro place segments header written run same here there
    have carries := Assembly.read_carries Assembly.fits_empty (@Assembly.carries_empty [] rfl) run
      rfl
    have begins := ((trim_eq_self_iff _).mp (trim_argumentList arguments)).1
    have onwards : (Mode.code afterColon).AgreeOn (.code false) after := takes.agreeOn settled
    rw [settled, List.nil_append, onwards.list_eq,
      gathered.segmentation_append begins (unaffected_argumentList plain afterColon _),
      after_argumentList plain afterColon]
    exact (takes.abreast flat.2 same carries _ _).segmentation_varies after
      ⟨id, fun _ => rfl⟩

end Text.TakesArguments

private theorem corresponds_sameButArguments : Corresponds SameButArguments := by
  rintro ⟨text, here⟩ ⟨other, there⟩ (same | added)
  · exact (Body.segmentation_alike same).resembles fun _ => Or.inl rfl
  · generalize spelled : (Body.mk text here).text = source at added
    generalize longer : (Body.mk other there).text = copy at added
    cases added with
    | @list before after arguments takes plain flat =>
        subst spelled longer
        have varies := takes.varies plain flat here there
        rw [List.append_nil] at varies
        exact varies.resembles (fun _ => Or.inl rfl) fun _ _ changed => changed.resembles

/-- A directive is read with the name that it is written with exactly when no parentheses are
nested in its list of arguments, and a stylesheet compiles to the same text, or fails for a
cause of the same kind, however many lists without nested parentheses are added to its
inclusions and to its mixins. -/
theorem names_read_without_flat_arguments {name arguments : Text} (isName : name.IsName)
    (plain : arguments.Plain) (paired : arguments.Paired) {body : Body}
    (enclosable : body.Enclosable) (here : Location) (options : CompileOptions)
    {source other : Text} (added : Relation.ReflTransGen Text.AddsArguments source other) :
    let directive (mark : Text) := mark ++ ' ' :: (name ++ arguments.argumentList)
    (∃ read location, (Body.mk (directive Node.includeMark ++ [';']) here).nodes =
      [.inclusion ⟨read, location⟩] ∧ (read = name ↔ '(' ∉ arguments)) ∧
    (∃ read place, (Body.mk (Text.block (directive Node.mixinMark) body.text) here).nodes =
      [.mixin ⟨read, ⟨body.text, place⟩⟩] ∧ (read = name ↔ '(' ∉ arguments)) ∧
    Agree Eq (compileSource options source).outcome (compileSource options other).outcome := by
  intro directive
  have named := directiveName_eq_name_iff isName paired
  obtain ⟨location, inclusion⟩ := Text.nodes_inclusion isName plain here
  obtain ⟨place, mixin⟩ := Text.nodes_mixin isName plain enclosable here
  refine ⟨⟨_, location, inclusion, named⟩, ⟨_, place, mixin, named⟩, ?_⟩
  induction added with
  | refl => exact .refl _
  | tail _ added ih =>
      exact ih.trans (corresponds_sameButArguments.agree options (Or.inr added))

theorem names_read_without_flat_arguments_of_sheet :
    let name : Text := "m".toList
    let arguments : Text := "calc(1px)".toList
    let body : Body := ⟨"color:red;".toList, .start⟩
    let directive (mark : Text) : Text := mark ++ ' ' :: (name ++ arguments.argumentList)
    let heading : Text := "@mixin m".toList
    let rule : Text := "\x7bcolor:red;\x7d.a\x7b@include m".toList
    let ending : Text := ";\x7d".toList
    let formal : Text := Text.argumentList "$c".toList
    let actual : Text := Text.argumentList "1px".toList
    (name.IsName ∧ arguments.Plain ∧ arguments.Paired ∧ body.Enclosable ∧
      Relation.ReflTransGen Text.AddsArguments (heading ++ (rule ++ ending))
        (heading ++ (formal ++ rule) ++ actual ++ ending)) ∧
    (∃ read location, (Body.mk (directive Node.includeMark ++ [';']) .start).nodes =
      [.inclusion ⟨read, location⟩] ∧ (read = name ↔ '(' ∉ arguments)) ∧
    (∃ read place, (Body.mk (Text.block (directive Node.mixinMark) body.text) .start).nodes =
      [.mixin ⟨read, ⟨body.text, place⟩⟩] ∧ (read = name ↔ '(' ∉ arguments)) ∧
    Agree Eq (compileSource {} (heading ++ (rule ++ ending))).outcome
      (compileSource {} (heading ++ (formal ++ rule) ++ actual ++ ending)).outcome := by
  intro name arguments body directive heading rule ending formal actual
  have isName : name.IsName := ⟨by decide, by decide, by decide, by decide, by decide⟩
  have plain : arguments.Plain := by decide
  have paired : arguments.Paired := by
    have inner : Text.Paired "1px".toList :=
      .plain (by decide) (.plain (by decide) (.plain (by decide) .nil))
    exact .plain (by decide) (.plain (by decide) (.plain (by decide) (.plain (by decide)
      (.group inner .nil))))
  have enclosable : body.Enclosable := ⟨by decide +kernel, ⟨false, by decide +kernel⟩, by decide⟩
  have definition : Text.TakesArguments heading (rule ++ ending) :=
    ⟨⟨false, by decide⟩, by decide, fun _ => by decide, " m".toList, by decide,
      Or.inr ⟨by decide, by decide +kernel⟩⟩
  have inclusion : Text.TakesArguments (heading ++ (formal ++ rule)) ending :=
    ⟨⟨false, by decide +kernel⟩, by decide +kernel, fun _ => by decide +kernel, " m".toList,
      by decide, Or.inl ⟨by decide +kernel, by decide +kernel⟩⟩
  have first : Text.AddsArguments (heading ++ (rule ++ ending))
      (heading ++ formal ++ (rule ++ ending)) :=
    @Text.AddsArguments.list _ _ "$c".toList definition (by decide) (by decide)
  have second : Text.AddsArguments (heading ++ (formal ++ rule) ++ ending)
      (heading ++ (formal ++ rule) ++ actual ++ ending) :=
    @Text.AddsArguments.list _ _ "1px".toList inclusion (by decide) (by decide)
  have added : Relation.ReflTransGen Text.AddsArguments (heading ++ (rule ++ ending))
      (heading ++ (formal ++ rule) ++ actual ++ ending) := by
    refine .tail (.single first) ?_
    rw [List.append_assoc heading, ← List.append_assoc formal, ← List.append_assoc heading]
    exact second
  exact ⟨⟨isName, plain, paired, enclosable, added⟩,
    names_read_without_flat_arguments isName plain paired enclosable .start {} added⟩

/-- Where parentheses are nested, what is left of the list is taken for a part of the name, no
mixin of that name is found, and the inclusion is dropped. -/
theorem nested_arguments_lose_mixin :
    let arguments : Text := Text.argumentList "calc(1px)".toList
    let sheet (inclusion : Text) : Text :=
      "@mixin m\x7bcolor:red;\x7d.a\x7b".toList ++ inclusion ++ ";\x7d".toList
    (Body.mk ("@include m".toList ++ arguments ++ [';']) .start).nodes =
      [.inclusion ⟨"m)".toList, .start⟩] ∧
    (compileSource {} (sheet "@include m".toList)).outcome = .ok ".a\x7bcolor:red;\x7d".toList ∧
    (compileSource {} (sheet ("@include m".toList ++ arguments))).outcome = .ok [] := by
  intro arguments sheet
  exact ⟨by decide +kernel, by decide +kernel, by decide +kernel⟩

end NestedCss
