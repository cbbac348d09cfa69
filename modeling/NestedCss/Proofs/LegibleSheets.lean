import NestedCss.Proofs.NormalSheets
import NestedCss.Proofs.OrderlySources

set_option autoImplicit false

/-! Sheets that can be read back. When the text of a sheet is scanned, every block, every
wrapper, every declaration and every comment is found again as it was written, and nothing
else is found; so nothing that is written swallows what comes after it. The sheet of an
orderly source is of this kind. -/

namespace NestedCss

/-! ### What is found again -/

def Segment.unplaced : Segment → Segment
  | .statement text _ => .statement text .start
  | .block header _ body => .block header .start ⟨body.text, .start⟩
  | .comment text _ => .comment text .start

/-- A text that leaves nothing open and is scanned into the same segments wherever it
stands. -/
structure Text.ScansAs (text : Text) (segments : List Segment) : Prop where
  whole : text.Whole
  scans : ∀ here, ∃ found, (Body.mk text here).segmentation = ⟨found, none⟩ ∧
    found.map Segment.unplaced = segments

def Line.segment : Line → Segment
  | .declaration key value => .statement (key ++ ':' :: value) .start
  | .comment text => .comment text .start

/-- What an item is found as. A condition without words leaves a space before the brace,
which is not part of the heading. -/
def Item.segment : Item → Segment
  | .block selector lines => .block selector .start ⟨lines.flatMap Line.text, .start⟩
  | .media query items => .block query.preamble.trim .start ⟨Sheet.text items, .start⟩

/-- An item in which each line and each item is found again. -/
inductive Item.Legible : Item → Prop
  | block {selector : Text} {lines : List Line}
      (inside : Text.ScansAs (lines.flatMap Line.text) (lines.map Line.segment)) :
      Legible (.block selector lines)
  | media {query : MediaQuery} {items : Sheet}
      (inside : Text.ScansAs (Sheet.text items) (items.map Item.segment))
      (further : ∀ item ∈ items, item.Legible) : Legible (.media query items)

namespace Text.ScansAs

private theorem nil : ScansAs [] [] where
  whole := ⟨⟨[], rfl⟩, false, rfl⟩
  scans := fun _ => ⟨[], rfl, rfl⟩

private theorem append {first second : Text} {before after : List Segment}
    (front : first.ScansAs before)
    (back : second.ScansAs after) : (first ++ second).ScansAs (before ++ after) where
  whole := front.whole.append back.whole
  scans := by
    intro here
    obtain ⟨found, alone, same⟩ := front.scans here
    obtain ⟨further, rest, sameToo⟩ := back.scans (here.advanceOver first)
    refine ⟨found ++ further, ?_, ?_⟩
    · rw [front.whole.segmentation_append, alone, rest]
      rfl
    · rw [List.map_append, same, sameToo]

private theorem flatMap {α : Type} {text : α → Text} {segment : α → Segment} {members : List α}
    (each : ∀ member ∈ members, (text member).ScansAs [segment member]) :
    ScansAs (members.flatMap text) (members.map segment) := by
  induction members with
  | nil => exact .nil
  | cons member rest ih =>
      rw [List.flatMap_cons, List.map_cons, ← List.singleton_append]
      exact (each member (List.mem_cons_self ..)).append
        (ih fun other present => each other (List.mem_cons_of_mem _ present))

end Text.ScansAs

/-! ### Lines -/

private theorem Line.scansAs_comment {text : Text} (unclosed : ¬ ['*', '/'] <:+: text) :
    (Line.comment text).text.ScansAs [(Line.comment text).segment] where
  whole := (Text.spells_comment unclosed).whole
  scans := by
    intro here
    refine ⟨[.comment text here], ?_, rfl⟩
    exact Assembly.segmentation_of_read (Assembly.read_blockComment unclosed here)

private theorem Line.scansAs_declaration {key value : Text} (tidyKey : key.Tidy false (.code false))
    (trimmedKey : key.trim = key) (tidyValue : value.Tidy false (.code true))
    (trimmedValue : value.trim = value) (some : value ≠ []) :
    (Line.declaration key value).text.ScansAs [(Line.declaration key value).segment] := by
  have tidy : (key ++ ':' :: value).Tidy false (.code false) :=
    tidyKey.append (.plain (by decide) (by decide) tidyValue)
  have trimmed : Text.trim (key ++ ':' :: value) = key ++ ':' :: value := by
    by_cases bare : key = []
    · subst bare
      exact Text.trim_between [':'] [] value (by decide) trimmedValue (by decide) some
    · exact Text.trim_between key [':'] value trimmedKey trimmedValue bare some
  have filled : key ++ ':' :: value ≠ [] := by
    intro nothing
    cases (List.append_eq_nil_iff.mp nothing).2
  have begins := ((Text.trim_eq_self_iff _).mp trimmed).1
  constructor
  · exact (tidy.gathers.heading begins).closed.whole_semicolon
  · intro here
    obtain ⟨location, single⟩ := tidy.gathers.segmentation_statement trimmed filled here
    exact ⟨_, single, rfl⟩

private theorem Rule.Tidy.scansAs {rule : Rule} (tidy : rule.Tidy) :
    Text.ScansAs (rule.lines.flatMap Line.text) (rule.lines.map Line.segment) := by
  apply Text.ScansAs.flatMap
  intro line present
  obtain ⟨child, listed, written⟩ := List.mem_filterMap.mp present
  cases (child.line?_eq_some_iff line).mp written with
  | @declaration property wanted =>
      obtain ⟨key, trimmed, value⟩ := tidy.properties property listed
      have some : property.value.trim ≠ [] := by
        intro nothing
        rw [nothing] at wanted
        exact wanted (List.mem_cons_self ..)
      exact Line.scansAs_declaration key trimmed value.trim (Text.trim_trim _) some
  | comment solid => exact Line.scansAs_comment (tidy.comments _ listed)

/-! ### Items -/

private theorem Text.Tidy.scansAs_block {bare : Bool} {heading inner : Text}
    {segments : List Segment}
    (tidy : heading.Tidy bare (.code false)) (begins : ∀ first ∈ heading.head?, isBlank first = false)
    (scans : inner.ScansAs segments) (solid : inner.allBlank = false) :
    (Text.block heading inner).ScansAs [.block heading.trim .start ⟨inner, .start⟩] := by
  have closed := scans.whole.closed
  constructor
  · exact (tidy.gathers.heading begins).whole_block closed
  · intro here
    obtain ⟨location, single⟩ := tidy.gathers.segmentation_block begins closed solid here
    exact ⟨_, single, rfl⟩

private theorem Item.text_block (selector : Text) (lines : List Line) :
    (Item.block selector lines).text = Text.block selector (lines.flatMap Line.text) := by
  simp [Item.text, Text.block]

private theorem Item.text_media (query : MediaQuery) (items : Sheet) :
    (Item.media query items).text = Text.block query.preamble (Sheet.text items) := by
  simp [Item.text, Text.block]

private theorem MediaQuery.head_preamble (query : MediaQuery) :
    ∀ first ∈ query.preamble.head?, isBlank first = false := by
  intro first present
  unfold preamble at present
  split at present
  · injection present with same
    subst same
    decide
  · injection present with same
    subst same
    decide

private theorem Sheet.text_eq_flatMap (items : Sheet) :
    Sheet.text items = items.flatMap Item.text := by
  induction items with
  | nil => rfl
  | cons item rest ih => rw [Sheet.text, List.flatMap_cons, ih]

private theorem Sheet.scansAs {items : Sheet}
    (each : ∀ item ∈ items, item.text.ScansAs [item.segment]) :
    Text.ScansAs (Sheet.text items) (items.map Item.segment) := by
  rw [text_eq_flatMap]
  exact Text.ScansAs.flatMap each

private theorem Text.allBlank_flatMap_eq_false {α : Type} {text : α → Text} {members : List α}
    (solid : ∀ member, (text member).allBlank = false) (some : members ≠ []) :
    Text.allBlank (members.flatMap text) = false := by
  cases members with
  | nil => exact absurd rfl some
  | cons member rest =>
      rw [List.flatMap_cons]
      exact allBlank_append_eq_false (solid member) _

private theorem Item.legible_block {selector : Text} {lines : List Line}
    (tidy : selector.Tidy true (.code false)) (trimmed : selector.trim = selector)
    (spoken : lines ≠ []) (inside : Text.ScansAs (lines.flatMap Line.text) (lines.map Line.segment)) :
    (Item.block selector lines).text.ScansAs [(Item.block selector lines).segment] ∧
      (Item.block selector lines).Legible := by
  have solid := Text.allBlank_flatMap_eq_false Line.allBlank_text spoken
  have block := tidy.scansAs_block ((Text.trim_eq_self_iff _).mp trimmed).1 inside solid
  rw [trimmed] at block
  constructor
  · rw [text_block]
    exact block
  · exact .block inside

private theorem Item.legible_media {query : MediaQuery} {items : Sheet}
    (tidy : query.preamble.Tidy true (.code false)) (filled : items ≠ [])
    (each : ∀ item ∈ items, item.text.ScansAs [item.segment] ∧ item.Legible) :
    (Item.media query items).text.ScansAs [(Item.media query items).segment] ∧
      (Item.media query items).Legible := by
  have inside := Sheet.scansAs fun item present => (each item present).1
  have solid : Text.allBlank (Sheet.text items) = false := by
    rw [Sheet.text_eq_flatMap]
    exact Text.allBlank_flatMap_eq_false Item.allBlank_text filled
  constructor
  · rw [text_media]
    exact tidy.scansAs_block query.head_preamble inside solid
  · exact .media inside fun item present => (each item present).2

/-- The items below each rule of a tidy tree are legible, and found again themselves. -/
theorem RuleTree.Tidy.legible {tree : RuleTree} (tidy : tree.Tidy) (ordered : tree.Ordered)
    (levels : Nat) : ∀ here, ∀ item ∈ tree.sheetWithin levels here,
      item.text.ScansAs [item.segment] ∧ item.Legible := by
  induction levels with
  | zero => exact fun _ _ present => absurd present List.not_mem_nil
  | succ levels ih =>
      intro here item present
      rw [sheetWithin, List.mem_append, List.mem_append] at present
      rcases present with (own | nested) | wrapped
      · unfold Sheet.block at own
        split at own
        · cases own
        · rename_i speaks
          cases List.mem_singleton.mp own
          have spoken : (tree.rule here).lines ≠ [] := by
            intro silent
            simp [silent] at speaks
          exact Item.legible_block (tidy.tidy_selector here) (ordered.trim_selector here) spoken
            (tidy here).scansAs
      · obtain ⟨link, _, inside⟩ := List.mem_flatMap.mp nested
        exact ih link item inside
      · obtain ⟨entry, listed, inside⟩ := List.mem_flatMap.mp wrapped
        unfold Sheet.media at inside
        split at inside
        · cases inside
        · rename_i filled
          cases List.mem_singleton.mp inside
          have some : tree.sheetWithin levels entry.expansion ≠ [] := by
            intro nothing
            simp [nothing] at filled
          exact Item.legible_media ((tidy here).media entry listed) some (ih entry.expansion)

/-- What an orderly source compiles to is the text of a sheet that is found again, item by
item and line by line, when it is scanned. -/
theorem sheet_legible_of_orderly (options : CompileOptions) {source : Text}
    (orderly : (Body.ofSource source).Orderly) :
    ∀ tree, (RuleTree.ofSource options source).outcome = .ok tree →
      (compileSource options source).outcome = .ok (Sheet.text tree.sheet) ∧
      Text.ScansAs (Sheet.text tree.sheet) (tree.sheet.map Item.segment) ∧
      ∀ item ∈ tree.sheet, item.Legible := by
  intro tree ended
  have legible := (tidy_of_ofSource orderly ended).legible (ordered_ofSource ended) tree.size
    RuleTree.root
  constructor
  · exact Traced.outcome_map_eq_ok.mpr ⟨tree, ended, rfl⟩
  · constructor
    · exact Sheet.scansAs fun item present => (legible item present).1
    · exact fun item present => (legible item present).2

theorem sheet_legible_of_strings :
    let source := ("$v:'it;s';@mixin m\x7b/*\x7d*/\x7d.a\x7bb:$v;c:\"\\\"\x7b\";@include m;" ++
      "&:hover\x7bd:url(http://e/f);\x7d@media (g:1/2)\x7bh:i;\x7d\x7d").toList
    (Body.ofSource source).Orderly ∧
    ∃ tree, (RuleTree.ofSource {} source).outcome = .ok tree ∧
      Sheet.text tree.sheet = (".a\x7bb:'it;s';c:\"\\\"\x7b\";/*\x7d*/\x7d" ++
        ".a:hover\x7bd:url(http://e/f);\x7d@media(g:1/2)\x7b.a\x7bh:i;\x7d\x7d").toList ∧
      Text.ScansAs (Sheet.text tree.sheet) (tree.sheet.map Item.segment) ∧
      ∀ item ∈ tree.sheet, item.Legible := by
  intro source
  have checked : (Body.ofSource source).isOrderly 3 = true := by decide +kernel
  have orderly := Body.orderly_of_isOrderly checked
  have compiled : (compileSource {} source).outcome =
      .ok (".a\x7bb:'it;s';c:\"\\\"\x7b\";/*\x7d*/\x7d" ++
        ".a:hover\x7bd:url(http://e/f);\x7d@media(g:1/2)\x7b.a\x7bh:i;\x7d\x7d").toList := by
    decide +kernel
  obtain ⟨tree, ended, same⟩ := Traced.outcome_map_eq_ok.mp compiled
  obtain ⟨_, scans, legible⟩ := sheet_legible_of_orderly {} orderly tree ended
  exact ⟨orderly, tree, ended, same, scans, legible⟩

/-- What is cut off can have kept a string or a comment from opening, and what is put
together can open one. Then the text that is written has a fault, or its blocks are lost. -/
theorem illegible_sheets_written :
    (∀ pair ∈ [(".a\x7bcolor:\"red\n;\x7d", ".a\x7bcolor:\"red;\x7d"),
        ("$d:/;.a\x7bb:$d*2;\x7d", ".a\x7bb:/*2;\x7d"),
        (".a\x7bb://*x*/*c;\x7d", ".a\x7bb:/*c;\x7d"),
        ("$v:\"it's\";.x\x7ba\"b:$v\";\x7d", ".x\x7ba\"b:\"it's\"\";\x7d")],
      (compileSource {} pair.1.toList).outcome = .ok pair.2.toList ∧
        (Body.ofSource pair.2.toList).segmentation.fault?.isSome = true) ∧
    ∀ pair ∈ [("*\x7b/&\x7bc:d;\x7d\x7d", "/*\x7bc:d;\x7d"),
        ("@media (a/ *b)\x7b.x\x7bc:d;\x7d\x7d", "@media(a/*b)\x7b.x\x7bc:d;\x7d\x7d"),
        ("@media (a:\"\\ \")\x7b.x\x7bc:d;\x7d\x7d", "@media(a:\"\\\")\x7b.x\x7bc:d;\x7d\x7d")],
      (compileSource {} pair.1.toList).outcome = .ok pair.2.toList ∧
        ∀ node ∈ (Body.ofSource pair.2.toList).nodes, node.body?.isNone = true := by
  constructor
  · decide +kernel
  · decide +kernel

end NestedCss
