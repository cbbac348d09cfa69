import NestedCss.Proofs.Agreement
import NestedCss.Proofs.PieceReading
import NestedCss.Proofs.Printing

set_option autoImplicit false

/-! Flat sheets in normal form. Blocks that name nothing and refer to nothing, and
media wrappers after them, compile to the text that they have. Each line is read as
itself and each block as a rule without rules in it, so a sheet is read item by item
and contributes its own text. -/

namespace NestedCss

/-! ### The normal form -/

/-- A line that means itself: it is no directive, its value is no reference, and
nothing in it says that it is not wanted. -/
inductive Line.Normal : Line → Prop
  | declaration {key value : Text} (isKey : key.IsKey)
      (undirected : ¬ ['$'] <+: key ∧ ¬ Node.includeMark <+: key) (isValue : value.IsValue)
      (literal : ¬ ['$'] <+: value) (wanted : value ≠ [] ∧ value ∉ omittedValues) :
      Normal (.declaration key value)
  | comment {text : Text} (unclosed : ¬ ['*', '/'] <:+: text) (solid : text.allBlank = false) :
      Normal (.comment text)

def Item.IsMedia : Item → Prop
  | .block _ _ => False
  | .media _ _ => True

instance : (item : Item) → Decidable item.IsMedia
  | .block _ _ => .isFalse id
  | .media _ _ => .isTrue True.intro

/-- Blocks of at least one line, and then media wrappers around sheets of this form,
none of them empty and at most `levels` of them inside one another. -/
inductive Sheet.Normal : Nat → Sheet → Prop
  | nil {levels : Nat} : Normal levels []
  | block {levels : Nat} {selector : Text} {lines : List Line} {rest : Sheet}
      (writable : Writable selector) (some : selector ≠ []) (unmarked : parentMark ∉ selector)
      (spoken : lines ≠ []) (normal : ∀ line ∈ lines, line.Normal)
      (following : Normal levels rest) : Normal levels (.block selector lines :: rest)
  | media {levels : Nat} {query : MediaQuery} {items rest : Sheet} (normal : query.Normal)
      (plain : query.condition.Plain) (filled : items ≠ []) (within : Normal levels items)
      (wrappers : ∀ item ∈ rest, item.IsMedia) (following : Normal (levels + 1) rest) :
      Normal (levels + 1) (.media query items :: rest)

def Line.node : Line → Node
  | .declaration key value => .property ⟨key, value, .start⟩
  | .comment text => .comment text

/-! ### Bodies -/

private theorem Text.Closed.enclosable {text : Text} (closed : text.Closed)
    (solid : text.allBlank = false) (here : Location) : (Body.mk text here).Enclosable :=
  ⟨closed.fault?_eq_none, closed.settled, solid⟩

private theorem Text.closed_nil : Text.Closed [] := ⟨rfl, false, rfl⟩

theorem Line.allBlank_text (line : Line) : line.text.allBlank = false := by
  cases line with
  | declaration key value =>
      have present : ':' ∈ key ++ ':' :: value ++ [';'] :=
        List.mem_append_left _ (List.mem_append_right key (List.mem_cons_self ..))
      exact Text.allBlank_eq_false present (by decide)
  | comment text =>
      exact Text.allBlank_eq_false (List.mem_cons_self ..) (by decide : isBlank '/' = false)

/-! ### Lines -/

private theorem Child.line?_of_wanted (key : Text) {value : Text} (trimmed : value.trim = value)
    (wanted : value ≠ [] ∧ value ∉ omittedValues) (here : Location) :
    Child.line? (.property ⟨key, value, here⟩) = some (.declaration key value) := by
  have listed : omittedValues.contains value = false := by
    rw [← Bool.not_eq_true, List.contains_iff_mem]
    exact wanted.2
  simp only [Child.line?, Property.written?, trimmed, List.isEmpty_eq_false_iff.mpr wanted.1,
    listed, Bool.or_self, Bool.false_eq_true, if_false, Option.map_some]

private theorem Frames.substitute_of_literal {value : Text} (frames : Frames)
    (trimmed : value.trim = value) (literal : ¬ ['$'] <+: value) (here : Location) :
    frames.substitute value here = .ok value := by
  have noReference : Reference.ofValue? value = none := by
    rw [Reference.ofValue?_eq_none_iff]
    intro begins
    obtain ⟨rest, rfl⟩ := List.head?_eq_some_iff.mp begins
    exact literal (List.prefix_append ['$'] rest)
  rw [Frames.substitute, trimmed, noReference]

structure Line.Literal (line : Line) : Prop where
  spells : line.text.Spells line.node
  reads : ∀ {options : CompileOptions} {reading : OnePass.Reading}
    {surroundings : OnePass.Surroundings} {copy : Node}, line.node.Alike copy →
    ∀ state, OnePass.readNode options reading surroundings state copy =
      .done (state.addLines [line])

theorem Line.literal_declaration {key value : Text} (isKey : key.IsKey)
    (undirected : ¬ ['$'] <+: key ∧ ¬ Node.includeMark <+: key) (trimmed : value.trim = value)
    (gathered : (Mode.code false).Gathers (key ++ ':' :: value)) (literal : ¬ ['$'] <+: value)
    (wanted : value ≠ [] ∧ value ∉ omittedValues) : (Line.declaration key value).Literal where
  spells := @Property.spells_of_gathers ⟨_, _, .start⟩ isKey undirected trimmed gathered
  reads := by
    intro options reading surroundings copy alike state
    cases alike with
    | property _ _ _ there =>
        have written := Child.line?_of_wanted key trimmed wanted there
        rw [OnePass.readNode, state.frames.substitute_of_literal trimmed literal there]
        exact congrArg (fun line? : Option Line => Traced.done (state.addLines line?.toList)) written

private theorem Line.literal_comment {text : Text} (unclosed : ¬ ['*', '/'] <:+: text)
    (solid : text.allBlank = false) : (Line.comment text).Literal where
  spells := Text.spells_comment unclosed
  reads := by
    intro options reading surroundings copy alike state
    cases alike with
    | comment _ =>
        simp only [OnePass.readNode, Child.line?, solid, Bool.false_eq_true, if_false]
        rfl

private theorem Line.Normal.literal {line : Line} (normal : line.Normal) : line.Literal := by
  cases normal with
  | declaration isKey undirected isValue literal wanted =>
      have quotable := isKey.2.2.1.quotable.append
        (.plain (by decide : ':' ∉ [';', '{', '}', '/']) (by decide) isValue.2)
      exact Line.literal_declaration isKey undirected isValue.1 quotable.gathered literal wanted
  | comment unclosed solid => exact Line.literal_comment unclosed solid

private theorem Line.closed_flatMap_text {lines : List Line}
    (literal : ∀ line ∈ lines, line.Literal) :
    Text.Closed (lines.flatMap Line.text) := by
  induction lines with
  | nil => exact Text.closed_nil
  | cons line rest ih =>
      have whole := (literal line (List.mem_cons_self ..)).spells.whole
      rw [List.flatMap_cons, whole.closed_append_iff]
      exact ih fun other present => literal other (List.mem_cons_of_mem _ present)

private theorem Line.enclosable {lines : List Line} (spoken : lines ≠ [])
    (literal : ∀ line ∈ lines, line.Literal) :
    (Body.mk (lines.flatMap Line.text) .start).Enclosable := by
  refine (closed_flatMap_text literal).enclosable ?_ .start
  cases lines with
  | nil => exact absurd rfl spoken
  | cons line rest => exact Text.allBlank_append_eq_false line.allBlank_text _

/-! ### Items as pieces -/

theorem Item.spells_block {selector : Text} {lines : List Line} (writable : Writable selector)
    (spoken : lines ≠ []) (literal : ∀ line ∈ lines, line.Literal) :
    (Item.block selector lines).text.Spells
      (.rule selector ⟨lines.flatMap Line.text, .start⟩) :=
  writable.spells (Line.enclosable spoken literal)

private theorem Item.spells_media {query : MediaQuery} {items : Sheet} (normal : query.Normal)
    (plain : query.condition.Plain) (closed : Text.Closed (Sheet.text items))
    (solid : (Sheet.text items).allBlank = false) :
    (Item.media query items).text.Spells (.media ⟨query, ⟨Sheet.text items, .start⟩⟩) :=
  @MediaBlock.spells ⟨query, ⟨Sheet.text items, .start⟩⟩ normal plain (closed.enclosable solid .start)

theorem Item.allBlank_text (item : Item) : item.text.allBlank = false := by
  have solid : isBlank '}' = false := by decide
  cases item with
  | block selector lines =>
      exact Text.allBlank_eq_false (List.mem_append_right _ (List.mem_singleton_self '}')) solid
  | media query items =>
      exact Text.allBlank_eq_false (List.mem_append_right _ (List.mem_singleton_self '}')) solid

private theorem Sheet.Normal.closed {levels : Nat} {items : Sheet}
    (normal : Sheet.Normal levels items) :
    Text.Closed (Sheet.text items) ∧ (items ≠ [] → (Sheet.text items).allBlank = false) := by
  induction normal with
  | nil => exact ⟨Text.closed_nil, fun some => absurd rfl some⟩
  | @block levels selector lines rest writable some unmarked spoken normal following ih =>
      have whole := (Item.spells_block writable spoken fun line present =>
        (normal line present).literal).whole
      exact ⟨(whole.closed_append_iff _).mpr ih.1,
        fun _ => Text.allBlank_append_eq_false (Item.allBlank_text _) _⟩
  | @media levels query items rest normal plain filled within wrappers following ihWithin ih =>
      have whole := (Item.spells_media normal plain ihWithin.1 (ihWithin.2 filled)).whole
      exact ⟨(whole.closed_append_iff _).mpr ih.1,
        fun _ => Text.allBlank_append_eq_false (Item.allBlank_text _) _⟩

/-! ### Reading -/

namespace OnePass

theorem readBody_of_spells {text : Text} {node : Node} (spells : text.Spells node) (rest : Text)
    (here : Location) :
    ∃ copy there, node.Alike copy ∧
      ∀ (options : CompileOptions) (levels : Nat) (surroundings : Surroundings) (state : State),
        readBody options (levels + 1) surroundings ⟨text ++ rest, here⟩ state =
          (readNode options (readBody options levels) surroundings state copy).andThen
            (readBody options (levels + 1) surroundings ⟨rest, there⟩) := by
  obtain ⟨segment, single, alike⟩ := spells.reads here
  refine ⟨.ofSegment segment, here.advanceOver text, alike, ?_⟩
  intro options levels surroundings state
  rw [readBody_append spells.whole rest here state,
    readBody_of_node (by rw [single]) (by rw [single]; rfl)]

section Sheets

variable {options : CompileOptions} {reading : Reading} {levels : Nat}
  {surroundings : Surroundings}

private theorem readBody_lines {lines : List Line} (literal : ∀ line ∈ lines, line.Literal) :
    ∀ (here : Location) (state : State),
      readBody options (levels + 1) surroundings ⟨lines.flatMap Line.text, here⟩ state =
        .done (state.addLines lines) := by
  induction lines with
  | nil =>
      intro here state
      rw [State.addLines, List.append_nil]
      rfl
  | cons line rest ih =>
      intro here state
      have own := literal line (List.mem_cons_self ..)
      obtain ⟨copy, there, alike, split⟩ :=
        readBody_of_spells own.spells (rest.flatMap Line.text) here
      rw [List.flatMap_cons, split, own.reads alike, Traced.done_andThen,
        ih fun other present => literal other (List.mem_cons_of_mem _ present)]
      simp only [State.addLines, List.append_assoc, List.cons_append, List.nil_append]

theorem readNode_block {selector : Text} {lines : List Line} (writable : Writable selector)
    (some : selector ≠ []) (unmarked : parentMark ∉ selector) (spoken : lines ≠ [])
    (literal : ∀ line ∈ lines, line.Literal) {copy : Node}
    (alike : (Node.rule selector ⟨lines.flatMap Line.text, .start⟩).Alike copy)
    (active : List Text) (state : State) :
    readNode options (readBody options (levels + 1)) ⟨[], active⟩ state copy =
      .done { state with yielded := { state.yielded with
        nested := state.yielded.nested ++ (Item.block selector lines).text } } := by
  cases alike with
  | @rule _ _ body same =>
      obtain ⟨text, origin⟩ := body
      have text_eq : lines.flatMap Line.text = text := same
      subst text_eq
      have spoken : (selector.isEmpty || lines.isEmpty) = false := by
        rw [List.isEmpty_eq_false_iff.mpr some, List.isEmpty_eq_false_iff.mpr spoken]
        rfl
      simp only [readNode, readScoped, joinSelector_nil selector unmarked writable.trimmed,
        readBody_lines literal, Traced.map_done, List.drop_one]
      simp [State.addLines, Yield.empty, Yield.text, blockText, spoken, Item.text]

private theorem readNode_wrapper {query : MediaQuery} {items : Sheet}
    (filled : (Sheet.text items).isEmpty = false) {active : List Text} {state : State}
    (within : ∀ here, ∃ blocks wrappers, reading ⟨[], active⟩ ⟨Sheet.text items, here⟩
      ⟨.empty :: state.frames, .empty⟩ =
        .done ⟨.empty :: state.frames, ⟨[], blocks, wrappers⟩⟩ ∧
      blocks ++ wrappers = Sheet.text items) {copy : Node}
    (alike : (Node.media ⟨query, ⟨Sheet.text items, .start⟩⟩).Alike copy) :
    readNode options reading ⟨[], active⟩ state copy =
      .done { state with yielded := { state.yielded with
        media := state.yielded.media ++ (Item.media query items).text } } := by
  cases alike with
  | @media _ _ body same =>
      obtain ⟨text, origin⟩ := body
      have text_eq : Sheet.text items = text := same
      subst text_eq
      obtain ⟨blocks, wrappers, read, joined⟩ := within origin
      have inner : Yield.text ⟨[], blocks, wrappers⟩ [] = Sheet.text items := joined
      simp only [readNode, readScoped, read, Traced.map_done, List.drop_one, List.tail_cons,
        inner, mediaText, filled, Bool.false_eq_true, if_false, Item.text]

/-- A sheet contributes its own text: that of its blocks among the nested rules, and
that of its wrappers among the media. -/
theorem readBody_sheet (options : CompileOptions) {items : Sheet}
    (normal : Sheet.Normal levels items) (active : List Text) :
    ∀ (here : Location) (state : State), ∃ blocks wrappers,
      readBody options (levels + 2) ⟨[], active⟩ ⟨Sheet.text items, here⟩ state =
        .done ⟨state.frames, ⟨state.yielded.lines, state.yielded.nested ++ blocks,
          state.yielded.media ++ wrappers⟩⟩ ∧
      blocks ++ wrappers = Sheet.text items ∧ ((∀ item ∈ items, item.IsMedia) → blocks = []) := by
  induction normal with
  | nil =>
      intro here state
      refine ⟨[], [], ?_, rfl, fun _ => rfl⟩
      rw [List.append_nil, List.append_nil]
      rfl
  | @block levels selector lines rest writable some unmarked spoken normal following ih =>
      intro here state
      have literal : ∀ line ∈ lines, line.Literal := fun line present => (normal line present).literal
      obtain ⟨copy, there, alike, split⟩ := readBody_of_spells
        (Item.spells_block writable spoken literal) (Sheet.text rest) here
      obtain ⟨blocks, wrappers, later, joined, _⟩ := ih there
        { state with yielded := { state.yielded with
          nested := state.yielded.nested ++ (Item.block selector lines).text } }
      refine ⟨(Item.block selector lines).text ++ blocks, wrappers, ?_, ?_, ?_⟩
      · rw [Sheet.text, split, readNode_block writable some unmarked spoken literal alike,
          Traced.done_andThen, later, List.append_assoc]
      · rw [List.append_assoc, joined, Sheet.text]
      · intro wrapped
        exact absurd (wrapped _ (List.mem_cons_self ..)) id
  | @media levels query items rest normal plain filled within others following ihWithin ih =>
      intro here state
      obtain ⟨closed, solid⟩ := within.closed
      have spells := Item.spells_media normal plain closed (solid filled)
      obtain ⟨copy, there, alike, split⟩ := readBody_of_spells spells (Sheet.text rest) here
      have written : (Sheet.text items).isEmpty = false := by
        rw [Sheet.isEmpty_text]
        exact List.isEmpty_eq_false_iff.mpr filled
      obtain ⟨blocks, wrappers, later, joined, unnested⟩ := ih there
        { state with yielded := { state.yielded with
          media := state.yielded.media ++ (Item.media query items).text } }
      -- Only wrappers follow, so nothing gets between this one and the blocks before it.
      have bare : blocks = [] := unnested others
      refine ⟨blocks, (Item.media query items).text ++ wrappers, ?_, ?_, fun _ => bare⟩
      · rw [Sheet.text, split, readNode_wrapper written ?_ alike, Traced.done_andThen, later,
          List.append_assoc]
        intro origin
        obtain ⟨inside, wrapped, read, whole, _⟩ :=
          ihWithin origin ⟨.empty :: state.frames, .empty⟩
        exact ⟨inside, wrapped, read, whole⟩
      · rw [bare, List.nil_append] at joined
        rw [bare, List.nil_append, joined, Sheet.text]

end Sheets
end OnePass

/-- A sheet in normal form compiles to its own text. -/
theorem compileSource_of_normal (options : CompileOptions) {sheet : Sheet}
    (normal : Sheet.Normal (nestingLimit - 1) sheet) :
    compileSource options (Sheet.text sheet) = .done (Sheet.text sheet) := by
  obtain ⟨blocks, wrappers, read, joined, _⟩ :=
    OnePass.readBody_sheet options normal [] .start ⟨[.empty], .empty⟩
  have levels : nestingLimit + 1 = nestingLimit - 1 + 2 := rfl
  rw [compileSource_eq_onePass, OnePass.compileSource, Body.ofSource, levels, read, Traced.map_done]
  exact congrArg Traced.done joined

theorem compileSource_of_normal_wrappers :
    let sheet : Sheet := [
      .block "a, b:c".toList
        [.declaration "d".toList "e '\x7d;/*' f".toList, .comment " *\x7b ".toList],
      .media ⟨"g:(h)".toList, true⟩ [
        .block "i".toList [.comment "j".toList],
        .media ⟨"k and (l)".toList, false⟩
          [.block "m".toList [.declaration "n".toList "o".toList]]]]
    Sheet.text sheet = ("a, b:c\x7bd:e '\x7d;/*' f;/* *\x7b */\x7d" ++
      "@media(g:(h))\x7bi\x7b/*j*/\x7d@media k and (l)\x7bm\x7bn:o;\x7d\x7d\x7d").toList ∧
    compileSource {} (Sheet.text sheet) = .done (Sheet.text sheet) := by
  intro sheet
  have string : Text.Quotable "e '\x7d;/*' f".toList := by
    refine .plain (by decide) (by decide) (.plain (by decide) (by decide) ?_)
    exact @Text.Quotable.quoted '\x27' "\x7d;/*".toList " f".toList (by decide) (by simp)
      (Text.Plain.quotable (by decide))
  have lines : ∀ line ∈ [Line.declaration "d".toList "e '\x7d;/*' f".toList,
      .comment " *\x7b ".toList], line.Normal := by
    intro line present
    simp only [List.mem_cons, List.not_mem_nil, or_false] at present
    rcases present with rfl | rfl
    · exact .declaration ⟨by decide +kernel, by decide, by decide, by decide⟩ (by decide)
        ⟨by decide +kernel, string⟩ (by decide) (by decide)
    · exact .comment (by decide) (by decide +kernel)
  have inner : ∀ line ∈ [Line.comment "j".toList], line.Normal := by
    intro line present
    rw [List.mem_singleton.mp present]
    exact .comment (by decide) (by decide +kernel)
  have innermost : ∀ line ∈ [Line.declaration "n".toList "o".toList], line.Normal := by
    intro line present
    rw [List.mem_singleton.mp present]
    exact .declaration ⟨by decide +kernel, by decide, by decide, by decide⟩ (by decide)
      ⟨by decide +kernel, Text.Plain.quotable (by decide)⟩ (by decide) (by decide)
  have writable : ∀ selector ∈ ["a, b:c".toList, "i".toList, "m".toList], Writable selector := by
    intro selector present
    simp only [List.mem_cons, List.not_mem_nil, or_false] at present
    rcases present with rfl | rfl | rfl
    · exact ⟨by decide +kernel, by decide, by decide⟩
    · exact ⟨by decide +kernel, by decide, by decide⟩
    · exact ⟨by decide +kernel, by decide, by decide⟩
  have listed : MediaQuery.Normal ⟨"k and (l)".toList, false⟩ := by
    refine .listed (by decide +kernel) ?_
    rintro ⟨inner, _, same⟩
    cases same
  have grouped : MediaQuery.Normal ⟨"g:(h)".toList, true⟩ := by
    refine .grouped (.plain (by decide) (.plain (by decide) ?_)) (by decide +kernel)
    exact @Text.Paired.group ['h'] [] (.plain (by decide) .nil) .nil
  refine ⟨by decide +kernel, compileSource_of_normal {} ?_⟩
  exact .block (writable _ (by decide)) (by decide) (by decide) (by decide) lines
    (.media grouped (by decide) (by decide)
      (.block (writable _ (by decide)) (by decide) (by decide) (by decide) inner
        (.media listed (by decide) (by decide)
          (.block (writable _ (by decide)) (by decide) (by decide) (by decide) innermost .nil)
          (by decide) .nil))
      (by decide) .nil)

end NestedCss
