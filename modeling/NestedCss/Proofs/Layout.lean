import NestedCss.Proofs.Exchanges
import NestedCss.Proofs.Printing

set_option autoImplicit false

/-! Comments and layout. A comment inside a statement or a header, a line comment, and
blanks where a statement may begin say nothing: a stylesheet with them and the one without
them correspond, however deep the place is and however often the body around it is read.
Every block around the place takes them into its body unread; where they are read at last
they leave the reading as it was. -/

namespace NestedCss

/-- Text between two others that only lays them out. -/
inductive Text.Layout (before after : Text) : Text → Prop
  | comment {text : Text} (code : ∃ afterColon, (Mode.code false).after before = .code afterColon)
      (underway : (Mode.code false).underway false before = true)
      (unclosed : ¬ ['*', '/'] <:+: text)
      (apart : before.getLast? ≠ some '/') (follows : after.head? ≠ some '/') :
      Layout before after ("/*".toList ++ text ++ "*/".toList)
  | remark {text : Text} (code : ∃ afterColon, (Mode.code false).after before = .code afterColon)
      (line : '\n' ∉ text) (ends : ∀ next ∈ after.head?, next = '\n')
      (apart : before.getLast? ≠ some '/') (noColon : before.getLast? ≠ some ':')
      (solid : ∀ first last, InnermostBody before after first last →
        Text.allBlank (first ++ last) = false) :
      Layout before after ("//".toList ++ text)
  | blanks {text : Text} (boundary : before.AtBoundary) (blank : text.allBlank = true) :
      Layout before after text

/-! ### Texts that are passed over -/

/-- Read from a mode, a text leads to another mode and has no brace of the language, and
outside blocks it leaves such a header as it is. -/
structure Mode.PassesOver (mode following : Mode) (text : Text) (held : List Glyph → Prop) :
    Prop where
  after_eq : mode.after text = following
  unaffected : ∀ next?, mode.Unaffected next? text
  openAfter_eq : ∀ depth, mode.openAfter depth text = some depth
  read_eq : ∀ header here, held header →
    Assembly.read ⟨header, .surface⟩ (Glyph.list mode here text) = some ([], ⟨header, .surface⟩)

namespace Mode

private theorem PassesOver.cons {mode between following : Mode} {member : Char} {rest : Text}
    {role : Role}
    {held : List Glyph → Prop} (stepped : mode.step member rest.head? = (role, between))
    (apart : rest ≠ [] ∨ ∀ next?, mode.step member next? = mode.step member none)
    (counted : ∀ depth, depthAfter? role member depth = some depth)
    (stays : ∀ header here, held header →
      Assembly.step ⟨header, .surface⟩ ⟨member, role, here⟩ = .reading ⟨header, .surface⟩)
    (later : between.PassesOver following rest held) :
    mode.PassesOver following (member :: rest) held := by
  constructor
  · rw [after, stepped]
    exact later.after_eq
  · intro next?
    cases rest with
    | nil => exact apart.resolve_left (fun some => some rfl) next?
    | cons second others =>
        have further := later.unaffected next?
        rw [List.head?_cons] at stepped
        simp only [Unaffected, stepped]
        exact further
  · intro depth
    rw [openAfter, stepped, counted]
    exact later.openAfter_eq depth
  · intro header here holds
    rw [Glyph.list, stepped, Assembly.read, stays header here holds]
    exact later.read_eq header _ holds

private theorem PassesOver.mono {mode following : Mode} {text : Text}
    {held fewer : List Glyph → Prop}
    (passes : mode.PassesOver following text held) (weaker : ∀ header, fewer header → held header) :
    mode.PassesOver following text fewer :=
  { passes with read_eq := fun header here holds => passes.read_eq header here (weaker header holds) }

private theorem step_of_isBlank {member : Char} (blank : isBlank member = true)
    (next? : Option Char) :
    Mode.step (.code false) member next? = (.code, .code false) := by
  have slash : member ≠ '/' := by
    rintro rfl
    exact absurd blank (by decide)
  have colon : (member == ':') = false := by
    rw [beq_eq_false_iff_ne]
    rintro rfl
    exact absurd blank (by decide)
  have unquoted : isQuote member = false := by
    rw [Bool.eq_false_iff]
    intro quote
    rw [Assembly.isBlank_of_isQuote quote] at blank
    cases blank
  simp [step, stepCode, slash, colon, unquoted]

private theorem passesOver_blanks {text : Text} (blank : text.allBlank = true) :
    (Mode.code false).PassesOver (.code false) text fun header => header = [] := by
  induction text with
  | nil => exact ⟨rfl, fun _ => True.intro, fun _ => rfl, fun _ _ _ => rfl⟩
  | cons member rest ih =>
      obtain ⟨white, others⟩ : isBlank member = true ∧ Text.allBlank rest = true := by
        simpa [Text.allBlank] using blank
      refine .cons (step_of_isBlank white _) (Or.inr fun next? => ?_)
        (depthAfter?_of_isBlank white .code) ?_ (ih others)
      · rw [step_of_isBlank white, step_of_isBlank white]
      · rintro _ here rfl
        have ordinary : member ≠ '{' ∧ member ≠ '}' ∧ member ≠ ';' := by
          refine ⟨?_, ?_, ?_⟩ <;> rintro rfl <;> exact absurd white (by decide)
        simp [Assembly.step, Assembly.stepSurface, Assembly.extend, ordinary, white]

private theorem passesOver_remark {text : Text} (line : '\n' ∉ text) :
    Mode.remark.PassesOver .remark text fun _ => True := by
  induction text with
  | nil => exact ⟨rfl, fun _ => True.intro, fun _ => rfl, fun _ _ _ => rfl⟩
  | cons member rest ih =>
      rw [List.mem_cons, not_or] at line
      have stepped : ∀ next?, Mode.remark.step member next? = (.remark, .remark) := by
        intro next?
        simp only [step, if_neg (Ne.symm line.1)]
      refine .cons (stepped _) (Or.inr fun next? => ?_) (fun _ => rfl) (fun _ _ _ => rfl)
        (ih line.2)
      rw [stepped, stepped]

theorem passesOver_lineComment {text : Text} (line : '\n' ∉ text) :
    (Mode.code false).PassesOver .remark ("//".toList ++ text) fun _ => True := by
  have second : Mode.remarkOpening.PassesOver .remark ('/' :: text) fun _ => True :=
    .cons rfl (Or.inr fun _ => rfl) (fun _ => rfl) (fun _ _ _ => rfl) (passesOver_remark line)
  exact .cons rfl (Or.inl (List.cons_ne_nil _ _)) (fun _ => rfl) (fun _ _ _ => rfl) second

theorem passesOver_comment (afterColon : Bool) {text : Text} (unclosed : ¬ ['*', '/'] <:+: text) :
    (Mode.code afterColon).PassesOver (.code false) ("/*".toList ++ text ++ "*/".toList)
      fun header => header ≠ [] := by
  have glyphs : ∀ here, Glyph.list (.code afterColon) here ("/*".toList ++ text ++ "*/".toList) =
      Glyph.blockComment here text := fun _ => rfl
  constructor
  · exact after_blockComment unclosed afterColon
  · intro next?
    have run : Assembly.empty.read (Glyph.list (.code afterColon) .start
        ("/*".toList ++ text ++ "*/".toList)) = some ([.comment text .start], .empty) :=
      Assembly.read_blockComment unclosed .start
    exact Assembly.unaffected_of_read next? run (after_blockComment unclosed afterColon)
  · intro depth
    have counted : Glyph.openAfter 0 ([] ++ Glyph.blockComment .start text) = some 0 :=
      Glyph.openAfter_asides rfl fun _ => Glyph.isComment_of_mem_blockComment unclosed
    rw [List.nil_append] at counted
    have deeper := Glyph.openAfter_add depth counted
    rwa [Nat.zero_add, ← glyphs, Glyph.openAfter_list] at deeper
  · intro header here held
    rw [glyphs]
    exact Assembly.read_blockComment_within unclosed here held

end Mode

/-! ### Places of layout -/

namespace Text

private theorem AtBoundary.fold_eq {σ : Type} {change : Role × Mode → Char → σ → σ} {start : σ}
    (starts : ∀ member ∈ [';', '{', '}'], ∀ held, change (.code, .code false) member held = start)
    {text : Text} (boundary : text.AtBoundary) :
    (Mode.code false).fold change start text = start := by
  cases boundary with
  | start => rfl
  | @delimiter before member code delimits =>
      obtain ⟨afterColon, code⟩ := code
      exact Mode.fold_delimiter delimits (starts member delimits) code []

theorem AtBoundary.after_eq {text : Text} (boundary : text.AtBoundary) :
    (Mode.code false).after text = .code false := by
  rw [Mode.after_eq_fold]
  exact boundary.fold_eq fun _ _ _ => rfl

theorem AtBoundary.underway_eq {text : Text} (boundary : text.AtBoundary) :
    (Mode.code false).underway false text = false :=
  boundary.fold_eq fun _ delimits _ => if_pos ⟨rfl, delimits⟩

private theorem AtBoundary.getLast?_ne {text : Text} (boundary : text.AtBoundary) :
    text.getLast? ≠ some '/' := by
  cases boundary with
  | start => exact fun impossible => by cases impossible
  | @delimiter before member code delimits =>
      rw [List.getLast?_concat]
      rintro ⟨⟩
      exact absurd delimits (by decide)

private theorem AtBoundary.inside {outside first : Text}
    (boundary : (outside ++ '{' :: first).AtBoundary)
    (code : ∃ afterColon, (Mode.code false).after outside = .code afterColon) :
    first.AtBoundary := by
  obtain ⟨colon, code⟩ := code
  rcases List.eq_nil_or_concat first with rfl | ⟨others, last, rfl⟩
  · exact .start
  · rw [List.concat_eq_append] at boundary ⊢
    generalize whole : outside ++ '{' :: (others ++ [last]) = text at boundary
    cases boundary with
    | start => exact absurd whole (by simp)
    | @delimiter before member settled delimits =>
        rw [← List.cons_append, ← List.append_assoc] at whole
        obtain ⟨rfl, same⟩ := List.append_inj' whole rfl
        injection same with same
        subst same
        obtain ⟨afterColon, settled⟩ := settled
        rw [Mode.after_opening code] at settled
        exact .delimiter ⟨afterColon, settled⟩ delimits

theorem InnermostBody.enclosed {before after first last outside beyond : Text}
    (innermost : InnermostBody before after first last)
    (code : ∃ afterColon, (Mode.code false).after outside = .code afterColon) :
    InnermostBody (outside ++ '{' :: before) (after ++ '}' :: beyond) first last := by
  obtain ⟨inner, others, rfl, rfl, settled⟩ := innermost.within
  obtain ⟨afterColon, code⟩ := code
  refine { innermost with within := ⟨outside ++ '{' :: inner, others ++ '}' :: beyond, ?_, ?_, ?_⟩ }
  · simp
  · simp
  · rw [Mode.after_opening code]
    exact settled

theorem BodyAround.solid {before after first last : Text}
    (around : BodyAround before [] after first last)
    (solid : ∀ first last, InnermostBody before after first last →
      Text.allBlank (first ++ last) = false) : Text.allBlank (first ++ last) = false := by
  obtain ⟨within, closed⟩ := around
  rw [List.append_nil] at closed
  rw [Bool.eq_false_iff]
  intro blank
  have front : Text.allBlank first = true := by
    rw [allBlank, List.all_append, Bool.and_eq_true] at blank
    exact blank.1
  have innermost : InnermostBody before after first last :=
    ⟨within, Mode.openAfter_of_allBlank _ 0 first front, closed⟩
  rw [solid first last innermost] at blank
  cases blank

namespace Layout

variable {before after text : Text}

private theorem settled (layout : Layout before after text) :
    ∃ afterColon, (Mode.code false).after before = .code afterColon := by
  cases layout with
  | comment code => exact code
  | remark code => exact code
  | blanks boundary => exact ⟨false, boundary.after_eq⟩

private theorem getLast?_ne (layout : Layout before after text) : before.getLast? ≠ some '/' := by
  cases layout with
  | comment code underway unclosed apart => exact apart
  | remark code line ends apart => exact apart
  | blanks boundary => exact boundary.getLast?_ne

private theorem passesOver (layout : Layout before after text) {afterColon : Bool}
    (settled : (Mode.code false).after before = .code afterColon) :
    ∃ following, (Mode.code afterColon).PassesOver following text
        (fun header => (Mode.code false).underway false before = true ↔ header ≠ []) ∧
      following.AgreeOn (.code afterColon) after := by
  cases layout with
  | comment code underway unclosed apart follows =>
      refine ⟨_, (Mode.passesOver_comment afterColon unclosed).mono fun header held => ?_, ?_⟩
      · exact held.mp underway
      · cases after with
        | nil => exact True.intro
        | cons member rest =>
            have other : member ≠ '/' := fun same => follows (same ▸ rfl)
            simp only [Mode.AgreeOn, Mode.step, Mode.stepCode, other, false_and, if_false]
  | remark code line ends apart noColon solid =>
      have plain : afterColon = false := by
        cases afterColon with
        | false => rfl
        | true =>
            have begun : before ≠ [] := by
              rintro rfl
              cases settled
            exact absurd (Mode.getLast?_of_afterColon begun settled) noColon
      subst plain
      refine ⟨_, (Mode.passesOver_lineComment line).mono fun _ _ => True.intro, ?_⟩
      cases after with
      | nil => exact True.intro
      | cons member rest =>
          obtain rfl := ends member rfl
          rfl
  | blanks boundary blank =>
      obtain rfl : afterColon = false := by
        rw [boundary.after_eq] at settled
        injection settled with same
        exact same.symm
      refine ⟨_, (Mode.passesOver_blanks blank).mono fun header held => ?_, ?_⟩
      · rw [boundary.underway_eq] at held
        exact not_not.mp fun begun => Bool.false_ne_true (held.mpr begun)
      · cases after with
        | nil => exact True.intro
        | cons member rest => rfl

private theorem inside {outside first last beyond : Text}
    (layout : Layout (outside ++ '{' :: first) (last ++ '}' :: beyond) text)
    (code : ∃ afterColon, (Mode.code false).after outside = .code afterColon) :
    Layout first last text := by
  have beginning : ∀ next ∈ last.head?, next ∈ (last ++ '}' :: beyond).head? := by
    intro next present
    cases last with
    | nil => cases present
    | cons begun others => exact present
  have inner := code
  obtain ⟨afterColon, outer⟩ := code
  cases layout with
  | comment code underway unclosed apart follows =>
      rw [Mode.after_opening outer] at code
      rw [Mode.underway_opening outer] at underway
      exact .comment code underway unclosed (getLast?_ne_of_block apart) fun slash =>
        follows (beginning _ slash)
  | remark code line ends apart noColon solid =>
      rw [Mode.after_opening outer] at code
      refine .remark code line (fun next present => ends next (beginning next present))
        (getLast?_ne_of_block apart) (getLast?_ne_of_block noColon) fun begun rest innermost => ?_
      exact solid begun rest (innermost.enclosed inner)
  | blanks boundary blank => exact .blanks (boundary.inside inner) blank

private theorem allBlank_eq (layout : Layout before after text) {first last : Text}
    (around : BodyAround before [] after first last) :
    Text.allBlank (first ++ text ++ last) = Text.allBlank (first ++ [] ++ last) := by
  have outermost := around
  obtain ⟨⟨outside, beyond, rfl, rfl, colon, outer⟩, _⟩ := around
  rw [List.append_nil]
  cases layout with
  | comment _ underway unclosed _ follows =>
      rw [Mode.underway_opening outer] at underway
      have solid : Text.allBlank first = false := by
        rw [Bool.eq_false_iff]
        intro blank
        rw [Mode.underway_of_allBlank _ first blank] at underway
        cases underway
      rw [List.append_assoc, allBlank_append_eq_false solid, allBlank_append_eq_false solid]
  | remark _ line ends _ noColon solid =>
      rw [outermost.solid solid]
      exact allBlank_eq_false (List.mem_append_left _ (List.mem_append_right _
        (List.mem_cons_self ..))) (by decide : isBlank '/' = false)
  | blanks boundary blank =>
      rw [allBlank, allBlank, List.all_append, List.all_append, List.all_append]
      rw [allBlank] at blank
      rw [blank, Bool.and_true]

end Layout

/-! ### Reading with and without layout -/

def SameButLayout (text other : Text) : Prop :=
  text = other ∨ ∃ before inert after, Layout before after inert ∧
    text = before ++ inert ++ after ∧ other = before ++ after

private theorem SameButLayout.refl (text : Text) : SameButLayout text text := Or.inl rfl

private theorem Layout.same {before after text : Text} (layout : Layout before after text) :
    SameButLayout (before ++ text ++ after) (before ++ after) :=
  Or.inr ⟨before, text, after, layout, rfl, rfl⟩

namespace Layout

variable {before after text : Text}

private theorem varies (layout : Layout before after text) (here there : Location) :
    (Body.mk (before ++ text ++ after) here).segmentation.Varies (.ofBodies SameButLayout)
      (Body.mk (before ++ [] ++ after) there).segmentation := by
  obtain ⟨afterColon, settled⟩ := layout.settled
  obtain ⟨following, passes, agree⟩ := layout.passesOver settled
  have apart : ∀ next?, (Mode.code false).Unaffected next? before :=
    Mode.unaffected_of_settled settled layout.getLast?_ne
  have onwards : (((Mode.code false).after before).after text).AgreeOn
      (((Mode.code false).after before).after []) after := by
    rw [settled, passes.after_eq]
    exact agree
  have seamless : text.Seamless before after := by
    refine ⟨apart _, ?_, ?_⟩
    · rw [settled]
      exact passes.unaffected _
    · rw [settled]
      exact passes.openAfter_eq
  have bare : Seamless [] before after := ⟨apart _, True.intro, fun _ => rfl⟩
  refine segmentation_varies layout.settled seamless bare onwards (fun first last around => ?_) ?_
    here there
  · refine ⟨layout.allBlank_eq around, ?_⟩
    obtain ⟨outside, beyond, rfl, rfl, code⟩ := around.within
    rw [List.append_nil]
    exact (layout.inside code).same
  · intro place segments header written run same here there
    have holds := Assembly.read_underway run
    rw [settled, Glyph.list_append _ (passes.unaffected _),
      Assembly.segmentation_append (passes.read_eq header here (holds rfl)), passes.after_eq,
      agree.list_eq, Segmentation.behind_nil]
    exact .nowhere (Assembly.segmentation_same after same _ _ _)

/-- Wherever it stands, a text with layout is read like the text without it. -/
theorem resembles (layout : Layout before after text) (here there : Location) :
    (Body.mk (before ++ text ++ after) here).segmentation.Resembles SameButLayout
      (Body.mk (before ++ after) there).segmentation := by
  have varies := layout.varies here there
  rw [List.append_nil] at varies
  exact varies.resembles SameButLayout.refl fun segment copy changed => changed.node_resembles

end Layout

private theorem corresponds_sameButLayout : Corresponds SameButLayout := by
  rintro ⟨text, here⟩ ⟨other, there⟩ (same | ⟨before, inert, after, layout, spelled, left⟩)
  · exact (Body.segmentation_alike same).resembles SameButLayout.refl
  · subst spelled left
    exact layout.resembles here there

theorem InnermostBody.allBlank_eq_false {before after first last : Text}
    (innermost : InnermostBody before after first last) {member : Char}
    (ends : before.getLast? = some member) (solid : isBlank member = false)
    (inside : member ≠ '{') : Text.allBlank (first ++ last) = false := by
  obtain ⟨outside, beyond, rfl, _⟩ := innermost.within
  rw [List.getLast?_append_of_ne_nil _ (List.cons_ne_nil _ _)] at ends
  cases first with
  | nil => exact absurd (Option.some.inj ends).symm inside
  | cons begun others =>
      rw [List.getLast?_cons_cons] at ends
      exact Text.allBlank_eq_false (List.mem_append_left _ (List.mem_of_getLast? ends)) solid

end Text

/-- Comments and layout are inert, at every depth of nesting: with them and without them a
stylesheet compiles to the same text, or fails for a cause of the same kind. -/
theorem agree_compileSource_of_layout (options : CompileOptions) {before after text : Text}
    (layout : Text.Layout before after text) :
    Agree Eq (compileSource options (before ++ text ++ after)).outcome
      (compileSource options (before ++ after)).outcome :=
  Text.corresponds_sameButLayout.agree options layout.same

theorem agree_compileSource_of_layout_in_blocks :
    let mixin := "@mixin m\x7ba\x7bb".toList
    let uses := ":c;\x7d\x7dx\x7b@include m\x7dy\x7b@include m\x7d".toList
    let braces := " ; \x7d ".toList
    (Text.Layout mixin uses ("/*".toList ++ braces ++ "*/".toList) ∧
      Agree Eq (compileSource ⟨false⟩ (mixin ++ ("/*".toList ++ braces ++ "*/".toList) ++ uses)).outcome
        (compileSource ⟨false⟩ (mixin ++ uses)).outcome) ∧
    (Text.Layout "a\x7bb:c;".toList "\n\x7d".toList ("//".toList ++ braces) ∧
      Agree Eq (compileSource ⟨false⟩
          ("a\x7bb:c;".toList ++ ("//".toList ++ braces) ++ "\n\x7d".toList)).outcome
        (compileSource ⟨false⟩ ("a\x7bb:c;".toList ++ "\n\x7d".toList)).outcome) ∧
    Text.Layout "a\x7b".toList "b:c\x7d".toList " \n".toList ∧
      Agree Eq (compileSource ⟨false⟩ ("a\x7b".toList ++ " \n".toList ++ "b:c\x7d".toList)).outcome
        (compileSource ⟨false⟩ ("a\x7b".toList ++ "b:c\x7d".toList)).outcome := by
  intro mixin uses braces
  have comment : Text.Layout mixin uses ("/*".toList ++ braces ++ "*/".toList) :=
    .comment ⟨false, by decide +kernel⟩ (by decide +kernel) (by decide) (by decide) (by decide)
  have remark : Text.Layout "a\x7bb:c;".toList "\n\x7d".toList ("//".toList ++ braces) := by
    refine .remark ⟨false, by decide +kernel⟩ (by decide) ?_ (by decide) (by decide) ?_
    · exact fun next same => (Option.some.inj same).symm
    · exact fun first last innermost =>
        innermost.allBlank_eq_false (by decide : _ = some ';') (by decide) (by decide)
  have blanks : Text.Layout "a\x7b".toList "b:c\x7d".toList " \n".toList :=
    .blanks (.delimiter ⟨false, by decide⟩ (by decide) : Text.AtBoundary (['a'] ++ ['{']))
      (by decide)
  exact ⟨⟨comment, agree_compileSource_of_layout _ comment⟩,
    ⟨remark, agree_compileSource_of_layout _ remark⟩,
    blanks, agree_compileSource_of_layout _ blanks⟩

end NestedCss
