import NestedCss.Proofs.Layout

set_option autoImplicit false

/-! What stands in strings and comments. Segmentation does not look into them: with other
contents, delimiters of the language included, a text falls into segments of the same kinds
and has the same fault, at any depth of nesting, and no field changes but the one that holds
the contents. -/

namespace NestedCss

inductive Segment.Kind where
  | statement
  | block
  | comment
  deriving DecidableEq

def Segment.kind : Segment → Segment.Kind
  | .statement _ _ => .statement
  | .block _ _ _ => .block
  | .comment _ _ => .comment

def Text.Exchanged (old new text other : Text) : Prop :=
  ∃ front back, text = front ++ old ++ back ∧ other = front ++ new ++ back

/-- Whatever field the contents stand in, they alone are exchanged. -/
def Change.ofContents (old new : Text) : Change :=
  let exchanged := Text.Exchanged old new
  ⟨exchanged, exchanged, exchanged, exchanged⟩

/-- What may stand between the quotes of a string: neither the quote nor a line feed, unless
a backslash shields them. -/
inductive Text.Quoted (quote : Char) : Text → Prop
  | nil : Quoted quote []
  | plain {member : Char} {rest : Text} (kept : member ∉ [quote, '\\', '\n'])
      (following : Quoted quote rest) : Quoted quote (member :: rest)
  | escaped (member : Char) {rest : Text} (following : Quoted quote rest) :
      Quoted quote ('\\' :: member :: rest)

/-- What keeps its contents from being read as code. -/
inductive Shelter where
  | string (quote : Char)
  | comment
  | remark

namespace Shelter

def opening : Shelter → Text
  | string quote => [quote]
  | comment => "/*".toList
  | remark => "//".toList

/-- A line comment ends before the line feed, which does not belong to it. -/
def closing : Shelter → Text
  | string quote => [quote]
  | comment => "*/".toList
  | remark => []

def around (shelter : Shelter) (contents : Text) : Text :=
  shelter.opening ++ contents ++ shelter.closing

/-- Contents that do not end what they stand in. -/
def Holds : Shelter → Text → Prop
  | string quote, contents => contents.Quoted quote
  | comment, contents => ¬ ['*', '/'] <:+: contents
  | remark, contents => '\n' ∉ contents

/-- A place outside strings and comments where the next character or two open one of them. A
slash could belong to what stands before it, and after a colon two of them open nothing. -/
inductive Between (before after : Text) : Shelter → Prop
  | string {quote : Char} (opens : isQuote quote = true)
      (outside : ∃ afterColon, (Mode.code false).after before = .code afterColon) :
      Between before after (.string quote)
  | comment (outside : ∃ afterColon, (Mode.code false).after before = .code afterColon)
      (apart : (Mode.code false).Unaffected (some '/') before) : Between before after .comment
  | remark (outside : (Mode.code false).after before = .code false)
      (apart : (Mode.code false).Unaffected (some '/') before)
      (ends : ∀ next ∈ after.head?, next = '\n') : Between before after .remark

end Shelter

/-! ### Kinds -/

private theorem Segment.Alike.kind_eq {segment other : Segment} (alike : segment.Alike other) :
    segment.kind = other.kind := by
  cases alike <;> rfl

private theorem Segment.Varies.kind_eq {change : Change} {segment other : Segment}
    (varies : segment.Varies change other) : segment.kind = other.kind := by
  cases varies <;> rfl

namespace Segmentation

private theorem Same.kinds_eq {whole other : Segmentation} (same : whole.Same other) :
    whole.segments.map Segment.kind = other.segments.map Segment.kind := by
  have paired : List.Forall₂ Eq (whole.segments.map Segment.kind)
      (other.segments.map Segment.kind) := by
    rw [List.forall₂_map_left_iff, List.forall₂_map_right_iff]
    exact same.alike.segments.imp fun _ _ alike => alike.kind_eq
  rwa [List.forall₂_eq_eq_eq] at paired

private theorem Same.faultKind_eq {whole other : Segmentation} (same : whole.Same other) :
    whole.fault?.map (fun fault => fault.cause.kind) =
      other.fault?.map fun fault => fault.cause.kind := by
  have kinds := congrArg (Option.map Cause.kind) same.cause
  rwa [Option.map_map, Option.map_map] at kinds

private theorem Varies.kinds_eq {change : Change} {whole other : Segmentation}
    (varies : whole.Varies change other) :
    whole.segments.map Segment.kind = other.segments.map Segment.kind ∧
      whole.fault?.map (fun fault => fault.cause.kind) =
        other.fault?.map fun fault => fault.cause.kind := by
  induction varies with
  | nowhere same => exact ⟨same.kinds_eq, same.faultKind_eq⟩
  | first varies same =>
      refine ⟨?_, same.faultKind_eq⟩
      simp only [cons, List.map_cons, varies.kind_eq, same.kinds_eq]
  | later alike _ ih =>
      refine ⟨?_, ih.2⟩
      simp only [cons, List.map_cons, alike.kind_eq, ih.1]
  | unclosed => exact ⟨rfl, rfl⟩

end Segmentation

/-! ### Strings -/

private theorem Text.Quoted.gathers {quote : Char} {contents : Text} (opened : isQuote quote = true)
    (quoted : contents.Quoted quote) :
    (Mode.quoted quote).Gathers (contents ++ [quote]) ∧
      (Mode.quoted quote).after (contents ++ [quote]) = .code false := by
  have noEscape : quote ≠ '\\' := by
    rintro rfl
    cases opened
  induction quoted with
  | nil =>
      refine ⟨.closing opened (.nil false), ?_⟩
      simp [Mode.after, Mode.step, noEscape]
  | plain kept following ih =>
      refine ⟨.within kept ih.1, ?_⟩
      simp only [List.mem_cons, List.not_mem_nil, or_false, not_or] at kept
      obtain ⟨noQuote, noBackslash, noFeed⟩ := kept
      simp only [List.cons_append, Mode.after, Mode.step, noQuote, noBackslash, noFeed, or_self,
        if_false]
      exact ih.2
  | escaped member following ih =>
      have second : (Mode.escaped quote).Gathers (member :: _) :=
        .cons rfl (fun _ => Or.inl rfl) ih.1
      exact ⟨.cons rfl (fun _ => Or.inl rfl) second, ih.2⟩

namespace Shelter

variable {shelter : Shelter} {before after old new contents : Text}

private theorem ne_slash_of_isQuote {quote : Char} (opens : isQuote quote = true) :
    quote ≠ '/' := by
  rintro rfl
  cases opens

private theorem gathers_string {quote : Char} (opens : isQuote quote = true)
    (quoted : contents.Quoted quote) (afterColon : Bool) :
    (Mode.code afterColon).Gathers ((Shelter.string quote).around contents) ∧
      (Mode.code afterColon).after ((Shelter.string quote).around contents) = .code false := by
  obtain ⟨inside, ended⟩ := quoted.gathers opens
  refine ⟨.opening opens inside, ?_⟩
  have spelled : (Shelter.string quote).around contents = quote :: (contents ++ [quote]) := rfl
  rw [spelled, Mode.after]
  simp only [Mode.step, Mode.stepCode, ne_slash_of_isQuote opens, false_and, if_false, opens,
    if_true]
  exact ended

private theorem getLast?_string (quote : Char) (contents : Text) :
    ((Shelter.string quote).around contents).getLast? = some quote :=
  List.getLast?_concat ..

private theorem trim_string {quote : Char} (opens : isQuote quote = true) (contents : Text) :
    ((Shelter.string quote).around contents).trim = (Shelter.string quote).around contents := by
  rw [Text.trim_eq_self_iff, getLast?_string]
  have solid := Assembly.isBlank_of_isQuote opens
  constructor
  · intro first present
    injection present with same
    exact same ▸ solid
  · intro last present
    injection present with same
    exact same ▸ solid

private theorem passesOver_string {quote : Char} (opens : isQuote quote = true)
    (quoted : contents.Quoted quote) (afterColon : Bool) :
    (Mode.code afterColon).PassesOver (.code false) ((Shelter.string quote).around contents)
      fun _ => False := by
  obtain ⟨gathered, ended⟩ := gathers_string opens quoted afterColon
  refine ⟨ended, fun next? => ?_, gathered.openAfter_eq, fun _ _ impossible => impossible.elim⟩
  refine Mode.unaffected_of_settled ended ?_ next?
  rw [getLast?_string]
  exact fun same => ne_slash_of_isQuote opens (Option.some.inj same)

private theorem segmentation_string {quote : Char} (opens : isQuote quote = true)
    (quoted : contents.Quoted quote) (afterColon : Bool) (header : List Glyph) (here : Location)
    (after : Text) :
    Assembly.segmentation ⟨header, .surface⟩
        (Glyph.list (.code afterColon) here ((Shelter.string quote).around contents ++ after)) =
      Assembly.segmentation
        ⟨(Glyph.list (.code afterColon) here ((Shelter.string quote).around contents)).reverse ++
          header, .surface⟩
        (Glyph.list (.code false) (here.advanceOver ((Shelter.string quote).around contents))
          after) := by
  have passes := passesOver_string opens quoted afterColon
  have begins := ((Text.trim_eq_self_iff _).mp (trim_string opens contents)).1
  rw [(gathers_string opens quoted afterColon).1.segmentation_append begins
    (passes.unaffected _), passes.after_eq]

private theorem exchanged (shelter : Shelter) (old new front back : Text) :
    Text.Exchanged old new (front ++ shelter.around old ++ back)
      (front ++ shelter.around new ++ back) :=
  ⟨front ++ shelter.opening, shelter.closing ++ back, by simp [around], by simp [around]⟩

private theorem abreast_string {quote : Char} (opens : isQuote quote = true) (afterColon : Bool)
    {header written : List Glyph} (same : Assembly.Alike ⟨header, .surface⟩ ⟨written, .surface⟩)
    (old new : Text) (here there : Location) :
    Assembly.Abreast (Text.Exchanged old new)
      ⟨(Glyph.list (.code afterColon) here ((Shelter.string quote).around old)).reverse ++ header,
        .surface⟩
      ⟨(Glyph.list (.code afterColon) there ((Shelter.string quote).around new)).reverse ++ written,
        .surface⟩ := by
  have some : ∀ (glyphs : List Glyph) (contents : Text) (place : Location),
      (Glyph.list (.code afterColon) place
        ((Shelter.string quote).around contents)).reverse ++ glyphs ≠ [] :=
    fun glyphs contents place => List.append_ne_nil_of_left_ne_nil
      (List.reverse_ne_nil_iff.mpr (List.cons_ne_nil _ _)) _
  refine ⟨rfl, .surface, ⟨some _ _ _, some _ _ _⟩, fun further => ?_⟩
  have members : header.map Glyph.member = written.map Glyph.member := same.header
  rw [Assembly.written_append_list, Assembly.written_append_list, List.append_assoc,
    List.append_assoc, Text.trim_around _ _ (trim_string opens old) (List.cons_ne_nil _ _),
    Text.trim_around _ _ (trim_string opens new) (List.cons_ne_nil _ _), members,
    ← List.append_assoc, ← List.append_assoc]
  exact exchanged _ old new _ _

/-! ### Any contents -/

def following : Shelter → Mode
  | string _ | comment => .code false
  | remark => .remark

def Skips : Shelter → List Glyph → Prop
  | string _, _ => False
  | comment, header => header ≠ []
  | remark, _ => True

private theorem Between.settled (between : shelter.Between before after) :
    ∃ afterColon, (Mode.code false).after before = .code afterColon := by
  cases between with
  | string opens outside => exact outside
  | comment outside apart => exact outside
  | remark outside apart ends => exact ⟨false, outside⟩

private theorem Between.passesOver (between : shelter.Between before after)
    (holds : shelter.Holds contents) :
    ((Mode.code false).after before).PassesOver shelter.following (shelter.around contents)
      shelter.Skips := by
  cases between with
  | string opens outside =>
      obtain ⟨afterColon, settled⟩ := outside
      rw [settled]
      exact passesOver_string opens holds afterColon
  | comment outside apart =>
      obtain ⟨afterColon, settled⟩ := outside
      rw [settled]
      exact Mode.passesOver_comment afterColon holds
  | remark outside apart ends =>
      rw [outside, around, closing, List.append_nil]
      exact Mode.passesOver_lineComment holds

private theorem Between.seamless (between : shelter.Between before after)
    (holds : shelter.Holds contents) : (shelter.around contents).Seamless before after := by
  have passes := between.passesOver holds
  refine ⟨?_, passes.unaffected _, passes.openAfter_eq⟩
  cases between with
  | @string quote opens outside =>
      refine Mode.unaffected_of_plain _ before ?_ ?_
      · rintro ⟨⟩
        cases opens
      · rintro ⟨⟩
        cases opens
  | comment outside apart => exact apart
  | remark outside apart ends => exact apart

private theorem Between.allBlank_eq_false (between : shelter.Between before after)
    (contents front back : Text) :
    Text.allBlank (front ++ shelter.around contents ++ back) = false := by
  have solid : ∃ member ∈ shelter.around contents, isBlank member = false := by
    cases between with
    | @string quote opens outside =>
        exact ⟨quote, List.mem_cons_self .., Assembly.isBlank_of_isQuote opens⟩
    | comment outside apart => exact ⟨'/', List.mem_cons_self .., by decide⟩
    | remark outside apart ends => exact ⟨'/', List.mem_cons_self .., by decide⟩
  obtain ⟨member, present, notBlank⟩ := solid
  exact Text.allBlank_eq_false (List.mem_append_left _ (List.mem_append_right _ present)) notBlank

/-- Outside blocks a string changes the header that it stands in, and a comment that stands on
its own changes itself. -/
theorem Between.segmentation_varies (between : shelter.Between before after)
    (holds : shelter.Holds old) (holdsToo : shelter.Holds new) {header written : List Glyph}
    (same : Assembly.Alike ⟨header, .surface⟩ ⟨written, .surface⟩) (here there : Location) :
    (Assembly.segmentation ⟨header, .surface⟩
        (Glyph.list ((Mode.code false).after before) here (shelter.around old ++ after))).Varies
      (.ofContents old new)
      (Assembly.segmentation ⟨written, .surface⟩
        (Glyph.list ((Mode.code false).after before) there (shelter.around new ++ after))) := by
  have passes := between.passesOver holds
  have passesToo := between.passesOver holdsToo
  -- What skips a header skips the other one, and what follows is the same.
  have skipped : shelter.Skips header → shelter.Skips written →
      (Assembly.segmentation ⟨header, .surface⟩
        (Glyph.list ((Mode.code false).after before) here (shelter.around old ++ after))).Varies
      (.ofContents old new)
      (Assembly.segmentation ⟨written, .surface⟩
        (Glyph.list ((Mode.code false).after before) there (shelter.around new ++ after))) := by
    intro skips skipsToo
    rw [Glyph.list_append here (passes.unaffected _),
      Glyph.list_append there (passesToo.unaffected _),
      Assembly.segmentation_append (passes.read_eq header here skips),
      Assembly.segmentation_append (passesToo.read_eq written there skipsToo), passes.after_eq,
      passesToo.after_eq]
    exact .nowhere (Assembly.segmentation_same after same _ _ _)
  cases between with
  | string opens outside =>
      obtain ⟨afterColon, settled⟩ := outside
      rw [settled, segmentation_string opens holds, segmentation_string opens holdsToo]
      refine Assembly.Abreast.segmentation_varies after ⟨id, fun _ => rfl⟩ ?_
      have field : (Change.ofContents old new).endedBy ((Mode.code false).delimiter? after) =
          Text.Exchanged old new := by
        unfold Change.endedBy
        split <;> rfl
      rw [field]
      exact abreast_string opens afterColon same old new _ _
  | comment outside apart =>
      by_cases bare : header = []
      · have bareToo : written = [] := by
          have members : header.map Glyph.member = written.map Glyph.member := same.header
          rw [bare] at members
          exact List.map_eq_nil_iff.mp members.symm
        obtain ⟨afterColon, settled⟩ := outside
        subst bare bareToo
        have alone : ∀ {contents : Text} (place : Location), ¬ ['*', '/'] <:+: contents →
            Assembly.read ⟨[], .surface⟩
              (Glyph.list (.code afterColon) place (Shelter.comment.around contents)) =
              some ([.comment contents place], ⟨[], .surface⟩) :=
          fun place unclosed => Assembly.read_blockComment unclosed place
        rw [settled] at passes passesToo ⊢
        rw [Glyph.list_append here (passes.unaffected _),
          Glyph.list_append there (passesToo.unaffected _),
          Assembly.segmentation_append (alone here holds),
          Assembly.segmentation_append (alone there holdsToo), passes.after_eq, passesToo.after_eq]
        have exchanged : Text.Exchanged old new old new := ⟨[], [], by simp, by simp⟩
        exact .first (.comment exchanged here there) (Assembly.segmentation_same after same _ _ _)
      · have begun : written ≠ [] := by
          rintro rfl
          exact bare (List.map_eq_nil_iff.mp same.header)
        exact skipped bare begun
  | remark outside apart ends => exact skipped True.intro True.intro

/-- What strings and comments hold is not looked into. With other contents in one of them,
wherever it stands, a text has the same segments and a fault for the same cause, but for the
one field that the contents stand in, so the kinds of the segments in their order and the kind
of the fault stay as they were. -/
theorem contents_change_one_field (between : shelter.Between before after)
    (holds : shelter.Holds old) (holdsToo : shelter.Holds new) (here there : Location) :
    let whole := (Body.mk (before ++ shelter.around old ++ after) here).segmentation
    let other := (Body.mk (before ++ shelter.around new ++ after) there).segmentation
    whole.Varies (.ofContents old new) other ∧
      whole.segments.map Segment.kind = other.segments.map Segment.kind ∧
      whole.fault?.map (fun fault => fault.cause.kind) =
        other.fault?.map fun fault => fault.cause.kind := by
  intro whole other
  have agree : (((Mode.code false).after before).after (shelter.around old)).AgreeOn
      (((Mode.code false).after before).after (shelter.around new)) after := by
    rw [(between.passesOver holds).after_eq, (between.passesOver holdsToo).after_eq]
    cases after with
    | nil => exact True.intro
    | cons member rest => exact rfl
  have varies : whole.Varies (.ofContents old new) other := by
    refine Text.segmentation_varies between.settled (between.seamless holds)
      (between.seamless holdsToo) agree (fun first last _ => ?_) ?_ here there
    · rw [between.allBlank_eq_false, between.allBlank_eq_false]
      exact ⟨rfl, shelter.exchanged old new first last⟩
    · intro _ _ _ _ _ same here there
      exact between.segmentation_varies holds holdsToo same here there
  exact ⟨varies, varies.kinds_eq⟩

/-- Braces and semicolons in a string, in a comment and in a line comment inside a block. -/
theorem contents_change_one_field_of_delimiters :
    let before := "a\x7bb:c".toList
    let after := "\n\x7d d".toList
    let old := "e".toList
    let new := "\x7d ; \x7b".toList
    let segmentation (text : Text) := (Body.mk (before ++ text ++ after) .start).segmentation
    (Between before after (.string '"') ∧ Holds (.string '"') old ∧ Holds (.string '"') new ∧
      (segmentation ((Shelter.string '"').around old)).Varies (.ofContents old new)
        (segmentation ((Shelter.string '"').around new))) ∧
    (Between before after .comment ∧ Holds .comment old ∧ Holds .comment new ∧
      (segmentation (Shelter.comment.around old)).Varies (.ofContents old new)
        (segmentation (Shelter.comment.around new))) ∧
    Between before after .remark ∧ Holds .remark old ∧ Holds .remark new ∧
      (segmentation (Shelter.remark.around old)).Varies (.ofContents old new)
        (segmentation (Shelter.remark.around new)) := by
  intro before after old new segmentation
  have outside : (Mode.code false).after before = .code false := by decide
  have apart := Mode.unaffected_of_settled outside (by decide) (some '/')
  have string : Between before after (.string '"') := .string (by decide) ⟨false, outside⟩
  have comment : Between before after .comment := .comment ⟨false, outside⟩ apart
  have remark : Between before after .remark :=
    .remark outside apart fun next same => (Option.some.inj same).symm
  have quoted : Holds (.string '"') old := .plain (by decide) .nil
  have quotedToo : Holds (.string '"') new :=
    .plain (by decide) (.plain (by decide) (.plain (by decide) (.plain (by decide)
      (.plain (by decide) .nil))))
  have unclosed : ¬ ['*', '/'] <:+: old := by decide
  have unclosedToo : ¬ ['*', '/'] <:+: new := by decide
  have line : '\n' ∉ old := by decide
  have lineToo : '\n' ∉ new := by decide
  exact ⟨⟨string, quoted, quotedToo, (contents_change_one_field string quoted quotedToo _ _).1⟩,
    ⟨comment, unclosed, unclosedToo,
      (contents_change_one_field comment unclosed unclosedToo _ _).1⟩,
    remark, line, lineToo, (contents_change_one_field remark line lineToo _ _).1⟩

end Shelter
end NestedCss
