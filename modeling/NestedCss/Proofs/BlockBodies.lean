import Mathlib.Logic.Relation
import NestedCss.Proofs.CommentTexts

set_option autoImplicit false

/-! What a text consists of at its outermost level: comments, statements, and blocks
whose bodies are closed texts. The brace that ends a block is the first one that its
body does not account for, and the body is read on its own exactly as it is read inside
the block, because neither brace takes part in a comment. So the segmentation of a body
never has a fault, however deep the body stands. -/

namespace NestedCss

namespace Glyph

def IsCode (glyph : Glyph) (member : Char) : Prop := glyph.role = .code ∧ glyph.member = member

/-- Where a statement, a header or a block begins or ends. -/
def Delimits (glyph : Glyph) : Prop :=
  glyph.IsCode ';' ∨ glyph.IsCode '{' ∨ glyph.IsCode '}'

/-- The number of open blocks after some glyphs, unless one is closed too many. -/
def openAfter (depth : Nat) : List Glyph → Option Nat
  | [] => some depth
  | glyph :: rest => (depthAfter? glyph.role glyph.member depth).bind fun inner =>
      openAfter inner rest

theorem openAfter_append (depth : Nat) (first second : List Glyph) :
    openAfter depth (first ++ second) =
      (openAfter depth first).bind fun inner => openAfter inner second := by
  induction first generalizing depth with
  | nil => rfl
  | cons glyph rest ih =>
      rw [List.cons_append, openAfter, openAfter]
      cases depthAfter? glyph.role glyph.member depth with
      | none => rfl
      | some inner => exact ih inner

theorem openAfter_list (mode : Mode) (here : Location) (depth : Nat) (text : Text) :
    openAfter depth (Glyph.list mode here text) = mode.openAfter depth text := by
  induction text generalizing mode here depth with
  | nil => rfl
  | cons member rest ih =>
      rw [Glyph.list, openAfter, Mode.openAfter]
      congr 1
      funext inner
      exact ih _ _ inner

end Glyph

def Body.glyphs (body : Body) : List Glyph := Glyph.list (.code false) body.origin body.text

def Segment.Contained : Segment → Prop
  | .statement _ _ => True
  | .block _ _ body => body.text.Closed
  | .comment text _ => ¬ ['*', '/'] <:+: text

theorem Glyph.list_closing {mode : Mode} {text : Text} {afterColon : Bool}
    (settled : mode.after text = .code afterColon) (here : Location) (rest : Text) :
    Glyph.list mode here (text ++ '}' :: rest) =
      Glyph.list mode here text ++ ⟨'}', .code, here.advanceOver text⟩ ::
        Glyph.list (.code false) (here.advanceOver (text ++ ['}'])) rest := by
  have apart : mode.Unaffected ('}' :: rest).head? text :=
    mode.unaffected_of_plain text (by simp) (by simp)
  have brace : Mode.step (.code afterColon) '}' rest.head? = (.code, .code false) := by
    simp [Mode.step, Mode.stepCode, isQuote]
  rw [Glyph.list_append here apart, settled, Glyph.list, brace, Location.advanceOver_append]
  rfl

namespace Mode

private theorem step_of_commentOpen {mode : Mode} {member : Char} {next? : Option Char}
    (opens : (mode.step member next?).1 = .commentOpen) :
    (∃ afterColon, mode = .code afterColon) ∧ member = '/' ∧ next? = some '*' := by
  cases mode with
  | code afterColon =>
      refine ⟨⟨afterColon, rfl⟩, ?_⟩
      simp only [step, stepCode] at opens
      split at opens
      · assumption
      · split at opens
        · cases opens
        · split at opens <;> cases opens
  | quoted quote =>
      simp only [step] at opens
      split at opens
      · cases opens
      · split at opens <;> cases opens
  | comment =>
      simp only [step] at opens
      split at opens <;> cases opens
  | remark =>
      simp only [step] at opens
      split at opens <;> cases opens
  | escaped quote => cases opens
  | commentOpening => cases opens
  | commentClosing => cases opens
  | remarkOpening => cases opens

private theorem step_ne_commentClose {mode : Mode} (outside : ¬ mode.InComment) (member : Char)
    (next? : Option Char) : (mode.step member next?).1 ≠ .commentClose := by
  intro closes
  cases mode with
  | code afterColon =>
      simp only [step, stepCode] at closes
      split at closes
      · cases closes
      · split at closes
        · cases closes
        · split at closes <;> cases closes
  | quoted quote =>
      simp only [step] at closes
      split at closes
      · cases closes
      · split at closes <;> cases closes
  | remark =>
      simp only [step] at closes
      split at closes <;> cases closes
  | escaped quote => cases closes
  | remarkOpening => cases closes
  | commentOpening => exact outside True.intro
  | comment => exact outside True.intro
  | commentClosing => exact outside True.intro

end Mode

namespace Assembly

/-- Inside a block either its own closing brace is reached, or the text goes on
within the block at a depth that the braces tell. -/
theorem step_block_cases (header : List Glyph) (opening : Location) (depth : Nat) (taken : Text)
    (glyph : Glyph) :
    (glyph.role = .code ∧ glyph.member = '}' ∧ depth = 0 ∧
        step ⟨header, .block opening depth taken⟩ glyph =
          endBlock ⟨header, .surface⟩ opening taken) ∨
      ∃ inner, depthAfter? glyph.role glyph.member depth = some inner ∧
        step ⟨header, .block opening depth taken⟩ glyph =
          .reading ⟨header, .block opening inner (glyph.member :: taken)⟩ := by
  simp only [step, stepBlock]
  unfold depthAfter?
  by_cases opens : glyph.role = .code ∧ glyph.member = '{'
  · rw [if_pos opens, if_pos opens]
    exact Or.inr ⟨depth + 1, rfl, rfl⟩
  · rw [if_neg opens, if_neg opens]
    by_cases closes : glyph.role = .code ∧ glyph.member = '}'
    · rw [if_pos closes, if_pos closes]
      cases depth with
      | zero => exact Or.inl ⟨closes.1, closes.2, rfl, rfl⟩
      | succ outer => exact Or.inr ⟨outer, rfl, rfl⟩
    · rw [if_neg closes, if_neg closes]
      exact Or.inr ⟨depth, rfl, rfl⟩

/-- A text read inside a block either reaches the brace that closes the block, and
is closed up to there, or leaves the block open, which is a fault of its opening. -/
theorem segmentation_block (header : List Glyph) (opening : Location) (text : Text) :
    ∀ (mode : Mode) (here : Location) (depth : Nat) (taken : Text),
      (∃ body rest, text = body ++ '}' :: rest ∧ mode.openAfter depth body = some 0 ∧
        (∃ afterColon, mode.after body = .code afterColon) ∧
        segmentation ⟨header, .block opening depth taken⟩ (Glyph.list mode here text) =
          (endBlock ⟨header, .surface⟩ opening (body.reverse ++ taken)).followedBy
            (Glyph.list (.code false) (here.advanceOver (body ++ ['}'])) rest)) ∨
      mode.openAfter depth text ≠ none ∧
        segmentation ⟨header, .block opening depth taken⟩ (Glyph.list mode here text) =
          finish ⟨header, .block opening 0 []⟩ := by
  induction text with
  | nil =>
      intro mode here depth taken
      exact Or.inr ⟨Option.some_ne_none _, rfl⟩
  | cons member rest ih =>
      intro mode here depth taken
      rw [Glyph.list, segmentation_cons]
      have within := step_block_cases header opening depth taken
        ⟨member, (mode.step member rest.head?).1, here⟩
      rcases within with ⟨role, brace, shallow, stepped⟩ | ⟨inner, counted, stepped⟩
      · obtain ⟨afterColon, settled, following⟩ := Mode.step_of_brace role (Or.inr brace)
        have character : member = '}' := brace
        subst character shallow
        refine Or.inl ⟨[], rest, rfl, rfl, ⟨afterColon, settled⟩, ?_⟩
        rw [stepped, following]
        rfl
      · rw [stepped]
        have further := ih (mode.step member rest.head?).2 (here.advance member) inner
          (member :: taken)
        rcases further with ⟨body, others, split, balanced, settled, tail⟩ | ⟨unclosed, tail⟩
        · -- The closing brace after the body opens and ends no comment.
          have seam : mode.step member rest.head? = mode.step member body.head? := by
            rw [split]
            exact Mode.step_head?_append (Mode.unaffected_of_plain mode (member :: body)
              (by simp) (by simp))
          refine Or.inl ⟨member :: body, others, by rw [split, List.cons_append], ?_, ?_, ?_⟩
          · rw [Mode.openAfter, ← seam, counted]
            exact balanced
          · rw [Mode.after, ← seam]
            exact settled
          · rw [Progress.followedBy, tail, List.reverse_cons, List.append_assoc]
            rfl
        · refine Or.inr ⟨?_, tail⟩
          rw [Mode.openAfter, counted]
          exact unclosed

/-- What a step outside every block does. -/
inductive StepsOutside (pending : Assembly) (glyph : Glyph) : Progress → Prop
  | aside {following : Assembly} (comment : glyph.role.isComment = true)
      (outside : following.level = 0) (kept : following.header = pending.header)
      (stays : pending.enclosure = .surface → glyph.role ≠ .commentOpen → following = pending) :
      StepsOutside pending glyph (.reading following)
  | comment (text : Text) (start : Location) (comment : glyph.role.isComment = true)
      (bare : pending.header = []) (inside : pending.enclosure ≠ .surface) :
      StepsOutside pending glyph (.complete (.comment text start))
  | extend (spoken : glyph.role.isComment = false) (plain : ¬ glyph.Delimits)
      (outside : (pending.extend glyph).level = 0) :
      StepsOutside pending glyph (.reading (pending.extend glyph))
  | statement (ends : glyph.IsCode ';') :
      StepsOutside pending glyph (pending.endStatement glyph.location)
  | block (opens : glyph.IsCode '{') :
      StepsOutside pending glyph (.reading ⟨pending.header, .block glyph.location 0 []⟩)
  | unexpected (closes : glyph.IsCode '}') :
      StepsOutside pending glyph
        (.rejected (unbalanced "unexpected `\x7d`".toList glyph.location))

theorem stepsOutside_surface (header : List Glyph) (glyph : Glyph) :
    StepsOutside ⟨header, .surface⟩ glyph (step ⟨header, .surface⟩ glyph) := by
  obtain ⟨member, role, location⟩ := glyph
  have level : (extend ⟨header, .surface⟩ ⟨member, role, location⟩).level = 0 := by
    rw [Assembly.level, enclosure_extend]
  cases role with
  | code =>
      simp only [step, stepSurface]
      split
      · rename_i opens
        exact .block ⟨rfl, opens⟩
      · split
        · rename_i closes
          exact .unexpected ⟨rfl, closes⟩
        · split
          · rename_i ends
            exact .statement ⟨rfl, ends⟩
          · rename_i notOpening notClosing notEnding
            refine .extend rfl ?_ level
            rintro (⟨_, ends⟩ | ⟨_, opens⟩ | ⟨_, closes⟩)
            · exact notEnding ends
            · exact notOpening opens
            · exact notClosing closes
  | quoted =>
      refine .extend rfl ?_ level
      rintro (⟨code, _⟩ | ⟨code, _⟩ | ⟨code, _⟩) <;> cases code
  | commentOpen => exact .aside rfl rfl rfl fun _ other => absurd rfl other
  | commentMark => exact .aside rfl rfl rfl fun _ _ => rfl
  | comment => exact .aside rfl rfl rfl fun _ _ => rfl
  | commentClose => exact .aside rfl rfl rfl fun _ _ => rfl
  | remark => exact .aside rfl rfl rfl fun _ _ => rfl

theorem isComment_step_of_inComment {mode : Mode} (inside : mode.InComment) (member : Char)
    (next? : Option Char) : (mode.step member next?).1.isComment = true := by
  cases mode with
  | commentOpening => rfl
  | comment =>
      simp only [Mode.step]
      split <;> rfl
  | commentClosing => rfl
  | code afterColon => cases inside
  | quoted quote => cases inside
  | escaped quote => cases inside
  | remarkOpening => cases inside
  | remark => cases inside

private theorem stepsOutside_comment (header : List Glyph) (start : Location) (text : Text)
    {glyph : Glyph} (comment : glyph.role.isComment = true) :
    StepsOutside ⟨header, .comment start text⟩ glyph
      (step ⟨header, .comment start text⟩ glyph) := by
  obtain ⟨member, role, location⟩ := glyph
  cases role with
  | code => cases comment
  | quoted => cases comment
  | commentOpen => exact .aside rfl rfl rfl fun surface => by cases surface
  | commentMark => exact .aside rfl rfl rfl fun surface => by cases surface
  | comment => exact .aside rfl rfl rfl fun surface => by cases surface
  | remark => exact .aside rfl rfl rfl fun surface => by cases surface
  | commentClose =>
      simp only [step, stepComment, endComment]
      split
      · rename_i bare
        exact .comment _ _ rfl (List.isEmpty_iff.mp bare) fun surface => by cases surface
      · exact .aside rfl rfl rfl fun surface => by cases surface

theorem stepsOutside_step {pending : Assembly} {mode : Mode} (fits : pending.Fits mode)
    (outside : pending.level = 0) (here : Location) (member : Char) (next? : Option Char) :
    StepsOutside pending ⟨member, (mode.step member next?).1, here⟩
      (pending.step ⟨member, (mode.step member next?).1, here⟩) := by
  obtain ⟨header, enclosure⟩ := pending
  cases enclosure with
  | surface => exact stepsOutside_surface header _
  | comment start text =>
      exact stepsOutside_comment header start text (isComment_step_of_inComment fits member next?)
  | block opening depth text => cases outside

private theorem extend_surface (header : List Glyph) (glyph : Glyph) :
    extend ⟨header, .surface⟩ glyph = ⟨(extend ⟨header, .surface⟩ glyph).header, .surface⟩ := by
  unfold extend
  split <;> rfl

/-- The segmentation of glyphs that are read outside every block, when the glyphs of
a header have been read before. -/
inductive Scans : List Glyph → List Glyph → Segmentation → Prop
  | finish (header : List Glyph) : Scans header [] (finish ⟨header, .surface⟩)
  | aside {header rest : List Glyph} {glyph : Glyph} {whole : Segmentation}
      (comment : glyph.role.isComment = true) (silent : header = [] → glyph.role ≠ .commentClose)
      (further : Scans header rest whole) : Scans header (glyph :: rest) whole
  | comment {text : Text} (unclosed : ¬ ['*', '/'] <:+: text) (start : Location)
      {rest : List Glyph} {whole : Segmentation} (further : Scans [] rest whole) :
      Scans [] (Glyph.blockComment start text ++ rest) (whole.cons (.comment text start))
  | extend {header rest : List Glyph} {glyph : Glyph} {whole : Segmentation}
      (spoken : glyph.role.isComment = false) (plain : ¬ glyph.Delimits)
      (further : Scans (extend ⟨header, .surface⟩ glyph).header rest whole) :
      Scans header (glyph :: rest) whole
  | blankStatement {rest : List Glyph} {glyph : Glyph} {whole : Segmentation}
      (ends : glyph.IsCode ';') (further : Scans [] rest whole) : Scans [] (glyph :: rest) whole
  | statement {header rest : List Glyph} {glyph : Glyph} {whole : Segmentation}
      (ends : glyph.IsCode ';') (begun : header ≠ []) (further : Scans [] rest whole) :
      Scans header (glyph :: rest) (whole.cons (.statement (headerText ⟨header, .surface⟩)
        (headerLocation ⟨header, .surface⟩ glyph.location)))
  | blankBlock {header rest : List Glyph} {opening closing : Glyph} {inner : Body}
      {whole : Segmentation} (opens : opening.IsCode '{') (closes : closing.IsCode '}')
      (closed : inner.text.Closed) (blank : Text.allBlank inner.text = true)
      (further : Scans [] rest whole) :
      Scans header (opening :: (inner.glyphs ++ closing :: rest)) whole
  | block {header rest : List Glyph} {opening closing : Glyph} {inner : Body}
      {whole : Segmentation} (opens : opening.IsCode '{') (closes : closing.IsCode '}')
      (closed : inner.text.Closed) (solid : Text.allBlank inner.text = false)
      (further : Scans [] rest whole) :
      Scans header (opening :: (inner.glyphs ++ closing :: rest))
        (whole.cons (.block (headerText ⟨header, .surface⟩)
          (headerLocation ⟨header, .surface⟩ opening.location) inner))
  | unclosed {header rest : List Glyph} {opening : Glyph} (opens : opening.IsCode '{')
      (stays : Glyph.openAfter 0 rest ≠ none) :
      Scans header (opening :: rest) (finish ⟨header, .block opening.location 0 []⟩)
  | unexpected {header rest : List Glyph} {closing : Glyph} (closes : closing.IsCode '}') :
      Scans header (closing :: rest)
        ⟨[], some (unbalanced "unexpected `\x7d`".toList closing.location)⟩

private theorem scans_block (header : List Glyph) {opening : Glyph} (opens : opening.IsCode '{')
    {text : Text}
    (following : ∀ (rest : Text) (here : Location), rest.length ≤ text.length →
      Scans [] (Glyph.list (.code false) here rest)
        (empty.segmentation (Glyph.list (.code false) here rest))) :
    Scans header (opening :: Glyph.list (.code false) (opening.location.advance '{') text)
      (segmentation ⟨header, .block opening.location 0 []⟩
        (Glyph.list (.code false) (opening.location.advance '{') text)) := by
  rcases segmentation_block header opening.location text (.code false)
      (opening.location.advance '{') 0 [] with
    ⟨inner, rest, split, balanced, ⟨afterColon, settled⟩, whole⟩ | ⟨stays, whole⟩
  · have shorter : rest.length ≤ text.length := by
      rw [split, List.length_append, List.length_cons]
      omega
    have further := following rest
      ((opening.location.advance '{').advanceOver (inner ++ ['}'])) shorter
    have closed : Text.Closed inner := ⟨balanced, afterColon, settled⟩
    let body : Body := ⟨inner, opening.location.advance '{'⟩
    subst split
    rw [whole, Glyph.list_closing settled, List.append_nil]
    unfold endBlock
    split
    · rename_i blank
      have unspoken : Text.allBlank inner = true := by
        simpa [Text.allBlank] using blank
      exact @Scans.blankBlock _ _ _ _ body _ opens ⟨rfl, rfl⟩ closed unspoken further
    · rename_i solid
      have spoken : Text.allBlank inner = false := by
        simpa [Text.allBlank] using solid
      rw [List.reverse_reverse]
      exact @Scans.block _ _ _ _ body _ opens ⟨rfl, rfl⟩ closed spoken further
  · rw [whole]
    refine .unclosed opens ?_
    rw [Glyph.openAfter_list]
    exact stays

private theorem Scans.asides {header glyphs rest : List Glyph} {whole : Segmentation}
    (comments : ∀ glyph ∈ glyphs, glyph.role.isComment = true)
    (silent : header = [] → ∀ glyph ∈ glyphs, glyph.role ≠ .commentClose)
    (further : Scans header rest whole) : Scans header (glyphs ++ rest) whole := by
  induction glyphs with
  | nil => exact further
  | cons glyph others ih =>
      refine .aside (comments glyph (List.mem_cons_self ..))
        (fun bare => silent bare glyph (List.mem_cons_self ..)) ?_
      exact ih (fun other present => comments other (List.mem_cons_of_mem _ present))
        fun bare other present => silent bare other (List.mem_cons_of_mem _ present)

private theorem scans_comment (header : List Glyph) (afterColon : Bool) (here : Location)
    (text : Text) (following : ∀ (header : List Glyph) (rest : Text) (there : Location),
      rest.length ≤ text.length → Scans header (Glyph.list (.code false) there rest)
        (segmentation ⟨header, .surface⟩ (Glyph.list (.code false) there rest))) :
    Scans header (Glyph.list (.code afterColon) here ('/' :: '*' :: text))
      (segmentation ⟨header, .surface⟩
        (Glyph.list (.code afterColon) here ('/' :: '*' :: text))) := by
  rcases text.exists_close_or_unclosed with ⟨inner, rest, rfl, unclosed⟩ | unclosed
  · have fewer : rest.length ≤ (inner ++ '*' :: '/' :: rest).length := by
      rw [List.length_append, List.length_cons, List.length_cons]
      omega
    rw [Glyph.list_blockComment_append unclosed]
    by_cases bare : header = []
    · subst bare
      have run : read ⟨[], .surface⟩ (Glyph.blockComment here inner) =
          some ([.comment inner here], ⟨[], .surface⟩) := read_blockComment unclosed here
      rw [segmentation_append run]
      exact .comment unclosed here (following [] rest _ fewer)
    · rw [segmentation_append (read_blockComment_within unclosed here bare)]
      exact .asides (fun _ present => Glyph.isComment_of_mem_blockComment unclosed present)
        (fun empty => absurd empty bare) (following header rest _ fewer)
  · have glyphs : Glyph.list (.code afterColon) here ('/' :: '*' :: text) =
        ⟨'/', .commentOpen, here⟩ :: ⟨'*', .commentMark, here.advance '/'⟩ ::
          Glyph.list .comment (here.advanceOver "/*".toList) text := rfl
    have run := read_comment unclosed header here (here.advanceOver "/*".toList)
    have whole : segmentation ⟨header, .surface⟩
        (Glyph.list (.code afterColon) here ('/' :: '*' :: text)) = finish ⟨header, .surface⟩ :=
      segmentation_of_read run
    have inside := Glyph.role_of_mem_comment unclosed (here.advanceOver "/*".toList)
    rw [whole, glyphs]
    refine .aside rfl (fun _ => by simp) (.aside rfl (fun _ => by simp) ?_)
    rw [← List.append_nil (Glyph.list _ _ _)]
    refine .asides ?_ ?_ (.finish header)
    · intro glyph present
      rw [inside glyph present]
      rfl
    · intro _ glyph present
      rw [inside glyph present]
      simp

private theorem scans_segmentation (bound : Nat) : ∀ (text : Text), text.length ≤ bound →
    ∀ (mode : Mode) (here : Location) (header : List Glyph), Fits ⟨header, .surface⟩ mode →
      Scans header (Glyph.list mode here text)
        (segmentation ⟨header, .surface⟩ (Glyph.list mode here text)) := by
  -- Comments and blocks are passed at one go, so the induction is on a bound for the length.
  induction bound with
  | zero =>
      intro text short mode here header _
      obtain rfl := List.eq_nil_of_length_eq_zero (Nat.le_zero.mp short)
      exact .finish header
  | succ bound ih =>
      intro text short mode here header fits
      cases text with
      | nil => exact .finish header
      | cons member rest =>
          have shorter : rest.length ≤ bound := Nat.le_of_succ_le_succ short
          have settled : ∀ (header : List Glyph) (others : Text) (there : Location),
              others.length ≤ rest.length →
              Scans header (Glyph.list (.code false) there others)
                (segmentation ⟨header, .surface⟩ (Glyph.list (.code false) there others)) :=
            fun header others there fewer =>
              ih others (Nat.le_trans fewer shorter) _ there header ⟨id, fun _ => rfl⟩
          by_cases opens : (mode.step member rest.head?).1 = .commentOpen
          · obtain ⟨⟨afterColon, rfl⟩, rfl, next⟩ := Mode.step_of_commentOpen opens
            obtain ⟨others, rfl⟩ := List.head?_eq_some_iff.mp next
            refine scans_comment header afterColon here others fun header' more there fewer => ?_
            exact settled header' more there (Nat.le_succ_of_le fewer)
          · have kept := step_fits here member rest.head? fits
            have stepped := stepsOutside_surface header ⟨member, (mode.step member rest.head?).1, here⟩
            rw [Glyph.list, segmentation_cons]
            generalize progressed : step ⟨header, .surface⟩
              ⟨member, (mode.step member rest.head?).1, here⟩ = progress at kept stepped
            cases stepped with
            | aside comment _ _ stays =>
                obtain rfl := stays rfl opens
                refine .aside comment (fun _ => ?_) (ih rest shorter _ _ header kept.1)
                exact Mode.step_ne_commentClose fits.1 member rest.head?
            | comment _ _ _ _ inside => exact absurd rfl inside
            | extend spoken plain _ =>
                rw [extend_surface] at kept ⊢
                exact .extend spoken plain (ih rest shorter _ _ _ kept.1)
            | statement ends =>
                by_cases bare : header = []
                · subst bare
                  exact .blankStatement ends (ih rest shorter _ _ [] kept.1)
                · have held : header.isEmpty = false := List.isEmpty_eq_false_iff.mpr bare
                  simp only [endStatement, held] at kept ⊢
                  exact .statement ends bare (ih rest shorter _ _ [] kept.1)
            | block opens =>
                obtain ⟨_, _, following⟩ := Mode.step_of_brace opens.1 (Or.inl opens.2)
                have brace : member = '{' := opens.2
                subst brace
                rw [following] at opens ⊢
                exact scans_block header opens fun others there fewer =>
                  settled [] others there fewer
            | unexpected closes => exact .unexpected closes

private theorem Scans.contained_of_mem {header : List Glyph} {glyphs : List Glyph}
    {whole : Segmentation} (scan : Scans header glyphs whole) :
    ∀ segment ∈ whole.segments, segment.Contained := by
  induction scan with
  | finish header =>
      intro segment present
      simp only [Assembly.finish] at present
      split at present
      · cases present
      · obtain rfl := List.mem_singleton.mp present
        exact True.intro
  | aside _ _ _ ih => exact ih
  | comment unclosed _ _ ih => exact List.forall_mem_cons.mpr ⟨unclosed, ih⟩
  | extend _ _ _ ih => exact ih
  | blankStatement _ _ ih => exact ih
  | statement _ _ _ ih => exact List.forall_mem_cons.mpr ⟨True.intro, ih⟩
  | blankBlock _ _ _ _ _ ih => exact ih
  | block _ _ closed _ _ ih => exact List.forall_mem_cons.mpr ⟨closed, ih⟩
  | unclosed _ _ => exact fun _ present => by cases present
  | unexpected _ => exact fun _ present => by cases present

end Assembly

theorem Body.scans (body : Body) : Assembly.Scans [] body.glyphs body.segmentation :=
  Assembly.scans_segmentation body.text.length body.text (Nat.le_refl _) (.code false) body.origin
    [] Assembly.fits_empty

theorem Body.unclosed_of_mem (body : Body) {comment : Text} {location : Location}
    (present : .comment comment location ∈ body.segmentation.segments) :
    ¬ ['*', '/'] <:+: comment := body.scans.contained_of_mem _ present

/-- One body has a block whose body is the other. -/
def Body.HasBlock (outer inner : Body) : Prop :=
  ∃ header location, .block header location inner ∈ outer.segmentation.segments

theorem Body.HasBlock.closed {outer inner : Body} (found : outer.HasBlock inner) :
    inner.text.Closed := by
  obtain ⟨header, location, present⟩ := found
  exact outer.scans.contained_of_mem _ present

/-- However deep a body stands inside another one, it is a closed text. -/
theorem closed_of_transGen_hasBlock {outer inner : Body}
    (inside : Relation.TransGen Body.HasBlock outer inner) : inner.text.Closed := by
  cases inside with
  | single found => exact found.closed
  | tail _ found => exact found.closed

end NestedCss
