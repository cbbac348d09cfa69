import Mathlib.Data.List.TakeWhile
import NestedCss.Proofs.Pieces

set_option autoImplicit false

/-! Places in a text. At a place outside strings and comments a statement or a header is
underway or not, which the text before the place tells, and the innermost body around the
place goes from the last brace before it that is still open to the first brace after it
that closes no block of its own. A text with a place is read up to it either outside every
block, or inside the outermost block around the place, whose body has the same place. -/

namespace NestedCss

/-- Whether a statement or a header is underway after a character: delimiters end it, and
whatever is neither blank nor in a comment begins it. -/
def underwayAfter (role : Role) (member : Char) (underway : Bool) : Bool :=
  if role = .code ∧ member ∈ [';', '{', '}'] then false
  else underway || (!role.isComment && !isBlank member)

def Mode.underway (mode : Mode) (before : Bool) (text : Text) : Bool :=
  mode.fold (fun read => underwayAfter read.1) before text

/-- The text of the statement or the header that is underway after a character: delimiters end
it, and comments are no part of it. -/
def headingAfter (role : Role) (member : Char) (held : Text) : Text :=
  if role = .code ∧ member ∈ [';', '{', '}'] then []
  else if role.isComment then held
  else held ++ [member]

def Mode.heading (mode : Mode) (held text : Text) : Text :=
  mode.fold (fun read => headingAfter read.1) held text

/-- A place where a statement or a block may begin: the start of a text, or directly after
a delimiter that is neither quoted nor in a comment. -/
inductive Text.AtBoundary : Text → Prop
  | start : AtBoundary []
  | delimiter {before : Text} {member : Char}
      (code : ∃ afterColon, (Mode.code false).after before = .code afterColon)
      (delimits : member ∈ [';', '{', '}']) : AtBoundary (before ++ [member])

/-- The body of the innermost block around a place is the one part before and the other
after the place. -/
structure Text.InnermostBody (before after first last : Text) : Prop where
  within : ∃ outside beyond, before = outside ++ '{' :: first ∧ after = last ++ '}' :: beyond ∧
    ∃ afterColon, (Mode.code false).after outside = .code afterColon
  balanced : (Mode.code false).openAfter 0 first = some 0
  closed : (first ++ last).Closed

/-! ### Modes -/

namespace Mode

theorem underway_cons (mode : Mode) (before : Bool) (member : Char) (rest : Text) :
    mode.underway before (member :: rest) =
      (mode.step member rest.head?).2.underway
        (underwayAfter (mode.step member rest.head?).1 member before) rest := rfl

theorem underway_opening {outside : Text} {afterColon : Bool}
    (code : (Mode.code false).after outside = .code afterColon) (first : Text) :
    (Mode.code false).underway false (outside ++ '{' :: first) =
      (Mode.code false).underway false first :=
  fold_delimiter (by decide) (fun _ => rfl) code first

theorem underway_of_allBlank (mode : Mode) (text : Text) (blank : text.allBlank = true) :
    mode.underway false text = false := by
  induction text generalizing mode with
  | nil => rfl
  | cons member rest ih =>
      obtain ⟨first, others⟩ : isBlank member = true ∧ Text.allBlank rest = true := by
        simpa [Text.allBlank] using blank
      have idle : ∀ role : Role, underwayAfter role member false = false := by
        intro role
        simp [underwayAfter, first]
      rw [underway_cons, idle]
      exact ih _ others

theorem depthAfter?_of_isBlank {member : Char} (blank : isBlank member = true) (role : Role)
    (depth : Nat) : depthAfter? role member depth = some depth := by
  apply Assembly.depthAfter?_of_ne
  rintro _
  constructor
  · rintro rfl
    exact absurd blank (by decide)
  · rintro rfl
    exact absurd blank (by decide)

theorem openAfter_of_allBlank (mode : Mode) (depth : Nat) (text : Text)
    (blank : text.allBlank = true) : mode.openAfter depth text = some depth := by
  induction text generalizing mode with
  | nil => rfl
  | cons member rest ih =>
      obtain ⟨first, others⟩ : isBlank member = true ∧ Text.allBlank rest = true := by
        simpa [Text.allBlank] using blank
      rw [openAfter, depthAfter?_of_isBlank first]
      exact ih _ others

/-- Two modes from which a text is read alike: only its first character could tell. -/
def AgreeOn (first second : Mode) : Text → Prop
  | [] => True
  | member :: rest => first.step member rest.head? = second.step member rest.head?

theorem AgreeOn.list_eq {first second : Mode} {text : Text} (agree : first.AgreeOn second text)
    (here : Location) : Glyph.list first here text = Glyph.list second here text := by
  cases text with
  | nil => rfl
  | cons member rest =>
      have same : first.step member rest.head? = second.step member rest.head? := agree
      rw [Glyph.list, Glyph.list, same]

theorem eq_colon_of_step {mode : Mode} {member : Char} {next? : Option Char}
    (colon : (mode.step member next?).2 = .code true) : member = ':' := by
  cases mode with
  | code afterColon =>
      simp only [step, stepCode] at colon
      split at colon
      · cases colon
      · split at colon
        · cases colon
        · split at colon
          · cases colon
          · injection colon with same
            exact eq_of_beq same
  | quoted quote =>
      simp only [step] at colon
      split at colon
      · cases colon
      · split at colon <;> cases colon
  | comment =>
      simp only [step] at colon
      split at colon <;> cases colon
  | remark =>
      simp only [step] at colon
      split at colon <;> cases colon
  | escaped quote => cases colon
  | commentOpening => cases colon
  | commentClosing => cases colon
  | remarkOpening => cases colon

theorem getLast?_of_afterColon {mode : Mode} {text : Text} (some : text ≠ [])
    (settled : mode.after text = .code true) : text.getLast? = .some ':' := by
  induction text generalizing mode with
  | nil => exact absurd rfl some
  | cons member rest ih =>
      rw [after] at settled
      cases rest with
      | nil => rw [List.getLast?_singleton, eq_colon_of_step settled]
      | cons second others =>
          rw [List.getLast?_cons_cons]
          exact ih (List.cons_ne_nil _ _) settled

theorem unaffected_of_settled {mode : Mode} {text : Text} {afterColon : Bool}
    (settled : mode.after text = .code afterColon) (apart : text.getLast? ≠ some '/')
    (next? : Option Char) : mode.Unaffected next? text := by
  induction text generalizing mode with
  | nil => exact True.intro
  | cons member rest ih =>
      rw [after] at settled
      cases rest with
      | nil =>
          refine step_of_settled next? settled fun _ slash => ?_
          rw [List.getLast?_singleton, slash] at apart
          exact apart rfl
      | cons second others =>
          rw [List.getLast?_cons_cons] at apart
          exact ih settled apart

theorem unaffected_of_idle {text : Text} : ∀ {mode : Mode} {held afterColon : Bool},
    mode.after text = .code afterColon → mode.underway held text = false →
      ∀ next?, mode.Unaffected next? text := by
  induction text with
  | nil => exact fun _ _ _ => True.intro
  | cons member rest ih =>
      intro mode held afterColon settled idle next?
      cases rest with
      | nil =>
          refine step_of_settled next? settled ?_
          -- A slash outside comments would be underway itself.
          rintro role rfl
          have solid : isBlank '/' = false := by decide
          rw [underway, fold, fold, List.head?_nil, role] at idle
          simp [underwayAfter, Role.isComment, solid] at idle
      | cons second others => exact ih settled idle next?

theorem openAfter_closing {mode : Mode} {depth : Nat} {last : Text} {afterColon : Bool}
    (balanced : mode.openAfter depth last = some 0) (settled : mode.after last = .code afterColon)
    (beyond : Text) : mode.openAfter depth (last ++ '}' :: beyond) = none := by
  rw [openAfter_append (unaffected_of_plain mode last (by simp) (by simp)), balanced, settled]
  rfl

end Mode

/-! ### The header that is held -/

theorem Mode.heading_cons (mode : Mode) (held : Text) (member : Char) (rest : Text) :
    mode.heading held (member :: rest) =
      (mode.step member rest.head?).2.heading
        (headingAfter (mode.step member rest.head?).1 member held) rest := rfl

theorem Mode.heading_opening {outside : Text} {afterColon : Bool}
    (code : (Mode.code false).after outside = .code afterColon) (first : Text) :
    (Mode.code false).heading [] (outside ++ '{' :: first) =
      (Mode.code false).heading [] first :=
  fold_delimiter (by decide) (fun _ => rfl) code first

theorem Mode.mem_of_mem_heading {mode : Mode} {held text : Text} {member : Char}
    (present : member ∈ mode.heading held text) : member ∈ held ∨ member ∈ text := by
  induction text generalizing mode held with
  | nil => exact Or.inl present
  | cons first rest ih =>
      rw [heading_cons] at present
      rcases ih present with begun | later
      · unfold headingAfter at begun
        split at begun
        · cases begun
        · split at begun
          · exact Or.inl begun
          · rw [List.mem_append, List.mem_singleton] at begun
            rcases begun with inside | rfl
            · exact Or.inl inside
            · exact Or.inr (List.mem_cons_self ..)
      · exact Or.inr (List.mem_cons_of_mem _ later)

theorem Mode.underway_eq (mode : Mode) (held text : Text) :
    mode.underway (!held.allBlank) text = !(mode.heading held text).allBlank := by
  induction text generalizing mode held with
  | nil => rfl
  | cons member rest ih =>
      have stepped : ∀ role : Role, underwayAfter role member (!held.allBlank) =
          !(headingAfter role member held).allBlank := by
        intro role
        unfold underwayAfter headingAfter
        split
        · rfl
        · cases role.isComment <;> simp [Text.allBlank]
      rw [underway_cons, heading_cons, stepped]
      exact ih _ _

theorem headingAfter_of_isComment {role : Role} (comment : role.isComment = true) (member : Char)
    (held : Text) : headingAfter role member held = held := by
  cases role <;> simp_all [headingAfter, Role.isComment]

theorem Glyph.headingAfter_of_delimits {glyph : Glyph} (delimits : glyph.Delimits)
    (held : Text) : headingAfter glyph.role glyph.member held = [] := by
  rcases delimits with ⟨code, same⟩ | ⟨code, same⟩ | ⟨code, same⟩ <;>
    simp [headingAfter, code, same]

theorem Glyph.headingAfter_of_spoken {glyph : Glyph} (spoken : glyph.role.isComment = false)
    (plain : ¬ glyph.Delimits) (held : Text) :
    headingAfter glyph.role glyph.member held = held ++ [glyph.member] := by
  have other : ¬ (glyph.role = .code ∧ glyph.member ∈ [';', '{', '}']) := by
    rintro ⟨code, delimits⟩
    simp only [List.mem_cons, List.not_mem_nil, or_false] at delimits
    rcases delimits with same | same | same
    · exact plain (Or.inl ⟨code, same⟩)
    · exact plain (Or.inr (Or.inl ⟨code, same⟩))
    · exact plain (Or.inr (Or.inr ⟨code, same⟩))
  rw [headingAfter, if_neg other, spoken, if_neg Bool.false_ne_true]

def Assembly.written (pending : Assembly) : Text := pending.header.reverse.map Glyph.member

def Assembly.Carries (pending : Assembly) (held : Text) : Prop :=
  pending.level = 0 → pending.written = held.trimStart

def Progress.Carries (progress : Progress) (held : Text) : Prop :=
  match progress with
  | .reading pending => pending.Carries held
  | .complete _ => held.trimStart = []
  | .rejected _ => True

namespace Assembly

theorem carries_empty {held : Text} (blank : held.trimStart = []) : empty.Carries held :=
  fun _ => blank.symm

theorem written_eq_nil_iff (pending : Assembly) : pending.written = [] ↔ pending.header = [] := by
  rw [written, List.map_eq_nil_iff, List.reverse_eq_nil_iff]

theorem extend_carries {pending : Assembly} {held : Text} (outside : pending.level = 0)
    (carries : pending.Carries held) (glyph : Glyph) :
    (pending.extend glyph).Carries (held ++ [glyph.member]) := by
  intro _
  have known : pending.written = held.dropWhile isBlank := carries outside
  rw [Text.trimStart, List.dropWhile_append, ← known]
  unfold extend
  cases bare : pending.header with
  | nil =>
      have nothing := pending.written_eq_nil_iff.mpr bare
      cases blank : isBlank glyph.member with
      | true => simp [nothing, blank]
      | false => simp [written, bare, blank]
  | cons first others => simp [written, bare]

theorem endStatement_carries (pending : Assembly) (here : Location) :
    (pending.endStatement here).Carries [] := by
  unfold endStatement
  split
  · exact carries_empty rfl
  · exact rfl

theorem endBlock_carries (pending : Assembly) (opening : Location) (text : Text) :
    (pending.endBlock opening text).Carries [] := by
  unfold endBlock
  split
  · exact carries_empty rfl
  · exact rfl

theorem step_carries {pending : Assembly} {mode : Mode} {held : Text} (fits : pending.Fits mode)
    (carries : pending.Carries held) (here : Location) (member : Char) (next? : Option Char) :
    (pending.step ⟨member, (mode.step member next?).1, here⟩).Carries
      (headingAfter (mode.step member next?).1 member held) := by
  by_cases outside : pending.level = 0
  · have stepped := stepsOutside_step fits outside here member next?
    generalize pending.step ⟨member, (mode.step member next?).1, here⟩ = progress at stepped ⊢
    cases stepped with
    | aside comment still same _ =>
        rw [headingAfter_of_isComment comment]
        intro _
        rw [written, same]
        exact carries outside
    | comment text start comment bare _ =>
        rw [headingAfter_of_isComment comment]
        exact (carries outside).symm.trans (pending.written_eq_nil_iff.mpr bare)
    | extend spoken plain still =>
        rw [Glyph.headingAfter_of_spoken spoken plain]
        exact extend_carries outside carries _
    | statement ends =>
        rw [Glyph.headingAfter_of_delimits (Or.inl ends)]
        exact endStatement_carries pending _
    | block opens => exact fun impossible => by cases impossible
    | unexpected closes => exact True.intro
  · obtain ⟨header, enclosure⟩ := pending
    cases enclosure with
    | surface => exact absurd rfl outside
    | comment start text => exact absurd rfl outside
    | block opening depth taken =>
        rcases step_block_cases header opening depth taken
          ⟨member, (mode.step member next?).1, here⟩ with
          ⟨code, brace, _, stepped⟩ | ⟨inner, _, stepped⟩
        · rw [stepped, Glyph.headingAfter_of_delimits (Or.inr (Or.inr ⟨code, brace⟩))]
          exact endBlock_carries _ opening taken
        · rw [stepped]
          exact fun impossible => by cases impossible

theorem read_carries {text : Text} : ∀ {pending last : Assembly} {mode : Mode} {held : Text}
    {here : Location} {segments : List Segment}, pending.Fits mode → pending.Carries held →
    pending.read (Glyph.list mode here text) = some (segments, last) →
    last.Carries (mode.heading held text) := by
  induction text with
  | nil =>
      intro pending last mode held here segments _ carries run
      injection run with same
      injection same with _ same
      exact same ▸ carries
  | cons member rest ih =>
      intro pending last mode held here segments fits carries run
      have fitting := step_fits here member rest.head? fits
      have carrying := step_carries fits carries here member rest.head?
      rw [Glyph.list_cons] at run
      rw [Mode.heading_cons]
      rcases read_cons_cases run with ⟨following, stepped, tail⟩ | ⟨_, _, stepped, tail, _⟩
      · rw [stepped] at fitting carrying
        exact ih fitting.1 carrying tail
      · rw [stepped] at fitting carrying
        exact ih fitting.1 (carries_empty carrying) tail

theorem read_underway {text : Text} {last : Assembly} {here : Location} {segments : List Segment}
    (run : empty.read (Glyph.list (.code false) here text) = some (segments, last))
    (outside : last.level = 0) :
    (Mode.code false).underway false text = true ↔ last.header ≠ [] := by
  have carries := read_carries fits_empty (@carries_empty [] rfl) run outside
  have told : (Mode.code false).underway false text =
      !((Mode.code false).heading [] text).allBlank := Mode.underway_eq _ [] text
  rw [Ne, ← last.written_eq_nil_iff, carries, told, Text.trimStart, List.dropWhile_eq_nil_iff,
    Bool.not_eq_true', Text.allBlank, ← Bool.not_eq_true, List.all_eq_true]

/-! ### The outermost block around a place -/

theorem step_to_block {pending : Assembly} {mode : Mode} (fits : pending.Fits mode)
    {here : Location} {member : Char} {next? : Option Char} {header : List Glyph}
    {opening : Location} {depth : Nat} {taken : Text}
    (stepped : pending.step ⟨member, (mode.step member next?).1, here⟩ =
      .reading ⟨header, .block opening depth taken⟩) :
    (∃ outer before, pending = ⟨header, .block opening outer before⟩ ∧ taken = member :: before ∧
        depthAfter? (mode.step member next?).1 member outer = some depth) ∨
      ((mode.step member next?).1 = .code ∧ member = '{' ∧ depth = 0 ∧ taken = []) := by
  by_cases outside : pending.level = 0
  · have moves := stepsOutside_step fits outside here member next?
    generalize pending.step ⟨member, (mode.step member next?).1, here⟩ = progress at moves stepped
    cases moves with
    | aside comment still same _ =>
        injection stepped with same
        subst same
        cases still
    | comment text start comment bare _ => cases stepped
    | extend spoken plain still =>
        injection stepped with same
        rw [same] at still
        cases still
    | statement ends =>
        unfold endStatement at stepped
        split at stepped <;> cases stepped
    | block opens =>
        injection stepped with same
        injection same with _ same
        injection same with _ shallow bare
        exact Or.inr ⟨opens.1, opens.2, shallow.symm, bare.symm⟩
    | unexpected closes => cases stepped
  · obtain ⟨written, enclosure⟩ := pending
    cases enclosure with
    | surface => exact absurd rfl outside
    | comment start text => exact absurd rfl outside
    | block begun outer before =>
        rcases step_block_cases written begun outer before
          ⟨member, (mode.step member next?).1, here⟩ with
          ⟨_, _, _, closing⟩ | ⟨inner, counted, within⟩
        · rw [closing] at stepped
          unfold endBlock at stepped
          split at stepped <;> cases stepped
        · rw [within] at stepped
          injection stepped with same
          injection same with sameHeader sameBlock
          injection sameBlock with sameOpening sameDepth sameText
          subst sameHeader sameOpening sameDepth sameText
          exact Or.inl ⟨outer, before, rfl, rfl, counted⟩

/-- A text that is read to a place inside a block is read there from the outset, or the
outermost block around the place is opened in it. -/
theorem read_to_block {text : Text} : ∀ {pending : Assembly} {mode : Mode} {here : Location}
    {segments : List Segment} {header : List Glyph} {opening : Location} {depth : Nat}
    {taken : Text}, pending.Fits mode →
    pending.read (Glyph.list mode here text) =
      some (segments, ⟨header, .block opening depth taken⟩) →
    (∃ outer before, pending = ⟨header, .block opening outer before⟩ ∧
        taken = text.reverse ++ before ∧ mode.openAfter outer text = some depth) ∨
      ∃ outside first, text = outside ++ '{' :: first ∧ taken = first.reverse ∧
        (∃ afterColon, mode.after outside = .code afterColon) ∧
        (Mode.code false).openAfter 0 first = some depth := by
  induction text with
  | nil =>
      intro pending mode here segments header opening depth taken _ run
      injection run with same
      injection same with _ same
      exact Or.inl ⟨depth, taken, same, rfl, rfl⟩
  | cons member rest ih =>
      intro pending mode here segments header opening depth taken fits run
      have fitting := step_fits here member rest.head? fits
      -- A block that is opened further on is opened in the longer text as well.
      have further : ∀ outside first, rest = outside ++ '{' :: first →
          (∃ afterColon, (mode.step member rest.head?).2.after outside = .code afterColon) →
          member :: rest = (member :: outside) ++ '{' :: first ∧
            ∃ afterColon, mode.after (member :: outside) = .code afterColon := by
        rintro outside first rfl settled
        have seam : mode.step member (outside ++ '{' :: first).head? =
            mode.step member outside.head? :=
          Mode.step_head?_append (Mode.unaffected_of_plain mode (member :: outside) (by simp)
            (by simp))
        rw [seam] at settled
        exact ⟨rfl, settled⟩
      rw [Glyph.list, read] at run
      cases outcome : pending.step ⟨member, (mode.step member rest.head?).1, here⟩ with
      | reading following =>
          rw [outcome] at fitting run
          rcases ih fitting.1 run with ⟨outer, before, same, spelled, counted⟩ |
            ⟨outside, first, split, spelled, settled, counted⟩
          · subst same
            rcases step_to_block fits outcome with ⟨outermost, earlier, same, grown, stepped⟩ |
              ⟨code, brace, shallow, bare⟩
            · refine Or.inl ⟨outermost, earlier, same, ?_, ?_⟩
              · rw [spelled, grown, List.reverse_cons, List.append_assoc]
                rfl
              · rw [Mode.openAfter, stepped]
                exact counted
            · obtain ⟨afterColon, settled, stepped⟩ := Mode.step_of_brace code (Or.inl brace)
              subst brace shallow bare
              rw [stepped] at counted
              rw [List.append_nil] at spelled
              exact Or.inr ⟨[], rest, rfl, spelled, ⟨afterColon, settled⟩, counted⟩
          · obtain ⟨same, settledToo⟩ := further outside first split settled
            exact Or.inr ⟨member :: outside, first, same, spelled, settledToo, counted⟩
      | complete segment =>
          rw [outcome] at fitting run
          obtain ⟨⟨others, final⟩, tail, same⟩ := Option.map_eq_some_iff.mp run
          injection same with _ same
          subst same
          rcases ih fitting.1 tail with ⟨outer, before, same, _, _⟩ |
            ⟨outside, first, split, spelled, settled, counted⟩
          · cases same
          · obtain ⟨same, settledToo⟩ := further outside first split settled
            exact Or.inr ⟨member :: outside, first, same, spelled, settledToo, counted⟩
      | rejected fault =>
          rw [outcome] at run
          cases run

theorem segmentation_closing (header : List Glyph) (opening : Location) {mode : Mode}
    {depth : Nat} {last : Text} {afterColon : Bool} (taken : Text)
    (balanced : mode.openAfter depth last = some 0) (settled : mode.after last = .code afterColon)
    (here : Location) (beyond : Text) :
    segmentation ⟨header, .block opening depth taken⟩
        (Glyph.list mode here (last ++ '}' :: beyond)) =
      (endBlock ⟨header, .surface⟩ opening (last.reverse ++ taken)).followedBy
        (Glyph.list (.code false) (here.advanceOver (last ++ ['}'])) beyond) := by
  rw [Glyph.list_closing settled,
    segmentation_append (read_block header opening last mode here depth taken balanced),
    segmentation_cons]
  rfl

end Assembly
end NestedCss
