import NestedCss.Proofs.Calls

set_option autoImplicit false

/-! Where the parts of a stylesheet stand. A statement and a body stand at an index of
the source, and their locations are those that the characters before the index lead to.
Bodies are read again wherever their blocks are interpreted; what is met then stands in
the source all the same, because a body is read on its own as it is read in the source.
So all that a tree holds and all that a failure blames is found at its location. -/

namespace NestedCss

namespace Glyph

def Begins (glyph : Glyph) : Prop :=
  glyph.role.isComment = false ∧ isBlank glyph.member = false

theorem not_begins_of_isComment {glyph : Glyph} (comment : glyph.role.isComment = true) :
    ¬ glyph.Begins := by
  rintro ⟨spoken, _⟩
  rw [comment] at spoken
  cases spoken

private theorem not_delimits_of_isComment {glyph : Glyph} (comment : glyph.role.isComment = true) :
    ¬ glyph.Delimits := by
  rintro (⟨code, _⟩ | ⟨code, _⟩ | ⟨code, _⟩) <;> rw [code] at comment <;> cases comment

/-- The text of some glyphs without the comments among them and without blanks at its
ends. -/
def spokenText (glyphs : List Glyph) : Text :=
  Text.trim ((glyphs.filter fun glyph => !glyph.role.isComment).map Glyph.member)

/-- The last delimiter of some glyphs ends the first part, only blanks and comments
follow in the second, and the third part begins what comes next. -/
structure Heading (before lead written : List Glyph) : Prop where
  opened : ∀ last ∈ before.getLast?, last.Delimits
  idle : ∀ glyph ∈ lead, ¬ glyph.Begins
  begins : ∀ first ∈ written.head?, first.Begins
  undivided : ∀ glyph ∈ written, ¬ glyph.Delimits

private theorem Heading.fresh {before : List Glyph}
    (opened : ∀ last ∈ before.getLast?, last.Delimits) :
    Heading before [] [] where
  opened := opened
  idle := fun _ present => absurd present (List.not_mem_nil)
  begins := fun _ present => by cases present
  undivided := fun _ present => absurd present (List.not_mem_nil)

private theorem Heading.idle_concat {before lead written : List Glyph} {glyph : Glyph}
    (heading : Heading before lead written) (quiet : ¬ glyph.Begins) :
    Heading before (lead ++ [glyph]) written :=
  { heading with
    idle := List.forall_mem_append.mpr ⟨heading.idle, List.forall_mem_singleton.mpr quiet⟩ }

private theorem Heading.written_concat {before lead written : List Glyph} {glyph : Glyph}
    (heading : Heading before lead written) (begun : written = [] → glyph.Begins)
    (plain : ¬ glyph.Delimits) : Heading before lead (written ++ [glyph]) := by
  refine { heading with
    begins := ?_
    undivided := List.forall_mem_append.mpr
      ⟨heading.undivided, List.forall_mem_singleton.mpr plain⟩ }
  intro first present
  cases written with
  | nil => exact Option.some.inj present ▸ begun rfl
  | cons other others => exact heading.begins first present

/-- A statement begins at an index of some glyphs and goes up to a delimiter or to their
end; it has this text, and this is the location of its first character. -/
inductive StatementAt (whole : List Glyph) : Nat → Text → Location → Prop
  | mk {before lead written after : List Glyph} {first : Glyph}
      (split : whole = before ++ lead ++ first :: written ++ after)
      (heading : Heading before lead (first :: written))
      (ended : ∀ next ∈ after.head?, next.IsCode ';' ∨ next.IsCode '}') :
      StatementAt whole (before ++ lead).length (spokenText (first :: written)) first.location

/-- A body stands at an index of some glyphs, directly after the opening brace of a block
with this header, and goes up to the closing brace. -/
inductive BodyAt (whole : List Glyph) : Nat → Text → Body → Prop
  | mk {before lead written after : List Glyph} {opening closing : Glyph} {body : Body}
      (split : whole = before ++ lead ++ written ++ opening :: (body.glyphs ++ closing :: after))
      (heading : Heading before lead written)
      (opens : opening.IsCode '{') (closes : closing.IsCode '}')
      (closed : body.text.Closed) (solid : Text.allBlank body.text = false) :
      BodyAt whole ((before ++ lead ++ written).length + 1) (spokenText written) body

inductive BraceAt (whole : List Glyph) : Nat → Location → Prop
  | unclosed {before after : List Glyph} {opening : Glyph}
      (split : whole = before ++ opening :: after) (balanced : openAfter 0 before = some 0)
      (opens : opening.IsCode '{') (stays : openAfter 0 after ≠ none) :
      BraceAt whole before.length opening.location
  | unexpected {before after : List Glyph} {closing : Glyph}
      (split : whole = before ++ closing :: after) (balanced : openAfter 0 before = some 0)
      (closes : closing.IsCode '}') : BraceAt whole before.length closing.location

/-! ### Indices and locations -/

private theorem location_of_split {mode : Mode} {here : Location} {text : Text}
    {before after : List Glyph}
    {glyph : Glyph} (split : Glyph.list mode here text = before ++ glyph :: after) :
    glyph.location = here.advanceOver (text.take before.length) := by
  induction text generalizing mode here before with
  | nil =>
      cases before with
      | nil => cases split
      | cons first others => cases split
  | cons member rest ih =>
      rw [Glyph.list] at split
      cases before with
      | nil =>
          injection split with same
          exact same ▸ rfl
      | cons first others =>
          injection split with _ further
          rw [ih further]
          rfl

variable {whole : List Glyph} {index : Nat}

theorem StatementAt.location_eq {source text : Text} {location : Location}
    (stands : StatementAt (Body.ofSource source).glyphs index text location) :
    location = Location.start.advanceOver (source.take index) := by
  cases stands with
  | mk split heading ended =>
      rw [List.append_assoc] at split
      exact location_of_split split

theorem BodyAt.origin_eq {source header : Text} {body : Body}
    (stands : BodyAt (Body.ofSource source).glyphs index header body) :
    body.origin = Location.start.advanceOver (source.take index) := by
  cases stands with
  | @mk before lead written after opening closing _ split heading opens closes closed solid =>
      obtain ⟨text, origin⟩ := body
      cases text with
      | nil => cases solid
      | cons member rest =>
          have begins : (Body.ofSource source).glyphs =
              (before ++ lead ++ written ++ [opening]) ++
                ⟨member, (Mode.step (.code false) member rest.head?).1, origin⟩ ::
                  (Glyph.list (Mode.step (.code false) member rest.head?).2 (origin.advance member)
                    rest ++ closing :: after) := by
            rw [split, List.append_assoc _ [opening]]
            rfl
          have placed := location_of_split begins
          rw [List.length_append, List.length_singleton] at placed
          exact placed

theorem BodyAt.closed {header : Text} {body : Body} (stands : BodyAt whole index header body) :
    body.text.Closed := by
  cases stands with
  | mk _ _ _ _ closed _ => exact closed

theorem BraceAt.location_eq {source : Text} {location : Location}
    (stands : BraceAt (Body.ofSource source).glyphs index location) :
    location = Location.start.advanceOver (source.take index) := by
  cases stands with
  | unclosed split _ _ _ => exact location_of_split split
  | unexpected split _ _ => exact location_of_split split

/-! ### Bodies inside bodies -/

private theorem Heading.enclosed {before lead written : List Glyph}
    (heading : Heading before lead written)
    (outside : List Glyph) {opening : Glyph} (opens : opening.IsCode '{') :
    Heading (outside ++ opening :: before) lead written := by
  refine { heading with opened := ?_ }
  intro last present
  rw [List.getLast?_append_of_ne_nil _ (List.cons_ne_nil _ _)] at present
  cases before with
  | nil =>
      obtain rfl := Option.some.inj present
      exact Or.inr (Or.inl opens)
  | cons first others =>
      rw [List.getLast?_cons_cons] at present
      exact heading.opened last present

private theorem BodyAt.exists_split {header : Text} {body : Body}
    (stands : BodyAt whole index header body) :
    ∃ outside opening closing after,
      whole = outside ++ opening :: (body.glyphs ++ closing :: after) ∧
        index = outside.length + 1 ∧ opening.IsCode '{' ∧ closing.IsCode '}' := by
  cases stands with
  | mk split _ opens closes _ _ => exact ⟨_, _, _, _, split, rfl, opens, closes⟩

theorem BodyAt.statementAt {header text : Text} {body : Body} {inner : Nat} {location : Location}
    (stands : BodyAt whole index header body) (within : StatementAt body.glyphs inner text location) :
    StatementAt whole (index + inner) text location := by
  obtain ⟨outside, opening, closing, after, split, rfl, opens, closes⟩ := stands.exists_split
  cases within with
  | @mk before idle spoken rest first splitToo heading ended =>
      have parts : whole = outside ++ opening :: before ++ idle ++ first :: spoken ++
          (rest ++ closing :: after) := by
        rw [split, splitToo]
        simp only [List.append_assoc, List.cons_append]
      have endedToo : ∀ next ∈ (rest ++ closing :: after).head?,
          next.IsCode ';' ∨ next.IsCode '}' := by
        intro next present
        cases rest with
        | nil =>
            obtain rfl := Option.some.inj present
            exact Or.inr closes
        | cons other others => exact ended next present
      have placed := StatementAt.mk parts (heading.enclosed outside opens) endedToo
      have same : (outside ++ opening :: before ++ idle).length =
          outside.length + 1 + (before ++ idle).length := by
        simp only [List.length_append, List.length_cons]
        omega
      exact same ▸ placed

theorem BodyAt.bodyAt {header heading : Text} {body below : Body} {inner : Nat}
    (stands : BodyAt whole index header body) (within : BodyAt body.glyphs inner heading below) :
    BodyAt whole (index + inner) heading below := by
  obtain ⟨outside, opening, closing, after, split, rfl, opens, closes⟩ := stands.exists_split
  cases within with
  | @mk before idle spoken rest first last _ splitToo heading opensToo closesToo closed solid =>
      have parts : whole = outside ++ opening :: before ++ idle ++ spoken ++
          first :: (below.glyphs ++ last :: (rest ++ closing :: after)) := by
        rw [split, splitToo]
        simp only [List.append_assoc, List.cons_append]
      have placed := BodyAt.mk parts (heading.enclosed outside opens) opensToo closesToo closed solid
      have same : (outside ++ opening :: before ++ idle ++ spoken).length + 1 =
          outside.length + 1 + ((before ++ idle ++ spoken).length + 1) := by
        simp only [List.length_append, List.length_cons]
        omega
      exact same ▸ placed

end Glyph

/-! ### Segments stand in their texts -/

def Segment.StandsIn (whole : List Glyph) : Segment → Prop
  | .statement text location => ∃ index, Glyph.StatementAt whole index text location
  | .block header _ body => ∃ index, Glyph.BodyAt whole index header body
  | .comment _ _ => True

/-- What is written behind a delimiter, and those of its glyphs that are held as a header,
latest first. -/
structure Glyph.Keeps (before lead written header : List Glyph) : Prop
    extends Glyph.Heading before lead written where
  held : header.reverse = written.filter fun glyph => !glyph.role.isComment

namespace Glyph.Keeps

variable {before lead written header : List Glyph} {glyph : Glyph}

theorem fresh (opened : ∀ last ∈ before.getLast?, last.Delimits) : Keeps before [] [] [] where
  toHeading := Heading.fresh opened
  held := rfl

theorem aside (keeps : Keeps before lead written header) (comment : glyph.role.isComment = true) :
    (header = [] ∧ written = [] ∧ Keeps before (lead ++ [glyph]) [] header) ∨
      Keeps before lead (written ++ [glyph]) header := by
  cases written with
  | nil =>
      refine Or.inl ⟨List.reverse_eq_nil_iff.mp keeps.held, rfl, ?_⟩
      exact ⟨keeps.toHeading.idle_concat (not_begins_of_isComment comment), keeps.held⟩
  | cons first others =>
      refine Or.inr ⟨keeps.toHeading.written_concat (fun bare => by cases bare)
        (not_delimits_of_isComment comment), ?_⟩
      rw [keeps.held, List.filter_append]
      simp [comment]

theorem extend (keeps : Keeps before lead written header) (spoken : glyph.role.isComment = false)
    (plain : ¬ glyph.Delimits) :
    (written = [] ∧
        Keeps before (lead ++ [glyph]) [] (Assembly.extend ⟨header, .surface⟩ glyph).header) ∨
      Keeps before lead (written ++ [glyph]) (Assembly.extend ⟨header, .surface⟩ glyph).header := by
  cases written with
  | nil =>
      obtain rfl : header = [] := List.reverse_eq_nil_iff.mp keeps.held
      cases blank : isBlank glyph.member with
      | true =>
          have quiet : ¬ glyph.Begins := by
            rintro ⟨_, solid⟩
            rw [blank] at solid
            cases solid
          refine Or.inl ⟨rfl, keeps.toHeading.idle_concat quiet, ?_⟩
          simp [Assembly.extend, blank]
      | false =>
          refine Or.inr ⟨keeps.toHeading.written_concat (fun _ => ⟨spoken, blank⟩) plain, ?_⟩
          simp [Assembly.extend, blank, spoken]
  | cons first others =>
      have begun : header.isEmpty = false := by
        have solid := (keeps.begins first rfl).1
        have held := keeps.held
        cases header with
        | nil => simp [solid] at held
        | cons _ _ => rfl
      refine Or.inr ⟨keeps.toHeading.written_concat (fun bare => by cases bare) plain, ?_⟩
      rw [List.filter_append, ← keeps.held]
      simp [Assembly.extend, begun, spoken]

theorem headerText_eq (keeps : Keeps before lead written header) :
    Assembly.headerText ⟨header, .surface⟩ = spokenText written := by
  rw [Assembly.headerText, keeps.held, spokenText]

theorem exists_first (keeps : Keeps before lead written header) (begun : header ≠ []) :
    ∃ first others, written = first :: others ∧ ∀ substitute,
      Assembly.headerLocation ⟨header, .surface⟩ substitute = first.location := by
  have held := keeps.held
  cases written with
  | nil => exact absurd (List.reverse_eq_nil_iff.mp held) begun
  | cons first others =>
      have solid := (keeps.begins first rfl).1
      refine ⟨first, others, rfl, fun substitute => ?_⟩
      rw [Assembly.headerLocation, ← List.head?_reverse, held]
      simp [solid]

end Glyph.Keeps

structure Glyph.Tracks (consumed header : List Glyph) : Prop where
  parts : ∃ before lead written, consumed = before ++ lead ++ written ∧
    Glyph.Keeps before lead written header

namespace Glyph.Tracks

variable {consumed header : List Glyph} {glyph : Glyph}

theorem nil : Tracks [] [] where
  parts := by
    refine ⟨[], [], [], rfl, Keeps.fresh ?_⟩
    intro last present
    cases present

private theorem fresh (consumed : List Glyph) (delimits : glyph.Delimits) :
    Tracks (consumed ++ [glyph]) [] where
  parts := by
    refine ⟨consumed ++ [glyph], [], [], by simp, Keeps.fresh ?_⟩
    intro last present
    rw [List.getLast?_concat] at present
    exact Option.some.inj present ▸ delimits

private theorem aside (tracks : Tracks consumed header) (comment : glyph.role.isComment = true) :
    Tracks (consumed ++ [glyph]) header where
  parts := by
    obtain ⟨before, lead, written, rfl, keeps⟩ := tracks.parts
    rcases keeps.aside comment with ⟨_, rfl, further⟩ | further
    · exact ⟨before, lead ++ [glyph], [], by simp, further⟩
    · exact ⟨before, lead, written ++ [glyph], by simp, further⟩

private theorem asides (tracks : Tracks consumed header) {glyphs : List Glyph}
    (comments : ∀ glyph ∈ glyphs, glyph.role.isComment = true) :
    Tracks (consumed ++ glyphs) header := by
  induction glyphs generalizing consumed with
  | nil => rwa [List.append_nil]
  | cons glyph others ih =>
      rw [List.append_cons]
      exact ih (tracks.aside (comments glyph (List.mem_cons_self ..)))
        fun other present => comments other (List.mem_cons_of_mem _ present)

private theorem extend (tracks : Tracks consumed header) (spoken : glyph.role.isComment = false)
    (plain : ¬ glyph.Delimits) :
    Tracks (consumed ++ [glyph]) (Assembly.extend ⟨header, .surface⟩ glyph).header where
  parts := by
    obtain ⟨before, lead, written, rfl, keeps⟩ := tracks.parts
    rcases keeps.extend spoken plain with ⟨rfl, further⟩ | further
    · exact ⟨before, lead ++ [glyph], [], by simp, further⟩
    · exact ⟨before, lead, written ++ [glyph], by simp, further⟩

private theorem statement (tracks : Tracks consumed header) (begun : header ≠ [])
    {after : List Glyph}
    (ended : ∀ next ∈ after.head?, next.IsCode ';' ∨ next.IsCode '}') (substitute : Location) :
    (Segment.statement (Assembly.headerText ⟨header, .surface⟩)
      (Assembly.headerLocation ⟨header, .surface⟩ substitute)).StandsIn (consumed ++ after) := by
  obtain ⟨before, lead, written, split, keeps⟩ := tracks.parts
  obtain ⟨first, others, rfl, placed⟩ := keeps.exists_first begun
  refine ⟨(before ++ lead).length, ?_⟩
  rw [keeps.headerText_eq, placed]
  exact .mk (by rw [split]) keeps.toHeading ended

private theorem block (tracks : Tracks consumed header) {opening closing : Glyph} {body : Body}
    (opens : opening.IsCode '{') (closes : closing.IsCode '}') (closed : body.text.Closed)
    (solid : Text.allBlank body.text = false) (location : Location) (after : List Glyph) :
    (Segment.block (Assembly.headerText ⟨header, .surface⟩) location body).StandsIn
      (consumed ++ opening :: (body.glyphs ++ closing :: after)) := by
  obtain ⟨before, lead, written, split, keeps⟩ := tracks.parts
  refine ⟨(before ++ lead ++ written).length + 1, ?_⟩
  rw [keeps.headerText_eq]
  exact .mk (by rw [split]) keeps.toHeading opens closes closed solid

end Glyph.Tracks

/-- What is scanned stands in what was read before and what is scanned. -/
theorem Assembly.Scans.standsIn {header glyphs : List Glyph} {whole : Segmentation}
    (scan : Scans header glyphs whole) : ∀ consumed, Glyph.Tracks consumed header →
      ∀ segment ∈ whole.segments, segment.StandsIn (consumed ++ glyphs) := by
  -- What has been read moves to the glyphs before, so that indices count from their start.
  induction scan with
  | finish header =>
      intro consumed tracks segment present
      simp only [Assembly.finish] at present
      split at present
      · cases present
      · rename_i begun
        obtain rfl := List.mem_singleton.mp present
        refine tracks.statement (fun bare => begun (List.isEmpty_iff.mpr bare)) ?_ .start
        intro next first
        cases first
  | @aside header rest glyph whole comment _ _ ih =>
      intro consumed tracks segment present
      rw [List.append_cons]
      exact ih _ (tracks.aside comment) segment present
  | @comment text unclosed start rest whole _ ih =>
      intro consumed tracks segment present
      rcases List.mem_cons.mp present with rfl | later
      · exact True.intro
      · rw [← List.append_assoc]
        exact ih _ (tracks.asides fun _ => Glyph.isComment_of_mem_blockComment unclosed) segment later
  | @extend header rest glyph whole spoken plain _ ih =>
      intro consumed tracks segment present
      rw [List.append_cons]
      exact ih _ (tracks.extend spoken plain) segment present
  | @blankStatement rest glyph whole ends _ ih =>
      intro consumed tracks segment present
      rw [List.append_cons]
      exact ih _ (.fresh consumed (Or.inl ends)) segment present
  | @statement header rest glyph whole ends begun _ ih =>
      intro consumed tracks segment present
      rcases List.mem_cons.mp present with rfl | later
      · refine tracks.statement begun ?_ glyph.location
        intro next first
        exact Or.inl (Option.some.inj first ▸ ends)
      · rw [List.append_cons]
        exact ih _ (.fresh consumed (Or.inl ends)) segment later
  | @blankBlock header rest opening closing inner whole opens closes _ _ _ ih =>
      intro consumed tracks segment present
      have further := ih _ (.fresh (consumed ++ opening :: inner.glyphs) (Or.inr (Or.inr closes)))
        segment present
      simpa using further
  | @block header rest opening closing inner whole opens closes closed solid _ ih =>
      intro consumed tracks segment present
      rcases List.mem_cons.mp present with rfl | later
      · exact tracks.block opens closes closed solid opening.location rest
      · have further := ih _ (.fresh (consumed ++ opening :: inner.glyphs) (Or.inr (Or.inr closes)))
          segment later
        simpa using further
  | unclosed opens stays =>
      intro consumed tracks segment present
      cases present
  | unexpected closes =>
      intro consumed tracks segment present
      cases present

/-! ### Unbalanced braces -/

namespace Glyph

theorem openAfter_add (more : Nat) {glyphs : List Glyph} : ∀ {depth left : Nat},
    openAfter depth glyphs = some left → openAfter (depth + more) glyphs = some (left + more) := by
  induction glyphs with
  | nil =>
      intro depth left counted
      injection counted with same
      exact same ▸ rfl
  | cons glyph rest ih =>
      intro depth left counted
      obtain ⟨inner, stepped, further⟩ := Option.bind_eq_some_iff.mp counted
      have deeper : depthAfter? glyph.role glyph.member (depth + more) = some (inner + more) := by
        unfold depthAfter? at stepped ⊢
        split
        · rename_i opens
          rw [if_pos opens] at stepped
          injection stepped with same
          rw [← same, Nat.add_right_comm]
        · rename_i notOpening
          rw [if_neg notOpening] at stepped
          split
          · rename_i closes
            rw [if_pos closes] at stepped
            cases depth with
            | zero => cases stepped
            | succ outer =>
                injection stepped with same
                rw [← same, Nat.add_right_comm]
          · rename_i notClosing
            rw [if_neg notClosing] at stepped
            injection stepped with same
            rw [same]
      rw [openAfter, deeper]
      exact ih further

theorem openAfter_concat {consumed : List Glyph} {glyph : Glyph}
    (balanced : openAfter 0 consumed = some 0)
    (plain : glyph.role = .code → glyph.member ≠ '{' ∧ glyph.member ≠ '}') :
    openAfter 0 (consumed ++ [glyph]) = some 0 := by
  rw [openAfter_append, balanced, Option.bind_some, openAfter,
    Assembly.depthAfter?_of_ne 0 plain]
  rfl

theorem openAfter_undivided {consumed glyphs : List Glyph} (balanced : openAfter 0 consumed = some 0)
    (plain : ∀ glyph ∈ glyphs, ¬ glyph.Delimits) : openAfter 0 (consumed ++ glyphs) = some 0 := by
  induction glyphs generalizing consumed with
  | nil => rwa [List.append_nil]
  | cons glyph others ih =>
      have other := plain glyph (List.mem_cons_self ..)
      have next : openAfter 0 (consumed ++ [glyph]) = some 0 :=
        openAfter_concat balanced fun code => ⟨fun same => other (Or.inr (Or.inl ⟨code, same⟩)),
          fun same => other (Or.inr (Or.inr ⟨code, same⟩))⟩
      rw [List.append_cons]
      exact ih next fun other present => plain other (List.mem_cons_of_mem _ present)

theorem openAfter_asides {consumed glyphs : List Glyph} (balanced : openAfter 0 consumed = some 0)
    (comments : ∀ glyph ∈ glyphs, glyph.role.isComment = true) :
    openAfter 0 (consumed ++ glyphs) = some 0 :=
  openAfter_undivided balanced fun glyph present =>
    not_delimits_of_isComment (comments glyph present)

theorem openAfter_glyphs {inner : Body} (closed : inner.text.Closed) :
    openAfter 0 inner.glyphs = some 0 := by
  rw [Body.glyphs, openAfter_list]
  exact closed.balanced

theorem openAfter_block {consumed : List Glyph} {opening closing : Glyph} {inner : Body}
    (balanced : openAfter 0 consumed = some 0) (opens : opening.IsCode '{')
    (closes : closing.IsCode '}') (closed : inner.text.Closed) :
    openAfter 0 (consumed ++ opening :: inner.glyphs ++ [closing]) = some 0 := by
  have inside : openAfter 1 inner.glyphs = some 1 := openAfter_add 1 (openAfter_glyphs closed)
  rw [openAfter_append, openAfter_append, balanced, Option.bind_some, openAfter, opens.1, opens.2,
    show depthAfter? .code '{' 0 = some 1 from rfl, Option.bind_some, inside, Option.bind_some,
    openAfter, closes.1, closes.2]
  rfl

end Glyph

theorem Assembly.Scans.braceAt {header glyphs : List Glyph} {whole : Segmentation}
    (scan : Scans header glyphs whole) : ∀ consumed, Glyph.openAfter 0 consumed = some 0 →
      ∀ fault, whole.fault? = some fault → ∃ index context?,
        Glyph.BraceAt (consumed ++ glyphs) index fault.location ∧
          fault.cause = .unbalancedBlock context? := by
  have semicolon : ∀ {glyph : Glyph}, glyph.IsCode ';' →
      glyph.role = .code → glyph.member ≠ '{' ∧ glyph.member ≠ '}' := by
    intro glyph ends _
    rw [ends.2]
    decide
  induction scan with
  | finish header =>
      intro consumed balanced fault faulty
      simp only [Assembly.finish] at faulty
      split at faulty <;> cases faulty
  | aside comment _ _ ih =>
      intro consumed balanced fault faulty
      rw [List.append_cons]
      exact ih _ (Glyph.openAfter_asides balanced (List.forall_mem_singleton.mpr comment)) fault faulty
  | comment unclosed start _ ih =>
      intro consumed balanced fault faulty
      rw [← List.append_assoc]
      exact ih _ (Glyph.openAfter_asides balanced fun _ =>
        Glyph.isComment_of_mem_blockComment unclosed) fault faulty
  | extend spoken plain _ ih =>
      intro consumed balanced fault faulty
      rw [List.append_cons]
      exact ih _ (Glyph.openAfter_undivided balanced (List.forall_mem_singleton.mpr plain)) fault faulty
  | blankStatement ends _ ih =>
      intro consumed balanced fault faulty
      rw [List.append_cons]
      exact ih _ (Glyph.openAfter_concat balanced (semicolon ends)) fault faulty
  | statement ends _ _ ih =>
      intro consumed balanced fault faulty
      rw [List.append_cons]
      exact ih _ (Glyph.openAfter_concat balanced (semicolon ends)) fault faulty
  | blankBlock opens closes closed _ _ ih =>
      intro consumed balanced fault faulty
      have further := ih _ (Glyph.openAfter_block balanced opens closes closed) fault faulty
      simpa using further
  | block opens closes closed _ _ ih =>
      intro consumed balanced fault faulty
      have further := ih _ (Glyph.openAfter_block balanced opens closes closed) fault faulty
      simpa using further
  | unclosed opens stays =>
      intro consumed balanced fault faulty
      injection faulty with same
      subst same
      exact ⟨consumed.length, _, .unclosed rfl balanced opens stays, rfl⟩
  | unexpected closes =>
      intro consumed balanced fault faulty
      injection faulty with same
      subst same
      exact ⟨consumed.length, _, .unexpected rfl balanced closes, rfl⟩

end NestedCss
