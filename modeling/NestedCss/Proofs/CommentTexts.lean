import NestedCss.Proofs.Scanning

set_option autoImplicit false

/-! The texts of comments. A comment ends at the first star with a slash after it, so its
text never holds what would close it, and it can be written out as a comment again. -/

namespace NestedCss

def Role.isComment : Role → Bool
  | .code | .quoted => false
  | .commentOpen | .commentMark | .comment | .commentClose | .remark => true

/-- The text that is not in comments. -/
def Glyph.spoken (glyphs : List Glyph) : Text :=
  (glyphs.filter fun glyph => !glyph.role.isComment).map Glyph.member

theorem Glyph.spoken_cons (glyph : Glyph) (rest : List Glyph) :
    Glyph.spoken (glyph :: rest) =
      if glyph.role.isComment then Glyph.spoken rest else glyph.member :: Glyph.spoken rest := by
  unfold Glyph.spoken
  cases comment : glyph.role.isComment <;> simp [comment]

theorem Glyph.spoken_append (first second : List Glyph) :
    Glyph.spoken (first ++ second) = Glyph.spoken first ++ Glyph.spoken second := by
  rw [spoken, List.filter_append, List.map_append]
  rfl

theorem Text.not_infix_close_cons {member : Char} {rest : Text}
    (apart : ¬ (member = '*' ∧ rest.head? = some '/')) (unclosed : ¬ ['*', '/'] <:+: rest) :
    ¬ ['*', '/'] <:+: member :: rest := by
  intro found
  rcases List.infix_cons_iff.mp found with ⟨tail, same⟩ | later
  · injection same with star same
    exact apart ⟨star.symm, same ▸ rfl⟩
  · exact unclosed later

theorem Text.exists_close_or_unclosed (text : Text) :
    (∃ inner rest, text = inner ++ '*' :: '/' :: rest ∧ ¬ ['*', '/'] <:+: inner) ∨
      ¬ ['*', '/'] <:+: text := by
  induction text with
  | nil => exact Or.inr fun found => by cases List.infix_nil.mp found
  | cons member rest ih =>
      by_cases closes : member = '*' ∧ rest.head? = some '/'
      · obtain ⟨rfl, next⟩ := closes
        obtain ⟨others, rfl⟩ := List.head?_eq_some_iff.mp next
        exact Or.inl ⟨[], others, rfl, fun found => by cases List.infix_nil.mp found⟩
      · rcases ih with ⟨inner, others, rfl, unclosed⟩ | unclosed
        · refine Or.inl ⟨member :: inner, others, rfl, not_infix_close_cons ?_ unclosed⟩
          rintro ⟨star, next⟩
          cases inner with
          | nil => cases next
          | cons first more => exact closes ⟨star, next⟩
        · exact Or.inr (not_infix_close_cons closes unclosed)

/-! ### Inside a comment -/

namespace Mode

theorem step_comment_of_unclosed {member : Char} {rest : Text}
    (unclosed : ¬ ['*', '/'] <:+: member :: rest) :
    Mode.comment.step member rest.head? = (.comment, .comment) := by
  have goesOn : ¬ (member = '*' ∧ rest.head? = some '/') := by
    rintro ⟨rfl, next⟩
    obtain ⟨others, rfl⟩ := List.head?_eq_some_iff.mp next
    exact unclosed (List.prefix_append ['*', '/'] others).isInfix
  simp only [step, if_neg goesOn]

theorem after_comment_of_unclosed {text : Text} (unclosed : ¬ ['*', '/'] <:+: text) :
    Mode.comment.after text = .comment := by
  induction text with
  | nil => rfl
  | cons member rest ih =>
      rw [after, step_comment_of_unclosed unclosed]
      exact ih fun later => unclosed (List.infix_cons later)

theorem unaffected_comment_of_unclosed {text : Text} {next? : Option Char}
    (unclosed : ¬ ['*', '/'] <:+: text) (notSlash : next? ≠ some '/') :
    Mode.comment.Unaffected next? text := by
  induction text with
  | nil => exact True.intro
  | cons member rest ih =>
      cases rest with
      | nil => simp [Unaffected, step, notSlash]
      | cons second others =>
          have stepped := step_comment_of_unclosed unclosed
          rw [List.head?_cons] at stepped
          rw [Unaffected, stepped]
          exact ih fun later => unclosed (List.infix_cons later)

end Mode

namespace Glyph

theorem role_of_mem_comment {text : Text} (unclosed : ¬ ['*', '/'] <:+: text) :
    ∀ (here : Location), ∀ glyph ∈ Glyph.list .comment here text, glyph.role = .comment := by
  induction text with
  | nil => exact fun _ _ absent => by cases absent
  | cons member rest ih =>
      intro here glyph present
      rw [Glyph.list, Mode.step_comment_of_unclosed unclosed] at present
      rcases List.mem_cons.mp present with rfl | later
      · rfl
      · exact ih (fun inside => unclosed (List.infix_cons inside)) _ glyph later

theorem list_comment_append {text : Text} (unclosed : ¬ ['*', '/'] <:+: text) (here : Location)
    (rest : Text) :
    Glyph.list .comment here (text ++ '*' :: '/' :: rest) =
      Glyph.list .comment here text ++ ⟨'*', .commentMark, here.advanceOver text⟩ ::
        ⟨'/', .commentClose, (here.advanceOver text).advance '*'⟩ ::
          Glyph.list (.code false) (here.advanceOver (text ++ ['*', '/'])) rest := by
  rw [Glyph.list_append here (Mode.unaffected_comment_of_unclosed unclosed (by simp)),
    Mode.after_comment_of_unclosed unclosed, Location.advanceOver_append]
  rfl

def blockComment (start : Location) (text : Text) : List Glyph :=
  Glyph.list (.code false) start ("/*".toList ++ text ++ "*/".toList)

theorem blockComment_eq {text : Text} (unclosed : ¬ ['*', '/'] <:+: text) (start : Location) :
    blockComment start text =
      ⟨'/', .commentOpen, start⟩ :: ⟨'*', .commentMark, start.advance '/'⟩ ::
        (Glyph.list .comment (start.advanceOver "/*".toList) text ++
          [⟨'*', .commentMark, start.advanceOver ("/*".toList ++ text)⟩,
            ⟨'/', .commentClose, (start.advanceOver ("/*".toList ++ text)).advance '*'⟩]) := by
  have inside := list_comment_append unclosed (start.advanceOver "/*".toList) []
  rw [← Location.advanceOver_append] at inside
  exact congrArg (fun rest : List Glyph => ⟨'/', .commentOpen, start⟩ ::
    ⟨'*', .commentMark, start.advance '/'⟩ :: rest) inside

theorem list_blockComment_append {text : Text} (unclosed : ¬ ['*', '/'] <:+: text)
    (afterColon : Bool) (here : Location) (rest : Text) :
    Glyph.list (.code afterColon) here ('/' :: '*' :: (text ++ '*' :: '/' :: rest)) =
      blockComment here text ++
        Glyph.list (.code false) (here.advanceOver ("/*".toList ++ text ++ "*/".toList)) rest := by
  have inside := list_comment_append unclosed (here.advanceOver "/*".toList) rest
  rw [← Location.advanceOver_append, ← Location.advanceOver_append, ← List.append_assoc] at inside
  rw [blockComment_eq unclosed]
  simp only [List.cons_append, List.append_assoc, List.nil_append]
  exact congrArg (fun rest : List Glyph => ⟨'/', .commentOpen, here⟩ ::
    ⟨'*', .commentMark, here.advance '/'⟩ :: rest) inside

theorem isComment_of_mem_blockComment {text : Text} (unclosed : ¬ ['*', '/'] <:+: text)
    {start : Location} {glyph : Glyph} (present : glyph ∈ blockComment start text) :
    glyph.role.isComment = true := by
  rw [blockComment_eq unclosed] at present
  simp only [List.mem_cons, List.mem_append, List.not_mem_nil, or_false] at present
  rcases present with rfl | rfl | inside | rfl | rfl
  · rfl
  · rfl
  · rw [role_of_mem_comment unclosed _ glyph inside]
    rfl
  · rfl
  · rfl

end Glyph

theorem Mode.after_blockComment {text : Text} (unclosed : ¬ ['*', '/'] <:+: text)
    (afterColon : Bool) :
    (Mode.code afterColon).after ("/*".toList ++ text ++ "*/".toList) = .code false := by
  have inside : Mode.comment.after (text ++ "*/".toList) = .code false := by
    rw [after_append (unaffected_comment_of_unclosed unclosed (by simp)),
      after_comment_of_unclosed unclosed]
    rfl
  rw [List.append_assoc]
  exact inside

/-! ### Reading comments -/

namespace Assembly

theorem read_of_role_comment {glyphs : List Glyph} :
    ∀ {header : List Glyph} {start : Location} {taken : Text},
      (∀ glyph ∈ glyphs, glyph.role = .comment) →
      read ⟨header, .comment start taken⟩ glyphs =
        some ([], ⟨header, .comment start ((glyphs.map Glyph.member).reverse ++ taken)⟩) := by
  induction glyphs with
  | nil => exact fun _ => rfl
  | cons glyph rest ih =>
      intro header start taken each
      have role := each glyph (List.mem_cons_self ..)
      rw [read, List.map_cons, List.reverse_cons, List.append_assoc]
      simp only [step, stepComment, role]
      exact ih fun other present => each other (List.mem_cons_of_mem _ present)

theorem read_comment {text : Text} (unclosed : ¬ ['*', '/'] <:+: text) (header : List Glyph)
    (start here : Location) :
    read ⟨header, .comment start []⟩ (Glyph.list .comment here text) =
      some ([], ⟨header, .comment start text.reverse⟩) := by
  rw [read_of_role_comment (Glyph.role_of_mem_comment unclosed here), Glyph.map_member_list,
    List.append_nil]

theorem read_blockComment {text : Text} (unclosed : ¬ ['*', '/'] <:+: text) (start : Location) :
    empty.read (Glyph.blockComment start text) = some ([.comment text start], empty) := by
  rw [Glyph.blockComment_eq unclosed, read]
  simp only [empty, step, stepSurface]
  rw [read]
  simp only [step, stepComment]
  rw [read_append (read_comment unclosed [] start _)]
  simp [read, step, stepComment, endComment, empty]

theorem read_blockComment_within {text : Text} (unclosed : ¬ ['*', '/'] <:+: text)
    (start : Location) {header : List Glyph} (begun : header ≠ []) :
    read ⟨header, .surface⟩ (Glyph.blockComment start text) = some ([], ⟨header, .surface⟩) := by
  have held : header.isEmpty = false := List.isEmpty_eq_false_iff.mpr begun
  rw [Glyph.blockComment_eq unclosed, read]
  simp only [step, stepSurface]
  rw [read]
  simp only [step, stepComment]
  rw [read_append (read_comment unclosed header start _)]
  simp [read, step, stepComment, endComment, held]

end Assembly

end NestedCss
