import Mathlib.Data.List.Infix
import NestedCss.Proofs.CommentRemoval

set_option autoImplicit false

/-! What is left when comments are removed. What stands before a block comment and what
stands after it come together when it is cut out, and then they can form a comment, or be
seen for the first time as one. Where no block comment is followed at once by a star, or by a
slash that begins no other one, nothing in the rest is taken for a comment. -/

namespace NestedCss

namespace Keyframes

/-- Nothing in the text is taken for a comment: no `/*` is closed, and two slashes stand only
directly behind a colon. -/
structure Uncommented (text : Text) : Prop where
  blocks : ∀ front rest : Text, text = front ++ '/' :: '*' :: rest → ¬ ['*', '/'] <:+: rest
  remarks : ∀ front rest : Text, text = front ++ '/' :: '/' :: rest → front.getLast? = some ':'

/-- No block comment of the text is followed at once by a star, or by a slash that begins no
other block comment. -/
def CommentsApart (text : Text) : Prop :=
  ∀ rest, rest <:+ text → ∀ length, blockCommentLength? rest = some length →
    (rest.drop length).head? ≠ some '*' ∧
      ((rest.drop length).head? = some '/' → (blockCommentLength? (rest.drop length)).isSome)

/-- The removal of comments, step by step: what is left of a text that may be at the start of
a line. -/
inductive Strips : Bool → Text → Text → Prop
  | nil {atLineStart : Bool} : Strips atLineStart [] []
  | block {atLineStart : Bool} {text stripped : Text} {length : Nat}
      (block : blockCommentLength? text = some length)
      (following : Strips false (text.drop length) stripped) : Strips atLineStart text stripped
  | remarkBehind {atLineStart : Bool} {member : Char} {rest stripped : Text}
      (block : blockCommentLength? (member :: rest) = none) (other : member ≠ ':')
      (begins : beginsRemark rest = true)
      (following : Strips false (rest.drop (lineLength rest)) stripped) :
      Strips atLineStart (member :: rest) (member :: stripped)
  | remark {member : Char} {rest stripped : Text}
      (block : blockCommentLength? (member :: rest) = none)
      (begins : beginsRemark (member :: rest) = true)
      (following : Strips false (rest.drop (lineLength rest)) stripped) :
      Strips true (member :: rest) stripped
  | kept {atLineStart : Bool} {member : Char} {rest stripped : Text}
      (block : blockCommentLength? (member :: rest) = none)
      (behind : beginsRemark rest = true → member = ':')
      (line : atLineStart = true → beginsRemark (member :: rest) = false)
      (following : Strips (member == '\n') rest stripped) :
      Strips atLineStart (member :: rest) (member :: stripped)

/-! ### Lengths -/

private theorem exists_of_blockCommentLength? {text : Text} {length : Nat}
    (block : blockCommentLength? text = some length) :
    ∃ rest closing, text = '/' :: '*' :: rest ∧ closingLength? rest = some closing ∧
      length = closing + 2 := by
  unfold blockCommentLength? at block
  split at block
  · rename_i rest
    obtain ⟨closing, closes, rfl⟩ := Option.map_eq_some_iff.mp block
    exact ⟨rest, closing, rfl, closes, rfl⟩
  · cases block

private theorem two_le_lineLength {text : Text} (begins : beginsRemark text = true) :
    2 ≤ lineLength text := by
  obtain ⟨rest, rfl⟩ := exists_of_beginsRemark begins
  rw [lineLength_cons, lineLength_cons, if_neg (by decide), if_neg (by decide)]
  omega

private theorem stripCommentsFrom_drop (skipped : Nat) : ∀ text : Text,
    stripCommentsFrom false skipped text = stripCommentsFrom false 0 (text.drop skipped) := by
  induction skipped with
  | zero => exact fun text => rfl
  | succ skipped ih =>
      intro text
      cases text with
      | nil => rfl
      | cons member rest => exact ih rest

private theorem strips_stripCommentsFrom (bound : Nat) : ∀ (atLineStart : Bool) (text : Text),
    text.length ≤ bound → Strips atLineStart text (stripCommentsFrom atLineStart 0 text) := by
  -- On a bound, since a removal goes on behind the whole comment.
  induction bound with
  | zero =>
      intro atLineStart text short
      obtain rfl := List.eq_nil_of_length_eq_zero (Nat.le_zero.mp short)
      rw [stripCommentsFrom]
      exact .nil
  | succ bound ih =>
      intro atLineStart text short
      cases text with
      | nil =>
          rw [stripCommentsFrom]
          exact .nil
      | cons member rest =>
          rw [List.length_cons] at short
          have later : ∀ skipped, Strips false (rest.drop skipped)
              (stripCommentsFrom false skipped rest) := by
            intro skipped
            rw [stripCommentsFrom_drop]
            exact ih false _ (by rw [List.length_drop]; omega)
          cases block : blockCommentLength? (member :: rest) with
          | some length =>
              obtain ⟨_, closing, _, _, same⟩ := exists_of_blockCommentLength? block
              obtain ⟨less, rfl⟩ : ∃ less, length = less + 1 := ⟨closing + 1, same⟩
              rw [stripCommentsFrom_of_block block]
              exact .block block (later less)
          | none =>
              rw [stripCommentsFrom, block]
              simp only
              split
              · rename_i seen
                exact .remarkBehind block seen.1 seen.2 (later _)
              · rename_i unseen
                split
                · rename_i starts
                  obtain ⟨rfl, begins⟩ := starts
                  exact .remark block begins (later _)
                · rename_i inside
                  refine .kept block (fun begins => ?_) (fun starts => ?_)
                    (ih (member == '\n') rest (by omega))
                  · exact Decidable.byContradiction fun other => unseen ⟨other, begins⟩
                  · exact Bool.eq_false_iff.mpr fun begins => inside ⟨starts, begins⟩

private theorem strips_stripComments (text : Text) : Strips true text (stripComments text) :=
  strips_stripCommentsFrom text.length true text (Nat.le_refl _)

/-! ### Texts without comments -/

def UncommentedAfter (previous? : Option Char) : Text → Prop
  | [] => True
  | member :: rest =>
      blockCommentLength? (member :: rest) = none ∧
        (beginsRemark (member :: rest) = true → previous? = some ':') ∧
        UncommentedAfter (some member) rest

private theorem getLast?_cons_or (member : Char) (front : Text) (previous? : Option Char) :
    (member :: front).getLast?.or previous? = front.getLast?.or (some member) := by
  rw [List.getLast?_cons]
  cases front.getLast? <;> rfl

private theorem uncommentedAfter_iff (text : Text) : ∀ previous? : Option Char,
    UncommentedAfter previous? text ↔ ∀ front rest : Text, text = front ++ rest →
      blockCommentLength? rest = none ∧
        (beginsRemark rest = true → front.getLast?.or previous? = some ':') := by
  induction text with
  | nil =>
      intro previous?
      refine iff_of_true True.intro fun front rest split => ?_
      obtain ⟨rfl, rfl⟩ := List.append_eq_nil_iff.mp split.symm
      exact ⟨rfl, fun impossible => by cases impossible⟩
  | cons member others ih =>
      intro previous?
      rw [UncommentedAfter, ih]
      constructor
      · rintro ⟨block, colon, further⟩ front rest split
        cases front with
        | nil =>
            obtain rfl : member :: others = rest := split
            exact ⟨block, colon⟩
        | cons own front =>
            injection split with same split
            subst same
            rw [getLast?_cons_or]
            exact further front rest split
      · intro whole
        refine ⟨(whole [] _ rfl).1, (whole [] _ rfl).2, fun front rest split => ?_⟩
        rw [← getLast?_cons_or member front previous?]
        exact whole (member :: front) rest (by rw [split, List.cons_append])

private theorem closingLength?_eq_none_iff {text : Text} :
    closingLength? text = none ↔ ¬ ['*', '/'] <:+: text := by
  induction text with
  | nil => exact iff_of_true rfl (by simp)
  | cons member rest ih =>
      rw [closingLength?_cons, List.infix_cons_iff, not_or, ← ih]
      have ahead : ['*', '/'] <+: member :: rest ↔ member = '*' ∧ rest.head? = some '/' := by
        rw [List.cons_prefix_cons]
        cases rest with
        | nil => simp
        | cons second others => simp [List.cons_prefix_cons, eq_comm]
      rw [ahead]
      split
      · rename_i closes
        exact iff_of_false (fun impossible => by cases impossible) fun both => both.1 closes
      · rename_i stays
        rw [Option.map_eq_none_iff]
        exact ⟨fun open_ => ⟨stays, open_⟩, fun both => both.2⟩

private theorem blockCommentLength?_eq_none_iff {text : Text} :
    blockCommentLength? text = none ↔
      ∀ rest, text = '/' :: '*' :: rest → ¬ ['*', '/'] <:+: rest := by
  constructor
  · rintro none rest rfl
    rw [← closingLength?_eq_none_iff]
    exact Option.map_eq_none_iff.mp none
  · intro unclosed
    unfold blockCommentLength?
    split
    · rename_i rest
      rw [closingLength?_eq_none_iff.mpr (unclosed rest rfl)]
      rfl
    · rfl

private theorem uncommented_iff (text : Text) : Uncommented text ↔ UncommentedAfter none text := by
  rw [uncommentedAfter_iff]
  constructor
  · rintro ⟨blocks, remarks⟩ front rest rfl
    constructor
    · rw [blockCommentLength?_eq_none_iff]
      rintro later rfl
      exact blocks front later rfl
    · intro begins
      obtain ⟨later, rfl⟩ := exists_of_beginsRemark begins
      rw [remarks front later rfl]
      rfl
  · intro whole
    refine ⟨fun front rest split => ?_, fun front rest split => ?_⟩
    · exact blockCommentLength?_eq_none_iff.mp (whole front _ split).1 rest rfl
    · have colon := (whole front _ split).2 rfl
      rwa [Option.or_none] at colon

/-! ### What stays as it is -/

private theorem Strips.length_le {atLineStart : Bool} {text stripped : Text}
    (strips : Strips atLineStart text stripped) : stripped.length ≤ text.length := by
  induction strips with
  | nil => exact Nat.le_refl _
  | block block following ih => exact Nat.le_trans ih (List.drop_sublist _ _).length_le
  | remarkBehind block other begins following ih =>
      exact Nat.succ_le_succ (Nat.le_trans ih (List.drop_sublist _ _).length_le)
  | remark block begins following ih =>
      exact Nat.le_succ_of_le (Nat.le_trans ih (List.drop_sublist _ _).length_le)
  | kept block behind line following ih => exact Nat.succ_le_succ ih

/-- Two slashes are seen where they are read, at the start of a line or behind a colon. -/
def Expected (atLineStart : Bool) (previous? : Option Char) (text : Text) : Prop :=
  beginsRemark text = true → atLineStart = true ∨ previous? = some ':'

private theorem Strips.uncommentedAfter_of_length {atLineStart : Bool} {text stripped : Text}
    (strips : Strips atLineStart text stripped) : stripped.length = text.length →
      ∀ previous?, Expected atLineStart previous? text → UncommentedAfter previous? text := by
  induction strips with
  | nil => exact fun _ _ _ => True.intro
  | @block atLineStart text stripped length block following ih =>
      intro same
      have short := following.length_le
      obtain ⟨_, closing, rfl, _, rfl⟩ := exists_of_blockCommentLength? block
      simp only [List.length_drop, List.length_cons] at short same
      omega
  | @remarkBehind atLineStart member rest stripped block other begins following ih =>
      intro same
      have short := following.length_le
      have long := two_le_lineLength begins
      simp only [List.length_drop, List.length_cons] at short same
      obtain ⟨others, rfl⟩ := exists_of_beginsRemark begins
      simp only [List.length_cons] at short same
      omega
  | @remark member rest stripped block begins following ih =>
      intro same
      have short := following.length_le
      simp only [List.length_drop, List.length_cons] at short same
      omega
  | @kept atLineStart member rest stripped block behind line following ih =>
      intro same previous? expected
      refine ⟨block, fun begins => ?_, ih (Nat.succ.inj same) _ fun begins => .inr ?_⟩
      · rcases expected begins with starts | colon
        · rw [line starts] at begins
          cases begins
        · exact colon
      · rw [behind begins]

private theorem Strips.eq_of_uncommentedAfter {atLineStart : Bool} {text stripped : Text}
    (strips : Strips atLineStart text stripped) : ∀ previous?,
      (atLineStart = true → previous? ≠ some ':') → UncommentedAfter previous? text →
        stripped = text := by
  induction strips with
  | nil => exact fun _ _ _ => rfl
  | @block atLineStart text stripped length block following ih =>
      intro previous? _ uncommented
      obtain ⟨_, _, rfl, _, _⟩ := exists_of_blockCommentLength? block
      rw [uncommented.1] at block
      cases block
  | remarkBehind block other begins following ih =>
      intro previous? _ uncommented
      obtain ⟨others, rfl⟩ := exists_of_beginsRemark begins
      exact absurd (Option.some.inj (uncommented.2.2.2.1 rfl)) other
  | remark block begins following ih =>
      intro previous? starts uncommented
      exact absurd (uncommented.2.1 begins) (starts rfl)
  | kept block behind line following ih =>
      intro previous? _ uncommented
      rw [ih _ ?_ uncommented.2.2]
      rintro feed colon
      rw [Option.some.inj colon] at feed
      exact absurd feed (by decide)

private theorem stripComments_eq_self_iff (text : Text) :
    stripComments text = text ↔ Uncommented text := by
  rw [uncommented_iff]
  constructor
  · intro same
    exact (strips_stripComments text).uncommentedAfter_of_length (congrArg List.length same) none
      fun _ => .inl rfl
  · exact (strips_stripComments text).eq_of_uncommentedAfter none fun _ impossible => by
      cases impossible

/-! ### What is left -/

private theorem CommentsApart.of_suffix {text rest : Text} (apart : CommentsApart text)
    (suffix : rest <:+ text) : CommentsApart rest :=
  fun later further => apart later (further.trans suffix)

private theorem unclosed_of_suffix {text rest : Text} (unclosed : closingLength? text = none)
    (suffix : rest <:+ text) : closingLength? rest = none := by
  rw [closingLength?_eq_none_iff] at unclosed ⊢
  exact fun closes => unclosed (closes.trans suffix.isInfix)

private theorem blockCommentLength?_of_unclosed {text : Text}
    (unclosed : closingLength? text = none) :
    blockCommentLength? text = none := by
  rw [blockCommentLength?_eq_none_iff]
  rintro rest rfl
  exact closingLength?_eq_none_iff.mp
    (unclosed_of_suffix unclosed (List.suffix_append ['/', '*'] rest))

private theorem commentsApart_of_unclosed {text : Text} (unclosed : closingLength? text = none) :
    CommentsApart text := by
  intro rest suffix length block
  rw [blockCommentLength?_of_unclosed (unclosed_of_suffix unclosed suffix)] at block
  cases block

private theorem head?_drop_lineLength (text : Text) {first : Char}
    (begins : (text.drop (lineLength text)).head? = some first) : first = '\n' := by
  induction text with
  | nil => cases begins
  | cons member rest ih =>
      rw [lineLength_cons] at begins
      split at begins
      · rename_i feed
        exact (Option.some.inj begins).symm.trans feed
      · exact ih begins

private theorem drop_lineLength_suffix (member : Char) (rest : Text) :
    rest.drop (lineLength rest) <:+ member :: rest :=
  (List.drop_suffix _ _).trans (List.suffix_cons member rest)

private theorem expected_behind_line (atLineStart : Bool) (previous? : Option Char) (rest : Text) :
    Expected atLineStart previous? (rest.drop (lineLength rest)) := by
  intro begins
  obtain ⟨others, same⟩ := exists_of_beginsRemark begins
  have feed := head?_drop_lineLength rest (by rw [same]; rfl)
  exact absurd feed (by decide)

private theorem Strips.head? {atLineStart : Bool} {text stripped : Text}
    (strips : Strips atLineStart text stripped) : CommentsApart text → ∀ first,
      stripped.head? = some first → first = '*' ∨ first = '/' →
        text.head? = some first ∧ blockCommentLength? text = none := by
  induction strips with
  | nil =>
      intro _ first impossible
      cases impossible
  | @block atLineStart text stripped length block following ih =>
      intro apart first present mark
      obtain ⟨there, none⟩ := ih (apart.of_suffix (List.drop_suffix _ _)) first present mark
      obtain ⟨noStar, noSlash⟩ := apart text (List.suffix_refl _) length block
      rcases mark with rfl | rfl
      · exact absurd there noStar
      · have more := noSlash there
        rw [none] at more
        cases more
  | remarkBehind block other begins following ih => exact fun _ first present _ => ⟨present, block⟩
  | @remark member rest stripped block begins following ih =>
      intro apart first present mark
      have there := (ih (apart.of_suffix (drop_lineLength_suffix member rest)) first present mark).1
      obtain rfl := head?_drop_lineLength rest there
      exact absurd mark (by decide)
  | kept block behind line following ih => exact fun _ first present _ => ⟨present, block⟩

private theorem Strips.unclosed {atLineStart : Bool} {text stripped : Text}
    (strips : Strips atLineStart text stripped) : closingLength? text = none →
      closingLength? stripped = none := by
  induction strips with
  | nil => exact fun _ => rfl
  | block block following ih =>
      intro unclosed
      rw [blockCommentLength?_of_unclosed unclosed] at block
      cases block
  | @remarkBehind _ member rest stripped block other begins following ih =>
      intro unclosed
      have later := unclosed_of_suffix unclosed (drop_lineLength_suffix member rest)
      rw [closingLength?_cons, ih later]
      split
      · rename_i closes
        have there := (following.head? (commentsApart_of_unclosed later) '/' closes.2 (.inr rfl)).1
        exact absurd (head?_drop_lineLength rest there) (by decide)
      · rfl
  | @remark member rest stripped block begins following ih =>
      intro unclosed
      exact ih (unclosed_of_suffix unclosed (drop_lineLength_suffix member rest))
  | @kept _ member rest stripped block behind line following ih =>
      intro unclosed
      have later := unclosed_of_suffix unclosed (List.suffix_cons member rest)
      rw [closingLength?_cons, ih later]
      split
      · rename_i closes
        have there := (following.head? (commentsApart_of_unclosed later) '/' closes.2 (.inr rfl)).1
        rw [closingLength?_cons, if_pos ⟨closes.1, there⟩] at unclosed
        cases unclosed
      · rfl

private theorem Strips.blockCommentLength?_cons {atLineStart : Bool} {text stripped : Text}
    (strips : Strips atLineStart text stripped) (apart : CommentsApart text) {member : Char}
    (block : blockCommentLength? (member :: text) = none) :
    blockCommentLength? (member :: stripped) = none := by
  rw [blockCommentLength?_eq_none_iff]
  intro rest same
  injection same with slash same
  subst slash same
  obtain ⟨there, noBlock⟩ := strips.head? apart '*' rfl (.inl rfl)
  obtain ⟨others, rfl⟩ := List.head?_eq_some_iff.mp there
  have unclosed := closingLength?_eq_none_iff.mpr (blockCommentLength?_eq_none_iff.mp block _ rfl)
  rw [← closingLength?_eq_none_iff]
  cases strips with
  | block impossible _ =>
      rw [noBlock] at impossible
      cases impossible
  | remarkBehind _ _ _ following =>
      exact following.unclosed (unclosed_of_suffix unclosed (List.drop_suffix _ _))
  | remark _ begins _ => cases begins
  | kept _ _ _ following => exact following.unclosed unclosed

private theorem Strips.uncommentedAfter {atLineStart : Bool} {text stripped : Text}
    (strips : Strips atLineStart text stripped) : CommentsApart text →
      ∀ previous?, Expected atLineStart previous? text → UncommentedAfter previous? stripped := by
  induction strips with
  | nil => exact fun _ _ _ => True.intro
  | @block atLineStart text stripped length block following ih =>
      intro apart previous? _
      refine ih (apart.of_suffix (List.drop_suffix _ _)) previous? fun begins => ?_
      obtain ⟨others, split⟩ := exists_of_beginsRemark begins
      have more := (apart text (List.suffix_refl _) length block).2 (by rw [split]; rfl)
      rw [split] at more
      cases more
  | @remarkBehind atLineStart member rest stripped block other begins following ih =>
      intro apart previous? _
      have apartLater := apart.of_suffix (drop_lineLength_suffix member rest)
      have ahead : ∀ first, stripped.head? = some first → first = '*' ∨ first = '/' → False := by
        intro first present mark
        obtain rfl := head?_drop_lineLength rest (following.head? apartLater first present mark).1
        exact absurd mark (by decide)
      refine ⟨?_, fun remark => ?_, ih apartLater _ (expected_behind_line _ _ rest)⟩
      · rw [blockCommentLength?_eq_none_iff]
        intro others same
        injection same with _ same
        exact absurd (.inl rfl) (ahead '*' (by rw [same]; rfl))
      · obtain ⟨others, same⟩ := exists_of_beginsRemark remark
        injection same with _ same
        exact absurd (.inr rfl) (ahead '/' (by rw [same]; rfl))
  | @remark member rest stripped block begins following ih =>
      intro apart previous? _
      exact ih (apart.of_suffix (drop_lineLength_suffix member rest)) previous?
        (expected_behind_line _ _ rest)
  | @kept atLineStart member rest stripped block behind line following ih =>
      intro apart previous? expected
      have apartLater := apart.of_suffix (List.suffix_cons member rest)
      refine ⟨following.blockCommentLength?_cons apartLater block, fun remark => ?_,
        ih apartLater _ fun begins => .inr (congrArg some (behind begins))⟩
      obtain ⟨others, same⟩ := exists_of_beginsRemark remark
      injection same with slash same
      subst slash same
      obtain ⟨there, _⟩ := following.head? apartLater '/' rfl (.inr rfl)
      obtain ⟨others, rfl⟩ := List.head?_eq_some_iff.mp there
      rcases expected rfl with starts | colon
      · cases line starts
      · exact colon

instance (text : Text) : Decidable (CommentsApart text) :=
  decidable_of_iff (∀ rest ∈ text.tails, ∀ length ∈ blockCommentLength? rest,
      (rest.drop length).head? ≠ some '*' ∧
        ((rest.drop length).head? = some '/' → (blockCommentLength? (rest.drop length)).isSome))
    ⟨fun apart rest suffix => apart rest ((List.mem_tails rest text).mpr suffix),
      fun apart rest present => apart rest ((List.mem_tails rest text).mp present)⟩

/-- Comments are removed at once if nothing in the rest is taken for a comment, and only then.
It is so where no block comment is followed at once by a star, or by a slash that begins no
other one. -/
theorem stripComments_twice (text : Text) :
    (stripComments (stripComments text) = stripComments text ↔
      Uncommented (stripComments text)) ∧
    (CommentsApart text → Uncommented (stripComments text)) := by
  refine ⟨stripComments_eq_self_iff (stripComments text), fun apart => ?_⟩
  rw [uncommented_iff]
  exact (strips_stripComments text).uncommentedAfter apart none fun _ => .inl rfl

theorem stripComments_twice_of_adjacent_comments :
    let text := "/*a*//*b*/c\x7bd:url(http://e)\x7d///f\n//*g*/\n/* h".toList
    CommentsApart text ∧ Uncommented (stripComments text) ∧
      stripComments text = "c\x7bd:url(http://e)\x7d\n\n/* h".toList := by
  intro text
  have apart : CommentsApart text := by decide +kernel
  exact ⟨apart, (stripComments_twice text).2 apart, by decide +kernel⟩

/-- A line comment directly after a block comment is seen only when the block comment is gone,
and is then stored with the body. A slash before a block comment and a star after it, or two
slashes around it, begin a comment that was not there. -/
theorem comments_left_behind_removed_ones :
    (stripComments "/*a*///b\nc\x7bd:e\x7d".toList = "//b\nc\x7bd:e\x7d".toList ∧
      stripComments "//b\nc\x7bd:e\x7d".toList = "\nc\x7bd:e\x7d".toList ∧
      compact "/*a*///b\nc\x7bd:e\x7d".toList = "//b c\x7bd:e\x7d".toList) ∧
    (stripComments "a://*b*/*c*/d".toList = "a:/*c*/d".toList ∧
      stripComments "a:/*c*/d".toList = "a:d".toList) := by
  decide +kernel

end Keyframes
end NestedCss
