import NestedCss.Keyframes.Compact
import NestedCss.Proofs.BlockBodies

set_option autoImplicit false

/-! Comments by two recognisers. A stylesheet is scanned with its strings, and the body of
an animation is rid of comments without regard to strings. Where strings hold nothing that
looks like a comment, no line comment follows a block comment at once, and the text does not
begin with three slashes, the two are in step, character by character, and remove the same. -/

namespace NestedCss

def Mode.InString : Mode → Prop
  | .quoted _ | .escaped _ => True
  | .code _ | .commentOpening | .comment | .commentClosing | .remarkOpening | .remark => False

/-- Outside comments, and in a string only with a quote that ends it. -/
def Mode.Spoken : Mode → Prop
  | .code _ => True
  | .quoted quote | .escaped quote => isQuote quote = true
  | .commentOpening | .comment | .commentClosing | .remarkOpening | .remark => False

/-- From a mode on, after a previous character, nothing is taken for a comment but comments:
strings hold no `/*`, and `//` only directly after a colon, and a block comment is not
followed by a line comment at once. -/
def Mode.Unmistakable (mode : Mode) (previous? : Option Char) : Text → Prop
  | [] => True
  | member :: rest =>
      (mode.InString → ¬ ['/', '*'] <+: member :: rest ∧
        (['/', '/'] <+: member :: rest → previous? = some ':')) ∧
      (mode = .commentClosing → ¬ ['/', '/'] <+: rest) ∧
      (mode.step member rest.head?).2.Unmistakable (some member) rest

/-- A whole text in which nothing is taken for a comment but comments, and which begins with
two slashes at most. -/
structure Text.Unmistakable (text : Text) : Prop where
  begins : ¬ ['/', '/', '/'] <+: text
  goes : (Mode.code false).Unmistakable none text

instance : DecidablePred Mode.InString
  | .quoted _ | .escaped _ => isTrue True.intro
  | .code _ | .commentOpening | .comment | .commentClosing | .remarkOpening | .remark => isFalse id

instance : DecidablePred Mode.InComment
  | .commentOpening | .comment | .commentClosing => isTrue True.intro
  | .code _ | .quoted _ | .escaped _ | .remarkOpening | .remark => isFalse id

instance Mode.decidableUnmistakable :
    (mode : Mode) → (previous? : Option Char) → (text : Text) →
      Decidable (mode.Unmistakable previous? text)
  | _, _, [] => isTrue True.intro
  | mode, _, member :: rest =>
      have := decidableUnmistakable (mode.step member rest.head?).2 (some member) rest
      inferInstanceAs (Decidable (_ ∧ _ ∧ _))

instance (text : Text) : Decidable text.Unmistakable :=
  decidable_of_iff (¬ ['/', '/', '/'] <+: text ∧ (Mode.code false).Unmistakable none text)
    ⟨fun both => ⟨both.1, both.2⟩, fun both => ⟨both.begins, both.goes⟩⟩

namespace Keyframes

/-! ### Lengths of comments -/

theorem closingLength?_cons (member : Char) (rest : Text) :
    closingLength? (member :: rest) =
      if member = '*' ∧ rest.head? = some '/' then some 2 else (closingLength? rest).map (· + 1) := by
  split
  · rename_i closes
    obtain ⟨rfl, slash⟩ := closes
    obtain ⟨others, rfl⟩ := List.head?_eq_some_iff.mp slash
    rfl
  · rename_i stays
    rw [closingLength?]
    rintro others rfl rfl
    exact stays ⟨rfl, rfl⟩

private theorem blockCommentLength?_eq_none {member : Char} {rest : Text}
    (other : ¬ (member = '/' ∧ rest.head? = some '*')) :
    blockCommentLength? (member :: rest) = none := by
  unfold blockCommentLength?
  split
  · rename_i same
    injection same with slash star
    exact absurd ⟨slash, by rw [star]; rfl⟩ other
  · rfl

theorem stripCommentsFrom_of_block {atLineStart : Bool} {member : Char} {rest : Text}
    {length : Nat} (block : blockCommentLength? (member :: rest) = some length) :
    stripCommentsFrom atLineStart 0 (member :: rest) = stripCommentsFrom false (length - 1) rest := by
  rw [stripCommentsFrom, block]

private theorem exists_closingLength? {text : Text}
    (closed : ¬ (Mode.comment.after text).InComment) :
    ∃ length, closingLength? text = some length := by
  induction text with
  | nil => exact absurd True.intro closed
  | cons member rest ih =>
      rw [closingLength?_cons]
      split
      · exact ⟨2, rfl⟩
      · rename_i stays
        have stepped : Mode.comment.step member rest.head? = (.comment, .comment) := by
          simp only [Mode.step, if_neg stays]
        rw [Mode.after, stepped] at closed
        obtain ⟨length, found⟩ := ih closed
        exact ⟨length + 1, by rw [found]; rfl⟩

theorem lineLength_cons (member : Char) (rest : Text) :
    lineLength (member :: rest) = if member = '\n' then 0 else lineLength rest + 1 := by
  unfold lineLength
  rw [List.takeWhile_cons]
  split
  · rename_i stays
    rw [if_neg (bne_iff_ne.mp stays), List.length_cons]
  · rename_i ends
    have feed : member = '\n' := by simpa using ends
    rw [if_pos feed, List.length_nil]

theorem exists_of_beginsRemark {text : Text} (begins : beginsRemark text = true) :
    ∃ rest, text = '/' :: '/' :: rest := by
  obtain ⟨rest, same⟩ := List.isPrefixOf_iff_prefix.mp begins
  exact ⟨rest, same.symm⟩

/-! ### The two recognisers in step -/

/-- The removal of comments at a place where the scan has a mode: how many of the next
characters it skips, and whether it takes the place for the start of a line. -/
inductive InStep : Mode → Bool → Nat → Text → Prop
  | spoken {mode : Mode} {atLineStart : Bool} {text : Text} (spoken : mode.Spoken)
      (line : atLineStart = true → beginsRemark text = false)
      (colon : ∀ afterColon, mode = .code afterColon → beginsRemark text = true →
        afterColon = true) : InStep mode atLineStart 0 text
  | remarkAhead {atLineStart : Bool} {rest : Text} :
      InStep (.code false) atLineStart (lineLength ('/' :: '/' :: rest)) ('/' :: '/' :: rest)
  | remarkOpening {atLineStart : Bool} {rest : Text} :
      InStep .remarkOpening atLineStart (lineLength ('/' :: rest)) ('/' :: rest)
  | remark {atLineStart : Bool} {text : Text} : InStep .remark atLineStart (lineLength text) text
  | commentOpening {atLineStart : Bool} {length : Nat} {rest : Text}
      (closes : closingLength? rest = some length) :
      InStep .commentOpening atLineStart (length + 1) ('*' :: rest)
  | comment {atLineStart : Bool} {length : Nat} {text : Text}
      (closes : closingLength? text = some length) : InStep .comment atLineStart length text
  | commentClosing {atLineStart : Bool} {rest : Text} :
      InStep .commentClosing atLineStart 1 ('/' :: rest)

def Follows (mode : Mode) (atLineStart : Bool) (skipped : Nat) (member : Char) (rest : Text) : Prop :=
  ∃ lineStarts more,
    stripCommentsFrom atLineStart skipped (member :: rest) =
      (if (mode.step member rest.head?).1.isComment then stripCommentsFrom lineStarts more rest
        else member :: stripCommentsFrom lineStarts more rest) ∧
    InStep (mode.step member rest.head?).2 lineStarts more rest

/-- A character that is in no comment is kept. Two slashes after it are skipped at once,
unless it is a colon. -/
theorem follows_of_kept {mode : Mode} {atLineStart : Bool} {member : Char} {rest : Text}
    (kept : (mode.step member rest.head?).1.isComment = false)
    (noBlock : ¬ (member = '/' ∧ rest.head? = some '*'))
    (line : atLineStart = true → beginsRemark (member :: rest) = false)
    (spoken : (mode.step member rest.head?).2.Spoken)
    (colon : member = ':' → ∀ afterColon, (mode.step member rest.head?).2 = .code afterColon →
      afterColon = true)
    (ahead : member ≠ ':' → beginsRemark rest = true →
      (mode.step member rest.head?).2 = .code false) :
    Follows mode atLineStart 0 member rest := by
  unfold Follows
  rw [kept, stripCommentsFrom, blockCommentLength?_eq_none noBlock]
  simp only [Bool.false_eq_true, if_false]
  by_cases seen : member ≠ ':' ∧ beginsRemark rest = true
  · refine ⟨false, lineLength rest, by rw [if_pos seen], ?_⟩
    rw [ahead seen.1 seen.2]
    obtain ⟨others, rfl⟩ := exists_of_beginsRemark seen.2
    exact .remarkAhead
  · have unlike : ¬ (atLineStart = true ∧ beginsRemark (member :: rest) = true) := by
      rintro ⟨starts, begins⟩
      rw [line starts] at begins
      cases begins
    have colonBefore : beginsRemark rest = true → member = ':' := fun begins =>
      Decidable.byContradiction fun other => seen ⟨other, begins⟩
    refine ⟨member == '\n', 0, by rw [if_neg seen, if_neg unlike], .spoken spoken ?_ ?_⟩
    · intro feed
      rw [Bool.eq_false_iff]
      intro begins
      rw [colonBefore begins] at feed
      exact absurd feed (by decide)
    · exact fun afterColon following begins => colon (colonBefore begins) afterColon following

private theorem colon_of_inString {mode : Mode} {member : Char} {rest : Text}
    (inside : mode.InString)
    (unmistakable : mode.Unmistakable (some member) rest) (begins : beginsRemark rest = true) :
    member = ':' := by
  obtain ⟨others, rfl⟩ := exists_of_beginsRemark begins
  exact Option.some.inj ((unmistakable.1 inside).2 (List.prefix_append ['/', '/'] others))

private theorem follows_code {afterColon atLineStart : Bool} {member : Char} {rest : Text}
    (line : atLineStart = true → beginsRemark (member :: rest) = false)
    (colon : beginsRemark (member :: rest) = true → afterColon = true)
    (unmistakable : ((Mode.code afterColon).step member rest.head?).2.Unmistakable (some member) rest)
    (closed : ¬ ((Mode.code afterColon).after (member :: rest)).InComment) :
    Follows (.code afterColon) atLineStart 0 member rest := by
  by_cases block : member = '/' ∧ rest.head? = some '*'
  · obtain ⟨rfl, star⟩ := block
    obtain ⟨others, rfl⟩ := List.head?_eq_some_iff.mp star
    have ended : ¬ (Mode.comment.after others).InComment := closed
    obtain ⟨length, closes⟩ := exists_closingLength? ended
    have long : blockCommentLength? ('/' :: '*' :: others) = some (length + 2) := by
      simp only [blockCommentLength?, closes, Option.map_some]
    refine ⟨false, length + 1, ?_, .commentOpening closes⟩
    rw [stripCommentsFrom_of_block long]
    rfl
  · have noRemark : ¬ (member = '/' ∧ rest.head? = some '/' ∧ (!afterColon) = true) := by
      rintro ⟨rfl, slash, fresh⟩
      obtain ⟨others, rfl⟩ := List.head?_eq_some_iff.mp slash
      rw [colon rfl] at fresh
      cases fresh
    cases quote : isQuote member with
    | true =>
        have stepped : (Mode.code afterColon).step member rest.head? = (.quoted, .quoted member) := by
          rw [Mode.step, Mode.stepCode, if_neg block, if_neg noRemark, if_pos quote]
        rw [stepped] at unmistakable
        have inside : (Mode.quoted member).InString := True.intro
        refine follows_of_kept ?_ block line ?_ ?_ ?_ <;> rw [stepped]
        · rfl
        · exact quote
        · exact fun _ _ impossible => by cases impossible
        · exact fun other begins => absurd (colon_of_inString inside unmistakable begins) other
    | false =>
        have stepped : (Mode.code afterColon).step member rest.head? =
            (.code, .code (member == ':')) := by
          rw [Mode.step, Mode.stepCode, if_neg block, if_neg noRemark, if_neg (by rw [quote]; decide)]
        refine follows_of_kept ?_ block line ?_ ?_ ?_ <;> rw [stepped]
        · rfl
        · exact True.intro
        · rintro rfl _ same
          cases same
          rfl
        · intro other _
          rw [beq_eq_false_iff_ne.mpr other]

private theorem step_of_inString {mode : Mode} (inside : mode.InString) (spoken : mode.Spoken)
    (member : Char) (next? : Option Char) :
    (mode.step member next?).1 = .quoted ∧ (mode.step member next?).2.Spoken ∧
      ((mode.step member next?).2.InString ∨
        member ≠ ':' ∧ (mode.step member next?).2 = .code false) := by
  cases mode with
  | quoted quote =>
      simp only [Mode.step]
      split
      · exact ⟨rfl, spoken, Or.inl True.intro⟩
      · split
        · rename_i ends
          refine ⟨rfl, True.intro, Or.inr ⟨?_, rfl⟩⟩
          rintro rfl
          rcases ends with same | same
          · have colon : isQuote ':' = true := same ▸ spoken
            exact absurd colon (by decide)
          · exact absurd same (by decide)
        · exact ⟨rfl, spoken, Or.inl True.intro⟩
  | escaped quote => exact ⟨rfl, spoken, Or.inl True.intro⟩
  | code afterColon => cases inside
  | commentOpening => cases inside
  | comment => cases inside
  | commentClosing => cases inside
  | remarkOpening => cases inside
  | remark => cases inside

private theorem follows_string {mode : Mode} {atLineStart : Bool} {previous? : Option Char}
    {member : Char} {rest : Text} (inside : mode.InString) (spoken : mode.Spoken)
    (line : atLineStart = true → beginsRemark (member :: rest) = false)
    (unmistakable : mode.Unmistakable previous? (member :: rest)) :
    Follows mode atLineStart 0 member rest := by
  obtain ⟨role, spokenAfter, leads⟩ := step_of_inString inside spoken member rest.head?
  refine follows_of_kept (by rw [role]; rfl) ?_ line spokenAfter ?_ ?_
  · rintro ⟨rfl, star⟩
    obtain ⟨others, rfl⟩ := List.head?_eq_some_iff.mp star
    exact (unmistakable.1 inside).1 (List.prefix_append ['/', '*'] others)
  · intro colon afterColon same
    rcases leads with within | ⟨other, _⟩
    · rw [same] at within
      cases within
    · exact absurd colon other
  · intro other begins
    rcases leads with within | ⟨_, ended⟩
    · exact absurd (colon_of_inString within unmistakable.2.2 begins) other
    · exact ended

private theorem InStep.follows {mode : Mode} {atLineStart : Bool} {skipped : Nat}
    {previous? : Option Char} {member : Char} {rest : Text}
    (inStep : InStep mode atLineStart skipped (member :: rest))
    (unmistakable : mode.Unmistakable previous? (member :: rest))
    (closed : ¬ (mode.after (member :: rest)).InComment) :
    Follows mode atLineStart skipped member rest := by
  cases inStep with
  | spoken spoken line colon =>
      cases mode with
      | code afterColon => exact follows_code line (colon afterColon rfl) unmistakable.2.2 closed
      | quoted quote => exact follows_string True.intro spoken line unmistakable
      | escaped quote => exact follows_string True.intro spoken line unmistakable
      | commentOpening => cases spoken
      | comment => cases spoken
      | commentClosing => cases spoken
      | remarkOpening => cases spoken
      | remark => cases spoken
  | @remarkAhead _ others => exact ⟨false, lineLength ('/' :: others), rfl, .remarkOpening⟩
  | remarkOpening => exact ⟨false, lineLength rest, rfl, .remark⟩
  | remark =>
      by_cases feed : member = '\n'
      · subst feed
        have ended : lineLength ('\n' :: rest) = 0 := by rw [lineLength_cons, if_pos rfl]
        rw [ended]
        refine follows_of_kept rfl ?_ (fun _ => rfl) True.intro ?_ fun _ _ => rfl
        · exact fun slash => absurd slash.1 (by decide)
        · exact fun colon => absurd colon (by decide)
      · have stepped : Mode.remark.step member rest.head? = (.remark, .remark) := by
          rw [Mode.step, if_neg feed]
        refine ⟨false, lineLength rest, ?_, ?_⟩
        · rw [lineLength_cons, if_neg feed, stepped]
          rfl
        · rw [stepped]
          exact .remark
  | @commentOpening _ length _ closes => exact ⟨false, length, rfl, .comment closes⟩
  | comment closes =>
      rw [closingLength?_cons] at closes
      split at closes
      · rename_i ends
        obtain rfl := Option.some.inj closes
        obtain ⟨rfl, slash⟩ := ends
        obtain ⟨others, rfl⟩ := List.head?_eq_some_iff.mp slash
        exact ⟨false, 1, rfl, .commentClosing⟩
      · rename_i stays
        obtain ⟨length, further, rfl⟩ := Option.map_eq_some_iff.mp closes
        have stepped : Mode.comment.step member rest.head? = (.comment, .comment) := by
          simp only [Mode.step, if_neg stays]
        refine ⟨false, length, ?_, ?_⟩
        · rw [stepped]
          rfl
        · rw [stepped]
          exact .comment further
  | commentClosing =>
      have apart : beginsRemark rest = false := by
        rw [Bool.eq_false_iff]
        exact fun begins => unmistakable.2.1 rfl (List.isPrefixOf_iff_prefix.mp begins)
      refine ⟨false, 0, rfl, .spoken True.intro (fun impossible => by cases impossible) ?_⟩
      intro _ _ begins
      rw [apart] at begins
      cases begins

private theorem stripCommentsFrom_eq_spoken (text : Text) :
    ∀ {mode : Mode} {atLineStart : Bool} {skipped : Nat} {previous? : Option Char} (here : Location),
      InStep mode atLineStart skipped text → mode.Unmistakable previous? text →
      ¬ (mode.after text).InComment →
      stripCommentsFrom atLineStart skipped text = Glyph.spoken (Glyph.list mode here text) := by
  induction text with
  | nil =>
      intro mode atLineStart skipped previous? here _ _ _
      rw [stripCommentsFrom]
      rfl
  | cons member rest ih =>
      intro mode atLineStart skipped previous? here inStep unmistakable closed
      obtain ⟨lineStarts, more, stripped, following⟩ := inStep.follows unmistakable closed
      rw [Glyph.list, Glyph.spoken_cons, stripped,
        ih (here.advance member) following unmistakable.2.2 closed]

private theorem stripComments_of_remark {rest : Text}
    (apart : ¬ ['/', '/', '/'] <+: '/' :: '/' :: rest) :
    stripComments ('/' :: '/' :: rest) =
      stripCommentsFrom false (lineLength ('/' :: '/' :: rest)) ('/' :: '/' :: rest) := by
  have single : beginsRemark ('/' :: rest) = false := by
    rw [Bool.eq_false_iff]
    intro further
    obtain ⟨others, same⟩ := exists_of_beginsRemark further
    injection same with _ same
    subst same
    exact apart (List.prefix_append ['/', '/', '/'] others)
  have begins : beginsRemark ('/' :: '/' :: rest) = true := rfl
  have noBlock : blockCommentLength? ('/' :: '/' :: rest) = none := rfl
  rw [stripComments, stripCommentsFrom, noBlock]
  simp only [single, begins]
  rfl

/-- Of an unmistakable body without an open comment, at any depth, exactly the comments are
removed that a scan of the body finds. -/
theorem stripComments_eq_spoken {body : Body} (unmistakable : body.text.Unmistakable)
    (closed : ¬ ((Mode.code false).after body.text).InComment) :
    stripComments body.text = Glyph.spoken body.glyphs := by
  obtain ⟨text, here⟩ := body
  simp only [Body.glyphs] at *
  cases begins : beginsRemark text with
  | false =>
      refine stripCommentsFrom_eq_spoken text here ?_ unmistakable.goes closed
      refine .spoken True.intro (fun _ => begins) fun _ _ impossible => ?_
      rw [begins] at impossible
      cases impossible
  | true =>
      obtain ⟨rest, rfl⟩ := exists_of_beginsRemark begins
      rw [stripComments_of_remark unmistakable.begins]
      exact stripCommentsFrom_eq_spoken _ here .remarkAhead unmistakable.goes closed

theorem stripComments_eq_spoken_of_rules :
    let text : Text := ("/* a */from\x7bb:url(\x22http://c/d\x22);e:'/'\x7d// f\n" ++
      "to\x7bg:h /* ' */ //i\n\x7d").toList
    text.Unmistakable ∧ ¬ ((Mode.code false).after text).InComment ∧
      stripComments text = Glyph.spoken (Body.ofSource text).glyphs ∧
      stripComments text =
        "from\x7bb:url(\x22http://c/d\x22);e:'/'\x7d\nto\x7bg:h  \n\x7d".toList := by
  intro text
  have unmistakable : (Body.ofSource text).text.Unmistakable := by decide +kernel
  have closed : ¬ ((Mode.code false).after (Body.ofSource text).text).InComment := by decide +kernel
  exact ⟨unmistakable, closed, stripComments_eq_spoken unmistakable closed, by decide +kernel⟩

/-- In a string a comment is removed as well, and of a line comment directly after a block
comment, or of three slashes at the start of the text, something is left. -/
theorem stripComments_ne_spoken :
    ((Mode.code false).after "\x22/*a*/\x22".toList = .code false ∧
      stripComments "\x22/*a*/\x22".toList = "\x22\x22".toList ∧
      Glyph.spoken (Body.ofSource "\x22/*a*/\x22".toList).glyphs = "\x22/*a*/\x22".toList) ∧
    ((Mode.code false).after "/*a*///b\n".toList = .code false ∧
      stripComments "/*a*///b\n".toList = "//b\n".toList ∧
      Glyph.spoken (Body.ofSource "/*a*///b\n".toList).glyphs = "\n".toList) ∧
    (Mode.code false).after "///a\n".toList = .code false ∧
      stripComments "///a\n".toList = "/\n".toList ∧
      Glyph.spoken (Body.ofSource "///a\n".toList).glyphs = "\n".toList := by
  decide +kernel

end Keyframes
end NestedCss
