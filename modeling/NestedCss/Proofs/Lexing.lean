import NestedCss.Glyph

set_option autoImplicit false

/-! Reading a text in two parts. The only place where a part looks beyond its
end is its last character, which may begin or end a comment together with the
next one; where it does not, modes, glyphs and brace depths of the whole are
those of the first part and then those of the second. A text is closed when it
opens no block, string or comment that it does not close itself. -/

namespace NestedCss

namespace Mode

/-- Whether a text is read before `next?` as it is read at the end of a text. -/
def Unaffected (next? : Option Char) (mode : Mode) : Text → Prop
  | [] => True
  | [last] => mode.step last next? = mode.step last none
  | member :: second :: rest =>
      Unaffected next? (mode.step member (some second)).2 (second :: rest)

theorem step_of_plain (mode : Mode) (member : Char) {next? : Option Char}
    (notStar : next? ≠ some '*') (notSlash : next? ≠ some '/') :
    mode.step member next? = mode.step member none := by
  cases mode <;> simp [step, stepCode, notStar, notSlash]

theorem unaffected_of_plain (mode : Mode) (text : Text) {next? : Option Char}
    (notStar : next? ≠ some '*') (notSlash : next? ≠ some '/') : mode.Unaffected next? text := by
  induction text generalizing mode with
  | nil => exact True.intro
  | cons member rest ih =>
      cases rest with
      | nil => exact mode.step_of_plain member notStar notSlash
      | cons second others => exact ih _

theorem step_head?_append {mode : Mode} {member : Char} {rest second : Text}
    (unaffected : mode.Unaffected second.head? (member :: rest)) :
    mode.step member (rest ++ second).head? = mode.step member rest.head? := by
  cases rest with
  | nil => exact unaffected
  | cons other others => rfl

theorem unaffected_tail {mode : Mode} {member : Char} {rest : Text} {next? : Option Char}
    (unaffected : mode.Unaffected next? (member :: rest)) :
    (mode.step member rest.head?).2.Unaffected next? rest := by
  cases rest with
  | nil => exact True.intro
  | cons other others => exact unaffected

/-- What is held is changed by each character of a text and the way it is read. -/
def fold {σ : Type} (change : Role × Mode → Char → σ → σ) (mode : Mode) (held : σ) : Text → σ
  | [] => held
  | member :: rest =>
      (mode.step member rest.head?).2.fold change
        (change (mode.step member rest.head?) member held) rest

section Fold

variable {σ : Type} {change : Role × Mode → Char → σ → σ}

theorem fold_append {mode : Mode} {first second : Text}
    (unaffected : mode.Unaffected second.head? first) (held : σ) :
    mode.fold change held (first ++ second) =
      (mode.after first).fold change (mode.fold change held first) second := by
  induction first generalizing mode held with
  | nil => rfl
  | cons member rest ih =>
      rw [List.cons_append, fold, fold, step_head?_append unaffected]
      exact ih (unaffected_tail unaffected) _

/-- Where a delimiter makes a start, what stands before it does not matter. -/
theorem fold_delimiter {member : Char} (delimits : member ∈ [';', '{', '}']) {start : σ}
    (starts : ∀ held, change (.code, .code false) member held = start) {before : Text}
    {afterColon : Bool} (code : (Mode.code false).after before = .code afterColon) (rest : Text) :
    (Mode.code false).fold change start (before ++ member :: rest) =
      (Mode.code false).fold change start rest := by
  simp only [List.mem_cons, List.not_mem_nil, or_false] at delimits
  have plain : some member ≠ some '*' ∧ some member ≠ some '/' := by
    rcases delimits with rfl | rfl | rfl <;> decide
  have stepped : (Mode.code afterColon).step member rest.head? = (.code, .code false) := by
    rcases delimits with rfl | rfl | rfl <;> rfl
  have unaffected : (Mode.code false).Unaffected (member :: rest).head? before :=
    unaffected_of_plain _ before plain.1 plain.2
  rw [fold_append unaffected, code, fold, stepped, starts]

end Fold

theorem after_eq_fold (mode : Mode) (text : Text) :
    mode.after text = mode.fold (fun read _ _ => read.2) mode text := by
  induction text generalizing mode with
  | nil => rfl
  | cons member rest ih => exact ih _

theorem after_append {mode : Mode} {first second : Text}
    (unaffected : mode.Unaffected second.head? first) :
    mode.after (first ++ second) = (mode.after first).after second := by
  rw [after_eq_fold, fold_append unaffected, ← after_eq_fold, ← after_eq_fold]

theorem after_opening {outside : Text} {afterColon : Bool}
    (code : (Mode.code false).after outside = .code afterColon) (first : Text) :
    (Mode.code false).after (outside ++ '{' :: first) = (Mode.code false).after first := by
  rw [after_eq_fold, after_eq_fold, fold_delimiter (by decide) (fun _ => rfl) code]

end Mode

theorem Glyph.list_cons (mode : Mode) (here : Location) (member : Char) (rest : Text) :
    Glyph.list mode here (member :: rest) =
      ⟨member, (mode.step member rest.head?).1, here⟩ ::
        Glyph.list (mode.step member rest.head?).2 (here.advance member) rest := rfl

theorem Glyph.list_append {mode : Mode} (here : Location) {first second : Text}
    (unaffected : mode.Unaffected second.head? first) :
    Glyph.list mode here (first ++ second) =
      Glyph.list mode here first ++
        Glyph.list (mode.after first) (here.advanceOver first) second := by
  induction first generalizing mode here with
  | nil => rfl
  | cons member rest ih =>
      rw [List.cons_append, Glyph.list, Glyph.list, Mode.step_head?_append unaffected]
      simp only [List.cons_append]
      rw [ih (here.advance member) (Mode.unaffected_tail unaffected)]
      rfl

/-! ### Braces -/

def depthAfter? (role : Role) (member : Char) (depth : Nat) : Option Nat :=
  if role = .code ∧ member = '{' then some (depth + 1)
  else if role = .code ∧ member = '}' then
    match depth with
    | 0 => none
    | outer + 1 => some outer
  else some depth

def Mode.openAfter (mode : Mode) (depth : Nat) : Text → Option Nat
  | [] => some depth
  | member :: rest =>
      (depthAfter? (mode.step member rest.head?).1 member depth).bind fun inner =>
        (mode.step member rest.head?).2.openAfter inner rest

theorem Mode.openAfter_append {mode : Mode} {first second : Text}
    (unaffected : mode.Unaffected second.head? first) (depth : Nat) :
    mode.openAfter depth (first ++ second) =
      (mode.openAfter depth first).bind fun inner => (mode.after first).openAfter inner second := by
  induction first generalizing mode depth with
  | nil => rfl
  | cons member rest ih =>
      rw [List.cons_append, openAfter, openAfter, step_head?_append unaffected]
      cases depthAfter? (mode.step member rest.head?).1 member depth with
      | none => rfl
      | some inner => exact ih (unaffected_tail unaffected) inner

theorem Mode.step_of_brace {mode : Mode} {member : Char} {next? : Option Char}
    (role : (mode.step member next?).1 = .code) (brace : member = '{' ∨ member = '}') :
    ∃ afterColon, mode = .code afterColon ∧ mode.step member next? = (.code, .code false) := by
  cases mode with
  | code afterColon =>
      refine ⟨afterColon, rfl, ?_⟩
      rcases brace with rfl | rfl <;> simp [step, stepCode, isQuote]
  | quoted quote =>
      simp only [step] at role
      split at role
      · cases role
      · split at role <;> cases role
  | escaped quote => cases role
  | commentOpening => cases role
  | comment =>
      simp only [step] at role
      split at role <;> cases role
  | commentClosing => cases role
  | remarkOpening => cases role
  | remark =>
      simp only [step] at role
      split at role
      · rename_i feed
        rcases brace with rfl | rfl <;> exact absurd feed (by decide)
      · cases role

/-- A text that closes every block, string and comment that it opens, and no
block that it does not. -/
structure Text.Closed (text : Text) : Prop where
  balanced : (Mode.code false).openAfter 0 text = some 0
  settled : ∃ afterColon, (Mode.code false).after text = .code afterColon

end NestedCss
