import NestedCss.Proofs.Headings

set_option autoImplicit false

/-! Tidy text. Every string in it is closed by its own quote, and a slash is followed by a
character, blanks aside, that neither opens a comment with it nor gives way to other text.
Such a text is gathered as a whole when it is scanned: nothing in it opens a comment, and
no string goes on past its end. -/

namespace NestedCss

def Text.firstSolid? (text : Text) : Option Char := text.find? fun member => !isBlank member

/-- What must not follow a slash: a character that opens a comment with it, and one that
other text may take the place of. -/
def slashHazards : List Char := ['/', '*', parentMark, '!']

/-- A text that is tidy when it is read in a mode. If it is `bare`, no string in it holds the
mark for the enclosing rule. -/
inductive Text.Tidy (bare : Bool) : Mode → Text → Prop
  | nil (afterColon : Bool) : Tidy bare (.code afterColon) []
  | plain {afterColon : Bool} {member : Char} {rest : Text}
      (ordinary : member ∉ [';', '{', '}', '/']) (unquoted : isQuote member = false)
      (following : Tidy bare (.code (member == ':')) rest) :
      Tidy bare (.code afterColon) (member :: rest)
  | slash {afterColon : Bool} {next : Char} {rest : Text} (continued : rest.firstSolid? = some next)
      (harmless : next ∉ slashHazards) (following : Tidy bare (.code false) rest) :
      Tidy bare (.code afterColon) ('/' :: rest)
  | address {rest : Text} (following : Tidy bare (.code false) ('/' :: rest)) :
      Tidy bare (.code true) ('/' :: '/' :: rest)
  | opening {afterColon : Bool} {quote : Char} {rest : Text} (opens : isQuote quote = true)
      (following : Tidy bare (.quoted quote) rest) : Tidy bare (.code afterColon) (quote :: rest)
  | closing {quote : Char} {rest : Text} (opened : isQuote quote = true)
      (following : Tidy bare (.code false) rest) : Tidy bare (.quoted quote) (quote :: rest)
  | within {quote member : Char} {rest : Text} (kept : member ∉ [quote, '\\', '\n'])
      (unmarked : bare = true → member ≠ parentMark)
      (following : Tidy bare (.quoted quote) rest) : Tidy bare (.quoted quote) (member :: rest)
  | escape {quote : Char} {rest : Text} (following : Tidy bare (.escaped quote) rest) :
      Tidy bare (.quoted quote) ('\\' :: rest)
  | escaped {quote member : Char} {rest : Text} (solid : isBlank member = false)
      (unmarked : bare = true → member ≠ parentMark)
      (following : Tidy bare (.quoted quote) rest) : Tidy bare (.escaped quote) (member :: rest)

namespace Text.Tidy

variable {bare : Bool} {mode : Mode} {text : Text}

theorem anywhere (tidy : Tidy bare (.code false) text) (afterColon : Bool) :
    Tidy bare (.code afterColon) text := by
  cases tidy with
  | nil => exact .nil afterColon
  | plain ordinary unquoted following => exact .plain ordinary unquoted following
  | slash continued harmless following => exact .slash continued harmless following
  | opening opens following => exact .opening opens following

theorem isQuote_of_string {quote : Char} (tidy : Tidy bare mode text)
    (inside : mode = .quoted quote ∨ mode = .escaped quote) : isQuote quote = true := by
  induction tidy with
  | nil => rcases inside with same | same <;> cases same
  | plain _ _ _ _ => rcases inside with same | same <;> cases same
  | slash _ _ _ _ => rcases inside with same | same <;> cases same
  | address _ _ => rcases inside with same | same <;> cases same
  | opening _ _ _ => rcases inside with same | same <;> cases same
  | closing opened _ _ =>
      rcases inside with same | same
      · injection same with same
        exact same ▸ opened
      · cases same
  | within _ _ _ ih => exact ih inside
  | escape _ ih =>
      apply ih
      rcases inside with same | same
      · injection same with same
        exact Or.inr (same ▸ rfl)
      · cases same
  | escaped _ _ _ ih =>
      apply ih
      rcases inside with same | same
      · cases same
      · injection same with same
        exact Or.inl (same ▸ rfl)

theorem append {other : Text} (first : Tidy bare mode text)
    (second : Tidy bare (.code false) other) : Tidy bare mode (text ++ other) := by
  induction first with
  | nil afterColon => exact second.anywhere afterColon
  | plain ordinary unquoted _ ih => exact .plain ordinary unquoted ih
  | @slash afterColon next rest continued harmless _ ih =>
      apply slash _ harmless ih
      rw [firstSolid?, List.find?_append]
      rw [firstSolid?] at continued
      rw [continued, Option.some_or]
  | address _ ih => exact .address ih
  | opening opens _ ih => exact .opening opens ih
  | closing opened _ ih => exact .closing opened ih
  | within kept unmarked _ ih => exact .within kept unmarked ih
  | escape _ ih => exact .escape ih
  | escaped solid unmarked _ ih => exact .escaped solid unmarked ih

theorem plain_append {front rest : Text} (plain : front.Plain) (tidy : Tidy bare (.code false) rest)
    (afterColon : Bool) : Tidy bare (.code afterColon) (front ++ rest) := by
  induction front generalizing afterColon with
  | nil => exact tidy.anywhere afterColon
  | cons member others ih =>
      obtain ⟨ordinary, unquoted⟩ := plain member (List.mem_cons_self ..)
      exact .plain ordinary unquoted
        (ih (fun other present => plain other (List.mem_cons_of_mem _ present)) _)

/-! ### Reading a tidy text -/

theorem head?_of_continued {rest : Text} {next : Char} (continued : rest.firstSolid? = some next)
    (harmless : next ∉ slashHazards) : rest.head? ≠ some '/' ∧ rest.head? ≠ some '*' := by
  cases rest with
  | nil => cases continued
  | cons member others =>
      have solidSlash : isBlank '/' = false := by decide
      have solidStar : isBlank '*' = false := by decide
      constructor
      · intro slash
        injection slash with same
        subst same
        simp [firstSolid?, solidSlash] at continued
        exact harmless (by rw [← continued]; decide)
      · intro star
        injection star with same
        subst same
        simp [firstSolid?, solidStar] at continued
        exact harmless (by rw [← continued]; decide)

theorem gathers (tidy : Tidy bare mode text) : mode.Gathers text := by
  induction tidy with
  | nil afterColon => exact .nil afterColon
  | plain ordinary unquoted _ ih => exact .plain ordinary unquoted ih
  | @slash afterColon next rest continued harmless _ ih =>
      obtain ⟨noSlash, noStar⟩ := head?_of_continued continued harmless
      have role : (Mode.code afterColon).step '/' rest.head? = (.code, .code false) := by
        simp [Mode.step, Mode.stepCode, noSlash, noStar, isQuote]
      exact .cons role (fun _ => Or.inr ⟨rfl, by simp⟩) ih
  | @address rest _ ih =>
      have role : (Mode.code true).step '/' (some '/') = (.code, .code false) := by
        simp [Mode.step, Mode.stepCode, isQuote]
      exact .cons role (fun _ => Or.inr ⟨rfl, by simp⟩) ih
  | opening opens _ ih => exact .opening opens ih
  | closing opened _ ih => exact .closing opened ih
  | within kept _ _ ih => exact .within kept ih
  | escape _ ih => exact .cons rfl (fun _ => Or.inl rfl) ih
  | escaped _ _ _ ih => exact .cons rfl (fun _ => Or.inl rfl) ih

end Text.Tidy

/-! ### Deciding -/

def Text.isTidy (bare : Bool) : Mode → Text → Bool
  | .code _, [] => true
  | .code afterColon, member :: rest =>
      if member = '/' then
        (afterColon && rest.head? = some '/' || (firstSolid? rest).any (· ∉ slashHazards)) &&
          isTidy bare (.code false) rest
      else if isQuote member then isTidy bare (.quoted member) rest
      else member ∉ [';', '{', '}'] && isTidy bare (.code (member == ':')) rest
  | .quoted quote, member :: rest =>
      if member = '\\' then isTidy bare (.escaped quote) rest
      else if member = quote then isQuote quote && isTidy bare (.code false) rest
      else member ≠ '\n' && (!bare || member ≠ parentMark) && isTidy bare (.quoted quote) rest
  | .escaped quote, member :: rest =>
      !isBlank member && (!bare || member ≠ parentMark) && isTidy bare (.quoted quote) rest
  | _, _ => false

theorem Text.tidy_of_isTidy {bare : Bool} {mode : Mode} {text : Text}
    (checked : text.isTidy bare mode = true) : Tidy bare mode text := by
  induction text generalizing mode with
  | nil =>
      cases mode with
      | code afterColon => exact .nil afterColon
      | quoted quote => cases checked
      | escaped quote => cases checked
      | commentOpening => cases checked
      | comment => cases checked
      | commentClosing => cases checked
      | remarkOpening => cases checked
      | remark => cases checked
  | cons member rest ih =>
      cases mode with
      | code afterColon =>
          rw [isTidy] at checked
          split at checked
          · rename_i slash
            subst slash
            obtain ⟨way, following⟩ := Bool.and_eq_true_iff.mp checked
            rcases Bool.or_eq_true_iff.mp way with twice | continued
            · obtain ⟨colon, second⟩ := Bool.and_eq_true_iff.mp twice
              obtain ⟨others, same⟩ := List.head?_eq_some_iff.mp (of_decide_eq_true second)
              subst same
              rw [colon]
              exact .address (ih following)
            · cases found : firstSolid? rest with
              | none =>
                  rw [found] at continued
                  cases continued
              | some next =>
                  rw [found] at continued
                  exact .slash found (of_decide_eq_true continued) (ih following)
          · rename_i noSlash
            split at checked
            · rename_i opens
              exact .opening opens (ih checked)
            · rename_i unquoted
              obtain ⟨ordinary, following⟩ := Bool.and_eq_true_iff.mp checked
              have kept := of_decide_eq_true ordinary
              refine .plain ?_ (Bool.eq_false_iff.mpr unquoted) (ih following)
              simp only [List.mem_cons, List.not_mem_nil, or_false, not_or] at kept ⊢
              exact ⟨kept.1, kept.2.1, kept.2.2, noSlash⟩
      | quoted quote =>
          rw [isTidy] at checked
          split at checked
          · rename_i escape
            subst escape
            exact .escape (ih checked)
          · rename_i noEscape
            split at checked
            · rename_i closes
              subst closes
              obtain ⟨opened, following⟩ := Bool.and_eq_true_iff.mp checked
              exact .closing opened (ih following)
            · rename_i noQuote
              obtain ⟨kept, following⟩ := Bool.and_eq_true_iff.mp checked
              obtain ⟨noFeed, unmarked⟩ := Bool.and_eq_true_iff.mp kept
              refine .within ?_ ?_ (ih following)
              · have other := of_decide_eq_true noFeed
                simp [noQuote, noEscape, other]
              · rintro rfl
                simpa using unmarked
      | escaped quote =>
          rw [isTidy] at checked
          obtain ⟨kept, following⟩ := Bool.and_eq_true_iff.mp checked
          obtain ⟨solid, unmarked⟩ := Bool.and_eq_true_iff.mp kept
          refine .escaped ?_ ?_ (ih following)
          · simpa using solid
          · rintro rfl
            simpa using unmarked
      | commentOpening => cases checked
      | comment => cases checked
      | commentClosing => cases checked
      | remarkOpening => cases checked
      | remark => cases checked

end NestedCss
