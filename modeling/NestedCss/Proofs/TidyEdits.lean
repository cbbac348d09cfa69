import NestedCss.Proofs.MediaQueries
import NestedCss.Proofs.TidyText
import NestedCss.RuleTree.Scope

set_option autoImplicit false

/-! What is done to a text on its way into a sheet: blanks are dropped or become spaces, ends
are cut off, texts are joined, and a mark gives way to another text. All of it keeps a text
tidy, so no string and no comment is open where it was not in the source. -/

namespace NestedCss

/-! ### Dropping and replacing blanks -/

/-- The same text up to blanks, of which some may be dropped and others be spaces instead. -/
inductive Text.Reblanked : Text → Text → Prop
  | nil : Reblanked [] []
  | same (member : Char) {rest other : Text} (following : Reblanked rest other) :
      Reblanked (member :: rest) (member :: other)
  | dropped {member : Char} {rest other : Text} (blank : isBlank member = true)
      (following : Reblanked rest other) : Reblanked (member :: rest) other
  | spaced {member : Char} {rest other : Text} (blank : isBlank member = true)
      (following : Reblanked rest other) : Reblanked (member :: rest) (' ' :: other)

namespace Text.Reblanked

private theorem refl (text : Text) : Reblanked text text := by
  induction text with
  | nil => exact .nil
  | cons member rest ih => exact .same member ih

private theorem append {first second other another : Text} (front : Reblanked first other)
    (back : Reblanked second another) : Reblanked (first ++ second) (other ++ another) := by
  induction front with
  | nil => exact back
  | same member _ ih => exact .same member ih
  | dropped blank _ ih => exact .dropped blank ih
  | spaced blank _ ih => exact .spaced blank ih

private theorem exists_of_solid {member : Char} {rest other : Text} (solid : isBlank member = false)
    (reblanked : Reblanked (member :: rest) other) :
    ∃ later, other = member :: later ∧ Reblanked rest later := by
  cases reblanked with
  | same _ following => exact ⟨_, rfl, following⟩
  | dropped blank _ => cases solid.symm.trans blank
  | spaced blank _ => cases solid.symm.trans blank

private theorem firstSolid?_eq {text other : Text} (reblanked : Reblanked text other) :
    text.firstSolid? = other.firstSolid? := by
  induction reblanked with
  | nil => rfl
  | same member _ ih =>
      simp only [firstSolid?, List.find?_cons] at ih ⊢
      rw [ih]
  | dropped blank _ ih =>
      simp only [firstSolid?, List.find?_cons, blank, Bool.not_true] at ih ⊢
      exact ih
  | spaced blank _ ih =>
      have space : isBlank ' ' = true := by decide
      simp only [firstSolid?, List.find?_cons, blank, space, Bool.not_true] at ih ⊢
      exact ih

private theorem nil_of_blank {text : Text} (blank : ∀ member ∈ text, isBlank member = true) :
    Reblanked text [] := by
  induction text with
  | nil => exact .nil
  | cons member rest ih =>
      exact .dropped (blank member (List.mem_cons_self ..))
        (ih fun other present => blank other (List.mem_cons_of_mem _ present))

private theorem trimStart (text : Text) : Reblanked text text.trimStart := by
  have blank : Reblanked (text.takeWhile isBlank) [] :=
    nil_of_blank fun member present => List.mem_takeWhile_imp present
  have whole := blank.append (refl (text.dropWhile isBlank))
  rw [List.takeWhile_append_dropWhile] at whole
  exact whole

private theorem trimEnd (text : Text) : Reblanked text text.trimEnd := by
  have blank : Reblanked (text.reverse.takeWhile isBlank).reverse [] := by
    apply nil_of_blank
    intro member present
    exact List.mem_takeWhile_imp (List.mem_reverse.mp present)
  have whole := (refl (text.reverse.dropWhile isBlank).reverse).append blank
  rw [← List.reverse_append, List.takeWhile_append_dropWhile, List.reverse_reverse,
    List.append_nil] at whole
  exact whole

theorem dropBlanks (text : Text) : Reblanked text text.dropBlanks := by
  induction text with
  | nil => exact .nil
  | cons member rest ih =>
      cases blank : isBlank member with
      | true =>
          rw [dropBlanks_cons_of_blank blank]
          exact .dropped blank ih
      | false =>
          rw [dropBlanks_cons_of_solid blank]
          exact .same member ih

private theorem squeezeAfter (text : Text) : ∀ previous? : Option Char,
    Reblanked text (Text.squeezeAfter (fun _ => false) previous? false text) ∧
      ∀ gap : Char, isBlank gap = true →
        Reblanked (gap :: text) (Text.squeezeAfter (fun _ => false) previous? true text) := by
  induction text with
  | nil => exact fun _ => ⟨.nil, fun _ blank => .dropped blank .nil⟩
  | cons member rest ih =>
      intro previous?
      cases blank : isBlank member with
      | true =>
          rw [Text.squeezeAfter, Text.squeezeAfter, if_pos blank, if_pos blank]
          have passed := (ih previous?).2 member blank
          exact ⟨passed, fun gap gapBlank => .dropped gapBlank passed⟩
      | false =>
          rw [Text.squeezeAfter, Text.squeezeAfter, blank]
          simp only [Bool.false_eq_true, if_false, Bool.false_and, Bool.true_and]
          have kept := Reblanked.same member (ih (some member)).1
          constructor
          · exact kept
          · intro gap gapBlank
            split
            · exact .spaced gapBlank kept
            · exact .dropped gapBlank kept

theorem squeeze (text : Text) : Reblanked text (Text.squeeze (fun _ => false) text) :=
  (squeezeAfter text none).1

end Text.Reblanked

namespace Text.Tidy

variable {bare : Bool} {mode : Mode} {text : Text}

private theorem beq_colon_of_isBlank {member : Char} (blank : isBlank member = true) :
    (member == ':') = false := by
  rw [beq_eq_false_iff_ne]
  rintro rfl
  cases Assembly.isBlank_colon.symm.trans blank

theorem reblanked {other : Text} (tidy : Tidy bare mode text) (blanks : Reblanked text other) :
    Tidy bare mode other := by
  have solidSlash : isBlank '/' = false := by decide
  induction tidy generalizing other with
  | nil afterColon =>
      cases blanks
      exact .nil afterColon
  | @plain afterColon member rest ordinary unquoted _ ih =>
      cases blanks with
      | same _ following => exact .plain ordinary unquoted (ih following)
      | dropped blank following =>
          have noColon := beq_colon_of_isBlank blank
          have kept := ih following
          rw [noColon] at kept
          exact kept.anywhere afterColon
      | spaced blank following =>
          have noColon := beq_colon_of_isBlank blank
          have kept := ih following
          rw [noColon] at kept
          exact .plain (by decide) (by decide) kept
  | slash continued harmless _ ih =>
      obtain ⟨_, rfl, following⟩ := blanks.exists_of_solid solidSlash
      exact .slash (following.firstSolid?_eq ▸ continued) harmless (ih following)
  | address _ ih =>
      obtain ⟨_, rfl, following⟩ := blanks.exists_of_solid solidSlash
      obtain ⟨_, rfl, further⟩ := following.exists_of_solid solidSlash
      exact .address (ih (.same '/' further))
  | opening opens _ ih =>
      obtain ⟨_, rfl, following⟩ := blanks.exists_of_solid (Assembly.isBlank_of_isQuote opens)
      exact .opening opens (ih following)
  | closing opened _ ih =>
      obtain ⟨_, rfl, following⟩ := blanks.exists_of_solid (Assembly.isBlank_of_isQuote opened)
      exact .closing opened (ih following)
  | @within quote member rest kept unmarked following ih =>
      cases blanks with
      | same _ further => exact .within kept unmarked (ih further)
      | dropped blank further => exact ih further
      | spaced blank further =>
          have solid := Assembly.isBlank_of_isQuote (following.isQuote_of_string (Or.inl rfl))
          have other : ' ' ≠ quote := by
            rintro rfl
            cases solid
          exact .within (by simp [other]) (fun _ => by decide) (ih further)
  | escape _ ih =>
      obtain ⟨_, rfl, following⟩ := blanks.exists_of_solid (by decide)
      exact .escape (ih following)
  | escaped solid unmarked _ ih =>
      obtain ⟨_, rfl, following⟩ := blanks.exists_of_solid solid
      exact .escaped solid unmarked (ih following)

/-! ### Other text in the place of a mark -/

private theorem firstSolid?_replaceChar {target next : Char} (substitute : Text)
    (solid : isBlank target = false)
    (other : next ≠ target) {rest : Text} (continued : rest.firstSolid? = some next) :
    (Text.replaceChar target substitute rest).firstSolid? = some next := by
  induction rest with
  | nil => cases continued
  | cons member rest ih =>
      have kept : member ≠ target := by
        rintro rfl
        simp only [firstSolid?, List.find?_cons, solid, Bool.not_false] at continued
        injection continued with same
        exact other same.symm
      have split : Text.replaceChar target substitute (member :: rest) =
          member :: Text.replaceChar target substitute rest := by
        simp [Text.replaceChar, kept]
      rw [split]
      simp only [firstSolid?, List.find?_cons] at continued ih ⊢
      cases blank : isBlank member with
      | true =>
          rw [blank] at continued
          exact ih continued
      | false =>
          rw [blank] at continued
          exact continued

private theorem replaceChar_parentMark {parent : Text} (tidy : Tidy true mode text)
    (above : Tidy true (.code false) parent) :
    Tidy true mode (Text.replaceChar parentMark parent text) := by
  have kept : ∀ {member : Char} (rest : Text), member ≠ parentMark →
      Text.replaceChar parentMark parent (member :: rest) =
        member :: Text.replaceChar parentMark parent rest := by
    intro member rest other
    simp [Text.replaceChar, other]
  have notQuote : ∀ {quote : Char}, isQuote quote = true → quote ≠ parentMark := by
    rintro quote opens rfl
    cases opens
  induction tidy with
  | nil afterColon => exact .nil afterColon
  | @plain afterColon member rest ordinary unquoted _ ih =>
      by_cases mark : member = parentMark
      · subst mark
        have split : Text.replaceChar parentMark parent (parentMark :: rest) =
            parent ++ Text.replaceChar parentMark parent rest := by
          simp [Text.replaceChar]
        rw [split]
        exact (above.anywhere afterColon).append ih
      · rw [kept rest mark]
        exact .plain ordinary unquoted ih
  | @slash afterColon next rest continued harmless _ ih =>
      rw [kept rest (by decide)]
      have other : next ≠ parentMark := by
        rintro rfl
        exact harmless (by decide)
      exact .slash (firstSolid?_replaceChar parent (by decide) other continued) harmless ih
  | @address rest _ ih =>
      rw [kept _ (by decide)]
      rw [kept rest (by decide)] at ih ⊢
      exact .address ih
  | @opening afterColon quote rest opens _ ih =>
      rw [kept rest (notQuote opens)]
      exact .opening opens ih
  | @closing quote rest opened _ ih =>
      rw [kept rest (notQuote opened)]
      exact .closing opened ih
  | @within quote member rest outside unmarked _ ih =>
      rw [kept rest (unmarked rfl)]
      exact .within outside unmarked ih
  | @escape quote rest _ ih =>
      rw [kept rest (by decide)]
      exact .escape ih
  | @escaped quote member rest solid unmarked _ ih =>
      rw [kept rest (unmarked rfl)]
      exact .escaped solid unmarked ih

theorem trim (tidy : Tidy bare mode text) : Tidy bare mode text.trim :=
  (tidy.reblanked (.trimStart text)).reblanked (.trimEnd text.trimStart)

theorem joinSelector {parent selector : Text} (above : Tidy true (.code false) parent)
    (tidy : Tidy true (.code false) selector) :
    Tidy true (.code false) (joinSelector parent selector) := by
  unfold NestedCss.joinSelector
  split
  · exact (replaceChar_parentMark tidy above).trim
  · have joined : Tidy true (.code false) (parent ++ ' ' :: selector) :=
      above.append (.plain (by decide) (by decide) tidy)
    exact joined.trim

end Text.Tidy

/-! ### Ends that are cut off -/

/-- Text in which nothing ends or opens a string, opens a comment or leads to an address. -/
def Text.Bland (text : Text) : Prop :=
  ∀ member ∈ text, member ≠ '/' ∧ member ≠ ':' ∧ isQuote member = false

instance (text : Text) : Decidable text.Bland := List.decidableBAll _ text

private theorem Text.Bland.tail {member : Char} {rest : Text}
    (bland : Text.Bland (member :: rest)) :
    rest.Bland := fun other present => bland other (List.mem_cons_of_mem _ present)

namespace Text.Tidy

variable {bare : Bool} {mode : Mode} {text : Text}

theorem tail {afterColon : Bool} {member : Char} {rest : Text}
    (tidy : Tidy bare (.code afterColon) (member :: rest)) (noSlash : member ≠ '/')
    (noColon : member ≠ ':') (unquoted : isQuote member = false) :
    Tidy bare (.code false) rest := by
  cases tidy with
  | plain _ _ following =>
      rw [beq_eq_false_iff_ne.mpr noColon] at following
      exact following
  | slash => exact absurd rfl noSlash
  | address => exact absurd rfl noSlash
  | opening opens _ => cases unquoted.symm.trans opens

theorem of_append {front rest : Text} (tidy : Tidy bare (.code false) (front ++ rest))
    (bland : front.Bland) : Tidy bare (.code false) rest := by
  induction front with
  | nil => exact tidy
  | cons member others ih =>
      obtain ⟨noSlash, noColon, unquoted⟩ := bland member (List.mem_cons_self ..)
      exact ih (tail tidy noSlash noColon unquoted) bland.tail

private theorem exists_code_of_bland (tidy : Tidy bare mode text) (bland : text.Bland) :
    ∃ afterColon, mode = .code afterColon := by
  induction tidy with
  | nil afterColon => exact ⟨afterColon, rfl⟩
  | plain _ _ _ _ => exact ⟨_, rfl⟩
  | slash _ _ _ _ => exact ⟨_, rfl⟩
  | address _ _ => exact ⟨_, rfl⟩
  | opening _ _ _ => exact ⟨_, rfl⟩
  | closing opened _ _ => cases (bland _ (List.mem_cons_self ..)).2.2.symm.trans opened
  | within _ _ _ ih =>
      obtain ⟨_, same⟩ := ih bland.tail
      cases same
  | escape _ ih =>
      obtain ⟨_, same⟩ := ih bland.tail
      cases same
  | escaped _ _ _ ih =>
      obtain ⟨_, same⟩ := ih bland.tail
      cases same

private theorem firstSolid?_of_append_bang {front ending : Text} {next : Char}
    (continued : (front ++ '!' :: ending).firstSolid? = some next)
    (harmless : next ∉ slashHazards) : front.firstSolid? = some next := by
  unfold Text.firstSolid? at continued ⊢
  rw [List.find?_append] at continued
  cases before : front.find? fun member => !isBlank member with
  | some first =>
      rw [before, Option.some_or] at continued
      exact continued
  | none =>
      have solid : isBlank '!' = false := by decide
      rw [before, Option.none_or, List.find?_cons, solid] at continued
      injection continued with same
      exact absurd (same ▸ (by decide : '!' ∈ slashHazards)) harmless

theorem of_append_bang {ending : Text} (bland : Text.Bland ('!' :: ending))
    (tidy : Tidy bare mode (text ++ '!' :: ending)) : Tidy bare mode text := by
  induction text generalizing mode with
  | nil =>
      obtain ⟨afterColon, rfl⟩ := tidy.exists_code_of_bland bland
      exact .nil afterColon
  | cons member others ih =>
      rw [List.cons_append] at tidy
      generalize joined : others ++ '!' :: ending = whole at tidy ih
      cases tidy with
      | plain ordinary plain following => exact .plain ordinary plain (ih following)
      | slash continued harmless following =>
          rw [← joined] at continued
          exact .slash (firstSolid?_of_append_bang continued harmless) harmless (ih following)
      | address following =>
          have kept := ih following
          cases others with
          | nil =>
              injection joined with same _
              cases same
          | cons second rest =>
              injection joined with same _
              subst same
              exact .address kept
      | opening opens following => exact .opening opens (ih following)
      | closing opened following => exact .closing opened (ih following)
      | within kept unmarked following => exact .within kept unmarked (ih following)
      | escape following => exact .escape (ih following)
      | escaped solid unmarked following => exact .escaped solid unmarked (ih following)

end Text.Tidy

end NestedCss
