import Mathlib.Data.List.Infix
import NestedCss.Proofs.NormalSheets

set_option autoImplicit false

/-! Addresses in declarations. Nothing tells the reader that `url(…)` holds an address: a
semicolon in it ends the declaration, and a comment begins in it as it would elsewhere,
except that two slashes directly behind a colon belong together. An address without
semicolons in which no comment begins is kept as it is written. -/

namespace NestedCss

structure Text.Address (address : Text) : Prop where
  ordinary : ∀ member ∈ address, member ∉ [';', '{', '}'] ∧ isQuote member = false
  noComment : ¬ ['/', '*'] <:+: address
  noRemark : ∀ front back, address = front ++ '/' :: '/' :: back → front.getLast? = some ':'

/-- An address that is written without quotes. -/
def Text.Bare (address : Text) : Prop :=
  address ≠ [] ∧ ∀ member ∈ address, isBlank member = false ∧ isQuote member = false ∧
    member ∉ ['(', ')', '{', '}', '\\']

def Text.url (address : Text) : Text := "url(".toList ++ (address ++ [')'])

namespace Text

instance (address : Text) : Decidable address.Bare :=
  let _ : Decidable (∀ member ∈ address, isBlank member = false ∧ isQuote member = false ∧
      member ∉ ['(', ')', '{', '}', '\\']) := List.decidableBAll _ address
  inferInstanceAs (Decidable (address ≠ [] ∧ _))

private theorem address_iff (address : Text) :
    address.Address ↔
      (∀ member ∈ address, member ∉ [';', '{', '}'] ∧ isQuote member = false) ∧
        ¬ ['/', '*'] <:+: address ∧
        ∀ index < address.length, ['/', '/'] <+: address.drop index →
          (address.take index).getLast? = some ':' := by
  constructor
  · rintro ⟨ordinary, noComment, noRemark⟩
    refine ⟨ordinary, noComment, ?_⟩
    rintro index _ ⟨back, slashes⟩
    apply noRemark (address.take index) back
    calc address = address.take index ++ address.drop index := (List.take_append_drop ..).symm
      _ = address.take index ++ '/' :: '/' :: back := by rw [← slashes]; rfl
  · rintro ⟨ordinary, noComment, offsets⟩
    refine ⟨ordinary, noComment, ?_⟩
    rintro front back rfl
    have slashes := offsets front.length (by simp)
      (by rw [List.drop_left]; exact List.prefix_append ['/', '/'] back)
    rwa [List.take_left] at slashes

instance (address : Text) : Decidable address.Address :=
  let _ : Decidable (∀ member ∈ address, member ∉ [';', '{', '}'] ∧ isQuote member = false) :=
    List.decidableBAll _ address
  decidable_of_iff _ address.address_iff.symm

end Text

namespace Mode

private theorem Gathers.slash {afterColon : Bool} {rest : Text} (noStar : rest.head? ≠ some '*')
    (colon : rest.head? = some '/' → afterColon = true)
    (gathered : (Mode.code false).Gathers rest) : (Mode.code afterColon).Gathers ('/' :: rest) := by
  have noRemark : ¬ ('/' = '/' ∧ rest.head? = some '/' ∧ (!afterColon) = true) := by
    rintro ⟨_, slash, apart⟩
    rw [colon slash] at apart
    cases apart
  have stepped : (Mode.code afterColon).step '/' rest.head? = (.code, .code false) := by
    rw [step, stepCode, if_neg fun opens => noStar opens.2, if_neg noRemark]
    rfl
  exact .cons stepped (fun _ => Or.inr ⟨rfl, by simp⟩) gathered

private theorem gathers_address (address : Text) : ∀ afterColon : Bool,
    (∀ member ∈ address, member ∉ [';', '{', '}'] ∧ isQuote member = false) →
    ¬ ['/', '*'] <:+: address →
    (∀ front back, address = front ++ '/' :: '/' :: back →
      front.getLast? = some ':' ∨ front = [] ∧ afterColon = true) →
    (Mode.code afterColon).Gathers (address ++ [')']) := by
  induction address with
  | nil => exact fun afterColon _ _ _ => .plain (by decide) (by decide) (.nil _)
  | cons member rest ih =>
      intro afterColon ordinary noComment remarks
      have own := ordinary member (List.mem_cons_self ..)
      have further : (Mode.code (member == ':')).Gathers (rest ++ [')']) := by
        apply ih
        · exact fun other present => ordinary other (List.mem_cons_of_mem _ present)
        · exact fun opens => noComment (opens.trans (List.suffix_cons member rest).isInfix)
        · intro front back same
          have behind := remarks (member :: front) back (by rw [same, List.cons_append])
          have colon := behind.resolve_right fun impossible => by cases impossible.1
          cases front with
          | nil => exact Or.inr ⟨rfl, beq_iff_eq.mpr (Option.some.inj colon)⟩
          | cons second others => exact Or.inl colon
      by_cases slash : member = '/'
      · subst slash
        refine .slash ?_ ?_ further
        · cases rest with
          | nil => decide
          | cons second others =>
              intro star
              have same : second = '*' := Option.some.inj star
              exact noComment (same ▸ (List.prefix_append ['/', '*'] others).isInfix)
        · cases rest with
          | nil => exact fun impossible => by cases impossible
          | cons second others =>
              intro slash
              have same : second = '/' := Option.some.inj slash
              have behind := remarks [] others (by rw [same]; rfl)
              exact (behind.resolve_left fun impossible => by cases impossible).2
      · have plain : member ∉ [';', '{', '}', '/'] := by
          have other := own.1
          simp only [List.mem_cons, List.not_mem_nil, or_false, not_or] at other ⊢
          exact ⟨other.1, other.2.1, other.2.2, slash⟩
        exact .plain plain own.2 further

private theorem Gathers.plain_append {front rest : Text} (plain : front.Plain)
    (gathered : ∀ afterColon, (Mode.code afterColon).Gathers rest) :
    ∀ afterColon, (Mode.code afterColon).Gathers (front ++ rest) := by
  induction front with
  | nil => exact gathered
  | cons member others ih =>
      intro afterColon
      have own := plain member (List.mem_cons_self ..)
      exact .plain own.1 own.2 (ih (fun other present => plain other (List.mem_cons_of_mem _ present)) _)

end Mode

namespace Text

private theorem Address.gathered {key address : Text} (plain : key.Plain)
    (bounded : address.Address) : (Mode.code false).Gathers (key ++ ':' :: address.url) := by
  -- What stands before the address does not end with a colon.
  have behind : (Mode.code false).Gathers (address ++ [')']) :=
    Mode.gathers_address address false bounded.ordinary bounded.noComment
      fun front back same => Or.inl (bounded.noRemark front back same)
  refine Mode.Gathers.plain_append plain (fun afterColon => ?_) false
  apply Mode.Gathers.plain (by decide) (by decide)
  exact .plain (by decide) (by decide) (.plain (by decide) (by decide)
    (.plain (by decide) (by decide) (.plain (by decide) (by decide) behind)))

private theorem trim_url (address : Text) : address.url.trim = address.url :=
  trim_between ['u', 'r', 'l', '('] address [')'] (by decide) (by decide) (by decide) (by decide)

end Text

private theorem Line.literal_url {key address : Text} (isKey : key.IsKey)
    (undirected : ¬ ['$'] <+: key ∧ ¬ Node.includeMark <+: key) (bounded : address.Address) :
    (Line.declaration key address.url).Literal := by
  have literal : ¬ ['$'] <+: address.url := by
    rintro ⟨rest, same⟩
    cases congrArg List.head? same
  have unlisted : address.url ∉ omittedValues := by
    intro listed
    simp only [omittedValues, List.mem_cons, List.not_mem_nil, or_false] at listed
    rcases listed with same | same
    · cases congrArg List.head? same
    · -- Only the second character tells the two apart.
      cases congrArg (fun text : Text => text[1]?) same
  exact Line.literal_declaration isKey undirected address.trim_url
    (bounded.gathered isKey.2.2.1) literal ⟨List.cons_ne_nil _ _, unlisted⟩

/-- A block of lines that are read as themselves compiles to its own text. -/
theorem compileSource_of_literal (options : CompileOptions) {selector : Text} {lines : List Line}
    (writable : Writable selector) (some : selector ≠ []) (unmarked : parentMark ∉ selector)
    (spoken : lines ≠ []) (literal : ∀ line ∈ lines, line.Literal) :
    compileSource options (Item.block selector lines).text =
      .done (Item.block selector lines).text := by
  obtain ⟨copy, there, alike, split⟩ := OnePass.readBody_of_spells
    (Item.spells_block writable spoken literal) [] .start
  have read := @OnePass.readNode_block options (nestingLimit - 1) _ _ writable some unmarked spoken
    literal copy alike [] ⟨[.empty], .empty⟩
  have levels : nestingLimit + 1 = nestingLimit - 1 + 1 + 1 := rfl
  rw [List.append_nil] at split
  rw [compileSource_eq_onePass, OnePass.compileSource, Body.ofSource, levels, split, read,
    Traced.done_andThen]
  exact congrArg Traced.done (List.append_nil _)

/-- An address in a flat rule is written as it was read. -/
theorem compileSource_of_address (options : CompileOptions) {selector key address : Text}
    (writable : Writable selector) (some : selector ≠ []) (unmarked : parentMark ∉ selector)
    (isKey : key.IsKey) (undirected : ¬ ['$'] <+: key ∧ ¬ Node.includeMark <+: key)
    (bounded : address.Address) :
    let sheet := selector ++ '{' :: (key ++ ':' :: address.url ++ [';']) ++ ['}']
    compileSource options sheet = .done sheet := by
  intro sheet
  have single : ∀ line ∈ [Line.declaration key address.url], line.Literal := by
    intro line present
    rw [List.mem_singleton.mp present]
    exact Line.literal_url isKey undirected bounded
  have whole : (Item.block selector [.declaration key address.url]).text = sheet := by
    simp [Item.text, Line.text, sheet]
  rw [← whole]
  exact compileSource_of_literal options writable some unmarked (List.cons_ne_nil _ _) single

theorem compileSource_of_addresses :
    compileSource {} ".a\x7bb:url(http://c.d/e?f=g#h);\x7d".toList =
      .done ".a\x7bb:url(http://c.d/e?f=g#h);\x7d".toList ∧
    compileSource {} ".a\x7bb:url(/c/d.png);\x7d".toList =
      .done ".a\x7bb:url(/c/d.png);\x7d".toList ∧
    compileSource {} ".a\x7bb:url(data:image/gif,c/d);\x7d".toList =
      .done ".a\x7bb:url(data:image/gif,c/d);\x7d".toList := by
  have kept : ∀ address : Text, address.Address →
      let sheet := ".a".toList ++ '{' :: ("b".toList ++ ':' :: address.url ++ [';']) ++ ['}']
      compileSource {} sheet = .done sheet := by
    intro address bounded
    exact compileSource_of_address {} ⟨by decide +kernel, by decide, by decide⟩ (by decide)
      (by decide) ⟨by decide +kernel, by decide, by decide, by decide⟩ (by decide) bounded
  refine ⟨?_, ?_, ?_⟩
  · exact kept "http://c.d/e?f=g#h".toList (by decide +kernel)
  · exact kept "/c/d.png".toList (by decide +kernel)
  · exact kept "data:image/gif,c/d".toList (by decide +kernel)

/-- A semicolon in an address ends the declaration, and a comment begins with two slashes or
with a slash and a star, so the block is not closed. -/
theorem addresses_cut_short :
    (Text.Bare "data:image/png;base64,c".toList ∧ Text.Bare "//c/d".toList ∧
      Text.Bare "c/*d".toList) ∧
    (compileSource {} ".a\x7bb:url(data:image/png;base64,c);\x7d".toList).outcome.toOption =
      some ".a\x7bb:url(data:image/png;\x7d".toList ∧
    (compileSource {} ".a\x7bb:url(//c/d);\x7d".toList).outcome.toOption = none ∧
    (compileSource {} ".a\x7bb:url(c/*d);\x7d".toList).outcome.toOption = none := by
  refine ⟨⟨?_, ?_, ?_⟩, by decide +kernel, by decide +kernel, by decide +kernel⟩
  all_goals decide +kernel

end NestedCss
