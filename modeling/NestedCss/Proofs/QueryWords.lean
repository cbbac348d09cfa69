import NestedCss.Proofs.Gaps
import NestedCss.RuleTree.Scope

set_option autoImplicit false

/-! The words of media queries. A query that is no single group keeps its words: its preamble
has a gap between two characters exactly where the query has one. A query that is one group
is written without any gap, so that words with nothing but blanks between them are joined. -/

namespace NestedCss

namespace Text

/-- The longest parts of a text without a blank. -/
def words (text : Text) : List Text := (text.splitOnP isBlank).filter fun word => !word.isEmpty

private theorem words_append_cons (front back : Text) {blank : Char}
    (white : isBlank blank = true) :
    words (front ++ blank :: back) = words front ++ words back := by
  rw [words, List.splitOnP_append_cons front back white, List.filter_append]
  rfl

private theorem words_cons_of_blank {blank : Char} (white : isBlank blank = true) (text : Text) :
    words (blank :: text) = words text := by
  have whole := words_append_cons [] text white
  rwa [show words [] = [] from rfl, List.nil_append, List.nil_append] at whole

private theorem words_append_squeezeAfter (text : Text) : ∀ (front : Text) (last : Char)
    (gap : Bool),
    words (front ++ squeezeAfter (fun _ => false) (some last) gap text) =
      words (front ++ ((if gap then [' '] else []) ++ text)) := by
  induction text with
  | nil =>
      intro front last gap
      cases gap with
      | false => rfl
      | true =>
          have ending := words_append_cons front [] (by decide : isBlank ' ' = true)
          rw [squeezeAfter, List.append_nil, if_pos rfl, List.append_nil, ending]
          exact (List.append_nil _).symm
  | cons member rest ih =>
      intro front last gap
      cases blank : isBlank member with
      | true =>
          rw [squeezeAfter, if_pos blank, ih front last true, if_pos rfl, List.singleton_append,
            words_append_cons front rest (by decide)]
          cases gap with
          | false => exact (words_append_cons front rest blank).symm
          | true =>
              rw [if_pos rfl, List.singleton_append, words_append_cons front _ (by decide),
                words_cons_of_blank blank]
      | false =>
          have written : squeezeAfter (fun _ => false) (some last) gap (member :: rest) =
              (if gap then [' '] else []) ++
                member :: squeezeAfter (fun _ => false) (some member) false rest := by
            rw [squeezeAfter, if_neg (by simp [blank])]
            cases gap <;> rfl
          have later := ih (front ++ ((if gap then [' '] else []) ++ [member])) member false
          rw [written]
          simpa using later

private theorem words_squeeze (text : Text) :
    words (squeeze (fun _ => false) text) = text.words := by
  induction text with
  | nil => rfl
  | cons member rest ih =>
      cases blank : isBlank member with
      | true =>
          have passed : squeeze (fun _ => false) (member :: rest) =
              squeeze (fun _ => false) rest := by
            rw [squeeze, squeezeAfter, if_pos blank, MediaQuery.squeezeAfter_trimStart]
            exact (MediaQuery.squeezeAfter_trimStart _ rest false).symm
          rw [passed, ih, words_cons_of_blank blank]
      | false =>
          have later := words_append_squeezeAfter rest [member] member false
          rw [squeeze, squeezeAfter, if_neg (by simp [blank])]
          exact later

namespace Solid

private theorem append {first second : Text} (before : first.Solid) (after : second.Solid) :
    Solid (first ++ second) := by
  intro member present
  rcases List.mem_append.mp present with left | right
  · exact before member left
  · exact after member right

private theorem dropBlanks_eq {text : Text} (solid : text.Solid) : text.dropBlanks = text := by
  rw [dropBlanks, List.filter_eq_self]
  intro member present
  rw [solid member present]
  rfl

private theorem not_gapBehind {text : Text} (solid : text.Solid) (kept : Text) :
    ¬ text.GapBehind kept := by
  rintro ⟨front, blank, back, rfl, white, _⟩
  have unblank := solid blank (List.mem_append_right _ (List.mem_cons_self ..))
  rw [white] at unblank
  cases unblank

end Solid

end Text

namespace MediaQuery

private theorem solid_mediaMark : Node.mediaMark.Solid := by decide

private theorem preamble_grouped (condition : Text) :
    preamble ⟨condition, true⟩ = Node.mediaMark ++ '(' :: (condition ++ [')']) := rfl

private theorem preamble_listed (condition : Text) :
    preamble ⟨condition, false⟩ = Node.mediaMark ++ ' ' :: condition := rfl

private theorem solid_group {condition : Text} (solid : condition.Solid) :
    Text.Solid ('(' :: (condition ++ [')'])) :=
  Text.Solid.append (by decide : Text.Solid ['(']) (solid.append (by decide : Text.Solid [')']))

private theorem dropBlanks_preamble (query : Text) :
    (ofText query).preamble.dropBlanks = Node.mediaMark ++ query.dropBlanks := by
  have kept := dropBlanks_ofText query
  have normal := normal_ofText query
  generalize ofText query = found at kept normal ⊢
  cases normal with
  | grouped paired solid =>
      rw [if_pos rfl] at kept
      rw [preamble_grouped, (solid_mediaMark.append (solid_group solid)).dropBlanks_eq, kept]
  | listed spaced loose =>
      rw [if_neg Bool.false_ne_true] at kept
      rw [preamble_listed, Text.dropBlanks_append, solid_mediaMark.dropBlanks_eq,
        Text.dropBlanks_cons_of_blank (by decide), kept]

private theorem solid_preamble {query : Text} (group : query.trim.IsGroup) :
    (ofText query).preamble.Solid := by
  have grouped := (grouped_ofText_iff query).mpr group
  have normal := normal_ofText query
  generalize ofText query = found at grouped normal ⊢
  cases normal with
  | grouped paired solid => exact solid_mediaMark.append (solid_group solid)
  | listed spaced loose => cases grouped

private theorem preamble_of_loose {query : Text} (loose : ¬ query.trim.IsGroup) :
    (ofText query).preamble = Node.mediaMark ++ ' ' :: Text.squeeze (fun _ => false) query := by
  rw [ofText, group?_eq_none_iff.mpr loose]
  rfl

private theorem gapBehind_preamble_iff {query : Text} (loose : ¬ query.trim.IsGroup) {kept : Text}
    {first second : Char} (neighbours : query.Neighbours kept first second) :
    (ofText query).preamble.GapBehind (Node.mediaMark ++ (kept ++ [first])) ↔
      query.GapBehind (kept ++ [first]) := by
  have some : kept ++ [first] ≠ [] := by simp
  have behind := Text.gapBehind_append (Node.mediaMark ++ [' '])
    (Text.squeeze (fun _ => false) query) some
  have mark : Text.dropBlanks (Node.mediaMark ++ [' ']) = Node.mediaMark := by decide
  rw [mark, List.append_assoc, List.singleton_append] at behind
  rw [preamble_of_loose loose, behind]
  exact (Text.sameGaps_squeeze (fun _ => false) query kept first second neighbours rfl rfl).symm

private theorem words_preamble {query : Text} (loose : ¬ query.trim.IsGroup) :
    (ofText query).preamble.words = Node.mediaMark :: query.words := by
  rw [preamble_of_loose loose, Text.words_append_cons _ _ (by decide), Text.words_squeeze]
  rfl

/-- The preamble of a query has the same characters, but for blanks. If the query is no single
group, the preamble has its gaps too, and so the same words; if it is one, it has no gap. -/
theorem words_kept_unless_group (query : Text) :
    (ofText query).preamble.dropBlanks = Node.mediaMark ++ query.dropBlanks ∧
      (¬ query.trim.IsGroup →
        (∀ kept first second, query.Neighbours kept first second →
          ((ofText query).preamble.GapBehind (Node.mediaMark ++ (kept ++ [first])) ↔
            query.GapBehind (kept ++ [first]))) ∧
        (ofText query).preamble.words = Node.mediaMark :: query.words) ∧
      (query.trim.IsGroup → (ofText query).preamble.Solid) :=
  ⟨dropBlanks_preamble query,
    fun loose => ⟨fun _ _ _ neighbours => gapBehind_preamble_iff loose neighbours,
      words_preamble loose⟩,
    solid_preamble⟩

theorem words_kept_of_two_groups :
    let query : Text := "  (a: b)\tand\n (c:d) ".toList
    ¬ query.trim.IsGroup ∧
      (ofText query).preamble.words = Node.mediaMark :: query.words ∧
      query.words = ["(a:".toList, "b)".toList, "and".toList, "(c:d)".toList] ∧
      (ofText query).preamble = "@media (a: b) and (c:d)".toList := by
  intro query
  have loose : ¬ query.trim.IsGroup := group?_eq_none_iff.mp (by decide)
  exact ⟨loose, ((words_kept_unless_group query).2.1 loose).2, by decide, by decide⟩

/-- In a group the word before a parenthesis is joined with it, and two words are joined. -/
theorem words_joined_in_group :
    ¬ (∀ (query kept : Text) (first second : Char), query.Neighbours kept first second →
      isNameMember first = true → isNameMember second = true ∨ second = '(' →
      query.GapBehind (kept ++ [first]) →
        (ofText query).preamble.GapBehind (Node.mediaMark ++ (kept ++ [first]))) ∧
    (ofText "((a:b) and (c:d))".toList).preamble = "@media((a:b)and(c:d))".toList ∧
    (ofText "(a b)".toList).preamble = "@media(ab)".toList := by
  refine ⟨fun apart => ?_, by decide, by decide⟩
  have joined := apart "((a:b) and (c:d))".toList "((a:b)an".toList 'd' '('
    ⟨"c:d))".toList, by decide⟩ (by decide) (.inr rfl)
    ⟨"((a:b) and".toList, ' ', "(c:d))".toList, by decide, by decide, by decide⟩
  have solid : (ofText "((a:b) and (c:d))".toList).preamble.Solid := by decide
  exact solid.not_gapBehind _ joined

end MediaQuery
end NestedCss
