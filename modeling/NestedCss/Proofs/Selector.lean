import Mathlib.Data.List.DropRight
import NestedCss.RuleTree.Selector

set_option autoImplicit false

/-! Trimmed text. A text is trimmed when neither of its ends is blank, and
trimming makes it so; full selectors are trimmed, and the mark for the enclosing
rule is never left in them. -/

namespace NestedCss
namespace Text

theorem trimStart_eq_self_iff (text : Text) :
    text.trimStart = text ↔ ∀ first ∈ text.head?, isBlank first = false := by
  cases text with
  | nil => simp [trimStart]
  | cons first rest =>
      constructor
      · intro same member present
        simp only [List.head?_cons, Option.mem_some_iff] at present
        subst present
        by_contra blank
        rw [Bool.not_eq_false] at blank
        have shorter : (trimStart (first :: rest)).length ≤ rest.length := by
          rw [trimStart, List.dropWhile_cons_of_pos blank]
          exact (List.dropWhile_sublist isBlank).length_le
        rw [same, List.length_cons] at shorter
        omega
      · intro kept
        have solid := kept first (by simp)
        rw [trimStart, List.dropWhile_cons_of_neg (by simp [solid])]

theorem trimEnd_eq_rdropWhile (text : Text) : text.trimEnd = text.rdropWhile isBlank := rfl

theorem head?_trimEnd (text : Text) (kept : ∀ first ∈ text.head?, isBlank first = false) :
    text.trimEnd.head? = text.head? := by
  cases text with
  | nil => rfl
  | cons first rest =>
      have solid := kept first (by simp)
      obtain ⟨dropped, joined⟩ := List.rdropWhile_prefix isBlank (first :: rest)
      rw [← trimEnd_eq_rdropWhile] at joined
      cases trimmed : trimEnd (first :: rest) with
      | nil =>
          have allBlank := (List.rdropWhile_eq_nil_iff).mp trimmed first (by simp)
          rw [solid] at allBlank
          cases allBlank
      | cons other others =>
          rw [trimmed] at joined
          injection joined with same
          simp [same]

theorem trimStart_trimStart (text : Text) : text.trimStart.trimStart = text.trimStart :=
  List.dropWhile_idempotent isBlank text

theorem trimEnd_trimEnd (text : Text) : text.trimEnd.trimEnd = text.trimEnd :=
  List.rdropWhile_idempotent isBlank text

theorem trimStart_trimEnd (text : Text) (kept : text.trimStart = text) :
    text.trimEnd.trimStart = text.trimEnd := by
  rw [trimStart_eq_self_iff] at kept ⊢
  rw [head?_trimEnd text kept]
  exact kept

theorem trim_trim (text : Text) : text.trim.trim = text.trim := by
  have start : text.trim.trimStart = text.trim :=
    trimStart_trimEnd text.trimStart (trimStart_trimStart text)
  rw [trim, start, trim, trimEnd_trimEnd]

theorem trim_cons_of_isBlank (first : Char) (rest : Text) (blank : isBlank first = true) :
    trim (first :: rest) = rest.trim := by
  rw [trim, trimStart, List.dropWhile_cons_of_pos blank]
  rfl

theorem dropBlanks_cons_of_blank {member : Char} (blank : isBlank member = true) (rest : Text) :
    Text.dropBlanks (member :: rest) = rest.dropBlanks := by
  rw [dropBlanks, List.filter_cons_of_neg (by rw [blank]; exact Bool.false_ne_true)]
  rfl

theorem dropBlanks_trimStart (text : Text) : text.trimStart.dropBlanks = text.dropBlanks := by
  induction text with
  | nil => rfl
  | cons member rest ih =>
      cases blank : isBlank member with
      | true =>
          rw [trimStart, List.dropWhile_cons_of_pos blank, dropBlanks_cons_of_blank blank]
          exact ih
      | false =>
          rw [trimStart, List.dropWhile_cons_of_neg (by rw [blank]; exact Bool.false_ne_true)]

theorem dropBlanks_trim (text : Text) : text.trim.dropBlanks = text.dropBlanks := by
  have turned : text.trim = List.reverse (trimStart (List.reverse text.trimStart)) := rfl
  have kept := dropBlanks_trimStart (List.reverse text.trimStart)
  rw [turned, dropBlanks, List.filter_reverse]
  rw [dropBlanks, dropBlanks, List.filter_reverse] at kept
  rw [kept, List.reverse_reverse]
  exact dropBlanks_trimStart text

theorem trim_isInfix (text : Text) : text.trim <:+: text :=
  (List.rdropWhile_prefix isBlank text.trimStart).isInfix.trans
    (List.dropWhile_suffix isBlank).isInfix

theorem mem_of_mem_trim {member : Char} {text : Text} (present : member ∈ text.trim) :
    member ∈ text := (trim_isInfix text).subset present

theorem mem_trim_of_mem {member : Char} {text : Text} (present : member ∈ text)
    (solid : isBlank member = false) : member ∈ text.trim := by
  have kept : member ∈ text.dropBlanks := by
    rw [dropBlanks, List.mem_filter, solid]
    exact ⟨present, rfl⟩
  rw [← dropBlanks_trim] at kept
  exact List.mem_of_mem_filter kept

theorem exists_cons_of_trim_eq_self {text : Text} (trimmed : text.trim = text) (some : text ≠ []) :
    ∃ first rest, text = first :: rest ∧ isBlank first = false := by
  cases text with
  | nil => exact absurd rfl some
  | cons first rest =>
      refine ⟨first, rest, rfl, ?_⟩
      by_contra blank
      rw [Bool.not_eq_false] at blank
      rw [trim_cons_of_isBlank first rest blank] at trimmed
      have before : (trim rest).length ≤ rest.length := by
        rw [trim, trimEnd_eq_rdropWhile]
        exact (List.rdropWhile_prefix isBlank (trimStart rest)).length_le.trans
          (List.dropWhile_sublist isBlank).length_le
      rw [trimmed, List.length_cons] at before
      omega

theorem trimEnd_eq_self_iff (text : Text) :
    text.trimEnd = text ↔ ∀ last ∈ text.getLast?, isBlank last = false := by
  rw [trimEnd_eq_rdropWhile, List.rdropWhile_eq_self_iff]
  cases text with
  | nil => simp
  | cons first rest => simp [List.getLast?_eq_some_getLast]

theorem trim_eq_self_iff (text : Text) :
    text.trim = text ↔ (∀ first ∈ text.head?, isBlank first = false) ∧
      ∀ last ∈ text.getLast?, isBlank last = false := by
  constructor
  · intro trimmed
    have start : text.trimStart = text := by
      rw [trimStart_eq_self_iff]
      intro first present
      obtain ⟨rest, rfl⟩ := List.head?_eq_some_iff.mp present
      obtain ⟨_, _, same, solid⟩ := exists_cons_of_trim_eq_self trimmed (List.cons_ne_nil _ _)
      injection same with same
      exact same ▸ solid
    rw [trim, start] at trimmed
    exact ⟨(trimStart_eq_self_iff text).mp start, (trimEnd_eq_self_iff text).mp trimmed⟩
  · rintro ⟨first, last⟩
    rw [trim, (trimStart_eq_self_iff text).mpr first, (trimEnd_eq_self_iff text).mpr last]

theorem trim_between (front middle back : Text) (opens : front.trim = front)
    (closes : back.trim = back) (begun : front ≠ []) (ended : back ≠ []) :
    (front ++ (middle ++ back)).trim = front ++ (middle ++ back) := by
  rw [trim_eq_self_iff] at opens closes ⊢
  rw [List.head?_append_of_ne_nil _ begun,
    List.getLast?_append_of_ne_nil _ (List.append_ne_nil_of_right_ne_nil middle ended),
    List.getLast?_append_of_ne_nil _ ended]
  exact ⟨opens.1, closes.2⟩

theorem trimEnd_append {front : Text} (kept : front.trimEnd = front) (back : Text) :
    (front ++ back).trimEnd = front ++ back.trimEnd := by
  have solid : front.reverse.dropWhile isBlank = front.reverse := by
    rw [← List.reverse_inj, List.reverse_reverse]
    exact kept
  rw [trimEnd, List.reverse_append, List.dropWhile_append]
  split
  · rename_i blank
    rw [solid, List.reverse_reverse, trimEnd, List.isEmpty_iff.mp blank, List.reverse_nil,
      List.append_nil]
  · rw [List.reverse_append, List.reverse_reverse, trimEnd]

theorem trimStart_append (front : Text) {back : Text} (kept : back.trimStart = back) :
    (front ++ back).trimStart = front.trimStart ++ back := by
  have solid : back.dropWhile isBlank = back := kept
  rw [trimStart, List.dropWhile_append, solid]
  split
  · rename_i blank
    rw [trimStart, List.isEmpty_iff.mp blank, List.nil_append]
  · rfl

theorem trim_around (front back : Text) {middle : Text} (trimmed : middle.trim = middle)
    (some : middle ≠ []) :
    (front ++ (middle ++ back)).trim = front.trimStart ++ (middle ++ back.trimEnd) := by
  obtain ⟨begins, ends⟩ := (trim_eq_self_iff middle).mp trimmed
  have start : (middle ++ back).trimStart = middle ++ back := by
    rw [trimStart_eq_self_iff, List.head?_append_of_ne_nil _ some]
    exact begins
  have ending : (front.trimStart ++ middle).trimEnd = front.trimStart ++ middle := by
    rw [trimEnd_eq_self_iff, List.getLast?_append_of_ne_nil _ some]
    exact ends
  rw [trim, trimStart_append front start, ← List.append_assoc, trimEnd_append ending,
    List.append_assoc]

theorem exists_trimEnd_append (text : Text) :
    ∃ blanks : Text, (∀ member ∈ blanks, isBlank member = true) ∧
      text.trimEnd ++ blanks = text := by
  refine ⟨(text.reverse.takeWhile isBlank).reverse, fun member present => ?_, ?_⟩
  · exact List.mem_takeWhile_imp (List.mem_reverse.mp present)
  · rw [trimEnd, ← List.reverse_append, List.takeWhile_append_dropWhile, List.reverse_reverse]

theorem trim_append_of_blank (text : Text) {blanks : Text}
    (blank : ∀ member ∈ blanks, isBlank member = true) : (text ++ blanks).trim = text.trim := by
  have ending : ∀ front : Text, (front ++ blanks).trimEnd = front.trimEnd := by
    intro front
    rw [trimEnd, List.reverse_append, List.dropWhile_append_of_pos fun member present =>
      blank member (List.mem_reverse.mp present)]
    rfl
  rw [trim, trim, trimStart, List.dropWhile_append]
  split
  · rename_i bare
    rw [trimStart, List.isEmpty_iff.mp bare, List.dropWhile_eq_nil_iff.mpr blank]
  · exact ending _

theorem trim_concat_of_isBlank {text : Text} {last : Char} (trimmed : text.trim = text)
    (blank : isBlank last = true) : (text ++ [last]).trim = text := by
  cases text with
  | nil => rw [List.nil_append, trim_cons_of_isBlank last [] blank]; rfl
  | cons first rest =>
      obtain ⟨opens, closes⟩ := (trim_eq_self_iff _).mp trimmed
      have start : trimStart (first :: rest ++ [last]) = first :: rest ++ [last] :=
        (trimStart_eq_self_iff _).mpr opens
      rw [trim, start, trimEnd_eq_rdropWhile, List.rdropWhile_concat_pos _ _ _ blank,
        ← trimEnd_eq_rdropWhile]
      exact (trimEnd_eq_self_iff _).mpr closes

theorem mem_replaceChar {member target : Char} {substitute text : Text} :
    member ∈ replaceChar target substitute text ↔
      (member ∈ text ∧ member ≠ target) ∨ (member ∈ substitute ∧ target ∈ text) := by
  simp only [replaceChar, List.mem_flatMap]
  constructor
  · rintro ⟨source, present, written⟩
    by_cases same : source = target
    · subst same
      simp only [beq_self_eq_true, if_true] at written
      exact Or.inr ⟨written, present⟩
    · simp only [beq_eq_false_iff_ne.mpr same, Bool.false_eq_true, if_false,
        List.mem_singleton] at written
      subst written
      exact Or.inl ⟨present, same⟩
  · rintro (⟨present, different⟩ | ⟨written, present⟩)
    · exact ⟨member, present, by simp [different]⟩
    · exact ⟨target, present, by simpa using written⟩

end Text

theorem trim_joinSelector (parent selector : Text) :
    (joinSelector parent selector).trim = joinSelector parent selector := by
  unfold joinSelector
  split <;> exact Text.trim_trim _

theorem mem_of_mem_joinSelector {member : Char} {parent selector : Text}
    (present : member ∈ joinSelector parent selector) :
    member ∈ parent ∨ (member ∈ selector ∧ member ≠ parentMark) ∨ member = ' ' := by
  unfold joinSelector at present
  split at present
  · rcases Text.mem_replaceChar.mp (Text.mem_of_mem_trim present) with ⟨own, other⟩ | ⟨outer, _⟩
    · exact Or.inr (Or.inl ⟨own, other⟩)
    · exact Or.inl outer
  · rename_i unmarked
    have joined := Text.mem_of_mem_trim present
    simp only [List.mem_append, List.mem_cons] at joined
    rcases joined with outer | rfl | own
    · exact Or.inl outer
    · exact Or.inr (Or.inr rfl)
    · refine Or.inr (Or.inl ⟨own, ?_⟩)
      intro same
      exact unmarked (same ▸ own)

theorem parentMark_not_mem_joinSelector {parent : Text} (selector : Text)
    (unmarked : parentMark ∉ parent) : parentMark ∉ joinSelector parent selector := by
  intro present
  rcases mem_of_mem_joinSelector present with outer | ⟨_, other⟩ | blank
  · exact unmarked outer
  · exact other rfl
  · exact absurd blank (by decide)

theorem joinSelector_parentMark (parent : Text) (trimmed : parent.trim = parent) :
    joinSelector parent [parentMark] = parent := by
  simp [joinSelector, Text.replaceChar, trimmed]

theorem joinSelector_nil (selector : Text) (unmarked : parentMark ∉ selector)
    (trimmed : selector.trim = selector) : joinSelector [] selector = selector := by
  rw [joinSelector, if_neg unmarked, List.nil_append,
    Text.trim_cons_of_isBlank ' ' selector (by decide), trimmed]

end NestedCss
