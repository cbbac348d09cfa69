import Mathlib.Data.List.Chain
import NestedCss.Node
import NestedCss.Proofs.Selector

set_option autoImplicit false

/-! Media conditions in normal form. A text is one group when its parentheses pair
off and the first one is closed by the last character; such a query is kept without
blanks, and every other one with single spaces. A condition that has this form
already is found again when its preamble is read. -/

namespace NestedCss

inductive Text.Paired : Text → Prop
  | nil : Paired []
  | plain {member : Char} {rest : Text} (other : member ≠ '(' ∧ member ≠ ')')
      (following : Paired rest) : Paired (member :: rest)
  | group {inner rest : Text} (within : Paired inner) (following : Paired rest) :
      Paired ('(' :: (inner ++ ')' :: rest))

/-- The text in parentheses, the one of which closes the other. -/
def Text.IsGroup (text : Text) : Prop :=
  ∃ inner, Paired inner ∧ text = '(' :: (inner ++ [')'])

def Text.Solid (text : Text) : Prop := ∀ member ∈ text, isBlank member = false

instance (text : Text) : Decidable text.Solid := List.decidableBAll _ text

structure Text.Spaced (text : Text) : Prop where
  trimmed : text.trim = text
  spaces : ∀ member ∈ text, isBlank member = true → member = ' '
  apart : text.IsChain fun member next => isBlank member = false ∨ isBlank next = false

instance (text : Text) : Decidable text.Spaced :=
  let _ : Decidable (∀ member ∈ text, isBlank member = true → member = ' ') :=
    List.decidableBAll _ text
  decidable_of_iff (text.trim = text ∧ (∀ member ∈ text, isBlank member = true → member = ' ') ∧
      text.IsChain fun member next => isBlank member = false ∨ isBlank next = false)
    ⟨fun ⟨trimmed, spaces, apart⟩ => ⟨trimmed, spaces, apart⟩,
      fun ⟨trimmed, spaces, apart⟩ => ⟨trimmed, spaces, apart⟩⟩

namespace MediaQuery

inductive Normal : MediaQuery → Prop
  | grouped {condition : Text} (paired : condition.Paired) (solid : condition.Solid) :
      Normal ⟨condition, true⟩
  | listed {condition : Text} (spaced : condition.Spaced) (loose : ¬ condition.IsGroup) :
      Normal ⟨condition, false⟩

/-! ### Groups -/

theorem closesAtEnd_cons_of_ne (depth : Nat) {member : Char} (rest : Text)
    (other : member ≠ '(' ∧ member ≠ ')') :
    closesAtEnd depth (member :: rest) = closesAtEnd depth rest := by
  cases depth <;> simp [closesAtEnd, other.1, other.2]

private theorem closesAtEnd_append {inner : Text} (paired : inner.Paired) :
    ∀ (depth : Nat) (rest : Text), closesAtEnd depth (inner ++ rest) = closesAtEnd depth rest := by
  induction paired with
  | nil => exact fun depth rest => rfl
  | plain other following ih =>
      intro depth rest
      rw [List.cons_append, closesAtEnd_cons_of_ne depth _ other, ih]
  | @group inner others within following ihWithin ihFollowing =>
      intro depth rest
      rw [List.cons_append, closesAtEnd, List.append_assoc, ihWithin, List.cons_append, closesAtEnd,
        ihFollowing]

private theorem exists_paired_of_closesAtEnd (bound : Nat) : ∀ (depth : Nat) (text : Text),
    text.length ≤ bound → closesAtEnd depth text = true →
      ∃ inner rest, inner.Paired ∧ text = inner ++ ')' :: rest ∧
        ((depth = 0 ∧ rest = []) ∨ ∃ outer, depth = outer + 1 ∧ closesAtEnd outer rest = true) := by
  induction bound with
  | zero =>
      intro depth text short closed
      obtain rfl := List.eq_nil_of_length_eq_zero (Nat.le_zero.mp short)
      cases depth <;> cases closed
  | succ bound ih =>
      intro depth text short closed
      cases text with
      | nil => cases depth <;> cases closed
      | cons member rest =>
          rw [List.length_cons] at short
          by_cases opens : member = '('
          · subst opens
            rw [closesAtEnd] at closed
            obtain ⟨within, later, paired, split, outside⟩ :=
              ih (depth + 1) rest (by omega) closed
            rcases outside with ⟨impossible, _⟩ | ⟨outer, same, closedLater⟩
            · omega
            · obtain rfl : depth = outer := by omega
              have shorter : later.length ≤ bound := by
                rw [split, List.length_append, List.length_cons] at short
                omega
              obtain ⟨inner, last, pairedToo, splitToo, ended⟩ := ih depth later shorter closedLater
              refine ⟨'(' :: (within ++ ')' :: inner), last, .group paired pairedToo, ?_, ended⟩
              rw [split, splitToo]
              simp
          · by_cases closes : member = ')'
            · subst closes
              refine ⟨[], rest, .nil, rfl, ?_⟩
              cases depth with
              | zero =>
                  rw [closesAtEnd, List.isEmpty_iff] at closed
                  exact Or.inl ⟨rfl, closed⟩
              | succ outer =>
                  rw [closesAtEnd] at closed
                  exact Or.inr ⟨outer, rfl, closed⟩
            · rw [closesAtEnd_cons_of_ne depth rest ⟨opens, closes⟩] at closed
              obtain ⟨inner, last, paired, split, ended⟩ := ih depth rest (by omega) closed
              exact ⟨member :: inner, last, .plain ⟨opens, closes⟩ paired,
                by rw [split, List.cons_append], ended⟩

theorem group?_eq_some_iff {text inner : Text} :
    group? text = some inner ↔ inner.Paired ∧ text = '(' :: (inner ++ [')']) := by
  constructor
  · intro found
    unfold group? at found
    split at found
    · rename_i rest
      split at found
      · rename_i closed
        obtain ⟨middle, last, paired, split, ended⟩ :=
          exists_paired_of_closesAtEnd rest.length 0 rest (Nat.le_refl _) closed
        rcases ended with ⟨_, rfl⟩ | ⟨outer, impossible, _⟩
        · injection found with same
          rw [split, List.dropLast_concat] at same
          exact ⟨same ▸ paired, by rw [split, same]⟩
        · omega
      · cases found
    · cases found
  · rintro ⟨paired, rfl⟩
    have closed : closesAtEnd 0 (inner ++ [')']) = true := by
      rw [closesAtEnd_append paired]
      rfl
    rw [group?, if_pos closed, List.dropLast_concat]

theorem group?_eq_none_iff {text : Text} : group? text = none ↔ ¬ text.IsGroup := by
  rw [Option.eq_none_iff_forall_ne_some]
  constructor
  · rintro none ⟨inner, paired, same⟩
    exact none inner (group?_eq_some_iff.mpr ⟨paired, same⟩)
  · intro loose inner found
    exact loose ⟨inner, group?_eq_some_iff.mp found⟩

end MediaQuery

/-! ### Groups and blanks -/

namespace Text

private theorem Paired.append {first second : Text} (before : first.Paired)
    (after : second.Paired) : (first ++ second).Paired := by
  induction before with
  | nil => exact after
  | plain other following ih => exact .plain other ih
  | group within following _ ih =>
      rw [List.cons_append, List.append_assoc, List.cons_append]
      exact .group within ih

private theorem not_parenthesis_of_isBlank {member : Char} (blank : isBlank member = true) :
    member ≠ '(' ∧ member ≠ ')' := by
  constructor
  · rintro rfl
    exact absurd blank (by decide)
  · rintro rfl
    exact absurd blank (by decide)

private theorem paired_of_blank {text : Text} (blank : ∀ member ∈ text, isBlank member = true) :
    text.Paired := by
  induction text with
  | nil => exact .nil
  | cons member rest ih =>
      exact .plain (not_parenthesis_of_isBlank (blank member (List.mem_cons_self ..)))
        (ih fun other present => blank other (List.mem_cons_of_mem _ present))

theorem dropBlanks_append (first second : Text) :
    (first ++ second).dropBlanks = first.dropBlanks ++ second.dropBlanks := List.filter_append ..

theorem dropBlanks_cons_of_solid {member : Char} (solid : isBlank member = false) (rest : Text) :
    Text.dropBlanks (member :: rest) = member :: rest.dropBlanks := by
  rw [dropBlanks, List.filter_cons_of_pos (by rw [solid]; rfl)]
  rfl

private theorem solid_dropBlanks (text : Text) : text.dropBlanks.Solid := by
  intro member present
  have kept := (List.mem_filter.mp present).2
  rwa [Bool.not_eq_true'] at kept

theorem exists_of_dropBlanks_eq_cons {text : Text} {member : Char} {rest : Text}
    (kept : text.dropBlanks = member :: rest) :
    ∃ blanks later : Text, text = blanks ++ member :: later ∧ blanks.Paired ∧
      (∀ blank ∈ blanks, isBlank blank = true) ∧ later.dropBlanks = rest := by
  obtain ⟨blanks, later, split, dropped, _, remaining⟩ := List.filter_eq_cons_iff.mp kept
  have blank : ∀ blank ∈ blanks, isBlank blank = true := by
    intro other present
    have gone := dropped other present
    rwa [Bool.not_eq_true', Bool.not_eq_false] at gone
  exact ⟨blanks, later, split, paired_of_blank blank, blank, remaining⟩

theorem blank_of_dropBlanks_eq_nil {text : Text} (nothing : text.dropBlanks = []) :
    ∀ member ∈ text, isBlank member = true := by
  intro member present
  have gone := List.filter_eq_nil_iff.mp nothing member present
  rwa [Bool.not_eq_true', Bool.not_eq_false] at gone

private theorem Paired.dropBlanks {text : Text} (paired : text.Paired) :
    text.dropBlanks.Paired := by
  induction paired with
  | nil => exact .nil
  | @plain member rest other following ih =>
      cases blank : isBlank member with
      | true => rw [dropBlanks_cons_of_blank blank]; exact ih
      | false => rw [dropBlanks_cons_of_solid blank]; exact .plain other ih
  | @group inner rest within following ihWithin ihFollowing =>
      rw [dropBlanks_cons_of_solid (by decide), dropBlanks_append,
        dropBlanks_cons_of_solid (by decide)]
      exact .group ihWithin ihFollowing

private theorem paired_of_dropBlanks {kept : Text} (paired : kept.Paired) :
    ∀ text : Text, text.dropBlanks = kept → text.Paired := by
  induction paired with
  | nil =>
      intro text nothing
      exact paired_of_blank (blank_of_dropBlanks_eq_nil nothing)
  | plain other following ih =>
      intro text same
      obtain ⟨blanks, later, rfl, before, _, remaining⟩ := exists_of_dropBlanks_eq_cons same
      exact before.append (.plain other (ih later remaining))
  | group within following ihWithin ihFollowing =>
      intro text same
      obtain ⟨blanks, later, rfl, before, _, remaining⟩ := exists_of_dropBlanks_eq_cons same
      obtain ⟨inside, outside, rfl, inner, closing⟩ := List.filter_eq_append_iff.mp remaining
      obtain ⟨gap, rest, rfl, between, _, after⟩ := exists_of_dropBlanks_eq_cons closing
      have grouped := ((ihWithin inside inner).append between).group (ihFollowing rest after)
      rw [List.append_assoc] at grouped
      exact before.append grouped

private theorem isGroup_of_dropBlanks {text : Text} (trimmed : text.trim = text)
    (group : text.dropBlanks.IsGroup) : text.IsGroup := by
  obtain ⟨kept, paired, same⟩ := group
  obtain ⟨opens, closes⟩ := (trim_eq_self_iff text).mp trimmed
  obtain ⟨blanks, later, split, _, blank, remaining⟩ := exists_of_dropBlanks_eq_cons same
  obtain ⟨inside, outside, rfl, inner, closing⟩ := List.filter_eq_append_iff.mp remaining
  obtain ⟨gap, rest, rfl, between, _, after⟩ := exists_of_dropBlanks_eq_cons closing
  have first : blanks = [] := by
    cases blanks with
    | nil => rfl
    | cons member others =>
        have solid := opens member (by rw [split]; rfl)
        rw [blank member (List.mem_cons_self ..)] at solid
        cases solid
  have last : rest = [] := by
    rcases List.eq_nil_or_concat' rest with none | ⟨others, member, ended⟩
    · exact none
    · have blankLast := blank_of_dropBlanks_eq_nil after member
        (by rw [ended]; exact List.mem_append_right others (List.mem_singleton_self member))
      have whole : text = blanks ++ '(' :: (inside ++ (gap ++ ')' :: others)) ++ [member] := by
        rw [split, ended]
        simp
      have solid := closes member (by rw [whole, List.getLast?_concat]; rfl)
      rw [blankLast] at solid
      cases solid
  subst first last
  refine ⟨inside ++ gap, (paired_of_dropBlanks paired inside inner).append between, ?_⟩
  rw [split, List.nil_append, List.append_assoc]

end Text

/-! ### Spaces -/

structure Text.Gapped (text : Text) : Prop where
  spaces : ∀ member ∈ text, isBlank member = true → member = ' '
  apart : text.IsChain fun member next => isBlank member = false ∨ isBlank next = false
  ended : ∀ last ∈ text.getLast?, isBlank last = false

namespace Text.Gapped

variable {member : Char} {rest : Text}

private theorem tail (gapped : Text.Gapped (member :: rest)) : rest.Gapped where
  spaces := fun other present => gapped.spaces other (List.mem_cons_of_mem _ present)
  apart := gapped.apart.tail
  ended := fun last present => gapped.ended last (List.mem_getLast?_cons present)

private theorem begun (gapped : Text.Gapped (member :: rest)) (blank : isBlank member = true) :
    ∃ first ∈ rest.head?, isBlank first = false := by
  cases rest with
  | nil =>
      have solid := gapped.ended member rfl
      rw [blank] at solid
      cases solid
  | cons second others =>
      refine ⟨second, rfl, ?_⟩
      rcases (List.isChain_cons_cons.mp gapped.apart).1 with solid | solid
      · rw [blank] at solid
        cases solid
      · exact solid

private theorem nil : Text.Gapped [] where
  spaces := fun _ present => absurd present List.not_mem_nil
  apart := .nil
  ended := fun _ impossible => by cases impossible

private theorem cons (solid : isBlank member = false) (following : rest.Gapped) :
    Text.Gapped (member :: rest) where
  spaces := by
    intro other present blank
    rcases List.mem_cons.mp present with rfl | later
    · rw [solid] at blank
      cases blank
    · exact following.spaces other later blank
  apart := List.isChain_cons.mpr ⟨fun _ _ => Or.inl solid, following.apart⟩
  ended := by
    intro last present
    cases rest with
    | nil =>
        injection present with same
        exact same ▸ solid
    | cons second others =>
        rw [List.getLast?_cons_cons] at present
        exact following.ended last present

private theorem space (solid : isBlank member = false) (following : Text.Gapped (member :: rest)) :
    Text.Gapped (' ' :: member :: rest) where
  spaces := by
    intro other present blank
    rcases List.mem_cons.mp present with rfl | later
    · rfl
    · exact following.spaces other later blank
  apart := List.isChain_cons_cons.mpr ⟨Or.inr solid, following.apart⟩
  ended := by
    intro last present
    rw [List.getLast?_cons_cons] at present
    exact following.ended last present

end Text.Gapped

private theorem Text.Spaced.gapped {text : Text} (spaced : text.Spaced) : text.Gapped :=
  ⟨spaced.spaces, spaced.apart, ((trim_eq_self_iff text).mp spaced.trimmed).2⟩

namespace MediaQuery

private theorem squeezeAfter_of_gapped (text : Text) :
    ∀ (previous : Char) (gap : Bool), text.Gapped →
      (gap = true → ∃ first ∈ text.head?, isBlank first = false) →
      Text.squeezeAfter (fun _ => false) (some previous) gap text =
        if gap then ' ' :: text else text := by
  induction text with
  | nil =>
      intro previous gap _ begun
      cases gap with
      | false => rfl
      | true =>
          obtain ⟨first, impossible, _⟩ := begun rfl
          cases impossible
  | cons member rest ih =>
      intro previous gap gapped begun
      cases blank : isBlank member with
      | false =>
          have later := ih member false gapped.tail fun impossible => by cases impossible
          rw [Text.squeezeAfter, blank, if_neg Bool.false_ne_true, later]
          simp
      | true =>
          have space := gapped.spaces member (List.mem_cons_self ..) blank
          have noGap : gap = false := by
            by_contra passed
            rw [Bool.not_eq_false] at passed
            obtain ⟨first, present, solid⟩ := begun passed
            injection present with same
            rw [← same, blank] at solid
            cases solid
          have later := ih previous true gapped.tail fun _ => gapped.begun blank
          rw [Text.squeezeAfter, blank, if_pos rfl, later, noGap, space]
          rfl

private theorem squeeze_of_spaced {text : Text} (spaced : text.Spaced) :
    Text.squeeze (fun _ => false) (' ' :: text) = text := by
  have passed : Text.squeeze (fun _ => false) (' ' :: text) =
      Text.squeezeAfter (fun _ => false) none true text := rfl
  have opens := ((Text.trim_eq_self_iff text).mp spaced.trimmed).1
  rw [passed]
  cases text with
  | nil => rfl
  | cons first rest =>
      have solid := opens first rfl
      have later := squeezeAfter_of_gapped rest first false spaced.gapped.tail
        fun impossible => by cases impossible
      rw [Text.squeezeAfter, solid, if_neg Bool.false_ne_true, later]
      simp

private theorem gapped_squeezeAfter (text : Text) : ∀ (previous? : Option Char) (gap : Bool),
    (Text.squeezeAfter (fun _ => false) previous? gap text).Gapped ∧
      (previous? = none → ∀ first ∈ (Text.squeezeAfter (fun _ => false) previous? gap text).head?,
        isBlank first = false) := by
  induction text with
  | nil => exact fun _ _ => ⟨.nil, fun _ _ impossible => by cases impossible⟩
  | cons member rest ih =>
      intro previous? gap
      rw [Text.squeezeAfter]
      cases blank : isBlank member with
      | true => exact ih previous? true
      | false =>
          have written := Text.Gapped.cons blank (ih (some member) false).1
          simp only [Bool.false_eq_true, if_false]
          split
          · rename_i spaced
            refine ⟨written.space blank, fun first => ?_⟩
            rw [first] at spaced
            simp at spaced
          · refine ⟨written, fun _ first same => ?_⟩
            injection same with same
            exact same ▸ blank

private theorem spaced_squeeze (text : Text) : (Text.squeeze (fun _ => false) text).Spaced := by
  obtain ⟨gapped, begun⟩ := gapped_squeezeAfter text none false
  exact ⟨(Text.trim_eq_self_iff _).mpr ⟨begun rfl, gapped.ended⟩, gapped.spaces, gapped.apart⟩

theorem dropBlanks_squeezeAfter (tight : Char → Bool) (text : Text) :
    ∀ (previous? : Option Char) (gap : Bool),
      (Text.squeezeAfter tight previous? gap text).dropBlanks = text.dropBlanks := by
  induction text with
  | nil => exact fun _ _ => rfl
  | cons member rest ih =>
      intro previous? gap
      rw [Text.squeezeAfter]
      cases blank : isBlank member with
      | true =>
          rw [Text.dropBlanks_cons_of_blank blank]
          exact ih previous? true
      | false =>
          have written : Text.dropBlanks (member :: Text.squeezeAfter tight (some member) false rest) =
              Text.dropBlanks (member :: rest) := by
            rw [Text.dropBlanks_cons_of_solid blank, ih, Text.dropBlanks_cons_of_solid blank]
          simp only [Bool.false_eq_true, if_false]
          split
          · rw [Text.dropBlanks_cons_of_blank (by decide), written]
          · exact written

/-- What normalisation yields is in normal form. -/
theorem normal_ofText (text : Text) : (ofText text).Normal := by
  unfold ofText
  split
  · rename_i inner found
    obtain ⟨paired, _⟩ := group?_eq_some_iff.mp found
    exact .grouped paired.dropBlanks inner.solid_dropBlanks
  · rename_i ungrouped
    refine .listed (spaced_squeeze text) ?_
    rintro ⟨inner, paired, same⟩
    refine group?_eq_none_iff.mp ungrouped (Text.isGroup_of_dropBlanks (Text.trim_trim text) ?_)
    rw [Text.dropBlanks_trim, ← dropBlanks_squeezeAfter (fun _ => false) text none false]
    refine ⟨inner.dropBlanks, paired.dropBlanks, ?_⟩
    have squeezed : Text.squeezeAfter (fun _ => false) none false text = '(' :: (inner ++ [')']) :=
      same
    rw [squeezed, Text.dropBlanks_cons_of_solid (by decide), Text.dropBlanks_append]
    rfl

/-! ### Preambles -/

theorem ofText_of_grouped {condition : Text} (paired : condition.Paired)
    (solid : condition.Solid) :
    ofText ('(' :: (condition ++ [')'])) = ⟨condition, true⟩ := by
  have trimmed : Text.trim ('(' :: (condition ++ [')'])) = '(' :: (condition ++ [')']) :=
    Text.trim_between ['('] condition [')'] (by decide) (by decide)
      (by decide) (by decide)
  have kept : condition.dropBlanks = condition := by
    rw [Text.dropBlanks, List.filter_eq_self]
    intro member present
    rw [solid member present]
    rfl
  simp only [ofText, trimmed, group?_eq_some_iff.mpr ⟨paired, rfl⟩, kept]

theorem ofText_of_listed {condition : Text} (spaced : condition.Spaced)
    (loose : ¬ condition.IsGroup) : ofText (' ' :: condition) = ⟨condition, false⟩ := by
  have trimmed : Text.trim (' ' :: condition) = condition := by
    rw [Text.trim_cons_of_isBlank ' ' condition (by decide), spaced.trimmed]
  simp only [ofText, trimmed, group?_eq_none_iff.mpr loose, squeeze_of_spaced spaced]

theorem Normal.trim_preamble {query : MediaQuery} (normal : query.Normal) :
    ∃ rest, query.preamble.trim = Node.mediaMark ++ rest ∧ ofText rest = query := by
  cases normal with
  | @grouped condition paired solid =>
      refine ⟨'(' :: (condition ++ [')']), ?_, ofText_of_grouped paired solid⟩
      exact Text.trim_between Node.mediaMark ('(' :: condition) [')']
        (by decide) (by decide) (by decide) (by decide)
  | @listed condition spaced loose =>
      cases condition with
      | nil => exact ⟨[], by decide, by decide⟩
      | cons first rest =>
          refine ⟨' ' :: first :: rest, ?_, ofText_of_listed spaced loose⟩
          exact Text.trim_between Node.mediaMark [' '] _ (by decide) spaced.trimmed
            (by decide) (List.cons_ne_nil _ _)

end MediaQuery
end NestedCss
