import Mathlib.Data.Nat.PSub
import NestedCss.Proofs.MediaQueries

set_option autoImplicit false

/-! Media queries by byte offsets. A text can be kept as the bytes of its characters, so
that an offset may lie beyond its end or inside a character. Here the group is found as
such a text is read: a counter of open parentheses goes along with the offset of each
character, and the parentheses around the group are cut off by offsets. No offset is ever
wrong, whatever the query, and what is found is the normal form. -/

namespace NestedCss

namespace Text

def byteSize : Text → Nat
  | [] => 0
  | member :: rest => member.utf8Size + byteSize rest

/-- The text before a byte offset and the text from there on, if the offset is that of a
character or of the end. -/
def splitAtByte? : Nat → Text → Option (Text × Text)
  | 0, text => some ([], text)
  | _ + 1, [] => none
  | offset + 1, member :: rest =>
      if member.utf8Size ≤ offset + 1 then
        (splitAtByte? (offset + 1 - member.utf8Size) rest).map fun (front, back) =>
          (member :: front, back)
      else none

def slice? (first last : Nat) (text : Text) : Option Text :=
  if first ≤ last then
    (splitAtByte? last text).bind fun (front, _) => (splitAtByte? first front).map Prod.snd
  else none

/-- One space for each run of blanks; `gap` says that the space has been written. -/
def collapseFrom : Bool → Text → Text
  | _, [] => []
  | gap, member :: rest =>
      if isBlank member then
        if gap then collapseFrom true rest else ' ' :: collapseFrom true rest
      else member :: collapseFrom false rest

def collapse (text : Text) : Text := collapseFrom false text

@[simp] theorem byteSize_nil : byteSize [] = 0 := rfl

@[simp] theorem byteSize_cons (member : Char) (rest : Text) :
    byteSize (member :: rest) = member.utf8Size + byteSize rest := rfl

@[simp] theorem byteSize_append (first second : Text) :
    byteSize (first ++ second) = byteSize first + byteSize second := by
  induction first with
  | nil => exact (Nat.zero_add _).symm
  | cons member rest ih => rw [List.cons_append, byteSize_cons, byteSize_cons, ih, Nat.add_assoc]

private theorem byteSize_pos {text : Text} (some : text ≠ []) : 0 < text.byteSize := by
  obtain ⟨member, rest, rfl⟩ := List.exists_cons_of_ne_nil some
  have own := member.utf8Size_pos
  rw [byteSize_cons]
  omega

private theorem splitAtByte?_zero (text : Text) : splitAtByte? 0 text = some ([], text) := by
  cases text <;> rfl

private theorem splitAtByte?_append (front back : Text) :
    splitAtByte? front.byteSize (front ++ back) = some (front, back) := by
  induction front with
  | nil => exact splitAtByte?_zero back
  | cons member rest ih =>
      have own := member.utf8Size_pos
      obtain ⟨offset, whole⟩ : ∃ offset, byteSize (member :: rest) = offset + 1 :=
        ⟨byteSize (member :: rest) - 1, by rw [byteSize_cons]; omega⟩
      have left : offset + 1 - member.utf8Size = byteSize rest := by
        rw [← whole, byteSize_cons]
        omega
      have fits : member.utf8Size ≤ offset + 1 := by
        rw [← whole, byteSize_cons]
        omega
      rw [whole, List.cons_append, splitAtByte?, if_pos fits, left, ih]
      rfl

private theorem slice?_append (front middle back : Text) :
    slice? front.byteSize (front ++ middle).byteSize (front ++ middle ++ back) = some middle := by
  have ordered : front.byteSize ≤ (front ++ middle).byteSize := by
    rw [byteSize_append]
    omega
  rw [slice?, if_pos ordered, splitAtByte?_append, Option.bind_some]
  exact congrArg (Option.map Prod.snd) (splitAtByte?_append front middle)

end Text

namespace MediaQuery

/-- Whether the parentheses of a text of `size` bytes pair off and none but the last
character closes the first one. The rest of the text starts at the offset `index`, with
`depth` parentheses open; a closing one too many is not counted. -/
def closesLast? (size : Nat) : Nat → Nat → Text → Option Bool
  | depth, _, [] => some (depth == 0)
  | depth, index, member :: rest =>
      let further (opened : Nat) := closesLast? size opened (index + member.utf8Size) rest
      if member = '(' then further (depth + 1)
      else if member = ')' then
        if depth - 1 = 0 then
          size.ppred.bind fun last => if index ≠ last then some false else further 0
        else further (depth - 1)
      else further depth

def singleGroup? (query : Text) : Option Bool :=
  if query.head? = some '(' ∧ query.getLast? = some ')' then
    closesLast? query.byteSize 0 0 query
  else some false

/-- The normal form by way of byte offsets, unless an offset is wrong. -/
def ofOffsets? (query : Text) : Option MediaQuery :=
  (singleGroup? query.trim).bind fun grouped =>
    if grouped then
      query.trim.byteSize.ppred.bind fun last =>
        (query.trim.slice? 1 last).map fun inner => ⟨inner.dropBlanks, true⟩
    else some ⟨query.trim.collapse, false⟩

/-! ### The group -/

private theorem closesLast?_eq (size : Nat) (text : Text) : ∀ depth index : Nat,
    index + text.byteSize = size →
      closesLast? size (depth + 1) index text = some (closesAtEnd depth text) := by
  induction text with
  | nil =>
      intro depth index whole
      rfl
  | cons member rest ih =>
      intro depth index whole
      rw [Text.byteSize_cons, ← Nat.add_assoc] at whole
      rw [closesLast?]
      beta_reduce
      by_cases opens : member = '('
      · rw [if_pos opens, ih _ _ whole, opens, closesAtEnd]
      · rw [if_neg opens]
        by_cases closes : member = ')'
        · rw [if_pos closes]
          cases depth with
          | succ outer =>
              rw [if_neg (by omega), Nat.add_sub_cancel, ih _ _ whole, closes, closesAtEnd]
          | zero =>
              have wide : member.utf8Size = 1 := by
                rw [closes]
                rfl
              obtain ⟨last, same⟩ : ∃ last, size = last + 1 := ⟨size - 1, by omega⟩
              rw [if_pos (by omega), same, Nat.ppred_succ, Option.bind_some, closes, closesAtEnd]
              -- The closing parenthesis stands at the end exactly when nothing follows it.
              cases rest with
              | nil =>
                  rw [Text.byteSize_nil] at whole
                  rw [if_neg (by omega)]
                  rfl
              | cons second others =>
                  have more := Text.byteSize_pos (List.cons_ne_nil second others)
                  rw [if_pos (by omega)]
                  rfl
        · rw [if_neg closes, ih _ _ whole, closesAtEnd_cons_of_ne depth rest ⟨opens, closes⟩]

private theorem singleGroup?_eq (query : Text) :
    singleGroup? query = some (group? query).isSome := by
  unfold singleGroup?
  by_cases ends : query.head? = some '(' ∧ query.getLast? = some ')'
  · rw [if_pos ends]
    obtain ⟨rest, rfl⟩ := List.head?_eq_some_iff.mp ends.1
    have whole : 0 + '('.utf8Size + Text.byteSize rest = Text.byteSize ('(' :: rest) := by
      rw [Text.byteSize_cons]
      omega
    have counted := closesLast?_eq _ rest 0 _ whole
    rw [closesLast?, if_pos rfl]
    beta_reduce
    rw [counted, group?]
    cases closesAtEnd 0 rest <;> rfl
  · rw [if_neg ends]
    cases found : group? query with
    | none => rfl
    | some inner =>
        obtain ⟨_, rfl⟩ := group?_eq_some_iff.mp found
        refine absurd ⟨rfl, ?_⟩ ends
        rw [← List.cons_append, List.getLast?_concat]

private theorem slice?_group (inner : Text) :
    (Text.byteSize ('(' :: (inner ++ [')']))).ppred.bind
      (fun last => Text.slice? 1 last ('(' :: (inner ++ [')']))) = some inner := by
  have size : Text.byteSize ('(' :: (inner ++ [')'])) = Text.byteSize (['('] ++ inner) + 1 := by
    simp only [Text.byteSize_cons, Text.byteSize_append, Text.byteSize_nil]
    rw [show ')'.utf8Size = 1 from rfl]
    omega
  have cut := Text.slice?_append ['('] inner [')']
  rw [size, Nat.ppred_succ, Option.bind_some]
  exact cut

/-! ### Spaces -/

theorem squeezeAfter_trimStart (tight : Char → Bool) (text : Text) (gap : Bool) :
    Text.squeezeAfter tight none gap text = Text.squeezeAfter tight none false text.trimStart := by
  induction text generalizing gap with
  | nil => rfl
  | cons member rest ih =>
      cases blank : isBlank member with
      | true =>
          rw [Text.squeezeAfter, if_pos blank, ih, Text.trimStart, Text.trimStart,
            List.dropWhile_cons_of_pos blank]
      | false =>
          rw [Text.trimStart, List.dropWhile_cons_of_neg (by simp [blank]), Text.squeezeAfter,
            Text.squeezeAfter]
          simp [blank]

theorem squeezeAfter_of_blank (tight : Char → Bool) (previous? : Option Char) {blanks : Text}
    (blank : ∀ member ∈ blanks, isBlank member = true) (gap : Bool) :
    Text.squeezeAfter tight previous? gap blanks = [] := by
  induction blanks generalizing gap with
  | nil => rfl
  | cons member rest ih =>
      rw [Text.squeezeAfter, if_pos (blank member (List.mem_cons_self ..))]
      exact ih (fun other present => blank other (List.mem_cons_of_mem _ present)) true

private theorem squeezeAfter_append_of_blank (tight : Char → Bool) {blanks : Text}
    (blank : ∀ member ∈ blanks, isBlank member = true) (text : Text) :
    ∀ (previous? : Option Char) (gap : Bool),
      Text.squeezeAfter tight previous? gap (text ++ blanks) =
        Text.squeezeAfter tight previous? gap text := by
  induction text with
  | nil => exact fun previous? gap => squeezeAfter_of_blank tight previous? blank gap
  | cons member rest ih =>
      intro previous? gap
      rw [List.cons_append, Text.squeezeAfter, Text.squeezeAfter, ih, ih]

private theorem squeeze_trim (tight : Char → Bool) (text : Text) :
    Text.squeeze tight text.trim = Text.squeeze tight text := by
  obtain ⟨blanks, blank, whole⟩ := text.trimStart.exists_trimEnd_append
  have front := squeezeAfter_trimStart tight text false
  rw [← whole, squeezeAfter_append_of_blank tight blank] at front
  exact front.symm

private theorem squeezeAfter_eq_collapseFrom (text : Text) : ∀ (previous : Char) (gap : Bool),
    (∀ last ∈ text.getLast?, isBlank last = false) → (gap = true → text ≠ []) →
      Text.squeezeAfter (fun _ => false) (some previous) gap text =
        (if gap then [' '] else []) ++ Text.collapseFrom gap text := by
  induction text with
  | nil =>
      intro previous gap _ more
      cases gap with
      | true => exact absurd rfl (more rfl)
      | false => rfl
  | cons member rest ih =>
      intro previous gap ended more
      have endedToo : ∀ last ∈ rest.getLast?, isBlank last = false :=
        fun last present => ended last (List.mem_getLast?_cons present)
      cases blank : isBlank member with
      | true =>
          have some : rest ≠ [] := by
            rintro rfl
            have solid := ended member rfl
            rw [blank] at solid
            cases solid
          rw [Text.squeezeAfter, if_pos blank, ih previous true endedToo fun _ => some,
            Text.collapseFrom, if_pos blank]
          cases gap <;> rfl
      | false =>
          have later := ih member false endedToo fun impossible => by cases impossible
          have solid : ¬ isBlank member = true := by
            rw [blank]
            exact Bool.false_ne_true
          rw [Text.squeezeAfter, if_neg solid, later, Text.collapseFrom, if_neg solid]
          cases gap <;> rfl

private theorem collapse_trim (text : Text) :
    text.trim.collapse = Text.squeeze (fun _ => false) text := by
  obtain ⟨opens, closes⟩ := (Text.trim_eq_self_iff text.trim).mp text.trim_trim
  rw [← squeeze_trim, Text.collapse, Text.squeeze]
  cases trimmed : text.trim with
  | nil => rfl
  | cons first rest =>
      rw [trimmed] at opens closes
      have solid : ¬ isBlank first = true := by
        rw [opens first rfl]
        exact Bool.false_ne_true
      have ended : ∀ last ∈ rest.getLast?, isBlank last = false :=
        fun last present => closes last (List.mem_getLast?_cons present)
      have later := squeezeAfter_eq_collapseFrom rest first false ended
        fun impossible => by cases impossible
      rw [Text.collapseFrom, Text.squeezeAfter, if_neg solid, if_neg solid, later]
      rfl

/-! ### The normal form -/

private theorem ofOffsets?_eq (query : Text) : ofOffsets? query = some (ofText query) := by
  rw [ofOffsets?, singleGroup?_eq, Option.bind_some, ofText]
  cases found : group? query.trim with
  | none =>
      rw [Option.isSome_none, if_neg Bool.false_ne_true, collapse_trim]
  | some inner =>
      obtain ⟨_, whole⟩ := group?_eq_some_iff.mp found
      have cut := slice?_group inner
      rw [← whole] at cut
      obtain ⟨last, before, sliced⟩ := Option.bind_eq_some_iff.mp cut
      rw [Option.isSome_some, if_pos rfl, before, Option.bind_some, sliced]
      rfl

theorem grouped_ofText_iff (query : Text) :
    (ofText query).grouped = true ↔ query.trim.IsGroup := by
  rw [ofText]
  cases found : group? query.trim with
  | none => exact iff_of_false Bool.false_ne_true (group?_eq_none_iff.mp found)
  | some inner => exact iff_of_true rfl ⟨inner, group?_eq_some_iff.mp found⟩

theorem dropBlanks_ofText (query : Text) :
    (if (ofText query).grouped then '(' :: ((ofText query).condition ++ [')'])
      else (ofText query).condition.dropBlanks) = query.dropBlanks := by
  rw [ofText]
  cases found : group? query.trim with
  | none => exact dropBlanks_squeezeAfter _ query none false
  | some inner =>
      obtain ⟨_, whole⟩ := group?_eq_some_iff.mp found
      rw [← query.dropBlanks_trim, whole, Text.dropBlanks_cons_of_solid (by decide),
        Text.dropBlanks_append]
      rfl

private theorem Normal.preamble_eq {query : MediaQuery} (normal : query.Normal) :
    ∃ rest, query.preamble = Node.mediaMark ++ rest ∧ ofText rest = query := by
  cases normal with
  | @grouped condition paired solid =>
      exact ⟨'(' :: (condition ++ [')']), rfl, ofText_of_grouped paired solid⟩
  | @listed condition spaced loose =>
      exact ⟨' ' :: condition, rfl, ofText_of_listed spaced loose⟩

/-- Every query has a normal form that byte offsets lead to without an error: grouped
exactly when the text is one group, with the same characters but for blanks and the
parentheses of the group, and found again in the text that is written for it. -/
theorem ofText_exact (query : Text) :
    ofOffsets? query = some (ofText query) ∧
      ((ofText query).grouped = true ↔ query.trim.IsGroup) ∧
      (if (ofText query).grouped then
        (ofText query).condition.Solid ∧
          '(' :: ((ofText query).condition ++ [')']) = query.dropBlanks
      else (ofText query).condition.Spaced ∧
        (ofText query).condition.dropBlanks = query.dropBlanks) ∧
      (∃ rest, (ofText query).preamble = Node.mediaMark ++ rest ∧ ofText rest = ofText query) ∧
      ∀ body, Node.ofBlock (ofText query).preamble.trim body = .media ⟨ofText query, body⟩ := by
  have normal := normal_ofText query
  refine ⟨ofOffsets?_eq query, grouped_ofText_iff query, ?_, normal.preamble_eq, ?_⟩
  · have kept := dropBlanks_ofText query
    generalize ofText query = found at normal kept ⊢
    cases normal with
    | grouped paired solid => exact ⟨solid, kept⟩
    | listed spaced loose => exact ⟨spaced, kept⟩
  · intro body
    obtain ⟨rest, written, found⟩ := normal.trim_preamble
    have other : Text.afterLead? Node.mixinMark (Node.mediaMark ++ rest) = none := rfl
    rw [written, Node.ofBlock, other, Text.afterLead?_append]
    simp only [found]

/-- The parentheses of a condition may stand around characters of several bytes. -/
example : ofOffsets? " ( a: \"é\" ) ".toList = some ⟨"a:\"é\"".toList, true⟩ := by decide +kernel

end MediaQuery
end NestedCss
