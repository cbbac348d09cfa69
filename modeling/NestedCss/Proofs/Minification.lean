import NestedCss.Keyframes.Compact
import NestedCss.Proofs.Gaps

set_option autoImplicit false

/-! Minified texts. A body is minified in one go. It could be done in three passes: blanks
are collapsed, those beside punctuation are dropped from left to right, with the blanks on
both sides of a mark at once, and the text is trimmed. Both lead to the normal form of all
texts with the same characters and the same gaps. -/

namespace NestedCss

namespace Text

variable {tight : Char → Bool}

/-- The tight character that a text begins with, and what follows it, both but for blanks. -/
def leadingTight? (tight : Char → Bool) (text : Text) : Option (Char × Text) :=
  match text.trimStart with
  | [] => none
  | mark :: rest => if tight mark then some (mark, trimStart rest) else none

private theorem length_trimStart_le (text : Text) : text.trimStart.length ≤ text.length :=
  (List.dropWhile_sublist isBlank).length_le

private theorem length_of_leadingTight? {text following : Text} {mark : Char}
    (found : leadingTight? tight text = some (mark, following)) :
    following.length < text.length := by
  have front := length_trimStart_le text
  unfold leadingTight? at found
  split at found
  · cases found
  · rename_i first rest trimmed
    split at found
    · obtain ⟨_, rfl⟩ := Prod.mk.inj (Option.some.inj found)
      have back := length_trimStart_le rest
      rw [trimmed, List.length_cons] at front
      omega
    · cases found

/-- Drop the blanks on either side of tight characters, from left to right. -/
def tighten (tight : Char → Bool) : Text → Text
  | [] => []
  | member :: rest =>
      match _found : leadingTight? tight (member :: rest) with
      | some (mark, following) => mark :: tighten tight following
      | none => member :: tighten tight rest
termination_by text => text.length
decreasing_by
  · exact length_of_leadingTight? _found
  · exact Nat.lt_succ_self _

private theorem trimStart_blanks {blanks : Text} (blank : ∀ member ∈ blanks, isBlank member = true)
    {member : Char} (solid : isBlank member = false) (later : Text) :
    (blanks ++ member :: later).trimStart = member :: later := by
  rw [trimStart, List.dropWhile_append_of_pos blank, List.dropWhile_cons_of_neg (by simp [solid])]

private theorem tighten_of_tight {blanks : Text} (blank : ∀ member ∈ blanks, isBlank member = true)
    {mark : Char} (solid : isBlank mark = false) (tightMark : tight mark = true) (later : Text) :
    tighten tight (blanks ++ mark :: later) = mark :: tighten tight later.trimStart := by
  have found : leadingTight? tight (blanks ++ mark :: later) = some (mark, later.trimStart) := by
    rw [leadingTight?, trimStart_blanks blank solid]
    exact if_pos tightMark
  obtain ⟨first, rest, whole⟩ : ∃ first rest, blanks ++ mark :: later = first :: rest :=
    List.exists_cons_of_ne_nil (by simp)
  rw [whole] at found ⊢
  rw [tighten]
  split
  · rename_i other following same
    rw [found] at same
    injection same with same
    injection same with same sameLater
    rw [same, sameLater]
  · rename_i none
    rw [found] at none
    cases none

private theorem tighten_of_loose {member : Char} {rest : Text}
    (none : leadingTight? tight (member :: rest) = none) :
    tighten tight (member :: rest) = member :: tighten tight rest := by
  rw [tighten]
  split
  · rename_i found
    rw [none] at found
    cases found
  · rfl

def run (blanks : Text) : Text := if blanks.isEmpty then [] else [' ']

private theorem blank_of_mem_run {blanks : Text} :
    ∀ member ∈ blanks.run, isBlank member = true := by
  intro member present
  unfold run at present
  split at present
  · cases present
  · rw [List.mem_singleton.mp present]
    decide

private theorem collapseFrom_blanks {blanks : Text}
    (blank : ∀ member ∈ blanks, isBlank member = true) (rest : Text) (gap : Bool) :
    collapseFrom gap (blanks ++ rest) =
      (if gap then [] else blanks.run) ++ collapseFrom (gap || !blanks.isEmpty) rest := by
  induction blanks generalizing gap with
  | nil => cases gap <;> simp [run]
  | cons member others ih =>
      rw [List.cons_append, collapseFrom, if_pos (blank member (List.mem_cons_self ..)),
        ih fun other present => blank other (List.mem_cons_of_mem _ present)]
      cases gap <;> simp [run]

private theorem collapse_blanks {blanks : Text} (blank : ∀ member ∈ blanks, isBlank member = true) :
    collapse blanks = blanks.run := by
  have whole := collapseFrom_blanks blank [] false
  rw [List.append_nil] at whole
  rw [collapse, whole]
  simp [collapseFrom]

private theorem collapse_step {blanks : Text} (blank : ∀ member ∈ blanks, isBlank member = true)
    {member : Char} (solid : isBlank member = false) (later : Text) :
    collapse (blanks ++ member :: later) = blanks.run ++ member :: collapse later := by
  rw [collapse, collapseFrom_blanks blank, collapseFrom, if_neg (Bool.eq_false_iff.mp solid)]
  rfl

private theorem collapse_cons {member : Char} (solid : isBlank member = false) (later : Text) :
    collapse (member :: later) = member :: collapse later :=
  collapse_step blank_of_mem_nil solid later

private theorem trimStart_collapse_blanks {blanks : Text}
    (blank : ∀ member ∈ blanks, isBlank member = true) : (collapse blanks).trimStart = [] := by
  rw [collapse_blanks blank, trimStart, List.dropWhile_eq_nil_iff]
  exact blank_of_mem_run

private theorem tighten_run (blanks : Text) : tighten tight blanks.run = blanks.run := by
  unfold run
  split
  · rw [tighten]
  · rw [tighten_of_loose (by rfl), tighten]

private theorem leadingTight?_of_loose {blanks : Text}
    (blank : ∀ member ∈ blanks, isBlank member = true)
    {member : Char} (loose : Loose tight member) (later : Text) :
    leadingTight? tight (blanks ++ member :: later) = none := by
  rw [leadingTight?, trimStart_blanks blank loose.solid]
  exact if_neg (by rw [loose.loose]; exact Bool.false_ne_true)

private theorem tighten_run_append (blanks : Text) {member : Char} (loose : Loose tight member)
    (later : Text) :
    tighten tight (blanks.run ++ member :: later) =
      blanks.run ++ member :: tighten tight later := by
  have alone : tighten tight (member :: later) = member :: tighten tight later :=
    tighten_of_loose (leadingTight?_of_loose blank_of_mem_nil loose later)
  unfold run
  split
  · exact alone
  · have space : ∀ member ∈ [' '], isBlank member = true := List.all_eq_true.mp rfl
    have ahead : leadingTight? tight (' ' :: member :: later) = none :=
      leadingTight?_of_loose space loose later
    rw [List.singleton_append, List.singleton_append, tighten_of_loose ahead, alone]

private theorem separator_of_tight {first second : Char} (blanks : Text)
    (beside : tight first = true ∨ tight second = true) :
    separator tight first blanks second = [] := by
  refine if_neg fun spaced => ?_
  rcases beside with tightFirst | tightSecond
  · rw [tightFirst] at spaced
    cases spaced.2.1
  · rw [tightSecond] at spaced
    cases spaced.2.2

private theorem separator_of_loose {first second : Char} (blanks : Text)
    (loose : tight first = false)
    (looseToo : tight second = false) : separator tight first blanks second = blanks.run := by
  unfold separator run
  cases blanks <;> simp [loose, looseToo]

def behind (tight : Char → Bool) (first : Char) (later : Text) : Text :=
  if tight first then later.collapse.trimStart else later.collapse

private theorem tighten_collapse_cons {blanks : Text}
    (blank : ∀ member ∈ blanks, isBlank member = true)
    {first : Char} (solid : isBlank first = false) (later : Text) :
    tighten tight (collapse (blanks ++ first :: later)) =
      (if tight first then [] else blanks.run) ++
        first :: tighten tight (behind tight first later) := by
  rw [collapse_step blank solid, behind]
  cases tightFirst : tight first with
  | true => exact tighten_of_tight blank_of_mem_run solid tightFirst _
  | false => exact tighten_run_append blanks ⟨solid, tightFirst⟩ _

private theorem tighten_collapse_first (tight : Char → Bool) {first : Char}
    (solid : isBlank first = false) (later : Text) :
    tighten tight (collapse (first :: later)) =
      first :: tighten tight (behind tight first later) := by
  have whole := @tighten_collapse_cons tight [] blank_of_mem_nil first solid later
  simpa [run] using whole

private theorem tighten_behind (tight : Char → Bool) {later : Text} (parts : later.Parts) :
    ∀ first : Char,
    ∃ rest : Text, (∀ member ∈ rest, isBlank member = true) ∧
      tighten tight (behind tight first later) =
        squeezeAfter tight (some first) false later ++ rest := by
  -- The passes leave a blank at the end that squeezing does not, so the rest is part of this.
  induction parts with
  | @blank blanks blank =>
      intro first
      rw [MediaQuery.squeezeAfter_of_blank tight _ blank, behind, trimStart_collapse_blanks blank,
        collapse_blanks blank]
      split
      · exact ⟨[], by simp, by rw [tighten]; rfl⟩
      · exact ⟨blanks.run, blank_of_mem_run, tighten_run blanks⟩
  | @solid blanks later second blank solid following ih =>
      intro first
      obtain ⟨rest, white, tightened⟩ := ih second
      refine ⟨rest, white, ?_⟩
      rw [squeezeAfter_step blank solid, List.append_assoc, List.cons_append, ← tightened, behind]
      cases tightFirst : tight first with
      | true =>
          rw [separator_of_tight blanks (.inl tightFirst), if_pos rfl, collapse_step blank solid,
            trimStart_blanks blank_of_mem_run solid, ← collapse_cons solid,
            tighten_collapse_first tight solid, List.nil_append]
      | false =>
          rw [if_neg Bool.false_ne_true, tighten_collapse_cons blank solid]
          cases tightSecond : tight second with
          | true => rw [separator_of_tight blanks (.inr tightSecond), if_pos rfl]
          | false =>
              rw [separator_of_loose blanks tightFirst tightSecond, if_neg Bool.false_ne_true]

private theorem Compacted.trim_eq {text : Text} (compacted : Compacted tight text) :
    text.trim = text := by
  rw [trim_eq_self_iff]
  constructor
  · intro first present
    obtain ⟨back, rfl⟩ := List.head?_eq_some_iff.mp present
    by_contra white
    rw [Bool.not_eq_false] at white
    obtain ⟨_, ⟨left, impossible, _⟩, _⟩ := compacted [] first back rfl white
    cases impossible
  · intro last present
    obtain ⟨front, rfl⟩ := List.getLast?_eq_some_iff.mp present
    by_contra white
    rw [Bool.not_eq_false] at white
    obtain ⟨_, _, right, impossible, _⟩ := compacted front last [] rfl white
    cases impossible

private theorem trim_of_blanks_append {blanks : Text}
    (blank : ∀ member ∈ blanks, isBlank member = true)
    (text : Text) : (blanks ++ text).trim = text.trim := by
  rw [trim, trimStart, List.dropWhile_append_of_pos blank]
  rfl

/-- To collapse the blanks, drop those beside tight characters and trim the text is to squeeze
it. -/
theorem trim_tighten_collapse (tight : Char → Bool) (text : Text) :
    (tighten tight text.collapse).trim = squeeze tight text := by
  cases text.parts with
  | @blank blanks blank =>
      rw [collapse_blanks blank, tighten_run, squeeze_of_blank blank]
      unfold run
      split <;> rfl
  | @solid blanks later first blank solid following =>
      have trimmed := (compacted_squeeze tight (blanks ++ first :: later)).trim_eq
      obtain ⟨rest, white, tightened⟩ := tighten_behind tight following first
      have front : ∀ member ∈ (if tight first then [] else blanks.run : Text),
          isBlank member = true := by
        split
        · simp
        · exact blank_of_mem_run
      rw [squeeze_step blank solid] at trimmed ⊢
      rw [tighten_collapse_cons blank solid, tightened, trim_of_blanks_append front,
        ← List.cons_append, trim_append_of_blank _ white, trimmed]

end Text

namespace Keyframes

/-- Minifying keeps the characters that are not blank, with single spaces exactly where there
were blanks between two that are no punctuation. This determines the minified text, and all
texts with the same characters and gaps have the same one; three passes lead to it. -/
theorem minify_normal_form (text : Text) :
    minify (minify text) = minify text ∧
      (minify text).dropBlanks = text.dropBlanks ∧
      Text.Compacted isPunctuation (minify text) ∧
      Text.SameGaps isPunctuation text (minify text) ∧
      (∀ other : Text, other.dropBlanks = text.dropBlanks →
        Text.SameGaps isPunctuation text other → minify other = minify text) ∧
      (∀ other : Text, other.dropBlanks = text.dropBlanks → Text.Compacted isPunctuation other →
        Text.SameGaps isPunctuation text other → other = minify text) ∧
      (Text.tighten isPunctuation text.collapse).trim = minify text :=
  ⟨Text.squeeze_squeeze isPunctuation text, Text.dropBlanks_squeeze isPunctuation text,
    Text.compacted_squeeze isPunctuation text, Text.sameGaps_squeeze isPunctuation text,
    fun _ kept same => (Text.squeeze_eq_of_sameGaps kept same).symm,
    fun _ kept compacted same => Text.eq_squeeze_iff.mpr ⟨kept, compacted, same⟩,
    Text.trim_tighten_collapse isPunctuation text⟩

/-- A gap of two blanks is one of one blank, and a blank before a semicolon is no gap. -/
theorem minify_normal_form_of_gaps :
    let text : Text := ['b', ' ', '\t', 'c', ';']
    let other : Text := ['b', ' ', 'c', ' ', ';']
    other.dropBlanks = text.dropBlanks ∧ Text.SameGaps isPunctuation text other ∧
      minify other = minify text ∧ minify text = ['b', ' ', 'c', ';'] := by
  intro text other
  have same : Text.SameGaps isPunctuation text other := by
    have two : ∀ member ∈ [' ', '\t'], isBlank member = true := List.all_eq_true.mp rfl
    have one : ∀ member ∈ [' '], isBlank member = true := List.all_eq_true.mp rfl
    have last : isBlank ';' = false := rfl
    have middle : isBlank 'c' = false := rfl
    have first : isBlank 'b' = false := rfl
    have ending : Text.SameGaps isPunctuation [';'] [';'] := fun _ _ _ _ _ _ => Iff.rfl
    have later : Text.SameGaps isPunctuation ['c', ';'] ['c', ' ', ';'] :=
      (Text.sameGaps_step_iff middle last Text.blank_of_mem_nil one).mpr
        ⟨fun _ loose => absurd loose (by decide), ending⟩
    exact (Text.sameGaps_step_iff first middle two one).mpr
      ⟨fun _ _ => by decide, later⟩
  exact ⟨by decide, same, (minify_normal_form text).2.2.2.2.1 other (by decide) same, by decide⟩

end Keyframes
end NestedCss
