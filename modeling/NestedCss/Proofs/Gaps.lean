import NestedCss.Proofs.QueryOffsets

set_option autoImplicit false

/-! Gaps between characters. What blanks mean in a text is only which neighbours they keep
apart, and beside tight characters they mean nothing. Squeezing keeps all characters but the
blanks, and between neighbours that are not tight it keeps the gaps, as single spaces. A text
with no other blanks is determined by its characters and its gaps, so it is the normal form
of every text with the same ones. -/

namespace NestedCss

namespace Text

/-- A blank stands in the text where `kept` is what comes before it, but for blanks. -/
def GapBehind (text kept : Text) : Prop :=
  ∃ (front : Text) (blank : Char) (back : Text),
    text = front ++ blank :: back ∧ isBlank blank = true ∧ front.dropBlanks = kept

/-- But for blanks, two characters follow one another in the text, and `kept` comes before
them. -/
def Neighbours (text kept : Text) (first second : Char) : Prop :=
  ∃ later, text.dropBlanks = kept ++ first :: second :: later

/-- Two texts have their gaps between the same neighbours, tight characters apart. -/
def SameGaps (tight : Char → Bool) (text other : Text) : Prop :=
  ∀ kept first second, text.Neighbours kept first second → tight first = false →
    tight second = false → (text.GapBehind (kept ++ [first]) ↔ other.GapBehind (kept ++ [first]))

structure Loose (tight : Char → Bool) (member : Char) : Prop where
  solid : isBlank member = false
  loose : tight member = false

/-- Every blank is a single space between two characters that are neither blank nor tight. -/
def Compacted (tight : Char → Bool) (text : Text) : Prop :=
  ∀ (front : Text) (blank : Char) (back : Text), text = front ++ blank :: back →
    isBlank blank = true →
      blank = ' ' ∧ (∃ first ∈ front.getLast?, Loose tight first) ∧
        ∃ second ∈ back.head?, Loose tight second

variable {tight : Char → Bool}

/-! ### Where a text has a gap -/

private theorem gapBehind_nil_iff {text : Text} :
    text.GapBehind [] ↔ ∃ blank ∈ text.head?, isBlank blank = true := by
  constructor
  · rintro ⟨front, blank, back, rfl, white, nothing⟩
    cases front with
    | nil => exact ⟨blank, rfl, white⟩
    | cons first others =>
        exact ⟨first, rfl, blank_of_dropBlanks_eq_nil nothing first (List.mem_cons_self ..)⟩
  · rintro ⟨blank, present, white⟩
    obtain ⟨back, rfl⟩ := List.head?_eq_some_iff.mp present
    exact ⟨[], blank, back, rfl, white, rfl⟩

private theorem gapBehind_cons_of_solid {member : Char} (solid : isBlank member = false)
    (rest kept : Text) : GapBehind (member :: rest) (member :: kept) ↔ rest.GapBehind kept := by
  constructor
  · rintro ⟨front, blank, back, split, white, same⟩
    cases front with
    | nil => cases same
    | cons first others =>
        injection split with own split
        subst own
        rw [dropBlanks_cons_of_solid solid] at same
        exact ⟨others, blank, back, split, white, (List.cons.inj same).2⟩
  · rintro ⟨front, blank, back, rfl, white, rfl⟩
    exact ⟨member :: front, blank, back, rfl, white, dropBlanks_cons_of_solid solid front⟩

private theorem gapBehind_cons_of_blank {blank : Char} (white : isBlank blank = true) (rest : Text)
    {kept : Text} (some : kept ≠ []) : GapBehind (blank :: rest) kept ↔ rest.GapBehind kept := by
  constructor
  · rintro ⟨front, other, back, split, whiteToo, same⟩
    cases front with
    | nil => exact absurd same.symm some
    | cons first others =>
        injection split with own split
        subst own
        rw [dropBlanks_cons_of_blank white] at same
        exact ⟨others, other, back, split, whiteToo, same⟩
  · rintro ⟨front, other, back, rfl, whiteToo, rfl⟩
    exact ⟨blank :: front, other, back, rfl, whiteToo, dropBlanks_cons_of_blank white front⟩

theorem gapBehind_append (front rest : Text) {kept : Text} (some : kept ≠ []) :
    (front ++ rest).GapBehind (front.dropBlanks ++ kept) ↔ rest.GapBehind kept := by
  induction front with
  | nil => rfl
  | cons member others ih =>
      rw [List.cons_append]
      cases blank : isBlank member with
      | true =>
          rw [dropBlanks_cons_of_blank blank,
            gapBehind_cons_of_blank blank _ (List.append_ne_nil_of_right_ne_nil _ some), ih]
      | false =>
          rw [dropBlanks_cons_of_solid blank, List.cons_append, gapBehind_cons_of_solid blank, ih]

theorem blank_of_mem_nil : ∀ member ∈ ([] : Text), isBlank member = true :=
  fun _ impossible => absurd impossible List.not_mem_nil

private theorem dropBlanks_of_blank {blanks : Text}
    (blank : ∀ member ∈ blanks, isBlank member = true) :
    blanks.dropBlanks = [] :=
  List.filter_eq_nil_iff.mpr fun member present => by rw [blank member present]; decide

section Step

variable {first second : Char} {blanks later : Text} (solidFirst : isBlank first = false)
  (solid : isBlank second = false) (blank : ∀ member ∈ blanks, isBlank member = true)
include solidFirst solid blank

private theorem dropBlanks_step :
    dropBlanks (first :: (blanks ++ second :: later)) = first :: second :: later.dropBlanks := by
  rw [dropBlanks_cons_of_solid solidFirst, dropBlanks_append, dropBlanks_of_blank blank,
    dropBlanks_cons_of_solid solid, List.nil_append]

private theorem gapBehind_first_iff :
    GapBehind (first :: (blanks ++ second :: later)) [first] ↔ blanks ≠ [] := by
  rw [gapBehind_cons_of_solid solidFirst, gapBehind_nil_iff]
  cases blanks with
  | nil =>
      refine iff_of_false ?_ fun some => some rfl
      rintro ⟨other, present, white⟩
      injection present with same
      rw [← same, solid] at white
      cases white
  | cons other others =>
      exact iff_of_true ⟨other, rfl, blank other (List.mem_cons_self ..)⟩ (List.cons_ne_nil _ _)

omit solid in
private theorem gapBehind_later_iff {kept : Text} (some : kept ≠ []) :
    GapBehind (first :: (blanks ++ second :: later)) (first :: kept) ↔
      GapBehind (second :: later) kept := by
  have behind := gapBehind_append blanks (second :: later) some
  rw [dropBlanks_of_blank blank, List.nil_append] at behind
  rw [gapBehind_cons_of_solid solidFirst, behind]

theorem sameGaps_step_iff {blanksToo laterToo : Text}
    (blankToo : ∀ member ∈ blanksToo, isBlank member = true) :
    SameGaps tight (first :: (blanks ++ second :: later))
        (first :: (blanksToo ++ second :: laterToo)) ↔
      (tight first = false → tight second = false → (blanks ≠ [] ↔ blanksToo ≠ [])) ∧
        SameGaps tight (second :: later) (second :: laterToo) := by
  have here : GapBehind (first :: (blanks ++ second :: later)) [first] ↔ blanks ≠ [] :=
    gapBehind_first_iff solidFirst solid blank
  have hereToo : GapBehind (first :: (blanksToo ++ second :: laterToo)) [first] ↔
      blanksToo ≠ [] := gapBehind_first_iff solidFirst solid blankToo
  have kept : dropBlanks (first :: (blanks ++ second :: later)) =
      first :: second :: later.dropBlanks := dropBlanks_step solidFirst solid blank
  have keptLater : dropBlanks (second :: later) = second :: later.dropBlanks :=
    dropBlanks_cons_of_solid solid later
  constructor
  · intro same
    constructor
    · intro loose looseToo
      rw [← here, ← hereToo]
      exact same [] first second ⟨_, kept⟩ loose looseToo
    · rintro front left right ⟨others, whole⟩ loose looseToo
      have further := same (first :: front) left right
        ⟨others, by rw [kept, ← keptLater, whole]; rfl⟩ loose looseToo
      have some : front ++ [left] ≠ [] := by simp
      rw [List.cons_append, gapBehind_later_iff solidFirst blank some,
        gapBehind_later_iff solidFirst blankToo some] at further
      exact further
  · rintro ⟨sameHere, sameLater⟩ front left right ⟨others, whole⟩ loose looseToo
    rw [kept] at whole
    cases front with
    | nil =>
        injection whole with own whole
        injection whole with other _
        subst own other
        exact here.trans ((sameHere loose looseToo).trans hereToo.symm)
    | cons own front =>
        injection whole with same whole
        subst same
        have some : front ++ [left] ≠ [] := by simp
        rw [List.cons_append, gapBehind_later_iff solidFirst blank some,
          gapBehind_later_iff solidFirst blankToo some]
        exact sameLater front left right ⟨others, keptLater.trans whole⟩ loose looseToo

end Step

private theorem sameGaps_of_single {text : Text} {member : Char}
    (single : text.dropBlanks = [member]) (other : Text) : SameGaps tight text other := by
  rintro kept first second ⟨later, whole⟩
  have length := congrArg List.length whole
  rw [single, List.length_append, List.length_cons, List.length_cons] at length
  simp only [List.length_cons, List.length_nil] at length
  omega

private theorem sameGaps_leading {blanks blanksToo text other : Text}
    (blank : ∀ member ∈ blanks, isBlank member = true)
    (blankToo : ∀ member ∈ blanksToo, isBlank member = true)
    (same : SameGaps tight (blanks ++ text) (blanksToo ++ other)) : SameGaps tight text other := by
  rintro kept first second ⟨later, whole⟩ loose looseToo
  have some : kept ++ [first] ≠ [] := by simp
  have front := gapBehind_append blanks text some
  have frontToo := gapBehind_append blanksToo other some
  rw [dropBlanks_of_blank blank, List.nil_append] at front
  rw [dropBlanks_of_blank blankToo, List.nil_append] at frontToo
  rw [← front, ← frontToo]
  refine same kept first second ⟨later, ?_⟩ loose looseToo
  rw [dropBlanks_append, dropBlanks_of_blank blank, List.nil_append, whole]

/-! ### One character after the other -/

/-- A text as its characters that are not blank, with the blanks before each of them. -/
inductive Parts : Text → Prop
  | blank {blanks : Text} (blank : ∀ member ∈ blanks, isBlank member = true) : Parts blanks
  | solid {blanks later : Text} {member : Char}
      (blank : ∀ member ∈ blanks, isBlank member = true) (solid : isBlank member = false)
      (following : Parts later) : Parts (blanks ++ member :: later)

theorem parts (text : Text) : text.Parts := by
  induction text with
  | nil => exact .blank blank_of_mem_nil
  | cons first rest ih =>
      cases white : isBlank first with
      | false => exact .solid blank_of_mem_nil white ih
      | true =>
          cases ih with
          | blank blank => exact .blank (List.forall_mem_cons.mpr ⟨white, blank⟩)
          | @solid blanks later member blank solid following =>
              have front : ∀ other ∈ first :: blanks, isBlank other = true :=
                List.forall_mem_cons.mpr ⟨white, blank⟩
              exact .solid front solid following

def separator (tight : Char → Bool) (first : Char) (blanks : Text) (second : Char) : Text :=
  if blanks ≠ [] ∧ tight first = false ∧ tight second = false then [' '] else []

private theorem blank_of_mem_separator {first second : Char} {blanks : Text} :
    ∀ member ∈ separator tight first blanks second, isBlank member = true := by
  intro member present
  unfold separator at present
  split at present
  · rw [List.mem_singleton.mp present]
    decide
  · exact absurd present List.not_mem_nil

private theorem separator_ne_nil_iff {first second : Char} {blanks : Text}
    (loose : tight first = false)
    (looseToo : tight second = false) : separator tight first blanks second ≠ [] ↔ blanks ≠ [] := by
  unfold separator
  split
  · rename_i spaced
    exact iff_of_true (List.cons_ne_nil _ _) spaced.1
  · rename_i unspaced
    exact iff_of_false (fun some => some rfl) fun some => unspaced ⟨some, loose, looseToo⟩

private theorem squeezeAfter_blanks {blanks : Text}
    (blank : ∀ member ∈ blanks, isBlank member = true)
    (previous? : Option Char) (gap : Bool) (text : Text) :
    squeezeAfter tight previous? gap (blanks ++ text) =
      squeezeAfter tight previous? (gap || !blanks.isEmpty) text := by
  induction blanks generalizing gap with
  | nil => simp
  | cons member rest ih =>
      rw [List.cons_append, squeezeAfter, if_pos (blank member (List.mem_cons_self ..)),
        ih fun other present => blank other (List.mem_cons_of_mem _ present)]
      simp

theorem squeezeAfter_step {second : Char} {blanks : Text}
    (blank : ∀ member ∈ blanks, isBlank member = true) (solid : isBlank second = false)
    (first : Char) (later : Text) :
    squeezeAfter tight (some first) false (blanks ++ second :: later) =
      separator tight first blanks second ++
        second :: squeezeAfter tight (some second) false later := by
  rw [squeezeAfter_blanks blank, squeezeAfter, if_neg (Bool.eq_false_iff.mp solid)]
  unfold separator
  cases loose : tight first <;> cases tight second <;> cases blanks <;> simp [loose]

theorem squeeze_step {first : Char} {blanks : Text}
    (blank : ∀ member ∈ blanks, isBlank member = true) (solid : isBlank first = false)
    (later : Text) :
    squeeze tight (blanks ++ first :: later) =
      first :: squeezeAfter tight (some first) false later := by
  rw [squeeze, squeezeAfter_blanks blank, squeezeAfter, if_neg (Bool.eq_false_iff.mp solid)]
  simp

theorem squeeze_of_blank {blanks : Text} (blank : ∀ member ∈ blanks, isBlank member = true) :
    squeeze tight blanks = [] := MediaQuery.squeezeAfter_of_blank tight none blank false

/-! ### What squeezing keeps -/

theorem dropBlanks_squeeze (tight : Char → Bool) (text : Text) :
    (squeeze tight text).dropBlanks = text.dropBlanks :=
  MediaQuery.dropBlanks_squeezeAfter tight text none false

private theorem sameGaps_squeezeAfter (tight : Char → Bool) {later : Text} (parts : later.Parts) :
    ∀ first : Char, isBlank first = false →
      SameGaps tight (first :: later) (first :: squeezeAfter tight (some first) false later) := by
  induction parts with
  | @blank blanks blank =>
      intro first solid
      have single : dropBlanks (first :: blanks) = [first] := by
        rw [dropBlanks_cons_of_solid solid, dropBlanks_of_blank blank]
      exact sameGaps_of_single single _
  | @solid blanks later second blank solid following ih =>
      intro first solidFirst
      rw [squeezeAfter_step blank solid,
        sameGaps_step_iff solidFirst solid blank blank_of_mem_separator]
      exact ⟨fun loose looseToo => (separator_ne_nil_iff loose looseToo).symm, ih second solid⟩

theorem sameGaps_squeeze (tight : Char → Bool) (text : Text) :
    SameGaps tight text (squeeze tight text) := by
  cases text.parts with
  | blank blank =>
      rintro kept first second ⟨later, whole⟩
      rw [dropBlanks_of_blank blank] at whole
      simp at whole
  | @solid blanks later first blank solid following =>
      rw [squeeze_step blank solid]
      have same := sameGaps_squeezeAfter tight following first solid
      rintro kept left right ⟨others, whole⟩ loose looseToo
      have some : kept ++ [left] ≠ [] := by simp
      have front := gapBehind_append blanks (first :: later) some
      rw [dropBlanks_of_blank blank, List.nil_append] at front
      rw [front]
      refine same kept left right ⟨others, ?_⟩ loose looseToo
      rw [← whole, dropBlanks_append, dropBlanks_of_blank blank, List.nil_append]

private theorem Compacted.cons {member : Char} {text : Text} (solid : isBlank member = false)
    (compacted : Compacted tight text) : Compacted tight (member :: text) := by
  intro front blank back split white
  cases front with
  | nil =>
      injection split with same
      rw [same, white] at solid
      cases solid
  | cons own others =>
      injection split with _ split
      obtain ⟨space, ⟨first, present, loose⟩, behind⟩ := compacted others blank back split white
      exact ⟨space, ⟨first, List.mem_getLast?_cons present, loose⟩, behind⟩

private theorem Compacted.space {first second : Char} {text : Text} (loose : Loose tight first)
    (looseToo : Loose tight second) (compacted : Compacted tight (second :: text)) :
    Compacted tight (first :: ' ' :: second :: text) := by
  have further : Compacted tight (first :: second :: text) := compacted.cons loose.solid
  intro front blank back split white
  cases front with
  | nil =>
      injection split with same
      have solid := loose.solid
      rw [same, white] at solid
      cases solid
  | cons own others =>
      injection split with same split
      subst same
      cases others with
      | nil =>
          injection split with same split
          subst same split
          exact ⟨rfl, ⟨first, rfl, loose⟩, second, rfl, looseToo⟩
      | cons other others =>
          injection split with _ split
          obtain ⟨space, ⟨left, present, looseLeft⟩, behind⟩ :=
            compacted others blank back split white
          refine ⟨space, ⟨left, ?_, looseLeft⟩, behind⟩
          exact List.mem_getLast?_cons (List.mem_getLast?_cons present)

private theorem compacted_squeezeAfter {later : Text} (parts : later.Parts) : ∀ first : Char,
    isBlank first = false →
      Compacted tight (first :: squeezeAfter tight (some first) false later) := by
  induction parts with
  | blank blank =>
      intro first solid
      rw [MediaQuery.squeezeAfter_of_blank tight _ blank]
      refine Compacted.cons solid fun front other back split => ?_
      simp at split
  | @solid blanks later second blank solid following ih =>
      intro first solidFirst
      rw [squeezeAfter_step blank solid]
      unfold separator
      split
      · rename_i spaced
        exact Compacted.space ⟨solidFirst, spaced.2.1⟩ ⟨solid, spaced.2.2⟩ (ih second solid)
      · exact (ih second solid).cons solidFirst

theorem compacted_squeeze (tight : Char → Bool) (text : Text) :
    Compacted tight (squeeze tight text) := by
  cases text.parts with
  | blank blank =>
      rw [squeeze_of_blank blank]
      intro front other back split
      simp at split
  | @solid blanks later first blank solid following =>
      rw [squeeze_step blank solid]
      exact compacted_squeezeAfter following first solid

/-! ### One normal form for the same characters and gaps -/

private theorem squeezeAfter_eq_of_sameGaps {later : Text} (parts : later.Parts) :
    ∀ {first : Char} {laterToo : Text}, isBlank first = false →
      laterToo.dropBlanks = later.dropBlanks → SameGaps tight (first :: later) (first :: laterToo) →
      squeezeAfter tight (some first) false later =
        squeezeAfter tight (some first) false laterToo := by
  induction parts with
  | blank blank =>
      intro first laterToo _ kept _
      rw [dropBlanks_of_blank blank] at kept
      rw [MediaQuery.squeezeAfter_of_blank tight _ blank,
        MediaQuery.squeezeAfter_of_blank tight _ (blank_of_dropBlanks_eq_nil kept)]
  | @solid blanks later second blank solid following ih =>
      intro first laterToo solidFirst kept same
      rw [dropBlanks_append, dropBlanks_of_blank blank, dropBlanks_cons_of_solid solid] at kept
      obtain ⟨blanksToo, rest, rfl, _, blankToo, keptRest⟩ := exists_of_dropBlanks_eq_cons kept
      rw [sameGaps_step_iff solidFirst solid blank blankToo] at same
      rw [squeezeAfter_step blank solid, squeezeAfter_step blankToo solid, ih solid keptRest same.2]
      have gaps : separator tight first blanks second = separator tight first blanksToo second := by
        unfold separator
        by_cases loose : tight first = false ∧ tight second = false
        · simp only [same.1 loose.1 loose.2]
        · rw [if_neg fun spaced => loose spaced.2, if_neg fun spaced => loose spaced.2]
      rw [gaps]

theorem squeeze_eq_of_sameGaps {text other : Text} (kept : other.dropBlanks = text.dropBlanks)
    (same : SameGaps tight text other) : squeeze tight text = squeeze tight other := by
  cases text.parts with
  | blank blank =>
      rw [dropBlanks_of_blank blank] at kept
      rw [squeeze_of_blank blank, squeeze_of_blank (blank_of_dropBlanks_eq_nil kept)]
  | @solid blanks later first blank solid following =>
      rw [dropBlanks_append, dropBlanks_of_blank blank, dropBlanks_cons_of_solid solid] at kept
      obtain ⟨blanksToo, laterToo, rfl, _, blankToo, keptLater⟩ := exists_of_dropBlanks_eq_cons kept
      rw [squeeze_step blank solid, squeeze_step blankToo solid,
        squeezeAfter_eq_of_sameGaps following solid keptLater
          (sameGaps_leading blank blankToo same)]

theorem squeeze_squeeze (tight : Char → Bool) (text : Text) :
    squeeze tight (squeeze tight text) = squeeze tight text :=
  (squeeze_eq_of_sameGaps (dropBlanks_squeeze tight text) (sameGaps_squeeze tight text)).symm

private theorem Compacted.behind (front : Text) {later : Text} {member : Char}
    (solid : isBlank member = false) (compacted : Compacted tight (front ++ member :: later)) :
    Compacted tight (member :: later) := by
  intro first blank back split white
  obtain ⟨space, ⟨left, present, loose⟩, behind⟩ :=
    compacted (front ++ first) blank back (by rw [split, List.append_assoc]) white
  refine ⟨space, ⟨left, ?_, loose⟩, behind⟩
  cases first with
  | nil =>
      injection split with same
      rw [same, white] at solid
      cases solid
  | cons own others => rwa [List.getLast?_append_of_ne_nil _ (List.cons_ne_nil _ _)] at present

private theorem Compacted.separator_eq {first second : Char} {blanks later : Text}
    (compacted : Compacted tight (first :: (blanks ++ second :: later)))
    (blank : ∀ member ∈ blanks, isBlank member = true) :
    separator tight first blanks second = blanks := by
  cases blanks with
  | nil => rfl
  | cons own others =>
      have white := blank own (List.mem_cons_self ..)
      obtain ⟨rfl, ⟨left, present, loose⟩, right, behind, looseRight⟩ :=
        compacted [first] own (others ++ second :: later) rfl white
      cases others with
      | nil =>
          injection present with same
          injection behind with sameRight
          subst same sameRight
          exact if_pos ⟨List.cons_ne_nil _ _, loose.loose, looseRight.loose⟩
      | cons other _ =>
          injection behind with same
          have solid := looseRight.solid
          rw [← same, blank other (List.mem_cons_of_mem _ (List.mem_cons_self ..))] at solid
          cases solid

private theorem Compacted.eq_nil (front : Text) {blanks : Text}
    (compacted : Compacted tight (front ++ blanks))
    (blank : ∀ member ∈ blanks, isBlank member = true) : blanks = [] := by
  rcases List.eq_nil_or_concat' blanks with none | ⟨others, last, rfl⟩
  · exact none
  · have white := blank last (List.mem_append_right _ (List.mem_singleton_self last))
    obtain ⟨_, _, right, impossible, _⟩ :=
      compacted (front ++ others) last [] (by rw [List.append_assoc]) white
    cases impossible

private theorem squeezeAfter_of_compacted {later : Text} (parts : later.Parts) : ∀ first : Char,
    Compacted tight (first :: later) → squeezeAfter tight (some first) false later = later := by
  induction parts with
  | blank blank =>
      intro first compacted
      have nothing := compacted.eq_nil [first] blank
      rw [nothing]
      rfl
  | @solid blanks later second blank solid following ih =>
      intro first compacted
      have further : Compacted tight (second :: later) :=
        compacted.behind (first :: blanks) solid
      rw [squeezeAfter_step blank solid, compacted.separator_eq blank, ih second further]

private theorem squeeze_of_compacted {text : Text} (compacted : Compacted tight text) :
    squeeze tight text = text := by
  cases text.parts with
  | blank blank =>
      rw [compacted.eq_nil [] blank]
      rfl
  | @solid blanks later first blank solid following =>
      have nothing : blanks = [] := by
        cases blanks with
        | nil => rfl
        | cons own others =>
            obtain ⟨_, ⟨left, impossible, _⟩, _⟩ :=
              compacted [] own (others ++ first :: later) rfl (blank own (List.mem_cons_self ..))
            cases impossible
      subst nothing
      rw [squeeze_step blank solid, squeezeAfter_of_compacted following first compacted]
      rfl

/-- The squeezed text is the only compacted one with the same characters and gaps. -/
theorem eq_squeeze_iff {text other : Text} :
    other = squeeze tight text ↔
      other.dropBlanks = text.dropBlanks ∧ Compacted tight other ∧ SameGaps tight text other := by
  constructor
  · rintro rfl
    exact ⟨dropBlanks_squeeze tight text, compacted_squeeze tight text, sameGaps_squeeze tight text⟩
  · rintro ⟨kept, compacted, same⟩
    rw [squeeze_eq_of_sameGaps kept same, squeeze_of_compacted compacted]

end Text
end NestedCss
