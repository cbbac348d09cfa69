import Mathlib.Data.Finset.Card
import NestedCss.Proofs.Verdicts

set_option autoImplicit false

/-! Bodies around bodies. The bodies of the outermost blocks of a text lie apart from each
other, and every other body lies within one of them, where it is a body of that text. So
what stands around a body is known from level to level: nothing around an outermost one,
and around another one the outermost body that holds it and what stands around it in
there. -/

namespace NestedCss

namespace Glyph

variable {whole : List Glyph}

/-- Around a body at an index stands another body, which has this header. -/
def BodyAround (whole : List Glyph) (index : Nat) (body : Body) (place : Nat) (header : Text) :
    Prop :=
  ∃ outer, BodyAt whole place header outer ∧ place < index ∧
    index + body.text.length ≤ place + outer.text.length

theorem length_glyphs (body : Body) : body.glyphs.length = body.text.length := by
  rw [← List.length_map Glyph.member, Body.glyphs, map_member_list]

theorem BodyAt.bounds {index : Nat} {header : Text} {body : Body}
    (stands : BodyAt whole index header body) :
    0 < index ∧ index + body.text.length < whole.length := by
  cases stands with
  | mk split _ _ _ _ _ =>
      rw [split, ← length_glyphs body]
      simp only [List.length_append, List.length_cons]
      omega

/-! ### Headings, braces and bodies where a text is cut -/

private theorem Heading.plain {before lead written : List Glyph}
    (heading : Heading before lead written) :
    ∀ glyph ∈ lead ++ written, ¬ glyph.Delimits := by
  refine List.forall_mem_append.mpr ⟨?_, heading.undivided⟩
  exact fun glyph present delimits => heading.idle glyph present (begins_of_delimits delimits)

private theorem exists_heading {before plain : List Glyph}
    (opened : ∀ last ∈ before.getLast?, last.Delimits) (undivided : ∀ glyph ∈ plain, ¬ glyph.Delimits) :
    ∃ lead written, plain = lead ++ written ∧ Heading before lead written := by
  let idle (glyph : Glyph) : Bool := !decide glyph.Begins
  refine ⟨plain.takeWhile idle, plain.dropWhile idle, List.takeWhile_append_dropWhile.symm, opened,
    ?_, ?_, ?_⟩
  · intro glyph present
    simpa [idle] using List.mem_takeWhile_imp present
  · intro first present
    have stops := List.head?_dropWhile_not idle plain
    rw [Option.mem_def.mp present] at stops
    simpa [idle] using stops
  · exact fun glyph present => undivided glyph ((List.dropWhile_sublist idle).subset present)

private theorem Heading.behind {before lead written outside inside : List Glyph} {opening : Glyph}
    (heading : Heading before lead written) (delimits : opening.Delimits)
    (split : before ++ lead ++ written = outside ++ opening :: inside) :
    ∃ earlier, inside = earlier ++ lead ++ written ∧ Heading earlier lead written := by
  rw [List.append_assoc, List.append_cons] at split
  rcases List.append_eq_append_iff.mp split with ⟨between, longer, same⟩ | ⟨between, longer, same⟩
  · obtain rfl : between = [] := eq_nil_of_plain
      (fun last present => by
        rw [← longer, List.getLast?_concat] at present
        exact Option.some.inj present ▸ delimits)
      fun glyph present => heading.plain glyph (same ▸ List.mem_append_left _ present)
    refine ⟨[], same.symm, { heading with opened := ?_ }⟩
    exact fun last present => by cases present
  · refine ⟨between, by rw [same, List.append_assoc], { heading with opened := ?_ }⟩
    intro last present
    refine heading.opened last ?_
    rw [longer, List.getLast?_append, Option.mem_def.mp present]
    rfl

private theorem split_behind {first second front back : List Glyph} {glyph : Glyph}
    (split : first ++ second = front ++ glyph :: back) (absent : glyph ∉ first) :
    ∃ inside, front = first ++ inside ∧ second = inside ++ glyph :: back := by
  rcases List.append_eq_append_iff.mp split with ⟨between, longer, same⟩ | ⟨between, longer, same⟩
  · exact ⟨between, longer, same⟩
  · cases between with
    | nil => exact ⟨[], by simp [longer], same.symm⟩
    | cons other others =>
        injection same with same
        exact absurd (longer ▸ List.mem_append_right front (same ▸ List.mem_cons_self ..)) absent

private theorem exists_part_of_split {α β : Type} {items : α → List β} {rest back : List β}
    {item : β} (parts : List α) : ∀ front, parts.flatMap items ++ rest = front ++ item :: back →
      item ∈ rest ∨ ∃ before part after inside beyond, parts = before ++ part :: after ∧
        items part = inside ++ item :: beyond ∧ front = before.flatMap items ++ inside := by
  induction parts with
  | nil =>
      intro front split
      rw [List.flatMap_nil, List.nil_append] at split
      exact Or.inl (split ▸ List.mem_append_right front (List.mem_cons_self ..))
  | cons part others ih =>
      intro front split
      have later : ∀ between, front = items part ++ between →
          others.flatMap items ++ rest = between ++ item :: back →
          item ∈ rest ∨ ∃ before part' after inside beyond,
            part :: others = before ++ part' :: after ∧ items part' = inside ++ item :: beyond ∧
              front = before.flatMap items ++ inside := by
        rintro between rfl further
        refine (ih between further).imp_right ?_
        rintro ⟨before, part', after, inside, beyond, rfl, cut, rfl⟩
        exact ⟨part :: before, part', after, inside, beyond, rfl, cut, by simp⟩
      rw [List.flatMap_cons, List.append_assoc] at split
      rcases List.append_eq_append_iff.mp split with ⟨between, longer, same⟩ | ⟨between, longer, same⟩
      · exact later between longer same
      · cases between with
        | nil => exact later [] (by simpa using longer.symm) same.symm
        | cons other beyond =>
            obtain ⟨rfl, _⟩ := List.cons.inj same
            exact Or.inr ⟨[], part, others, front, beyond, rfl, longer, rfl⟩

private theorem openAfter_beyond {inside beyond : List Glyph} {opening : Glyph}
    (opens : opening.IsCode '{')
    (balanced : openAfter 0 (inside ++ opening :: beyond) = some 0) : openAfter 0 beyond = none := by
  rw [openAfter_append] at balanced
  obtain ⟨depth, _, further⟩ := Option.bind_eq_some_iff.mp balanced
  rw [openAfter, opens.1, opens.2, show depthAfter? .code '{' depth = some (depth + 1) from rfl,
    Option.bind_some] at further
  cases counted : openAfter 0 beyond with
  | none => rfl
  | some left =>
      have deeper := openAfter_add (depth + 1) counted
      rw [Nat.zero_add, further] at deeper
      cases deeper

private theorem body_unique {body other : Body} {closing closing' : Glyph}
    {after after' : List Glyph}
    (split : body.glyphs ++ closing :: after = other.glyphs ++ closing' :: after')
    (closes : closing.IsCode '}') (closes' : closing'.IsCode '}') (closed : body.text.Closed)
    (closed' : other.text.Closed) (solid : body.text.allBlank = false) : body = other := by
  have same := before_unique split (openAfter_glyphs closed) (openAfter_glyphs closed')
    (alone_of_closes closes after) (alone_of_closes closes' after')
  obtain ⟨text, origin⟩ := body
  obtain ⟨text', origin'⟩ := other
  have texts := congrArg (List.map Glyph.member) same
  simp only [Body.glyphs, map_member_list] at texts
  subst texts
  cases text with
  | nil => cases solid
  | cons member rest =>
      injection same with first _
      have placed : origin = origin' := congrArg Glyph.location first
      rw [placed]

private theorem Heading.spokenText_eq {before lead written earlier blank own : List Glyph}
    (heading : Heading before lead written) (opened : ∀ last ∈ earlier.getLast?, last.Delimits)
    (idle : ∀ glyph ∈ blank, ¬ glyph.Begins) (undivided : ∀ glyph ∈ own, ¬ glyph.Delimits)
    (split : before ++ lead ++ written = earlier ++ (blank ++ own)) :
    spokenText written = spokenText own := by
  have plain : ∀ glyph ∈ blank ++ own, ¬ glyph.Delimits := List.forall_mem_append.mpr
    ⟨fun glyph present delimits => idle glyph present (begins_of_delimits delimits), undivided⟩
  rw [List.append_assoc] at split
  have same := written_unique split heading.opened opened heading.plain plain
  rw [← spokenText_append_of_idle heading.idle, same, spokenText_append_of_idle idle]

/-- A body whose opening brace lies in a closed body is a body of that one: the brace is
closed there, and the heading begins there. -/
theorem Heading.bodyAt_inside {before lead written outside inside beyond after behind : List Glyph}
    {opening closing first ending : Glyph} {body inner : Body}
    (heading : Heading before lead written) (opens : opening.IsCode '{')
    (closes : closing.IsCode '}') (closed : body.text.Closed) (solid : body.text.allBlank = false)
    (opensToo : first.IsCode '{') (closedToo : inner.text.Closed)
    (front : before ++ lead ++ written = outside ++ first :: inside)
    (cut : inner.glyphs = inside ++ opening :: beyond)
    (split : inner.glyphs ++ ending :: behind =
      inside ++ opening :: (body.glyphs ++ closing :: after)) :
    BodyAt inner.glyphs (inside.length + 1) (spokenText written) body := by
  rw [cut, List.append_assoc, List.cons_append] at split
  have tails := (List.cons.inj (List.append_cancel_left split)).2
  have unfinished := openAfter_beyond opens (cut ▸ openAfter_glyphs closedToo)
  rcases List.append_eq_append_iff.mp tails with ⟨between, longer, _⟩ | ⟨between, longer, same⟩
  · have counted := openAfter_glyphs closed
    rw [longer, openAfter_append, unfinished] at counted
    cases counted
  · cases between with
    | nil =>
        rw [longer, List.append_nil, openAfter_glyphs closed] at unfinished
        cases unfinished
    | cons other others =>
        obtain ⟨rfl, _⟩ := List.cons.inj same
        obtain ⟨earlier, rfl, headed⟩ := heading.behind (Or.inr (Or.inl opensToo)) front
        exact .mk (cut.trans (by rw [longer])) headed opens closes closed solid

end Glyph

/-! ### Outermost bodies -/

/-- Among some slices is a block whose body is not blank; this is the index of the body in
their glyphs, and this is the header of the block. -/
inductive Slice.HoldsBody (slices : List Slice) : Nat → Text → Body → Prop
  | mk {before after : List Slice} {written : List Glyph} {opening closing : Glyph} {inner : Body}
      (split : slices = before ++ .block written opening inner closing :: after)
      (solid : inner.text.allBlank = false) :
      HoldsBody slices ((before.flatMap Slice.glyphs ++ written).length + 1)
        (Glyph.spokenText written) inner

namespace Slice

private theorem Proper.opening_cases {slice : Slice} (proper : slice.Proper)
    {front back : List Glyph}
    {opening : Glyph} (opens : opening.IsCode '{') (split : slice.glyphs = front ++ opening :: back) :
    ∃ written first inner last, slice = .block written first inner last ∧
      (front = written ∨ ∃ inside beyond,
        front = written ++ first :: inside ∧ inner.glyphs = inside ++ opening :: beyond) := by
  have delimits : opening.Delimits := Or.inr (Or.inl opens)
  have different : ∀ {other : Glyph} {member : Char}, other.IsCode member → member ≠ '{' →
      opening ≠ other := by
    intro other member code apart same
    exact apart (code.2.symm.trans (same ▸ opens.2))
  cases proper with
  | comment start idle _ unclosed =>
      refine absurd (Glyph.begins_of_delimits delimits)
        (not_begins_of_comment start idle unclosed opening ?_)
      exact split ▸ List.mem_append_right front (List.mem_cons_self ..)
  | @statement written ending undivided ends =>
      obtain ⟨inside, _, same⟩ := Glyph.split_behind split
        fun present => undivided.plain opening present delimits
      have present : opening ∈ [ending] :=
        same ▸ List.mem_append_right inside (List.mem_cons_self ..)
      exact absurd (List.mem_singleton.mp present) (different ends (by decide))
  | @block written first last inner undivided _ closes _ =>
      refine ⟨written, first, inner, last, rfl, ?_⟩
      obtain ⟨inside, rfl, same⟩ := Glyph.split_behind split
        fun present => undivided.plain opening present delimits
      cases inside with
      | nil => exact Or.inl (List.append_nil written)
      | cons other others =>
          injection same with head tail
          subst head
          refine Or.inr ⟨others, ?_⟩
          have apart := different closes (by decide)
          rcases List.append_eq_append_iff.mp tail with ⟨between, rfl, cut⟩ | ⟨between, longer, cut⟩
          · have present : opening ∈ [last] :=
              cut ▸ List.mem_append_right between (List.mem_cons_self ..)
            exact absurd (List.mem_singleton.mp present) apart
          · cases between with
            | nil => exact absurd (List.cons.inj cut).1 apart
            | cons another beyond =>
                injection cut with head _
                exact ⟨beyond, rfl, head ▸ longer⟩

variable {slices : List Slice} {index : Nat} {header : Text} {inner : Body}

theorem not_holdsBody_nil : ¬ HoldsBody [] index header inner := by
  rintro ⟨split, _⟩
  exact List.append_ne_nil_of_right_ne_nil _ (List.cons_ne_nil _ _) split.symm

theorem holdsBody_cons_iff {slice : Slice} {others : List Slice} :
    HoldsBody (slice :: others) index header inner ↔
      (∃ written opening closing, slice = .block written opening inner closing ∧
        inner.text.allBlank = false ∧ index = written.length + 1 ∧
        header = Glyph.spokenText written) ∨
      ∃ further, index = slice.glyphs.length + further ∧ HoldsBody others further header inner := by
  constructor
  · rintro ⟨split, solid⟩
    rename_i before after written opening closing
    rcases List.cons_eq_append_iff.mp split with ⟨rfl, same⟩ | ⟨earlier, rfl, same⟩
    · injection same with own _
      exact Or.inl ⟨written, opening, closing, own.symm, solid, rfl, rfl⟩
    · refine Or.inr ⟨_, ?_, .mk same solid⟩
      simp only [List.flatMap_cons, List.length_append]
      omega
  · rintro (⟨written, opening, closing, rfl, solid, rfl, rfl⟩ | ⟨further, rfl, split, solid⟩)
    · exact HoldsBody.mk (List.nil_append _).symm solid
    · rename_i before after written opening closing
      have longer : slice :: others =
          (slice :: before) ++ .block written opening inner closing :: after := by
        rw [split, List.cons_append]
      have held := HoldsBody.mk longer solid
      simpa [Nat.add_assoc] using held

private theorem HoldsBody.apart (held : HoldsBody slices index header inner) {place : Nat}
    {heading : Text} {other : Body} (heldToo : HoldsBody slices place heading other) :
    (place = index ∧ heading = header ∧ other = inner) ∨
      index + inner.text.length < place ∨ place + other.text.length < index := by
  induction slices generalizing index place with
  | nil => exact absurd held not_holdsBody_nil
  | cons slice others ih =>
      have behind : ∀ {written : List Glyph} {opening closing : Glyph} {body : Body},
          slice = .block written opening body closing →
          written.length + 1 + body.text.length < slice.glyphs.length := by
        rintro written opening closing body rfl
        simp only [Slice.glyphs, List.length_append, List.length_cons, Glyph.length_glyphs]
        omega
      rcases holdsBody_cons_iff.mp held with
        ⟨written, opening, closing, own, _, rfl, rfl⟩ | ⟨further, rfl, later⟩
      · rcases holdsBody_cons_iff.mp heldToo with
          ⟨written', opening', closing', own', _, rfl, rfl⟩ | ⟨further', rfl, later'⟩
        · obtain ⟨rfl, rfl, rfl, rfl⟩ := Slice.block.inj (own'.symm.trans own)
          exact Or.inl ⟨rfl, rfl, rfl⟩
        · have past := behind own
          omega
      · rcases holdsBody_cons_iff.mp heldToo with
          ⟨written', opening', closing', own', _, rfl, rfl⟩ | ⟨further', rfl, later'⟩
        · have past := behind own'
          omega
        · rcases ih later later' with ⟨rfl, same⟩ | before | before
          · exact Or.inl ⟨rfl, same⟩
          · omega
          · omega

end Slice

/-! ### Every body is outermost or lies within an outermost one -/

open Glyph Slice

namespace SlicedInto

variable {glyphs rest : List Glyph} {whole last : Segmentation} {slices : List Slice}
variable {index place further : Nat} {header heading : Text} {body outer : Body}

theorem ends_of_faultless (sliced : SlicedInto glyphs whole slices rest last)
    (faultless : whole.fault? = none) :
    Undivided rest ∧ last = ⟨(statement? rest .start).toList, none⟩ := by
  have silent : last.fault? = none := by
    rw [← faultless, sliced.segments_eq]
    rfl
  cases sliced.remains with
  | ends undivided => exact ⟨undivided, rfl⟩
  | unclosed _ _ _ => cases silent
  | unexpected _ _ => cases silent

theorem bodyAt_of_holdsBody (sliced : SlicedInto glyphs whole slices rest last)
    (held : HoldsBody slices index header body) : BodyAt glyphs index header body := by
  obtain ⟨rfl, solid⟩ := held
  rename_i before after written opening closing
  obtain ⟨properBefore, properAfter⟩ := List.forall_mem_append.mp sliced.proper
  obtain ⟨earlier, lead, behind, opened, idle⟩ := exists_earlier properBefore
  cases (List.forall_mem_cons.mp properAfter).1 with
  | block undivided opens closes closed =>
      have plain : ∀ glyph ∈ lead ++ written, ¬ glyph.Delimits := List.forall_mem_append.mpr
        ⟨fun glyph present delimits => idle glyph present (begins_of_delimits delimits),
          undivided.plain⟩
      obtain ⟨blank, spoken, parts, heading⟩ := exists_heading opened plain
      have front : before.flatMap Slice.glyphs ++ written = earlier ++ blank ++ spoken := by
        rw [behind, List.append_assoc, parts, List.append_assoc]
      rw [front, ← heading.spokenText_eq opened idle undivided.plain
        (front.symm.trans (by rw [behind, List.append_assoc]))]
      have split : glyphs = earlier ++ blank ++ spoken ++
          opening :: (body.glyphs ++ closing :: (after.flatMap Slice.glyphs ++ rest)) := by
        rw [sliced.split, ← front]
        simp [Slice.glyphs]
      exact .mk split heading opens closes closed solid

theorem bodyAt_of_within (sliced : SlicedInto glyphs whole slices rest last)
    (held : HoldsBody slices place heading outer) (within : BodyAt outer.glyphs further header body) :
    BodyAt glyphs (place + further) header body :=
  (sliced.bodyAt_of_holdsBody held).bodyAt within

theorem holdsBody_or_within (sliced : SlicedInto glyphs whole slices rest last)
    (faultless : whole.fault? = none) (stands : BodyAt glyphs index header body) :
    HoldsBody slices index header body ∨ ∃ place heading outer further,
      HoldsBody slices place heading outer ∧ index = place + further ∧
        BodyAt outer.glyphs further header body := by
  obtain ⟨split, headed, opens, closes, closed, solid⟩ := stands
  rename_i before lead written after opening closing
  have parted := sliced.split.symm.trans split
  have plain := (sliced.ends_of_faultless faultless).1.plain
  obtain ⟨slicesBefore, slice, slicesAfter, taken, left, rfl, cutSlice, placed⟩ :=
    (exists_part_of_split slices _ parted).resolve_left
      fun present => plain opening present (Or.inr (Or.inl opens))
  obtain ⟨properBefore, properAfter⟩ := List.forall_mem_append.mp sliced.proper
  have proper := (List.forall_mem_cons.mp properAfter).1
  obtain ⟨own, first, inner, ending, rfl, within⟩ := proper.opening_cases opens cutSlice
  cases proper with
  | block undivided opensToo closesToo closedToo =>
      have same : slicesBefore.flatMap Slice.glyphs ++ (own ++ first ::
          (inner.glyphs ++ ending :: (slicesAfter.flatMap Slice.glyphs ++ rest))) =
          before ++ lead ++ written ++ opening :: (body.glyphs ++ closing :: after) := by
        rw [← parted]
        simp [Slice.glyphs]
      rw [placed, List.append_assoc] at same
      have here := List.append_cancel_left same
      rcases within with rfl | ⟨inside, beyond, rfl, cut⟩
      · obtain ⟨rfl, bodies⟩ := List.cons.inj (List.append_cancel_left here)
        obtain rfl := body_unique bodies.symm closes closesToo closed closedToo solid
        obtain ⟨earlier, blank, behind, opened, idle⟩ := exists_earlier properBefore
        rw [placed, headed.spokenText_eq opened idle undivided.plain
          (placed.trans (by rw [behind, List.append_assoc]))]
        exact Or.inl (.mk rfl solid)
      · rw [List.append_assoc, List.cons_append] at here
        have bodies := (List.cons.inj (List.append_cancel_left here)).2
        have present : opening ∈ inner.glyphs :=
          cut ▸ List.mem_append_right inside (List.mem_cons_self ..)
        have filled : inner.text.allBlank = false := Bool.eq_false_iff.mpr fun blank =>
          Body.not_begins_of_blank blank opening present (begins_of_delimits (Or.inr (Or.inl opens)))
        have front : before ++ lead ++ written =
            slicesBefore.flatMap Slice.glyphs ++ own ++ first :: inside := by
          rw [placed, List.append_assoc]
        refine Or.inr ⟨_, _, inner, inside.length + 1, .mk rfl filled, ?_,
          headed.bodyAt_inside opens closes closed solid opensToo closedToo front cut bodies⟩
        rw [front]
        simp only [List.length_append, List.length_cons]
        omega

/-! ### What stands around a body -/

private theorem eq_or_within_of_common (sliced : SlicedInto glyphs whole slices rest last)
    (faultless : whole.fault? = none) (held : HoldsBody slices place heading outer)
    (stands : BodyAt glyphs index header body) (common : Nat)
    (shared : place ≤ common ∧ common ≤ place + outer.text.length)
    (sharedToo : index ≤ common ∧ common ≤ index + body.text.length) :
    (index = place ∧ header = heading) ∨
      ∃ further, index = place + further ∧ BodyAt outer.glyphs further header body := by
  rcases sliced.holdsBody_or_within faultless stands with
    heldToo | ⟨place', heading', outer', further, heldToo, rfl, within⟩
  · rcases held.apart heldToo with ⟨rfl, rfl, _⟩ | apart | apart
    · exact Or.inl ⟨rfl, rfl⟩
    · omega
    · omega
  · obtain ⟨_, ends⟩ := within.bounds
    rw [length_glyphs] at ends
    rcases held.apart heldToo with ⟨rfl, _, rfl⟩ | apart | apart
    · exact Or.inr ⟨further, rfl, within⟩
    · omega
    · omega

theorem not_bodyAround_of_holdsBody (sliced : SlicedInto glyphs whole slices rest last)
    (faultless : whole.fault? = none) (held : HoldsBody slices index header body) :
    ¬ BodyAround glyphs index body place heading := by
  rintro ⟨around, stands, before, behind⟩
  rcases sliced.eq_or_within_of_common faultless held stands index ⟨by omega, by omega⟩
    ⟨by omega, by omega⟩ with ⟨rfl, _⟩ | ⟨further, rfl, _⟩
  · omega
  · omega

theorem bodyAround_of_within_iff (sliced : SlicedInto glyphs whole slices rest last)
    (faultless : whole.fault? = none) (held : HoldsBody slices place heading outer)
    (within : BodyAt outer.glyphs further header body) (around : Nat) (name : Text) :
    BodyAround glyphs (place + further) body around name ↔
      (around = place ∧ name = heading) ∨
        ∃ inner, around = place + inner ∧ BodyAround outer.glyphs further body inner name := by
  obtain ⟨begun, ends⟩ := within.bounds
  rw [length_glyphs] at ends
  constructor
  · rintro ⟨other, stands, before, behind⟩
    rcases sliced.eq_or_within_of_common faultless held stands (place + further)
      ⟨by omega, by omega⟩ ⟨by omega, by omega⟩ with same | ⟨inner, rfl, standsToo⟩
    · exact Or.inl same
    · exact Or.inr ⟨inner, rfl, other, standsToo, by omega, by omega⟩
  · rintro (⟨rfl, rfl⟩ | ⟨inner, rfl, other, stands, before, behind⟩)
    · exact ⟨outer, sliced.bodyAt_of_holdsBody held, by omega, by omega⟩
    · exact ⟨other, sliced.bodyAt_of_within held stands, by omega, by omega⟩

end SlicedInto

/-! ### How many bodies stand around a body -/

def AtLeast (count : Nat) (holds : Nat → Prop) : Prop :=
  ∃ places : Finset Nat, count ≤ places.card ∧ ∀ place ∈ places, holds place

private theorem atLeast_succ_iff {count : Nat} (place : Nat) {holds behind : Nat → Prop}
    (parts : ∀ other, holds other ↔ other = place ∨ ∃ further, other = place + further ∧ behind further)
    (pos : ∀ further, behind further → 0 < further) :
    AtLeast (count + 1) holds ↔ AtLeast count behind := by
  constructor
  · rintro ⟨places, enough, each⟩
    have kept : ∀ other ∈ places.erase place, ∃ further, other = place + further ∧ behind further := by
      intro other present
      obtain ⟨different, member⟩ := Finset.mem_erase.mp present
      exact ((parts other).mp (each other member)).resolve_left different
    refine ⟨(places.erase place).image (· - place), ?_, ?_⟩
    · have apart : Set.InjOn (· - place) (places.erase place : Finset Nat) := by
        intro first present second presentToo same
        obtain ⟨further, rfl, _⟩ := kept first present
        obtain ⟨further', rfl, _⟩ := kept second presentToo
        simp only at same
        omega
      have fewer := Finset.pred_card_le_card_erase (s := places) (a := place)
      rw [Finset.card_image_of_injOn apart]
      omega
    · intro further present
      obtain ⟨other, member, rfl⟩ := Finset.mem_image.mp present
      obtain ⟨further, rfl, found⟩ := kept other member
      rwa [Nat.add_sub_cancel_left]
  · rintro ⟨places, enough, each⟩
    refine ⟨insert place (places.image (place + ·)), ?_, ?_⟩
    · have fresh : place ∉ places.image (place + ·) := by
        intro present
        obtain ⟨further, member, same⟩ := Finset.mem_image.mp present
        have some := pos further (each further member)
        omega
      rw [Finset.card_insert_of_notMem fresh,
        Finset.card_image_of_injective _ fun _ _ => Nat.add_left_cancel]
      omega
    · intro other present
      rw [parts]
      rcases Finset.mem_insert.mp present with same | inside
      · exact Or.inl same
      · obtain ⟨further, member, rfl⟩ := Finset.mem_image.mp inside
        exact Or.inr ⟨further, rfl, each further member⟩

/-- Around a body in an outermost one stands that one, and what stands around it in there. -/
theorem SlicedInto.atLeast_bodyAround_succ_iff {glyphs rest : List Glyph}
    {whole last : Segmentation} {slices : List Slice}
    (sliced : SlicedInto glyphs whole slices rest last) (faultless : whole.fault? = none)
    {place further count : Nat} {heading header : Text} {outer body : Body}
    (held : HoldsBody slices place heading outer) (within : BodyAt outer.glyphs further header body) :
    AtLeast (count + 1)
        (fun around => ∃ name, BodyAround glyphs (place + further) body around name) ↔
      AtLeast count fun around => ∃ name, BodyAround outer.glyphs further body around name := by
  refine atLeast_succ_iff place (fun around => ?_) ?_
  · simp only [sliced.bodyAround_of_within_iff faultless held within]
    constructor
    · rintro ⟨name, ⟨rfl, _⟩ | ⟨inner, rfl, found⟩⟩
      · exact Or.inl rfl
      · exact Or.inr ⟨inner, rfl, name, found⟩
    · rintro (rfl | ⟨inner, rfl, name, found⟩)
      · exact ⟨heading, Or.inl ⟨rfl, rfl⟩⟩
      · exact ⟨name, Or.inr ⟨inner, rfl, found⟩⟩
  · rintro inner ⟨name, other, stands, _, _⟩
    exact stands.bounds.1

end NestedCss
