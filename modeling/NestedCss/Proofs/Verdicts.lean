import NestedCss.Proofs.Slices
import NestedCss.Scanner

set_option autoImplicit false

/-! What a scanner gives. Its answers are the segments of the text and then the fault, if
there is one, and nothing after that. Whether there is a fault, and which one, can be told
from the numbers of braces alone. -/

namespace NestedCss

/-! ### One answer after the other -/

namespace Scanner

def results (scanner : Scanner) : List (Except Error Segment) :=
  if scanner.finished then []
  else (scanner.pending.segmentation
    (Glyph.list scanner.mode scanner.here scanner.rest)).results

private theorem tail_results_finish (pending : Assembly) : pending.finish.results.tail = [] := by
  unfold Assembly.finish
  split
  · rfl
  · split <;> rfl
  · split <;> rfl

private theorem advance_results (text : Text) : ∀ (mode : Mode) (here : Location)
    (pending : Assembly), (advance mode here pending text).1 =
        (pending.segmentation (Glyph.list mode here text)).results.head? ∧
      (advance mode here pending text).2.results =
        (pending.segmentation (Glyph.list mode here text)).results.tail := by
  induction text with
  | nil => exact fun mode here pending => ⟨rfl, (tail_results_finish pending).symm⟩
  | cons member rest ih =>
      intro mode here pending
      rw [Glyph.list, Assembly.segmentation_cons, advance]
      cases stepped : pending.step ⟨member, (mode.step member rest.head?).1, here⟩ with
      | reading unfinished =>
          simp only [stepped]
          exact ih _ _ unfinished
      | complete segment =>
          simp only [stepped]
          exact ⟨rfl, rfl⟩
      | rejected fault =>
          simp only [stepped]
          exact ⟨rfl, rfl⟩

theorem next_results (scanner : Scanner) :
    scanner.next.1 = scanner.results.head? ∧ scanner.next.2.results = scanner.results.tail := by
  cases finished : scanner.finished with
  | true => simp [next, results, finished]
  | false =>
      simp only [next, results, finished]
      exact advance_results scanner.rest scanner.mode scanner.here scanner.pending

theorem answer_eq (count : Nat) : ∀ scanner : Scanner,
    scanner.answer count = scanner.results[count]? := by
  induction count with
  | zero =>
      intro scanner
      rw [answer, scanner.next_results.1, List.head?_eq_getElem?]
  | succ count ih =>
      intro scanner
      rw [answer, ih, scanner.next_results.2, List.getElem?_tail]

end Scanner

/-! ### Counting braces -/

namespace Glyph

instance (glyph : Glyph) (member : Char) : Decidable (glyph.IsCode member) :=
  inferInstanceAs (Decidable (glyph.role = .code ∧ glyph.member = member))

def opened (glyphs : List Glyph) : Nat := glyphs.countP fun glyph => decide (glyph.IsCode '{')

def closed (glyphs : List Glyph) : Nat := glyphs.countP fun glyph => decide (glyph.IsCode '}')

def NeverBelow (glyphs : List Glyph) : Prop :=
  ∀ front, front <+: glyphs → closed front ≤ opened front

private theorem opened_cons (glyph : Glyph) (rest : List Glyph) :
    opened (glyph :: rest) = opened rest + if glyph.IsCode '{' then 1 else 0 := by
  simp only [opened, List.countP_cons, decide_eq_true_eq]

private theorem closed_cons (glyph : Glyph) (rest : List Glyph) :
    closed (glyph :: rest) = closed rest + if glyph.IsCode '}' then 1 else 0 := by
  simp only [closed, List.countP_cons, decide_eq_true_eq]

private theorem depthAfter?_eq_some_iff (glyph : Glyph) (depth inner : Nat) :
    depthAfter? glyph.role glyph.member depth = some inner ↔
      depth + (if glyph.IsCode '{' then 1 else 0) = inner + if glyph.IsCode '}' then 1 else 0 := by
  have stepped : depthAfter? glyph.role glyph.member depth =
      if glyph.IsCode '{' then some (depth + 1)
      else if glyph.IsCode '}' then depth.casesOn none some else some depth := by
    unfold depthAfter?
    cases depth <;> rfl
  rw [stepped]
  by_cases opens : glyph.IsCode '{'
  · have other : ¬ glyph.IsCode '}' := fun closes =>
      absurd (opens.2.symm.trans closes.2) (by decide)
    rw [if_pos opens, if_pos opens, if_neg other, Option.some_inj]
    rfl
  · rw [if_neg opens, if_neg opens]
    by_cases closes : glyph.IsCode '}'
    · rw [if_pos closes, if_pos closes]
      cases depth with
      | zero => simp
      | succ outer => simp
    · rw [if_neg closes, if_neg closes, Option.some_inj]
      rfl

private theorem openAfter_eq_some_iff (glyphs : List Glyph) : ∀ depth left : Nat,
    openAfter depth glyphs = some left ↔
      (∀ front, front <+: glyphs → closed front ≤ depth + opened front) ∧
        depth + opened glyphs = closed glyphs + left := by
  induction glyphs with
  | nil =>
      intro depth left
      simp [openAfter, opened, closed]
  | cons glyph rest ih =>
      intro depth left
      simp only [openAfter, Option.bind_eq_some_iff, depthAfter?_eq_some_iff, ih]
      constructor
      · rintro ⟨inner, stepped, each, counted⟩
        refine ⟨fun front within => ?_, ?_⟩
        · rcases List.prefix_cons_iff.mp within with rfl | ⟨tail, rfl, further⟩
          · exact Nat.zero_le _
          · have below := each tail further
            rw [opened_cons, closed_cons]
            omega
        · rw [opened_cons, closed_cons]
          omega
      · rintro ⟨each, counted⟩
        have first := each [glyph] (List.prefix_append [glyph] rest)
        rw [opened_cons, closed_cons] at first counted
        simp only [opened, closed, List.countP_nil, Nat.zero_add] at first
        refine ⟨depth + (if glyph.IsCode '{' then 1 else 0) - if glyph.IsCode '}' then 1 else 0,
          by omega, fun front within => ?_, by omega⟩
        have below := each (glyph :: front) (List.cons_prefix_cons.mpr ⟨rfl, within⟩)
        rw [opened_cons, closed_cons] at below
        omega

private theorem openAfter_eq_zero_iff (glyphs : List Glyph) :
    openAfter 0 glyphs = some 0 ↔ NeverBelow glyphs ∧ opened glyphs = closed glyphs := by
  simpa [NeverBelow] using openAfter_eq_some_iff glyphs 0 0

private theorem openAfter_ne_none_iff (glyphs : List Glyph) :
    openAfter 0 glyphs ≠ none ↔ NeverBelow glyphs := by
  rw [Option.ne_none_iff_exists']
  simp only [openAfter_eq_some_iff, Nat.zero_add]
  constructor
  · rintro ⟨left, never, _⟩
    exact never
  · intro never
    have below := never glyphs (List.prefix_refl glyphs)
    exact ⟨opened glyphs - closed glyphs, never, by omega⟩

end Glyph

/-! ### The first brace without a partner -/

/-- The fault of a text by its braces. -/
inductive Glyph.Faulty (whole : List Glyph) : Error → Prop
  | unexpected {before after : List Glyph} {closing : Glyph}
      (split : whole = before ++ closing :: after) (sofar : NeverBelow before)
      (below : opened (before ++ [closing]) < closed (before ++ [closing])) :
      Faulty whole (Assembly.unbalanced "unexpected `\x7d`".toList closing.location)
  /-- Otherwise the brace that opens an outermost block which stays open. Its header is what
  is written behind the last delimiter before it. -/
  | unclosed {earlier written after : List Glyph} {opening : Glyph}
      (split : whole = earlier ++ written ++ opening :: after) (never : NeverBelow whole)
      (outside : opened (earlier ++ written) = closed (earlier ++ written))
      (opens : opening.IsCode '{') (stays : NeverBelow after)
      (heads : ∀ last ∈ earlier.getLast?, last.Delimits)
      (plain : ∀ glyph ∈ written, ¬ glyph.Delimits) :
      Faulty whole (Assembly.unbalanced (unclosedContext written) opening.location)

namespace Glyph

private theorem opened_append (first second : List Glyph) :
    opened (first ++ second) = opened first + opened second := List.countP_append

private theorem closed_append (first second : List Glyph) :
    closed (first ++ second) = closed first + closed second := List.countP_append

end Glyph

namespace Slice.Proper

variable {slice : Slice}

private theorem openAfter_append (proper : slice.Proper) {consumed : List Glyph}
    (balanced : Glyph.openAfter 0 consumed = some 0) :
    Glyph.openAfter 0 (consumed ++ slice.glyphs) = some 0 := by
  cases proper with
  | comment start idle attached unclosed =>
      rw [Slice.glyphs, ← List.append_assoc]
      exact Glyph.openAfter_asides (Glyph.openAfter_undivided balanced attached.plain)
        fun _ => Glyph.isComment_of_mem_blockComment unclosed
  | statement undivided ends =>
      rw [Slice.glyphs, ← List.append_assoc]
      refine Glyph.openAfter_concat (Glyph.openAfter_undivided balanced undivided.plain) fun _ => ?_
      rw [ends.2]
      decide
  | block undivided opens closes closed =>
      rw [Slice.glyphs, ← List.append_assoc, ← List.cons_append, ← List.append_assoc]
      exact Glyph.openAfter_block (Glyph.openAfter_undivided balanced undivided.plain)
        opens closes closed

private theorem getLast_delimits_or_idle (proper : slice.Proper) :
    (∃ front last, slice.glyphs = front ++ [last] ∧ last.Delimits) ∨
      ∀ glyph ∈ slice.glyphs, ¬ glyph.Begins := by
  cases proper with
  | comment start idle _ unclosed => exact Or.inr (not_begins_of_comment start idle unclosed)
  | statement _ ends => exact Or.inl ⟨_, _, rfl, Or.inl ends⟩
  | @block written opening closing inner _ _ closes _ =>
      refine Or.inl ⟨written ++ opening :: inner.glyphs, closing, ?_, Or.inr (Or.inr closes)⟩
      rw [Slice.glyphs, List.append_assoc, List.cons_append]

end Slice.Proper

namespace SlicedInto

variable {glyphs rest : List Glyph} {whole last : Segmentation} {slices : List Slice}

private theorem openAfter_slices (proper : ∀ slice ∈ slices, Slice.Proper slice)
    {consumed : List Glyph} (balanced : Glyph.openAfter 0 consumed = some 0) :
    Glyph.openAfter 0 (consumed ++ slices.flatMap Slice.glyphs) = some 0 := by
  induction slices generalizing consumed with
  | nil => rwa [List.flatMap_nil, List.append_nil]
  | cons slice others ih =>
      rw [List.flatMap_cons, ← List.append_assoc]
      exact ih (fun other present => proper other (List.mem_cons_of_mem _ present))
        ((proper slice (List.mem_cons_self ..)).openAfter_append balanced)

theorem exists_earlier (proper : ∀ slice ∈ slices, Slice.Proper slice) :
    ∃ earlier lead, slices.flatMap Slice.glyphs = earlier ++ lead ∧
      (∀ last ∈ earlier.getLast?, last.Delimits) ∧ ∀ glyph ∈ lead, ¬ glyph.Begins := by
  induction slices using List.reverseRecOn with
  | nil =>
      refine ⟨[], [], rfl, ?_, ?_⟩ <;> exact fun _ present => by cases present
  | append_singleton others slice ih =>
      have each := List.forall_mem_append.mp proper
      obtain ⟨earlier, lead, split, heads, idle⟩ := ih each.1
      rw [List.flatMap_append, List.flatMap_singleton, split]
      rcases (List.forall_mem_singleton.mp each.2).getLast_delimits_or_idle with
        ⟨front, last, same, delimits⟩ | quiet
      · refine ⟨earlier ++ lead ++ slice.glyphs, [], by simp, ?_, fun _ present => by cases present⟩
        intro other present
        rw [same, ← List.append_assoc, List.getLast?_concat] at present
        exact Option.some.inj present ▸ delimits
      · refine ⟨earlier, lead ++ slice.glyphs, by simp, heads, ?_⟩
        exact List.forall_mem_append.mpr ⟨idle, quiet⟩

private theorem faulty (sliced : SlicedInto glyphs whole slices rest last) {fault : Error}
    (found : whole.fault? = some fault) : Glyph.Faulty glyphs fault := by
  have balanced : Glyph.openAfter 0 ([] ++ slices.flatMap Slice.glyphs) = some 0 :=
    openAfter_slices sliced.proper rfl
  rw [List.nil_append] at balanced
  have found : last.fault? = some fault := by
    rw [← found, sliced.segments_eq]
    rfl
  have split := sliced.split
  cases sliced.remains with
  | ends _ => cases found
  | @unexpected written after closing undivided closes =>
      obtain rfl := Option.some.inj found
      have counted := (Glyph.openAfter_eq_zero_iff _).mp
        (Glyph.openAfter_undivided balanced undivided.plain)
      refine .unexpected (by rw [split, List.append_assoc]) counted.1 ?_
      have one : Glyph.closed [closing] = 1 := by simp [Glyph.closed, closes]
      have none : Glyph.opened [closing] = 0 := by simp [Glyph.opened, Glyph.IsCode, closes.2]
      rw [Glyph.opened_append, Glyph.closed_append, one, none, counted.2]
      omega
  | @unclosed written after opening undivided opens stays =>
      obtain rfl := Option.some.inj found
      obtain ⟨earlier, lead, same, heads, idle⟩ := exists_earlier sliced.proper
      have level := Glyph.openAfter_undivided balanced undivided.plain
      have counted := (Glyph.openAfter_eq_zero_iff _).mp level
      have never : Glyph.NeverBelow glyphs := by
        rw [← Glyph.openAfter_ne_none_iff, split, ← List.append_assoc, Glyph.openAfter_append,
          level, Option.bind_some]
        obtain ⟨depth, reached⟩ := Option.ne_none_iff_exists'.mp stays
        have deeper := Glyph.openAfter_add 1 reached
        rw [Glyph.openAfter, opens.1, opens.2, show depthAfter? .code '{' 0 = some 1 from rfl,
          Option.bind_some, deeper]
        exact Option.some_ne_none _
      have context : Glyph.unclosedContext written = Glyph.unclosedContext (lead ++ written) := by
        simp only [Glyph.unclosedContext, Glyph.spokenText_append_of_idle idle]
      rw [same] at counted
      rw [context]
      refine .unclosed (by rw [split, same]; simp) never (by simpa using counted.2) opens
        ((Glyph.openAfter_ne_none_iff after).mp stays) heads ?_
      refine List.forall_mem_append.mpr ⟨?_, undivided.plain⟩
      exact fun glyph present delimits => idle glyph present (Glyph.begins_of_delimits delimits)

end SlicedInto

/-! ### Only one fault -/

namespace Glyph

def Alone (brace : Glyph) (after : List Glyph) : Prop :=
  ∀ front, front <+: after → openAfter 0 (brace :: front) ≠ some 0

theorem alone_of_closes {closing : Glyph} (closes : closing.IsCode '}') (after : List Glyph) :
    closing.Alone after := by
  intro front _ counted
  rw [openAfter, closes.1, closes.2] at counted
  cases counted

private theorem alone_of_stays {opening : Glyph} (opens : opening.IsCode '{') {after : List Glyph}
    (stays : NeverBelow after) : opening.Alone after := by
  intro front within counted
  have level := ((openAfter_eq_zero_iff _).mp counted).2
  have other : ¬ opening.IsCode '}' := fun closes =>
    absurd (opens.2.symm.trans closes.2) (by decide)
  rw [opened_cons, closed_cons, if_pos opens, if_neg other] at level
  have never := stays front within
  omega

theorem before_unique {before after before' after' : List Glyph} {brace brace' : Glyph}
    (split : before ++ brace :: after = before' ++ brace' :: after')
    (level : openAfter 0 before = some 0) (level' : openAfter 0 before' = some 0)
    (alone : brace.Alone after) (alone' : brace'.Alone after') : before = before' := by
  rcases List.append_eq_append_iff.mp split with ⟨between, longer, same⟩ | ⟨between, longer, same⟩
  · cases between with
    | nil => rw [longer, List.append_nil]
    | cons first front =>
        injection same with same further
        subst same
        rw [longer, openAfter_append, level, Option.bind_some] at level'
        exact absurd level' (alone front (further ▸ List.prefix_append front _))
  · cases between with
    | nil => rw [longer, List.append_nil]
    | cons first front =>
        injection same with same further
        subst same
        rw [longer, openAfter_append, level', Option.bind_some] at level
        exact absurd level (alone' front (further ▸ List.prefix_append front _))

theorem eq_nil_of_plain {earlier between : List Glyph}
    (heads : ∀ last ∈ (earlier ++ between).getLast?, last.Delimits)
    (plain : ∀ glyph ∈ between, ¬ glyph.Delimits) : between = [] := by
  rcases List.eq_nil_or_concat' between with rfl | ⟨front, last, rfl⟩
  · rfl
  · rw [← List.append_assoc, List.getLast?_concat] at heads
    exact absurd (heads last rfl) (plain last (by simp))

theorem written_unique {earlier written earlier' written' : List Glyph}
    (split : earlier ++ written = earlier' ++ written')
    (heads : ∀ last ∈ earlier.getLast?, last.Delimits)
    (heads' : ∀ last ∈ earlier'.getLast?, last.Delimits)
    (plain : ∀ glyph ∈ written, ¬ glyph.Delimits) (plain' : ∀ glyph ∈ written', ¬ glyph.Delimits) :
    written = written' := by
  rcases List.append_eq_append_iff.mp split with ⟨between, longer, same⟩ | ⟨between, longer, same⟩
  · obtain rfl : between = [] := eq_nil_of_plain (longer ▸ heads') fun glyph present =>
      plain glyph (same ▸ List.mem_append_left _ present)
    exact same
  · obtain rfl : between = [] := eq_nil_of_plain (longer ▸ heads) fun glyph present =>
      plain' glyph (same ▸ List.mem_append_left _ present)
    exact same.symm

private theorem Faulty.exists_alone {whole : List Glyph} {fault : Error}
    (faulty : Faulty whole fault) :
    ∃ before brace after, whole = before ++ brace :: after ∧ openAfter 0 before = some 0 ∧
      brace.Alone after ∧
      (brace.IsCode '}' ∧
          fault = Assembly.unbalanced "unexpected `\x7d`".toList brace.location ∨
        brace.IsCode '{' ∧ ∃ earlier written, before = earlier ++ written ∧
          (∀ last ∈ earlier.getLast?, last.Delimits) ∧ (∀ glyph ∈ written, ¬ glyph.Delimits) ∧
          fault = Assembly.unbalanced (unclosedContext written) brace.location) := by
  cases faulty with
  | @unexpected before after closing split sofar below =>
      have counted := sofar before (List.prefix_refl before)
      rw [opened_append, closed_append] at below
      have closes : closing.IsCode '}' := by
        by_contra other
        rw [closed_cons, if_neg other] at below
        simp only [closed, List.countP_nil] at below counted
        omega
      have level : opened before = closed before := by
        rw [closed_cons, if_pos closes] at below
        simp only [closed, List.countP_nil] at below counted ⊢
        omega
      exact ⟨before, closing, after, split, (openAfter_eq_zero_iff _).mpr ⟨sofar, level⟩,
        alone_of_closes closes after, Or.inl ⟨closes, rfl⟩⟩
  | @unclosed earlier written after opening split never outside opens stays heads plain =>
      have sofar : NeverBelow (earlier ++ written) := by
        intro front within
        exact never front (split ▸ within.trans (List.prefix_append _ _))
      exact ⟨earlier ++ written, opening, after, split,
        (openAfter_eq_zero_iff _).mpr ⟨sofar, outside⟩, alone_of_stays opens stays,
        Or.inr ⟨opens, earlier, written, rfl, heads, plain, rfl⟩⟩

private theorem Faulty.unique {whole : List Glyph} {fault fault' : Error}
    (faulty : Faulty whole fault) (faulty' : Faulty whole fault') : fault = fault' := by
  obtain ⟨before, brace, after, rfl, level, alone, cause⟩ := faulty.exists_alone
  obtain ⟨before', brace', after', split, level', alone', cause'⟩ := faulty'.exists_alone
  obtain rfl := before_unique split level level' alone alone'
  injection List.append_cancel_left split with same _
  subst same
  rcases cause with ⟨closes, rfl⟩ | ⟨opens, earlier, written, rfl, heads, plain, rfl⟩
  · rcases cause' with ⟨_, rfl⟩ | ⟨opens, _⟩
    · rfl
    · exact absurd (closes.2.symm.trans opens.2) (by decide)
  · rcases cause' with ⟨closes, _⟩ | ⟨_, earlier', written', parts, heads', plain', rfl⟩
    · exact absurd (closes.2.symm.trans opens.2) (by decide)
    · rw [written_unique parts heads heads' plain plain']

end Glyph

/-! ### What segments look like -/

/-- Statements are not empty, blocks are not blank, texts and headers are trimmed, and no
comment holds what would close it. -/
def Segment.WellFormed : Segment → Prop
  | .statement text _ => text ≠ [] ∧ text.trim = text
  | .block header _ body => header.trim = header ∧ body.text.allBlank = false
  | .comment text _ => ¬ ['*', '/'] <:+: text

private theorem Glyph.trim_spokenText (glyphs : List Glyph) :
    (Glyph.spokenText glyphs).trim = Glyph.spokenText glyphs := Text.trim_trim _

private theorem Glyph.wellFormed_of_statement? {written : List Glyph} {substitute : Location}
    {segment : Segment} (found : Glyph.statement? written substitute = some segment) :
    segment.WellFormed := by
  unfold Glyph.statement? at found
  split at found
  · cases found
  · rename_i begun
    obtain rfl := Option.some.inj found
    exact ⟨begun, Glyph.trim_spokenText written⟩

private theorem Slice.Proper.wellFormed {slice : Slice} (proper : slice.Proper) {segment : Segment}
    (found : slice.segment? = some segment) : segment.WellFormed := by
  cases proper with
  | comment start _ _ unclosed =>
      obtain rfl := Option.some.inj found
      exact unclosed
  | statement _ _ => exact Glyph.wellFormed_of_statement? found
  | block _ _ _ _ =>
      simp only [Slice.segment?] at found
      split at found
      · cases found
      · rename_i solid
        obtain rfl := Option.some.inj found
        exact ⟨Glyph.trim_spokenText _, Bool.eq_false_iff.mpr solid⟩

private theorem Body.wellFormed_of_mem (body : Body) :
    ∀ segment ∈ body.segmentation.segments, segment.WellFormed := by
  intro segment present
  obtain ⟨slices, rest, last, sliced⟩ := body.exists_slicedInto
  rw [sliced.segments_eq, Segmentation.behind] at present
  rcases List.mem_append.mp present with inSlices | inRest
  · obtain ⟨slice, inside, found⟩ := List.mem_filterMap.mp inSlices
    exact (sliced.proper slice inside).wellFormed found
  · cases sliced.remains with
    | ends _ => exact Glyph.wellFormed_of_statement? (Option.mem_toList.mp inRest)
    | unclosed _ _ _ => cases inRest
    | unexpected _ _ => cases inRest

private theorem Body.fault?_ne_none_iff (body : Body) :
    body.segmentation.fault? ≠ none ↔
      (∃ front, front <+: body.glyphs ∧ Glyph.opened front < Glyph.closed front) ∨
        Glyph.closed body.glyphs < Glyph.opened body.glyphs := by
  rw [ne_eq, body.fault?_eq_none_iff, ← Glyph.openAfter_list _ body.origin,
    Glyph.openAfter_eq_zero_iff]
  constructor
  · intro unbalanced
    by_cases never : Glyph.NeverBelow (Glyph.list (.code false) body.origin body.text)
    · have total := never _ (List.prefix_refl _)
      exact Or.inr (Nat.lt_of_le_of_ne total fun same => unbalanced ⟨never, same.symm⟩)
    · unfold Glyph.NeverBelow at never
      push Not at never
      exact Or.inl never
  · rintro (⟨front, within, below⟩ | more) ⟨never, level⟩
    · exact absurd (never front within) (Nat.not_le.mpr below)
    · exact absurd level (Nat.ne_of_gt more)

private theorem Body.fault?_eq_some_iff (body : Body) (fault : Error) :
    body.segmentation.fault? = some fault ↔ Glyph.Faulty body.glyphs fault := by
  obtain ⟨slices, rest, last, sliced⟩ := body.exists_slicedInto
  constructor
  · exact sliced.faulty
  · intro faulty
    have some : body.segmentation.fault? ≠ none := by
      rw [body.fault?_ne_none_iff]
      cases faulty with
      | @unexpected before after closing split _ below =>
          exact Or.inl ⟨before ++ [closing], ⟨after, by simp [split]⟩, below⟩
      | @unclosed earlier written after opening split _ outside opens stays _ _ =>
          refine Or.inr ?_
          have other : ¬ opening.IsCode '}' := fun closes =>
            absurd (opens.2.symm.trans closes.2) (by decide)
          have behind := stays after (List.prefix_refl after)
          rw [split, Glyph.opened_append, Glyph.closed_append, outside, Glyph.opened_cons,
            Glyph.closed_cons, if_pos opens, if_neg other]
          omega
    obtain ⟨found, same⟩ := Option.ne_none_iff_exists'.mp some
    rw [same, (sliced.faulty same).unique faulty]

/-- The verdict of a scanner is exact. Its answers are the segments, then the fault if there
is one, then nothing; there is a fault exactly when some part from the start closes more
blocks than it opens or the whole opens more than it closes; the fault is the one that the
braces tell; and every segment is well-formed. -/
theorem Body.scanner_exact (body : Body) :
    (∀ count, (Scanner.ofBody body).answer count = (body.segmentation.segments.map .ok ++
      body.segmentation.fault?.toList.map .error)[count]?) ∧
    (body.segmentation.fault? ≠ none ↔
      (∃ front, front <+: body.glyphs ∧ Glyph.opened front < Glyph.closed front) ∨
        Glyph.closed body.glyphs < Glyph.opened body.glyphs) ∧
    (∀ fault, body.segmentation.fault? = some fault ↔ Glyph.Faulty body.glyphs fault) ∧
    ∀ segment ∈ body.segmentation.segments, segment.WellFormed :=
  ⟨fun count => Scanner.answer_eq count (.ofBody body), body.fault?_ne_none_iff,
    body.fault?_eq_some_iff, body.wellFormed_of_mem⟩

end NestedCss
