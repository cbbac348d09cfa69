import NestedCss.Proofs.Lexing
import NestedCss.Segment

set_option autoImplicit false

/-! Segmentation in parts. Reading some glyphs leaves segments and an assembly,
and the segmentation of the whole is that of the remaining glyphs, read from that
assembly, after those segments. An assembly fits the mode in which it is reached,
and its blocks are counted by the braces of the text, so that a fault can be told
from the braces alone. -/

namespace NestedCss

def Segmentation.behind (segments : List Segment) (rest : Segmentation) : Segmentation :=
  { rest with segments := segments ++ rest.segments }

theorem Segmentation.behind_nil (rest : Segmentation) : rest.behind [] = rest := rfl

/-- The segmentation that a step leads to when some glyphs come after it. -/
def Progress.followedBy (progress : Progress) (glyphs : List Glyph) : Segmentation :=
  match progress with
  | .reading pending => pending.segmentation glyphs
  | .complete segment => (Assembly.empty.segmentation glyphs).cons segment
  | .rejected fault => ⟨[], some fault⟩

namespace Assembly

theorem segmentation_cons (pending : Assembly) (glyph : Glyph) (rest : List Glyph) :
    pending.segmentation (glyph :: rest) = (pending.step glyph).followedBy rest := by
  rw [segmentation]
  cases pending.step glyph <;> rfl

/-- The segments of some glyphs and what they leave unfinished, unless one of
them is rejected. -/
def read (pending : Assembly) : List Glyph → Option (List Segment × Assembly)
  | [] => some ([], pending)
  | glyph :: rest =>
      match pending.step glyph with
      | .reading following => following.read rest
      | .complete segment =>
          (empty.read rest).map fun (segments, last) => (segment :: segments, last)
      | .rejected _ => none

theorem read_cons_cases {pending last : Assembly} {glyph : Glyph} {rest : List Glyph}
    {segments : List Segment} (run : pending.read (glyph :: rest) = some (segments, last)) :
    (∃ following, pending.step glyph = .reading following ∧
        following.read rest = some (segments, last)) ∨
      ∃ segment others, pending.step glyph = .complete segment ∧
        empty.read rest = some (others, last) ∧ segments = segment :: others := by
  rw [read] at run
  cases stepped : pending.step glyph with
  | reading following =>
      rw [stepped] at run
      exact Or.inl ⟨following, rfl, run⟩
  | complete segment =>
      rw [stepped] at run
      obtain ⟨⟨others, final⟩, tail, same⟩ := Option.map_eq_some_iff.mp run
      injection same with front back
      exact Or.inr ⟨segment, others, rfl, back ▸ tail, front.symm⟩
  | rejected fault =>
      rw [stepped] at run
      cases run

theorem read_append {pending last : Assembly} {first : List Glyph} {segments : List Segment}
    (run : pending.read first = some (segments, last)) (second : List Glyph) :
    pending.read (first ++ second) =
      (last.read second).map fun (others, final) => (segments ++ others, final) := by
  induction first generalizing pending segments with
  | nil =>
      injection run with same
      injection same with none same
      subst none same
      rw [List.nil_append]
      cases pending.read second <;> rfl
  | cons glyph rest ih =>
      rw [List.cons_append, read]
      rcases read_cons_cases run with
        ⟨following, stepped, tail⟩ | ⟨segment, others, stepped, tail, rfl⟩
      · rw [stepped]
        exact ih tail
      · simp only [stepped, ih tail, Option.map_map]
        cases last.read second <;> rfl

theorem segmentation_append {pending last : Assembly} {first : List Glyph}
    {segments : List Segment} (run : pending.read first = some (segments, last))
    (second : List Glyph) :
    pending.segmentation (first ++ second) = (last.segmentation second).behind segments := by
  induction first generalizing pending segments with
  | nil =>
      injection run with same
      injection same with none same
      subst none same
      rfl
  | cons glyph rest ih =>
      rw [List.cons_append, segmentation_cons]
      rcases read_cons_cases run with
        ⟨following, stepped, tail⟩ | ⟨segment, others, stepped, tail, rfl⟩
      · rw [stepped]
        exact ih tail
      · rw [stepped, Progress.followedBy, ih tail]
        rfl

theorem segmentation_of_read {pending last : Assembly} {glyphs : List Glyph}
    {segments : List Segment} (run : pending.read glyphs = some (segments, last)) :
    pending.segmentation glyphs = last.finish.behind segments := by
  have whole := segmentation_append run []
  rw [List.append_nil] at whole
  exact whole

theorem exists_fault_of_read_eq_none {pending : Assembly} {first : List Glyph}
    (stopped : pending.read first = none) :
    ∃ segments fault, ∀ second, pending.segmentation (first ++ second) = ⟨segments, some fault⟩ := by
  induction first generalizing pending with
  | nil => cases stopped
  | cons glyph rest ih =>
      simp only [List.cons_append, segmentation_cons]
      rw [read] at stopped
      cases stepped : pending.step glyph with
      | reading following =>
          rw [stepped] at stopped
          exact ih stopped
      | complete segment =>
          rw [stepped] at stopped
          obtain ⟨segments, fault, faulty⟩ := ih (Option.map_eq_none_iff.mp stopped)
          refine ⟨segment :: segments, fault, fun second => ?_⟩
          rw [Progress.followedBy, faulty]
          rfl
      | rejected fault => exact ⟨[], fault, fun _ => rfl⟩

theorem fault?_of_read_eq_none {pending : Assembly} {glyphs : List Glyph}
    (stopped : pending.read glyphs = none) : (pending.segmentation glyphs).fault? ≠ none := by
  obtain ⟨segments, fault, faulty⟩ := exists_fault_of_read_eq_none stopped
  rw [← List.append_nil glyphs, faulty]
  exact Option.some_ne_none fault

theorem segmentation_append_of_read_eq_none {pending : Assembly} {first : List Glyph}
    (stopped : pending.read first = none) (second : List Glyph) :
    pending.segmentation (first ++ second) = pending.segmentation first := by
  obtain ⟨segments, fault, faulty⟩ := exists_fault_of_read_eq_none stopped
  rw [faulty, ← List.append_nil first, faulty]

/-! ### Assemblies and modes -/

end Assembly

def Mode.InComment : Mode → Prop
  | .commentOpening | .comment | .commentClosing => True
  | .code _ | .quoted _ | .escaped _ | .remarkOpening | .remark => False

/-- Where nothing but blanks and comments can have been passed. -/
def Mode.Idle : Mode → Prop
  | .code afterColon => afterColon = false
  | .remarkOpening | .remark => True
  | .quoted _ | .escaped _ | .commentOpening | .comment | .commentClosing => False

namespace Assembly

def level (pending : Assembly) : Nat :=
  match pending.enclosure with
  | .surface | .comment _ _ => 0
  | .block _ depth _ => depth + 1

/-- What an assembly and the mode in which it is reached say about each other. -/
def Fits (pending : Assembly) (mode : Mode) : Prop :=
  match pending.enclosure with
  | .surface => ¬ mode.InComment ∧ (pending.header = [] → mode.Idle)
  | .comment _ _ => mode.InComment
  | .block _ _ _ => True

theorem fits_empty : empty.Fits (.code false) := ⟨id, fun _ => rfl⟩

end Assembly

def Progress.Fits (progress : Progress) (following : Mode) (depth? : Option Nat) : Prop :=
  match progress with
  | .reading pending => pending.Fits following ∧ depth? = some pending.level
  | .complete _ => Assembly.empty.Fits following ∧ depth? = some 0
  | .rejected _ => depth? = none

namespace Assembly

theorem header_extend_ne_nil {pending : Assembly} {glyph : Glyph}
    (kept : pending.header ≠ [] ∨ isBlank glyph.member = false) :
    (pending.extend glyph).header ≠ [] := by
  unfold extend
  split
  · rename_i leading
    simp only [Bool.and_eq_true, List.isEmpty_iff] at leading
    rcases kept with begun | solid
    · exact absurd leading.1 begun
    · rw [leading.2] at solid
      cases solid
  · exact List.cons_ne_nil _ _

theorem enclosure_extend (pending : Assembly) (glyph : Glyph) :
    (pending.extend glyph).enclosure = pending.enclosure := by
  unfold extend
  split <;> rfl

theorem extend_fits {pending : Assembly} {glyph : Glyph} {following : Mode}
    (surface : pending.enclosure = .surface) (outside : ¬ following.InComment)
    (idle : pending.header = [] → isBlank glyph.member = true → following.Idle) :
    (pending.extend glyph).Fits following ∧ (pending.extend glyph).level = 0 := by
  have stays := (enclosure_extend pending glyph).trans surface
  simp only [Fits, level, stays]
  refine ⟨⟨outside, ?_⟩, trivial⟩
  intro bare
  by_cases begun : pending.header = []
  · cases blank : isBlank glyph.member with
    | true => exact idle begun blank
    | false => exact absurd bare (header_extend_ne_nil (Or.inr blank))
  · exact absurd bare (header_extend_ne_nil (Or.inl begun))

theorem extend_progress {pending : Assembly} {glyph : Glyph} {following : Mode}
    {depth? : Option Nat} (surface : pending.enclosure = .surface) (outside : ¬ following.InComment)
    (idle : pending.header = [] → isBlank glyph.member = true → following.Idle)
    (counted : depth? = some 0) :
    (Progress.reading (pending.extend glyph)).Fits following depth? := by
  have extended := extend_fits surface outside idle
  exact ⟨extended.1, by rw [counted, extended.2]⟩

theorem isBlank_colon : isBlank ':' = false := by decide

theorem isBlank_of_isQuote {member : Char} (quote : isQuote member = true) :
    isBlank member = false := by
  simp only [isQuote, Bool.or_eq_true, beq_iff_eq] at quote
  rcases quote with rfl | rfl <;> decide

theorem depthAfter?_of_ne {member : Char} {role : Role} (depth : Nat)
    (plain : role = .code → member ≠ '{' ∧ member ≠ '}') :
    depthAfter? role member depth = some depth := by
  unfold depthAfter?
  rw [if_neg (fun both => (plain both.1).1 both.2), if_neg (fun both => (plain both.1).2 both.2)]

theorem stepCode_fits {pending : Assembly} {afterColon : Bool} (here : Location) (member : Char)
    (next? : Option Char) (surface : pending.enclosure = .surface) :
    (pending.stepSurface ⟨member, (Mode.stepCode afterColon member next?).1, here⟩).Fits
      (Mode.stepCode afterColon member next?).2
      (depthAfter? (Mode.stepCode afterColon member next?).1 member 0) := by
  unfold Mode.stepCode
  split
  · exact ⟨True.intro, depthAfter?_of_ne 0 (fun impossible => by cases impossible)⟩
  · split
    · refine ⟨?_, ?_⟩
      · simp only [Fits, surface]
        exact ⟨id, fun _ => True.intro⟩
      · rw [level, surface]
        exact depthAfter?_of_ne 0 (fun impossible => by cases impossible)
    · split
      · rename_i quote
        refine extend_progress surface id ?_
          (depthAfter?_of_ne 0 (fun impossible => by cases impossible))
        intro _ blank
        rw [isBlank_of_isQuote quote] at blank
        cases blank
      · simp only [stepSurface]
        split
        · rename_i opening
          subst opening
          exact ⟨True.intro, rfl⟩
        · split
          · rename_i closing
            subst closing
            rfl
          · rename_i notOpening notClosing
            have counted : depthAfter? .code member 0 = some 0 :=
              depthAfter?_of_ne 0 (fun _ => ⟨notOpening, notClosing⟩)
            split
            · rename_i ending
              subst ending
              unfold endStatement
              split
              · exact ⟨fits_empty, counted⟩
              · exact ⟨fits_empty, counted⟩
            · refine extend_progress surface id ?_ counted
              intro _ blank
              cases colon : member == ':' with
              | false => rfl
              | true =>
                  rw [eq_of_beq colon, isBlank_colon] at blank
                  cases blank

theorem stepSurface_fits {pending : Assembly} {mode : Mode} (here : Location) (member : Char)
    (next? : Option Char) (surface : pending.enclosure = .surface) (fits : pending.Fits mode) :
    (pending.stepSurface ⟨member, (mode.step member next?).1, here⟩).Fits
      (mode.step member next?).2 (depthAfter? (mode.step member next?).1 member 0) := by
  have counted : ∀ role : Role, role ≠ .code → depthAfter? role member 0 = some 0 :=
    fun role other => depthAfter?_of_ne 0 (fun same => absurd same other)
  have state : ¬ mode.InComment ∧ (pending.header = [] → mode.Idle) := by
    simpa only [Fits, surface] using fits
  have unchanged : ∀ following : Mode, ¬ following.InComment → following.Idle →
      (Progress.reading pending).Fits following (some 0) := by
    intro following outside idle
    refine ⟨?_, by rw [level, surface]⟩
    simp only [Fits, surface]
    exact ⟨outside, fun _ => idle⟩
  cases mode with
  | code afterColon => exact stepCode_fits here member next? surface
  | quoted quote =>
      have busy : pending.header = [] → False := state.2
      have taken : ∀ following : Mode, ¬ following.InComment →
          (Progress.reading (pending.extend ⟨member, .quoted, here⟩)).Fits following
            (depthAfter? .quoted member 0) := fun following outside =>
        extend_progress surface outside (fun bare => (busy bare).elim)
          (counted .quoted (by decide))
      simp only [Mode.step]
      split
      · exact taken _ id
      · split
        · exact taken _ id
        · exact taken _ id
  | escaped quote =>
      exact extend_progress surface id (fun bare => (state.2 bare).elim)
        (counted .quoted (by decide))
  | commentOpening => exact absurd True.intro state.1
  | comment => exact absurd True.intro state.1
  | commentClosing => exact absurd True.intro state.1
  | remarkOpening =>
      simp only [Mode.step, stepSurface, counted .remark (by decide)]
      exact unchanged .remark id True.intro
  | remark =>
      simp only [Mode.step]
      split
      · rename_i feed
        subst feed
        exact extend_progress surface id (fun _ _ => rfl) rfl
      · simp only [stepSurface, counted .remark (by decide)]
        exact unchanged .remark id True.intro

theorem stepComment_fits {pending : Assembly} {mode : Mode} {start : Location} {text : Text}
    (here : Location) (member : Char) (next? : Option Char)
    (comment : pending.enclosure = .comment start text) (fits : pending.Fits mode) :
    (pending.stepComment start text ⟨member, (mode.step member next?).1, here⟩).Fits
      (mode.step member next?).2 (depthAfter? (mode.step member next?).1 member 0) := by
  have counted : ∀ role : Role, role ≠ .code → depthAfter? role member 0 = some 0 :=
    fun role other => depthAfter?_of_ne 0 (fun same => absurd same other)
  have inside : mode.InComment := by simpa only [Fits, comment] using fits
  have unchanged : ∀ following : Mode, following.InComment →
      (Progress.reading pending).Fits following (some 0) := by
    intro following still
    refine ⟨?_, by rw [level, comment]⟩
    simpa only [Fits, comment] using still
  cases mode with
  | commentOpening =>
      simp only [Mode.step, stepComment, counted .commentMark (by decide)]
      exact unchanged .comment True.intro
  | comment =>
      simp only [Mode.step]
      split
      · simp only [stepComment, counted .commentMark (by decide)]
        exact unchanged .commentClosing True.intro
      · exact ⟨True.intro, counted .comment (by decide)⟩
  | commentClosing =>
      simp only [Mode.step, stepComment, endComment, counted .commentClose (by decide)]
      split
      · exact ⟨fits_empty, rfl⟩
      · exact ⟨⟨id, fun _ => rfl⟩, rfl⟩
  | code afterColon => cases inside
  | quoted quote => cases inside
  | escaped quote => cases inside
  | remarkOpening => cases inside
  | remark => cases inside

theorem stepBlock_fits {pending : Assembly} {mode : Mode} {opening : Location} {depth : Nat}
    {text : Text} (here : Location) (member : Char) (next? : Option Char) :
    (pending.stepBlock opening depth text ⟨member, (mode.step member next?).1, here⟩).Fits
      (mode.step member next?).2
      (depthAfter? (mode.step member next?).1 member (depth + 1)) := by
  unfold stepBlock depthAfter?
  by_cases opens : (mode.step member next?).1 = .code ∧ member = '{'
  · rw [if_pos opens, if_pos opens]
    exact ⟨True.intro, rfl⟩
  · rw [if_neg opens, if_neg opens]
    by_cases closes : (mode.step member next?).1 = .code ∧ member = '}'
    · rw [if_pos closes, if_pos closes]
      obtain ⟨afterColon, _, stepped⟩ := Mode.step_of_brace closes.1 (Or.inr closes.2)
      rw [stepped]
      cases depth with
      | zero =>
          simp only [endBlock]
          split
          · exact ⟨fits_empty, rfl⟩
          · exact ⟨fits_empty, rfl⟩
      | succ outer => exact ⟨True.intro, rfl⟩
    · rw [if_neg closes, if_neg closes]
      exact ⟨True.intro, rfl⟩

/-- Steps keep assemblies and modes together, and count braces. -/
theorem step_fits {pending : Assembly} {mode : Mode} (here : Location) (member : Char)
    (next? : Option Char) (fits : pending.Fits mode) :
    (pending.step ⟨member, (mode.step member next?).1, here⟩).Fits (mode.step member next?).2
      (depthAfter? (mode.step member next?).1 member pending.level) := by
  unfold step
  cases enclosed : pending.enclosure with
  | surface =>
      simp only [level, enclosed]
      exact stepSurface_fits here member next? enclosed fits
  | comment start text =>
      simp only [level, enclosed]
      exact stepComment_fits here member next? enclosed fits
  | block opening depth text =>
      simp only [level, enclosed]
      exact stepBlock_fits here member next?

/-! ### Whole texts -/

theorem read_fits {pending last : Assembly} {mode : Mode} {here : Location} {text : Text}
    {segments : List Segment} (fits : pending.Fits mode)
    (run : pending.read (Glyph.list mode here text) = some (segments, last)) :
    last.Fits (mode.after text) ∧ mode.openAfter pending.level text = some last.level := by
  induction text generalizing pending mode here segments with
  | nil =>
      injection run with same
      injection same with _ same
      subst same
      exact ⟨fits, rfl⟩
  | cons member rest ih =>
      have fitting := step_fits here member rest.head? fits
      rw [Glyph.list_cons] at run
      rw [Mode.openAfter, Mode.after]
      rcases read_cons_cases run with ⟨following, stepped, tail⟩ | ⟨_, _, stepped, tail, _⟩
      · rw [stepped] at fitting
        rw [fitting.2]
        exact ih fitting.1 tail
      · rw [stepped] at fitting
        rw [fitting.2]
        exact ih fitting.1 tail

theorem exists_read {pending : Assembly} {mode : Mode} (here : Location) {text : Text}
    (fits : pending.Fits mode) {depth : Nat}
    (counted : mode.openAfter pending.level text = some depth) :
    ∃ segments last, pending.read (Glyph.list mode here text) = some (segments, last) := by
  induction text generalizing pending mode here with
  | nil => exact ⟨[], pending, rfl⟩
  | cons member rest ih =>
      have stepped := step_fits here member rest.head? fits
      rw [Mode.openAfter] at counted
      rw [Glyph.list, read]
      cases outcome : pending.step ⟨member, (mode.step member rest.head?).1, here⟩ with
      | reading following =>
          rw [outcome] at stepped
          rw [stepped.2] at counted
          exact ih (here.advance member) stepped.1 counted
      | complete segment =>
          rw [outcome] at stepped
          rw [stepped.2] at counted
          obtain ⟨segments, last, run⟩ := ih (here.advance member) stepped.1 counted
          exact ⟨segment :: segments, last, by simp only [run, Option.map_some]⟩
      | rejected fault =>
          rw [outcome] at stepped
          have uncounted : depthAfter? (mode.step member rest.head?).1 member pending.level =
            none := stepped
          rw [uncounted] at counted
          cases counted

theorem fault?_finish_eq_none_iff (pending : Assembly) :
    pending.finish.fault? = none ↔ pending.level = 0 := by
  obtain ⟨header, enclosure⟩ := pending
  cases enclosure with
  | surface => simp only [finish, level, iff_true]; split <;> rfl
  | comment start text => simp only [finish, level, iff_true]; split <;> rfl
  | block opening depth text =>
      constructor
      · intro impossible
        cases impossible
      · intro impossible
        cases impossible

theorem fault?_eq_none_iff {pending : Assembly} {mode : Mode} (here : Location) (text : Text)
    (fits : pending.Fits mode) :
    (pending.segmentation (Glyph.list mode here text)).fault? = none ↔
      mode.openAfter pending.level text = some 0 := by
  constructor
  · intro faultless
    cases run : pending.read (Glyph.list mode here text) with
    | none => exact absurd faultless (fault?_of_read_eq_none run)
    | some result =>
        obtain ⟨segments, last⟩ := result
        rw [segmentation_of_read run] at faultless
        rw [(read_fits fits run).2, (fault?_finish_eq_none_iff last).mp faultless]
  · intro balanced
    obtain ⟨segments, last, run⟩ := exists_read here fits balanced
    have counted := (read_fits fits run).2
    rw [balanced] at counted
    injection counted with shallow
    rw [segmentation_of_read run]
    exact (fault?_finish_eq_none_iff last).mpr shallow.symm

end Assembly

theorem Body.fault?_eq_none_iff (body : Body) :
    body.segmentation.fault? = none ↔ (Mode.code false).openAfter 0 body.text = some 0 :=
  Assembly.fault?_eq_none_iff body.origin body.text Assembly.fits_empty

theorem Text.Closed.fault?_eq_none {body : Body} (closed : Closed body.text) :
    body.segmentation.fault? = none := body.fault?_eq_none_iff.mpr closed.balanced

end NestedCss
