import Mathlib.Data.List.Forall2
import NestedCss.Node
import NestedCss.Proofs.Scanning

set_option autoImplicit false

/-! A text read from two places. Locations are carried along and never decide
anything, so a text yields the same segments wherever it starts, and the same
nodes, up to the locations that they mention. -/

namespace NestedCss

/-- The same segment, at any place. -/
inductive Segment.Alike : Segment → Segment → Prop
  | statement (text : Text) (here there : Location) :
      Alike (.statement text here) (.statement text there)
  | block (header : Text) (here there : Location) {body other : Body}
      (same : body.text = other.text) : Alike (.block header here body) (.block header there other)
  | comment (text : Text) (here there : Location) :
      Alike (.comment text here) (.comment text there)

structure Segmentation.Alike (whole other : Segmentation) : Prop where
  segments : List.Forall₂ Segment.Alike whole.segments other.segments
  fault : whole.fault? = none ↔ other.fault? = none

theorem Segmentation.alike_of_fault (fault other : Error) :
    (⟨[], some fault⟩ : Segmentation).Alike ⟨[], some other⟩ where
  segments := .nil
  fault := iff_of_false (Option.some_ne_none fault) (Option.some_ne_none other)

inductive Enclosure.Alike : Enclosure → Enclosure → Prop
  | surface : Alike .surface .surface
  | comment (here there : Location) (text : Text) : Alike (.comment here text) (.comment there text)
  | block (here there : Location) (depth : Nat) (text : Text) :
      Alike (.block here depth text) (.block there depth text)

structure Assembly.Alike (pending other : Assembly) : Prop where
  header : pending.header.map Glyph.member = other.header.map Glyph.member
  enclosure : pending.enclosure.Alike other.enclosure

inductive Progress.Alike : Progress → Progress → Prop
  | reading {pending other : Assembly} (same : pending.Alike other) :
      Alike (.reading pending) (.reading other)
  | complete {segment other : Segment} (same : segment.Alike other) :
      Alike (.complete segment) (.complete other)
  | rejected (fault other : Error) : Alike (.rejected fault) (.rejected other)

namespace Assembly

theorem alike_empty : empty.Alike empty := ⟨rfl, .surface⟩

namespace Alike

variable {pending other : Assembly}

theorem isEmpty_eq (same : pending.Alike other) :
    pending.header.isEmpty = other.header.isEmpty := by
  have lengths := congrArg List.isEmpty same.header
  rw [List.isEmpty_map, List.isEmpty_map] at lengths
  exact lengths

theorem headerText_eq (same : pending.Alike other) : pending.headerText = other.headerText := by
  rw [headerText, headerText, List.map_reverse, List.map_reverse, same.header]

theorem extend (same : pending.Alike other) (member : Char) (role : Role) (here there : Location) :
    (pending.extend ⟨member, role, here⟩).Alike (other.extend ⟨member, role, there⟩) := by
  unfold Assembly.extend
  rw [same.isEmpty_eq]
  split
  · exact same
  · refine ⟨?_, same.enclosure⟩
    simp only [List.map_cons, same.header]

theorem enclose (same : pending.Alike other) {inside outside : Enclosure}
    (enclosed : inside.Alike outside) :
    ({ pending with enclosure := inside } : Assembly).Alike { other with enclosure := outside } :=
  ⟨same.header, enclosed⟩

theorem endStatement (same : pending.Alike other) (here there : Location) :
    (pending.endStatement here).Alike (other.endStatement there) := by
  unfold Assembly.endStatement
  rw [same.isEmpty_eq, same.headerText_eq]
  split
  · exact .reading alike_empty
  · exact .complete (.statement _ _ _)

theorem endBlock (same : pending.Alike other) (here there : Location) (text : Text) :
    (pending.endBlock here text).Alike (other.endBlock there text) := by
  unfold Assembly.endBlock
  rw [same.headerText_eq]
  split
  · exact .reading alike_empty
  · exact .complete (.block _ _ _ rfl)

theorem endComment (same : pending.Alike other) (here there : Location) (text : Text) :
    (pending.endComment here text).Alike (other.endComment there text) := by
  unfold Assembly.endComment
  rw [same.isEmpty_eq]
  split
  · exact .complete (.comment _ _ _)
  · exact .reading (same.enclose .surface)

theorem stepSurface (same : pending.Alike other) (member : Char) (role : Role)
    (here there : Location) :
    (pending.stepSurface ⟨member, role, here⟩).Alike (other.stepSurface ⟨member, role, there⟩) := by
  cases role with
  | code =>
      simp only [Assembly.stepSurface]
      split
      · exact .reading (same.enclose (.block here there 0 []))
      · split
        · exact .rejected _ _
        · split
          · exact same.endStatement here there
          · exact .reading (same.extend member .code here there)
  | quoted => exact .reading (same.extend member .quoted here there)
  | commentOpen => exact .reading (same.enclose (.comment here there []))
  | commentMark => exact .reading same
  | comment => exact .reading same
  | commentClose => exact .reading same
  | remark => exact .reading same

theorem stepComment (same : pending.Alike other) {start begun : Location} {text : Text}
    (member : Char) (role : Role) (here there : Location) :
    (pending.stepComment start text ⟨member, role, here⟩).Alike
      (other.stepComment begun text ⟨member, role, there⟩) := by
  cases role with
  | comment => exact .reading (same.enclose (.comment start begun _))
  | commentClose => exact same.endComment start begun text
  | code => exact .reading same
  | quoted => exact .reading same
  | commentOpen => exact .reading same
  | commentMark => exact .reading same
  | remark => exact .reading same

theorem stepBlock (same : pending.Alike other) {opening begun : Location} {depth : Nat}
    {text : Text} (member : Char) (role : Role) (here there : Location) :
    (pending.stepBlock opening depth text ⟨member, role, here⟩).Alike
      (other.stepBlock begun depth text ⟨member, role, there⟩) := by
  unfold Assembly.stepBlock
  simp only
  split
  · exact .reading (same.enclose (.block opening begun _ _))
  · split
    · cases depth with
      | zero => exact same.endBlock opening begun text
      | succ outer => exact .reading (same.enclose (.block opening begun _ _))
    · exact .reading (same.enclose (.block opening begun _ _))

theorem step (same : pending.Alike other) (member : Char) (role : Role) (here there : Location) :
    (pending.step ⟨member, role, here⟩).Alike (other.step ⟨member, role, there⟩) := by
  obtain ⟨header, enclosure⟩ := pending
  obtain ⟨written, enclosing⟩ := other
  have enclosed : enclosure.Alike enclosing := same.enclosure
  cases enclosed with
  | surface => exact same.stepSurface member role here there
  | comment start begun text => exact same.stepComment member role here there
  | block opening begun depth text => exact same.stepBlock member role here there

theorem finish (same : pending.Alike other) : pending.finish.Alike other.finish := by
  have statement : Segmentation.Alike
      (if pending.header.isEmpty then ⟨[], none⟩
        else ⟨[.statement pending.headerText (pending.headerLocation .start)], none⟩)
      (if other.header.isEmpty then ⟨[], none⟩
        else ⟨[.statement other.headerText (other.headerLocation .start)], none⟩) := by
    rw [same.isEmpty_eq, same.headerText_eq]
    split
    · exact ⟨.nil, Iff.rfl⟩
    · exact ⟨.cons (.statement _ _ _) .nil, Iff.rfl⟩
  obtain ⟨header, enclosure⟩ := pending
  obtain ⟨written, enclosing⟩ := other
  have enclosed : enclosure.Alike enclosing := same.enclosure
  cases enclosed with
  | surface => exact statement
  | comment start begun text => exact statement
  | block opening begun depth text => exact Segmentation.alike_of_fault _ _

end Alike

theorem segmentation_alike (text : Text) :
    ∀ {pending other : Assembly}, pending.Alike other → ∀ (mode : Mode) (here there : Location),
      (pending.segmentation (Glyph.list mode here text)).Alike
        (other.segmentation (Glyph.list mode there text)) := by
  induction text with
  | nil => exact fun same _ _ _ => same.finish
  | cons member rest ih =>
      intro pending other same mode here there
      have stepped := same.step member (mode.step member rest.head?).1 here there
      rw [Glyph.list, Glyph.list, segmentation_cons, segmentation_cons]
      generalize pending.step ⟨member, (mode.step member rest.head?).1, here⟩ = progress at *
      generalize other.step ⟨member, (mode.step member rest.head?).1, there⟩ = advance at *
      cases stepped with
      | reading following => exact ih following _ _ _
      | complete segment =>
          have later := ih alike_empty (mode.step member rest.head?).2 (here.advance member)
            (there.advance member)
          exact ⟨.cons segment later.segments, later.fault⟩
      | rejected fault other => exact Segmentation.alike_of_fault fault other

theorem read_alike (text : Text) :
    ∀ {pending other : Assembly}, pending.Alike other → ∀ (mode : Mode) (here there : Location)
      {segments : List Segment} {last : Assembly},
      pending.read (Glyph.list mode here text) = some (segments, last) →
        ∃ others final, other.read (Glyph.list mode there text) = some (others, final) ∧
          List.Forall₂ Segment.Alike segments others ∧ last.Alike final := by
  induction text with
  | nil =>
      intro pending other same mode here there segments last run
      injection run with ended
      injection ended with none reached
      subst none reached
      exact ⟨[], other, rfl, .nil, same⟩
  | cons member rest ih =>
      intro pending other same mode here there segments last run
      have stepped := same.step member (mode.step member rest.head?).1 here there
      simp only [Glyph.list, read] at run ⊢
      generalize pending.step ⟨member, (mode.step member rest.head?).1, here⟩ = progress at *
      generalize other.step ⟨member, (mode.step member rest.head?).1, there⟩ = advance at *
      cases stepped with
      | reading following => exact ih following _ _ _ run
      | complete segment =>
          obtain ⟨⟨later, ended⟩, tail, reached⟩ := Option.map_eq_some_iff.mp run
          injection reached with front back
          subst front back
          obtain ⟨others, final, tailToo, alike, endedToo⟩ :=
            ih alike_empty _ _ (there.advance member) tail
          exact ⟨_, final, by simp only [tailToo, Option.map_some], .cons segment alike, endedToo⟩
      | rejected fault other => cases run

theorem Alike.eq_empty {pending : Assembly} (same : empty.Alike pending) : pending = empty := by
  obtain ⟨header, enclosure⟩ := pending
  have bare : header = [] := List.map_eq_nil_iff.mp same.header.symm
  have outside : Enclosure.surface.Alike enclosure := same.enclosure
  cases outside with
  | surface => rw [bare]; rfl

end Assembly

/-! ### Nodes -/

inductive Node.Alike : Node → Node → Prop
  | binding (key value : Text) (isGlobal : Bool) (here there : Location) :
      Alike (.binding ⟨key, value, isGlobal, here⟩) (.binding ⟨key, value, isGlobal, there⟩)
  | property (key value : Text) (here there : Location) :
      Alike (.property ⟨key, value, here⟩) (.property ⟨key, value, there⟩)
  | comment (text : Text) : Alike (.comment text) (.comment text)
  | mixin (name : Text) {body other : Body} (same : body.text = other.text) :
      Alike (.mixin ⟨name, body⟩) (.mixin ⟨name, other⟩)
  | media (query : MediaQuery) {body other : Body} (same : body.text = other.text) :
      Alike (.media ⟨query, body⟩) (.media ⟨query, other⟩)
  | inclusion (name : Text) (here there : Location) :
      Alike (.inclusion ⟨name, here⟩) (.inclusion ⟨name, there⟩)
  | rule (selector : Text) {body other : Body} (same : body.text = other.text) :
      Alike (.rule selector body) (.rule selector other)

theorem Node.ofStatement_alike (text : Text) (here there : Location) :
    (Node.ofStatement text here).Alike (.ofStatement text there) := by
  unfold ofStatement
  cases Text.afterLead? includeMark text with
  | some rest => exact .inclusion _ _ _
  | none =>
      simp only
      split
      · unfold Binding.ofStatement
        simp only
        split
        · exact .binding _ _ _ _ _
        · exact .binding _ _ _ _ _
      · exact .property _ _ _ _

theorem Node.ofBlock_alike (header : Text) {body other : Body} (same : body.text = other.text) :
    (Node.ofBlock header body).Alike (.ofBlock header other) := by
  unfold ofBlock
  cases Text.afterLead? mixinMark header with
  | some rest => exact .mixin _ same
  | none =>
      cases Text.afterLead? mediaMark header with
      | some query => exact .media _ same
      | none => exact .rule _ same

theorem Segment.Alike.node {segment other : Segment} (same : segment.Alike other) :
    (Node.ofSegment segment).Alike (.ofSegment other) := by
  cases same with
  | statement text here there => exact Node.ofStatement_alike text here there
  | block header here there same => exact Node.ofBlock_alike header same
  | comment text here there => exact .comment text

theorem Segmentation.Alike.nodes {whole other : Segmentation} (same : whole.Alike other) :
    List.Forall₂ Node.Alike (whole.segments.map Node.ofSegment)
      (other.segments.map Node.ofSegment) := by
  rw [List.forall₂_map_left_iff, List.forall₂_map_right_iff]
  exact same.segments.imp fun _ _ paired => paired.node

theorem Body.segmentation_alike {body other : Body} (same : body.text = other.text) :
    body.segmentation.Alike other.segmentation := by
  rw [Body.segmentation, Body.segmentation, same]
  exact Assembly.segmentation_alike other.text Assembly.alike_empty _ _ _

end NestedCss
