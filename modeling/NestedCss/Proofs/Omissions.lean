import NestedCss.Proofs.Layout

set_option autoImplicit false

/-! Pieces that can be left out. A piece of whole segments that all say nothing stands
between two other segments, at any depth; the body around it keeps something else. Leaving
the piece out changes the text of every body around it, and the text of each mixin that it
stands in wherever that mixin is expanded, but never what is read of them: a property
without a value writes nothing, and a mixin that no inclusion asks for is never found. -/

namespace NestedCss

/-- Somewhere in a body, at any depth, a mixin of that name is included. -/
inductive Body.AsksFor (name : Text) : Body → Prop
  | here {body : Body} {request : Inclusion} (present : .inclusion request ∈ body.nodes)
      (named : request.name = name) : AsksFor name body
  | within {outer inner : Body} {node : Node} (present : node ∈ outer.nodes)
      (carried : node.body? = some inner) (deeper : inner.AsksFor name) : AsksFor name outer

def Node.includes (name : Text) : Node → Bool
  | .inclusion request => request.name == name
  | .binding _ | .property _ | .comment _ | .mixin _ | .media _ | .rule _ _ => false

def Body.asksWithin (name : Text) : Nat → Body → Bool
  | 0, _ => true
  | levels + 1, body =>
      body.nodes.any fun node => node.includes name || node.body?.any (asksWithin name levels)

theorem Body.not_asksFor_of_asksWithin {name : Text} (levels : Nat) : ∀ {body : Body},
    body.asksWithin name levels = false → ¬ body.AsksFor name := by
  induction levels with
  | zero => exact fun impossible => by cases impossible
  | succ levels ih =>
      intro body nowhere asks
      rw [asksWithin, List.any_eq_false] at nowhere
      cases asks with
      | here present named =>
          have other := nowhere _ present
          rw [Bool.or_eq_true, not_or] at other
          exact other.1 (beq_iff_eq.mpr named)
      | within present carried deeper =>
          have other := nowhere _ present
          rw [Bool.or_eq_true, not_or, carried, Option.any_some] at other
          exact ih (Bool.eq_false_iff.mpr other.2) deeper

/-- A place where no statement and no header is underway, outside strings and comments. -/
structure Text.Idle (before : Text) : Prop where
  code : (Mode.code false).after before = .code false
  idle : (Mode.code false).underway false before = false

/-- Whole segments between two parts of a text that say nothing when no mixin of the names is
asked for. The body that they stand in is not blank without them. -/
structure Text.Omission (names : List Text) (before piece after : Text) : Prop where
  place : before.Idle
  whole : piece.Whole
  silent : ∀ here, ∀ node ∈ (Body.mk piece here).nodes, node.Silent names
  solid : ∀ first last, InnermostBody before after first last →
    Text.allBlank (first ++ last) = false

def Text.Omits (names : List Text) (text other : Text) : Prop :=
  text = other ∨ ∃ before piece after, Omission names before piece after ∧
    text = before ++ piece ++ after ∧ other = before ++ after

/-! ### Idle places -/

namespace Text

theorem AtBoundary.idle {text : Text} (boundary : text.AtBoundary) : text.Idle :=
  ⟨boundary.after_eq, boundary.underway_eq⟩

private theorem Idle.inside {outside first : Text} (place : (outside ++ '{' :: first).Idle)
    (code : ∃ afterColon, (Mode.code false).after outside = .code afterColon) : first.Idle := by
  obtain ⟨afterColon, outer⟩ := code
  constructor
  · rw [← Mode.after_opening outer]
    exact place.code
  · rw [← Mode.underway_opening outer]
    exact place.idle

private theorem Whole.openAfter_eq {piece : Text} (whole : piece.Whole) (depth : Nat) :
    (Mode.code false).openAfter depth piece = some depth := by
  have counted := whole.closed.balanced
  rw [← Glyph.openAfter_list (.code false) .start] at counted ⊢
  have deeper := Glyph.openAfter_add depth counted
  rwa [Nat.zero_add] at deeper

namespace Omits

variable {names : List Text}

private theorem refl (text : Text) : Omits names text text := Or.inl rfl

end Omits

/-! ### Bodies with and without the piece -/

namespace Omission

variable {names : List Text} {before piece after : Text}

private theorem omits (omission : Omission names before piece after) :
    Omits names (before ++ piece ++ after) (before ++ after) :=
  Or.inr ⟨before, piece, after, omission, rfl, rfl⟩

private theorem inside {outside first last beyond : Text}
    (omission : Omission names (outside ++ '{' :: first) piece (last ++ '}' :: beyond))
    (code : ∃ afterColon, (Mode.code false).after outside = .code afterColon) :
    Omission names first piece last where
  place := omission.place.inside code
  whole := omission.whole
  silent := omission.silent
  solid := fun begun rest innermost => omission.solid begun rest (innermost.enclosed code)

private theorem apart (omission : Omission names before piece after) (next? : Option Char) :
    (Mode.code false).Unaffected next? before :=
  Mode.unaffected_of_idle omission.place.code omission.place.idle next?

private theorem seamless (omission : Omission names before piece after) :
    piece.Seamless before after where
  apart := omission.apart _
  unaffected := by
    rw [omission.place.code]
    exact omission.whole.unaffected _
  openAfter_eq := by
    rw [omission.place.code]
    exact omission.whole.openAfter_eq

private theorem agreeOn (omission : Omission names before piece after) :
    (((Mode.code false).after before).after piece).AgreeOn
      (((Mode.code false).after before).after []) after := by
  rw [omission.place.code, omission.whole.after_eq]
  cases after with
  | nil => exact True.intro
  | cons member rest => rfl

private theorem body_omits (omission : Omission names before piece after) {first last : Text}
    (around : BodyAround before [] after first last) :
    Text.allBlank (first ++ piece ++ last) = Text.allBlank (first ++ [] ++ last) ∧
      Omits names (first ++ piece ++ last) (first ++ [] ++ last) := by
  have solid := around.solid omission.solid
  obtain ⟨⟨outside, beyond, rfl, rfl, code⟩, _⟩ := around
  rw [List.append_nil]
  refine ⟨?_, (omission.inside code).omits⟩
  rw [solid]
  rw [allBlank, List.all_append, Bool.and_eq_false_iff] at solid
  rw [allBlank, List.all_append, List.all_append, Bool.and_eq_false_iff, Bool.and_eq_false_iff]
  exact solid.imp_left Or.inl

end Omission
end Text

namespace Segmentation

variable {names : List Text} {related : Text → Text → Prop} {whole other : Segmentation}

private theorem Thins.behind (refl : ∀ text, related text text)
    (thins : whole.Thins names related other)
    {segments copies : List Segment} (front : List.Forall₂ Segment.Alike segments copies) :
    (whole.behind segments).Thins names related (other.behind copies) := by
  refine ⟨?_, thins.balanced⟩
  rw [Segmentation.behind, Segmentation.behind, List.map_append, List.map_append]
  refine thins.nodes.append ?_
  rw [List.forall₂_map_left_iff, List.forall₂_map_right_iff]
  exact front.imp fun _ _ alike => alike.node.resembles refl

private theorem Thins.behind_silent (thins : whole.Thins names related other)
    {segments : List Segment} (silent : ∀ node ∈ segments.map Node.ofSegment, node.Silent names) :
    (whole.behind segments).Thins names related other := by
  refine ⟨?_, thins.balanced⟩
  rw [Segmentation.behind, List.map_append]
  exact thins.nodes.behind silent

end Segmentation

namespace Text.Omission

variable {names : List Text} {before piece after : Text}

/-- Wherever it stands, a text with the piece is read like the text without it. -/
theorem thins (omission : Omission names before piece after) (here there : Location) :
    (Body.mk (before ++ piece ++ after) here).segmentation.Thins names (Omits names)
      (Body.mk (before ++ [] ++ after) there).segmentation := by
  have bare : Seamless [] before after := ⟨omission.apart _, True.intro, fun _ => rfl⟩
  have varied : ∀ {whole other : Segmentation}, whole.Varies (.ofBodies (Omits names)) other →
      whole.Thins names (Omits names) other :=
    fun varies => (varies.resembles Omits.refl fun _ _ changed => changed.node_resembles).thins names
  refine segmentation_joined varied (fun thins front => thins.behind Omits.refl front)
    ⟨false, omission.place.code⟩ omission.seamless bare omission.agreeOn
    (fun first last around => omission.body_omits around) ?_ here there
  · intro place segments header written run same here there
    have bare : header = [] := by
      by_contra begun
      have underway := (Assembly.read_underway run rfl).mpr begun
      rw [omission.place.idle] at underway
      cases underway
    have bareToo : written = [] := by
      have members : header.map Glyph.member = written.map Glyph.member := same.header
      rw [bare] at members
      exact List.map_eq_nil_iff.mp members.symm
    subst bare bareToo
    rw [omission.place.code]
    have front := omission.whole.segmentation_append after here
    have alike : (Body.mk after (here.advanceOver piece)).segmentation.Alike
        (Body.mk after there).segmentation := Body.segmentation_alike rfl
    have rest : (Body.mk after (here.advanceOver piece)).segmentation.Thins names (Omits names)
        (Body.mk after there).segmentation := (alike.resembles Omits.refl).thins names
    have thins := rest.behind_silent (omission.silent here)
    rw [← front] at thins
    exact thins

end Text.Omission

/-! ### Inclusions -/

private theorem Node.Resembles.exists_body {related : Text → Text → Prop} {node copy : Node}
    (alike : node.Resembles related copy) {inner : Body} (carried : copy.body? = some inner) :
    ∃ body, node.body? = some body ∧ related body.text inner.text := by
  cases alike with
  | mixin name same => exact ⟨_, rfl, Option.some.inj carried ▸ same⟩
  | media query same => exact ⟨_, rfl, Option.some.inj carried ▸ same⟩
  | rule selector same => exact ⟨_, rfl, Option.some.inj carried ▸ same⟩
  | binding => cases carried
  | property => cases carried
  | comment => cases carried
  | inclusion => cases carried

private theorem Node.Resembles.mono {related closer : Text → Text → Prop} {node copy : Node}
    (alike : node.Resembles related copy)
    (implies : ∀ body inner : Body, copy.body? = some inner → related body.text inner.text →
      closer body.text inner.text) : node.Resembles closer copy := by
  cases alike with
  | binding key value isGlobal here there => exact .binding key value isGlobal here there
  | property key value here there => exact .property key value here there
  | comment text => exact .comment text
  | mixin name same => exact .mixin name (implies _ _ rfl same)
  | media query same => exact .media query (implies _ _ rfl same)
  | inclusion name here there => exact .inclusion name here there
  | rule selector same => exact .rule selector (implies _ _ rfl same)

private theorem Body.AsksFor.of_thins {names : List Text} {related : Text → Text → Prop}
    (thins : ∀ body other : Body, related body.text other.text →
      body.segmentation.Thins names related other.segmentation) {name : Text} {other : Body}
    (asks : other.AsksFor name) : ∀ body : Body, related body.text other.text → body.AsksFor name := by
  induction asks with
  | @here other request present named =>
      intro body texts
      obtain ⟨node, found, alike⟩ := (thins body other texts).nodes.exists_of_mem present
      cases alike with
      | inclusion _ here there => exact .here found named
  | @within outer inner node present carried deeper ih =>
      intro body texts
      obtain ⟨member, found, alike⟩ := (thins body outer texts).nodes.exists_of_mem present
      obtain ⟨copy, carriedToo, same⟩ := alike.exists_body carried
      exact .within found carriedToo (ih copy same)

private theorem Body.AsksFor.of_text_eq {name : Text} {body other : Body} (asks : body.AsksFor name)
    (same : other.text = body.text) : other.AsksFor name := by
  have thins : ∀ body other : Body, body.text = other.text →
      body.segmentation.Thins [] Eq other.segmentation :=
    fun _ _ same => ((Body.segmentation_alike same).resembles fun _ => rfl).thins []
  exact asks.of_thins thins other same

private theorem Text.thins_of_omits {names : List Text} (body other : Body)
    (omits : Omits names body.text other.text) :
    body.segmentation.Thins names (Omits names) other.segmentation := by
  obtain ⟨text, here⟩ := body
  obtain ⟨without, there⟩ := other
  rcases omits with same | ⟨before, piece, after, omission, spelled, left⟩
  · exact ((Body.segmentation_alike same).resembles Omits.refl).thins names
  · subst spelled left
    have thins := omission.thins here there
    rwa [List.append_nil] at thins

theorem Text.Omission.asksFor {names : List Text} {before piece after name : Text}
    (omission : Omission names before piece after)
    (asks : (Body.ofSource (before ++ after)).AsksFor name) :
    (Body.ofSource (before ++ piece ++ after)).AsksFor name :=
  asks.of_thins thins_of_omits _ omission.omits

private theorem Text.overlooks_omits (names : List Text) :
    Overlooks names fun text other => Omits names text other ∧
      ∀ name ∈ names, ∀ here, ¬ (Body.mk other here).AsksFor name := by
  rintro body ⟨text, there⟩ ⟨omits, unasked⟩
  have thins := thins_of_omits body ⟨text, there⟩ omits
  refine ⟨⟨thins.nodes.imp fun node copy present alike => ?_, thins.balanced⟩, ?_⟩
  · refine alike.mono fun outer inner carried same => ⟨same, fun name listed here asks => ?_⟩
    have moved : inner.AsksFor name := asks.of_text_eq rfl
    exact unasked name listed there (.within present carried moved)
  · intro request present listed
    exact unasked request.name listed there (.here present rfl)

/-- What says nothing can be left out, at every depth of nesting and in mixins as well: with
it and without it a stylesheet compiles to the same text, or fails for a cause of the same
kind. -/
theorem Text.Omission.agree {names : List Text} {before piece after : Text}
    (omission : Omission names before piece after)
    (unasked : ∀ name ∈ names, ¬ (Body.ofSource (before ++ after)).AsksFor name)
    (options : CompileOptions) :
    Agree Eq (compileSource options (before ++ piece ++ after)).outcome
      (compileSource options (before ++ after)).outcome := by
  refine (overlooks_omits names).agree options ⟨omission.omits, fun name listed here asks => ?_⟩
  exact unasked name listed (asks.of_text_eq rfl)

end NestedCss
