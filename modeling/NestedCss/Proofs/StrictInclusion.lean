import Mathlib.Control.Monad.Basic
import NestedCss.Compile
import NestedCss.Notice
import NestedCss.Proofs.Steps

set_option autoImplicit false

/-! Strict inclusion. A strict compilation does what the lenient one does up to the
first inclusion that the lenient one drops, and fails there. So the two differ only
where something is dropped, and what the lenient compilation comes to afterwards
makes no difference to the strict one. -/

namespace NestedCss

namespace Traced

variable {α β γ : Type}

/-- The computation that fails where this one first drops an inclusion. -/
def refusing (computed : Traced α) : Traced α :=
  match computed.dropped with
  | [] => computed
  | first :: _ => failed ⟨.unresolvedMixin first.name, first.location⟩

private theorem refusing_of_dropped_eq_nil {computed : Traced α} (nothing : computed.dropped = []) :
    computed.refusing = computed := by
  rw [refusing, nothing]

private theorem refusing_of_dropped_eq_cons {computed : Traced α} {first : Inclusion}
    {rest : List Inclusion} (some : computed.dropped = first :: rest) :
    computed.refusing = failed ⟨.unresolvedMixin first.name, first.location⟩ := by
  rw [refusing, some]

private theorem of_outcome_refusing_eq_ok {computed : Traced α} {value : α}
    (ended : computed.refusing.outcome = .ok value) :
    computed.dropped = [] ∧ computed.outcome = .ok value := by
  cases dropping : computed.dropped with
  | nil =>
      rw [refusing_of_dropped_eq_nil dropping] at ended
      exact ⟨rfl, ended⟩
  | cons first rest =>
      rw [refusing_of_dropped_eq_cons dropping] at ended
      cases ended

private theorem refusing_map (change : α → β) (computed : Traced α) :
    (computed.map change).refusing = computed.refusing.map change := by
  obtain ⟨dropped, outcome⟩ := computed
  cases dropped <;> rfl

/-- Refusing in each part is refusing in the whole: the first inclusion that the
whole drops is the first that its first part drops, if there is one. -/
theorem refusing_andThen (first : Traced α) (next : α → Traced β) :
    (first.andThen next).refusing = first.refusing.andThen fun value => (next value).refusing := by
  obtain ⟨dropped, outcome⟩ := first
  cases dropped with
  | nil => cases outcome <;> rfl
  | cons earliest rest => cases outcome <;> rfl

private theorem refusing_foldl {step refused : α → γ → Traced α}
    (same : ∀ before member, refused before member = (step before member).refusing) (start : α)
    (members : List γ) : foldl refused start members = (foldl step start members).refusing := by
  induction members generalizing start with
  | nil => rfl
  | cons member rest ih =>
      rw [foldl, foldl, refusing_andThen, same]
      congr 1
      funext next
      exact ih next

end Traced

namespace CompileOptions

def lenient : CompileOptions := { strictIncludes := false }

def strict : CompileOptions := { strictIncludes := true }

end CompileOptions

/-- A reader that does what another one does, but drops nothing. -/
def BodyReader.Refuses (reader other : BodyReader) : Prop :=
  ∀ site body tree, reader site body tree = (other site body tree).refusing

private theorem expandInclusion_strict {nested other : BodyReader} (refuses : nested.Refuses other)
    (site : Site) (inclusion : Inclusion) (tree : RuleTree) :
    expandInclusion .strict nested site inclusion tree =
      (expandInclusion .lenient other site inclusion tree).refusing := by
  unfold expandInclusion
  cases tree.findMixin site.rule inclusion.name with
  | none => rfl
  | some mixin =>
      simp only
      split
      · rfl
      · exact refuses _ mixin.body tree

private theorem applyNode_strict {nested other : BodyReader} (refuses : nested.Refuses other)
    (site : Site) (tree : RuleTree) (node : Node) :
    applyNode .strict nested site tree node =
      (applyNode .lenient other site tree node).refusing := by
  cases node with
  | binding binding => rfl
  | property property =>
      simp only [applyNode, Traced.refusing_map]
      rfl
  | comment text => rfl
  | mixin mixin => rfl
  | media block => exact refuses _ block.body _
  | inclusion inclusion => exact expandInclusion_strict refuses site inclusion tree
  | rule selector body => exact refuses _ body _

private theorem applySegmentation_strict {nested other : BodyReader}
    (refuses : nested.Refuses other) (site : Site) (whole : Segmentation) (tree : RuleTree) :
    applySegmentation .strict nested site whole tree =
      (applySegmentation .lenient other site whole tree).refusing := by
  rw [applySegmentation, applySegmentation, Traced.foldNodes, Traced.foldNodes,
    Traced.refusing_andThen, Traced.refusing_foldl (applyNode_strict refuses site)]
  congr 1
  funext result
  cases whole.fault? <;> rfl

private theorem readBody_strict (levels : Nat) :
    (readBody .strict levels).Refuses (readBody .lenient levels) := by
  induction levels with
  | zero => exact fun _ _ _ => rfl
  | succ levels ih =>
      intro site body tree
      exact applySegmentation_strict ih site body.segmentation tree

private theorem ofSource_refusing (source : Text) :
    RuleTree.ofSource .strict source = (RuleTree.ofSource .lenient source).refusing := by
  unfold RuleTree.ofSource
  exact readBody_strict (nestingLimit + 1) ⟨RuleTree.root, []⟩ (.ofSource source) .empty

private theorem compileSource_refusing (source : Text) :
    compileSource .strict source = (compileSource .lenient source).refusing := by
  rw [compileSource, compileSource, Traced.refusing_map, ofSource_refusing]

/-- Where the lenient compilation drops nothing the strict one is the same, with the
same text or the same failure; where it drops something, the strict one fails at the
first inclusion dropped. So what compiles strictly compiles leniently, to the same
text and without a warning. -/
theorem compileSource_strict (source : Text) :
    ((compileSource .lenient source).dropped = [] →
      compileSource .strict source = compileSource .lenient source) ∧
    (∀ first rest, (compileSource .lenient source).dropped = first :: rest →
      compileSource .strict source =
        .failed ⟨.unresolvedMixin first.name, first.location⟩) ∧
    ∀ css, (compileSource .strict source).outcome = .ok css →
      (compileSource .lenient source).outcome = .ok css ∧
        (compileSource .lenient source).notices = [] := by
  rw [compileSource_refusing source]
  refine ⟨Traced.refusing_of_dropped_eq_nil, ?_, ?_⟩
  · exact fun first rest dropping => Traced.refusing_of_dropped_eq_cons dropping
  · intro css ended
    obtain ⟨nothing, compiled⟩ := Traced.of_outcome_refusing_eq_ok ended
    refine ⟨compiled, ?_⟩
    rw [Traced.notices, nothing]
    rfl

/-- A source whose lenient compilation fails without dropping anything, one whose
lenient compilation drops two inclusions and fails later for another reason, and one
that compiles strictly. -/
theorem compileSource_strict_of_failures :
    let failing := "@mixin m\x7ba:$b\x7dc\x7b@include m\x7d".toList
    let dropping := ("@mixin m\x7b@include n(x);a:b\x7d@media d\x7bc\x7b@include m\x7d\x7d" ++
      "@include e;@include m;c\x7bf:$g\x7d").toList
    let sound := "@mixin m\x7ba:b\x7dc\x7b@include m\x7d".toList
    compileSource .strict failing = compileSource .lenient failing ∧
    (compileSource .strict dropping = .failed ⟨.unresolvedMixin "n".toList, ⟨1, 10⟩⟩ ∧
      (compileSource .lenient dropping).outcome =
        .error ⟨.unresolvedVariable "g".toList, ⟨1, 75⟩⟩) ∧
    (compileSource .lenient sound).outcome = .ok "c\x7ba:b;\x7d".toList := by
  intro failing dropping sound
  have dropped : (compileSource .lenient dropping).dropped =
      [⟨"n".toList, ⟨1, 10⟩⟩, ⟨"e".toList, ⟨1, 51⟩⟩, ⟨"n".toList, ⟨1, 10⟩⟩] := by decide +kernel
  refine ⟨(compileSource_strict failing).1 (by decide +kernel),
    ⟨(compileSource_strict dropping).2.1 _ _ dropped, by decide +kernel⟩,
    ((compileSource_strict sound).2.2 _ (by decide +kernel)).1⟩

end NestedCss
