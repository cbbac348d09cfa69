import NestedCss.Proofs.Mentions
import NestedCss.Proofs.Omissions

set_option autoImplicit false

/-! Declarations without a value. A value of the host that is absent, or that says in words
that it is, leaves a declaration that is read and never written. A template can be joined
without the declaration and without the value: what it compiles to is the same, and so is
what it draws from the registry, because the name of an animation is no part of such a
text. -/

namespace NestedCss

def absentTexts : List Text := [] :: omittedValues

/-! ### The declaration -/

private theorem Property.written?_of_absent {declared : Property}
    (absent : declared.value ∈ absentTexts) :
    declared.written? = none := by
  simp only [absentTexts, omittedValues, List.mem_cons, List.not_mem_nil, or_false] at absent
  rcases absent with same | same | same <;> rw [written?, same] <;> decide

private theorem Text.isValue_of_absent {value : Text} (absent : value ∈ absentTexts) :
    value.IsValue := by
  simp only [absentTexts, omittedValues, List.mem_cons, List.not_mem_nil, or_false] at absent
  rcases absent with rfl | rfl | rfl
  · exact ⟨rfl, .nil⟩
  · exact ⟨by decide +kernel, Text.Plain.quotable (by decide)⟩
  · exact ⟨by decide +kernel, Text.Plain.quotable (by decide)⟩

private theorem Text.Idle.omission_of_absent {before key value after : Text} (place : before.Idle)
    (isKey : key.IsKey) (undirected : ¬ ['$'] <+: key ∧ ¬ Node.includeMark <+: key)
    (absent : value ∈ absentTexts)
    (solid : ∀ first last, InnermostBody before after first last →
      Text.allBlank (first ++ last) = false) :
    Omission [] before (key ++ ':' :: value ++ [';']) after := by
  have spells : Spells (key ++ ':' :: value ++ [';']) (.property ⟨key, value, .start⟩) :=
    @Property.spells ⟨key, value, .start⟩ isKey undirected (isValue_of_absent absent)
  refine ⟨place, spells.whole, fun here node present => ?_, solid⟩
  obtain ⟨segment, single, alike⟩ := spells.reads here
  rw [Body.nodes, single, List.map_singleton] at present
  obtain rfl := List.mem_singleton.mp present
  generalize Node.ofSegment segment = node at alike
  cases alike with
  | property _ _ _ there => exact .property (Property.written?_of_absent absent)

/-! ### Joined fragments -/

private theorem interleave_append {fragments texts : List Text}
    (aligned : fragments.length = texts.length) (others rest : List Text) :
    interleave (fragments ++ others) (texts ++ rest) =
      interleave fragments texts ++ interleave others rest := by
  induction fragments generalizing texts with
  | nil =>
      rw [List.length_nil, eq_comm, List.length_eq_zero_iff] at aligned
      rw [aligned]
      rfl
  | cons fragment further ih =>
      cases texts with
      | nil => cases aligned
      | cons text more =>
          simp only [List.cons_append, interleave, ih (Nat.succ.inj aligned), List.append_assoc]

private theorem interleave_front (front fragment : Text) (others texts : List Text) :
    interleave ((front ++ fragment) :: others) texts =
      front ++ interleave (fragment :: others) texts := by
  cases texts <;> simp only [interleave, List.append_assoc]

private theorem interleave_around {fragments texts : List Text}
    (aligned : fragments.length = texts.length) (before after : Text) (others rest : List Text) :
    interleave (fragments ++ (before ++ after) :: others) (texts ++ rest) =
      interleave fragments texts ++ before ++ interleave (after :: others) rest := by
  rw [interleave_append aligned, interleave_front, List.append_assoc]

namespace Keyframes

/-! ### The registry -/

private theorem Registry.Reachable.head?_eq {digest : Digest} {registry : Registry}
    (reachable : registry.Reachable digest) : ∀ name ∈ registry.names, name.head? = some '_' := by
  obtain ⟨start, operations, answers, run⟩ := reachable
  obtain ⟨tried, history⟩ := history_of_run? run
  have kept : ∀ {before after : Registry} {operations : List Operation} {answers : List Answer}
      {tried : Nat}, History digest before operations answers tried after →
      (∀ name ∈ before.names, name.head? = some '_') →
        ∀ name ∈ after.names, name.head? = some '_' := by
    intro before after operations answers tried history
    induction history with
    | nil => exact id
    | cons effect later ih =>
        refine fun marked => ih fun name present => ?_
        cases effect with
        | unchanged => exact marked name present
        | registered asked taken named fresh =>
            rw [Registry.names, List.map_append, List.mem_append] at present
            rcases present with old | new
            · exact marked name old
            · rw [List.mem_singleton.mp new, named]
              rfl
  exact kept history fun _ absent => by cases absent

private theorem Registry.referenced_insert {registry : Registry} {text : Text}
    (silent : ∀ name ∈ registry.names, ¬ name <:+: text) (front back : List Text) :
    registry.referenced (front ++ text :: back) = registry.referenced (front ++ back) := by
  have alike : ∀ entry ∈ registry.entries,
      (front ++ text :: back).any (Text.occursIn entry.name) =
        (front ++ back).any (Text.occursIn entry.name) := by
    intro entry present
    have absent : Text.occursIn entry.name text = false := by
      rw [Bool.eq_false_iff, Ne, Text.occursIn_iff]
      exact silent entry.name (List.mem_map_of_mem present)
    simp only [List.any_append, List.any_cons, absent, Bool.false_or]
  rw [referenced, referenced, List.filter_congr alike]

private theorem Registry.Reachable.referenced_of_absent {digest : Digest} {registry : Registry}
    (reachable : registry.Reachable digest) {text : Text} (absent : text ∈ absentTexts)
    (front back : List Text) :
    registry.referenced (front ++ text :: back) = registry.referenced (front ++ back) := by
  refine Registry.referenced_insert (fun name present mentioned => ?_) front back
  have marked : '_' ∈ name := List.mem_of_mem_head? (reachable.head?_eq name present)
  have inside : '_' ∈ text := mentioned.subset marked
  simp only [absentTexts, omittedValues, List.mem_cons, List.not_mem_nil, or_false] at absent
  rcases absent with rfl | rfl | rfl <;> exact absurd inside (by decide)

end Keyframes

/-! ### Templates -/

namespace Template

variable {options : CompileOptions} {registry : Keyframes.Registry} {template : Template}

private theorem outcome_compile_of_aligned
    (aligned : template.fragments.length = template.values.length + 1) :
    (template.compile options registry).outcome =
      ((compileSource options (interleave template.fragments template.texts)).map
        (· ++ registry.referenced template.texts)).outcome := by
  have joined : (Traced.ofExcept template.interpolate).outcome =
      .ok ⟨interleave template.fragments template.texts, template.texts⟩ := by
    rw [interpolate, if_pos aligned]
    rfl
  rw [compile, Traced.outcome_andThen_of_ok joined]

private theorem outcome_compile_of_misaligned
    (misaligned : template.fragments.length ≠ template.values.length + 1) :
    (template.compile options registry).outcome =
      .error ⟨.fragmentArity template.fragments.length template.values.length, .start⟩ := by
  rw [compile, interpolate, if_neg misaligned]
  rfl

end Template

/-- A declaration whose whole value is absent can be cut out of a template together with the
value, at every depth of nesting and in mixins as well: both templates compile to the same
text, or fail for causes of one kind. If one of them has fragments too few or too many, the
other has as well. -/
theorem agree_compile_of_absent_value {digest : Keyframes.Digest} {registry : Keyframes.Registry}
    (reachable : registry.Reachable digest) (options : CompileOptions)
    {fragments others : List Text} {values rest : List Value} {value : Value}
    {before key after : Text} (aligned : fragments.length = values.length)
    (isKey : key.IsKey) (undirected : ¬ ['$'] <+: key ∧ ¬ Node.includeMark <+: key)
    (absent : value.contribution ∈ absentTexts)
    (place : Text.Idle (interleave fragments (values.map Value.contribution) ++ before))
    (solid : ∀ first last,
      Text.InnermostBody (interleave fragments (values.map Value.contribution) ++ before)
        (interleave (after :: others) (rest.map Value.contribution)) first last →
      Text.allBlank (first ++ last) = false) :
    let whole : Template :=
      ⟨fragments ++ (before ++ (key ++ [':'])) :: (';' :: after) :: others, values ++ value :: rest⟩
    let cut : Template := ⟨fragments ++ (before ++ after) :: others, values ++ rest⟩
    (others.length = rest.length →
      Agree Eq (whole.compile options registry).outcome (cut.compile options registry).outcome) ∧
    (others.length ≠ rest.length →
      (whole.compile options registry).outcome =
        .error ⟨.fragmentArity whole.fragments.length whole.values.length, .start⟩ ∧
      (cut.compile options registry).outcome =
        .error ⟨.fragmentArity cut.fragments.length cut.values.length, .start⟩) := by
  intro whole cut
  have wide : whole.fragments.length = fragments.length + (others.length + 2) :=
    List.length_append
  have wideToo : cut.fragments.length = fragments.length + (others.length + 1) :=
    List.length_append
  have long : whole.values.length = values.length + (rest.length + 1) := List.length_append
  have longToo : cut.values.length = values.length + rest.length := List.length_append
  constructor
  · intro balanced
    have texts : whole.texts = values.map Value.contribution ++
        value.contribution :: rest.map Value.contribution := List.map_append
    have textsToo : cut.texts = values.map Value.contribution ++ rest.map Value.contribution :=
      List.map_append
    have alignedToo : fragments.length = (values.map Value.contribution).length := by
      rw [List.length_map, aligned]
    have source : interleave whole.fragments whole.texts =
        interleave fragments (values.map Value.contribution) ++ before ++
          (key ++ ':' :: value.contribution ++ [';']) ++
          interleave (after :: others) (rest.map Value.contribution) := by
      have behind := interleave_front [';'] after others (rest.map Value.contribution)
      rw [List.singleton_append] at behind
      rw [texts, interleave_around alignedToo, interleave, behind]
      simp only [List.append_assoc, List.cons_append, List.nil_append]
    have sourceToo : interleave cut.fragments cut.texts =
        interleave fragments (values.map Value.contribution) ++ before ++
          interleave (after :: others) (rest.map Value.contribution) := by
      rw [textsToo, interleave_around alignedToo]
    have omission := place.omission_of_absent isKey undirected absent solid
    have agree := omission.agree (fun _ listed => by cases listed) options
    have fits : whole.fragments.length = whole.values.length + 1 := by omega
    have fitsToo : cut.fragments.length = cut.values.length + 1 := by omega
    rw [Template.outcome_compile_of_aligned fits, Template.outcome_compile_of_aligned fitsToo,
      source, sourceToo, texts, textsToo, reachable.referenced_of_absent absent]
    refine agree.map ?_
    rintro css _ rfl
    rfl
  · intro uneven
    exact ⟨Template.outcome_compile_of_misaligned (by omega),
      Template.outcome_compile_of_misaligned (by omega)⟩

/-- Values that are not there, in a mixin that is included twice and in a rule. -/
theorem agree_compile_of_absent_values :
    let whole : Template := ⟨["@mixin m\x7bwidth:".toList, ";color:".toList,
      ";\x7d.a\x7b@include m\x7d.b\x7b@include m\x7d".toList], [.text "1px".toList, .null]⟩
    let cut : Template := ⟨["@mixin m\x7bwidth:".toList,
      ";\x7d.a\x7b@include m\x7d.b\x7b@include m\x7d".toList], [.text "1px".toList]⟩
    Agree Eq (whole.compile {} .empty).outcome (cut.compile {} .empty).outcome ∧
      (whole.compile {} .empty).outcome.toOption =
        some ".a\x7bwidth:1px;\x7d.b\x7bwidth:1px;\x7d".toList := by
  intro whole cut
  have reachable : Keyframes.Registry.Reachable Sha256.digest .empty := ⟨0, [], [], rfl⟩
  have solid : ∀ first last,
      Text.InnermostBody "@mixin m\x7bwidth:1px;".toList
        "\x7d.a\x7b@include m\x7d.b\x7b@include m\x7d".toList first last →
      Text.allBlank (first ++ last) = false := fun first last innermost =>
    innermost.allBlank_eq_false (by decide : _ = some ';') (by decide) (by decide)
  have agree := @agree_compile_of_absent_value Sha256.digest .empty reachable {}
    ["@mixin m\x7bwidth:".toList] [] [.text "1px".toList] [] .null ";".toList "color".toList
    "\x7d.a\x7b@include m\x7d.b\x7b@include m\x7d".toList rfl
    ⟨by decide +kernel, by decide, by decide, by decide⟩ (by decide) (by decide)
    ⟨by decide +kernel, by decide +kernel⟩ solid
  exact ⟨agree.1 rfl, by decide +kernel⟩

end NestedCss
