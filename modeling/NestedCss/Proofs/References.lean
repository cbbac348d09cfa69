import NestedCss.Proofs.Definitions
import NestedCss.Proofs.Placements

set_option autoImplicit false

/-! Which references are resolved. The reference of a property is looked up when the
property takes its turn, and if no enclosing rule binds it the compilation fails. It gives
way to the bound value, which is not read any further: if that value begins with a
reference again, this reference is written out as it stands. -/

namespace NestedCss

open RuleTree

/-! ### What is declared -/

/-- What a property comes to in a rule, once the reference at its start is replaced. -/
inductive Node.Declares (site : Site) (tree : RuleTree) : Node → Property → Prop
  | property {declared : Property} {value : Text}
      (meant : tree.substitute site.rule declared.value declared.location = .ok value) :
      Declares site tree (.property declared) { declared with value }

namespace RuleTree

def Declared (past : List Turn) (tree : RuleTree) : Prop :=
  ∀ id property, Child.property property ∈ (tree.rule id).children ↔
    ∃ turn ∈ past, turn.site.rule = id ∧ turn.node.Declares turn.site turn.tree property

private theorem property_mem_addChild {tree : RuleTree} {here : RuleId} (inside : here < tree.size)
    (child : Child) (id : RuleId) (property : Property) :
    Child.property property ∈ ((tree.addChild here child).rule id).children ↔
      Child.property property ∈ (tree.rule id).children ∨
        here = id ∧ child = .property property := by
  by_cases own : here = id
  · subst own
    rw [addChild, rule_modify_self tree _ inside, List.mem_append, List.mem_singleton]
    simp only [true_and, eq_comm]
  · rw [addChild, rule_modify_of_ne tree _ (Ne.symm own)]
    simp only [own, false_and, or_false]

end RuleTree

private theorem Node.Leaves.property_mem_iff {site : Site} {tree next : RuleTree} {node : Node}
    (inside : site.rule < tree.size) (leaves : node.Leaves site tree next) (id : RuleId)
    (property : Property) :
    Child.property property ∈ (next.rule id).children ↔
      Child.property property ∈ (tree.rule id).children ∨
        site.rule = id ∧ node.Declares site tree property := by
  have unchanged : (∀ declared, node ≠ .property declared) →
      (Child.property property ∈ (next.rule id).children ↔
        Child.property property ∈ (tree.rule id).children) →
      (Child.property property ∈ (next.rule id).children ↔
        Child.property property ∈ (tree.rule id).children ∨
          site.rule = id ∧ node.Declares site tree property) := by
    intro other same
    rw [same, or_iff_left]
    rintro ⟨_, declares⟩
    cases declares with
    | property meant => exact other _ rfl
  cases leaves with
  | binding declared =>
      apply unchanged (fun _ same => by cases same)
      rw [RuleTree.bind, read_rule_modify Rule.children rfl]
  | @property declared value meant =>
      rw [property_mem_addChild inside]
      apply or_congr_right
      apply and_congr_right
      intro _
      constructor
      · intro same
        injection same with same
        exact same ▸ .property meant
      · intro declares
        cases declares with
        | property again =>
            rw [meant] at again
            injection again with same
            rw [same]
  | comment text =>
      apply unchanged (fun _ same => by cases same)
      rw [property_mem_addChild inside, or_iff_left]
      exact fun same => by cases same.2
  | mixin defined =>
      apply unchanged (fun _ same => by cases same)
      rw [defineMixin, read_rule_modify Rule.children rfl]
  | media block =>
      apply unchanged (fun _ same => by cases same)
      rw [addMedia, attachMedia, read_rule_modify Rule.children rfl,
        read_rule_addDetached Rule.children tree rfl]
  | inclusion request => exact unchanged (fun _ same => by cases same) Iff.rfl
  | rule selector body =>
      apply unchanged (fun _ same => by cases same)
      have wider : site.rule < (tree.addDetached site.rule selector).size := by
        rw [size_addDetached]
        exact Nat.lt_succ_of_lt inside
      rw [addRule, property_mem_addChild wider, read_rule_addDetached Rule.children tree rfl,
        or_iff_left]
      exact fun same => by cases same.2

private theorem RuleTree.Declared.leaves {past : List Turn} {turn : Turn} {next : RuleTree}
    (declared : turn.tree.Declared past) (inside : turn.site.rule < turn.tree.size)
    (leaves : turn.node.Leaves turn.site turn.tree next) : next.Declared (past ++ [turn]) := by
  intro id property
  rw [leaves.property_mem_iff inside, declared id property]
  constructor
  · rintro (⟨earlier, present, declares⟩ | declares)
    · exact ⟨earlier, List.mem_append_left _ present, declares⟩
    · exact ⟨turn, List.mem_append_right _ (List.mem_singleton_self turn), declares⟩
  · rintro ⟨other, present, declares⟩
    rcases List.mem_append.mp present with earlier | last
    · exact Or.inl ⟨other, earlier, declares⟩
    · rw [List.mem_singleton.mp last] at declares
      exact Or.inr declares

private theorem RuleTree.declared_empty : RuleTree.empty.Declared [] := by
  intro id property
  rw [rule_empty]
  constructor
  · exact fun present => absurd present List.not_mem_nil
  · rintro ⟨turn, present, _⟩
    exact absurd present List.not_mem_nil

private theorem declared_of_ofSource {options : CompileOptions} {source : Text} {tree : RuleTree}
    (ended : (RuleTree.ofSource options source).outcome = .ok tree) :
    tree.Declared (turns options source) := by
  apply (follow_turns ended).keeps _ [] declared_empty
  intro turn present past next declared leaves
  exact declared.leaves (within_of_mem_turns present).inside leaves

/-! ### What is passed on -/

/-- A property whose reference is bound to a value that makes it begin with a reference
again. -/
inductive Node.PassesOn (site : Site) (tree : RuleTree) : Node → Prop
  | property {declared : Property} {reference : Reference} {bound : Binding}
      (refers : Reference.ofValue? declared.value.trim = some reference)
      (found : tree.lookup site.rule reference.name = some bound)
      (again : (bound.value ++ reference.rest).trim.head? = some '$') :
      PassesOn site tree (.property declared)

private theorem Node.Declares.head?_iff {site : Site} {tree : RuleTree} {node : Node}
    {property : Property} (declares : node.Declares site tree property) :
    property.value.trim.head? = some '$' ↔ node.PassesOn site tree := by
  cases declares with
  | @property declared value meant =>
      unfold substitute at meant
      cases referring : Reference.ofValue? declared.value.trim with
      | none =>
          simp only [referring] at meant
          injection meant with same
          subst same
          constructor
          · intro begins
            simp only [Text.trim_trim] at begins
            exact absurd begins ((Reference.ofValue?_eq_none_iff _).mp referring)
          · intro passes
            cases passes with
            | property refers _ _ => cases referring.symm.trans refers
      | some reference =>
          simp only [referring, resolve] at meant
          cases found : tree.lookup site.rule reference.name with
          | none =>
              simp only [found] at meant
              cases meant
          | some bound =>
              simp only [found] at meant
              injection meant with same
              subst same
              constructor
              · intro again
                exact .property referring found again
              · intro passes
                cases passes with
                | property refers foundToo again =>
                    injection referring.symm.trans refers with sameReference
                    subst sameReference
                    injection found.symm.trans foundToo with sameBinding
                    subst sameBinding
                    exact again

private theorem Node.PassesOn.declares {site : Site} {tree : RuleTree} {node : Node}
    (passes : node.PassesOn site tree) :
    ∃ property, node.Declares site tree property ∧ property.value.trim.head? = some '$' := by
  cases passes with
  | @property declared reference bound refers found again =>
      have meant : tree.substitute site.rule declared.value declared.location =
          .ok (bound.value ++ reference.rest) := by
        unfold substitute resolve
        simp only [refers, found]
        rfl
      exact ⟨_, .property meant, again⟩

/-! ### What is written out -/

private theorem RuleTree.Rendered.declaration_mem_iff {tree : RuleTree} {items : Sheet}
    (rendered : tree.Rendered items) (key value : Text) :
    (∃ placement ∈ Sheet.placements [] items, Line.declaration key value ∈ placement.lines) ↔
      ∃ id, tree.selector id ≠ [] ∧ ∃ property, Child.property property ∈ (tree.rule id).children ∧
        (Child.property property).Writes (.declaration key value) := by
  obtain ⟨order, everyRule, placed⟩ := rendered.placed
  rw [placed]
  constructor
  · rintro ⟨placement, present, line⟩
    obtain ⟨id, _, same⟩ := List.mem_filterMap.mp present
    unfold placement? at same
    split at same
    · cases same
    · rename_i spoken
      injection same with same
      subst same
      obtain ⟨child, listed, written⟩ := List.mem_filterMap.mp line
      have writes := (child.line?_eq_some_iff _).mp written
      cases writes with
      | @declaration property wanted =>
          exact ⟨id, fun bare => spoken (Or.inl bare), property, listed, .declaration wanted⟩
  · rintro ⟨id, selecting, property, listed, writes⟩
    have inside : id < tree.size := by
      by_contra outside
      rw [rule_of_size_le tree (Nat.le_of_not_lt outside)] at listed
      exact absurd listed List.not_mem_nil
    have line : Line.declaration key value ∈ (tree.rule id).lines :=
      List.mem_filterMap.mpr ⟨_, listed, (Child.line?_eq_some_iff _ _).mpr writes⟩
    have spoken : ¬ (tree.selector id = [] ∨ (tree.rule id).lines = []) := by
      rintro (bare | silent)
      · exact selecting bare
      · rw [silent] at line
        exact absurd line List.not_mem_nil
    refine ⟨⟨tree.wrappers id, tree.selector id, (tree.rule id).lines⟩, ?_, line⟩
    apply List.mem_filterMap.mpr
    refine ⟨id, everyRule.mem_iff.mpr (List.mem_range.mpr inside), ?_⟩
    rw [placement?, if_neg spoken]

/-- Properties that refer to what no enclosing rule binds fail a compilation, and nothing
else fails it in this way. -/
theorem outcome_ofSource_eq_unresolvedVariable_iff {options : CompileOptions}
    {source name : Text} {location : Location} :
    (RuleTree.ofSource options source).outcome = .error ⟨.unresolvedVariable name, location⟩ ↔
      ∃ turn ∈ turns options source,
        turn.node.Misses turn.site turn.tree ⟨.unresolvedVariable name, location⟩ := by
  constructor
  · intro failed
    rcases exists_turn_of_error failed with ⟨turn, present, quiet, failedThere⟩ | other |
      ⟨context?, other⟩
    · rcases applyNode_error_cases failedThere with misses | ⟨call, calls, _⟩
      · exact ⟨turn, present, misses⟩
      · cases quiet.symm.trans calls
    · cases other
    · cases other
  · rintro ⟨turn, present, misses⟩
    apply ofSource_fails_of_turn present
    obtain ⟨levels, site, expanding, tree, node⟩ := turn
    cases misses with
    | unbound refers missing =>
        simp only [Turn.run, applyNode, substitute, refers, resolve, missing]
        rfl

/-- A value is written out with a reference at its start exactly where a property passes one
on in a rule that selects something. -/
theorem dollar_written_iff {options : CompileOptions} {source : Text} {tree : RuleTree}
    (ended : (RuleTree.ofSource options source).outcome = .ok tree) :
    (∃ placement ∈ Sheet.placements [] tree.sheet, ∃ key value,
        Line.declaration key value ∈ placement.lines ∧ value.head? = some '$') ↔
      ∃ turn ∈ turns options source, turn.node.PassesOn turn.site turn.tree ∧
        tree.selector turn.site.rule ≠ [] := by
  have rendered := (linked_ofSource ended).rendered (ordered_ofSource ended)
  have declared := declared_of_ofSource ended
  constructor
  · rintro ⟨placement, placed, key, value, line, begins⟩
    obtain ⟨id, selecting, property, listed, writes⟩ :=
      (rendered.declaration_mem_iff key value).mp ⟨placement, placed, line⟩
    obtain ⟨turn, present, here, declares⟩ := (declared id property).mp listed
    cases writes with
    | declaration wanted =>
        exact ⟨turn, present, declares.head?_iff.mp begins, by rw [here]; exact selecting⟩
  · rintro ⟨turn, present, passes, selecting⟩
    obtain ⟨property, declares, begins⟩ := passes.declares
    have listed := (declared turn.site.rule property).mpr ⟨turn, present, rfl, declares⟩
    have wanted : property.value.trim ∉ [[], "null".toList, "undefined".toList] := by
      obtain ⟨rest, same⟩ := List.head?_eq_some_iff.mp begins
      rw [same]
      simp
    obtain ⟨placement, placed, line⟩ := (rendered.declaration_mem_iff _ _).mpr
      ⟨turn.site.rule, selecting, property, listed, .declaration wanted⟩
    exact ⟨placement, placed, _, _, line, begins⟩

/-- A reference that no enclosing rule binds fails the compilation at its property, and
nothing else fails for such a reason. A compilation that succeeds writes out a value that
begins with a reference exactly where a property passes one on in a rule that selects
something. -/
theorem references_resolve_once (options : CompileOptions) (source : Text) :
    (∀ (name : Text) (location : Location),
      (RuleTree.ofSource options source).outcome = .error ⟨.unresolvedVariable name, location⟩ ↔
        ∃ turn ∈ turns options source,
          turn.node.Misses turn.site turn.tree ⟨.unresolvedVariable name, location⟩) ∧
    ∀ tree, (RuleTree.ofSource options source).outcome = .ok tree →
      (compileSource options source).outcome = .ok (Sheet.text tree.sheet) ∧
      ((∃ placement ∈ Sheet.placements [] tree.sheet, ∃ key value,
          Line.declaration key value ∈ placement.lines ∧ value.head? = some '$') ↔
        ∃ turn ∈ turns options source, turn.node.PassesOn turn.site turn.tree ∧
          tree.selector turn.site.rule ≠ []) := by
  constructor
  · exact fun name location => outcome_ofSource_eq_unresolvedVariable_iff
  · intro tree ended
    exact ⟨Traced.outcome_map_eq_ok.mpr ⟨tree, ended, rfl⟩, dollar_written_iff ended⟩

/-- A variable that is bound to a reference, and a variable that is not bound. -/
theorem references_resolve_once_of_chain :
    let source := "$b:red;$a:$b;.x\x7bcolor:$a;\x7d".toList
    (∃ tree, (RuleTree.ofSource {} source).outcome = .ok tree ∧
      ∃ turn ∈ turns {} source, turn.node.PassesOn turn.site turn.tree ∧
        tree.selector turn.site.rule ≠ []) ∧
    ∃ turn ∈ turns {} ".x\x7bcolor:$a;\x7d".toList,
      turn.node.Misses turn.site turn.tree ⟨.unresolvedVariable "a".toList, ⟨1, 4⟩⟩ := by
  intro source
  constructor
  · have written : ((RuleTree.ofSource {} source).map fun tree =>
        (Sheet.placements [] tree.sheet).map Placement.lines).outcome =
        .ok [[.declaration "color".toList "$b".toList]] := by decide +kernel
    obtain ⟨tree, ended, same⟩ := Traced.outcome_map_eq_ok.mp written
    refine ⟨tree, ended, ((references_resolve_once {} source).2 tree ended).2.mp ?_⟩
    have line : [Line.declaration "color".toList "$b".toList] ∈
        (Sheet.placements [] tree.sheet).map Placement.lines := by
      rw [same]
      exact List.mem_singleton_self _
    obtain ⟨placement, placed, lines⟩ := List.mem_map.mp line
    refine ⟨placement, placed, "color".toList, "$b".toList, ?_, rfl⟩
    rw [lines]
    exact List.mem_singleton_self _
  · apply ((references_resolve_once {} _).1 _ _).mp
    have failed : ((RuleTree.ofSource {} ".x\x7bcolor:$a;\x7d".toList).map RuleTree.size).outcome =
        .error ⟨.unresolvedVariable "a".toList, ⟨1, 4⟩⟩ := by decide +kernel
    exact Traced.outcome_map_eq_error.mp failed

/-- A reference that is bound but not resolved, and one that is not even bound. -/
theorem dangling_references_written :
    (compileSource {} "$b:red;$a:$b;.x\x7bcolor:$a;\x7d".toList).outcome =
      .ok ".x\x7bcolor:$b;\x7d".toList ∧
    (compileSource {} "$a:$b;.x\x7bcolor:$a;\x7d".toList).outcome =
      .ok ".x\x7bcolor:$b;\x7d".toList := by
  constructor
  · decide +kernel
  · decide +kernel

end NestedCss
