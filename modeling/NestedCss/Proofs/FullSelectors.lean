import NestedCss.Elaboration
import NestedCss.Proofs.TreeHistories

set_option autoImplicit false

/-! Full selectors, in every tree that operations make. The full selector of a rule is its
own selector joined to the full selector of its parent, so what holds of joined selectors
holds of all of them. The mark alone passes the selector of the parent on as it is, through
any number of rules: a media expansion selects what the rule selects that declares it. And
since no operation changes the selector or the parent of a rule that is there, full
selectors are settled once and for all. -/

namespace NestedCss.RuleTree

/-! ### Along the parents -/

private theorem Parented.parentMark_not_mem_selector {tree : RuleTree} (parented : tree.Parented) :
    ∀ here, here < tree.size → parentMark ∉ tree.selector here := by
  refine parented.induct ?_ ?_
  · rw [selector_of_outermost parented.root_parent]
    exact List.not_mem_nil
  · intro here parent _ _ above ih
    rw [parented.selector_of_parent above]
    exact parentMark_not_mem_joinSelector _ ih

private theorem Parented.selector_of_parentMark {tree : RuleTree} (parented : tree.Parented)
    {here parent : RuleId} (above : (tree.rule here).parent? = some parent)
    (transparent : (tree.rule here).selector = [parentMark]) :
    tree.selector here = tree.selector parent := by
  rw [parented.selector_of_parent above, transparent,
    joinSelector_parentMark _ (parented.trim_selector parent)]

private theorem Parented.selector_of_ancestor {tree : RuleTree} (parented : tree.Parented) :
    ∀ here, here < tree.size → ∀ near ancestor far,
      tree.ancestors here = near ++ ancestor :: far →
      (∀ id ∈ near, (tree.rule id).selector = [parentMark]) →
      tree.selector here = tree.selector ancestor := by
  refine parented.induct ?_ ?_
  · intro near ancestor far split _
    rw [ancestors_of_outermost parented.root_parent] at split
    cases near with
    | nil =>
        injection split with same
        rw [same]
    | cons first others => exact absurd split (by simp)
  · intro here parent _ _ above ih near ancestor far split transparent
    rw [parented.ancestors_of_parent above] at split
    cases near with
    | nil =>
        injection split with same
        rw [same]
    | cons first others =>
        injection split with same further
        subst same
        rw [parented.selector_of_parentMark above (transparent here (List.mem_cons_self ..))]
        exact ih others ancestor far further fun id present =>
          transparent id (List.mem_cons_of_mem _ present)

/-! ### Under operations -/

private theorem rule_selector_perform (tree : RuleTree) (operation : Operation) {id : RuleId}
    (inside : id < tree.size) :
    ((operation.perform tree).rule id).selector = (tree.rule id).selector := by
  have created : ∀ parent selector,
      ((tree.addDetached parent selector).rule id).selector = (tree.rule id).selector :=
    fun parent selector => by rw [rule_addDetached_of_lt tree parent selector inside]
  cases operation with
  | addRule parent selector =>
      exact (read_rule_modify Rule.selector rfl id).trans (created parent selector)
  | addDetached parent selector => exact created parent selector
  | addProperty here property => exact read_rule_modify Rule.selector rfl id
  | addComment here text => exact read_rule_modify Rule.selector rfl id
  | bind here declared => exact read_rule_modify Rule.selector rfl id
  | defineMixin here defined => exact read_rule_modify Rule.selector rfl id
  | attachMedia here block expansion => exact read_rule_modify Rule.selector rfl id

private theorem Parented.selector_perform {tree : RuleTree} (parented : tree.Parented)
    {operation : Operation} (exist : ∀ id ∈ operation.rules, id < tree.size) :
    ∀ here, here < tree.size → (operation.perform tree).selector here = tree.selector here := by
  have performed := parented.perform exist
  have parents : ∀ id, id < tree.size →
      ((operation.perform tree).rule id).parent? = (tree.rule id).parent? := by
    intro id inside
    rw [parent?_perform, if_neg (Nat.ne_of_lt inside)]
  refine parented.induct ?_ ?_
  · rw [selector_of_outermost performed.root_parent, selector_of_outermost parented.root_parent]
  · intro here parent inside _ above ih
    rw [performed.selector_of_parent ((parents here inside).trans above),
      parented.selector_of_parent above, ih, rule_selector_perform tree operation inside]

namespace History

variable {past : List Operation} {tree : RuleTree}

private theorem tree_eq (history : History past tree) :
    tree = past.foldl (fun tree operation => operation.perform tree) empty := by
  induction history with
  | nil => rfl
  | concat _ _ ih => rw [List.foldl_concat, ← ih]

private theorem exists_of_concat {operation : Operation}
    (history : History (past ++ [operation]) tree) :
    ∃ before, History past before ∧ (∀ id ∈ operation.rules, id < before.size) ∧
      tree = operation.perform before := by
  generalize whole : past ++ [operation] = operations at history
  cases history with
  | nil => exact absurd whole (by simp)
  | concat sofar exist =>
      obtain ⟨rfl, same⟩ := List.append_inj' whole rfl
      injection same with same
      subst same
      exact ⟨_, sofar, exist, rfl⟩

private theorem selector_eq (history : History past tree) {further : List Operation} :
    ∀ {later : RuleTree}, History (past ++ further) later → tree.size ≤ later.size ∧
      ∀ here, here < tree.size → later.selector here = tree.selector here := by
  induction further using List.reverseRecOn with
  | nil =>
      intro later goesOn
      rw [List.append_nil] at goesOn
      obtain rfl : later = tree := goesOn.tree_eq.trans history.tree_eq.symm
      exact ⟨Nat.le_refl _, fun _ _ => rfl⟩
  | append_singleton earlier operation ih =>
      intro later goesOn
      rw [← List.append_assoc] at goesOn
      obtain ⟨middle, before, exist, rfl⟩ := goesOn.exists_of_concat
      obtain ⟨grown, kept⟩ := ih before
      refine ⟨?_, fun here inside => ?_⟩
      · rw [size_perform]
        exact grown.trans (Nat.le_add_right _ _)
      · rw [before.parented.selector_perform exist here (inside.trans_le grown), kept here inside]

end History

/-- The full selector of a rule follows the tree. The outermost rule selects nothing, and
every other rule joins its own selector to the full selector of its parent, which is the rule
that it was created under. Full selectors are trimmed and hold no mark. A chain of rules with
the mark alone, as nested media blocks make, selects what the rule above the chain selects.
And no later operation changes what a rule selects. -/
theorem selector_follows_tree {past : List Operation} {tree : RuleTree}
    (history : History past tree) :
    tree.selector root = [] ∧
    (∀ here, here < tree.size → here ≠ root → ∃ parent, (tree.rule here).parent? = some parent ∧
      parentIn past here = some parent ∧ parent < here ∧
      tree.selector here = joinSelector (tree.selector parent) (tree.rule here).selector ∧
      ((tree.rule here).selector = [parentMark] → tree.selector here = tree.selector parent)) ∧
    (∀ here, here < tree.size → (tree.selector here).trim = tree.selector here ∧
      parentMark ∉ tree.selector here) ∧
    (∀ here, here < tree.size → ∀ near ancestor far,
      tree.ancestors here = near ++ ancestor :: far →
      (∀ id ∈ near, (tree.rule id).selector = [parentMark]) →
      tree.selector here = tree.selector ancestor) ∧
    ∀ further later, History (past ++ further) later →
      ∀ here, here < tree.size → later.selector here = tree.selector here := by
  have parented := history.parented
  refine ⟨selector_of_outermost parented.root_parent, ?_, ?_, parented.selector_of_ancestor,
    fun _ _ goesOn => (history.selector_eq goesOn).2⟩
  · intro here inside nested
    obtain ⟨parent, above, older⟩ := parented.parent_lt here inside nested
    exact ⟨parent, above, (history.parent?_eq here).symm.trans above, older,
      parented.selector_of_parent above, parented.selector_of_parentMark above⟩
  · exact fun here inside =>
      ⟨parented.trim_selector here, parented.parentMark_not_mem_selector here inside⟩

/-- A media block in a media block selects what the rule around both selects, also when
another rule with a mark is added below it. -/
theorem selector_follows_tree_through_media :
    let past : List Operation := [.addRule root "nav".toList, .addRule 1 "a ".toList,
      .addRule 2 "&:hover, & + &".toList, .addDetached 3 expansionSelector,
      .addDetached 4 expansionSelector]
    let further : List Operation := [.addRule 5 "i &".toList]
    ∃ tree later, History past tree ∧ History (past ++ further) later ∧
      tree.ancestors 5 = [5, 4, 3, 2, 1, root] ∧
      tree.selector 5 = tree.selector 3 ∧
      tree.selector 3 = joinSelector (tree.selector 2) "&:hover, & + &".toList ∧
      tree.selector 3 = "nav a:hover, nav a + nav a".toList ∧
      later.selector 6 = joinSelector (later.selector 5) "i &".toList ∧
      later.selector 5 = tree.selector 5 := by
  intro past further
  have history : History past (past.foldl (fun tree operation => operation.perform tree) empty) :=
    History.nil |>.concat (by decide) |>.concat (by decide) |>.concat (by decide)
      |>.concat (by decide) |>.concat (by decide)
  have goesOn : History (past ++ further)
      ((past ++ further).foldl (fun tree operation => operation.perform tree) empty) :=
    history.concat (by decide)
  obtain ⟨_, joined, _, passed, kept⟩ := selector_follows_tree history
  obtain ⟨_, joinedLater, _⟩ := selector_follows_tree goesOn
  obtain ⟨parent, above, _, _, same, _⟩ := joined 3 (by decide) (by decide)
  obtain ⟨parentLater, aboveLater, _, _, sameLater, _⟩ := joinedLater 6 (by decide) (by decide)
  obtain rfl : parent = 2 := Option.some.inj (above.symm.trans (by decide))
  obtain rfl : parentLater = 5 := Option.some.inj (aboveLater.symm.trans (by decide))
  exact ⟨_, _, history, goesOn, by decide, passed 5 (by decide) [5, 4] 3 [2, 1, root] (by decide)
    (by decide), same, by decide +kernel, sameLater, kept further _ goesOn 5 (by decide)⟩

end NestedCss.RuleTree
