import NestedCss.Frames
import NestedCss.Proofs.Selector
import NestedCss.RuleTree.Reachable

set_option autoImplicit false

/-! Rule trees in which parents are older than their children. In such a tree the
ancestors of a rule are the rule and the ancestors of its parent, and whatever is
read off them follows the same recursion: the frames that a rule sees, and its full
selector. In the trees that reading makes, links lead to younger rules besides. -/

namespace NestedCss.RuleTree

/-! ### One rule of a changed tree -/

theorem rule_modify_self (tree : RuleTree) {id : RuleId} (change : Rule → Rule)
    (inside : id < tree.size) : (tree.modify id change).rule id = change (tree.rule id) := by
  have present : tree.rules[id]? = some tree.rules[id] := List.getElem?_eq_getElem inside
  simp [rule, modify, present]

theorem rule_modify_of_ne (tree : RuleTree) {id other : RuleId} (change : Rule → Rule)
    (different : other ≠ id) : (tree.modify id change).rule other = tree.rule other := by
  simp [rule, modify, different.symm]

theorem rule_addDetached_of_lt (tree : RuleTree) {id : RuleId} (parent : RuleId) (selector : Text)
    (inside : id < tree.size) : (tree.addDetached parent selector).rule id = tree.rule id := by
  rw [rule, addDetached, List.getElem?_append_left inside]
  rfl

theorem rule_addDetached_size (tree : RuleTree) (parent : RuleId) (selector : Text) :
    (tree.addDetached parent selector).rule tree.size = .fresh selector (some parent) := by
  simp [rule, addDetached, size]

theorem rule_of_size_le (tree : RuleTree) {id : RuleId} (outside : tree.size ≤ id) :
    tree.rule id = .fresh [] none := by
  rw [rule, List.getElem?_eq_none outside]
  rfl

theorem rule_empty (id : RuleId) : empty.rule id = .fresh [] none := by
  cases id with
  | zero => rfl
  | succ id => exact rule_of_size_le empty (Nat.succ_le_succ (Nat.zero_le id))

theorem rule_modify_cases (tree : RuleTree) (id : RuleId) (change : Rule → Rule) (other : RuleId) :
    (tree.modify id change).rule other = tree.rule other ∨
      other = id ∧ (tree.modify id change).rule other = change (tree.rule other) := by
  by_cases same : other = id
  · subst same
    by_cases inside : other < tree.size
    · exact Or.inr ⟨rfl, rule_modify_self tree change inside⟩
    · have outside := Nat.le_of_not_lt inside
      rw [rule_of_size_le tree outside, rule_of_size_le _ (by simpa using outside)]
      exact Or.inl rfl
  · exact Or.inl (rule_modify_of_ne tree change same)

theorem read_rule_modify {α : Type} (read : Rule → α) {tree : RuleTree} {id : RuleId}
    {change : Rule → Rule} (kept : read (change (tree.rule id)) = read (tree.rule id))
    (other : RuleId) : read ((tree.modify id change).rule other) = read (tree.rule other) := by
  rcases rule_modify_cases tree id change other with same | ⟨rfl, same⟩
  · rw [same]
  · rw [same, kept]

theorem read_rule_modify_eq {α : Type} (read : Rule → α) (tree : RuleTree) {here : RuleId}
    (change : Rule → Rule) (inside : here < tree.size) (id : RuleId) :
    read ((tree.modify here change).rule id) =
      if here = id then read (change (tree.rule id)) else read (tree.rule id) := by
  split
  · rename_i same
    subst same
    rw [rule_modify_self tree change inside]
  · rename_i different
    rw [rule_modify_of_ne tree change (Ne.symm different)]

theorem rule_addDetached (tree : RuleTree) (parent : RuleId) (selector : Text) (id : RuleId) :
    (tree.addDetached parent selector).rule id =
      if id = tree.size then .fresh selector (some parent) else tree.rule id := by
  rcases Nat.lt_trichotomy id tree.size with older | rfl | younger
  · rw [rule_addDetached_of_lt tree parent selector older, if_neg (Nat.ne_of_lt older)]
  · rw [rule_addDetached_size, if_pos rfl]
  · rw [rule_of_size_le tree younger.le, if_neg (Nat.ne_of_gt younger), rule_of_size_le]
    rw [size_addDetached]
    exact younger

theorem read_rule_addDetached {α : Type} (read : Rule → α) (tree : RuleTree) {parent : RuleId}
    {selector : Text} (bare : read (.fresh selector (some parent)) = read (.fresh [] none))
    (id : RuleId) : read ((tree.addDetached parent selector).rule id) = read (tree.rule id) := by
  rw [rule_addDetached]
  split
  · rename_i same
    rw [rule_of_size_le tree same.ge, bare]
  · rfl

/-! ### What holds of every rule -/

theorem forall_rule_empty {holds : Rule → Prop} (fresh : holds (.fresh [] none)) (id : RuleId) :
    holds (empty.rule id) := by
  rw [rule_empty]
  exact fresh

theorem forall_rule_modify {holds : Rule → Prop} {tree : RuleTree}
    (before : ∀ id, holds (tree.rule id)) (id : RuleId) {change : Rule → Rule}
    (kept : ∀ rule, holds rule → holds (change rule)) (other : RuleId) :
    holds ((tree.modify id change).rule other) := by
  rcases rule_modify_cases tree id change other with same | ⟨_, same⟩
  · exact same ▸ before other
  · exact same ▸ kept _ (before other)

theorem forall_rule_addDetached {holds : Rule → Prop} {tree : RuleTree}
    (before : ∀ id, holds (tree.rule id)) {parent : RuleId} {selector : Text}
    (fresh : holds (.fresh selector (some parent))) (id : RuleId) :
    holds ((tree.addDetached parent selector).rule id) := by
  rw [rule_addDetached]
  split
  · exact fresh
  · exact before id

/-! ### Parents -/

/-- Every rule but the outermost has an older parent. -/
structure Parented (tree : RuleTree) : Prop where
  root_lt : root < tree.size
  root_parent : (tree.rule root).parent? = none
  parent_lt : ∀ id, id < tree.size → id ≠ root →
    ∃ parent, (tree.rule id).parent? = some parent ∧ parent < id

theorem parented_empty : empty.Parented where
  root_lt := by decide
  root_parent := rfl
  parent_lt := by
    intro id inside different
    have onlyRoot : id < 1 := inside
    exact absurd (Nat.lt_one_iff.mp onlyRoot) different

theorem Parented.lt_of_parent {tree : RuleTree} (parented : tree.Parented) {id parent : RuleId}
    (above : (tree.rule id).parent? = some parent) : parent < id := by
  by_cases inside : id < tree.size
  · by_cases outermost : id = root
    · rw [outermost, parented.root_parent] at above
      cases above
    · obtain ⟨other, found, older⟩ := parented.parent_lt id inside outermost
      rw [above] at found
      injection found with same
      exact same ▸ older
  · rw [rule_of_size_le tree (Nat.le_of_not_lt inside)] at above
    cases above

theorem Parented.modify {tree : RuleTree} (parented : tree.Parented) {id : RuleId}
    {change : Rule → Rule} (sameParent : (change (tree.rule id)).parent? = (tree.rule id).parent?) :
    (tree.modify id change).Parented := by
  have parents := read_rule_modify Rule.parent? sameParent
  constructor
  · rw [size_modify]
    exact parented.root_lt
  · rw [parents]
    exact parented.root_parent
  · intro other inside different
    rw [size_modify] at inside
    rw [parents]
    exact parented.parent_lt other inside different

theorem Parented.addDetached {tree : RuleTree} (parented : tree.Parented) {parent : RuleId}
    (inside : parent < tree.size) (selector : Text) :
    (tree.addDetached parent selector).Parented := by
  constructor
  · rw [size_addDetached]
    exact Nat.lt_succ_of_lt parented.root_lt
  · rw [rule_addDetached_of_lt tree parent selector parented.root_lt]
    exact parented.root_parent
  · intro id within different
    rw [size_addDetached] at within
    rcases Nat.lt_succ_iff_lt_or_eq.mp within with older | rfl
    · rw [rule_addDetached_of_lt tree parent selector older]
      exact parented.parent_lt id older different
    · rw [rule_addDetached_size]
      exact ⟨parent, rfl, inside⟩

/-! ### Ordered trees -/

/-- Beside parents being older, links lead to younger rules of the tree. -/
structure Ordered (tree : RuleTree) : Prop extends Parented tree where
  link_gt : ∀ id, id < tree.size → ∀ link, link ∈ (tree.rule id).links →
    id < link ∧ link < tree.size

theorem ordered_empty : empty.Ordered where
  toParented := parented_empty
  link_gt := by
    intro id inside link present
    have onlyRoot : id < 1 := inside
    obtain rfl := Nat.lt_one_iff.mp onlyRoot
    exact absurd present (List.not_mem_nil)

theorem Ordered.modify {tree : RuleTree} (ordered : tree.Ordered) {id : RuleId}
    {change : Rule → Rule} (sameParent : (change (tree.rule id)).parent? = (tree.rule id).parent?)
    (younger : ∀ link ∈ (change (tree.rule id)).links, id < link ∧ link < tree.size) :
    (tree.modify id change).Ordered where
  toParented := ordered.toParented.modify sameParent
  link_gt := by
    intro other inside link present
    rw [size_modify] at inside ⊢
    rcases rule_modify_cases tree id change other with same | ⟨rfl, same⟩
    · rw [same] at present
      exact ordered.link_gt other inside link present
    · rw [same] at present
      exact younger link present

theorem Ordered.addDetached {tree : RuleTree} (ordered : tree.Ordered) {parent : RuleId}
    (inside : parent < tree.size) (selector : Text) :
    (tree.addDetached parent selector).Ordered where
  toParented := ordered.toParented.addDetached inside selector
  link_gt := by
    intro id within link present
    rw [size_addDetached] at within ⊢
    rcases Nat.lt_succ_iff_lt_or_eq.mp within with older | rfl
    · rw [rule_addDetached_of_lt tree parent selector older] at present
      have placed := ordered.link_gt id older link present
      exact ⟨placed.1, Nat.lt_succ_of_lt placed.2⟩
    · rw [rule_addDetached_size] at present
      cases present

/-! ### Ancestors -/

theorem Parented.chain_eq {tree : RuleTree} (parented : tree.Parented) (here : RuleId) :
    ∀ first second, here < first → here < second →
      tree.chain first here = tree.chain second here := by
  induction here using Nat.strong_induction_on with
  | _ here ih =>
      intro first second enough enoughToo
      obtain ⟨first, rfl⟩ := Nat.exists_eq_add_one_of_ne_zero (Nat.ne_zero_of_lt enough)
      obtain ⟨second, rfl⟩ := Nat.exists_eq_add_one_of_ne_zero (Nat.ne_zero_of_lt enoughToo)
      simp only [chain]
      cases above : (tree.rule here).parent? with
      | none => rfl
      | some parent =>
          have older := parented.lt_of_parent above
          have rest := ih parent older first second
            (Nat.lt_of_lt_of_le older (Nat.le_of_lt_succ enough))
            (Nat.lt_of_lt_of_le older (Nat.le_of_lt_succ enoughToo))
          simp only [rest]

theorem Parented.ancestors_of_parent {tree : RuleTree} (parented : tree.Parented)
    {here parent : RuleId} (above : (tree.rule here).parent? = some parent) :
    tree.ancestors here = here :: tree.ancestors parent := by
  have older := parented.lt_of_parent above
  rw [ancestors, chain, above]
  simp only [ancestors, parented.chain_eq parent here (parent + 1) older (Nat.lt_succ_self parent)]

theorem ancestors_of_outermost {tree : RuleTree} {here : RuleId}
    (outermost : (tree.rule here).parent? = none) : tree.ancestors here = [here] := by
  rw [ancestors, chain, outermost]

/-- Facts about all rules of a tree follow the chain of parents. -/
theorem Parented.induct {tree : RuleTree} (parented : tree.Parented) {motive : RuleId → Prop}
    (outermost : motive root)
    (child : ∀ here parent, here < tree.size → parent < here →
      (tree.rule here).parent? = some parent → motive parent → motive here) :
    ∀ here, here < tree.size → motive here := by
  intro here
  induction here using Nat.strong_induction_on with
  | _ here ih =>
      intro inside
      by_cases top : here = root
      · exact top ▸ outermost
      · obtain ⟨parent, above, older⟩ := parented.parent_lt here inside top
        exact child here parent inside older above (ih parent older (older.trans inside))

theorem exists_ancestors_eq_cons (tree : RuleTree) (here : RuleId) :
    ∃ above, tree.ancestors here = here :: above := ⟨_, rfl⟩

theorem Parented.le_of_mem_ancestors {tree : RuleTree} (parented : tree.Parented) :
    ∀ here, here < tree.size → ∀ above ∈ tree.ancestors here, above ≤ here := by
  refine parented.induct ?_ ?_
  · intro above present
    rw [ancestors_of_outermost parented.root_parent, List.mem_singleton] at present
    exact present.le
  · intro here parent _ older above ih other present
    rw [parented.ancestors_of_parent above, List.mem_cons] at present
    rcases present with rfl | further
    · exact Nat.le_refl _
    · exact (ih other further).trans older.le

theorem Parented.pairwise_ancestors {tree : RuleTree} (parented : tree.Parented) :
    ∀ here, here < tree.size → (tree.ancestors here).Pairwise (· > ·) := by
  refine parented.induct ?_ ?_
  · rw [ancestors_of_outermost parented.root_parent]
    exact List.pairwise_singleton _ _
  · intro here parent inside older above ih
    rw [parented.ancestors_of_parent above, List.pairwise_cons]
    refine ⟨?_, ih⟩
    intro other further
    exact (parented.le_of_mem_ancestors parent (older.trans inside) other further).trans_lt older

theorem Parented.getLast?_ancestors {tree : RuleTree} (parented : tree.Parented) :
    ∀ here, here < tree.size → (tree.ancestors here).getLast? = some root := by
  refine parented.induct ?_ ?_
  · rw [ancestors_of_outermost parented.root_parent]
    rfl
  · intro here parent _ _ above ih
    obtain ⟨rest, same⟩ := tree.exists_ancestors_eq_cons parent
    rw [parented.ancestors_of_parent above, same, List.getLast?_cons_cons, ← same]
    exact ih

theorem Parented.isChain_ancestors {tree : RuleTree} (parented : tree.Parented) :
    ∀ here, here < tree.size →
      (tree.ancestors here).IsChain fun id above => (tree.rule id).parent? = some above := by
  refine parented.induct ?_ ?_
  · rw [ancestors_of_outermost parented.root_parent]
    exact .singleton _
  · intro here parent _ _ above ih
    obtain ⟨rest, same⟩ := tree.exists_ancestors_eq_cons parent
    rw [parented.ancestors_of_parent above, same, List.isChain_cons_cons, ← same]
    exact ⟨above, ih⟩

/-! ### Frames and selectors along the chain -/

def frame (tree : RuleTree) (here : RuleId) : Frame :=
  ⟨(tree.rule here).bindings, (tree.rule here).mixins⟩

/-- The frames that a rule sees, its own first. -/
def frames (tree : RuleTree) (here : RuleId) : Frames := (tree.ancestors here).map tree.frame

theorem Parented.frames_of_parent {tree : RuleTree} (parented : tree.Parented)
    {here parent : RuleId} (above : (tree.rule here).parent? = some parent) :
    tree.frames here = tree.frame here :: tree.frames parent := by
  rw [frames, parented.ancestors_of_parent above, List.map_cons, frames]

theorem Parented.frames_root {tree : RuleTree} (parented : tree.Parented) :
    tree.frames root = [tree.frame root] := by
  rw [frames, ancestors_of_outermost parented.root_parent, List.map_singleton]

theorem lookup_frames (tree : RuleTree) (here : RuleId) (name : Text) :
    (tree.frames here).lookup name = tree.lookup here name := by
  simp only [Frames.lookup, frames, lookup, List.findSome?_map]
  rfl

theorem findMixin_frames (tree : RuleTree) (here : RuleId) (name : Text) :
    (tree.frames here).findMixin name = tree.findMixin here name := by
  simp only [Frames.findMixin, frames, findMixin, List.findSome?_map]
  rfl

theorem substitute_frames (tree : RuleTree) (here : RuleId) (value : Text) (location : Location) :
    (tree.frames here).substitute value location = tree.substitute here value location := by
  unfold Frames.substitute substitute resolve
  cases Reference.ofValue? value.trim with
  | none => rfl
  | some reference =>
      simp only [lookup_frames]
      cases tree.lookup here reference.name <;> rfl

theorem Parented.selector_of_parent {tree : RuleTree} (parented : tree.Parented)
    {here parent : RuleId} (above : (tree.rule here).parent? = some parent) :
    tree.selector here = joinSelector (tree.selector parent) (tree.rule here).selector := by
  have nested : (tree.rule here).isRoot = false := by simp [Rule.isRoot, above]
  rw [selector, parented.ancestors_of_parent above, List.map_cons, List.foldr_cons, nested]
  rfl

theorem selector_of_outermost {tree : RuleTree} {here : RuleId}
    (outermost : (tree.rule here).parent? = none) : tree.selector here = [] := by
  have top : (tree.rule here).isRoot = true := by simp [Rule.isRoot, outermost]
  rw [selector, ancestors_of_outermost outermost]
  simp [top]

theorem Parented.trim_selector {tree : RuleTree} (parented : tree.Parented) (here : RuleId) :
    (tree.selector here).trim = tree.selector here := by
  cases above : (tree.rule here).parent? with
  | none => rw [selector_of_outermost above]; rfl
  | some parent => rw [parented.selector_of_parent above, trim_joinSelector]

end NestedCss.RuleTree
