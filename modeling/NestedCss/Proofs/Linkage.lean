import Mathlib.Data.List.Nodup
import NestedCss.Proofs.Reading
import NestedCss.Proofs.Rendering

set_option autoImplicit false

/-! How the rules of a tree hang together. Reading links each rule from its parent and
from nowhere else, once, as a nested rule or as the expansion of a media block. Hence
the links form a tree with the outermost rule at its top: one path leads to each rule,
which is the chain of its ancestors backwards, and writing the sheet passes each rule
once. -/

namespace NestedCss

open RuleTree

namespace RuleTree

/-- A rule is linked from its parent, once, and from nowhere else. -/
structure Linked (tree : RuleTree) : Prop where
  mem_links_iff : ∀ here id, id ∈ (tree.rule here).links ↔ (tree.rule id).parent? = some here
  nodup_links : ∀ here, (tree.rule here).links.Nodup

private theorem linked_empty : empty.Linked where
  mem_links_iff := by
    intro here id
    rw [rule_empty, rule_empty]
    exact iff_of_false (List.not_mem_nil) (fun impossible => by cases impossible)
  nodup_links := by
    intro here
    rw [rule_empty]
    exact List.nodup_nil

variable {tree : RuleTree}

private theorem Linked.modify (linked : tree.Linked) (id : RuleId) {change : Rule → Rule}
    (placed : ∀ rule, (change rule).parent? = rule.parent?)
    (kept : ∀ rule, (change rule).links = rule.links) : (tree.modify id change).Linked where
  mem_links_iff := by
    intro here other
    rw [read_rule_modify Rule.links (kept _), read_rule_modify Rule.parent? (placed _)]
    exact linked.mem_links_iff here other
  nodup_links := by
    intro here
    rw [read_rule_modify Rule.links (kept _)]
    exact linked.nodup_links here

private theorem Linked.attach (linked : tree.Linked) {here : RuleId} (inside : here < tree.size)
    (selector : Text) {change : Rule → Rule}
    (placed : ∀ rule, (change rule).parent? = rule.parent?)
    (linking : (change (tree.rule here)).links.Perm (tree.size :: (tree.rule here).links)) :
    ((tree.addDetached here selector).modify here change).Linked := by
  have outside : tree.rule tree.size = .fresh [] none := rule_of_size_le tree (Nat.le_refl _)
  have parents : ∀ id, (((tree.addDetached here selector).modify here change).rule id).parent? =
      if id = tree.size then some here else (tree.rule id).parent? := by
    intro id
    rw [read_rule_modify Rule.parent? (placed _), rule_addDetached]
    split <;> rfl
  have links : ∀ other, (((tree.addDetached here selector).modify here change).rule other).links.Perm
      (if other = here then tree.size :: (tree.rule here).links else (tree.rule other).links) := by
    intro other
    by_cases same : other = here
    · subst same
      rw [rule_modify_self _ _ (by rw [size_addDetached]; exact Nat.lt_succ_of_lt inside),
        rule_addDetached_of_lt tree _ _ inside, if_pos rfl]
      exact linking
    · rw [rule_modify_of_ne _ _ same, rule_addDetached, if_neg same]
      split
      · rename_i newest
        rw [newest, outside]
        exact .refl []
      · exact .refl _
  -- The number of the new rule is nobody's child so far.
  have unlinked : ∀ other, tree.size ∉ (tree.rule other).links := by
    intro other present
    rw [linked.mem_links_iff, outside] at present
    cases present
  constructor
  · intro other id
    rw [(links other).mem_iff, parents id]
    by_cases newest : id = tree.size
    · subst newest
      rw [if_pos rfl, Option.some_inj]
      split
      · rename_i same
        exact iff_of_true (List.mem_cons_self ..) same.symm
      · rename_i different
        exact iff_of_false (unlinked other) (Ne.symm different)
    · rw [if_neg newest, ← linked.mem_links_iff other id]
      split
      · rename_i same
        rw [same, List.mem_cons, or_iff_right newest]
      · rfl
  · intro other
    rw [(links other).nodup_iff]
    split
    · exact List.nodup_cons.mpr ⟨unlinked here, linked.nodup_links here⟩
    · exact linked.nodup_links other

private theorem Linked.addRule (linked : tree.Linked) {here : RuleId} (inside : here < tree.size)
    (selector : Text) : (tree.addRule here selector).Linked := by
  refine linked.attach inside selector (fun _ => rfl) ?_
  simp only [Rule.links, Rule.nested, List.filterMap_append, List.filterMap_cons,
    List.filterMap_nil, Child.rule?, List.append_assoc, List.singleton_append]
  exact List.perm_middle

private theorem Linked.addMedia (linked : tree.Linked) {here : RuleId} (inside : here < tree.size)
    (block : MediaBlock) : (tree.addMedia here block).Linked := by
  refine linked.attach inside expansionSelector (fun _ => rfl) ?_
  simp only [Rule.links, List.map_append, List.map_cons, List.map_nil, ← List.append_assoc]
  exact List.perm_append_singleton _ _

end RuleTree

private theorem linked_kept : KeptByReading (fun _ => True) Linked := by
  refine .of_operations ?_ ?_ ?_ ?_ ?_
  · exact fun _ _ _ _ _ linked => linked.modify _ (fun _ => rfl) fun _ => rfl
  · intro tree here child _ _ linked plain
    refine linked.modify _ (fun _ => rfl) fun rule => ?_
    simp only [Rule.links, Rule.nested, List.filterMap_append, List.filterMap_cons, plain,
      List.filterMap_nil, List.append_nil]
  · exact fun _ _ _ _ _ linked => linked.modify _ (fun _ => rfl) fun _ => rfl
  · exact fun _ _ block _ inside linked => linked.addMedia inside block
  · exact fun _ _ selector _ inside linked => linked.addRule inside selector

theorem linked_ofSource {options : CompileOptions} {source : Text} {tree : RuleTree}
    (ended : (ofSource options source).outcome = .ok tree) : tree.Linked := by
  have within : (Call.ofSource source).Within (fun _ => True) Linked :=
    ⟨ordered_empty, ordered_empty.root_lt, fun _ _ => True.intro, linked_empty⟩
  exact linked_kept.run (nestingLimit + 1) (.ofSource source) rfl within ended

namespace RuleTree

variable {tree : RuleTree}

/-! ### References -/

private theorem rules_eq_map_range (tree : RuleTree) : tree.rules =
    (List.range tree.size).map tree.rule := by
  refine List.ext_getElem (by simp [size]) fun index inside _ => ?_
  rw [List.getElem_map, List.getElem_range, rule, List.getElem?_eq_getElem inside]
  rfl

private theorem count_flatMap_links (rules : List Rule) (id : RuleId) :
    (rules.flatMap Rule.links).count id =
      (rules.flatMap Rule.nested).count id +
        ((rules.flatMap Rule.media).map MediaEntry.expansion).count id := by
  induction rules with
  | nil => rfl
  | cons rule rest ih =>
      simp only [List.flatMap_cons, List.map_append, List.count_append, ih, Rule.links]
      omega

private theorem Linked.nodup_references (linked : tree.Linked) :
    (tree.rules.flatMap Rule.links).Nodup := by
  rw [rules_eq_map_range, List.flatMap_map, List.nodup_flatMap]
  refine ⟨fun here _ => linked.nodup_links here, ?_⟩
  refine List.nodup_range.pairwise_of_forall_ne ?_
  intro here _ other _ different id present presentToo
  have parent := (linked.mem_links_iff here id).mp present
  have parentToo := (linked.mem_links_iff other id).mp presentToo
  rw [parent] at parentToo
  exact different (Option.some.inj parentToo)

private theorem Linked.count_references (linked : tree.Linked) (ordered : tree.Ordered)
    {id : RuleId} (inside : id < tree.size) (nested : id ≠ root) :
    (tree.rules.flatMap Rule.links).count id = 1 := by
  obtain ⟨parent, above, older⟩ := ordered.parent_lt id inside nested
  refine List.count_eq_one_of_mem linked.nodup_references ?_
  rw [rules_eq_map_range, List.flatMap_map, List.mem_flatMap]
  exact ⟨parent, List.mem_range.mpr (older.trans inside), (linked.mem_links_iff parent id).mpr above⟩

/-! ### Paths -/

inductive Path (tree : RuleTree) : RuleId → RuleId → List RuleId → Prop
  | here (id : RuleId) : Path tree id id [id]
  | step {id link last : RuleId} {rest : List RuleId} (linked : link ∈ (tree.rule id).links)
      (further : Path tree link last rest) : Path tree id last (id :: rest)

private theorem Path.concat {first last link : RuleId} {ids : List RuleId}
    (path : tree.Path first last ids) (linked : link ∈ (tree.rule last).links) :
    tree.Path first link (ids ++ [link]) := by
  induction path with
  | here id => exact .step linked (.here link)
  | step downwards _ ih => exact .step downwards (ih linked)

theorem Path.ancestors_eq (ordered : tree.Ordered) (linked : tree.Linked) {first last : RuleId}
    {ids : List RuleId} (path : tree.Path first last ids) :
    tree.ancestors last = ids.reverse ++ (tree.ancestors first).tail := by
  induction path with
  | here id => rfl
  | @step id link last rest downwards _ ih =>
      have above := (linked.mem_links_iff id link).mp downwards
      obtain ⟨others, same⟩ := tree.exists_ancestors_eq_cons id
      rw [ih, ordered.ancestors_of_parent above, same]
      simp

theorem Path.last_lt (ordered : tree.Ordered) {first last : RuleId} {ids : List RuleId}
    (path : tree.Path first last ids) (inside : first < tree.size) : last < tree.size := by
  induction path with
  | here id => exact inside
  | step downwards _ ih => exact ih (ordered.link_gt _ inside _ downwards).2

private theorem Path.first_mem_ancestors (ordered : tree.Ordered) (linked : tree.Linked)
    {first last : RuleId} {ids : List RuleId} (path : tree.Path first last ids) :
    first ∈ tree.ancestors last := by
  rw [path.ancestors_eq ordered linked]
  refine List.mem_append_left _ (List.mem_reverse.mpr ?_)
  cases path with
  | here id => exact List.mem_singleton_self _
  | step _ _ => exact List.mem_cons_self ..

private theorem Linked.path_ancestors (linked : tree.Linked) (ordered : tree.Ordered) :
    ∀ here, here < tree.size → tree.Path root here (tree.ancestors here).reverse := by
  refine ordered.induct ?_ ?_
  · rw [ancestors_of_outermost ordered.root_parent]
    exact .here root
  · intro here parent _ _ above ih
    rw [ordered.ancestors_of_parent above, List.reverse_cons]
    exact ih.concat ((linked.mem_links_iff parent here).mpr above)

private theorem Linked.existsUnique_path (linked : tree.Linked) (ordered : tree.Ordered)
    {here : RuleId} (inside : here < tree.size) : ∃! ids, tree.Path root here ids := by
  refine ⟨_, linked.path_ancestors ordered here inside, ?_⟩
  intro ids path
  have backwards := path.ancestors_eq ordered linked
  rw [ancestors_of_outermost ordered.root_parent, List.tail_cons, List.append_nil] at backwards
  rw [backwards, List.reverse_reverse]

/-! ### Passing through the tree -/

/-- The sheet of a rule and of all that is below it, together with the rules that were
passed to make it, in that order. -/
def sheetPassing (tree : RuleTree) : Nat → RuleId → Sheet × List RuleId
  | 0, _ => ([], [])
  | levels + 1, here =>
      let rule := tree.rule here
      let nested := rule.nested.map (tree.sheetPassing levels)
      let media := rule.media.map fun entry =>
        (entry.block.query, tree.sheetPassing levels entry.expansion)
      (Sheet.block (tree.selector here) rule.lines ++ nested.flatMap Prod.fst ++
          media.flatMap fun inner => Sheet.media inner.1 inner.2.1,
        here :: (nested.flatMap Prod.snd ++ media.flatMap fun inner => inner.2.2))

private theorem sheetPassing_eq (tree : RuleTree) (levels : Nat) (here : RuleId) :
    tree.sheetPassing levels here = (tree.sheetWithin levels here, tree.passed levels here) := by
  induction levels generalizing here with
  | zero => rfl
  | succ levels ih =>
      simp only [sheetPassing, sheetWithin, passed, Rule.links, List.flatMap_map, ih,
        List.flatMap_append]

private theorem exists_path_of_mem_passed (tree : RuleTree) (levels : Nat) :
    ∀ here, ∀ id ∈ tree.passed levels here, ∃ ids, tree.Path here id ids := by
  induction levels with
  | zero => exact fun here id present => absurd present (List.not_mem_nil)
  | succ levels ih =>
      intro here id present
      rcases List.mem_cons.mp present with rfl | below
      · exact ⟨[id], .here id⟩
      · obtain ⟨link, downwards, further⟩ := List.mem_flatMap.mp below
        obtain ⟨ids, path⟩ := ih link id further
        exact ⟨here :: ids, .step downwards path⟩

private theorem Path.mem_passed {first last : RuleId} {ids : List RuleId}
    (path : tree.Path first last ids) :
    ∀ levels, ids.length ≤ levels → last ∈ tree.passed levels first := by
  induction path with
  | here id =>
      intro levels enough
      obtain ⟨inner, rfl⟩ := Nat.exists_eq_add_one_of_ne_zero (Nat.ne_of_gt enough)
      exact List.mem_cons_self ..
  | step downwards _ ih =>
      intro levels enough
      rw [List.length_cons] at enough
      obtain ⟨inner, rfl⟩ := Nat.exists_eq_add_one_of_ne_zero (Nat.ne_zero_of_lt enough)
      refine List.mem_cons_of_mem _ (List.mem_flatMap.mpr ⟨_, downwards, ?_⟩)
      exact ih inner (Nat.le_of_lt_succ enough)

private theorem Ordered.eq_of_mem_ancestors (ordered : tree.Ordered) {parent first second : RuleId}
    (above : (tree.rule first).parent? = some parent)
    (aboveToo : (tree.rule second).parent? = some parent) :
    ∀ here, here < tree.size → first ∈ tree.ancestors here → second ∈ tree.ancestors here →
      first = second := by
  have older := ordered.lt_of_parent above
  have olderToo := ordered.lt_of_parent aboveToo
  refine ordered.induct ?_ ?_
  · rw [ancestors_of_outermost ordered.root_parent]
    intro present presentToo
    exact (List.mem_singleton.mp present).trans (List.mem_singleton.mp presentToo).symm
  · intro here other inside below step ih present presentToo
    have bound := ordered.le_of_mem_ancestors other (below.trans inside)
    rw [ordered.ancestors_of_parent step, List.mem_cons] at present presentToo
    rcases present with rfl | further
    · rcases presentToo with rfl | furtherToo
      · rfl
      · rw [above] at step
        injection step with same
        exact absurd (bound second furtherToo) (Nat.not_le_of_lt (same ▸ olderToo))
    · rcases presentToo with rfl | furtherToo
      · rw [aboveToo] at step
        injection step with same
        exact absurd (bound first further) (Nat.not_le_of_lt (same ▸ older))
      · exact ih further furtherToo

private theorem Linked.nodup_passed (linked : tree.Linked) (ordered : tree.Ordered) (levels : Nat) :
    ∀ here, here < tree.size → (tree.passed levels here).Nodup := by
  induction levels with
  | zero => exact fun _ _ => List.nodup_nil
  | succ levels ih =>
      intro here inside
      have placed := ordered.link_gt here inside
      have climbs : ∀ link id, link ∈ (tree.rule here).links → id ∈ tree.passed levels link →
          id < tree.size ∧ link ∈ tree.ancestors id := by
        intro link id downwards present
        obtain ⟨ids, path⟩ := tree.exists_path_of_mem_passed levels link id present
        exact ⟨path.last_lt ordered (placed link downwards).2,
          path.first_mem_ancestors ordered linked⟩
      rw [passed, List.nodup_cons, List.nodup_flatMap]
      refine ⟨?_, fun link downwards => ih link (placed link downwards).2, ?_⟩
      · intro present
        obtain ⟨link, downwards, further⟩ := List.mem_flatMap.mp present
        have above := ordered.le_of_mem_ancestors here inside link
          (climbs link here downwards further).2
        exact absurd above (Nat.not_le_of_lt (placed link downwards).1)
      -- What two links have in common below them has both among its ancestors.
      · refine (linked.nodup_links here).pairwise_of_forall_ne ?_
        intro first downwards second downwardsToo different id present presentToo
        obtain ⟨within, upwards⟩ := climbs first id downwards present
        obtain ⟨_, upwardsToo⟩ := climbs second id downwardsToo presentToo
        exact different (ordered.eq_of_mem_ancestors
          ((linked.mem_links_iff here first).mp downwards)
          ((linked.mem_links_iff here second).mp downwardsToo) id within upwards upwardsToo)

private theorem length_chain_le (tree : RuleTree) (steps : Nat) :
    ∀ here, (tree.chain steps here).length ≤ steps := by
  induction steps with
  | zero => exact fun _ => Nat.le_refl _
  | succ steps ih =>
      intro here
      rw [chain, List.length_cons]
      split
      · exact Nat.succ_le_succ (ih _)
      · exact Nat.succ_le_succ (Nat.zero_le _)

theorem Linked.perm_passed (linked : tree.Linked) (ordered : tree.Ordered) :
    (tree.passed tree.size root).Perm (List.range tree.size) := by
  rw [List.perm_ext_iff_of_nodup (linked.nodup_passed ordered _ root ordered.root_lt)
    List.nodup_range]
  intro id
  rw [List.mem_range]
  constructor
  · intro present
    obtain ⟨ids, path⟩ := tree.exists_path_of_mem_passed _ root id present
    exact path.last_lt ordered ordered.root_lt
  · intro inside
    refine (linked.path_ancestors ordered id inside).mem_passed tree.size ?_
    rw [List.length_reverse]
    exact (tree.length_chain_le (id + 1) id).trans inside

/-- Reading a stylesheet makes no rule that cannot be reached. -/
theorem reachable_of_ofSource {options : CompileOptions} {source : Text}
    (ended : (ofSource options source).outcome = .ok tree) :
    tree.reachable = List.range tree.size := by
  have all := (linked_ofSource ended).perm_passed (ordered_ofSource ended)
  rw [reachable, List.filter_eq_self]
  intro id inside
  exact decide_eq_true (all.mem_iff.mpr inside)

/-- A tree in which everything hangs from the outermost rule. -/
structure Rooted (tree : RuleTree) : Prop where
  root_lt : root < tree.size
  parent_eq_none_iff : ∀ id, id < tree.size → ((tree.rule id).parent? = none ↔ id = root)
  parent_lt : ∀ id parent, (tree.rule id).parent? = some parent → parent < id
  /-- In the whole tree there is one reference to each other rule, either among the
  children of a rule or among its media blocks. -/
  references : ∀ id, id < tree.size → id ≠ root →
    (tree.rules.flatMap Rule.nested).count id +
      ((tree.rules.flatMap Rule.media).map MediaEntry.expansion).count id = 1
  referrer : ∀ here id,
    id ∈ (tree.rule here).nested ∨ id ∈ (tree.rule here).media.map MediaEntry.expansion →
      id < tree.size ∧ (tree.rule id).parent? = some here
  path : ∀ id, id < tree.size → ∃! ids, tree.Path root id ids
  ancestors : ∀ id, id < tree.size → (tree.ancestors id).head? = some id ∧
    ((tree.ancestors id).IsChain fun below above => (tree.rule below).parent? = some above) ∧
    (tree.ancestors id).Pairwise (· > ·) ∧ (tree.ancestors id).getLast? = some root
  passing : (tree.sheetPassing tree.size root).1 = tree.sheet ∧
    (tree.sheetPassing tree.size root).2.Perm (List.range tree.size)

private theorem Linked.rooted (linked : tree.Linked) (ordered : tree.Ordered) : tree.Rooted where
  root_lt := ordered.root_lt
  parent_eq_none_iff := by
    intro id inside
    constructor
    · intro top
      by_contra nested
      obtain ⟨parent, above, _⟩ := ordered.parent_lt id inside nested
      rw [top] at above
      cases above
    · rintro rfl
      exact ordered.root_parent
  parent_lt := fun _ _ above => ordered.lt_of_parent above
  references := by
    intro id inside nested
    rw [← count_flatMap_links]
    exact linked.count_references ordered inside nested
  referrer := by
    intro here id present
    have downwards : id ∈ (tree.rule here).links := List.mem_append.mpr present
    have above := (linked.mem_links_iff here id).mp downwards
    refine ⟨?_, above⟩
    by_contra outside
    rw [rule_of_size_le tree (Nat.le_of_not_lt outside)] at above
    cases above
  path := fun _ inside => linked.existsUnique_path ordered inside
  ancestors := fun id inside => ⟨rfl, ordered.isChain_ancestors id inside,
    ordered.pairwise_ancestors id inside, ordered.getLast?_ancestors id inside⟩
  passing := by
    rw [sheetPassing_eq]
    exact ⟨rfl, linked.perm_passed ordered⟩

/-- The rules of every stylesheet that is read hang from the outermost one, each from its
parent alone. -/
theorem rooted_of_ofSource {options : CompileOptions} {source : Text} {tree : RuleTree}
    (ended : (ofSource options source).outcome = .ok tree) : tree.Rooted :=
  (linked_ofSource ended).rooted (ordered_ofSource ended)

/-- A mixin with a rule and a media block, included twice in one rule and once in a media
block. -/
theorem rooted_of_repeated_inclusion :
    ∃ tree, (ofSource {} ("@mixin m\x7ba\x7bb:c\x7d@media d\x7be:f\x7d\x7d" ++
      "g\x7b@include m;@include m;@media h\x7b@include m\x7d\x7d").toList).outcome = .ok tree ∧
      tree.size = 9 ∧ tree.Rooted := by
  have sized : ((ofSource {} ("@mixin m\x7ba\x7bb:c\x7d@media d\x7be:f\x7d\x7d" ++
      "g\x7b@include m;@include m;@media h\x7b@include m\x7d\x7d").toList).map
        RuleTree.size).outcome = .ok 9 := by
    decide +kernel
  obtain ⟨tree, ended, size⟩ := Traced.outcome_map_eq_ok.mp sized
  exact ⟨tree, ended, size, rooted_of_ofSource ended⟩

end RuleTree

end NestedCss
