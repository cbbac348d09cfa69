import NestedCss.Elaboration
import NestedCss.Proofs.Ancestry
import NestedCss.Proofs.Steps

set_option autoImplicit false

/-! What reading a body does to a rule tree. Rules are only ever added, every
rule stays where it is, and of the older rules only the one at hand gets new
children and new media blocks. The order of the tree is kept throughout. -/

namespace NestedCss
namespace RuleTree

structure Grows (here : RuleId) (before after : RuleTree) : Prop where
  ordered : after.Ordered
  size_le : before.size ≤ after.size
  parent_eq : ∀ id, id < before.size → (after.rule id).parent? = (before.rule id).parent?
  selector_eq : ∀ id, id < before.size → (after.rule id).selector = (before.rule id).selector
  children_eq : ∀ id, id < before.size → id ≠ here →
    (after.rule id).children = (before.rule id).children
  media_eq : ∀ id, id < before.size → id ≠ here → (after.rule id).media = (before.rule id).media

theorem Grows.refl {tree : RuleTree} (ordered : tree.Ordered) (here : RuleId) :
    Grows here tree tree :=
  ⟨ordered, Nat.le_refl _, fun _ _ => rfl, fun _ _ => rfl, fun _ _ _ => rfl, fun _ _ _ => rfl⟩

theorem Grows.enter {here below : RuleId} {before middle after : RuleTree}
    (first : Grows here before middle) (second : Grows below middle after)
    (fresh : below = here ∨ before.size ≤ below) : Grows here before after := by
  have within : ∀ id, id < before.size → id < middle.size :=
    fun id older => Nat.lt_of_lt_of_le older first.size_le
  have elsewhere : ∀ id, id < before.size → id ≠ here → id ≠ below := by
    intro id older different same
    rcases fresh with equal | younger
    · exact different (same.trans equal)
    · exact Nat.not_lt_of_le younger (same ▸ older)
  constructor
  · exact second.ordered
  · exact first.size_le.trans second.size_le
  · intro id older
    rw [second.parent_eq id (within id older), first.parent_eq id older]
  · intro id older
    rw [second.selector_eq id (within id older), first.selector_eq id older]
  · intro id older different
    rw [second.children_eq id (within id older) (elsewhere id older different),
      first.children_eq id older different]
  · intro id older different
    rw [second.media_eq id (within id older) (elsewhere id older different),
      first.media_eq id older different]

theorem Grows.trans {here : RuleId} {before middle after : RuleTree}
    (first : Grows here before middle) (second : Grows here middle after) :
    Grows here before after := first.enter second (Or.inl rfl)

theorem grows_modify {tree : RuleTree} (ordered : tree.Ordered) {here id : RuleId}
    {change : Rule → Rule}
    (placed : ∀ rule, (change rule).parent? = rule.parent? ∧ (change rule).selector = rule.selector)
    (elsewhere : id = here ∨ ∀ rule,
      (change rule).children = rule.children ∧ (change rule).media = rule.media)
    (younger : ∀ link ∈ (change (tree.rule id)).links, id < link ∧ link < tree.size) :
    Grows here tree (tree.modify id change) := by
  have untouched : ∀ other, other ≠ here →
      ((tree.modify id change).rule other).children = (tree.rule other).children ∧
        ((tree.modify id change).rule other).media = (tree.rule other).media := by
    intro other different
    rcases elsewhere with rfl | kept
    · rw [rule_modify_of_ne tree change different]
      exact ⟨rfl, rfl⟩
    · exact ⟨read_rule_modify Rule.children (kept _).1 other,
        read_rule_modify Rule.media (kept _).2 other⟩
  constructor
  · exact ordered.modify (placed _).1 younger
  · rw [size_modify]
  · exact fun other _ => read_rule_modify Rule.parent? (placed _).1 other
  · exact fun other _ => read_rule_modify Rule.selector (placed _).2 other
  · exact fun other _ different => (untouched other different).1
  · exact fun other _ different => (untouched other different).2

theorem grows_bind {tree : RuleTree} (ordered : tree.Ordered) {here : RuleId}
    (inside : here < tree.size) (binding : Binding) : Grows here tree (tree.bind here binding) := by
  have target : (if binding.isGlobal then root else here) < tree.size := by
    split
    · exact ordered.root_lt
    · exact inside
  exact grows_modify ordered (fun _ => ⟨rfl, rfl⟩) (Or.inr fun _ => ⟨rfl, rfl⟩)
    (ordered.link_gt _ target)

theorem grows_defineMixin {tree : RuleTree} (ordered : tree.Ordered) {here : RuleId}
    (inside : here < tree.size) (mixin : Mixin) :
    Grows here tree (tree.defineMixin here mixin) :=
  grows_modify ordered (fun _ => ⟨rfl, rfl⟩) (Or.inl rfl) (ordered.link_gt here inside)

theorem links_addChild {rule : Rule} {child : Child} {link : RuleId}
    (present : link ∈ Rule.links { rule with children := rule.children ++ [child] }) :
    link ∈ rule.links ∨ child = .rule link := by
  simp only [Rule.links, Rule.nested, List.filterMap_append, List.mem_append,
    List.filterMap_cons, List.filterMap_nil] at present
  rcases present with (old | new) | media
  · exact Or.inl (List.mem_append_left _ old)
  · cases child with
    | property property => cases new
    | comment text => cases new
    | rule id =>
        simp only [Child.rule?, List.mem_singleton] at new
        exact Or.inr (congrArg Child.rule new.symm)
  · exact Or.inl (List.mem_append_right _ media)

theorem grows_addChild {tree : RuleTree} (ordered : tree.Ordered) {here : RuleId}
    (inside : here < tree.size) {child : Child}
    (younger : ∀ link, child = .rule link → here < link ∧ link < tree.size) :
    Grows here tree (tree.addChild here child) := by
  refine grows_modify ordered (fun _ => ⟨rfl, rfl⟩) (Or.inl rfl) ?_
  intro link present
  rcases links_addChild present with old | new
  · exact ordered.link_gt here inside link old
  · exact younger link new

theorem grows_addDetached {tree : RuleTree} (ordered : tree.Ordered) {here : RuleId}
    (inside : here < tree.size) (selector : Text) :
    Grows here tree (tree.addDetached here selector) := by
  have same : ∀ id, id < tree.size → (tree.addDetached here selector).rule id = tree.rule id :=
    fun id older => rule_addDetached_of_lt tree here selector older
  constructor
  · exact ordered.addDetached inside selector
  · rw [size_addDetached]
    exact Nat.le_succ _
  · exact fun id older => by rw [same id older]
  · exact fun id older => by rw [same id older]
  · exact fun id older _ => by rw [same id older]
  · exact fun id older _ => by rw [same id older]

theorem grows_addRule {tree : RuleTree} (ordered : tree.Ordered) {here : RuleId}
    (inside : here < tree.size) (selector : Text) :
    Grows here tree (tree.addRule here selector) := by
  have made := grows_addDetached ordered inside selector
  have within : here < (tree.addDetached here selector).size :=
    Nat.lt_of_lt_of_le inside made.size_le
  refine made.trans (grows_addChild made.ordered within ?_)
  intro link same
  injection same with same
  rw [← same, size_addDetached]
  exact ⟨inside, Nat.lt_succ_self _⟩

/-- The tree in which the body of a media block is read, at its last rule. -/
def addMedia (tree : RuleTree) (here : RuleId) (block : MediaBlock) : RuleTree :=
  (tree.addDetached here expansionSelector).attachMedia here block tree.size

theorem grows_addMedia {tree : RuleTree} (ordered : tree.Ordered) {here : RuleId}
    (inside : here < tree.size) (block : MediaBlock) :
    Grows here tree (tree.addMedia here block) := by
  have made := grows_addDetached ordered inside expansionSelector
  have within : here < (tree.addDetached here expansionSelector).size :=
    Nat.lt_of_lt_of_le inside made.size_le
  refine made.trans (grows_modify made.ordered (fun _ => ⟨rfl, rfl⟩) (Or.inl rfl) ?_)
  intro link present
  simp only [Rule.links, List.map_append, List.map_cons, List.map_nil] at present
  rw [← List.append_assoc, List.mem_append, List.mem_singleton] at present
  rcases present with old | rfl
  · exact made.ordered.link_gt here within link old
  · rw [size_addDetached]
    exact ⟨inside, Nat.lt_succ_self _⟩

/-- A rule has been made for `here`, where it is linked from. -/
structure Made (here : RuleId) (selector : Text) (children : List Child) (media : List MediaEntry)
    (tree made : RuleTree) : Prop where
  grown : Grows here tree made
  size_eq : made.size = tree.size + 1
  fresh : made.rule tree.size = .fresh selector (some here)
  linked : made.rule here = { tree.rule here with
    children := (tree.rule here).children ++ children
    media := (tree.rule here).media ++ media }
  frame_eq : ∀ id, id < tree.size → made.frame id = tree.frame id

theorem made_of_modify {tree : RuleTree} {here : RuleId} (inside : here < tree.size)
    {selector : Text} {children : List Child} {media : List MediaEntry} {change : Rule → Rule}
    (grown : Grows here tree ((tree.addDetached here selector).modify here change))
    (links : ∀ rule, change rule =
      { rule with children := rule.children ++ children, media := rule.media ++ media }) :
    Made here selector children media tree
      ((tree.addDetached here selector).modify here change) := by
  have wider : here < (tree.addDetached here selector).size := by
    rw [size_addDetached]
    exact Nat.lt_succ_of_lt inside
  have linked := rule_modify_self (tree.addDetached here selector) change wider
  rw [rule_addDetached_of_lt tree here selector inside, links] at linked
  refine ⟨grown, ?_, ?_, linked, fun id older => ?_⟩
  · rw [size_modify, size_addDetached]
  · rw [rule_modify_of_ne _ _ (Nat.ne_of_gt inside), rule_addDetached_size]
  · by_cases same : id = here
    · rw [same, frame, frame, linked]
    · rw [frame, frame, rule_modify_of_ne _ _ same, rule_addDetached_of_lt tree here selector older]

theorem made_addRule {tree : RuleTree} (ordered : tree.Ordered) {here : RuleId}
    (inside : here < tree.size) (selector : Text) :
    Made here selector [.rule tree.size] [] tree (tree.addRule here selector) :=
  made_of_modify inside (grows_addRule ordered inside selector) fun rule => by
    rw [List.append_nil]

theorem made_addMedia {tree : RuleTree} (ordered : tree.Ordered) {here : RuleId}
    (inside : here < tree.size) (block : MediaBlock) :
    Made here expansionSelector [] [⟨block, tree.size⟩] tree (tree.addMedia here block) :=
  made_of_modify inside (grows_addMedia ordered inside block) fun rule => by
    rw [List.append_nil]

theorem Grows.selector_below {here : RuleId} {before after : RuleTree}
    (grown : Grows here before after) (ordered : before.Ordered) :
    ∀ id, id < before.size → after.selector id = before.selector id := by
  refine ordered.induct (motive := fun id => after.selector id = before.selector id) ?_ ?_
  · rw [selector_of_outermost ordered.root_parent,
      selector_of_outermost (grown.ordered.root_parent)]
  · intro id parent inside older above same
    have aboveToo : (after.rule id).parent? = some parent := by
      rw [grown.parent_eq id inside, above]
    rw [ordered.selector_of_parent above, grown.ordered.selector_of_parent aboveToo, same,
      grown.selector_eq id inside]

theorem Grows.ancestors_below {here : RuleId} {before after : RuleTree}
    (grown : Grows here before after) (ordered : before.Ordered) :
    ∀ id, id < before.size → after.ancestors id = before.ancestors id := by
  refine ordered.induct ?_ ?_
  · rw [ancestors_of_outermost ordered.root_parent,
      ancestors_of_outermost grown.ordered.root_parent]
  · intro id parent inside _ above same
    have aboveToo : (after.rule id).parent? = some parent := by
      rw [grown.parent_eq id inside, above]
    rw [ordered.ancestors_of_parent above, grown.ordered.ancestors_of_parent aboveToo, same]

namespace Made

variable {here : RuleId} {selector : Text} {children : List Child} {media : List MediaEntry}
  {tree made : RuleTree}

theorem size_lt (new : Made here selector children media tree made) : tree.size < made.size := by
  rw [new.size_eq]
  exact Nat.lt_succ_self _

theorem parent_eq (new : Made here selector children media tree made) :
    (made.rule tree.size).parent? = some here := by
  rw [new.fresh]
  rfl

theorem ancestors_eq (new : Made here selector children media tree made) (ordered : tree.Ordered)
    (inside : here < tree.size) : made.ancestors tree.size = tree.size :: tree.ancestors here := by
  rw [new.grown.ordered.ancestors_of_parent new.parent_eq,
    new.grown.ancestors_below ordered here inside]

theorem selector_eq (new : Made here selector children media tree made) (ordered : tree.Ordered)
    (inside : here < tree.size) :
    made.selector tree.size = joinSelector (tree.selector here) selector := by
  rw [new.grown.ordered.selector_of_parent new.parent_eq, new.fresh,
    new.grown.selector_below ordered here inside]
  rfl

theorem selector_of_expansion (new : Made here expansionSelector children media tree made)
    (ordered : tree.Ordered) (inside : here < tree.size) :
    made.selector tree.size = tree.selector here := by
  rw [new.selector_eq ordered inside]
  exact joinSelector_parentMark _ (ordered.trim_selector here)

theorem enter (new : Made here selector children media tree made) {after : RuleTree}
    (later : Grows tree.size made after) : Grows here tree after :=
  new.grown.enter later (Or.inr (Nat.le_refl _))

end Made

end RuleTree

open RuleTree

def BodyReader.Grows (nested : BodyReader) : Prop :=
  ∀ site body tree after, tree.Ordered → site.rule < tree.size →
    (nested site body tree).outcome = .ok after → RuleTree.Grows site.rule tree after

theorem expandInclusion_grows {options : CompileOptions} {nested : BodyReader}
    (growing : nested.Grows) {site : Site} {inclusion : Inclusion} {tree after : RuleTree}
    (ordered : tree.Ordered) (inside : site.rule < tree.size)
    (ended : (expandInclusion options nested site inclusion tree).outcome = .ok after) :
    RuleTree.Grows site.rule tree after := by
  unfold expandInclusion at ended
  split at ended
  · split at ended
    · cases ended
    · injection ended with same
      exact same ▸ .refl ordered site.rule
  · simp only at ended
    split at ended
    · cases ended
    · exact growing ⟨site.rule, site.active ++ [inclusion.name]⟩ _ tree after ordered inside ended

theorem applyNode_grows {options : CompileOptions} {nested : BodyReader} (growing : nested.Grows)
    {site : Site} {tree after : RuleTree} {node : Node} (ordered : tree.Ordered)
    (inside : site.rule < tree.size)
    (ended : (applyNode options nested site tree node).outcome = .ok after) :
    RuleTree.Grows site.rule tree after := by
  cases node with
  | binding binding =>
      injection ended with same
      exact same ▸ grows_bind ordered inside binding
  | property property =>
      obtain ⟨value, _, same⟩ := Traced.outcome_map_eq_ok.mp ended
      exact same ▸ grows_addChild ordered inside (fun _ impossible => by cases impossible)
  | comment text =>
      injection ended with same
      exact same ▸ grows_addChild ordered inside (fun _ impossible => by cases impossible)
  | mixin mixin =>
      injection ended with same
      exact same ▸ grows_defineMixin ordered inside mixin
  | media block =>
      have new := made_addMedia ordered inside block
      exact new.enter (growing _ _ _ after new.grown.ordered new.size_lt ended)
  | inclusion inclusion => exact expandInclusion_grows growing ordered inside ended
  | rule selector body =>
      have new := made_addRule ordered inside selector
      exact new.enter (growing _ _ _ after new.grown.ordered new.size_lt ended)

theorem applySegmentation_grows {options : CompileOptions} {nested : BodyReader}
    (growing : nested.Grows) {site : Site} {whole : Segmentation} {tree after : RuleTree}
    (ordered : tree.Ordered) (inside : site.rule < tree.size)
    (ended : (applySegmentation options nested site whole tree).outcome = .ok after) :
    RuleTree.Grows site.rule tree after := by
  obtain ⟨_, folded⟩ := Traced.outcome_foldNodes_eq_ok.mp ended
  refine Traced.foldl_keeps (RuleTree.Grows site.rule tree) _ ?_ (.refl ordered site.rule) folded
  intro node _ before later sofar stepped
  exact sofar.trans (applyNode_grows growing sofar.ordered
    (Nat.lt_of_lt_of_le inside sofar.size_le) stepped)

theorem readBody_grows (options : CompileOptions) (levels : Nat) :
    (readBody options levels).Grows := by
  induction levels with
  | zero =>
      intro site body tree after ordered inside ended
      cases ended
  | succ levels ih =>
      intro site body tree after ordered inside ended
      exact applySegmentation_grows ih ordered inside ended

theorem ordered_ofSource {options : CompileOptions} {source : Text} {tree : RuleTree}
    (ended : (RuleTree.ofSource options source).outcome = .ok tree) : tree.Ordered :=
  (readBody_grows options (nestingLimit + 1) ⟨root, []⟩ (.ofSource source) empty tree ordered_empty
    ordered_empty.root_lt ended).ordered

end NestedCss
