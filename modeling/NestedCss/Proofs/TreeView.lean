import NestedCss.Proofs.Growth
import NestedCss.Proofs.Rendering

set_option autoImplicit false

/-! A rule tree as it looks from one of its rules: the frames that are in scope
there, and what the rule has contributed so far. Each operation on the tree is an
operation on frames or on the contribution, and a new rule starts with a frame of
its own and with nothing. -/

namespace NestedCss

namespace RuleTree

/-- The state of a reading in one pass that has come as far as this tree has. -/
def view (tree : RuleTree) (here : RuleId) : OnePass.State := ⟨tree.frames here, tree.yielded here⟩

/-! ### Frames -/

theorem frames_ne_nil (tree : RuleTree) (here : RuleId) : tree.frames here ≠ [] := by
  simp [frames, ancestors, chain]

theorem Ordered.frames_eq_of_frame_eq {before after : RuleTree} (ordered : before.Ordered)
    (later : after.Ordered) {bound : RuleId}
    (parents : ∀ id, id < bound → (after.rule id).parent? = (before.rule id).parent?)
    (same : ∀ id, id < bound → after.frame id = before.frame id) :
    ∀ here, here < bound → after.frames here = before.frames here := by
  intro here
  induction here using Nat.strong_induction_on with
  | _ here ih =>
      intro inside
      cases above : (before.rule here).parent? with
      | none =>
          have aboveToo : (after.rule here).parent? = none := by rw [parents here inside, above]
          rw [frames, ancestors_of_outermost aboveToo, frames, ancestors_of_outermost above,
            List.map_singleton, List.map_singleton, same here inside]
      | some parent =>
          have older := ordered.lt_of_parent above
          have aboveToo : (after.rule here).parent? = some parent := by
            rw [parents here inside, above]
          rw [later.frames_of_parent aboveToo, ordered.frames_of_parent above, same here inside,
            ih parent older (Nat.lt_trans older inside)]

theorem frames_modify_self {tree : RuleTree} (ordered : tree.Ordered) {here : RuleId}
    (inside : here < tree.size) {change : Rule → Rule} {reframe : Frame → Frame}
    (later : (tree.modify here change).Ordered)
    (placed : (change (tree.rule here)).parent? = (tree.rule here).parent?)
    (renamed : (tree.modify here change).frame here = reframe (tree.frame here)) :
    (tree.modify here change).frames here = Frames.modifyInner reframe (tree.frames here) := by
  cases above : (tree.rule here).parent? with
  | none =>
      have aboveToo : ((tree.modify here change).rule here).parent? = none := by
        rw [rule_modify_self tree change inside, placed, above]
      rw [frames, ancestors_of_outermost aboveToo, frames, ancestors_of_outermost above,
        List.map_singleton, List.map_singleton, renamed]
      rfl
  | some parent =>
      have older := ordered.lt_of_parent above
      have aboveToo : ((tree.modify here change).rule here).parent? = some parent := by
        rw [rule_modify_self tree change inside, placed, above]
      have elsewhere : ∀ id, id < here →
          (tree.modify here change).rule id = tree.rule id :=
        fun id before => rule_modify_of_ne tree change (Nat.ne_of_lt before)
      have outer := ordered.frames_eq_of_frame_eq later
        (fun id before => by rw [elsewhere id before])
        (fun id before => by rw [frame, frame, elsewhere id before]) parent older
      rw [later.frames_of_parent aboveToo, ordered.frames_of_parent above, outer, renamed]
      rfl

/-- A change of the names in the outermost rule is a change of the outermost
frame, wherever it is seen from. -/
theorem frames_modify_root {tree : RuleTree} (ordered : tree.Ordered) {change : Rule → Rule}
    {reframe : Frame → Frame} (later : (tree.modify root change).Ordered)
    (renamed : (tree.modify root change).frame root = reframe (tree.frame root)) :
    ∀ here, here < tree.size →
      (tree.modify root change).frames here = Frames.modifyOuter reframe (tree.frames here) := by
  refine ordered.induct (motive := fun here =>
    (tree.modify root change).frames here = Frames.modifyOuter reframe (tree.frames here)) ?_ ?_
  · rw [later.frames_root, ordered.frames_root, renamed]
    rfl
  · intro here parent inside older above same
    have nested : here ≠ root := Nat.ne_of_gt (Nat.lt_of_le_of_lt (Nat.zero_le parent) older)
    have unchanged : (tree.modify root change).rule here = tree.rule here :=
      rule_modify_of_ne tree change nested
    have aboveToo : ((tree.modify root change).rule here).parent? = some parent := by
      rw [unchanged, above]
    have own : (tree.modify root change).frame here = tree.frame here := by
      rw [frame, frame, unchanged]
    rw [later.frames_of_parent aboveToo, ordered.frames_of_parent above, same, own,
      Frames.modifyOuter_cons reframe _ (tree.frames_ne_nil parent)]

theorem frames_bind {tree : RuleTree} (ordered : tree.Ordered) {here : RuleId}
    (inside : here < tree.size) (binding : Binding) :
    (tree.bind here binding).frames here = (tree.frames here).bind binding := by
  have grown := grows_bind ordered inside binding
  unfold bind Frames.bind at *
  by_cases anywhere : binding.isGlobal
  · simp only [anywhere, if_true] at grown ⊢
    refine frames_modify_root ordered grown.ordered ?_ here inside
    simp only [frame, rule_modify_self tree _ ordered.root_lt]
  · simp only [anywhere, Bool.false_eq_true, if_false] at grown ⊢
    refine frames_modify_self ordered inside grown.ordered rfl ?_
    simp only [frame, rule_modify_self tree _ inside]

theorem frames_defineMixin {tree : RuleTree} (ordered : tree.Ordered) {here : RuleId}
    (inside : here < tree.size) (mixin : Mixin) :
    (tree.defineMixin here mixin).frames here = (tree.frames here).defineMixin mixin := by
  have grown := grows_defineMixin ordered inside mixin
  refine frames_modify_self ordered inside grown.ordered rfl ?_
  simp only [frame, rule_modify_self tree _ inside]

theorem frames_modify_of_frame_eq {tree : RuleTree} (ordered : tree.Ordered) {id : RuleId}
    {change : Rule → Rule} (later : (tree.modify id change).Ordered)
    (kept : ∀ rule, (change rule).parent? = rule.parent? ∧
      (change rule).bindings = rule.bindings ∧ (change rule).mixins = rule.mixins) :
    ∀ here, here < tree.size → (tree.modify id change).frames here = tree.frames here := by
  obtain ⟨parent, bindings, mixins⟩ := kept (tree.rule id)
  have frames : ∀ other, (tree.modify id change).frame other = tree.frame other := by
    refine read_rule_modify (fun rule => Frame.mk rule.bindings rule.mixins) ?_
    rw [bindings, mixins]
  exact ordered.frames_eq_of_frame_eq later
    (fun other _ => read_rule_modify Rule.parent? parent other) (fun other _ => frames other)

theorem frames_addChild {tree : RuleTree} (ordered : tree.Ordered) {at' : RuleId} {child : Child}
    (later : (tree.addChild at' child).Ordered) :
    ∀ here, here < tree.size → (tree.addChild at' child).frames here = tree.frames here :=
  frames_modify_of_frame_eq ordered later fun _ => ⟨rfl, rfl, rfl⟩

/-! ### Contributions -/

theorem Grows.textBelow_eq {here : RuleId} {before after : RuleTree}
    (grown : Grows here before after) (ordered : before.Ordered) :
    ∀ id, here < id → id < before.size → after.textBelow id = before.textBelow id := by
  intro id
  -- Links lead to younger rules, so the induction is on how many rules are younger.
  induction remaining : before.size - id using Nat.strong_induction_on generalizing id with
  | _ remaining ih =>
      intro younger inside
      have within : id < after.size := Nat.lt_of_lt_of_le inside grown.size_le
      have different : id ≠ here := Nat.ne_of_gt younger
      have below : ∀ link ∈ (before.rule id).links,
          after.textBelow link = before.textBelow link := by
        intro link present
        obtain ⟨deeper, placed⟩ := ordered.link_gt id inside link present
        exact ih (before.size - link) (remaining ▸ Nat.sub_lt_sub_left inside deeper) link rfl
          (Nat.lt_trans younger deeper) placed
      have yields : after.yielded id = before.yielded id := by
        simp only [yielded, Rule.lines, Rule.nested, grown.children_eq id inside different,
          grown.media_eq id inside different]
        congr 1
        · exact List.flatMap_congr fun link present => below link (nested_mem_links present)
        · refine List.flatMap_congr fun entry present => ?_
          rw [below entry.expansion (expansion_mem_links present)]
      rw [grown.ordered.textBelow_eq within, ordered.textBelow_eq inside, yields,
        grown.selector_below ordered id inside]

/-- The contribution of the rule at hand grows by its new children and media
blocks. -/
theorem Grows.yielded_eq {here : RuleId} {before after : RuleTree}
    (grown : Grows here before after) (ordered : before.Ordered) (inside : here < before.size)
    (children : List Child) (media : List MediaEntry)
    (newChildren : (after.rule here).children = (before.rule here).children ++ children)
    (newMedia : (after.rule here).media = (before.rule here).media ++ media) :
    after.yielded here =
      ⟨(before.yielded here).lines ++ children.filterMap Child.line?,
        (before.yielded here).nested ++ (children.filterMap Child.rule?).flatMap after.textBelow,
        (before.yielded here).media ++ media.flatMap fun entry =>
          OnePass.mediaText entry.block.query (after.textBelow entry.expansion)⟩ := by
  have below : ∀ link ∈ (before.rule here).links,
      after.textBelow link = before.textBelow link := by
    intro link present
    obtain ⟨deeper, placed⟩ := ordered.link_gt here inside link present
    exact grown.textBelow_eq ordered link deeper placed
  simp only [yielded, Rule.lines, Rule.nested, newChildren, newMedia, List.filterMap_append,
    List.flatMap_append]
  congr 1
  · congr 1
    exact List.flatMap_congr fun link present => below link (nested_mem_links present)
  · congr 1
    refine List.flatMap_congr fun entry present => ?_
    rw [below entry.expansion (expansion_mem_links present)]

theorem Grows.yielded_eq_self {here : RuleId} {before after : RuleTree}
    (grown : Grows here before after) (ordered : before.Ordered) (inside : here < before.size)
    (children : (after.rule here).children = (before.rule here).children)
    (media : (after.rule here).media = (before.rule here).media) :
    after.yielded here = before.yielded here := by
  rw [grown.yielded_eq ordered inside [] [] (children.trans (List.append_nil _).symm)
    (media.trans (List.append_nil _).symm)]
  simp

end RuleTree
end NestedCss
