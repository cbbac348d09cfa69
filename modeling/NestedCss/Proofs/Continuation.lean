import NestedCss.Proofs.Calls
import NestedCss.Proofs.Pieces

set_option autoImplicit false

/-! Reading goes forward only. Of the rules that are there when a body is read, the
reading touches the one at hand, and the outermost one when it binds a global
variable. Every other rule stays what it was, and no list of children or of media
blocks loses an entry. So what a text was read as stands whatever follows it. -/

namespace NestedCss

namespace RuleTree

/-- A later tree with the older rules still in place. Those that were not touched
are the same, and in the others new children and media blocks follow the old ones. -/
structure Extends (touched : RuleId → Prop) (before after : RuleTree) : Prop where
  size_le : before.size ≤ after.size
  rule_eq : ∀ id, id < before.size → ¬ touched id → after.rule id = before.rule id
  children_prefix : ∀ id, id < before.size →
    (before.rule id).children <+: (after.rule id).children
  media_prefix : ∀ id, id < before.size → (before.rule id).media <+: (after.rule id).media

variable {touched : RuleId → Prop}

private theorem Extends.refl (touched : RuleId → Prop) (tree : RuleTree) :
    Extends touched tree tree :=
  ⟨Nat.le_refl _, fun _ _ _ => rfl, fun _ _ => List.prefix_rfl, fun _ _ => List.prefix_rfl⟩

private theorem Extends.enter {below : RuleId → Prop} {before middle after : RuleTree}
    (first : Extends touched before middle) (second : Extends below middle after)
    (within : ∀ id, id < before.size → below id → touched id) : Extends touched before after := by
  have inside : ∀ id, id < before.size → id < middle.size :=
    fun id older => Nat.lt_of_lt_of_le older first.size_le
  constructor
  · exact first.size_le.trans second.size_le
  · intro id older untouched
    rw [second.rule_eq id (inside id older) fun touching => untouched (within id older touching),
      first.rule_eq id older untouched]
  · intro id older
    exact (first.children_prefix id older).trans (second.children_prefix id (inside id older))
  · intro id older
    exact (first.media_prefix id older).trans (second.media_prefix id (inside id older))

private theorem Extends.trans {before middle after : RuleTree}
    (first : Extends touched before middle)
    (second : Extends touched middle after) : Extends touched before after :=
  first.enter second fun _ _ touching => touching

private theorem extends_modify (tree : RuleTree) {id : RuleId} (own : touched id)
    {change : Rule → Rule} (lengthens : ∀ rule : Rule,
      rule.children <+: (change rule).children ∧ rule.media <+: (change rule).media) :
    Extends touched tree (tree.modify id change) := by
  have field : ∀ other,
      (tree.rule other).children <+: ((tree.modify id change).rule other).children ∧
        (tree.rule other).media <+: ((tree.modify id change).rule other).media := by
    intro other
    rcases rule_modify_cases tree id change other with same | ⟨_, same⟩
    · rw [same]
      exact ⟨List.prefix_rfl, List.prefix_rfl⟩
    · rw [same]
      exact lengthens _
  constructor
  · rw [size_modify]
  · intro other _ untouched
    exact rule_modify_of_ne tree change fun same => untouched (same ▸ own)
  · exact fun other _ => (field other).1
  · exact fun other _ => (field other).2

private theorem extends_addDetached (tree : RuleTree) (parent : RuleId) (selector : Text) :
    Extends touched tree (tree.addDetached parent selector) := by
  have same : ∀ id, id < tree.size → (tree.addDetached parent selector).rule id = tree.rule id :=
    fun id older => rule_addDetached_of_lt tree parent selector older
  constructor
  · rw [size_addDetached]
    exact Nat.le_succ _
  · exact fun id older _ => same id older
  · exact fun id older => by simp only [same id older, List.prefix_rfl]
  · exact fun id older => by simp only [same id older, List.prefix_rfl]

private theorem extends_addRule (tree : RuleTree) {here : RuleId} (own : touched here)
    (selector : Text) :
    Extends touched tree (tree.addRule here selector) :=
  (extends_addDetached tree here selector).trans
    (extends_modify _ own fun _ => ⟨List.prefix_append _ _, List.prefix_rfl⟩)

private theorem extends_addMedia (tree : RuleTree) {here : RuleId} (own : touched here)
    (block : MediaBlock) : Extends touched tree (tree.addMedia here block) :=
  (extends_addDetached tree here expansionSelector).trans
    (extends_modify _ own fun _ => ⟨List.prefix_rfl, List.prefix_append _ _⟩)

end RuleTree

open RuleTree

/-! ### What a call touches -/

/-- Reading a body binds a global variable, by a node of its own or in a further
call. -/
inductive Call.BindsGlobal (options : CompileOptions) : Call → Prop
  | node {levels : Nat} {site : Site} {body : Body} {tree : RuleTree} {declared : Binding}
      (present : .binding declared ∈ body.segmentation.segments.map Node.ofSegment)
      (isGlobal : declared.isGlobal = true) : BindsGlobal options ⟨levels + 1, site, body, tree⟩
  | call {outer inner : Call} (spawned : Call.Spawns options outer inner)
      (binds : BindsGlobal options inner) : BindsGlobal options outer

/-- A node that binds no global variable and includes nothing, if the body that it reads
is `inside`. -/
def Node.isLocal (inside : Body → Bool) : Node → Bool
  | .binding declared => !declared.isGlobal
  | .property _ | .comment _ | .mixin _ => true
  | .media block => inside block.body
  | .inclusion _ => false
  | .rule _ body => inside body

def Body.isLocal : Nat → Body → Bool
  | 0, _ => true
  | levels + 1, body =>
      body.segmentation.segments.all fun segment => (Node.ofSegment segment).isLocal (isLocal levels)

/-- Whatever the mixins in scope bind, a body that includes none and marks no variable
as global binds none. -/
theorem Call.not_bindsGlobal_of_isLocal {options : CompileOptions} {call : Call}
    (isLocal : call.body.isLocal call.levels = true) : ¬ call.BindsGlobal options := by
  intro binds
  induction binds with
  | @node levels site body tree declared present isGlobal =>
      obtain ⟨segment, member, same⟩ := List.mem_map.mp present
      have own := List.all_eq_true.mp isLocal segment member
      rw [same, Node.isLocal, isGlobal] at own
      cases own
  | call spawned _ ih =>
      refine ih ?_
      cases spawned with
      | @node levels site body tree middle before after node inner split reached calls =>
          have present : node ∈ body.segmentation.segments.map Node.ofSegment :=
            split ▸ List.mem_append_right before (List.mem_cons_self ..)
          obtain ⟨segment, member, same⟩ := List.mem_map.mp present
          have own := List.all_eq_true.mp isLocal segment member
          rw [same] at own
          cases node with
          | rule selector below => injection calls with same; exact same ▸ own
          | media block => injection calls with same; exact same ▸ own
          | inclusion request => cases own
          | binding declared => cases calls
          | property property => cases calls
          | comment text => cases calls
          | mixin defined => cases calls

def Call.Touches (options : CompileOptions) (call : Call) (id : RuleId) : Prop :=
  id = call.site.rule ∨ id = root ∧ call.BindsGlobal options

private theorem applyNode_extends {options : CompileOptions} {levels : Nat} {site : Site}
    {tree after : RuleTree} {node : Node} {touched : RuleId → Prop} (own : touched site.rule)
    (globally : ∀ declared, node = .binding declared → declared.isGlobal = true → touched root)
    (spawns : ∀ call, node.call? levels site tree = some call →
      call.BindsGlobal options → touched root)
    (below : ∀ call last, node.call? levels site tree = some call →
      (call.run options).outcome = .ok last → Extends (call.Touches options) call.tree last)
    (ended : (applyNode options (readBody options levels) site tree node).outcome = .ok after) :
    Extends touched tree after := by
  rcases applyNode_ok_cases ended with effect | ⟨call, calls, ran⟩
  · cases effect with
    | binding declared =>
        refine extends_modify tree ?_ fun _ => ⟨List.prefix_rfl, List.prefix_rfl⟩
        split
        · rename_i isGlobal
          exact globally declared rfl isGlobal
        · exact own
    | property property value =>
        exact extends_modify tree own fun _ => ⟨List.prefix_append _ _, List.prefix_rfl⟩
    | comment text =>
        exact extends_modify tree own fun _ => ⟨List.prefix_append _ _, List.prefix_rfl⟩
    | mixin defined =>
        exact extends_modify tree own fun _ => ⟨List.prefix_rfl, List.prefix_rfl⟩
    | dropped missing => exact .refl _ tree
  · have within := below call after calls ran
    -- What the call touches at its own rule is new, or it is the rule at hand.
    have older : ∀ id, (call.site.rule = id → touched id) → call.Touches options id →
        touched id := by
      intro id here touching
      rcases touching with same | ⟨same, binds⟩
      · exact here same.symm
      · exact same ▸ spawns call calls binds
    cases Node.calls_of_call? calls with
    | rule selector body =>
        exact (extends_addRule tree own selector).enter within fun id before =>
          older id fun same => absurd same (Nat.ne_of_gt before)
    | media block =>
        exact (extends_addMedia tree own block).enter within fun id before =>
          older id fun same => absurd same (Nat.ne_of_gt before)
    | inclusion found fresh =>
        exact (Extends.refl touched tree).enter within fun id _ =>
          older id fun same => same ▸ own

/-- A call touches the rule that it reads into, and the outermost rule only to bind
a global variable. -/
theorem Call.run_extends {options : CompileOptions} (levels : Nat) :
    ∀ (call : Call) {after : RuleTree}, call.levels = levels →
      (call.run options).outcome = .ok after →
      Extends (call.Touches options) call.tree after := by
  induction levels with
  | zero =>
      rintro ⟨_, site, body, tree⟩ after level ended
      subst level
      cases ended
  | succ levels ih =>
      rintro ⟨_, site, body, tree⟩ after level ended
      subst level
      obtain ⟨_, folded⟩ := Traced.outcome_foldNodes_eq_ok.mp ended
      refine Traced.foldl_keeps_reached _ _ ?_ (.refl _ tree) folded
      intro earlier node later middle next split reached sofar stepped
      refine sofar.trans (applyNode_extends (Or.inl rfl) ?_ ?_ ?_ stepped)
      · intro declared same isGlobal
        refine Or.inr ⟨rfl, .node ?_ isGlobal⟩
        rw [split, ← same]
        exact List.mem_append_right _ (List.mem_cons_self ..)
      · exact fun call calls binds => Or.inr ⟨rfl, .call (.node split reached calls) binds⟩
      · exact fun call last calls ran => ih call (Node.levels_of_call? calls) ran

/-! ### One text after another -/

theorem readBody_append (options : CompileOptions) (levels : Nat) (site : Site) {first : Text}
    (whole : first.Whole) (rest : Text) (here : Location) (tree : RuleTree) :
    readBody options (levels + 1) site ⟨first ++ rest, here⟩ tree =
      (readBody options (levels + 1) site ⟨first, here⟩ tree).andThen
        (readBody options (levels + 1) site ⟨rest, here.advanceOver first⟩) :=
  Traced.foldNodes_append whole rest here _ tree

theorem ofSource_append (options : CompileOptions) {first : Text} (whole : first.Whole)
    (rest : Text) :
    RuleTree.ofSource options (first ++ rest) =
      (RuleTree.ofSource options first).andThen
        (readBody options (nestingLimit + 1) ⟨root, []⟩
          ⟨rest, Location.start.advanceOver first⟩) :=
  readBody_append options nestingLimit ⟨root, []⟩ whole rest .start empty

/-- What a whole text is read as stands whatever follows it: its failure is final, and
of its rules only the outermost one is touched again, to which children and media
blocks are added. -/
theorem ofSource_continues (options : CompileOptions) {first : Text} (whole : first.Whole)
    (rest : Text) :
    (∀ error, (RuleTree.ofSource options first).outcome = .error error →
      (RuleTree.ofSource options (first ++ rest)).outcome = .error error) ∧
    ∀ tree later, (RuleTree.ofSource options first).outcome = .ok tree →
      (RuleTree.ofSource options (first ++ rest)).outcome = .ok later →
        tree.size ≤ later.size ∧
        (∀ id, id < tree.size → id ≠ root → later.rule id = tree.rule id) ∧
        (tree.rule root).children <+: (later.rule root).children ∧
        (tree.rule root).media <+: (later.rule root).media := by
  rw [ofSource_append options whole rest]
  refine ⟨fun error failed => Traced.outcome_andThen_eq_error.mpr (Or.inl failed), ?_⟩
  intro tree later ended endedLater
  obtain ⟨middle, reached, continued⟩ := Traced.outcome_andThen_eq_ok.mp endedLater
  have same : middle = tree := Except.ok.inj (reached.symm.trans ended)
  subst same
  have extended := Call.run_extends (nestingLimit + 1)
    ⟨nestingLimit + 1, ⟨root, []⟩, ⟨rest, Location.start.advanceOver first⟩, middle⟩ rfl continued
  have grown := readBody_grows options (nestingLimit + 1) ⟨root, []⟩ (.ofSource first) empty middle
    ordered_empty ordered_empty.root_lt ended
  have outermost := grown.ordered.root_lt
  refine ⟨extended.size_le, ?_, extended.children_prefix root outermost,
    extended.media_prefix root outermost⟩
  intro id older nested
  refine extended.rule_eq id older ?_
  rintro (same | ⟨same, _⟩)
  · exact nested same
  · exact nested same

theorem ofSource_continues_past_redefinition :
    let first := ("$a:b;@mixin m\x7bc:$a\x7dd\x7b@include m;$a:e\x7d" ++
      "@media f\x7bg\x7bh:i\x7d\x7d ").toList
    let rest := ("$a:j;@mixin m\x7bk\x7b$a:l !global\x7d\x7d" ++
      "n\x7b@include m\x7d@media o\x7bp:q\x7d").toList
    let unbound := "d\x7bc:$r\x7d".toList
    (∃ tree later, (RuleTree.ofSource {} first).outcome = .ok tree ∧
      (RuleTree.ofSource {} (first ++ rest)).outcome = .ok later ∧ tree.size = 4 ∧
      later.size = 7 ∧ (∀ id, id < tree.size → id ≠ root → later.rule id = tree.rule id) ∧
      (tree.rule root).children <+: (later.rule root).children ∧
      (tree.rule root).media <+: (later.rule root).media) ∧
    (RuleTree.ofSource {} (unbound ++ rest)).outcome =
      .error ⟨.unresolvedVariable "r".toList, ⟨1, 3⟩⟩ := by
  intro first rest unbound
  have whole : Text.Whole first := by decide +kernel
  have sized : ((RuleTree.ofSource {} first).map RuleTree.size).outcome = .ok 4 := by
    decide +kernel
  have sizedLater : ((RuleTree.ofSource {} (first ++ rest)).map RuleTree.size).outcome = .ok 7 := by
    decide +kernel
  obtain ⟨tree, ended, size⟩ := Traced.outcome_map_eq_ok.mp sized
  obtain ⟨later, endedLater, sizeLater⟩ := Traced.outcome_map_eq_ok.mp sizedLater
  have continued := (ofSource_continues {} whole rest).2 tree later ended endedLater
  refine ⟨⟨tree, later, ended, endedLater, size, sizeLater, continued.2⟩, ?_⟩
  have failed : ((RuleTree.ofSource {} unbound).map RuleTree.size).outcome =
      .error ⟨.unresolvedVariable "r".toList, ⟨1, 3⟩⟩ := by decide +kernel
  exact (ofSource_continues {} (by decide +kernel) rest).1 _ (Traced.outcome_map_eq_error.mp failed)

end NestedCss
