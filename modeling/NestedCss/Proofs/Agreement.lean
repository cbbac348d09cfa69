import NestedCss.Proofs.TreeView

set_option autoImplicit false

/-! Reading into a rule tree and reading in one pass agree. At every moment the
state of the one-pass reading is the view of the tree from the rule at hand: the
stack holds the frames of the rule and its ancestors, and the yield holds what
the rule would contribute if the text ended there. The main result is that both
ways compile every stylesheet alike, failures and dropped inclusions included. -/

namespace NestedCss

open RuleTree

/-- A reading in one pass that follows a reader of bodies, rule for rule. -/
def BodyReader.Agrees (nested : BodyReader) (reading : OnePass.Reading) : Prop :=
  ∀ site body tree, tree.Ordered → site.rule < tree.size →
    reading ⟨tree.selector site.rule, site.active⟩ body (tree.view site.rule) =
      (nested site body tree).map fun after => after.view site.rule

section Nodes

variable {options : CompileOptions} {nested : BodyReader} {reading : OnePass.Reading}
  {site : Site} {tree : RuleTree}

private theorem view_bind (ordered : tree.Ordered) {here : RuleId} (inside : here < tree.size)
    (binding : Binding) :
    (tree.bind here binding).view here =
      { tree.view here with frames := (tree.frames here).bind binding } := by
  have grown := grows_bind ordered inside binding
  have target : (if binding.isGlobal then root else here) < tree.size := by
    split
    · exact ordered.root_lt
    · exact inside
  have kept : ((tree.bind here binding).rule here).children = (tree.rule here).children ∧
      ((tree.bind here binding).rule here).media = (tree.rule here).media :=
    ⟨read_rule_modify Rule.children rfl here, read_rule_modify Rule.media rfl here⟩
  rw [view, view, frames_bind ordered inside,
    grown.yielded_eq_self ordered inside kept.1 kept.2]

private theorem view_defineMixin (ordered : tree.Ordered) {here : RuleId}
    (inside : here < tree.size) (mixin : Mixin) :
    (tree.defineMixin here mixin).view here =
      { tree.view here with frames := (tree.frames here).defineMixin mixin } := by
  have grown := grows_defineMixin ordered inside mixin
  have same := rule_modify_self tree
    (fun rule => { rule with mixins := rule.mixins.insert mixin.name mixin }) inside
  rw [view, view, frames_defineMixin ordered inside, grown.yielded_eq_self ordered inside
    (by rw [defineMixin, same]) (by rw [defineMixin, same])]

private theorem view_addChild (ordered : tree.Ordered) {here : RuleId} (inside : here < tree.size)
    {child : Child} (plain : child.rule? = none) :
    (tree.addChild here child).view here = (tree.view here).addLines child.line?.toList := by
  have noLink : ∀ link, child = .rule link → here < link ∧ link < tree.size := by
    intro link same
    rw [same] at plain
    cases plain
  have grown := grows_addChild ordered inside noLink
  have same := rule_modify_self tree
    (fun rule => { rule with children := rule.children ++ [child] }) inside
  have yields := grown.yielded_eq ordered inside [child] []
    (by rw [addChild, same]) (by rw [addChild, same, List.append_nil])
  rw [view, frames_addChild ordered grown.ordered here inside, yields]
  simp only [List.filterMap_cons, List.filterMap_nil, plain, List.flatMap_nil, List.append_nil,
    view, OnePass.State.addLines]
  cases child.line? with
  | none => simp
  | some line => rfl

private theorem view_of_fresh {parent here : RuleId} {selector : Text}
    (fresh : tree.rule here = .fresh selector (some parent)) (ordered : tree.Ordered) :
    tree.view here = ⟨.empty :: tree.frames parent, .empty⟩ := by
  rw [view, ordered.frames_of_parent (by rw [fresh]; rfl), frame, yielded, fresh]
  rfl

/-- Reading a body in a frame of its own is reading it into a new rule. -/
theorem readScoped_view (agrees : nested.Agrees reading) (growing : nested.Grows)
    (ordered : tree.Ordered) {below : RuleId} (inside : below < tree.size) {selector : Text}
    (fresh : tree.rule below = .fresh selector (some site.rule)) (body : Body) :
    OnePass.readScoped reading ⟨tree.selector below, site.active⟩ body (tree.frames site.rule) =
      (nested { site with rule := below } body tree).map fun after =>
        (after.textBelow below, after.frames site.rule) := by
  have followed := agrees { site with rule := below } body tree ordered inside
  simp only [view_of_fresh fresh ordered] at followed
  rw [OnePass.readScoped, followed, Traced.map_map]
  apply Traced.map_congr
  intro after ended
  have grown := growing _ _ _ _ ordered inside ended
  have within : below < after.size := Nat.lt_of_lt_of_le inside grown.size_le
  have above : (after.rule below).parent? = some site.rule := by
    rw [grown.parent_eq below inside, fresh]
    rfl
  simp only [view, grown.ordered.textBelow_eq within, grown.selector_below ordered below inside,
    grown.ordered.frames_of_parent above, List.drop_one, List.tail_cons]

namespace RuleTree.Made

variable {here : RuleId} {selector : Text} {children : List Child} {media : List MediaEntry}
  {made after : RuleTree}

private theorem frames_eq (new : Made here selector children media tree made)
    (ordered : tree.Ordered) (inside : here < tree.size) :
    made.frames here = tree.frames here :=
  ordered.frames_eq_of_frame_eq new.grown.ordered new.grown.parent_eq new.frame_eq _ inside

theorem view_eq (new : Made here selector children media tree made)
    (ordered : tree.Ordered) (inside : here < tree.size) :
    made.view tree.size = ⟨.empty :: tree.frames here, .empty⟩ := by
  rw [view_of_fresh new.fresh new.grown.ordered, new.frames_eq ordered inside]

private theorem readScoped_view (new : Made site.rule selector children media tree made)
    (agrees : nested.Agrees reading) (growing : nested.Grows) (ordered : tree.Ordered)
    (inside : site.rule < tree.size) (body : Body) :
    OnePass.readScoped reading ⟨made.selector tree.size, site.active⟩ body
        (tree.frames site.rule) =
      (nested { site with rule := tree.size } body made).map fun after =>
        (after.textBelow tree.size, after.frames site.rule) := by
  rw [← new.frames_eq ordered inside]
  exact NestedCss.readScoped_view agrees growing new.grown.ordered new.size_lt new.fresh body

theorem yielded_eq (new : Made here selector children media tree made)
    (ordered : tree.Ordered) (inside : here < tree.size)
    (later : Grows tree.size made after) :
    after.yielded here =
      ⟨(tree.yielded here).lines ++ children.filterMap Child.line?,
        (tree.yielded here).nested ++
          (children.filterMap Child.rule?).flatMap after.textBelow,
        (tree.yielded here).media ++ media.flatMap fun entry =>
          OnePass.mediaText entry.block.query (after.textBelow entry.expansion)⟩ := by
  have earlier := Nat.lt_trans inside new.size_lt
  have different : here ≠ tree.size := Nat.ne_of_lt inside
  exact (new.enter later).yielded_eq ordered inside children media
    (by rw [later.children_eq _ earlier different, new.linked])
    (by rw [later.media_eq _ earlier different, new.linked])

/-- A rule that is read into a new rule contributes what its text makes of it. -/
theorem view_after (new : Made site.rule selector children media tree made)
    (agrees : nested.Agrees reading) (growing : nested.Grows) (ordered : tree.Ordered)
    (inside : site.rule < tree.size) (body : Body) (extended : Text → OnePass.Yield)
    (contributes : ∀ after, Grows tree.size made after →
      after.yielded site.rule = extended (after.textBelow tree.size)) :
    ((OnePass.readScoped reading ⟨made.selector tree.size, site.active⟩ body
        (tree.frames site.rule)).map fun inner => ⟨inner.2, extended inner.1⟩) =
      (nested { site with rule := tree.size } body made).map fun after =>
        after.view site.rule := by
  rw [new.readScoped_view agrees growing ordered inside body, Traced.map_map]
  apply Traced.map_congr
  intro after ended
  rw [view, contributes after (growing _ _ _ _ new.grown.ordered new.size_lt ended)]

end RuleTree.Made

private theorem readNode_rule (agrees : nested.Agrees reading) (growing : nested.Grows)
    (ordered : tree.Ordered) (inside : site.rule < tree.size) (selector : Text) (body : Body) :
    OnePass.readNode options reading ⟨tree.selector site.rule, site.active⟩ (tree.view site.rule)
        (.rule selector body) =
      (applyNode options nested site tree (.rule selector body)).map fun after =>
        after.view site.rule := by
  have new := made_addRule ordered inside selector
  simp only [OnePass.readNode, applyNode, view]
  rw [← new.selector_eq ordered inside]
  refine new.view_after agrees growing ordered inside body (fun text =>
    { tree.yielded site.rule with nested := (tree.yielded site.rule).nested ++ text }) ?_
  intro after later
  simp [new.yielded_eq ordered inside later, Child.line?, Child.rule?]

private theorem readNode_media (agrees : nested.Agrees reading) (growing : nested.Grows)
    (ordered : tree.Ordered) (inside : site.rule < tree.size) (block : MediaBlock) :
    OnePass.readNode options reading ⟨tree.selector site.rule, site.active⟩ (tree.view site.rule)
        (.media block) =
      (applyNode options nested site tree (.media block)).map fun after =>
        after.view site.rule := by
  have new := made_addMedia ordered inside block
  simp only [OnePass.readNode, applyNode, view]
  rw [← new.selector_of_expansion ordered inside]
  refine new.view_after agrees growing ordered inside block.body (fun text =>
    { tree.yielded site.rule with
      media := (tree.yielded site.rule).media ++ OnePass.mediaText block.query text }) ?_
  intro after later
  simp [new.yielded_eq ordered inside later]

private theorem readInclusion_view (agrees : nested.Agrees reading) (ordered : tree.Ordered)
    (inside : site.rule < tree.size) (inclusion : Inclusion) :
    OnePass.readInclusion options reading ⟨tree.selector site.rule, site.active⟩ inclusion
        (tree.view site.rule) =
      (expandInclusion options nested site inclusion tree).map fun after =>
        after.view site.rule := by
  unfold OnePass.readInclusion expandInclusion
  simp only [view, findMixin_frames]
  cases tree.findMixin site.rule inclusion.name with
  | none => simp only; split <;> rfl
  | some mixin =>
      simp only
      split
      · rfl
      · exact agrees ⟨site.rule, site.active ++ [inclusion.name]⟩ mixin.body tree ordered inside

private theorem readNode_view (agrees : nested.Agrees reading) (growing : nested.Grows)
    (ordered : tree.Ordered) (inside : site.rule < tree.size) (node : Node) :
    OnePass.readNode options reading ⟨tree.selector site.rule, site.active⟩ (tree.view site.rule)
        node =
      (applyNode options nested site tree node).map fun after => after.view site.rule := by
  cases node with
  | binding binding =>
      simp only [OnePass.readNode, applyNode, Traced.map_done, view_bind ordered inside]
      rfl
  | property property =>
      simp only [OnePass.readNode, applyNode, Traced.map_map]
      rw [view, substitute_frames]
      apply Traced.map_congr
      intro value _
      exact (view_addChild ordered inside rfl).symm
  | comment text =>
      simp only [OnePass.readNode, applyNode, Traced.map_done]
      rw [view_addChild ordered inside rfl]
  | mixin mixin =>
      simp only [OnePass.readNode, applyNode, Traced.map_done, view_defineMixin ordered inside]
      rfl
  | media block => exact readNode_media agrees growing ordered inside block
  | inclusion inclusion => exact readInclusion_view agrees ordered inside inclusion
  | rule selector body => exact readNode_rule agrees growing ordered inside selector body

private theorem readSegmentation_view (agrees : nested.Agrees reading) (growing : nested.Grows)
    (ordered : tree.Ordered) (inside : site.rule < tree.size) (whole : Segmentation) :
    OnePass.readSegmentation options reading ⟨tree.selector site.rule, site.active⟩ whole
        (tree.view site.rule) =
      (applySegmentation options nested site whole tree).map fun after =>
        after.view site.rule := by
  refine Traced.foldNodes_map (applyNode options nested site)
    (OnePass.readNode options reading ⟨tree.selector site.rule, site.active⟩)
    (fun after : RuleTree => after.view site.rule) (RuleTree.Grows site.rule tree) whole ?_ ?_
    (.refl ordered site.rule)
  · intro node before after sofar stepped
    exact sofar.trans (applyNode_grows growing sofar.ordered
      (Nat.lt_of_lt_of_le inside sofar.size_le) stepped)
  · intro node before sofar
    rw [← sofar.selector_below ordered site.rule inside]
    exact readNode_view agrees growing sofar.ordered
      (Nat.lt_of_lt_of_le inside sofar.size_le) node

end Nodes

theorem readBody_agrees (options : CompileOptions) (levels : Nat) :
    (readBody options levels).Agrees (OnePass.readBody options levels) := by
  induction levels with
  | zero =>
      intro site body tree _ _
      rfl
  | succ levels ih =>
      intro site body tree ordered inside
      exact readSegmentation_view ih (readBody_grows options levels) ordered inside
        body.segmentation

/-- What the one-pass reading of a whole stylesheet ends with is the view of its
rule tree from the outermost rule. -/
theorem ofSource_view (options : CompileOptions) (source : Text) :
    OnePass.readBody options (nestingLimit + 1) ⟨[], []⟩ (.ofSource source) ⟨[.empty], .empty⟩ =
      (RuleTree.ofSource options source).map fun tree => tree.view root := by
  have followed := readBody_agrees options (nestingLimit + 1) ⟨root, []⟩ (.ofSource source)
    empty ordered_empty ordered_empty.root_lt
  have top : empty.selector root = [] := selector_of_outermost rfl
  have start : empty.view root = ⟨[.empty], .empty⟩ := by
    rw [view, ordered_empty.frames_root]
    rfl
  rw [top, start] at followed
  exact followed

theorem text_of_ofSource {options : CompileOptions} {source : Text} {tree : RuleTree}
    (ended : (RuleTree.ofSource options source).outcome = .ok tree) :
    tree.text = (tree.view root).yielded.text [] := by
  have grown := readBody_grows options (nestingLimit + 1) ⟨root, []⟩ (.ofSource source) empty tree
    ordered_empty ordered_empty.root_lt ended
  exact grown.ordered.text_eq

theorem outcome_compileSource_eq_ok {options : CompileOptions} {source css : Text} :
    (compileSource options source).outcome = .ok css ↔
      ∃ final, (OnePass.readBody options (nestingLimit + 1) ⟨[], []⟩ (.ofSource source)
        ⟨[.empty], .empty⟩).outcome = .ok final ∧ final.yielded.text [] = css := by
  rw [ofSource_view, compileSource]
  constructor
  · intro compiled
    obtain ⟨tree, ended, written⟩ := Traced.outcome_map_eq_ok.mp compiled
    refine ⟨tree.view root, Traced.outcome_map_eq_ok.mpr ⟨tree, ended, rfl⟩, ?_⟩
    rw [← text_of_ofSource ended]
    exact written
  · rintro ⟨final, read, written⟩
    obtain ⟨tree, ended, same⟩ := Traced.outcome_map_eq_ok.mp read
    refine Traced.outcome_map_eq_ok.mpr ⟨tree, ended, ?_⟩
    rw [text_of_ofSource ended, same]
    exact written

/-- Compilation through a rule tree and compilation in one pass have the same
outcome, with the same text or the same failure, and drop the same inclusions. -/
theorem compileSource_eq_onePass (options : CompileOptions) (source : Text) :
    compileSource options source = OnePass.compileSource options source := by
  rw [OnePass.compileSource, ofSource_view, Traced.map_map, compileSource]
  apply Traced.map_congr
  exact fun tree ended => text_of_ofSource ended

end NestedCss
