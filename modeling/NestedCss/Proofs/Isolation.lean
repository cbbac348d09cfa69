import NestedCss.Proofs.Agreement
import NestedCss.Proofs.Continuation
import NestedCss.Proofs.Headings
import NestedCss.Proofs.PieceReading

set_option autoImplicit false

/-! Rules side by side. A rule that binds no global variable leaves the outermost
names as they were, so the text after it is read alike whatever stands in it, and
contributes alike: only the text of the rule itself can differ. -/

namespace NestedCss

open RuleTree

/-! ### What was contributed before -/

namespace OnePass

def Yield.append (first second : Yield) : Yield :=
  ⟨first.lines ++ second.lines, first.nested ++ second.nested, first.media ++ second.media⟩

def State.behind (state : State) (first : Yield) : State :=
  { state with yielded := first.append state.yielded }

private theorem Yield.append_empty (first : Yield) : first.append .empty = first := by
  simp [append, empty]

/-- Readers that never look at what was contributed before. -/
def Reading.Appends (reading : Reading) : Prop :=
  ∀ (first : Yield) (surroundings : Surroundings) (body : Body) (state : State),
    reading surroundings body (state.behind first) =
      (reading surroundings body state).map fun final => final.behind first

variable {options : CompileOptions} {reading : Reading}

private theorem readNode_behind (appends : reading.Appends) (surroundings : Surroundings)
    (first : Yield) (state : State) (node : Node) :
    readNode options reading surroundings (state.behind first) node =
      (readNode options reading surroundings state node).map fun final => final.behind first := by
  cases node with
  | binding declared => rfl
  | property property =>
      simp only [readNode, Traced.map_map]
      refine Traced.map_congr fun value _ => ?_
      simp only [State.addLines, State.behind, Yield.append, List.append_assoc]
  | comment text =>
      simp only [readNode, Traced.map_done, State.addLines, State.behind, Yield.append,
        List.append_assoc]
  | mixin defined => rfl
  | media block =>
      simp only [readNode, Traced.map_map]
      refine Traced.map_congr fun inner _ => ?_
      simp only [State.behind, Yield.append, List.append_assoc]
  | inclusion request =>
      simp only [readNode, readInclusion]
      have frames : (state.behind first).frames = state.frames := rfl
      rw [frames]
      cases state.frames.findMixin request.name with
      | none =>
          simp only
          split <;> rfl
      | some defined =>
          simp only
          split
          · rfl
          · exact appends first _ defined.body state
  | rule selector body =>
      simp only [readNode, Traced.map_map]
      refine Traced.map_congr fun inner _ => ?_
      simp only [State.behind, Yield.append, List.append_assoc]

private theorem readBody_appends (options : CompileOptions) (levels : Nat) :
    (readBody options levels).Appends := by
  induction levels with
  | zero => exact fun _ _ _ _ => rfl
  | succ levels ih =>
      intro first surroundings body state
      exact Traced.foldNodes_map _ _ (fun final : State => final.behind first) (fun _ => True)
        body.segmentation (fun _ _ _ _ _ => True.intro)
        (fun node before _ => readNode_behind ih surroundings first before node) True.intro

end OnePass

/-! ### A block at the outermost level -/

private theorem Writable.readBody_rule {selector : Text} (writable : Writable selector)
    {body : Text} (closed : body.Closed) (options : CompileOptions) (levels : Nat) (site : Site)
    (here : Location) (tree : RuleTree) :
    readBody options (levels + 1) site ⟨Text.block selector body, here⟩ tree =
      if body.allBlank then .done tree
      else readBody options levels { site with rule := tree.size }
        ⟨body, (here.advanceOver selector).advance '{'⟩ (tree.addRule site.rule selector) := by
  cases blank : body.allBlank with
  | true =>
      have nothing := writable.heading.segmentation_blank_block closed blank here
      simp only [readBody, nothing]
      rfl
  | false =>
      obtain ⟨location, single⟩ := writable.segmentation_block closed blank here
      simp only [readBody, single, applySegmentation, Traced.foldNodes, List.map_cons, List.map_nil,
        Node.ofSegment, writable.ofBlock_eq, Traced.foldl, Traced.andThen_done]
      rfl

def Call.ofBlock (before selector body : Text) (tree : RuleTree) : Call :=
  ⟨nestingLimit, ⟨tree.size, []⟩,
    ⟨body, ((Location.start.advanceOver before).advanceOver selector).advance '{'⟩,
    tree.addRule root selector⟩

namespace RuleTree

/-- What a block in the outermost rule comes to, when its rule would get this number:
the text of that rule with everything below it. A blank block has no rule. -/
inductive Writes (tree : RuleTree) (id : RuleId) (selector body : Text) : Text → Prop
  | blank (blank : body.allBlank = true) : Writes tree id selector body []
  | rule (solid : body.allBlank = false) (selected : (tree.rule id).selector = selector)
      (outermost : .rule id ∈ (tree.rule root).children) :
      Writes tree id selector body (tree.textBelow id)

private theorem Writes.later {options : CompileOptions} {levels : Nat} {rest : Body}
    {before after : RuleTree} {id : RuleId} {selector body text : Text}
    (writes : before.Writes id selector body text) (ordered : before.Ordered)
    (ended : (readBody options levels ⟨root, []⟩ rest before).outcome = .ok after) :
    after.Writes id selector body text := by
  have grown := readBody_grows options levels ⟨root, []⟩ rest before after ordered
    ordered.root_lt ended
  have extended := Call.run_extends levels ⟨levels, ⟨root, []⟩, rest, before⟩ rfl ended
  cases writes with
  | blank blank => exact .blank blank
  | rule solid selected outermost =>
      have linked : id ∈ (before.rule root).links :=
        nested_mem_links (List.mem_filterMap.mpr ⟨_, outermost, rfl⟩)
      obtain ⟨nested, inside⟩ := ordered.link_gt root ordered.root_lt id linked
      rw [← grown.textBelow_eq ordered id nested inside]
      refine .rule solid ((grown.selector_eq id inside).trans selected) ?_
      exact (extended.children_prefix root ordered.root_lt).subset outermost

end RuleTree

/-- A block that binds no global variable leaves the outermost names alone and
contributes its own text. -/
theorem view_of_block {options : CompileOptions} {before selector body : Text}
    (writable : Writable selector) (closed : body.Closed) {known middle : RuleTree}
    (ordered : known.Ordered)
    (unbound : ¬ (Call.ofBlock before selector body known).BindsGlobal options)
    (ended : (readBody options (nestingLimit + 1) ⟨root, []⟩
      ⟨Text.block selector body, Location.start.advanceOver before⟩ known).outcome = .ok middle) :
    ∃ own, middle.Ordered ∧ middle.Writes known.size selector body own ∧
      middle.view root = ⟨known.frames root, { known.yielded root with
        nested := (known.yielded root).nested ++ own }⟩ := by
  have inside := ordered.root_lt
  rw [writable.readBody_rule closed] at ended
  cases blank : body.allBlank with
  | true =>
      rw [blank, if_pos rfl] at ended
      injection ended with same
      subst same
      refine ⟨[], ordered, .blank blank, ?_⟩
      rw [view, List.append_nil]
  | false =>
      rw [blank, if_neg Bool.false_ne_true] at ended
      have new := made_addRule ordered inside selector
      have later := readBody_grows options nestingLimit ⟨known.size, []⟩ _ _ middle
        new.grown.ordered new.size_lt ended
      have grown := new.enter later
      have extended := Call.run_extends nestingLimit (Call.ofBlock before selector body known) rfl
        ended
      -- The call reads into a rule of its own, and binds nothing in the outermost one.
      have untouched : middle.rule root = (known.addRule root selector).rule root := by
        refine extended.rule_eq root (Nat.lt_trans inside new.size_lt) ?_
        rintro (same | ⟨_, binds⟩)
        · exact Nat.ne_of_lt inside same
        · exact unbound binds
      rw [new.linked] at untouched
      have yields := new.yielded_eq ordered inside later
      have frames : middle.frames root = known.frames root := by
        rw [grown.ordered.frames_root, ordered.frames_root, frame, frame, untouched]
      refine ⟨middle.textBelow known.size, grown.ordered, .rule blank ?_ ?_, ?_⟩
      · rw [later.selector_eq known.size new.size_lt, new.fresh]
        rfl
      · rw [untouched]
        exact List.mem_append_right _ (List.mem_singleton_self _)
      · rw [view, frames, yields]
        simp [Child.line?, Child.rule?]

/-! ### What follows a block -/

private theorem OnePass.Yield.text_append_outermost (first second : Yield) :
    (first.append second).text [] =
      first.nested ++ second.nested ++ (first.media ++ second.media) := rfl

private theorem readBody_outermost (options : CompileOptions) (levels : Nat) (body : Body)
    {tree : RuleTree} (ordered : tree.Ordered) :
    (readBody options levels ⟨root, []⟩ body tree).map (fun after => after.view root) =
      (OnePass.readBody options levels ⟨[], []⟩ body ⟨tree.frames root, .empty⟩).map
        fun state => state.behind (tree.yielded root) := by
  have agrees := readBody_agrees options levels ⟨root, []⟩ body tree ordered ordered.root_lt
  have start : tree.view root =
      OnePass.State.behind ⟨tree.frames root, .empty⟩ (tree.yielded root) := by
    rw [view, OnePass.State.behind, OnePass.Yield.append_empty]
  rw [selector_of_outermost ordered.root_parent, start,
    OnePass.readBody_appends options levels] at agrees
  exact agrees.symm

/-- From two trees with the same outermost names a text is read alike, and its
contribution is the same. -/
theorem readBody_from_outermost {options : CompileOptions} {levels : Nat} {text : Text}
    {here : Location} (there : Location) {middle twin final : RuleTree} (ordered : middle.Ordered)
    (orderedToo : twin.Ordered) (same : twin.frames root = middle.frames root)
    (ended : (readBody options levels ⟨root, []⟩ ⟨text, here⟩ middle).outcome = .ok final) :
    ∃ last rest, (readBody options levels ⟨root, []⟩ ⟨text, there⟩ twin).outcome = .ok last ∧
      final.yielded root = (middle.yielded root).append rest ∧
      last.yielded root = (twin.yielded root).append rest := by
  have seen : ((readBody options levels ⟨root, []⟩ ⟨text, here⟩ middle).map
      fun after => after.view root).outcome = .ok (final.view root) :=
    Traced.outcome_map_eq_ok.mpr ⟨final, ended, rfl⟩
  rw [readBody_outermost options levels _ ordered] at seen
  obtain ⟨state, read, contributes⟩ := Traced.outcome_map_eq_ok.mp seen
  have covers : Frames.Covers [] (middle.frames root) (twin.frames root) := by
    rw [same, ordered.frames_root]
    exact .outermost (.refl _)
  obtain ⟨other, readToo, matching⟩ := OnePass.readBody_carries options levels levels
    (Nat.le_refl _) [] [] [] [] ⟨text, here⟩ ⟨text, there⟩ ⟨middle.frames root, .empty⟩
    ⟨twin.frames root, .empty⟩ state Frames.innermost_nil (List.Subset.refl _) rfl ⟨covers, rfl⟩
    read
  have seenToo : ((OnePass.readBody options levels ⟨[], []⟩ ⟨text, there⟩
      ⟨twin.frames root, .empty⟩).map fun state => state.behind (twin.yielded root)).outcome =
        .ok (other.behind (twin.yielded root)) :=
    Traced.outcome_map_eq_ok.mpr ⟨other, readToo, rfl⟩
  rw [← readBody_outermost options levels _ orderedToo] at seenToo
  obtain ⟨last, endedToo, contributesToo⟩ := Traced.outcome_map_eq_ok.mp seenToo
  refine ⟨last, state.yielded, endedToo, ?_, ?_⟩
  · exact congrArg OnePass.State.yielded contributes.symm
  · rw [matching.yielded]
    exact congrArg OnePass.State.yielded contributesToo

private theorem outcome_ofSource_block_eq_ok {options : CompileOptions} {before block after : Text}
    (whole : before.Whole) (wholeBlock : block.Whole) {final : RuleTree} :
    (RuleTree.ofSource options (before ++ (block ++ after))).outcome = .ok final ↔
      ∃ known middle, (RuleTree.ofSource options before).outcome = .ok known ∧
        (readBody options (nestingLimit + 1) ⟨root, []⟩ ⟨block, Location.start.advanceOver before⟩
          known).outcome = .ok middle ∧
        (readBody options (nestingLimit + 1) ⟨root, []⟩
          ⟨after, (Location.start.advanceOver before).advanceOver block⟩ middle).outcome =
            .ok final := by
  simp only [ofSource_append options whole, Traced.outcome_andThen_eq_ok,
    readBody_append options nestingLimit _ wholeBlock]
  constructor
  · rintro ⟨known, read, middle, readBlock, readAfter⟩
    exact ⟨known, middle, read, readBlock, readAfter⟩
  · rintro ⟨known, middle, read, readBlock, readAfter⟩
    exact ⟨known, read, middle, readBlock, readAfter⟩

/-- Whatever stands in a rule, as long as it binds no global variable, what comes
before and after the rule compiles to the same text around that of the rule. -/
theorem compileSource_isolated (options : CompileOptions)
    {before selector body other after css cssToo : Text} (whole : before.Whole)
    (writable : Writable selector)
    (faultless : (Body.ofSource body).segmentation.fault? = none)
    (settled : ∃ afterColon, (Mode.code false).after body = .code afterColon)
    (faultlessToo : (Body.ofSource other).segmentation.fault? = none)
    (settledToo : ∃ afterColon, (Mode.code false).after other = .code afterColon)
    (unbound : ∀ known, (RuleTree.ofSource options before).outcome = .ok known →
      ¬ (Call.ofBlock before selector body known).BindsGlobal options ∧
      ¬ (Call.ofBlock before selector other known).BindsGlobal options)
    (compiled : (compileSource options
      (before ++ (Text.block selector body ++ after))).outcome = .ok css)
    (compiledToo : (compileSource options (before ++ Text.block selector other)).outcome =
      .ok cssToo) :
    ∃ known tree twin front own ownToo back,
      (RuleTree.ofSource options before).outcome = .ok known ∧
      (RuleTree.ofSource options (before ++ (Text.block selector body ++ after))).outcome =
        .ok tree ∧
      (RuleTree.ofSource options (before ++ (Text.block selector other ++ after))).outcome =
        .ok twin ∧
      tree.Writes known.size selector body own ∧ twin.Writes known.size selector other ownToo ∧
      css = front ++ own ++ back ∧
      (compileSource options (before ++ (Text.block selector other ++ after))).outcome =
        .ok (front ++ ownToo ++ back) := by
  have closed : body.Closed := ⟨(Body.ofSource body).fault?_eq_none_iff.mp faultless, settled⟩
  have closedToo : other.Closed :=
    ⟨(Body.ofSource other).fault?_eq_none_iff.mp faultlessToo, settledToo⟩
  obtain ⟨tree, ended, written⟩ := Traced.outcome_map_eq_ok.mp compiled
  obtain ⟨known, middle, read, readBlock, readAfter⟩ :=
    (outcome_ofSource_block_eq_ok whole (writable.heading.whole_block closed)).mp ended
  obtain ⟨twinMiddle, endedToo, _⟩ := Traced.outcome_map_eq_ok.mp compiledToo
  rw [ofSource_append options whole, Traced.outcome_andThen_eq_ok] at endedToo
  obtain ⟨knownToo, readToo, readOther⟩ := endedToo
  have same : knownToo = known := Except.ok.inj (readToo.symm.trans read)
  subst same
  obtain ⟨unboundHere, unboundThere⟩ := unbound knownToo read
  have ordered := ordered_ofSource read
  obtain ⟨own, orderedMiddle, writes, sees⟩ :=
    view_of_block writable closed ordered unboundHere readBlock
  obtain ⟨ownToo, orderedTwin, writesToo, seesToo⟩ :=
    view_of_block writable closedToo ordered unboundThere readOther
  have frames : twinMiddle.frames root = middle.frames root :=
    (congrArg OnePass.State.frames seesToo).trans (congrArg OnePass.State.frames sees).symm
  obtain ⟨twin, rest, readRest, yields, yieldsToo⟩ := readBody_from_outermost
    ((Location.start.advanceOver before).advanceOver (Text.block selector other))
    orderedMiddle orderedTwin frames readAfter
  rw [show middle.yielded root = _ from congrArg OnePass.State.yielded sees] at yields
  rw [show twinMiddle.yielded root = _ from congrArg OnePass.State.yielded seesToo] at yieldsToo
  have endedTwin := (outcome_ofSource_block_eq_ok whole (writable.heading.whole_block closedToo)).mpr
    ⟨knownToo, twinMiddle, read, readOther, readRest⟩
  refine ⟨knownToo, tree, twin, (knownToo.yielded root).nested, own, ownToo,
    rest.nested ++ ((knownToo.yielded root).media ++ rest.media), read, ended, endedTwin,
    writes.later orderedMiddle readAfter, writesToo.later orderedTwin readRest, ?_, ?_⟩
  · rw [← written, text_of_ofSource ended, view, yields, OnePass.Yield.text_append_outermost,
      List.append_assoc, List.append_assoc]
  · refine Traced.outcome_map_eq_ok.mpr ⟨twin, endedTwin, ?_⟩
    rw [text_of_ofSource endedTwin, view, yieldsToo, OnePass.Yield.text_append_outermost,
      List.append_assoc, List.append_assoc]

theorem compileSource_isolated_locals :
    let before := "$a:b;@mixin m\x7bc:$a\x7d ".toList
    let body := "$a:d;@mixin m\x7be:f\x7dg:$a;h\x7bi:$a\x7d".toList
    let other := "@media j\x7b$a:k;l:$a\x7d".toList
    let after := "n\x7b@include m;o:$a\x7d@media p\x7bq\x7br:$a\x7d\x7d".toList
    ∃ known tree twin front own ownToo back,
      (RuleTree.ofSource {} before).outcome = .ok known ∧
      (RuleTree.ofSource {} (before ++ (Text.block "s".toList body ++ after))).outcome =
        .ok tree ∧
      (RuleTree.ofSource {} (before ++ (Text.block "s".toList other ++ after))).outcome =
        .ok twin ∧
      tree.Writes known.size "s".toList body own ∧ twin.Writes known.size "s".toList other ownToo ∧
      "s\x7bg:d;\x7ds h\x7bi:d;\x7dn\x7bc:b;o:b;\x7d@media p\x7bq\x7br:b;\x7d\x7d".toList =
        front ++ own ++ back ∧
      (compileSource {} (before ++ (Text.block "s".toList other ++ after))).outcome =
        .ok (front ++ ownToo ++ back) := by
  intro before body other after
  have selected : Writable "s".toList := ⟨by decide +kernel, by decide, by decide⟩
  have quiet : Body.isLocal nestingLimit
      ⟨body, ((Location.start.advanceOver before).advanceOver "s".toList).advance '{'⟩ = true := by
    decide +kernel
  have quietToo : Body.isLocal nestingLimit
      ⟨other, ((Location.start.advanceOver before).advanceOver "s".toList).advance '{'⟩ = true := by
    decide +kernel
  have compiled : (compileSource {} (before ++ (Text.block "s".toList body ++ after))).outcome =
      .ok "s\x7bg:d;\x7ds h\x7bi:d;\x7dn\x7bc:b;o:b;\x7d@media p\x7bq\x7br:b;\x7d\x7d".toList := by
    decide +kernel
  have compiledToo : (compileSource {} (before ++ Text.block "s".toList other)).outcome =
      .ok "@media j\x7bs\x7bl:k;\x7d\x7d".toList := by
    decide +kernel
  exact compileSource_isolated {} (by decide +kernel) selected (by decide +kernel)
    ⟨false, by decide +kernel⟩ (by decide +kernel) ⟨false, by decide +kernel⟩
    (fun known _ => ⟨Call.not_bindsGlobal_of_isLocal quiet,
      Call.not_bindsGlobal_of_isLocal quietToo⟩) compiled compiledToo

end NestedCss
