import NestedCss.Proofs.Agreement
import NestedCss.Proofs.Calls
import NestedCss.Proofs.PieceReading

set_option autoImplicit false

/-! Including a mixin is writing its body in place of the request. The request may
stand in the stylesheet itself or in rules and media blocks inside one another,
each of which is found by reading what stands before it. The body of the mixin is
a closed text, so a semicolon after it makes it whole, and it is read in the frame
of the request either way. -/

namespace NestedCss

open RuleTree

/-- The text that a call reads, with the body of a mixin in place of one request
for it. The request stands in the body itself, or in a rule or media block that
is read from it; bodies of mixins are left alone. -/
inductive Inlines (options : CompileOptions) : Call → Text → Prop
  | request {levels : Nat} {site : Site} {tree middle : RuleTree} {before statement after : Text}
      {here : Location} {inclusion : Inclusion} {defined : Mixin}
      (leads : before.Whole) (closed : statement.Closed)
      (asks : (Body.mk statement (here.advanceOver before)).segmentation.segments.map
        Node.ofSegment = [.inclusion inclusion])
      (reached : (readBody options (levels + 1) site ⟨before, here⟩ tree).outcome = .ok middle)
      (found : middle.findMixin site.rule inclusion.name = some defined) :
      Inlines options ⟨levels + 1, site, ⟨before ++ (statement ++ [';'] ++ after), here⟩, tree⟩
        (before ++ (defined.body.text ++ [';'] ++ after))
  | block {levels : Nat} {site : Site} {tree middle : RuleTree}
      {before heading inner after inlined : Text} {here : Location} {node : Node} {call : Call}
      (leads : before.Whole) (begins : heading.Heading) (closed : inner.Closed)
      (solid : inner.allBlank = false)
      (opens : (Body.mk (Text.block heading inner)
        (here.advanceOver before)).segmentation.segments.map Node.ofSegment = [node])
      (reached : (readBody options (levels + 1) site ⟨before, here⟩ tree).outcome = .ok middle)
      (calls : node.call? levels site middle = some call)
      (inside : Inlines options call inlined) :
      Inlines options
        ⟨levels + 1, site, ⟨before ++ (Text.block heading inner ++ after), here⟩, tree⟩
        (before ++ (Text.block heading inlined ++ after))

namespace Call

def state (call : Call) : OnePass.State := call.tree.view call.site.rule

def surroundings (call : Call) : OnePass.Surroundings :=
  ⟨call.tree.selector call.site.rule, call.site.active⟩

variable {options : CompileOptions} {levels : Nat} {site : Site} {tree middle : RuleTree}
  {text : Text} {here : Location}

private theorem Sound.later {body : Body} (sound : (Call.mk levels site body tree).Sound)
    (reached : (readBody options levels site ⟨text, here⟩ tree).outcome = .ok middle)
    (next : Body) : (Call.mk levels site next middle).Sound ∧
      (Call.mk levels site next middle).surroundings =
        (Call.mk levels site body tree).surroundings := by
  have grown := readBody_grows options levels site ⟨text, here⟩ tree middle sound.ordered
    sound.inside reached
  have alone : (Call.mk levels site ⟨text, here⟩ tree).Sound :=
    ⟨sound.ordered, sound.inside, sound.mixins⟩
  have kept := alone.mixins_run reached
  refine ⟨⟨grown.ordered, Nat.lt_of_lt_of_le sound.inside grown.size_le, kept⟩, ?_⟩
  simp only [surroundings, grown.selector_below sound.ordered site.rule sound.inside]

private theorem Sound.state_of_reached {body : Body} (sound : (Call.mk levels site body tree).Sound)
    (reached : (readBody options levels site ⟨text, here⟩ tree).outcome = .ok middle) :
    (OnePass.readBody options levels (Call.mk levels site body tree).surroundings ⟨text, here⟩
      (Call.mk levels site body tree).state).outcome = .ok (middle.view site.rule) := by
  rw [surroundings, state,
    readBody_agrees options levels site ⟨text, here⟩ tree sound.ordered sound.inside]
  exact Traced.outcome_map_eq_ok.mpr ⟨middle, reached, rfl⟩

private theorem Sound.of_block {header : Text} {location : Location} {body next : Body}
    {call : Call} {room : Nat}
    (sound : (Call.mk room site body tree).Sound)
    (calls : (Node.ofSegment (.block header location next)).call? levels site tree = some call) :
    call.Sound ∧ call.levels = levels ∧ call.body = next ∧
      call.state = ⟨.empty :: (tree.view site.rule).frames, .empty⟩ := by
  simp only [Node.ofSegment, Node.ofBlock] at calls
  split at calls
  · cases calls
  · split at calls
    · injection calls with same
      subst same
      have new := made_addMedia sound.ordered sound.inside
      refine ⟨⟨(new _).grown.ordered, (new _).size_lt, ?_⟩, rfl, rfl,
        (new _).view_eq sound.ordered sound.inside⟩
      exact mixinsClosed_kept.addMedia tree _ _ sound.ordered sound.inside sound.mixins
          fun _ same => by cases same
    · injection calls with same
      subst same
      have new := made_addRule sound.ordered sound.inside header
      refine ⟨⟨new.grown.ordered, new.size_lt, ?_⟩, rfl, rfl,
        new.view_eq sound.ordered sound.inside⟩
      exact mixinsClosed_kept.addRule tree _ _ sound.ordered sound.inside sound.mixins

end Call

private theorem Text.Heading.node_eq {heading inner : Text} (begins : heading.Heading)
    (closed : inner.Closed) (solid : inner.allBlank = false) {here : Location} {node : Node}
    (opens : (Body.mk (Text.block heading inner) here).segmentation.segments.map Node.ofSegment =
      [node]) :
    ∃ header location place, node = .ofSegment (.block header location ⟨inner, place⟩) ∧
      ∀ other : Text, other.Closed → other.allBlank = false →
        (Body.mk (Text.block heading other) here).segmentation =
          ⟨[.block header location ⟨other, place⟩], none⟩ := by
  obtain ⟨header, location, place, reads⟩ := begins.segmentation_block here
  refine ⟨header, location, place, ?_, reads⟩
  rw [reads inner closed solid, List.map_singleton] at opens
  injection opens with same
  exact same.symm

namespace Inlines

variable {options : CompileOptions} {call : Call} {inlined : Text}

private theorem allBlank_eq_false (inlines : Inlines options call inlined) :
    inlined.allBlank = false := by
  cases inlines with
  | request leads closed asks reached found =>
      exact Text.allBlank_eq_false (List.mem_append_right _ (List.mem_append_left _
        (List.mem_append_right _ (List.mem_singleton_self ';')))) (by decide)
  | block leads begins closed solid opens reached calls inside =>
      exact Text.allBlank_eq_false (List.mem_append_right _ (List.mem_append_left _
        (List.mem_append_right _ (List.mem_cons_self ..)))) (by decide : isBlank '{' = false)

private theorem closed (inlines : Inlines options call inlined) :
    call.Sound → call.body.text.Closed → inlined.Closed := by
  induction inlines with
  | @request levels site tree middle before statement after here inclusion defined leads closed
      asks reached found =>
      intro sound body
      have later := (sound.later reached ⟨before, here⟩).1
      have mixin := later.mixins.of_findMixin found
      rw [leads.closed_append_iff, closed.whole_semicolon.closed_append_iff] at body
      rw [leads.closed_append_iff, mixin.whole_semicolon.closed_append_iff]
      exact body
  | @block levels site tree middle before heading inner after inlined here node call leads begins
      closed solid opens reached calls inside ih =>
      intro sound body
      have later := (sound.later reached ⟨before, here⟩).1
      obtain ⟨header, location, place, same, _⟩ := begins.node_eq closed solid opens
      obtain ⟨soundInside, _, reads, _⟩ := later.of_block (same ▸ calls)
      have inner := ih soundInside (reads ▸ closed)
      have whole := begins.whole_block inner
      rw [leads.closed_append_iff, (begins.whole_block closed).closed_append_iff] at body
      rw [leads.closed_append_iff, whole.closed_append_iff]
      exact body

end Inlines

namespace OnePass

private theorem readBody_request {options : CompileOptions} {levels : Nat}
    {surroundings : Surroundings}
    {shape : List Bool} (innermost : Frames.Innermost shape) {state reached : State}
    (covers : Frames.Covers shape state.frames state.frames) {statement : Text}
    (closed : statement.Closed) {here : Location} {inclusion : Inclusion} {defined : Mixin}
    (asks : (Body.mk statement here).segmentation.segments.map Node.ofSegment =
      [.inclusion inclusion])
    (found : state.frames.findMixin inclusion.name = some defined)
    (mixin : defined.body.text.Closed)
    (ended : (readBody options (levels + 1) surroundings ⟨statement ++ [';'], here⟩
      state).outcome = .ok reached) :
    ∃ last, (readBody options (levels + 1) surroundings ⟨defined.body.text ++ [';'], here⟩
      state).outcome = .ok last ∧ reached.Matches shape last := by
  have same := closed.segmentation_semicolon here
  rw [readBody_of_node (by rw [same]; exact closed.fault?_eq_none) (by rw [same]; exact asks)]
    at ended
  simp only [readNode, readInclusion, found] at ended
  split at ended
  · cases ended
  -- In place, the body has one level more to itself, and the name is not active.
  · obtain ⟨last, read, matching⟩ := readBody_carries options levels (levels + 1)
      (Nat.le_succ levels) shape surroundings.selector (surroundings.active ++ [inclusion.name])
      surroundings.active defined.body ⟨defined.body.text, here⟩ state state reached innermost
      (List.subset_append_left _ _) rfl ⟨covers, rfl⟩ ended
    refine ⟨last, ?_, matching⟩
    have sameToo := mixin.segmentation_semicolon here
    simp only [readBody, sameToo]
    exact read

private theorem readNode_of_call {options : CompileOptions} {levels room : Nat} {site : Site}
    {tree : RuleTree} {body inner inlined : Body} {header : Text} {location : Location}
    {call : Call} {shape : List Bool} {reached : State}
    (sound : (Call.mk room site body tree).Sound)
    (calls : (Node.ofSegment (.block header location inner)).call? levels site tree = some call)
    (follows : ∀ final,
      (readBody options levels call.surroundings inner call.state).outcome = .ok final →
      ∃ last, (readBody options levels call.surroundings inlined call.state).outcome = .ok last ∧
        final.Matches (true :: shape) last)
    (ended : (readNode options (readBody options levels) ⟨tree.selector site.rule, site.active⟩
      (tree.view site.rule) (.ofSegment (.block header location inner))).outcome = .ok reached) :
    ∃ last, (readNode options (readBody options levels) ⟨tree.selector site.rule, site.active⟩
      (tree.view site.rule) (.ofSegment (.block header location inlined))).outcome = .ok last ∧
        reached.Matches shape last := by
  simp only [Node.ofSegment, Node.ofBlock] at calls ended ⊢
  cases mixing : Text.afterLead? Node.mixinMark header with
  | some rest =>
      simp only [mixing] at calls
      cases calls
  | none =>
      cases querying : Text.afterLead? Node.mediaMark header with
      | some query =>
          simp only [mixing, querying] at calls ended
          injection calls with same
          subst same
          have new := made_addMedia sound.ordered sound.inside ⟨.ofText query, inner⟩
          simp only [Call.surroundings, Call.state, new.view_eq sound.ordered sound.inside,
            new.selector_of_expansion sound.ordered sound.inside] at follows
          obtain ⟨⟨text, left⟩, read, result⟩ := Traced.outcome_map_eq_ok.mp ended
          subst result
          obtain ⟨others, readToo, covers⟩ := readScoped_alike rfl follows read
          exact ⟨_, Traced.outcome_map_eq_ok.mpr ⟨(text, others), readToo, rfl⟩, covers, rfl⟩
      | none =>
          simp only [mixing, querying] at calls ended
          injection calls with same
          subst same
          have new := made_addRule sound.ordered sound.inside header
          simp only [Call.surroundings, Call.state, new.view_eq sound.ordered sound.inside,
            new.selector_eq sound.ordered sound.inside] at follows
          obtain ⟨⟨text, left⟩, read, result⟩ := Traced.outcome_map_eq_ok.mp ended
          subst result
          obtain ⟨others, readToo, covers⟩ := readScoped_alike rfl follows read
          exact ⟨_, Traced.outcome_map_eq_ok.mpr ⟨(text, others), readToo, rfl⟩, covers, rfl⟩

end OnePass

/-- Inlining a mixin leaves the contribution of the reading as it is. -/
theorem Inlines.carries {options : CompileOptions} {call : Call} {inlined : Text}
    (inlines : Inlines options call inlined) :
    ∀ {shape : List Bool} {final : OnePass.State}, call.Sound → Frames.Innermost shape →
      Frames.Covers shape call.state.frames call.state.frames →
      (OnePass.readBody options call.levels call.surroundings call.body call.state).outcome =
        .ok final →
      ∃ last, (OnePass.readBody options call.levels call.surroundings ⟨inlined, call.body.origin⟩
        call.state).outcome = .ok last ∧ final.Matches shape last := by
  induction inlines with
  | @request levels site tree middle before statement after here inclusion defined leads closed
      asks reached found =>
      intro shape final sound innermost covers ended
      have later := (sound.later reached ⟨before, here⟩).1
      have mixin := later.mixins.of_findMixin found
      have readBefore := sound.state_of_reached reached
      refine OnePass.readBody_replace innermost leads closed.whole_semicolon mixin.whole_semicolon
        readBefore ?_ ended
      intro reachedState readPiece
      refine OnePass.readBody_request innermost
        (OnePass.covers_of_readBody innermost covers readBefore) closed asks ?_ mixin readPiece
      rw [view, findMixin_frames]
      exact found
  | @block levels site tree middle before heading inner after inlined here node call leads begins
      closed solid opens reached calls inside ih =>
      intro shape final sound innermost covers ended
      have later := (sound.later reached ⟨before, here⟩)
      have readBefore := sound.state_of_reached reached
      -- The body of the block is read in a frame of its own, in both readings.
      have coversMiddle := OnePass.covers_of_readBody innermost covers readBefore
      obtain ⟨header, location, place, same, reads⟩ := begins.node_eq closed solid opens
      subst same
      obtain ⟨soundInside, depth, carried, fresh⟩ := later.1.of_block calls
      have closedInside := inside.closed soundInside (by rw [carried]; exact closed)
      have solidInside := inside.allBlank_eq_false
      refine OnePass.readBody_replace innermost leads (begins.whole_block closed)
        (begins.whole_block closedInside) readBefore ?_ ended
      intro reachedState readPiece
      have original := reads inner closed solid
      have replaced := reads inlined closedInside solidInside
      rw [OnePass.readBody_of_node (by rw [original]) (by rw [original]; rfl)] at readPiece
      rw [OnePass.readBody_of_node (by rw [replaced]) (by rw [replaced]; rfl)]
      have around : (Call.mk (levels + 1) site ⟨before ++ (Text.block heading inner ++ after), here⟩
          tree).surroundings = ⟨middle.selector site.rule, site.active⟩ := later.2.symm
      rw [around] at readPiece ⊢
      refine OnePass.readNode_of_call later.1 calls ?_ readPiece
      intro last ended
      have coversInside : Frames.Covers (true :: shape) call.state.frames call.state.frames := by
        rw [fresh]
        exact coversMiddle.push
      rw [depth, carried] at ih
      exact ih soundInside (Frames.innermost_shared shape) coversInside ended

/-- Replace a request for a mixin, in the stylesheet itself or in rules and media
blocks of it, by the body of the mixin and a semicolon: the stylesheet compiles to
the same text. -/
theorem compileSource_inline {options : CompileOptions} {source inlined css : Text}
    (inlines : Inlines options (.ofSource source) inlined)
    (compiled : (compileSource options source).outcome = .ok css) :
    (compileSource options inlined).outcome = .ok css := by
  obtain ⟨final, read, written⟩ := outcome_compileSource_eq_ok.mp compiled
  have top : (Call.ofSource source).surroundings = ⟨[], []⟩ := by
    have outermost : RuleTree.empty.selector root = [] := selector_of_outermost rfl
    rw [Call.surroundings]
    exact congrArg (fun selector => OnePass.Surroundings.mk selector []) outermost
  have start : (Call.ofSource source).state = ⟨[.empty], .empty⟩ := by
    rw [Call.state, Call.ofSource, view, ordered_empty.frames_root]
    rfl
  obtain ⟨last, readToo, matching⟩ := inlines.carries (Call.sound_ofSource source)
    Frames.innermost_nil (by rw [start]; exact .outermost (.refl _)) (by rw [top, start]; exact read)
  rw [top, start] at readToo
  exact outcome_compileSource_eq_ok.mpr ⟨last, readToo, by rw [← matching.yielded]; exact written⟩

theorem compileSource_inline_within_rule :
    (compileSource {} ("@mixin m\x7bc:d;&:e\x7bf:g\x7d\x7d".toList ++
      (Text.block "a".toList ([] ++ ("c:d;&:e\x7bf:g\x7d".toList ++ [';'] ++ "h:i".toList)) ++
        []))).outcome = .ok "a\x7bc:d;h:i;\x7da:e\x7bf:g;\x7d".toList := by
  let defined : Mixin := ⟨"m".toList, ⟨"c:d;&:e\x7bf:g\x7d".toList, ⟨1, 10⟩⟩⟩
  let middle : RuleTree := RuleTree.empty.defineMixin root defined
  have leads : Text.Whole "@mixin m\x7bc:d;&:e\x7bf:g\x7d\x7d".toList :=
    ⟨⟨[.block "@mixin m".toList .start defined.body], by decide +kernel⟩, false,
      by decide +kernel⟩
  have reached : (readBody {} (nestingLimit + 1) ⟨root, []⟩
      ⟨"@mixin m\x7bc:d;&:e\x7bf:g\x7d\x7d".toList, .start⟩ .empty).outcome = .ok middle := by
    have segmented : (Body.mk "@mixin m\x7bc:d;&:e\x7bf:g\x7d\x7d".toList .start).segmentation =
        ⟨[.block "@mixin m".toList .start defined.body], none⟩ := by decide +kernel
    have node : Node.ofSegment (.block "@mixin m".toList .start defined.body) =
        .mixin defined := by decide +kernel
    simp only [readBody, applySegmentation, Traced.foldNodes, segmented, List.map_cons,
      List.map_nil, node]
    rfl
  let inner : Text := [] ++ ("@include m".toList ++ [';'] ++ "h:i".toList)
  have inside : Inlines {} ⟨nestingLimit, ⟨1, []⟩, ⟨inner, ⟨1, 25⟩⟩,
      middle.addRule root "a".toList⟩ ([] ++ (defined.body.text ++ [';'] ++ "h:i".toList)) := by
    have asks : (Body.mk "@include m".toList ⟨1, 25⟩).segmentation.segments.map Node.ofSegment =
        [.inclusion ⟨"m".toList, ⟨1, 25⟩⟩] := by decide +kernel
    exact .request ⟨⟨[], rfl⟩, false, rfl⟩ ⟨by decide +kernel, false, by decide +kernel⟩ asks rfl
      (by decide +kernel)
  have opens : (Body.mk (Text.block "a".toList inner) ⟨1, 23⟩).segmentation.segments.map
      Node.ofSegment = [.rule "a".toList ⟨inner, ⟨1, 25⟩⟩] := by decide +kernel
  have inlines : Inlines {} (.ofSource ("@mixin m\x7bc:d;&:e\x7bf:g\x7d\x7d".toList ++
      (Text.block "a".toList inner ++ [])))
      ("@mixin m\x7bc:d;&:e\x7bf:g\x7d\x7d".toList ++ (Text.block "a".toList
        ([] ++ ("c:d;&:e\x7bf:g\x7d".toList ++ [';'] ++ "h:i".toList)) ++ [])) := by
    refine .block leads ⟨⟨[⟨'a', .code, .start⟩], ?_⟩, false, ?_⟩ ⟨?_, false, ?_⟩ ?_ opens reached
      rfl inside
    · decide +kernel
    · decide +kernel
    · decide +kernel
    · decide +kernel
    · decide +kernel
  exact compileSource_inline inlines (by decide +kernel)

end NestedCss
