import NestedCss.Proofs.Positions

set_option autoImplicit false

/-! Locations name places in the source. Whatever a tree holds was read from a statement
or a block of the source, also where the body of a mixin was expanded far from its
definition, and its location is the place of that statement or of that body. The same
goes for the locations of failures. -/

namespace NestedCss

open RuleTree

/-- A node is read from the statement, or from the block with the body, that stands at an
index of the source. -/
inductive Node.StandsAt (source : Text) (index : Nat) : Node → Prop
  | statement {text : Text} {location : Location}
      (stands : Glyph.StatementAt (Body.ofSource source).glyphs index text location) :
      StandsAt source index (.ofStatement text location)
  | block {header : Text} {body : Body}
      (stands : Glyph.BodyAt (Body.ofSource source).glyphs index header body) :
      StandsAt source index (.ofBlock header body)

/-- Comments are not looked for in the source; every other node stands in it. -/
def Node.FoundIn (source : Text) (node : Node) : Prop :=
  (∃ text, node = .comment text) ∨ ∃ index, node.StandsAt source index

def Node.location? : Node → Option Location
  | .binding declared => some declared.location
  | .property declared => some declared.location
  | .inclusion request => some request.location
  | .mixin defined => some defined.body.origin
  | .media block => some block.body.origin
  | .rule _ body => some body.origin
  | .comment _ => none

namespace Node

private theorem location?_ofStatement (text : Text) (location : Location) :
    (ofStatement text location).location? = some location := by
  unfold ofStatement
  split
  · rfl
  · split
    · simp only [location?, Binding.ofStatement]
      split <;> rfl
    · rfl

private theorem body?_ofStatement (text : Text) (location : Location) :
    (ofStatement text location).body? = none := by
  unfold ofStatement
  split
  · rfl
  · split <;> rfl

private theorem location?_ofBlock (header : Text) (body : Body) :
    (ofBlock header body).location? = some body.origin := by
  unfold ofBlock
  split
  · rfl
  · split <;> rfl

private theorem body?_ofBlock (header : Text) (body : Body) :
    (ofBlock header body).body? = some body := by
  unfold ofBlock
  split
  · rfl
  · split <;> rfl

variable {source : Text} {index : Nat} {node : Node}

private theorem StandsAt.location?_eq (stands : node.StandsAt source index) :
    node.location? = some (Location.start.advanceOver (source.take index)) := by
  cases stands with
  | statement stands => rw [location?_ofStatement, stands.location_eq]
  | block stands => rw [location?_ofBlock, stands.origin_eq]

private theorem StandsAt.bodyAt (stands : node.StandsAt source index) {inner : Body}
    (carried : node.body? = some inner) :
    ∃ header, Glyph.BodyAt (Body.ofSource source).glyphs index header inner := by
  cases stands with
  | statement stands =>
      rw [body?_ofStatement] at carried
      cases carried
  | @block header body stands =>
      rw [body?_ofBlock] at carried
      injection carried with same
      exact ⟨header, same ▸ stands⟩

private theorem FoundIn.bodyAt (found : node.FoundIn source) {inner : Body}
    (carried : node.body? = some inner) :
    ∃ index header, Glyph.BodyAt (Body.ofSource source).glyphs index header inner := by
  rcases found with ⟨text, rfl⟩ | ⟨index, stands⟩
  · cases carried
  · exact ⟨index, stands.bodyAt carried⟩

end Node

private theorem Body.segment_standsIn (body : Body) :
    ∀ segment ∈ body.segmentation.segments, segment.StandsIn body.glyphs :=
  fun segment present => body.scans.standsIn [] .nil segment present

private theorem Body.foundIn_of_mem_ofSource (source : Text) :
    ∀ node ∈ (Body.ofSource source).nodes, node.FoundIn source := by
  intro node present
  obtain ⟨segment, member, rfl⟩ := List.mem_map.mp present
  have stands := (Body.ofSource source).segment_standsIn segment member
  cases segment with
  | statement text location =>
      obtain ⟨index, stands⟩ := stands
      exact Or.inr ⟨index, .statement stands⟩
  | block header location body =>
      obtain ⟨index, stands⟩ := stands
      exact Or.inr ⟨index, .block stands⟩
  | comment text location => exact Or.inl ⟨text, rfl⟩

private theorem Body.foundIn_of_mem_bodyAt {source header : Text} {index : Nat} {body : Body}
    (lies : Glyph.BodyAt (Body.ofSource source).glyphs index header body) :
    ∀ node ∈ body.nodes, node.FoundIn source := by
  intro node present
  obtain ⟨segment, member, rfl⟩ := List.mem_map.mp present
  have stands := body.segment_standsIn segment member
  cases segment with
  | statement text location =>
      obtain ⟨inner, stands⟩ := stands
      exact Or.inr ⟨index + inner, .statement (lies.statementAt stands)⟩
  | block header location below =>
      obtain ⟨inner, stands⟩ := stands
      exact Or.inr ⟨index + inner, .block (lies.bodyAt stands)⟩
  | comment text location => exact Or.inl ⟨text, rfl⟩

theorem foundIn_kept (source : Text) :
    KeptByReading (Node.FoundIn source) (MadeOf (Node.FoundIn source)) := by
  refine madeOf_kept ?_
  intro node inner found carried
  obtain ⟨index, header, lies⟩ := found.bodyAt carried
  exact Body.foundIn_of_mem_bodyAt lies

theorem within_ofSource (source : Text) :
    (Call.ofSource source).Within (Node.FoundIn source) (MadeOf (Node.FoundIn source)) :=
  ⟨ordered_empty, ordered_empty.root_lt, Body.foundIn_of_mem_ofSource source, madeOf_empty⟩

private theorem bodyAt_of_transGen_spawns {options : CompileOptions} {source : Text} {call : Call}
    (called : Relation.TransGen (Call.Spawns options) (.ofSource source) call) :
    ∃ index header, Glyph.BodyAt (Body.ofSource source).glyphs index header call.body := by
  obtain ⟨outer, before, spawned⟩ := Relation.TransGen.tail'_iff.mp called
  have within := (foundIn_kept source).called (within_ofSource source) before
  rcases (foundIn_kept source).body_of_spawns within spawned with
    ⟨node, present, carried⟩ | ⟨defined, found, same⟩
  · exact (within.nodes node present).bodyAt carried
  · exact found.bodyAt (congrArg some same)

/-- Every location in a tree is the place of an index of the source, and at the index
stands what the location belongs to. -/
structure RuleTree.Located (source : Text) (tree : RuleTree) : Prop where
  properties : ∀ id property, Child.property property ∈ (tree.rule id).children →
    ∃ index raw, Node.StandsAt source index (.property raw) ∧
      property = { raw with value := property.value } ∧
      property.location = Location.start.advanceOver (source.take index)
  bindings : ∀ id name declared, (tree.rule id).bindings.find? name = some declared →
    ∃ index, Node.StandsAt source index (.binding declared) ∧
      declared.location = Location.start.advanceOver (source.take index)
  mixins : ∀ id name defined, (tree.rule id).mixins.find? name = some defined →
    ∃ index, Node.StandsAt source index (.mixin defined) ∧
      defined.body.origin = Location.start.advanceOver (source.take index)
  media : ∀ id, ∀ entry ∈ (tree.rule id).media,
    ∃ index, Node.StandsAt source index (.media entry.block) ∧
      entry.block.body.origin = Location.start.advanceOver (source.take index)

private theorem RuleTree.MadeOf.located {source : Text} {tree : RuleTree}
    (made : tree.MadeOf (Node.FoundIn source)) : tree.Located source where
  properties := by
    intro id property present
    obtain ⟨raw, ⟨text, other⟩ | ⟨index, stands⟩, same⟩ := (made id).properties property present
    · cases other
    · refine ⟨index, raw, stands, same, ?_⟩
      rw [same]
      exact Option.some.inj stands.location?_eq
  bindings := by
    intro id name declared found
    obtain ⟨text, other⟩ | ⟨index, stands⟩ := (made id).bindings name declared found
    · cases other
    · exact ⟨index, stands, Option.some.inj stands.location?_eq⟩
  mixins := by
    intro id name defined found
    obtain ⟨text, other⟩ | ⟨index, stands⟩ := (made id).mixins name defined found
    · cases other
    · exact ⟨index, stands, Option.some.inj stands.location?_eq⟩
  media := by
    intro id entry present
    obtain ⟨text, other⟩ | ⟨index, stands⟩ := (made id).media entry present
    · cases other
    · exact ⟨index, stands, Option.some.inj stands.location?_eq⟩

/-- A failure points at what is wrong: at the statement that asks for a name in vain when
it is read, at the body that stands too deep when it is to be read, or at the brace
without a partner. -/
inductive Error.LocatedIn (options : CompileOptions) (source : Text) : Error → Prop
  | name {call : Call} {node : Node} {cause : Cause} {index : Nat}
      (called : Relation.ReflTransGen (Call.Spawns options) (.ofSource source) call)
      (misses : call.Misses options node ⟨cause, Location.start.advanceOver (source.take index)⟩)
      (stands : node.StandsAt source index) :
      LocatedIn options source ⟨cause, Location.start.advanceOver (source.take index)⟩
  | nesting {call : Call} {header : Text} {index : Nat}
      (called : Relation.TransGen (Call.Spawns options) (.ofSource source) call)
      (deep : call.levels = 0)
      (stands : Glyph.BodyAt (Body.ofSource source).glyphs index header call.body) :
      LocatedIn options source
        ⟨.nestingTooDeep nestingLimit, Location.start.advanceOver (source.take index)⟩
  | brace {context? : Option Text} {index : Nat}
      (stands : Glyph.BraceAt (Body.ofSource source).glyphs index
        (Location.start.advanceOver (source.take index))) :
      LocatedIn options source
        ⟨.unbalancedBlock context?, Location.start.advanceOver (source.take index)⟩

private theorem Node.StandsAt.locatedIn {options : CompileOptions} {source : Text} {call : Call}
    {node : Node} {error : Error} {index : Nat}
    (called : Relation.ReflTransGen (Call.Spawns options) (.ofSource source) call)
    (misses : call.Misses options node error) (stands : node.StandsAt source index) :
    error.LocatedIn options source := by
  have placed : error.location = Location.start.advanceOver (source.take index) := by
    have same := stands.location?_eq
    cases misses with
    | node _ _ missing =>
        cases missing with
        | unbound _ _ => exact Option.some.inj same
        | undefined _ => exact Option.some.inj same
        | recursive _ => exact Option.some.inj same
  obtain ⟨cause, location⟩ := error
  obtain rfl : location = Location.start.advanceOver (source.take index) := placed
  exact .name called misses stands

private theorem locatedIn_of_ofSource_eq_error {options : CompileOptions} {source : Text}
    {error : Error} (failed : (ofSource options source).outcome = .error error) :
    error.LocatedIn options source := by
  obtain ⟨inner, calls, reason⟩ := Call.error_cases (nestingLimit + 1) (.ofSource source) rfl failed
  have spawned := Relation.reflTransGen_iff_eq_or_transGen.mp calls
  rcases reason with ⟨deep, rfl⟩ | faulty | ⟨node, misses⟩
  · rcases spawned with rfl | deeper
    · cases deep
    · obtain ⟨index, header, stands⟩ := bodyAt_of_transGen_spawns deeper
      rw [stands.origin_eq]
      exact .nesting deeper deep stands
  · rcases spawned with rfl | deeper
    · obtain ⟨index, context?, stands, unbalanced⟩ :=
        (Body.ofSource source).scans.braceAt [] rfl error faulty
      obtain ⟨cause, location⟩ := error
      obtain rfl : cause = .unbalancedBlock context? := unbalanced
      have placed := stands.location_eq
      obtain rfl : location = Location.start.advanceOver (source.take index) := placed
      exact .brace stands
    · obtain ⟨index, header, stands⟩ := bodyAt_of_transGen_spawns deeper
      rw [stands.closed.fault?_eq_none] at faulty
      cases faulty
  · have within := (foundIn_kept source).called (within_ofSource source) calls
    have present : node ∈ inner.body.nodes := by
      cases misses with
      | node split _ _ =>
          simp only [split]
          exact List.mem_append_right _ (List.mem_cons_self ..)
    rcases within.nodes node present with ⟨text, rfl⟩ | ⟨index, stands⟩
    · cases misses with
      | node _ _ missing => cases missing
    · exact stands.locatedIn calls misses

/-- All locations are faithful: those in the tree that a source is read into, and that of
the failure of a source that is not. -/
theorem locations_faithful (options : CompileOptions) (source : Text) :
    (∀ tree, (ofSource options source).outcome = .ok tree → tree.Located source) ∧
      ∀ error, (ofSource options source).outcome = .error error →
        error.LocatedIn options source := by
  refine ⟨?_, fun error failed => locatedIn_of_ofSource_eq_error failed⟩
  intro tree ended
  have made := (foundIn_kept source).run (nestingLimit + 1) (.ofSource source) rfl
    (within_ofSource source) ended
  exact RuleTree.MadeOf.located made

/-- A mixin that is expanded in a nested rule, with a media block in its body; an unbound
variable in such a mixin; and a block that stays open. -/
theorem locations_faithful_in_mixins :
    (∃ tree, (ofSource {} ("$v:1;@mixin m\x7b /* */b:$v;@media p\x7bc:d\x7d \x7d\n" ++
        "e\x7b f\x7b@include m\x7d \x7d").toList).outcome = .ok tree ∧
      (tree.rule 2).children = [.comment [' '], .property ⟨"b".toList, "1".toList, ⟨1, 21⟩⟩] ∧
      (tree.rule 3).children = [.property ⟨"c".toList, "d".toList, ⟨1, 35⟩⟩] ∧
      tree.Located ("$v:1;@mixin m\x7b /* */b:$v;@media p\x7bc:d\x7d \x7d\n" ++
        "e\x7b f\x7b@include m\x7d \x7d").toList) ∧
    Error.LocatedIn {} "@mixin m\x7b /* */b:$x \x7d\ne\x7b f\x7b@include m\x7d \x7d".toList
      ⟨.unresolvedVariable "x".toList, ⟨1, 16⟩⟩ ∧
    Error.LocatedIn {} "a\x7bb:c;d\x7be\x7d".toList
      ⟨.unbalancedBlock (some "unclosed block `a`".toList), ⟨1, 2⟩⟩ := by
  have unbound : ((ofSource {} "@mixin m\x7b /* */b:$x \x7d\ne\x7b f\x7b@include m\x7d \x7d".toList).map
      RuleTree.size).outcome = .error ⟨.unresolvedVariable "x".toList, ⟨1, 16⟩⟩ := by
    decide +kernel
  have unclosed : ((ofSource {} "a\x7bb:c;d\x7be\x7d".toList).map RuleTree.size).outcome =
      .error ⟨.unbalancedBlock (some "unclosed block `a`".toList), ⟨1, 2⟩⟩ := by
    decide +kernel
  refine ⟨?_, (locations_faithful {} _).2 _ (Traced.outcome_map_eq_error.mp unbound),
    (locations_faithful {} _).2 _ (Traced.outcome_map_eq_error.mp unclosed)⟩
  have read : ((ofSource {} ("$v:1;@mixin m\x7b /* */b:$v;@media p\x7bc:d\x7d \x7d\n" ++
      "e\x7b f\x7b@include m\x7d \x7d").toList).map fun tree =>
        ((tree.rule 2).children, (tree.rule 3).children)).outcome =
      .ok ([.comment [' '], .property ⟨"b".toList, "1".toList, ⟨1, 21⟩⟩],
        [.property ⟨"c".toList, "d".toList, ⟨1, 35⟩⟩]) := by
    decide +kernel
  obtain ⟨tree, ended, same⟩ := Traced.outcome_map_eq_ok.mp read
  injection same with nested expanded
  exact ⟨tree, ended, nested, expanded, (locations_faithful {} _).1 tree ended⟩

end NestedCss
