import NestedCss.Compile
import NestedCss.Proofs.Printing
import NestedCss.Proofs.Turns

set_option autoImplicit false

/-! Which definition an inclusion means. The mixins of a rule are the last that the turns
so far have defined in it under each name, so an inclusion reads the latest definition of
the nearest rule that has one: a later definition hides an earlier one, and an inner one
hides an outer one. A definition takes its turn wherever it is written, unless its body is
blank; then the scan leaves nothing of it. -/

namespace NestedCss

def Turn.definition? (id : RuleId) (name : Text) (turn : Turn) : Option Mixin :=
  match turn.node with
  | .mixin defined => if turn.site.rule = id ∧ defined.name = name then some defined else none
  | _ => none

/-- The definitions of a name in a rule among some turns, in the order of the turns. -/
def definitions (past : List Turn) (id : RuleId) (name : Text) : List Mixin :=
  past.filterMap (Turn.definition? id name)

private theorem definitions_concat (past : List Turn) (turn : Turn) (id : RuleId) (name : Text) :
    definitions (past ++ [turn]) id name =
      definitions past id name ++ (turn.definition? id name).toList := by
  rw [definitions, List.filterMap_append, List.filterMap_cons, List.filterMap_nil]
  cases turn.definition? id name <;> rfl

namespace RuleTree

/-- The turns so far tell what each rule defines. -/
def Records (past : List Turn) (tree : RuleTree) : Prop :=
  ∀ id name, (tree.rule id).mixins.find? name = (definitions past id name).getLast?

private theorem records_empty : empty.Records [] := by
  intro id name
  rw [rule_empty]
  rfl

theorem mixins_addRule (tree : RuleTree) (here : RuleId) (selector : Text) (id : RuleId) :
    ((tree.addRule here selector).rule id).mixins = (tree.rule id).mixins := by
  rw [addRule, addChild, read_rule_modify Rule.mixins rfl]
  exact read_rule_addDetached Rule.mixins tree rfl id

theorem mixins_addMedia (tree : RuleTree) (here : RuleId) (block : MediaBlock) (id : RuleId) :
    ((tree.addMedia here block).rule id).mixins = (tree.rule id).mixins := by
  rw [addMedia, attachMedia, read_rule_modify Rule.mixins rfl]
  exact read_rule_addDetached Rule.mixins tree rfl id

theorem mixins_defineMixin (tree : RuleTree) {here : RuleId} (defined : Mixin)
    (inside : here < tree.size) (id : RuleId) :
    ((tree.defineMixin here defined).rule id).mixins =
      if here = id then (tree.rule id).mixins.insert defined.name defined
      else (tree.rule id).mixins :=
  read_rule_modify_eq Rule.mixins tree _ inside id

end RuleTree

open RuleTree

private theorem Node.Leaves.mixins_eq {site : Site} {tree next : RuleTree} {node : Node}
    (leaves : node.Leaves site tree next) (other : ∀ defined, node ≠ .mixin defined) (id : RuleId) :
    (next.rule id).mixins = (tree.rule id).mixins := by
  cases leaves with
  | binding declared => exact read_rule_modify Rule.mixins rfl id
  | property meant => exact read_rule_modify Rule.mixins rfl id
  | comment text => exact read_rule_modify Rule.mixins rfl id
  | mixin defined => exact absurd rfl (other defined)
  | media block => exact mixins_addMedia tree site.rule block id
  | inclusion request => rfl
  | rule selector body => exact mixins_addRule tree site.rule selector id

private theorem RuleTree.Records.leaves {past : List Turn} {turn : Turn} {next : RuleTree}
    (records : turn.tree.Records past) (inside : turn.site.rule < turn.tree.size)
    (leaves : turn.node.Leaves turn.site turn.tree next) : next.Records (past ++ [turn]) := by
  intro id name
  rw [definitions_concat]
  by_cases defines : ∃ defined, turn.node = .mixin defined
  · obtain ⟨defined, same⟩ := defines
    rw [same] at leaves
    cases leaves with
    | mixin =>
        simp only [Turn.definition?, same]
        rw [mixins_defineMixin turn.tree defined inside]
        by_cases own : turn.site.rule = id
        · by_cases named : defined.name = name
          · simp only [own, named, and_self, if_true, Option.toList_some]
            rw [Table.find?_insert_self, List.getLast?_concat]
          · simp only [own, named, and_false, if_true, if_false, Option.toList_none,
              List.append_nil]
            rw [Table.find?_insert_of_ne _ _ _ _ (Ne.symm named)]
            exact records id name
        · simp only [own, false_and, if_false, Option.toList_none, List.append_nil]
          exact records id name
  · have other : ∀ defined, turn.node ≠ .mixin defined :=
      fun defined same => defines ⟨defined, same⟩
    have nothing : turn.definition? id name = none := by
      unfold Turn.definition?
      split
      · rename_i defined same
        exact absurd same (other defined)
      · rfl
    rw [leaves.mixins_eq other id, nothing, Option.toList_none, List.append_nil]
    exact records id name

private theorem records_of_turns {options : CompileOptions} {source : Text}
    {earlier later : List Turn}
    {turn : Turn} (split : turns options source = earlier ++ turn :: later) :
    turn.tree.Records earlier := by
  have follow := linked_turns options source earlier turn later split
  apply follow.keeps _ [] records_empty
  intro other present past next records leaves
  have known : other ∈ turns options source := by
    rw [split]
    exact List.mem_append_left _ present
  exact records.leaves (within_of_mem_turns known).inside leaves

/-! ### How a definition is written -/

theorem Body.nodes_mixin_block {first spec inner : Text} (whole : first.Whole)
    (quotable : spec.Quotable) (closed : inner.Closed) (rest : Text) (here : Location) :
    let heading := Node.mixinMark ++ spec
    (Body.mk (first ++ (Text.block heading inner ++ rest)) here).nodes =
      (Body.mk first here).nodes ++
        (if inner.allBlank then [] else
          [.mixin ⟨directiveName spec.trimEnd,
            ⟨inner, ((here.advanceOver first).advanceOver heading).advance '\x7b'⟩⟩]) ++
        (Body.mk rest ((here.advanceOver first).advanceOver (Text.block heading inner))).nodes := by
  intro heading
  have marked : heading.Quotable :=
    Text.Quotable.append (by decide : Node.mixinMark.Plain).quotable quotable
  have begins : ∀ member ∈ heading.head?, isBlank member = false := by
    rintro member ⟨⟩
    decide
  have block := ((marked.heading begins).whole_block closed).segmentation_append rest
    (here.advanceOver first)
  rw [Body.nodes, whole.segmentation_append, block]
  simp only [Segmentation.behind, List.map_append, ← List.append_assoc]
  congr 2
  cases blank : inner.allBlank with
  | true =>
      rw [(marked.heading begins).segmentation_blank_block closed blank]
      rfl
  | false =>
      obtain ⟨location, single⟩ :=
        marked.segmentation_block begins closed blank (here.advanceOver first)
      have trimmed : heading.trim = Node.mixinMark ++ spec.trimEnd := by
        rw [Text.trim, (Text.trimStart_eq_self_iff heading).mpr begins]
        exact Text.trimEnd_append (by decide) spec
      rw [single, trimmed]
      simp only [List.map_singleton, Node.ofSegment, Node.ofBlock, Text.afterLead?_append,
        Bool.false_eq_true, if_false]

/-! ### What an inclusion reads -/

/-- The nearest rule with a definition of a name has the one that is found, and of its
definitions the latest. -/
theorem RuleTree.Records.findMixin_eq {past : List Turn} {tree : RuleTree}
    (records : tree.Records past) {here : RuleId} {name : Text} {near far : List RuleId}
    {id : RuleId} {before : List Mixin} {defined : Mixin}
    (chain : tree.ancestors here = near ++ id :: far)
    (bare : ∀ other ∈ near, definitions past other name = [])
    (latest : definitions past id name = before ++ [defined]) :
    tree.findMixin here name = some defined := by
  have missed : near.findSome? (fun other => (tree.rule other).mixins.find? name) = none := by
    rw [List.findSome?_eq_none_iff]
    intro other present
    rw [records, bare other present]
    rfl
  have own : (tree.rule id).mixins.find? name = some defined := by
    rw [records, latest, List.getLast?_concat]
  rw [findMixin, chain, List.findSome?_append, missed, Option.none_or, List.findSome?_cons, own]

/-- A mixin block counts unless it is blank: any text reads it as a definition of its body,
and an inclusion whose mixin is not being expanded reads the body of the latest definition
before it, in the nearest rule that has one. -/
theorem inclusion_reads_latest_definition (options : CompileOptions) (source : Text) :
    (∀ (first spec inner rest : Text) (here : Location), first.Whole → spec.Quotable →
      inner.Closed →
      let heading := Node.mixinMark ++ spec
      (Body.mk (first ++ (Text.block heading inner ++ rest)) here).nodes =
        (Body.mk first here).nodes ++
          (if inner.allBlank then [] else
            [.mixin ⟨directiveName spec.trimEnd,
              ⟨inner, ((here.advanceOver first).advanceOver heading).advance '\x7b'⟩⟩]) ++
          (Body.mk rest
            ((here.advanceOver first).advanceOver (Text.block heading inner))).nodes) ∧
    ∀ (earlier later : List Turn) (turn : Turn) (request : Inclusion),
      turns options source = earlier ++ turn :: later →
      turn.node = .inclusion request → request.name ∉ turn.site.active →
      ∀ (near far : List RuleId) (id : RuleId) (before : List Mixin) (defined : Mixin),
        turn.tree.ancestors turn.site.rule = near ++ id :: far →
        (∀ other ∈ near, definitions earlier other request.name = []) →
        definitions earlier id request.name = before ++ [defined] →
        turn.run options = readBody options turn.levels
          ⟨turn.site.rule, turn.site.active ++ [request.name]⟩ defined.body turn.tree := by
  constructor
  · intro first spec inner rest here whole quotable closed
    exact Body.nodes_mixin_block whole quotable closed rest here
  · intro earlier later turn request split asks fresh near far id before defined chain bare latest
    have found := (records_of_turns split).findMixin_eq chain bare latest
    obtain ⟨levels, site, expanding, tree, node⟩ := turn
    have same : node = .inclusion request := asks
    subst same
    simp only [Turn.run, applyNode, expandInclusion]
    simp only at found fresh
    rw [found]
    simp only [fresh, if_false]

/-- An inclusion in a nested rule, after a definition in the outermost rule and two in the
enclosing one. -/
theorem inclusion_reads_latest_of_enclosing :
    let source := ("@mixin m\x7bc:d\x7d.a\x7b@mixin m\x7be:f\x7d@mixin m\x7bg:h\x7d" ++
      ".b\x7b@include m;\x7d\x7d").toList
    (Body.mk source .start).nodes =
      [.mixin ⟨"m".toList, ⟨"c:d".toList, ⟨1, 10⟩⟩⟩] ++
        (Body.mk (source.drop 13) ⟨1, 14⟩).nodes ∧
    ∃ turn, (turns {} source)[5]? = some turn ∧
      turn.run {} = readBody {} turn.levels ⟨2, ["m".toList]⟩ ⟨"g:h".toList, ⟨1, 39⟩⟩ turn.tree := by
  intro source
  refine ⟨(inclusion_reads_latest_definition {} source).1 [] " m".toList "c:d".toList
    (source.drop 13) .start (by decide) ?_ ?_, ?_⟩
  · exact (by decide : Text.Plain " m".toList).quotable
  · exact ⟨by decide +kernel, false, by decide +kernel⟩
  · have length : 5 < (turns {} source).length := by decide +kernel
    let turn := (turns {} source)[5]
    have present : (turns {} source)[5]? = some turn := List.getElem?_eq_getElem length
    have split : turns {} source =
        (turns {} source).take 5 ++ turn :: (turns {} source).drop 6 := by
      rw [List.getElem_cons_drop, List.take_append_drop]
    have seen : some (turn.node, turn.site, turn.tree.ancestors turn.site.rule) =
        some (.inclusion ⟨"m".toList, ⟨1, 46⟩⟩, ⟨2, []⟩, [2, 1, 0]) := by
      rw [← Option.map_some (f := fun turn : Turn => (turn.node, turn.site,
        turn.tree.ancestors turn.site.rule)), ← present]
      decide +kernel
    injection seen with seen
    injection seen with node others
    injection others with site chain
    have reads := (inclusion_reads_latest_definition {} source).2 _ _ turn _ split node
      (by rw [site]; decide) [2] [0] 1 [⟨"m".toList, ⟨"e:f".toList, ⟨1, 26⟩⟩⟩]
      ⟨"m".toList, ⟨"g:h".toList, ⟨1, 39⟩⟩⟩ chain (by decide +kernel) (by decide +kernel)
    rw [site] at reads
    exact ⟨turn, present, reads⟩

/-- A definition without a body is lost and hides nothing, and a definition is not expanded
inside its own expansion. -/
theorem definitions_not_counted :
    (compileSource ⟨true⟩ "@mixin m\x7b\x7d.a\x7bcolor:red;@include m;\x7d".toList).outcome =
      .error ⟨.unresolvedMixin "m".toList, ⟨1, 24⟩⟩ ∧
    (compileSource {} "@mixin m\x7bc:d;\x7d.a\x7b@mixin m\x7b\x7d@include m;\x7d".toList).outcome =
      .ok ".a\x7bc:d;\x7d".toList ∧
    (compileSource {} "@mixin m\x7bc:d;@include m;\x7d.a\x7b@include m;\x7d".toList).outcome =
      .error ⟨.recursiveMixin "m".toList ["m".toList, "m".toList], ⟨1, 14⟩⟩ := by
  constructor
  · decide +kernel
  · constructor
    · decide +kernel
    · decide +kernel

end NestedCss
