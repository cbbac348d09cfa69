import NestedCss.Proofs.BlockBodies
import NestedCss.Proofs.Reading

set_option autoImplicit false

/-! The bodies that a compilation reads. All of them but the stylesheet itself are
bodies of blocks that were met before, in a body at hand or where a mixin was
defined, so none of them has an unbalanced brace; only the text of the stylesheet
can have one. -/

namespace NestedCss

/-! ### Bodies at hand are closed -/

theorem Node.hasBlock_of_mem {outer : Body} {node : Node}
    (present : node ∈ outer.segmentation.segments.map Node.ofSegment) {inner : Body}
    (carried : node.body? = some inner) : outer.HasBlock inner := by
  obtain ⟨segment, member, same⟩ := List.mem_map.mp present
  subst same
  cases segment with
  | block header location body =>
      refine ⟨header, location, ?_⟩
      have exactly : body = inner := by
        simp only [ofSegment, ofBlock] at carried
        split at carried
        · injection carried
        · split at carried
          · injection carried
          · injection carried
      exact exactly ▸ member
  | statement text location =>
      simp only [ofSegment, ofStatement] at carried
      split at carried
      · cases carried
      · split at carried <;> cases carried
  | comment text location => cases carried

namespace RuleTree

/-- The body of every mixin that some rule defines is a closed text. -/
def MixinsClosed (tree : RuleTree) : Prop :=
  ∀ id name mixin, (tree.rule id).mixins.find? name = some mixin → mixin.body.text.Closed

end RuleTree

open RuleTree

/-- A mixin with a closed body; nodes of other kinds are none of its concern. -/
def Node.DefinesClosed (node : Node) : Prop :=
  ∀ defined, node = .mixin defined → defined.body.text.Closed

theorem Body.definesClosed_of_mem_nodes (outer : Body) :
    ∀ node ∈ outer.nodes, node.DefinesClosed := by
  rintro node present defined rfl
  exact (Node.hasBlock_of_mem present rfl).closed

theorem RuleTree.mixinsClosed_iff (tree : RuleTree) :
    tree.MixinsClosed ↔ tree.MadeOf Node.DefinesClosed := by
  constructor
  · intro closed id
    refine ⟨fun property _ => ⟨property, fun _ same => ?_, rfl⟩, fun _ _ _ _ same => ?_, ?_,
      fun _ _ _ same => ?_⟩
    · cases same
    · cases same
    · rintro name defined found _ ⟨⟩
      exact closed id name defined found
    · cases same
  · intro made id name defined found
    exact (made id).mixins name defined found defined rfl

theorem mixinsClosed_kept : KeptByReading Node.DefinesClosed MixinsClosed := by
  rw [show MixinsClosed = RuleTree.MadeOf Node.DefinesClosed from
    funext fun tree => propext tree.mixinsClosed_iff]
  exact madeOf_kept fun _ inner _ _ => inner.definesClosed_of_mem_nodes

theorem RuleTree.MixinsClosed.of_findMixin {tree : RuleTree} (closed : tree.MixinsClosed)
    {here : RuleId} {name : Text} {defined : Mixin}
    (found : tree.findMixin here name = some defined) : defined.body.text.Closed :=
  mixinsClosed_kept.found tree here name defined closed found defined rfl

/-- A call at a rule of an ordered tree whose mixins are closed texts. -/
structure Call.Sound (call : Call) : Prop where
  ordered : call.tree.Ordered
  inside : call.site.rule < call.tree.size
  mixins : call.tree.MixinsClosed

theorem Call.sound_ofSource (source : Text) : (Call.ofSource source).Sound :=
  ⟨ordered_empty, ordered_empty.root_lt, (mixinsClosed_iff _).mpr madeOf_empty⟩

theorem Call.sound_iff (call : Call) :
    call.Sound ↔ call.Within Node.DefinesClosed MixinsClosed :=
  ⟨fun sound => ⟨sound.ordered, sound.inside, call.body.definesClosed_of_mem_nodes, sound.mixins⟩,
    fun within => ⟨within.ordered, within.inside, within.tree⟩⟩

theorem Call.Sound.mixins_run {options : CompileOptions} {call : Call} (sound : call.Sound)
    {after : RuleTree} (ended : (call.run options).outcome = .ok after) : after.MixinsClosed :=
  mixinsClosed_kept.run call.levels call rfl (call.sound_iff.mp sound) ended

theorem Call.Spawns.sound {options : CompileOptions} {outer inner : Call}
    (spawned : Call.Spawns options outer inner) (sound : outer.Sound) : inner.Sound :=
  inner.sound_iff.mpr (mixinsClosed_kept.spawned (outer.sound_iff.mp sound) spawned)

theorem Call.Spawns.closed {options : CompileOptions} {outer inner : Call}
    (spawned : Call.Spawns options outer inner) (sound : outer.Sound) :
    inner.body.text.Closed := by
  rcases mixinsClosed_kept.body_of_spawns (outer.sound_iff.mp sound) spawned with
    ⟨node, present, carried⟩ | ⟨defined, closed, same⟩
  · exact (Node.hasBlock_of_mem present carried).closed
  · exact same ▸ closed defined rfl

theorem closed_of_transGen_spawns {options : CompileOptions} {outer inner : Call}
    (sound : outer.Sound) (spawned : Relation.TransGen (Call.Spawns options) outer inner) :
    inner.body.text.Closed ∧ inner.Sound := by
  induction spawned with
  | single direct => exact ⟨direct.closed sound, direct.sound sound⟩
  | tail _ direct ih => exact ⟨direct.closed ih.2, direct.sound ih.2⟩

/-! ### Where an unbalanced brace is reported -/

theorem fault?_of_run_unbalanced {options : CompileOptions} {call : Call} (sound : call.Sound)
    {context? : Option Text} {location : Location}
    (failed : (call.run options).outcome = .error ⟨.unbalancedBlock context?, location⟩) :
    call.body.segmentation.fault? = some ⟨.unbalancedBlock context?, location⟩ := by
  obtain ⟨inner, calls, reason⟩ := Call.error_cases call.levels call rfl failed
  rcases reason with ⟨_, deep⟩ | faulty | ⟨node, misses⟩
  · cases deep
  · rcases Relation.reflTransGen_iff_eq_or_transGen.mp calls with same | spawned
    · exact same ▸ faulty
    · rw [(closed_of_transGen_spawns sound spawned).1.fault?_eq_none] at faulty
      cases faulty
  · cases misses with
    | node _ _ missing => cases missing

/-- Only the text of the stylesheet itself can have an unbalanced brace: no body
inside a body has one, no call below the outermost one reports one, and what a
compilation reports is the fault of the stylesheet. -/
theorem nested_bodies_balanced :
    (∀ outer inner : Body, Relation.TransGen Body.HasBlock outer inner →
      inner.segmentation.fault? = none) ∧
    (∀ (options : CompileOptions) (source : Text) (call : Call),
      Relation.TransGen (Call.Spawns options) (.ofSource source) call →
        call.body.segmentation.fault? = none ∧
        ∀ context? location,
          (call.run options).outcome ≠ .error ⟨.unbalancedBlock context?, location⟩) ∧
    ∀ (options : CompileOptions) (source : Text) (context? : Option Text) (location : Location),
      (RuleTree.ofSource options source).outcome = .error ⟨.unbalancedBlock context?, location⟩ →
        (Body.ofSource source).segmentation.fault? =
          some ⟨.unbalancedBlock context?, location⟩ := by
  refine ⟨?_, ?_, ?_⟩
  · intro outer inner inside
    exact (closed_of_transGen_hasBlock inside).fault?_eq_none
  · intro options source call spawned
    have bodies := closed_of_transGen_spawns (Call.sound_ofSource source) spawned
    have balanced := bodies.1.fault?_eq_none
    refine ⟨balanced, ?_⟩
    intro context? location failed
    have fault := fault?_of_run_unbalanced bodies.2 failed
    rw [balanced] at fault
    cases fault
  · intro options source context? location failed
    exact fault?_of_run_unbalanced (Call.sound_ofSource source) failed

theorem nested_bodies_balanced_in_samples :
    (Body.mk "b\x7bc:d\x7d".toList ⟨1, 3⟩).segmentation.fault? = none ∧
    (Body.ofSource "a\x7bb\x7bc:d\x7d".toList).segmentation.fault? =
      some ⟨.unbalancedBlock (some "unclosed block `a`".toList), ⟨1, 2⟩⟩ := by
  refine ⟨nested_bodies_balanced.1 (.ofSource "a\x7bb\x7bc:d\x7d\x7d".toList) _ (.single ?_),
    nested_bodies_balanced.2.2 {} _ _ _ ?_⟩
  · exact ⟨"a".toList, .start, by decide +kernel⟩
  · rfl

end NestedCss
