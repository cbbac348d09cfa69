import NestedCss.Compile
import NestedCss.Proofs.Definitions

set_option autoImplicit false

/-! When an inclusion is rejected as recursive. The mixins around a turn are those whose
bodies are being expanded, and the site of the turn knows them by their names alone. So an
inclusion is rejected exactly when a mixin of its name is among them: every definition that
includes itself is, and so is another one of the same name. -/

namespace NestedCss

open RuleTree

/-! ### Mixins go by their own names -/

def RuleTree.Keyed (tree : RuleTree) : Prop :=
  ∀ id name defined, (tree.rule id).mixins.find? name = some defined → defined.name = name

namespace RuleTree

private theorem Keyed.of_mixins_eq {tree next : RuleTree} (keyed : tree.Keyed)
    (same : ∀ id, (next.rule id).mixins = (tree.rule id).mixins) : next.Keyed := by
  intro id name defined found
  rw [same] at found
  exact keyed id name defined found

private theorem Keyed.defineMixin {tree : RuleTree} (keyed : tree.Keyed) {here : RuleId}
    (inside : here < tree.size) (defined : Mixin) : (tree.defineMixin here defined).Keyed := by
  intro id name other found
  rw [mixins_defineMixin tree defined inside] at found
  split at found
  · by_cases same : name = defined.name
    · subst same
      rw [Table.find?_insert_self] at found
      injection found with own
      exact own ▸ rfl
    · rw [Table.find?_insert_of_ne _ _ _ _ same] at found
      exact keyed id name other found
  · exact keyed id name other found

private theorem keyed_kept : KeptByReading (fun _ => True) Keyed := by
  apply KeptByReading.of_operations
  · intro tree here declared _ _ keyed
    exact keyed.of_mixins_eq (read_rule_modify Rule.mixins rfl)
  · intro tree here child _ _ keyed _
    exact keyed.of_mixins_eq (read_rule_modify Rule.mixins rfl)
  · intro tree here defined _ inside keyed
    exact keyed.defineMixin inside defined
  · intro tree here block _ _ keyed
    exact keyed.of_mixins_eq (mixins_addMedia tree here block)
  · intro tree here selector _ _ keyed
    exact keyed.of_mixins_eq (mixins_addRule tree here selector)

private theorem keyed_empty : RuleTree.empty.Keyed := by
  intro id name defined found
  rw [rule_empty] at found
  cases found

private theorem Keyed.name_of_findMixin {tree : RuleTree} (keyed : tree.Keyed) {here : RuleId}
    {name : Text} {defined : Mixin} (found : tree.findMixin here name = some defined) :
    defined.name = name := by
  obtain ⟨id, _, present⟩ := List.exists_of_findSome?_eq_some found
  exact keyed id name defined present

end RuleTree

private theorem keyed_within_ofSource (source : Text) :
    (Call.ofSource source).Within (fun _ => True) Keyed where
  ordered := ordered_empty
  inside := ordered_empty.root_lt
  nodes := fun _ _ => True.intro
  tree := keyed_empty

/-! ### The mixins around a turn -/

private theorem Turn.active_of_call? {turn : Turn} {inner : Call} (keyed : turn.tree.Keyed)
    (known : turn.site.active = turn.expanding.map Mixin.name) (calls : turn.call? = some inner) :
    inner.site.active = turn.expandingBelow.map Mixin.name := by
  obtain ⟨levels, site, expanding, tree, node⟩ := turn
  cases Node.calls_of_call? calls with
  | rule selector body => exact known
  | media block => exact known
  | @inclusion request defined found fresh =>
      have named := keyed.name_of_findMixin found
      simp only at known
      simp only [expandingBelow, found, Option.toList_some, List.map_append, List.map_singleton,
        known, named]

private theorem Call.ComesTo.active_eq {options : CompileOptions} {expanding : List Mixin}
    {call : Call} {turn : Turn} (comes : call.ComesTo options expanding turn) :
    call.Within (fun _ => True) Keyed → call.site.active = expanding.map Mixin.name →
      turn.site.active = turn.expanding.map Mixin.name := by
  induction comes with
  | node split reached => exact fun _ known => known
  | deeper first calls second ihFirst ihSecond =>
      intro within known
      have found := keyed_kept.turn first within
      apply ihSecond
      · exact keyed_kept.within_of_call? found.ordered found.inside found.node found.tree calls
      · exact Turn.active_of_call? found.tree (ihFirst within known) calls

private theorem active_eq_of_mem_turns {options : CompileOptions} {source : Text} {turn : Turn}
    (present : turn ∈ turns options source) :
    turn.site.active = turn.expanding.map Mixin.name :=
  (mem_turns_iff.mp present).active_eq (keyed_within_ofSource source) rfl

private theorem Turn.active_prefix_of_call? {turn : Turn} {inner : Call}
    (calls : turn.call? = some inner) :
    turn.site.active <+: inner.site.active := by
  obtain ⟨levels, site, expanding, tree, node⟩ := turn
  cases Node.calls_of_call? calls with
  | rule selector body => exact List.prefix_rfl
  | media block => exact List.prefix_rfl
  | inclusion found fresh => exact List.prefix_append _ _

private theorem Call.ComesTo.active_prefix {options : CompileOptions} {expanding : List Mixin}
    {call : Call} {turn : Turn} (comes : call.ComesTo options expanding turn) :
    call.site.active <+: turn.site.active := by
  induction comes with
  | node split reached => exact List.prefix_rfl
  | deeper first calls second ihFirst ihSecond =>
      exact ihFirst.trans ((Turn.active_prefix_of_call? calls).trans ihSecond)

/-! ### Rejections -/

def Turn.recursion (turn : Turn) (request : Inclusion) : Error :=
  ⟨.recursiveMixin request.name (turn.site.active ++ [request.name]), request.location⟩

namespace Turn

variable {options : CompileOptions} {turn : Turn} {request : Inclusion} {defined : Mixin}

private theorem run_of_active (asks : turn.node = .inclusion request)
    (found : turn.tree.findMixin turn.site.rule request.name = some defined)
    (active : request.name ∈ turn.site.active) :
    turn.run options = .failed (turn.recursion request) := by
  rw [run, asks, applyNode, expandInclusion, found]
  simp only [active, if_true]
  rfl

private theorem run_of_fresh (asks : turn.node = .inclusion request)
    (found : turn.tree.findMixin turn.site.rule request.name = some defined)
    (fresh : request.name ∉ turn.site.active) :
    turn.run options = readBody options turn.levels
      ⟨turn.site.rule, turn.site.active ++ [request.name]⟩ defined.body turn.tree := by
  rw [run, asks, applyNode, expandInclusion, found]
  simp only [fresh, if_false]

private theorem of_outcome_eq_recursion {name : Text} {chain : List Text} {location : Location}
    (quiet : turn.call? = none)
    (failed : (turn.run options).outcome = .error ⟨.recursiveMixin name chain, location⟩) :
    turn.node = .inclusion ⟨name, location⟩ ∧
      (turn.tree.findMixin turn.site.rule name).isSome ∧ name ∈ turn.site.active ∧
      chain = turn.site.active ++ [name] := by
  obtain ⟨levels, site, expanding, tree, node⟩ := turn
  rcases applyNode_error_cases failed with misses | ⟨call, calls, _⟩
  · cases misses with
    | @recursive request active =>
        have found : (tree.findMixin site.rule request.name).isSome := by
          rw [Option.isSome_iff_ne_none]
          intro missing
          simp only [run, applyNode, expandInclusion, missing] at failed
          split at failed
          · injection failed with same
            cases same
          · cases failed
        exact ⟨rfl, found, active, rfl⟩
  · cases quiet.symm.trans calls

private theorem rejected_iff (asks : turn.node = .inclusion request)
    (found : turn.tree.findMixin turn.site.rule request.name = some defined) :
    (turn.run options).outcome = .error (turn.recursion request) ↔
      request.name ∈ turn.site.active := by
  constructor
  · intro failed
    by_contra fresh
    let inner : Call := ⟨turn.levels, ⟨turn.site.rule, turn.site.active ++ [request.name]⟩,
      defined.body, turn.tree⟩
    rw [run_of_fresh asks found fresh] at failed
    rcases Call.comesTo_of_error turn.levels turn.expanding inner rfl failed with
      ⟨later, comes, quiet, failedThere⟩ | other | ⟨context?, other⟩
    -- The chain of a failure further inside would be longer.
    · obtain ⟨_, _, _, chain⟩ := of_outcome_eq_recursion quiet failedThere
      have longer := comes.active_prefix.length_le
      have same := congrArg List.length chain
      simp only [inner, List.length_append, List.length_singleton] at longer same
      omega
    · cases other
    · cases other
  · intro active
    rw [run_of_active asks found active]
    rfl

end Turn

private theorem mem_active_iff {options : CompileOptions} {source : Text} {turn : Turn}
    (present : turn ∈ turns options source) (name : Text) :
    name ∈ turn.site.active ↔ ∃ outer ∈ turn.expanding, outer.name = name := by
  rw [active_eq_of_mem_turns present, List.mem_map]

/-- Rejections of recursive inclusions fail a compilation, and nothing else fails it in this
way. -/
theorem outcome_ofSource_eq_recursiveMixin_iff {options : CompileOptions} {source name : Text}
    {chain : List Text} {location : Location} :
    (RuleTree.ofSource options source).outcome = .error ⟨.recursiveMixin name chain, location⟩ ↔
      ∃ turn ∈ turns options source, turn.node = .inclusion ⟨name, location⟩ ∧
        (turn.tree.findMixin turn.site.rule name).isSome ∧
        (∃ outer ∈ turn.expanding, outer.name = name) ∧
        chain = turn.expanding.map Mixin.name ++ [name] := by
  constructor
  · intro failed
    rcases exists_turn_of_error failed with ⟨turn, present, quiet, failedThere⟩ | other |
      ⟨context?, other⟩
    · obtain ⟨asks, found, active, same⟩ := Turn.of_outcome_eq_recursion quiet failedThere
      rw [active_eq_of_mem_turns present] at same
      exact ⟨turn, present, asks, found, (mem_active_iff present name).mp active, same⟩
    · cases other
    · cases other
  · rintro ⟨turn, present, asks, found, around, same⟩
    obtain ⟨defined, found⟩ := Option.isSome_iff_exists.mp found
    have active := (mem_active_iff present name).mpr around
    apply ofSource_fails_of_turn present
    rw [Turn.run_of_active asks found active, same, ← active_eq_of_mem_turns present]
    rfl

/-- An inclusion of a mixin that is found is rejected exactly when a mixin of its name is
being expanded: always when it is the mixin found, and only then unless another mixin of the
name is. Otherwise the body of the mixin is read. Such rejections are the only failures of
this kind. -/
theorem inclusion_rejected_iff_name_expanding (options : CompileOptions) (source : Text) :
    (∀ turn ∈ turns options source, ∀ (request : Inclusion) (defined : Mixin),
      turn.node = .inclusion request →
      turn.tree.findMixin turn.site.rule request.name = some defined →
        ((turn.run options).outcome = .error (turn.recursion request) ↔
          ∃ outer ∈ turn.expanding, outer.name = request.name) ∧
        (defined ∈ turn.expanding →
          (turn.run options).outcome = .error (turn.recursion request)) ∧
        ((∀ outer ∈ turn.expanding, outer.name = request.name → outer = defined) →
          ((turn.run options).outcome = .error (turn.recursion request) ↔
            defined ∈ turn.expanding)) ∧
        ((∀ outer ∈ turn.expanding, outer.name ≠ request.name) →
          turn.run options = readBody options turn.levels
            ⟨turn.site.rule, turn.site.active ++ [request.name]⟩ defined.body turn.tree)) ∧
    ∀ (name : Text) (chain : List Text) (location : Location),
      (RuleTree.ofSource options source).outcome = .error ⟨.recursiveMixin name chain, location⟩ ↔
        ∃ turn ∈ turns options source, turn.node = .inclusion ⟨name, location⟩ ∧
          (turn.tree.findMixin turn.site.rule name).isSome ∧
          (∃ outer ∈ turn.expanding, outer.name = name) ∧
          chain = turn.expanding.map Mixin.name ++ [name] := by
  constructor
  · intro turn present request defined asks found
    have rejected : (turn.run options).outcome = .error (turn.recursion request) ↔
        ∃ outer ∈ turn.expanding, outer.name = request.name :=
      (Turn.rejected_iff asks found).trans (mem_active_iff present request.name)
    have keyed := (keyed_kept.turn (mem_turns_iff.mp present) (keyed_within_ofSource source)).tree
    have always : defined ∈ turn.expanding →
        (turn.run options).outcome = .error (turn.recursion request) :=
      fun active => rejected.mpr ⟨defined, active, keyed.name_of_findMixin found⟩
    refine ⟨rejected, always, ?_, ?_⟩
    · intro single
      constructor
      · intro failed
        obtain ⟨outer, active, same⟩ := rejected.mp failed
        exact single outer active same ▸ active
      · exact always
    · intro fresh
      apply Turn.run_of_fresh asks found
      intro active
      obtain ⟨outer, around, same⟩ := (mem_active_iff present request.name).mp active
      exact fresh outer around same
  · exact fun name chain location => outcome_ofSource_eq_recursiveMixin_iff

/-- Two mixins that include one another, by way of a nested rule. -/
theorem inclusion_rejected_of_mutual_recursion :
    let source := ("@mixin m\x7b.b\x7b@include n\x7d\x7d@mixin n\x7b@include m\x7d" ++
      ".a\x7b@include m\x7d").toList
    let error : Error := ⟨.recursiveMixin "m".toList ["m".toList, "n".toList, "m".toList], ⟨1, 34⟩⟩
    (∃ turn ∈ turns {} source, (turn.run {}).outcome = .error error) ∧
      (RuleTree.ofSource {} source).outcome = .error error := by
  intro source error
  have length : 6 < (turns {} source).length := by decide +kernel
  let turn := (turns {} source)[6]
  have present : turn ∈ turns {} source := List.getElem_mem length
  let outer : Mixin := ⟨"m".toList, ⟨".b\x7b@include n\x7d".toList, ⟨1, 10⟩⟩⟩
  let inner : Mixin := ⟨"n".toList, ⟨"@include m".toList, ⟨1, 34⟩⟩⟩
  have seen : some (turn.node, turn.site, turn.expanding,
      turn.tree.findMixin turn.site.rule "m".toList) =
      some (.inclusion ⟨"m".toList, ⟨1, 34⟩⟩, ⟨2, ["m".toList, "n".toList]⟩, [outer, inner],
        some outer) := by
    rw [← Option.map_some (f := fun turn : Turn => (turn.node, turn.site, turn.expanding,
      turn.tree.findMixin turn.site.rule "m".toList)), ← List.getElem?_eq_getElem length]
    decide +kernel
  injection seen with seen
  injection seen with asks others
  injection others with site others
  injection others with around found
  have rejected := (inclusion_rejected_iff_name_expanding {} source).1 turn present _ outer asks found
  constructor
  · refine ⟨turn, present, ?_⟩
    have failed := rejected.2.1 (by rw [around]; exact List.mem_cons_self ..)
    rw [failed, Turn.recursion, site]
    rfl
  · apply ((inclusion_rejected_iff_name_expanding {} source).2 _ _ _).mpr
    refine ⟨turn, present, asks, by rw [found]; rfl, ⟨outer, ?_, rfl⟩, ?_⟩
    · rw [around]
      exact List.mem_cons_self ..
    · rw [around]
      rfl

/-- Inside the expansion of a mixin another mixin of the same name is defined, and the
inclusion of that other one is rejected. -/
theorem inner_namesake_rejected :
    let source := ("@mixin m\x7b.b\x7b@mixin m\x7bcolor:red;\x7d@include m;\x7d\x7d" ++
      ".a\x7b@include m;\x7d").toList
    let inner : Mixin := ⟨"m".toList, ⟨"color:red;".toList, ⟨1, 22⟩⟩⟩
    ((turns {} source)[5]?).map (fun turn => (turn.node,
        turn.tree.findMixin turn.site.rule "m".toList, decide (inner ∈ turn.expanding))) =
      some (.inclusion ⟨"m".toList, ⟨1, 33⟩⟩, some inner, false) ∧
    (compileSource {} source).outcome =
      .error ⟨.recursiveMixin "m".toList ["m".toList, "m".toList], ⟨1, 33⟩⟩ := by
  intro source inner
  constructor
  · decide +kernel
  · decide +kernel

end NestedCss
