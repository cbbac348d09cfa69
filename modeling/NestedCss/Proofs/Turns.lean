import NestedCss.Proofs.Locations

set_option autoImplicit false

/-! The turns of a compilation. Nodes take their turns one after another: a node that
asks for a body is followed by the nodes of that body, and nothing comes after a failure.
Each turn finds the tree that the turns before it have left, so that what a tree holds can
be told from the turns alone; and the failure of a turn is that of the whole. -/

namespace NestedCss

/-- A node whose turn has come, with the tree that it finds. The mixins whose bodies are
being read around it are listed outermost first. -/
structure Turn where
  levels : Nat
  site : Site
  expanding : List Mixin
  tree : RuleTree
  node : Node

namespace Turn

def run (options : CompileOptions) (turn : Turn) : Traced RuleTree :=
  applyNode options (readBody options turn.levels) turn.site turn.tree turn.node

def call? (turn : Turn) : Option Call := turn.node.call? turn.levels turn.site turn.tree

def expandingBelow (turn : Turn) : List Mixin :=
  match turn.node with
  | .inclusion request =>
      turn.expanding ++ (turn.tree.findMixin turn.site.rule request.name).toList
  | _ => turn.expanding

def ofNodes (options : CompileOptions) (levels : Nat) (below : List Mixin → Call → List Turn)
    (site : Site) (expanding : List Mixin) : RuleTree → List Node → List Turn
  | _, [] => []
  | tree, node :: rest =>
      let turn : Turn := ⟨levels, site, expanding, tree, node⟩
      turn :: (turn.call?.elim [] (below turn.expandingBelow) ++
        match (turn.run options).outcome with
        | .ok next => ofNodes options levels below site expanding next rest
        | .error _ => [])

def ofCall (options : CompileOptions) : Nat → List Mixin → Call → List Turn
  | 0, _, _ => []
  | levels + 1, expanding, call =>
      ofNodes options levels (ofCall options levels) call.site expanding call.tree call.body.nodes

end Turn

/-- All turns of a compilation, in their order. -/
def turns (options : CompileOptions) (source : Text) : List Turn :=
  Turn.ofCall options (nestingLimit + 1) [] (.ofSource source)

/-! ### Calls and their turns -/

/-- A call comes to the turn of a node of its own body, and to the turns of the calls that
such nodes make. -/
inductive Call.ComesTo (options : CompileOptions) : List Mixin → Call → Turn → Prop
  | node {levels : Nat} {site : Site} {body : Body} {tree middle : RuleTree}
      {before after : List Node} {node : Node} {expanding : List Mixin}
      (split : body.nodes = before ++ node :: after)
      (reached : (Traced.foldl (applyNode options (readBody options levels) site) tree
        before).outcome = .ok middle) :
      ComesTo options expanding ⟨levels + 1, site, body, tree⟩
        ⟨levels, site, expanding, middle, node⟩
  | deeper {expanding : List Mixin} {outer inner : Call} {turn later : Turn}
      (first : ComesTo options expanding outer turn) (calls : turn.call? = some inner)
      (second : ComesTo options turn.expandingBelow inner later) :
      ComesTo options expanding outer later

private theorem Node.apply_of_call? (options : CompileOptions) {levels : Nat} {site : Site}
    {tree : RuleTree} {node : Node} {call : Call} (calls : node.call? levels site tree = some call) :
    applyNode options (readBody options levels) site tree node = call.run options := by
  cases Node.calls_of_call? calls with
  | rule selector body => rfl
  | media block => rfl
  | inclusion found fresh =>
      simp only [applyNode, expandInclusion, found, if_neg fresh]
      rfl

private theorem Turn.mem_ofNodes_iff {options : CompileOptions} {levels : Nat}
    {below : List Mixin → Call → List Turn} {site : Site} {expanding : List Mixin} {turn : Turn}
    {nodes : List Node} : ∀ {tree : RuleTree},
    turn ∈ Turn.ofNodes options levels below site expanding tree nodes ↔
      ∃ before node after middle, nodes = before ++ node :: after ∧
        (Traced.foldl (applyNode options (readBody options levels) site) tree before).outcome =
          .ok middle ∧
        (turn = ⟨levels, site, expanding, middle, node⟩ ∨
          ∃ call, Turn.call? ⟨levels, site, expanding, middle, node⟩ = some call ∧
            turn ∈ below (Turn.expandingBelow ⟨levels, site, expanding, middle, node⟩) call) := by
  induction nodes with
  | nil =>
      intro tree
      constructor
      · exact fun present => absurd present List.not_mem_nil
      · rintro ⟨before, node, after, middle, same, _⟩
        cases before <;> cases same
  | cons node rest ih =>
      intro tree
      rw [Turn.ofNodes, List.mem_cons, List.mem_append]
      constructor
      · rintro (own | inBody | further)
        · exact ⟨[], node, rest, tree, rfl, rfl, Or.inl own⟩
        · cases calls : Turn.call? ⟨levels, site, expanding, tree, node⟩ with
          | none =>
              rw [calls] at inBody
              exact absurd inBody List.not_mem_nil
          | some call =>
              rw [calls] at inBody
              exact ⟨[], node, rest, tree, rfl, rfl, Or.inr ⟨call, calls, inBody⟩⟩
        · split at further
          · rename_i next stepped
            obtain ⟨before, other, after, middle, same, reached, comes⟩ := ih.mp further
            refine ⟨node :: before, other, after, middle, ?_, ?_, comes⟩
            · rw [same, List.cons_append]
            · exact Traced.outcome_andThen_eq_ok.mpr ⟨next, stepped, reached⟩
          · exact absurd further List.not_mem_nil
      · rintro ⟨before, other, after, middle, same, reached, comes⟩
        cases before with
        | nil =>
            injection same with head _
            injection reached with start
            subst head start
            rcases comes with own | ⟨call, calls, inBody⟩
            · exact Or.inl own
            · apply Or.inr (Or.inl _)
              rw [calls]
              exact inBody
        | cons first others =>
            injection same with head tail
            subst head
            obtain ⟨next, stepped, later⟩ := Traced.outcome_andThen_eq_ok.mp reached
            have ran : (Turn.run options ⟨levels, site, expanding, tree, node⟩).outcome =
                .ok next := stepped
            apply Or.inr (Or.inr _)
            rw [ran]
            exact ih.mpr ⟨others, other, after, middle, tail, later, comes⟩

private theorem Turn.comesTo_of_mem {options : CompileOptions} {turn : Turn} (levels : Nat) :
    ∀ (expanding : List Mixin) (call : Call), call.levels = levels →
      turn ∈ Turn.ofCall options levels expanding call →
      call.ComesTo options expanding turn := by
  induction levels with
  | zero =>
      intro expanding call _ present
      exact absurd present List.not_mem_nil
  | succ levels ih =>
      rintro expanding ⟨_, site, body, tree⟩ level present
      subst level
      obtain ⟨before, node, after, middle, split, reached, own | ⟨inner, calls, inBody⟩⟩ :=
        Turn.mem_ofNodes_iff.mp present
      · subst own
        exact .node split reached
      · exact .deeper (.node split reached) calls
          (ih _ inner (Node.levels_of_call? calls) inBody)

private theorem Turn.mem_ofCall_of_call? {options : CompileOptions} {turn later : Turn}
    {inner : Call} (calls : turn.call? = some inner)
    (inBody : later ∈ Turn.ofCall options inner.levels turn.expandingBelow inner) (levels : Nat) :
    ∀ (expanding : List Mixin) (call : Call), turn ∈ Turn.ofCall options levels expanding call →
      later ∈ Turn.ofCall options levels expanding call := by
  induction levels with
  | zero =>
      intro expanding call present
      exact absurd present List.not_mem_nil
  | succ levels ih =>
      intro expanding call present
      obtain ⟨before, node, after, middle, split, reached, own | ⟨outer, asks, deeper⟩⟩ :=
        Turn.mem_ofNodes_iff.mp present
      · have level : inner.levels = turn.levels := Node.levels_of_call? calls
        rw [level] at inBody
        subst own
        exact Turn.mem_ofNodes_iff.mpr
          ⟨before, node, after, middle, split, reached, Or.inr ⟨inner, calls, inBody⟩⟩
      · exact Turn.mem_ofNodes_iff.mpr
          ⟨before, node, after, middle, split, reached, Or.inr ⟨outer, asks, ih _ outer deeper⟩⟩

private theorem Call.ComesTo.mem_ofCall {options : CompileOptions} {expanding : List Mixin}
    {call : Call} {turn : Turn} (comes : call.ComesTo options expanding turn) :
    turn ∈ Turn.ofCall options call.levels expanding call := by
  induction comes with
  | @node levels site body tree middle before after node expanding split reached =>
      exact Turn.mem_ofNodes_iff.mpr ⟨before, node, after, middle, split, reached, Or.inl rfl⟩
  | deeper first calls second ihFirst ihSecond =>
      exact Turn.mem_ofCall_of_call? calls ihSecond _ _ _ ihFirst

theorem mem_turns_iff {options : CompileOptions} {source : Text} {turn : Turn} :
    turn ∈ turns options source ↔ (Call.ofSource source).ComesTo options [] turn := by
  constructor
  · exact fun present => Turn.comesTo_of_mem (nestingLimit + 1) [] _ rfl present
  · exact fun comes => comes.mem_ofCall

private theorem Call.ComesTo.fails {options : CompileOptions} {expanding : List Mixin} {call : Call}
    {turn : Turn} (comes : call.ComesTo options expanding turn) {error : Error}
    (failed : (turn.run options).outcome = .error error) :
    (call.run options).outcome = .error error := by
  induction comes with
  | @node levels site body tree middle before after node expanding split reached =>
      have ran : (Traced.foldl (applyNode options (readBody options levels) site) tree
          body.nodes).outcome = .error error := by
        rw [split, Traced.foldl_append]
        apply Traced.outcome_andThen_eq_error.mpr
        refine Or.inr ⟨middle, reached, ?_⟩
        exact Traced.outcome_andThen_eq_error.mpr (Or.inl failed)
      exact Traced.outcome_andThen_eq_error.mpr (Or.inl ran)
  | deeper first calls second ihFirst ihSecond =>
      apply ihFirst
      rw [Turn.run, Node.apply_of_call? options calls]
      exact ihSecond failed

theorem ofSource_fails_of_turn {options : CompileOptions} {source : Text} {turn : Turn}
    (present : turn ∈ turns options source) {error : Error}
    (failed : (turn.run options).outcome = .error error) :
    (RuleTree.ofSource options source).outcome = .error error :=
  (mem_turns_iff.mp present).fails failed

/-- A failure has come at a turn, unless a body stands too deep or a brace has no partner. -/
theorem Call.comesTo_of_error {options : CompileOptions} {error : Error} (levels : Nat) :
    ∀ (expanding : List Mixin) (call : Call), call.levels = levels →
      (call.run options).outcome = .error error →
      (∃ turn, call.ComesTo options expanding turn ∧ turn.call? = none ∧
        (turn.run options).outcome = .error error) ∨
      error.cause = .nestingTooDeep nestingLimit ∨
      ∃ context?, error.cause = .unbalancedBlock context? := by
  induction levels with
  | zero =>
      rintro expanding ⟨_, site, body, tree⟩ level failed
      subst level
      injection failed with same
      exact Or.inr (Or.inl (same ▸ rfl))
  | succ levels ih =>
      rintro expanding ⟨_, site, body, tree⟩ level failed
      subst level
      rcases Traced.outcome_andThen_eq_error.mp failed with within | ⟨last, _, finished⟩
      · obtain ⟨before, node, after, middle, split, reached, wrong⟩ :=
          Traced.exists_of_foldl_eq_error within
        let turn : Turn := ⟨levels, site, expanding, middle, node⟩
        have comes : Call.ComesTo options expanding ⟨levels + 1, site, body, tree⟩ turn :=
          .node split reached
        cases calls : turn.call? with
        | none => exact Or.inl ⟨turn, comes, calls, wrong⟩
        | some inner =>
            have failedInside := wrong
            rw [Node.apply_of_call? options calls] at failedInside
            apply (ih turn.expandingBelow inner (Node.levels_of_call? calls) failedInside).imp_left
            rintro ⟨later, deeper, quiet, failedThere⟩
            exact ⟨later, .deeper comes calls deeper, quiet, failedThere⟩
      · cases faulty : body.segmentation.fault? with
        | none =>
            simp only [faulty] at finished
            cases finished
        | some fault =>
            simp only [faulty] at finished
            injection finished with same
            obtain ⟨_, context?, _, unbalanced⟩ := body.scans.braceAt [] rfl fault faulty
            exact Or.inr (Or.inr ⟨context?, same ▸ unbalanced⟩)

theorem exists_turn_of_error {options : CompileOptions} {source : Text} {error : Error}
    (failed : (RuleTree.ofSource options source).outcome = .error error) :
    (∃ turn ∈ turns options source, turn.call? = none ∧
      (turn.run options).outcome = .error error) ∨
    error.cause = .nestingTooDeep nestingLimit ∨
    ∃ context?, error.cause = .unbalancedBlock context? := by
  apply (Call.comesTo_of_error (nestingLimit + 1) [] (.ofSource source) rfl failed).imp_left
  rintro ⟨turn, comes, quiet, failedThere⟩
  exact ⟨turn, mem_turns_iff.mpr comes, quiet, failedThere⟩

/-! ### What every turn finds -/

structure Turn.Within (known : Node → Prop) (holds : RuleTree → Prop) (turn : Turn) : Prop where
  ordered : turn.tree.Ordered
  inside : turn.site.rule < turn.tree.size
  node : known turn.node
  tree : holds turn.tree

theorem KeptByReading.turn {known : Node → Prop} {holds : RuleTree → Prop}
    {options : CompileOptions} (kept : KeptByReading known holds) {expanding : List Mixin}
    {call : Call} {turn : Turn} (comes : call.ComesTo options expanding turn)
    (within : call.Within known holds) : turn.Within known holds := by
  induction comes with
  | @node levels site body tree middle before after node expanding split reached =>
      obtain ⟨grown, tidy⟩ := kept.reached within split reached
      refine ⟨grown.ordered, Nat.lt_of_lt_of_le within.inside grown.size_le, ?_, tidy⟩
      apply within.nodes
      rw [split]
      exact List.mem_append_right before (List.mem_cons_self ..)
  | deeper first calls second ihFirst ihSecond =>
      have found := ihFirst within
      exact ihSecond (kept.within_of_call? found.ordered found.inside found.node found.tree calls)

theorem within_of_mem_turns {options : CompileOptions} {source : Text} {turn : Turn}
    (present : turn ∈ turns options source) :
    turn.Within (Node.FoundIn source) (RuleTree.MadeOf (Node.FoundIn source)) :=
  (foundIn_kept source).turn (mem_turns_iff.mp present) (within_ofSource source)

/-! ### Turn after turn -/

/-- The tree that a node leaves to the next turn. A node that asks for a body leaves the
tree in which the body is read. -/
inductive Node.Leaves (site : Site) (tree : RuleTree) : Node → RuleTree → Prop
  | binding (declared : Binding) :
      Leaves site tree (.binding declared) (tree.bind site.rule declared)
  | property {declared : Property} {value : Text}
      (meant : tree.substitute site.rule declared.value declared.location = .ok value) :
      Leaves site tree (.property declared)
        (tree.addChild site.rule (.property { declared with value }))
  | comment (text : Text) : Leaves site tree (.comment text) (tree.addChild site.rule (.comment text))
  | mixin (defined : Mixin) : Leaves site tree (.mixin defined) (tree.defineMixin site.rule defined)
  | media (block : MediaBlock) : Leaves site tree (.media block) (tree.addMedia site.rule block)
  | inclusion (request : Inclusion) : Leaves site tree (.inclusion request) tree
  | rule (selector : Text) (body : Body) :
      Leaves site tree (.rule selector body) (tree.addRule site.rule selector)

private theorem Node.leaves_of_call? {levels : Nat} {site : Site} {tree : RuleTree} {node : Node}
    {call : Call} (calls : node.call? levels site tree = some call) :
    node.Leaves site tree call.tree := by
  cases Node.calls_of_call? calls with
  | rule selector body => exact .rule selector body
  | media block => exact .media block
  | inclusion found fresh => exact .inclusion _

private theorem Node.leaves_of_ok {options : CompileOptions} {levels : Nat} {site : Site}
    {tree after : RuleTree} {node : Node} (quiet : node.call? levels site tree = none)
    (ended : (applyNode options (readBody options levels) site tree node).outcome = .ok after) :
    node.Leaves site tree after := by
  rcases applyNode_ok_cases ended with effect | ⟨call, calls, _⟩
  · cases effect with
    | binding declared => exact .binding declared
    | property declared value =>
        obtain ⟨meant, substituted, same⟩ := Traced.outcome_map_eq_ok.mp ended
        rw [← same]
        exact .property substituted
    | comment text => exact .comment text
    | mixin defined => exact .mixin defined
    | dropped missing => exact .inclusion _
  · rw [quiet] at calls
    cases calls

inductive Turn.Follow : RuleTree → List Turn → RuleTree → Prop
  | nil (tree : RuleTree) : Follow tree [] tree
  | cons {turn : Turn} {next last : RuleTree} {rest : List Turn}
      (leaves : turn.node.Leaves turn.site turn.tree next) (further : Follow next rest last) :
      Follow turn.tree (turn :: rest) last

namespace Turn.Follow

private theorem append {first middle last : RuleTree} {earlier later : List Turn}
    (before : Follow first earlier middle) (after : Follow middle later last) :
    Follow first (earlier ++ later) last := by
  induction before with
  | nil tree => exact after
  | cons leaves _ ih => exact .cons leaves (ih after)

theorem keeps {holds : List Turn → RuleTree → Prop} {turns : List Turn}
    (step : ∀ turn ∈ turns, ∀ past next, holds past turn.tree →
      turn.node.Leaves turn.site turn.tree next → holds (past ++ [turn]) next)
    (past : List Turn) {first last : RuleTree} (follow : Follow first turns last)
    (initially : holds past first) : holds (past ++ turns) last := by
  induction follow generalizing past with
  | nil tree =>
      rw [List.append_nil]
      exact initially
  | @cons turn next last rest leaves _ ih =>
      have stepped := step turn (List.mem_cons_self ..) past next initially leaves
      have further := fun other present => step other (List.mem_cons_of_mem _ present)
      have ended := ih further (past ++ [turn]) stepped
      rw [List.append_assoc] at ended
      exact ended

end Turn.Follow

def Turn.Linked (tree : RuleTree) (turns : List Turn) : Prop :=
  ∀ earlier turn later, turns = earlier ++ turn :: later → Turn.Follow tree earlier turn.tree

namespace Turn

private theorem linked_nil (tree : RuleTree) : Linked tree [] := by
  intro earlier turn later split
  cases earlier <;> cases split

private theorem Linked.cons {turn : Turn} {next : RuleTree} {rest : List Turn}
    (leaves : turn.node.Leaves turn.site turn.tree next) (linked : Linked next rest) :
    Linked turn.tree (turn :: rest) := by
  intro earlier other later split
  cases earlier with
  | nil =>
      injection split with same
      exact same ▸ .nil _
  | cons first before =>
      injection split with same further
      exact same ▸ .cons leaves (linked before other later further)

private theorem linked_single (turn : Turn) : Linked turn.tree [turn] := by
  intro earlier other later split
  cases earlier with
  | nil =>
      injection split with same
      exact same ▸ .nil _
  | cons first before =>
      injection split with _ further
      cases before <;> cases further

private theorem Follow.linked {first middle : RuleTree} {earlier later : List Turn}
    (follow : Follow first earlier middle) (linked : Linked middle later) :
    Linked first (earlier ++ later) := by
  induction follow with
  | nil tree => exact linked
  | cons leaves _ ih => exact .cons leaves (ih linked)

end Turn

/-- How the turns of the calls at some level follow on one another. -/
structure Turn.InOrder (options : CompileOptions) (levels : Nat)
    (below : List Mixin → Call → List Turn) : Prop where
  follow : ∀ expanding call last, call.levels = levels → (call.run options).outcome = .ok last →
    Turn.Follow call.tree (below expanding call) last
  linked : ∀ expanding call, call.levels = levels → Turn.Linked call.tree (below expanding call)

private theorem Turn.InOrder.ofNodes {options : CompileOptions} {levels : Nat}
    {below : List Mixin → Call → List Turn} (inOrder : Turn.InOrder options levels below)
    (site : Site) (expanding : List Mixin) (nodes : List Node) : ∀ tree : RuleTree,
    (∀ last, (Traced.foldl (applyNode options (readBody options levels) site) tree nodes).outcome =
        .ok last →
      Turn.Follow tree (Turn.ofNodes options levels below site expanding tree nodes) last) ∧
    Turn.Linked tree (Turn.ofNodes options levels below site expanding tree nodes) := by
  induction nodes with
  | nil =>
      intro tree
      refine ⟨fun last ended => ?_, linked_nil tree⟩
      injection ended with same
      exact same ▸ .nil tree
  | cons node rest ih =>
      intro tree
      let turn : Turn := ⟨levels, site, expanding, tree, node⟩
      rw [Turn.ofNodes]
      cases stepped : (turn.run options).outcome with
      | error error =>
          constructor
          · intro last ended
            obtain ⟨next, other, _⟩ := Traced.outcome_andThen_eq_ok.mp ended
            cases stepped.symm.trans other
          · simp only [List.append_nil]
            cases calls : turn.call? with
            | none => exact linked_single turn
            | some call =>
                exact @Linked.cons turn _ _ (Node.leaves_of_call? calls)
                  (inOrder.linked _ call (Node.levels_of_call? calls))
      | ok next =>
          obtain ⟨follow, linked⟩ := ih next
          -- The turns of the body lead from the tree that the node leaves to the next node's.
          have body : ∃ middle, turn.node.Leaves turn.site turn.tree middle ∧
              Turn.Follow middle (turn.call?.elim [] (below turn.expandingBelow)) next := by
            cases calls : turn.call? with
            | none => exact ⟨next, Node.leaves_of_ok calls stepped, .nil next⟩
            | some call =>
                refine ⟨call.tree, Node.leaves_of_call? calls, ?_⟩
                refine inOrder.follow _ call next (Node.levels_of_call? calls) ?_
                rw [← Node.apply_of_call? options calls]
                exact stepped
          obtain ⟨middle, leaves, within⟩ := body
          constructor
          · intro last ended
            obtain ⟨other, ran, folded⟩ := Traced.outcome_andThen_eq_ok.mp ended
            obtain rfl : next = other := Except.ok.inj (stepped.symm.trans ran)
            exact @Follow.cons turn _ _ _ leaves (within.append (follow last folded))
          · exact @Linked.cons turn _ _ leaves (within.linked linked)

private theorem Turn.inOrder_ofCall (options : CompileOptions) (levels : Nat) :
    Turn.InOrder options levels (Turn.ofCall options levels) := by
  induction levels with
  | zero =>
      constructor
      · rintro expanding ⟨_, site, body, tree⟩ last level ended
        subst level
        cases ended
      · intro expanding call _
        exact linked_nil call.tree
  | succ levels ih =>
      constructor
      · rintro expanding ⟨_, site, body, tree⟩ last level ended
        subst level
        obtain ⟨_, folded⟩ := Traced.outcome_foldNodes_eq_ok.mp ended
        exact (ih.ofNodes site expanding body.nodes tree).1 last folded
      · rintro expanding ⟨_, site, body, tree⟩ level
        exact (ih.ofNodes site expanding body.nodes tree).2

/-- The turns of a compilation lead from the empty tree to the tree that it ends with. -/
theorem follow_turns {options : CompileOptions} {source : Text} {tree : RuleTree}
    (ended : (RuleTree.ofSource options source).outcome = .ok tree) :
    Turn.Follow .empty (turns options source) tree :=
  (Turn.inOrder_ofCall options (nestingLimit + 1)).follow [] (.ofSource source) tree rfl ended

/-- Whether or not a compilation succeeds, each turn finds what the turns before it left. -/
theorem linked_turns (options : CompileOptions) (source : Text) :
    Turn.Linked .empty (turns options source) :=
  (Turn.inOrder_ofCall options (nestingLimit + 1)).linked [] (.ofSource source) rfl

end NestedCss
