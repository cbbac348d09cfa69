import Mathlib.Logic.Relation
import NestedCss.Proofs.Growth

set_option autoImplicit false

/-! Reading as a run of calls. Reading a body asks for further bodies to be read:
those of its rules and media blocks, and those of the mixins that it includes. What
every operation on the tree keeps is kept by whole calls, and it is there for the
calls that they make; and a call that fails does so at a node that asks for a name
in vain, at a body that stands too deep, or at a brace. -/

namespace NestedCss

def Body.nodes (body : Body) : List Node := body.segmentation.segments.map Node.ofSegment

/-- The request to read a body, with the nesting that is left for it. -/
structure Call where
  levels : Nat
  site : Site
  body : Body
  tree : RuleTree

def Call.ofSource (source : Text) : Call :=
  ⟨nestingLimit + 1, ⟨RuleTree.root, []⟩, .ofSource source, .empty⟩

def Call.run (options : CompileOptions) (call : Call) : Traced RuleTree :=
  readBody options call.levels call.site call.body call.tree

def Node.call? (levels : Nat) (site : Site) (tree : RuleTree) : Node → Option Call
  | .rule selector body =>
      some ⟨levels, { site with rule := tree.size }, body, tree.addRule site.rule selector⟩
  | .media block =>
      some ⟨levels, { site with rule := tree.size }, block.body, tree.addMedia site.rule block⟩
  | .inclusion request =>
      match tree.findMixin site.rule request.name with
      | some defined =>
          if request.name ∈ site.active then none
          else some ⟨levels, ⟨site.rule, site.active ++ [request.name]⟩, defined.body, tree⟩
      | none => none
  | .binding _ | .property _ | .comment _ | .mixin _ => none

/-- One call makes another when, after the nodes before it, some node of its body
does. -/
inductive Call.Spawns (options : CompileOptions) : Call → Call → Prop
  | node {levels : Nat} {site : Site} {body : Body} {tree middle : RuleTree}
      {before after : List Node} {node : Node} {inner : Call}
      (split : body.segmentation.segments.map Node.ofSegment = before ++ node :: after)
      (reached : (Traced.foldl (applyNode options (readBody options levels) site) tree
        before).outcome = .ok middle)
      (calls : node.call? levels site middle = some inner) :
      Call.Spawns options ⟨levels + 1, site, body, tree⟩ inner

inductive Node.Calls (levels : Nat) (site : Site) (tree : RuleTree) : Node → Call → Prop
  | rule (selector : Text) (body : Body) :
      Calls levels site tree (.rule selector body)
        ⟨levels, { site with rule := tree.size }, body, tree.addRule site.rule selector⟩
  | media (block : MediaBlock) :
      Calls levels site tree (.media block)
        ⟨levels, { site with rule := tree.size }, block.body, tree.addMedia site.rule block⟩
  | inclusion {request : Inclusion} {defined : Mixin}
      (found : tree.findMixin site.rule request.name = some defined)
      (fresh : request.name ∉ site.active) :
      Calls levels site tree (.inclusion request)
        ⟨levels, ⟨site.rule, site.active ++ [request.name]⟩, defined.body, tree⟩

theorem Node.calls_of_call? {levels : Nat} {site : Site} {tree : RuleTree} {node : Node}
    {call : Call} (calls : node.call? levels site tree = some call) :
    node.Calls levels site tree call := by
  cases node with
  | rule selector body =>
      injection calls with same
      exact same ▸ .rule selector body
  | media block =>
      injection calls with same
      exact same ▸ .media block
  | inclusion request =>
      simp only [Node.call?] at calls
      split at calls
      · rename_i defined found
        split at calls
        · cases calls
        · rename_i fresh
          injection calls with same
          exact same ▸ .inclusion found fresh
      · cases calls
  | binding defined => cases calls
  | property property => cases calls
  | comment text => cases calls
  | mixin defined => cases calls

theorem Node.levels_of_call? {levels : Nat} {site : Site} {tree : RuleTree} {node : Node}
    {call : Call} (calls : node.call? levels site tree = some call) : call.levels = levels := by
  cases Node.calls_of_call? calls <;> rfl

inductive Node.Effects (site : Site) (tree : RuleTree) : Node → RuleTree → Prop
  | binding (declared : Binding) :
      Effects site tree (.binding declared) (tree.bind site.rule declared)
  | property (declared : Property) (value : Text) :
      Effects site tree (.property declared)
        (tree.addChild site.rule (.property { declared with value }))
  | comment (text : Text) :
      Effects site tree (.comment text) (tree.addChild site.rule (.comment text))
  | mixin (defined : Mixin) : Effects site tree (.mixin defined) (tree.defineMixin site.rule defined)
  | dropped {request : Inclusion} (missing : tree.findMixin site.rule request.name = none) :
      Effects site tree (.inclusion request) tree

theorem applyNode_ok_cases {options : CompileOptions} {levels : Nat} {site : Site}
    {tree after : RuleTree} {node : Node}
    (ended : (applyNode options (readBody options levels) site tree node).outcome = .ok after) :
    node.Effects site tree after ∨
      ∃ call, node.call? levels site tree = some call ∧ (call.run options).outcome = .ok after := by
  cases node with
  | binding declared =>
      injection ended with same
      exact Or.inl (same ▸ .binding declared)
  | property property =>
      obtain ⟨value, _, same⟩ := Traced.outcome_map_eq_ok.mp ended
      exact Or.inl (same ▸ .property property value)
  | comment text =>
      injection ended with same
      exact Or.inl (same ▸ .comment text)
  | mixin defined =>
      injection ended with same
      exact Or.inl (same ▸ .mixin defined)
  | media block => exact Or.inr ⟨_, rfl, ended⟩
  | inclusion request =>
      simp only [applyNode, expandInclusion] at ended
      split at ended
      · rename_i missing
        split at ended
        · cases ended
        · injection ended with same
          exact Or.inl (same ▸ .dropped missing)
      · rename_i defined found
        split at ended
        · cases ended
        · rename_i fresh
          exact Or.inr ⟨⟨levels, ⟨site.rule, site.active ++ [request.name]⟩, defined.body, tree⟩,
            by simp only [Node.call?, found, if_neg fresh], ended⟩
  | rule selector body => exact Or.inr ⟨_, rfl, ended⟩

def Node.body? : Node → Option Body
  | .rule _ body => some body
  | .media block => some block.body
  | .mixin defined => some defined.body
  | .binding _ | .property _ | .comment _ | .inclusion _ => none

/-! ### What reading keeps -/

open RuleTree

/-- A kind of nodes and a property of trees that go together. Bodies of such nodes
consist of such nodes, mixins in scope are such nodes, and each operation that such a
node asks for keeps the property. -/
structure KeptByReading (known : Node → Prop) (holds : RuleTree → Prop) : Prop where
  inside : ∀ node inner, known node → node.body? = some inner → ∀ other ∈ inner.nodes, known other
  found : ∀ tree here name defined, holds tree → tree.findMixin here name = some defined →
    known (.mixin defined)
  bind : ∀ tree here declared, tree.Ordered → here < tree.size → holds tree →
    known (.binding declared) → holds (tree.bind here declared)
  addProperty : ∀ tree here property value, tree.Ordered → here < tree.size → holds tree →
    known (.property property) → holds (tree.addChild here (.property { property with value }))
  addComment : ∀ tree here text, tree.Ordered → here < tree.size → holds tree →
    holds (tree.addChild here (.comment text))
  defineMixin : ∀ tree here defined, tree.Ordered → here < tree.size → holds tree →
    known (.mixin defined) → holds (tree.defineMixin here defined)
  addMedia : ∀ tree here block, tree.Ordered → here < tree.size → holds tree →
    known (.media block) → holds (tree.addMedia here block)
  addRule : ∀ tree here selector, tree.Ordered → here < tree.size → holds tree →
    holds (tree.addRule here selector)

structure Call.Within (known : Node → Prop) (holds : RuleTree → Prop) (call : Call) : Prop where
  ordered : call.tree.Ordered
  inside : call.site.rule < call.tree.size
  nodes : ∀ node ∈ call.body.nodes, known node
  tree : holds call.tree

namespace KeptByReading

variable {known : Node → Prop} {holds : RuleTree → Prop} {options : CompileOptions}

theorem within_of_call? (kept : KeptByReading known holds) {levels : Nat} {site : Site}
    {tree : RuleTree} {node : Node} {call : Call} (ordered : tree.Ordered)
    (inside : site.rule < tree.size) (member : known node) (tidy : holds tree)
    (calls : node.call? levels site tree = some call) : call.Within known holds := by
  cases Node.calls_of_call? calls with
  | rule selector body =>
      have new := made_addRule ordered inside selector
      exact ⟨new.grown.ordered, new.size_lt, kept.inside _ body member rfl,
        kept.addRule tree _ selector ordered inside tidy⟩
  | media block =>
      have new := made_addMedia ordered inside block
      exact ⟨new.grown.ordered, new.size_lt, kept.inside _ block.body member rfl,
        kept.addMedia tree _ block ordered inside tidy member⟩
  | @inclusion request defined found fresh =>
      exact ⟨ordered, inside,
        kept.inside _ defined.body (kept.found tree _ _ defined tidy found) rfl, tidy⟩

theorem applyNode (kept : KeptByReading known holds) {levels : Nat} {site : Site}
    {tree after : RuleTree} {node : Node} (ordered : tree.Ordered) (inside : site.rule < tree.size)
    (member : known node) (tidy : holds tree)
    (below : ∀ call last, node.call? levels site tree = some call → call.Within known holds →
      (call.run options).outcome = .ok last → holds last)
    (ended : (applyNode options (readBody options levels) site tree node).outcome = .ok after) :
    holds after := by
  rcases applyNode_ok_cases ended with effect | ⟨call, calls, ran⟩
  · cases effect with
    | binding declared => exact kept.bind tree site.rule declared ordered inside tidy member
    | property property value =>
        exact kept.addProperty tree site.rule property value ordered inside tidy member
    | comment text => exact kept.addComment tree site.rule text ordered inside tidy
    | mixin defined => exact kept.defineMixin tree site.rule defined ordered inside tidy member
    | dropped missing => exact tidy
  · exact below call after calls (kept.within_of_call? ordered inside member tidy calls) ran

theorem foldl_applyNode (kept : KeptByReading known holds) {levels : Nat} {site : Site}
    {tree after : RuleTree} {nodes : List Node} (ordered : tree.Ordered)
    (inside : site.rule < tree.size) (members : ∀ node ∈ nodes, known node) (tidy : holds tree)
    (below : ∀ (call : Call) last, call.levels = levels → call.Within known holds →
      (call.run options).outcome = .ok last → holds last)
    (ended : (Traced.foldl (NestedCss.applyNode options (readBody options levels) site) tree
      nodes).outcome = .ok after) :
    Grows site.rule tree after ∧ holds after := by
  refine Traced.foldl_keeps (fun later => Grows site.rule tree later ∧ holds later) nodes ?_
    ⟨.refl ordered site.rule, tidy⟩ ended
  rintro node present middle next ⟨sofar, between⟩ stepped
  have within := Nat.lt_of_lt_of_le inside sofar.size_le
  refine ⟨sofar.trans (applyNode_grows (readBody_grows options levels) sofar.ordered within
    stepped), ?_⟩
  exact kept.applyNode sofar.ordered within (members node present) between
    (fun call last calls => below call last (Node.levels_of_call? calls)) stepped

theorem run (kept : KeptByReading known holds) (levels : Nat) :
    ∀ (call : Call) {after : RuleTree}, call.levels = levels → call.Within known holds →
      (call.run options).outcome = .ok after → holds after := by
  induction levels with
  | zero =>
      rintro ⟨_, site, body, tree⟩ after level within ended
      subst level
      cases ended
  | succ levels ih =>
      rintro ⟨_, site, body, tree⟩ after level within ended
      subst level
      obtain ⟨_, folded⟩ := Traced.outcome_foldNodes_eq_ok.mp ended
      exact (kept.foldl_applyNode within.ordered within.inside within.nodes within.tree
        (fun call last => ih call) folded).2

/-- When a call has come past some of its nodes, the tree has grown and the property
still holds. -/
theorem reached (kept : KeptByReading known holds) {levels : Nat} {site : Site} {body : Body}
    {tree middle : RuleTree} {before after : List Node}
    (within : (Call.mk (levels + 1) site body tree).Within known holds)
    (split : body.nodes = before ++ after)
    (come : (Traced.foldl (NestedCss.applyNode options (readBody options levels) site) tree
      before).outcome = .ok middle) : Grows site.rule tree middle ∧ holds middle := by
  refine kept.foldl_applyNode within.ordered within.inside ?_ within.tree
    (fun call last => kept.run levels call) come
  intro node present
  refine within.nodes node ?_
  rw [split]
  exact List.mem_append_left after present

theorem spawned (kept : KeptByReading known holds) {outer inner : Call}
    (within : outer.Within known holds) (spawned : Call.Spawns options outer inner) :
    inner.Within known holds := by
  cases spawned with
  | @node levels site body tree middle before after node inner split come calls =>
      obtain ⟨grown, tidy⟩ := kept.reached within split come
      refine kept.within_of_call? grown.ordered (Nat.lt_of_lt_of_le within.inside grown.size_le)
        (within.nodes node ?_) tidy calls
      rw [Body.nodes, split]
      exact List.mem_append_right before (List.mem_cons_self ..)

theorem body_of_spawns (kept : KeptByReading known holds) {outer inner : Call}
    (within : outer.Within known holds) (spawned : Call.Spawns options outer inner) :
    (∃ node ∈ outer.body.nodes, node.body? = some inner.body) ∨
      ∃ defined, known (.mixin defined) ∧ defined.body = inner.body := by
  cases spawned with
  | @node levels site body tree middle before after node inner split come calls =>
      have present : node ∈ body.nodes := by
        rw [Body.nodes, split]
        exact List.mem_append_right before (List.mem_cons_self ..)
      cases Node.calls_of_call? calls with
      | rule selector below => exact Or.inl ⟨_, present, rfl⟩
      | media block => exact Or.inl ⟨_, present, rfl⟩
      | @inclusion request defined found fresh =>
          have tidy := (kept.reached within split come).2
          exact Or.inr ⟨defined, kept.found _ _ _ _ tidy found, rfl⟩

theorem called (kept : KeptByReading known holds) {outer inner : Call}
    (within : outer.Within known holds)
    (calls : Relation.ReflTransGen (Call.Spawns options) outer inner) :
    inner.Within known holds := by
  induction calls with
  | refl => exact within
  | tail _ direct ih => exact kept.spawned ih direct

end KeptByReading

theorem KeptByReading.of_operations {holds : RuleTree → Prop}
    (bind : ∀ tree here declared, tree.Ordered → here < tree.size → holds tree →
      holds (tree.bind here declared))
    (addChild : ∀ tree here child, tree.Ordered → here < tree.size → holds tree →
      child.rule? = none → holds (tree.addChild here child))
    (defineMixin : ∀ tree here defined, tree.Ordered → here < tree.size → holds tree →
      holds (tree.defineMixin here defined))
    (addMedia : ∀ tree here block, tree.Ordered → here < tree.size → holds tree →
      holds (tree.addMedia here block))
    (addRule : ∀ tree here selector, tree.Ordered → here < tree.size → holds tree →
      holds (tree.addRule here selector)) :
    KeptByReading (fun _ => True) holds where
  inside := fun _ _ _ _ _ _ => True.intro
  found := fun _ _ _ _ _ _ => True.intro
  bind := fun tree here declared ordered inside tidy _ => bind tree here declared ordered inside tidy
  addProperty := fun tree here _ _ ordered inside tidy _ =>
    addChild tree here _ ordered inside tidy rfl
  addComment := fun tree here _ ordered inside tidy => addChild tree here _ ordered inside tidy rfl
  defineMixin := fun tree here defined ordered inside tidy _ =>
    defineMixin tree here defined ordered inside tidy
  addMedia := fun tree here block ordered inside tidy _ =>
    addMedia tree here block ordered inside tidy
  addRule := addRule

/-! ### What trees are made of -/

structure Rule.MadeOf (known : Node → Prop) (rule : Rule) : Prop where
  properties : ∀ property, Child.property property ∈ rule.children →
    ∃ raw, known (.property raw) ∧ property = { raw with value := property.value }
  bindings : ∀ name declared, rule.bindings.find? name = some declared → known (.binding declared)
  mixins : ∀ name defined, rule.mixins.find? name = some defined → known (.mixin defined)
  media : ∀ entry ∈ rule.media, known (.media entry.block)

def RuleTree.MadeOf (known : Node → Prop) (tree : RuleTree) : Prop :=
  ∀ id, (tree.rule id).MadeOf known

namespace RuleTree

variable {known : Node → Prop} {tree : RuleTree}

theorem madeOf_fresh (selector : Text) (parent? : Option RuleId) :
    (Rule.fresh selector parent?).MadeOf known where
  properties := fun _ present => absurd present (List.not_mem_nil)
  bindings := fun _ _ found => by cases found
  mixins := fun _ _ found => by cases found
  media := fun _ present => absurd present (List.not_mem_nil)

theorem madeOf_empty : empty.MadeOf known := forall_rule_empty (madeOf_fresh [] none)

theorem MadeOf.modify (made : tree.MadeOf known) (id : RuleId) {change : Rule → Rule}
    (kept : ∀ rule : Rule, rule.MadeOf known → (change rule).MadeOf known) :
    (tree.modify id change).MadeOf known :=
  forall_rule_modify made id kept

theorem MadeOf.addDetached (made : tree.MadeOf known) (parent : RuleId) (selector : Text) :
    (tree.addDetached parent selector).MadeOf known :=
  forall_rule_addDetached made (madeOf_fresh selector (some parent))

theorem MadeOf.addChild (made : tree.MadeOf known) (here : RuleId) {child : Child}
    (comes : ∀ property, child = .property property →
      ∃ raw, known (.property raw) ∧ property = { raw with value := property.value }) :
    (tree.addChild here child).MadeOf known := by
  refine made.modify here fun rule inner => { inner with properties := ?_ }
  intro property present
  rcases List.mem_append.mp present with old | new
  · exact inner.properties property old
  · exact comes property (List.mem_singleton.mp new).symm

theorem MadeOf.bind (made : tree.MadeOf known) (here : RuleId) {declared : Binding}
    (comes : known (.binding declared)) : (tree.bind here declared).MadeOf known := by
  refine made.modify _ fun rule inner => { inner with bindings := ?_ }
  intro name other search
  rcases Table.find?_insert_cases search with rfl | old
  · exact comes
  · exact inner.bindings name other old

theorem MadeOf.defineMixin (made : tree.MadeOf known) (here : RuleId) {defined : Mixin}
    (comes : known (.mixin defined)) : (tree.defineMixin here defined).MadeOf known := by
  refine made.modify here fun rule inner => { inner with mixins := ?_ }
  intro name other search
  rcases Table.find?_insert_cases search with rfl | old
  · exact comes
  · exact inner.mixins name other old

theorem MadeOf.addMedia (made : tree.MadeOf known) (here : RuleId) {block : MediaBlock}
    (comes : known (.media block)) : (tree.addMedia here block).MadeOf known := by
  refine (made.addDetached here expansionSelector).modify here fun rule inner =>
    { inner with media := ?_ }
  intro entry present
  rcases List.mem_append.mp present with old | new
  · exact inner.media entry old
  · exact (List.mem_singleton.mp new) ▸ comes

end RuleTree

theorem madeOf_kept {known : Node → Prop}
    (inside : ∀ node inner, known node → node.body? = some inner →
      ∀ other ∈ inner.nodes, known other) :
    KeptByReading known (RuleTree.MadeOf known) where
  inside := inside
  found := by
    intro tree here name defined made found
    obtain ⟨id, _, present⟩ := List.exists_of_findSome?_eq_some found
    exact (made id).mixins name defined present
  bind := fun _ here _ _ _ made comes => made.bind here comes
  addProperty := by
    intro tree here property value _ _ made comes
    refine made.addChild here ?_
    rintro _ ⟨⟩
    exact ⟨property, comes, rfl⟩
  addComment := fun _ here _ _ _ made => made.addChild here fun _ same => by cases same
  defineMixin := fun _ here _ _ _ made comes => made.defineMixin here comes
  addMedia := fun _ here _ _ _ made comes => made.addMedia here comes
  addRule := fun _ here selector _ _ made =>
    (made.addDetached here selector).addChild here fun _ same => by cases same

/-! ### How a call fails -/

/-- A node asks for a name in vain: for a variable that no enclosing rule binds, for a
mixin that none defines, or for one whose body is being expanded. -/
inductive Node.Misses (site : Site) (tree : RuleTree) : Node → Error → Prop
  | unbound {property : Property} {reference : Reference}
      (refers : Reference.ofValue? property.value.trim = some reference)
      (missing : tree.lookup site.rule reference.name = none) :
      Misses site tree (.property property)
        ⟨.unresolvedVariable reference.name, property.location⟩
  | undefined {request : Inclusion} (missing : tree.findMixin site.rule request.name = none) :
      Misses site tree (.inclusion request) ⟨.unresolvedMixin request.name, request.location⟩
  | recursive {request : Inclusion} (active : request.name ∈ site.active) :
      Misses site tree (.inclusion request)
        ⟨.recursiveMixin request.name (site.active ++ [request.name]), request.location⟩

theorem applyNode_error_cases {options : CompileOptions} {levels : Nat} {site : Site}
    {tree : RuleTree} {node : Node} {error : Error}
    (failed : (applyNode options (readBody options levels) site tree node).outcome =
      .error error) :
    node.Misses site tree error ∨
      ∃ call, node.call? levels site tree = some call ∧
        (call.run options).outcome = .error error := by
  cases node with
  | binding declared => cases failed
  | property property =>
      have missing := Traced.outcome_map_eq_error.mp failed
      simp only [Traced.ofExcept, substitute, resolve] at missing
      split at missing
      · rename_i reference refers
        cases found : tree.lookup site.rule reference.name with
        | none =>
            simp only [found, Except.map] at missing
            injection missing with same
            exact Or.inl (same ▸ .unbound refers found)
        | some declared =>
            simp only [found, Except.map] at missing
            cases missing
      · cases missing
  | comment text => cases failed
  | mixin defined => cases failed
  | media block => exact Or.inr ⟨_, rfl, failed⟩
  | inclusion request =>
      simp only [applyNode, expandInclusion] at failed
      simp only [Node.call?]
      cases found : tree.findMixin site.rule request.name with
      | none =>
          simp only [found] at failed
          split at failed
          · injection failed with same
            exact Or.inl (same ▸ .undefined found)
          · cases failed
      | some defined =>
          simp only [found] at failed
          split at failed
          · rename_i active
            injection failed with same
            exact Or.inl (same ▸ .recursive active)
          · rename_i fresh
            exact Or.inr ⟨⟨levels, ⟨site.rule, site.active ++ [request.name]⟩, defined.body, tree⟩,
              by simp only [if_neg fresh], failed⟩
  | rule selector body => exact Or.inr ⟨_, rfl, failed⟩

inductive Call.Misses (options : CompileOptions) : Call → Node → Error → Prop
  | node {levels : Nat} {site : Site} {body : Body} {tree middle : RuleTree}
      {before after : List Node} {node : Node} {error : Error}
      (split : body.nodes = before ++ node :: after)
      (reached : (Traced.foldl (applyNode options (readBody options levels) site) tree
        before).outcome = .ok middle)
      (misses : node.Misses site middle error) :
      Call.Misses options ⟨levels + 1, site, body, tree⟩ node error

/-- A failure comes from a call that the failing one leads to: its body stands too deep
or has an unbalanced brace, or it gets to a node that asks for a name in vain. -/
theorem Call.error_cases {options : CompileOptions} (levels : Nat) :
    ∀ (call : Call) {error : Error}, call.levels = levels →
      (call.run options).outcome = .error error →
      ∃ inner, Relation.ReflTransGen (Call.Spawns options) call inner ∧
        (inner.levels = 0 ∧ error = ⟨.nestingTooDeep nestingLimit, inner.body.origin⟩ ∨
          inner.body.segmentation.fault? = some error ∨
          ∃ node, inner.Misses options node error) := by
  induction levels with
  | zero =>
      rintro ⟨_, site, body, tree⟩ error level failed
      subst level
      injection failed with same
      exact ⟨_, .refl, Or.inl ⟨rfl, same.symm⟩⟩
  | succ levels ih =>
      rintro ⟨_, site, body, tree⟩ error level failed
      subst level
      rcases Traced.outcome_andThen_eq_error.mp failed with within | ⟨last, _, finished⟩
      · obtain ⟨before, node, after, middle, split, reached, wrong⟩ :=
          Traced.exists_of_foldl_eq_error within
        rcases applyNode_error_cases wrong with misses | ⟨inner, calls, failedInside⟩
        · exact ⟨_, .refl, Or.inr (Or.inr ⟨node, .node split reached misses⟩)⟩
        · obtain ⟨last, spawned, reason⟩ := ih inner (Node.levels_of_call? calls) failedInside
          exact ⟨last, .head (.node split reached calls) spawned, reason⟩
      · cases faulty : body.segmentation.fault? with
        | none => simp only [faulty] at finished; cases finished
        | some fault =>
            simp only [faulty] at finished
            injection finished with same
            exact ⟨_, .refl, Or.inr (Or.inl (same ▸ faulty))⟩

end NestedCss
