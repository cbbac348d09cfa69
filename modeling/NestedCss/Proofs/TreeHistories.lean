import NestedCss.Proofs.Ancestry

set_option autoImplicit false

/-! Histories of a rule tree. A tree is built by operations on rules that exist, one after
the other, and what its rules know can be told from the operations alone: the parent of a
rule is the one that it was created under, and under each name a rule knows what was entered
last. So a lookup finds the latest entry of the nearest rule that ever got one, and no name
is ever lost. -/

namespace NestedCss.RuleTree

inductive Operation where
  | addRule (parent : RuleId) (selector : Text)
  | addDetached (parent : RuleId) (selector : Text)
  | addProperty (here : RuleId) (property : Property)
  | addComment (here : RuleId) (text : Text)
  | bind (here : RuleId) (declared : Binding)
  | defineMixin (here : RuleId) (defined : Mixin)
  | attachMedia (here : RuleId) (block : MediaBlock) (expansion : RuleId)

structure Entry (α : Type) where
  rule : RuleId
  name : Text
  value : α

namespace Operation

def perform (tree : RuleTree) : Operation → RuleTree
  | .addRule parent selector => tree.addRule parent selector
  | .addDetached parent selector => tree.addDetached parent selector
  | .addProperty here property => tree.addChild here (.property property)
  | .addComment here text => tree.addChild here (.comment text)
  | .bind here declared => tree.bind here declared
  | .defineMixin here defined => tree.defineMixin here defined
  | .attachMedia here block expansion => tree.attachMedia here block expansion

def rules : Operation → List RuleId
  | .addRule parent _ | .addDetached parent _ => [parent]
  | .addProperty here _ | .addComment here _ | .bind here _ | .defineMixin here _ => [here]
  | .attachMedia here _ expansion => [here, expansion]

def parent? : Operation → Option RuleId
  | .addRule parent _ | .addDetached parent _ => some parent
  | .addProperty _ _ | .addComment _ _ | .bind _ _ | .defineMixin _ _ | .attachMedia _ _ _ => none

/-- A global variable is entered in the outermost rule, any other in the rule at hand. -/
def binding? : Operation → Option (Entry Binding)
  | .bind here declared => some ⟨if declared.isGlobal then root else here, declared.key, declared⟩
  | .addRule _ _ | .addDetached _ _ | .addProperty _ _ | .addComment _ _ | .defineMixin _ _
  | .attachMedia _ _ _ => none

def mixin? : Operation → Option (Entry Mixin)
  | .defineMixin here defined => some ⟨here, defined.name, defined⟩
  | .addRule _ _ | .addDetached _ _ | .addProperty _ _ | .addComment _ _ | .bind _ _
  | .attachMedia _ _ _ => none

end Operation

/-- The tree that some operations on existing rules lead to from the empty one. -/
inductive History : List Operation → RuleTree → Prop
  | nil : History [] empty
  | concat {past : List Operation} {tree : RuleTree} {operation : Operation}
      (history : History past tree) (exist : ∀ id ∈ operation.rules, id < tree.size) :
      History (past ++ [operation]) (operation.perform tree)

/-- The parent of a rule, by the operation that created it. Rules are numbered in the order
of their creation, after the outermost one. -/
def parentIn (past : List Operation) : RuleId → Option RuleId
  | 0 => none
  | id + 1 => (past.filterMap Operation.parent?)[id]?

def entered {α : Type} (enters? : Operation → Option (Entry α)) (past : List Operation)
    (id : RuleId) (name : Text) : List α :=
  (past.filterMap enters?).filterMap fun entry =>
    if entry.rule = id ∧ entry.name = name then some entry.value else none

/-- A value is the last one of the first rule on the way up that has any. -/
def LatestOfNearest {α : Type} (values : RuleId → List α) (chain : List RuleId) (value : α) : Prop :=
  ∃ near id far before, chain = near ++ id :: far ∧ (∀ other ∈ near, values other = []) ∧
    values id = before ++ [value]

def Entry.into {α : Type} (id : RuleId) (table : Table α) : Option (Entry α) → Table α
  | some entry => if entry.rule = id then table.insert entry.name entry.value else table
  | none => table

/-! ### One operation -/

theorem Parented.perform {tree : RuleTree} (parented : tree.Parented) {operation : Operation}
    (exist : ∀ id ∈ operation.rules, id < tree.size) : (operation.perform tree).Parented := by
  cases operation with
  | addRule parent selector =>
      exact (parented.addDetached (exist parent (List.mem_singleton_self _)) selector).modify rfl
  | addDetached parent selector =>
      exact parented.addDetached (exist parent (List.mem_singleton_self _)) selector
  | addProperty here property => exact parented.modify rfl
  | addComment here text => exact parented.modify rfl
  | bind here declared => exact parented.modify rfl
  | defineMixin here defined => exact parented.modify rfl
  | attachMedia here block expansion => exact parented.modify rfl

theorem size_perform (tree : RuleTree) (operation : Operation) :
    (operation.perform tree).size = tree.size + operation.parent?.toList.length := by
  cases operation with
  | addRule parent selector => exact size_addRule tree parent selector
  | addDetached parent selector => exact size_addDetached tree parent selector
  | addProperty here property => exact size_addChild tree here _
  | addComment here text => exact size_addChild tree here _
  | bind here declared => exact size_modify tree _ _
  | defineMixin here defined => exact size_modify tree here _
  | attachMedia here block expansion => exact size_modify tree here _

theorem parent?_perform (tree : RuleTree) (operation : Operation) (id : RuleId) :
    ((operation.perform tree).rule id).parent? =
      if id = tree.size then operation.parent? else (tree.rule id).parent? := by
  have created : ∀ parent selector,
      ((tree.addDetached parent selector).rule id).parent? =
        if id = tree.size then some parent else (tree.rule id).parent? := by
    intro parent selector
    rw [rule_addDetached]
    split <;> rfl
  have unchanged : (tree.rule id).parent? =
      if id = tree.size then none else (tree.rule id).parent? := by
    split
    · rename_i same
      rw [rule_of_size_le tree same.ge]
      rfl
    · rfl
  cases operation with
  | addRule parent selector =>
      exact (read_rule_modify Rule.parent? rfl id).trans (created parent selector)
  | addDetached parent selector => exact created parent selector
  | addProperty here property => exact (read_rule_modify Rule.parent? rfl id).trans unchanged
  | addComment here text => exact (read_rule_modify Rule.parent? rfl id).trans unchanged
  | bind here declared => exact (read_rule_modify Rule.parent? rfl id).trans unchanged
  | defineMixin here defined => exact (read_rule_modify Rule.parent? rfl id).trans unchanged
  | attachMedia here block expansion => exact (read_rule_modify Rule.parent? rfl id).trans unchanged

/-- A table of each rule that operations enter values in: whatever an operation does enter
comes into the table of its rule. -/
structure Filled {α : Type} (table : Rule → Table α) (enters? : Operation → Option (Entry α)) :
    Prop where
  bare : ∀ selector parent?, table (.fresh selector parent?) = .empty
  perform : ∀ tree operation, tree.Parented → (∀ id ∈ operation.rules, id < tree.size) →
    ∀ id, table ((operation.perform tree).rule id) =
      (enters? operation |> Entry.into id (table (tree.rule id)))

private theorem filled_bindings : Filled Rule.bindings Operation.binding? where
  bare := fun _ _ => rfl
  perform := by
    intro tree operation parented exist id
    cases operation with
    | addRule parent selector =>
        exact (read_rule_modify Rule.bindings rfl id).trans
          (read_rule_addDetached Rule.bindings tree rfl id)
    | addDetached parent selector => exact read_rule_addDetached Rule.bindings tree rfl id
    | addProperty here property => exact read_rule_modify Rule.bindings rfl id
    | addComment here text => exact read_rule_modify Rule.bindings rfl id
    | bind here declared =>
        have target : (if declared.isGlobal then root else here) < tree.size := by
          split
          · exact parented.root_lt
          · exact exist here (List.mem_singleton_self _)
        exact read_rule_modify_eq Rule.bindings tree _ target id
    | defineMixin here defined => exact read_rule_modify Rule.bindings rfl id
    | attachMedia here block expansion => exact read_rule_modify Rule.bindings rfl id

private theorem filled_mixins : Filled Rule.mixins Operation.mixin? where
  bare := fun _ _ => rfl
  perform := by
    intro tree operation parented exist id
    cases operation with
    | addRule parent selector =>
        exact (read_rule_modify Rule.mixins rfl id).trans
          (read_rule_addDetached Rule.mixins tree rfl id)
    | addDetached parent selector => exact read_rule_addDetached Rule.mixins tree rfl id
    | addProperty here property => exact read_rule_modify Rule.mixins rfl id
    | addComment here text => exact read_rule_modify Rule.mixins rfl id
    | bind here declared => exact read_rule_modify Rule.mixins rfl id
    | defineMixin here defined =>
        exact read_rule_modify_eq Rule.mixins tree _ (exist here (List.mem_singleton_self _)) id
    | attachMedia here block expansion => exact read_rule_modify Rule.mixins rfl id

/-! ### Whole histories -/

private theorem entered_append {α : Type} (enters? : Operation → Option (Entry α))
    (past further : List Operation) (id : RuleId) (name : Text) :
    entered enters? (past ++ further) id name =
      entered enters? past id name ++ entered enters? further id name := by
  rw [entered, List.filterMap_append, List.filterMap_append]
  rfl

private theorem entered_singleton {α : Type} (enters? : Operation → Option (Entry α))
    (operation : Operation) (id : RuleId) (name : Text) :
    entered enters? [operation] id name = (enters? operation).toList.filterMap fun entry =>
      if entry.rule = id ∧ entry.name = name then some entry.value else none := by
  rw [entered, List.filterMap_cons]
  cases enters? operation <;> rfl

private theorem find?_into {α : Type} (id : RuleId) (name : Text) (table : Table α)
    (values : List α) (known : table.find? name = values.getLast?) (enters? : Option (Entry α)) :
    (Entry.into id table enters?).find? name =
      (values ++ enters?.toList.filterMap fun entry =>
        if entry.rule = id ∧ entry.name = name then some entry.value else none).getLast? := by
  cases enters? with
  | none =>
      rw [Option.toList_none, List.filterMap_nil, List.append_nil]
      exact known
  | some entry =>
      simp only [Entry.into, Option.toList_some, List.filterMap_cons, List.filterMap_nil]
      by_cases own : entry.rule = id
      · by_cases named : entry.name = name
        · subst named
          simp only [own, and_self, if_true]
          rw [Table.find?_insert_self, List.getLast?_concat]
        · simp only [own, named, and_false, if_true, if_false, List.append_nil]
          rw [Table.find?_insert_of_ne _ _ _ _ (Ne.symm named)]
          exact known
      · simp only [own, false_and, if_false, List.append_nil]
        exact known

namespace History

variable {past : List Operation} {tree : RuleTree}

theorem parented (history : History past tree) : tree.Parented := by
  induction history with
  | nil => exact parented_empty
  | concat _ exist ih => exact ih.perform exist

private theorem size_eq (history : History past tree) :
    tree.size = (past.filterMap Operation.parent?).length + 1 := by
  induction history with
  | nil => rfl
  | @concat past tree operation _ _ ih =>
      rw [size_perform, ih, List.filterMap_append, List.length_append, List.filterMap_cons]
      cases operation.parent? with
      | none => rfl
      | some parent => rfl

theorem parent?_eq (history : History past tree) (id : RuleId) :
    (tree.rule id).parent? = parentIn past id := by
  induction history generalizing id with
  | nil =>
      rw [rule_empty]
      cases id <;> rfl
  | @concat past tree operation sofar _ ih =>
      rw [parent?_perform, ih, sofar.size_eq]
      cases id with
      | zero => rfl
      | succ id =>
          simp only [parentIn, List.filterMap_append, List.filterMap_cons, List.filterMap_nil]
          generalize past.filterMap Operation.parent? = parents
          split
          · rename_i last
            obtain rfl : id = parents.length := Nat.succ.inj last
            cases operation.parent? <;> simp
          · rename_i other
            cases operation.parent? with
            | none => simp
            | some parent =>
                rcases Nat.lt_or_gt_of_ne other with earlier | later
                · rw [List.getElem?_append_left (Nat.lt_of_succ_lt_succ earlier)]
                · have outside : parents.length < id := Nat.lt_of_succ_lt_succ later
                  rw [List.getElem?_eq_none outside.le, List.getElem?_eq_none]
                  rw [List.length_append, List.length_singleton]
                  exact outside

private theorem find?_eq {α : Type} {table : Rule → Table α}
    {enters? : Operation → Option (Entry α)}
    (filled : Filled table enters?) (history : History past tree) (id : RuleId) (name : Text) :
    (table (tree.rule id)).find? name = (entered enters? past id name).getLast? := by
  induction history with
  | nil =>
      rw [rule_empty, filled.bare]
      rfl
  | @concat past tree operation sofar exist ih =>
      rw [filled.perform tree operation sofar.parented exist, entered_append, entered_singleton]
      exact find?_into id name _ _ ih _

private theorem find?_isSome {α : Type} {table : Rule → Table α}
    {enters? : Operation → Option (Entry α)}
    (filled : Filled table enters?) {further : List Operation} {later : RuleTree}
    (history : History past tree) (goesOn : History (past ++ further) later) {id : RuleId}
    {name : Text} (known : ((table (tree.rule id)).find? name).isSome) :
    ((table (later.rule id)).find? name).isSome := by
  rw [history.find?_eq filled, Option.isSome_iff_ne_none, ne_eq, List.getLast?_eq_none_iff]
    at known
  rw [goesOn.find?_eq filled, Option.isSome_iff_ne_none, ne_eq, List.getLast?_eq_none_iff,
    entered_append]
  exact fun bare => known (List.append_eq_nil_iff.mp bare).1

end History

/-! ### Lookup -/

private theorem findSome?_getLast?_eq_some_iff {α : Type} (values : RuleId → List α)
    (chain : List RuleId) (value : α) :
    (chain.findSome? fun id => (values id).getLast?) = some value ↔
      LatestOfNearest values chain value := by
  simp only [List.findSome?_eq_some_iff, List.getLast?_eq_some_iff, List.getLast?_eq_none_iff,
    LatestOfNearest]
  constructor
  · rintro ⟨near, id, far, split, ⟨before, latest⟩, bare⟩
    exact ⟨near, id, far, before, split, bare, latest⟩
  · rintro ⟨near, id, far, before, split, bare, latest⟩
    exact ⟨near, id, far, split, ⟨before, latest⟩, bare⟩

private theorem findSome?_getLast?_eq_none_iff {α : Type} (values : RuleId → List α)
    (chain : List RuleId) :
    (chain.findSome? fun id => (values id).getLast?) = none ↔ ∀ id ∈ chain, values id = [] := by
  simp only [List.findSome?_eq_none_iff, List.getLast?_eq_none_iff]

/-- Lookups are told by the history of a tree. The ancestors of a rule go up from parent to
parent, as the rules were created, and end with the outermost rule; a name means the last
variable or mixin that was entered under it in the nearest of them that ever got one; and a
name that a rule knows stays known. -/
theorem lookup_follows_history {past : List Operation} {tree : RuleTree}
    (history : History past tree) :
    (∀ here, here < tree.size → (tree.ancestors here).head? = some here ∧
      ((tree.ancestors here).IsChain fun id above => parentIn past id = some above) ∧
      (tree.ancestors here).Pairwise (· > ·) ∧ (tree.ancestors here).getLast? = some root) ∧
    (∀ here, here < tree.size → ∀ name,
      (∀ declared, tree.lookup here name = some declared ↔
        LatestOfNearest (entered Operation.binding? past · name) (tree.ancestors here) declared) ∧
      (tree.lookup here name = none ↔
        ∀ id ∈ tree.ancestors here, entered Operation.binding? past id name = []) ∧
      (∀ defined, tree.findMixin here name = some defined ↔
        LatestOfNearest (entered Operation.mixin? past · name) (tree.ancestors here) defined) ∧
      (tree.findMixin here name = none ↔
        ∀ id ∈ tree.ancestors here, entered Operation.mixin? past id name = [])) ∧
    ∀ further later, History (past ++ further) later → ∀ id name,
      (((tree.rule id).bindings.find? name).isSome →
        ((later.rule id).bindings.find? name).isSome) ∧
      (((tree.rule id).mixins.find? name).isSome → ((later.rule id).mixins.find? name).isSome) := by
  have parented := history.parented
  refine ⟨?_, ?_, ?_⟩
  · intro here inside
    refine ⟨rfl, ?_, parented.pairwise_ancestors here inside,
      parented.getLast?_ancestors here inside⟩
    simpa only [history.parent?_eq] using parented.isChain_ancestors here inside
  · intro here inside name
    have bound : tree.lookup here name = (tree.ancestors here).findSome? fun id =>
        (entered Operation.binding? past id name).getLast? := by
      simp only [lookup, history.find?_eq filled_bindings]
    have known : tree.findMixin here name = (tree.ancestors here).findSome? fun id =>
        (entered Operation.mixin? past id name).getLast? := by
      simp only [findMixin, history.find?_eq filled_mixins]
    rw [bound, known]
    exact ⟨findSome?_getLast?_eq_some_iff _ _, findSome?_getLast?_eq_none_iff _ _,
      findSome?_getLast?_eq_some_iff _ _, findSome?_getLast?_eq_none_iff _ _⟩
  · intro further later goesOn id name
    exact ⟨history.find?_isSome filled_bindings goesOn, history.find?_isSome filled_mixins goesOn⟩

/-- A name that is bound again in a rule, and bound globally from within a media body, means
the later value of the rule there and the global value outside. -/
theorem lookup_follows_history_of_shadowing :
    let bound (value : Text) (isGlobal : Bool) : Binding := ⟨"x".toList, value, isGlobal, .start⟩
    let past : List Operation := [.addRule root "a".toList, .addRule 1 "b".toList,
      .bind 1 (bound "c".toList false), .addDetached 2 "d".toList,
      .bind 3 (bound "e".toList true), .bind 1 (bound "f".toList false),
      .bind 2 ⟨"y".toList, "g".toList, false, .start⟩]
    ∃ tree, History past tree ∧ tree.ancestors 3 = [3, 2, 1, root] ∧
      tree.lookup 3 "x".toList = some (bound "f".toList false) ∧
      tree.lookup root "x".toList = some (bound "e".toList true) ∧
      tree.lookup 1 "y".toList = none := by
  intro bound past
  have history : History past (past.foldl (fun tree operation => operation.perform tree) empty) :=
    History.nil |>.concat (by decide) |>.concat (by decide) |>.concat (by decide)
      |>.concat (by decide) |>.concat (by decide) |>.concat (by decide) |>.concat (by decide)
  obtain ⟨_, found, _⟩ := lookup_follows_history history
  refine ⟨_, history, by decide, ?_, ?_, ?_⟩
  · exact ((found 3 (by decide) _).1 _).mpr ⟨[3, 2], 1, [root], [bound "c".toList false], by decide⟩
  · exact ((found root (by decide) _).1 _).mpr ⟨[], root, [], [], by decide⟩
  · exact (found 1 (by decide) _).2.1.mpr (by decide)

end NestedCss.RuleTree
