import NestedCss.Proofs.Linkage

set_option autoImplicit false

/-! How long the chains of rules get. A body that is read into a new rule stands one rule
lower and has one level less left for it, so the length of the chain of a rule and the levels
that are left for its body never add up to more than in the beginning. -/

namespace NestedCss

open RuleTree

def RuleTree.Shallow (bound : Nat) (tree : RuleTree) : Prop :=
  ∀ id, id < tree.size → (tree.ancestors id).length ≤ bound

/-- A call with fewer levels left than its rule has room below it. -/
structure Call.Shallow (bound : Nat) (call : Call) : Prop where
  ordered : call.tree.Ordered
  inside : call.site.rule < call.tree.size
  others : ∀ id, id < call.tree.size → id ≠ call.site.rule →
    (call.tree.ancestors id).length ≤ bound
  levels : (call.tree.ancestors call.site.rule).length + call.levels ≤ bound + 1

private theorem Node.Effects.size_eq {site : Site} {tree after : RuleTree} {node : Node}
    (effect : node.Effects site tree after) : after.size = tree.size := by
  cases effect with
  | binding declared => exact size_modify ..
  | property declared value => exact size_addChild ..
  | comment text => exact size_addChild ..
  | mixin defined => exact size_modify ..
  | dropped missing => rfl

private theorem Call.shallow_of_new {bound levels : Nat} {here : RuleId} {tree made : RuleTree}
    {active : List Text} {body : Body} (ordered : tree.Ordered) (shallow : tree.Shallow bound)
    (room : (tree.ancestors here).length + levels ≤ bound) (inside : here < tree.size)
    {selector : Text} {children : List Child} {media : List MediaEntry}
    (new : Made here selector children media tree made) :
    (Call.mk levels ⟨tree.size, active⟩ body made).Shallow bound where
  ordered := new.grown.ordered
  inside := new.size_lt
  others := by
    intro id within other
    have older : id < tree.size :=
      Nat.lt_of_le_of_ne (Nat.le_of_lt_succ (Nat.lt_of_lt_of_eq within new.size_eq)) other
    rw [new.grown.ancestors_below ordered id older]
    exact shallow id older
  levels := by
    rw [new.ancestors_eq ordered inside, List.length_cons, Nat.add_right_comm]
    exact Nat.succ_le_succ room

private theorem Node.shallow_of_call? {bound levels : Nat} {site : Site} {tree : RuleTree}
    {node : Node} {call : Call} (ordered : tree.Ordered) (inside : site.rule < tree.size)
    (shallow : tree.Shallow bound)
    (room : (tree.ancestors site.rule).length + levels ≤ bound)
    (calls : node.call? levels site tree = some call) : call.Shallow bound := by
  cases Node.calls_of_call? calls with
  | rule selector body =>
      exact Call.shallow_of_new ordered shallow room inside (made_addRule ordered inside selector)
  | media block =>
      exact Call.shallow_of_new ordered shallow room inside (made_addMedia ordered inside block)
  | inclusion found fresh =>
      exact ⟨ordered, inside, fun id within _ => shallow id within, Nat.le_succ_of_le room⟩

private theorem Call.Shallow.run {options : CompileOptions} {bound : Nat} (levels : Nat) :
    ∀ (call : Call) {after : RuleTree}, call.levels = levels → call.Shallow bound →
      (call.run options).outcome = .ok after → after.Shallow bound := by
  induction levels with
  | zero =>
      rintro ⟨_, site, body, tree⟩ after level _ ended
      subst level
      cases ended
  | succ levels ih =>
      rintro ⟨_, site, body, tree⟩ after level call ended
      subst level
      obtain ⟨ordered, inside, others, room⟩ := call
      have room : (tree.ancestors site.rule).length + levels ≤ bound := Nat.le_of_succ_le_succ room
      have shallow : tree.Shallow bound := by
        intro id within
        by_cases own : id = site.rule
        · rw [own]
          exact Nat.le_of_add_right_le room
        · exact others id within own
      obtain ⟨_, folded⟩ := Traced.outcome_foldNodes_eq_ok.mp ended
      refine (Traced.foldl_keeps
        (fun later => Grows site.rule tree later ∧ later.Shallow bound) _ ?_
        ⟨.refl ordered site.rule, shallow⟩ folded).2
      rintro node _ middle next ⟨grown, between⟩ stepped
      have within := Nat.lt_of_lt_of_le inside grown.size_le
      have further := applyNode_grows (readBody_grows options levels) grown.ordered within stepped
      refine ⟨grown.trans further, ?_⟩
      rcases applyNode_ok_cases stepped with effect | ⟨inner, calls, ran⟩
      · intro id present
        rw [effect.size_eq] at present
        rw [further.ancestors_below grown.ordered id present]
        exact between id present
      · refine ih inner (Node.levels_of_call? calls)
          (Node.shallow_of_call? grown.ordered within between ?_ calls) ran
        rw [grown.ancestors_below ordered _ inside]
        exact room

theorem shallow_ofSource {options : CompileOptions} {source : Text} {tree : RuleTree}
    (ended : (RuleTree.ofSource options source).outcome = .ok tree) :
    tree.Shallow (nestingLimit + 1) := by
  refine Call.Shallow.run (nestingLimit + 1) (.ofSource source) rfl ?_ ended
  refine ⟨ordered_empty, ordered_empty.root_lt, fun id within other => ?_, ?_⟩
  · exact absurd (Nat.lt_one_iff.mp within) other
  · exact Nat.le_of_eq (by rw [Call.ofSource, ancestors_of_outermost ordered_empty.root_parent]; rfl)

namespace RuleTree

variable {tree : RuleTree} {bound : Nat}

theorem Shallow.length_path_le (shallow : tree.Shallow bound) (ordered : tree.Ordered)
    (linked : tree.Linked) {id : RuleId} {ids : List RuleId} (path : tree.Path root id ids) :
    ids.length ≤ bound := by
  have backwards := path.ancestors_eq ordered linked
  rw [ancestors_of_outermost ordered.root_parent, List.tail_cons, List.append_nil] at backwards
  have short := shallow id (path.last_lt ordered ordered.root_lt)
  rwa [backwards, List.length_reverse] at short

private theorem sheetWithin_of_paths (tree : RuleTree) (levels : Nat) :
    ∀ here, (∀ last ids, tree.Path here last ids → ids.length ≤ levels) →
      ∀ more, levels ≤ more → tree.sheetWithin more here = tree.sheetWithin levels here := by
  induction levels with
  | zero => exact fun here short => absurd (short here [here] (.here here)) (Nat.not_succ_le_zero 0)
  | succ levels ih =>
      intro here short more enough
      obtain ⟨outer, rfl⟩ := Nat.exists_eq_add_one_of_ne_zero (Nat.ne_zero_of_lt enough)
      refine sheetWithin_congr fun link present => ?_
      refine ih link (fun last ids path => ?_) outer (Nat.le_of_succ_le_succ enough)
      exact Nat.le_of_succ_le_succ (short last (here :: ids) (.step present path))

theorem Shallow.sheetWithin_eq (shallow : tree.Shallow bound) (ordered : tree.Ordered)
    (linked : tree.Linked) : tree.sheetWithin bound root = tree.sheet := by
  rcases Nat.le_total bound tree.size with few | many
  · exact (tree.sheetWithin_of_paths bound root
      (fun _ _ path => shallow.length_path_le ordered linked path) tree.size few).symm
  · exact ordered.sheetWithin_eq bound root ordered.root_lt many

end RuleTree
end NestedCss
