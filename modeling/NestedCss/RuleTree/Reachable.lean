import NestedCss.RuleTree.Flatten

set_option autoImplicit false

/-! The rules that can be reached from the outermost one by way of nested rules
and media expansions, which are the rules that writing the sheet passes. Detached
rules that no media block refers to are not among them. -/

namespace NestedCss

def Rule.links (rule : Rule) : List RuleId := rule.nested ++ rule.media.map MediaEntry.expansion

namespace RuleTree

/-- The rules that are passed when a rule and all that is below it are written. -/
def passed (tree : RuleTree) : Nat → RuleId → List RuleId
  | 0, _ => []
  | levels + 1, here => here :: (tree.rule here).links.flatMap (tree.passed levels)

/-- The rules that are passed when the whole sheet is written, in the order in which they
were made. -/
def reachable (tree : RuleTree) : List RuleId :=
  let within := tree.passed tree.size root
  (List.range tree.size).filter (· ∈ within)

end RuleTree
end NestedCss
