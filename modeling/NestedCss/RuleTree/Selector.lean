import NestedCss.RuleTree.Scope

set_option autoImplicit false

/-! Selectors of nested rules, spelled out from the outermost rule inwards. -/

namespace NestedCss

/-- The mark that stands for the selector of the enclosing rule. -/
def parentMark : Char := '&'

/-- The selector of a rule inside a rule whose selector is `parent`. Without the
mark the rule selects descendants of its parent. -/
def joinSelector (parent selector : Text) : Text :=
  if parentMark ∈ selector then Text.trim (Text.replaceChar parentMark parent selector)
  else Text.trim (parent ++ ' ' :: selector)

/-- The selector of a rule in full. The outermost rule selects nothing. -/
def RuleTree.selector (tree : RuleTree) (here : RuleId) : Text :=
  ((tree.ancestors here).map tree.rule).foldr
    (fun rule parent => if rule.isRoot then parent else joinSelector parent rule.selector) []

end NestedCss
