import NestedCss.RuleTree.Selector
import NestedCss.Sheet

set_option autoImplicit false

/-! The flat sheet of a rule tree. Each rule contributes a block of its own,
then the blocks of the rules nested in it, then its media blocks. -/

namespace NestedCss

/-- Values that say that a declaration is not wanted. -/
def omittedValues : List Text := ["null".toList, "undefined".toList]

def Property.written? (property : Property) : Option Text :=
  let value := property.value.trim
  if value.isEmpty || omittedValues.contains value then none else some value

def Child.line? : Child → Option Line
  | .property declared => declared.written?.map (.declaration declared.key)
  | .comment text => if Text.allBlank text then none else some (.comment text)
  | .rule _ => none

def Child.rule? : Child → Option RuleId
  | .rule id => some id
  | .property _ | .comment _ => none

def Rule.lines (rule : Rule) : List Line := rule.children.filterMap Child.line?

def Rule.nested (rule : Rule) : List RuleId := rule.children.filterMap Child.rule?

/-- A block, unless nothing would be selected or nothing said. -/
def Sheet.block (selector : Text) (lines : List Line) : Sheet :=
  if selector.isEmpty || lines.isEmpty then [] else [.block selector lines]

def Sheet.media (query : MediaQuery) (items : Sheet) : Sheet :=
  if items.isEmpty then [] else [.media query items]

namespace RuleTree

/-- The sheet of a rule and of all that is below it, down to `levels` levels. -/
def sheetWithin (tree : RuleTree) : Nat → RuleId → Sheet
  | 0, _ => []
  | levels + 1, here =>
      let rule := tree.rule here
      Sheet.block (tree.selector here) rule.lines ++
        rule.nested.flatMap (tree.sheetWithin levels) ++
        rule.media.flatMap fun entry =>
          Sheet.media entry.block.query (tree.sheetWithin levels entry.expansion)

/-- The flat sheet of the whole tree. No path through the tree is longer than
the tree has rules. -/
def sheet (tree : RuleTree) : Sheet := tree.sheetWithin tree.size root

end RuleTree
end NestedCss
