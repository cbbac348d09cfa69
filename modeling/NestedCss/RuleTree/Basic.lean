import NestedCss.Node
import NestedCss.Table

set_option autoImplicit false

/-! The tree of rules that a stylesheet describes. Rules are numbered in the
order of their creation and a rule knows its parent, so that names can be looked
up outwards. Declarations, comments and nested rules keep their order within a
rule; variables, mixins and media blocks are kept beside them. -/

namespace NestedCss

abbrev RuleId := Nat

inductive Child where
  | property (property : Property)
  | comment (text : Text)
  | rule (id : RuleId)
  deriving DecidableEq

/-- A media block of a rule, and the rule that its body was read into. -/
structure MediaEntry where
  block : MediaBlock
  expansion : RuleId
  deriving DecidableEq

structure Rule where
  selector : Text
  parent? : Option RuleId
  children : List Child
  bindings : Table Binding
  mixins : Table Mixin
  media : List MediaEntry

def Rule.fresh (selector : Text) (parent? : Option RuleId) : Rule :=
  ⟨selector, parent?, [], .empty, .empty, []⟩

def Rule.isRoot (rule : Rule) : Bool := rule.parent?.isNone

structure RuleTree where
  rules : List Rule

namespace RuleTree

def root : RuleId := 0

def empty : RuleTree := ⟨[.fresh [] none]⟩

def size (tree : RuleTree) : Nat := tree.rules.length

/-- The rule of a number. Numbers beyond the tree stand for an empty rule. -/
def rule (tree : RuleTree) (id : RuleId) : Rule := (tree.rules[id]?).getD (.fresh [] none)

def modify (tree : RuleTree) (id : RuleId) (change : Rule → Rule) : RuleTree :=
  ⟨tree.rules.modify id change⟩

def addChild (tree : RuleTree) (here : RuleId) (child : Child) : RuleTree :=
  tree.modify here fun rule => { rule with children := rule.children ++ [child] }

/-- Create a rule that looks names up through `parent` without being one of its
children. Its number is the size of the tree before. -/
def addDetached (tree : RuleTree) (parent : RuleId) (selector : Text) : RuleTree :=
  ⟨tree.rules ++ [.fresh selector (some parent)]⟩

def addRule (tree : RuleTree) (parent : RuleId) (selector : Text) : RuleTree :=
  (tree.addDetached parent selector).addChild parent (.rule tree.size)

def bind (tree : RuleTree) (here : RuleId) (binding : Binding) : RuleTree :=
  tree.modify (if binding.isGlobal then root else here) fun rule =>
    { rule with bindings := rule.bindings.insert binding.key binding }

def defineMixin (tree : RuleTree) (here : RuleId) (mixin : Mixin) : RuleTree :=
  tree.modify here fun rule => { rule with mixins := rule.mixins.insert mixin.name mixin }

def attachMedia (tree : RuleTree) (here : RuleId) (block : MediaBlock) (expansion : RuleId) :
    RuleTree :=
  tree.modify here fun rule => { rule with media := rule.media ++ [⟨block, expansion⟩] }

@[simp] theorem size_empty : empty.size = 1 := rfl

@[simp] theorem size_modify (tree : RuleTree) (id : RuleId) (change : Rule → Rule) :
    (tree.modify id change).size = tree.size := by
  simp [modify, size]

@[simp] theorem size_addChild (tree : RuleTree) (here : RuleId) (child : Child) :
    (tree.addChild here child).size = tree.size := size_modify tree here _

@[simp] theorem size_addDetached (tree : RuleTree) (parent : RuleId) (selector : Text) :
    (tree.addDetached parent selector).size = tree.size + 1 := by
  simp [addDetached, size]

@[simp] theorem size_addRule (tree : RuleTree) (parent : RuleId) (selector : Text) :
    (tree.addRule parent selector).size = tree.size + 1 := by
  simp [addRule]

end RuleTree
end NestedCss
