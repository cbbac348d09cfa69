import NestedCss.RuleTree.Scope
import NestedCss.Traced

set_option autoImplicit false

/-! Reading a stylesheet into a rule tree. Nodes are taken in source order and
each takes effect at once: a name is visible to the nodes after its declaration
only, and the value of a property is fixed when the property is read. The body
of a mixin is read at each place that includes it, as if it stood there, and the
body of a media block is read into a rule of its own that stands for the
declaring rule. -/

namespace NestedCss

structure CompileOptions where
  /-- Whether including an unknown mixin is a failure; otherwise the inclusion
  is dropped. -/
  strictIncludes : Bool := false
  deriving DecidableEq

/-- The rule that a body is read into, and the names of the mixin bodies that
are being expanded around it, outermost first. -/
structure Site where
  rule : RuleId
  active : List Text
  deriving DecidableEq

/-- The number of bodies that may stand inside one another below the outermost
level. -/
def nestingLimit : Nat := 64

def expansionSelector : Text := [ '&' ]

abbrev BodyReader := Site → Body → RuleTree → Traced RuleTree

/-- Include a mixin. A missing definition is settled first, then recursion, and
then the nesting of the body. -/
def expandInclusion (options : CompileOptions) (nested : BodyReader) (site : Site)
    (inclusion : Inclusion) (tree : RuleTree) : Traced RuleTree :=
  match tree.findMixin site.rule inclusion.name with
  | none =>
      if options.strictIncludes then .failed ⟨.unresolvedMixin inclusion.name, inclusion.location⟩
      else .dropping inclusion tree
  | some mixin =>
      let active := site.active ++ [inclusion.name]
      if inclusion.name ∈ site.active then
        .failed ⟨.recursiveMixin inclusion.name active, inclusion.location⟩
      else nested ⟨site.rule, active⟩ mixin.body tree

def applyNode (options : CompileOptions) (nested : BodyReader) (site : Site) (tree : RuleTree) :
    Node → Traced RuleTree
  | .binding binding => .done (tree.bind site.rule binding)
  | .property property =>
      (Traced.ofExcept (tree.substitute site.rule property.value property.location)).map
        fun value => tree.addChild site.rule (.property { property with value })
  | .comment text => .done (tree.addChild site.rule (.comment text))
  | .mixin mixin => .done (tree.defineMixin site.rule mixin)
  | .media block =>
      let expanded := (tree.addDetached site.rule expansionSelector).attachMedia site.rule block
        tree.size
      nested { site with rule := tree.size } block.body expanded
  | .inclusion inclusion => expandInclusion options nested site inclusion tree
  | .rule selector body =>
      nested { site with rule := tree.size } body (tree.addRule site.rule selector)

def applySegmentation (options : CompileOptions) (nested : BodyReader) (site : Site)
    (whole : Segmentation) (tree : RuleTree) : Traced RuleTree :=
  .foldNodes (applyNode options nested site) tree whole

/-- Read a body when `levels` levels of nesting are left, the body's own
included. -/
def readBody (options : CompileOptions) : Nat → BodyReader
  | 0 => fun _ body _ => .failed ⟨.nestingTooDeep nestingLimit, body.origin⟩
  | levels + 1 => fun site body tree =>
      applySegmentation options (readBody options levels) site body.segmentation tree

/-- The rule tree of a stylesheet. The outermost level is not a nested body, so
it has one level more than the limit. -/
def RuleTree.ofSource (options : CompileOptions) (source : Text) : Traced RuleTree :=
  readBody options (nestingLimit + 1) ⟨root, []⟩ (.ofSource source) empty

end NestedCss
