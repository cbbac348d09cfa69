import NestedCss.RuleTree.Basic
import NestedCss.Text.Alphanumeric

set_option autoImplicit false

/-! Names and the scopes that they are looked up in. A name means what the
nearest enclosing rule says that declares it. -/

namespace NestedCss

/-- A value that begins with a variable, and the text after its name. -/
structure Reference where
  name : Text
  rest : Text
  deriving DecidableEq

def isNameMember (member : Char) : Bool :=
  isAlphanumeric member || member == '-' || member == '_'

/-- The reference at the start of a value. The name may be empty. -/
def Reference.ofValue? : Text → Option Reference
  | '$' :: rest => some ⟨rest.takeWhile isNameMember, rest.dropWhile isNameMember⟩
  | _ => none

theorem Reference.ofValue?_eq_none_iff (value : Text) :
    Reference.ofValue? value = none ↔ value.head? ≠ some '$' := by
  cases value with
  | nil => exact iff_of_true rfl (by simp)
  | cons first rest =>
      unfold Reference.ofValue?
      split
      · rename_i same
        injection same with same
        exact iff_of_false (by simp) (by simp [same])
      · rename_i other
        refine iff_of_true rfl fun begins => ?_
        injection begins with same
        exact other rest (same ▸ rfl)

namespace RuleTree

def chain (tree : RuleTree) : Nat → RuleId → List RuleId
  | 0, _ => []
  | steps + 1, here =>
      here :: match (tree.rule here).parent? with
        | some parent => tree.chain steps parent
        | none => []

/-- A rule, its parent, and so on up to the outermost rule. Parents are older
than their children, so the number of a rule bounds the length of the chain. -/
def ancestors (tree : RuleTree) (here : RuleId) : List RuleId := tree.chain (here + 1) here

def lookup (tree : RuleTree) (here : RuleId) (name : Text) : Option Binding :=
  (tree.ancestors here).findSome? fun id => (tree.rule id).bindings.find? name

def findMixin (tree : RuleTree) (here : RuleId) (name : Text) : Option Mixin :=
  (tree.ancestors here).findSome? fun id => (tree.rule id).mixins.find? name

def resolve (tree : RuleTree) (here : RuleId) (name : Text) (location : Location) :
    Except Error Binding :=
  match tree.lookup here name with
  | some binding => .ok binding
  | none => .error ⟨.unresolvedVariable name, location⟩

/-- The value that is meant by the text of a value: a leading variable gives way
to the value bound to it, which is not read any further. -/
def substitute (tree : RuleTree) (here : RuleId) (value : Text) (location : Location) :
    Except Error Text :=
  match Reference.ofValue? value.trim with
  | some reference =>
      (tree.resolve here reference.name location).map fun binding => binding.value ++ reference.rest
  | none => .ok value.trim

end RuleTree
end NestedCss
