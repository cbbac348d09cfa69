import NestedCss.MediaQuery
import NestedCss.Segment

set_option autoImplicit false

/-! Nodes: segments read as the constructs of the language. The leading text of
a statement or of a header decides; bodies stay unread. -/

namespace NestedCss

/-- A declared variable. A global one belongs to the outermost rule. -/
structure Binding where
  key : Text
  value : Text
  isGlobal : Bool
  location : Location
  deriving DecidableEq

structure Property where
  key : Text
  value : Text
  location : Location
  deriving DecidableEq

/-- A named body, read anew at every place that includes it. -/
structure Mixin where
  name : Text
  body : Body
  deriving DecidableEq

structure Inclusion where
  name : Text
  location : Location
  deriving DecidableEq

structure MediaBlock where
  query : MediaQuery
  body : Body
  deriving DecidableEq

inductive Node where
  | binding (binding : Binding)
  | property (property : Property)
  | comment (text : Text)
  | mixin (mixin : Mixin)
  | media (block : MediaBlock)
  | inclusion (inclusion : Inclusion)
  | rule (selector : Text) (body : Body)
  deriving DecidableEq

/-- Cut a declaration at its first colon into a trimmed key and a trimmed value.
Without a colon the value is empty. -/
def splitDeclaration (text : Text) : Text × Text :=
  let (key, value) := text.cutAt ':'
  (key.trim, value.trim)

/-- The text without its parameter lists, each of which runs from an opening
parenthesis to the first closing one; `inside` says that a list is being left
out. An opening parenthesis that nothing closes stays. -/
def dropParametersFrom : Bool → Text → Text
  | _, [] => []
  | true, member :: rest => dropParametersFrom (member != ')') rest
  | false, member :: rest =>
      if member = '(' ∧ ')' ∈ rest then dropParametersFrom true rest
      else member :: dropParametersFrom false rest

/-- The name that follows a directive. Parameter lists are accepted and never
bound. -/
def directiveName (text : Text) : Text := (dropParametersFrom false text).trim

namespace Binding

def globalMark : Text := "!global".toList

def ofStatement (text : Text) (location : Location) : Binding :=
  let (key, value) := splitDeclaration text
  let name := (Text.afterLead? ['$'] key).getD key
  match Text.beforeTail? globalMark value with
  | some kept => ⟨name.trim, kept.trim, true, location⟩
  | none => ⟨name.trim, value, false, location⟩

end Binding

def Property.ofStatement (text : Text) (location : Location) : Property :=
  let (key, value) := splitDeclaration text
  ⟨key, value, location⟩

namespace Node

def includeMark : Text := "@include".toList

def mixinMark : Text := "@mixin".toList

def mediaMark : Text := "@media".toList

def ofStatement (text : Text) (location : Location) : Node :=
  match Text.afterLead? includeMark text with
  | some rest => .inclusion ⟨directiveName rest, location⟩
  | none =>
      if text.head? = some '$' then .binding (.ofStatement text location)
      else .property (.ofStatement text location)

def ofBlock (header : Text) (body : Body) : Node :=
  match Text.afterLead? mixinMark header with
  | some rest => .mixin ⟨directiveName rest, body⟩
  | none =>
      match Text.afterLead? mediaMark header with
      | some query => .media ⟨.ofText query, body⟩
      | none => .rule header body

def ofSegment : Segment → Node
  | .statement text location => ofStatement text location
  | .block header _ body => ofBlock header body
  | .comment text _ => .comment text

end Node
end NestedCss
