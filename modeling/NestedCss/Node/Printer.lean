import NestedCss.Node

set_option autoImplicit false

/-! The canonical text of nodes. Locations are not part of it: they are where a
reader of the text finds its pieces again. -/

namespace NestedCss

def Binding.text (binding : Binding) : Text :=
  '$' :: binding.key ++ ':' :: binding.value ++
    (if binding.isGlobal then ' ' :: globalMark else []) ++ [';']

def Property.text (property : Property) : Text := property.key ++ ':' :: property.value ++ [';']

def Body.textAfter (header : Text) (body : Body) : Text := header ++ '{' :: body.text ++ ['}']

def Node.text : Node → Text
  | .binding declared => declared.text
  | .property declared => declared.text
  | .comment text => "/*".toList ++ text ++ "*/".toList
  | .mixin defined => defined.body.textAfter (mixinMark ++ ' ' :: defined.name)
  | .media block => block.body.textAfter block.query.preamble
  | .inclusion request => includeMark ++ ' ' :: request.name ++ [';']
  | .rule selector body => body.textAfter selector

/-- The canonical text of nodes in order, without any layout. -/
def Node.listText (nodes : List Node) : Text := nodes.flatMap Node.text

end NestedCss
