import NestedCss.Elaboration
import NestedCss.RuleTree.Flatten

set_option autoImplicit false

/-! Compilation of a stylesheet to flat style sheet text. -/

namespace NestedCss

def RuleTree.text (tree : RuleTree) : Text := Sheet.text tree.sheet

def compileSource (options : CompileOptions) (source : Text) : Traced Text :=
  (RuleTree.ofSource options source).map RuleTree.text

/-- The element that carries compiled text in a document. Empty text needs no
element. -/
def styleElement (text : Text) : Text :=
  if text.isEmpty then [] else "<style>".toList ++ text ++ "</style>".toList

end NestedCss
