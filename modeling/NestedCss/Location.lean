import NestedCss.Text.Basic

set_option autoImplicit false

/-! Positions in a stylesheet. Lines and columns count from one, a column counts
characters, and only a line feed starts a new line. -/

namespace NestedCss

structure Location where
  line : Nat
  column : Nat
  deriving DecidableEq

namespace Location

def start : Location := ⟨1, 1⟩

def advance (here : Location) (member : Char) : Location :=
  if member = '\n' then ⟨here.line + 1, 1⟩ else ⟨here.line, here.column + 1⟩

def advanceOver (here : Location) (text : Text) : Location := text.foldl advance here

def path (here : Location) : Text → List Location
  | [] => [here]
  | member :: rest => here :: path (here.advance member) rest

def text (here : Location) : Text := Text.ofNat here.line ++ ':' :: Text.ofNat here.column

theorem advanceOver_append (here : Location) (first second : Text) :
    here.advanceOver (first ++ second) = (here.advanceOver first).advanceOver second := by
  simp [advanceOver]

end Location
end NestedCss
