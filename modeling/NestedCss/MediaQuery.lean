import NestedCss.Text.Blank

set_option autoImplicit false

/-! The condition of a media block in its normal form. A query that is one
parenthesised group is kept without its parentheses and without any blank; every
other query keeps its words, with single spaces between them. -/

namespace NestedCss

/-- A normalised condition. A grouped one is written in parentheses. -/
structure MediaQuery where
  condition : Text
  grouped : Bool
  deriving DecidableEq

namespace MediaQuery

/-- Whether the last character of the text closes the parenthesis that was
opened before the text, with `depth` further ones open. -/
def closesAtEnd : Nat → Text → Bool
  | _, [] => false
  | depth, '(' :: rest => closesAtEnd (depth + 1) rest
  | 0, ')' :: rest => rest.isEmpty
  | depth + 1, ')' :: rest => closesAtEnd depth rest
  | depth, _ :: rest => closesAtEnd depth rest

def group? : Text → Option Text
  | '(' :: rest => if closesAtEnd 0 rest then some rest.dropLast else none
  | _ => none

def ofText (query : Text) : MediaQuery :=
  match group? query.trim with
  | some inner => ⟨inner.dropBlanks, true⟩
  | none => ⟨Text.squeeze (fun _ => false) query, false⟩

def preamble (query : MediaQuery) : Text :=
  if query.grouped then "@media(".toList ++ query.condition ++ [')']
  else "@media ".toList ++ query.condition

end MediaQuery
end NestedCss
