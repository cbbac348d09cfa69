import NestedCss.Host.Binary64

set_option autoImplicit false

/-! Values of the host that a template is filled with, and the text that each of
them contributes. -/

namespace NestedCss

inductive Number where
  | integer (value : Int)
  | double (value : Binary64)
  deriving DecidableEq

/-- A value of the host. The fields of an object never reach a stylesheet. -/
inductive Value where
  | null
  | bool (value : Bool)
  | number (value : Number)
  | text (value : Text)
  | array (items : List Value)
  | object
  deriving Inhabited

namespace Number

def isZero : Number → Bool
  | .integer value => value == 0
  | .double value => value.isZero

def integralBound : Nat := Nat.pow 10 21

/-- The text of the magnitude of a double: the exact integer if it is one below
the bound, and otherwise the fewest digits that read back. -/
def magnitudeText (value : Binary64) : Text :=
  match value.integer? with
  | some whole => if whole < integralBound then Text.ofNat whole else value.shortest.positional
  | none => value.shortest.positional

def text : Number → Text
  | .integer value => Text.ofInt value
  | .double value => (if value.negative then ['-'] else []) ++ magnitudeText value

end Number

namespace Value

def isFalsy : Value → Bool
  | .null => true
  | .bool value => !value
  | .number value => value.isZero
  | .text value => value.isEmpty
  | .array _ | .object => false

mutual

/-- The text of a value as a member of an array, or of any value that is not
falsy. -/
def display : Value → Text
  | .null => "null".toList
  | .bool value => if value then "true".toList else "false".toList
  | .number value => value.text
  | .text value => value
  | .array items => Text.joinWith [','] (displayItems items)
  | .object => "[object Object]".toList

/-- The texts of the members of an array, where null leaves its place empty. -/
def displayItems : List Value → List Text
  | [] => []
  | .null :: rest => [] :: displayItems rest
  | item :: rest => item.display :: displayItems rest

end

def contribution (value : Value) : Text := if value.isFalsy then [] else value.display

end Value
end NestedCss
