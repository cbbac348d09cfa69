import NestedCss.Traced

set_option autoImplicit false

/-! Notices: what the library reports about its work beside its results. -/

namespace NestedCss

inductive Level where
  | warning
  | detail
  deriving DecidableEq

def Level.label : Level → Text
  | .warning => "WARN".toList
  | .detail => "DEBUG".toList

inductive Notice where
  | dropped (inclusion : Inclusion)
  | registered (name : Text) (variants : Nat)
  | compiling (count : Nat)
  deriving DecidableEq

namespace Notice

def level : Notice → Level
  | .dropped _ => .warning
  | .registered _ _ | .compiling _ => .detail

def message : Notice → Text
  | .dropped inclusion =>
      "Dropping @include of undefined mixin '".toList ++ inclusion.name ++ "' at ".toList ++
        inclusion.location.text
  | .registered name variants =>
      "Registered keyframes ".toList ++ name ++ " (".toList ++ Text.ofNat variants ++
        " variants)".toList
  | .compiling count => "Compiling ".toList ++ Text.ofNat count ++ " stylesheets".toList

def text (notice : Notice) : Text :=
  notice.level.label ++ " [CssNative] ".toList ++ notice.message

end Notice

def Traced.notices {α : Type} (computed : Traced α) : List Notice :=
  computed.dropped.map .dropped

end NestedCss
