import NestedCss.Keyframes.Compact
import NestedCss.Notice
import NestedCss.Sha256

set_option autoImplicit false

/-! Registered animations. An animation is stored once, under a name made up for
it, and style sheets that mention the name get the stored text appended. Names
are digests of a running number and the body, so that equal bodies get different
names; a name that is taken already is passed over. Entries are only ever added. -/

namespace NestedCss.Keyframes

/-- A function from messages to digits, at least as many as a name needs. -/
abbrev Digest := List UInt8 → Text

structure Entry where
  name : Text
  css : Text
  deriving DecidableEq

/-- The animations in the order of their registration, and the running number
of the next candidate for a name. -/
structure Registry where
  sequence : UInt64
  entries : List Entry
  deriving DecidableEq

def vendorPrefixes : List Text :=
  ["-webkit-".toList, "-moz-".toList, "-o-".toList, "-ms-".toList, []]

def nameDigits : Nat := 16

def littleEndian (value : UInt64) : List UInt8 :=
  (List.range 8).map fun place => (value.toNat / Nat.pow 256 place).toUInt8

def candidate (digest : Digest) (sequence : UInt64) (body : Text) : Text :=
  '_' :: (digest (littleEndian sequence ++ body.flatMap String.utf8EncodeChar)).take nameDigits

/-- The first candidate that is not taken, and the running number after it, over
at most `steps` candidates. -/
def freshName? (digest : Digest) (taken : List Text) (body : Text) :
    Nat → UInt64 → Option (Text × UInt64)
  | 0, _ => none
  | steps + 1, sequence =>
      let name := candidate digest sequence body
      if name ∈ taken then freshName? digest taken body steps (sequence + 1)
      else some (name, sequence + 1)

def variants (prefixes : List Text) (name body : Text) : Text :=
  prefixes.flatMap fun vendor =>
    '@' :: vendor ++ "keyframes ".toList ++ name ++ '{' :: body ++ ['}']

structure Registered where
  name : Text
  registry : Registry
  notice : Notice

namespace Registry

def empty : Registry := ⟨0, []⟩

def names (registry : Registry) : List Text := registry.entries.map Entry.name

/-- Register the body of an animation. There are `2 ^ 64` running numbers, and
registration fails only if the candidates of all of them are taken. -/
def register? (digest : Digest) (prefixes : List Text) (body : Text) (registry : Registry) :
    Option Registered :=
  let body := compact body
  (freshName? digest registry.names body (Nat.pow 2 64) registry.sequence).map fun (name, following) =>
    { name
      registry := ⟨following, registry.entries ++ [⟨name, variants prefixes name body⟩]⟩
      notice := .registered name prefixes.length }

def get? (registry : Registry) (name : Text) : Option Text :=
  (registry.entries.find? fun entry => entry.name == name).map Entry.css

def size (registry : Registry) : Nat := registry.entries.length

/-- The stored texts of all animations whose names stand somewhere in one of the
texts, in the order of their registration. -/
def referenced (registry : Registry) (texts : List Text) : Text :=
  (registry.entries.filter fun entry => texts.any (Text.occursIn entry.name)).flatMap Entry.css

end Registry
end NestedCss.Keyframes
