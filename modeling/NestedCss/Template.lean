import NestedCss.Compile
import NestedCss.Host.Value
import NestedCss.Keyframes.Registry

set_option autoImplicit false

/-! Templates: literal fragments with host values between them, as a tagged
template hands them over. A template is joined to one text before anything else
looks at it. -/

namespace NestedCss

structure Template where
  fragments : List Text
  values : List Value

/-- A joined template, and the text of each of its values. -/
structure Interpolated where
  source : Text
  texts : List Text
  deriving DecidableEq

def interleave : List Text → List Text → Text
  | [], _ => []
  | fragment :: rest, [] => fragment ++ interleave rest []
  | fragment :: rest, text :: others => fragment ++ text ++ interleave rest others

namespace Template

def ofText (text : Text) : Template := ⟨[text], []⟩

def texts (template : Template) : List Text := template.values.map Value.contribution

def interpolate (template : Template) : Except Error Interpolated :=
  if template.fragments.length = template.values.length + 1 then
    .ok ⟨interleave template.fragments template.texts, template.texts⟩
  else
    .error ⟨.fragmentArity template.fragments.length template.values.length, .start⟩

/-- Compile a template. The animations that its values mention are appended. -/
def compile (options : CompileOptions) (registry : Keyframes.Registry) (template : Template) :
    Traced Text :=
  (Traced.ofExcept template.interpolate).andThen fun joined =>
    (compileSource options joined.source).map (· ++ registry.referenced joined.texts)

def register? (digest : Keyframes.Digest) (prefixes : List Text) (template : Template)
    (registry : Keyframes.Registry) : Except Error (Option Keyframes.Registered) :=
  template.interpolate.map fun joined => registry.register? digest prefixes joined.source

end Template

structure Batch where
  notices : List Notice
  outcomes : List (Except Error Text)

namespace Batch

/-- The notices that the members of a batch leave in its log. A single member is
compiled in place and reports as usual. Several are compiled independently of
each other, so that their reports have no order and are left out. -/
def memberNotices : List (Traced Text) → List Notice
  | [only] => only.notices
  | [] | _ :: _ :: _ => []

/-- Compile templates together. A failure of one of them leaves the others
alone. -/
def compile (options : CompileOptions) (registry : Keyframes.Registry)
    (templates : List Template) : Batch :=
  let members := templates.map (Template.compile options registry)
  { notices := .compiling templates.length :: memberNotices members
    outcomes := members.map Traced.outcome }

end Batch
end NestedCss
