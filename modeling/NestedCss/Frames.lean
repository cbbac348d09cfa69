import NestedCss.RuleTree.Scope

set_option autoImplicit false

/-! Lexical scopes as a stack of frames. Each body that is being read has a frame
with the names declared in it, and a frame is gone for good when its body ends.
The stack stands for the chain of rules that a rule tree would look names up in. -/

namespace NestedCss

structure Frame where
  bindings : Table Binding
  mixins : Table Mixin

def Frame.empty : Frame := ⟨.empty, .empty⟩

abbrev Frames := List Frame

namespace Frames

def modifyInner (change : Frame → Frame) : Frames → Frames
  | [] => []
  | inner :: rest => change inner :: rest

def modifyOuter (change : Frame → Frame) : Frames → Frames
  | [] => []
  | [outer] => [change outer]
  | inner :: second :: rest => inner :: modifyOuter change (second :: rest)

/-- Bind a variable in the innermost body, or in the outermost if it is global. -/
def bind (frames : Frames) (binding : Binding) : Frames :=
  let change (frame : Frame) : Frame :=
    { frame with bindings := frame.bindings.insert binding.key binding }
  if binding.isGlobal then modifyOuter change frames else modifyInner change frames

def defineMixin (frames : Frames) (mixin : Mixin) : Frames :=
  modifyInner (fun frame => { frame with mixins := frame.mixins.insert mixin.name mixin }) frames

def lookup (frames : Frames) (name : Text) : Option Binding :=
  frames.findSome? fun frame => frame.bindings.find? name

def findMixin (frames : Frames) (name : Text) : Option Mixin :=
  frames.findSome? fun frame => frame.mixins.find? name

def substitute (frames : Frames) (value : Text) (location : Location) : Except Error Text :=
  match Reference.ofValue? value.trim with
  | some reference =>
      match frames.lookup reference.name with
      | some binding => .ok (binding.value ++ reference.rest)
      | none => .error ⟨.unresolvedVariable reference.name, location⟩
  | none => .ok value.trim

theorem modifyOuter_cons (change : Frame → Frame) (inner : Frame) {rest : Frames}
    (outside : rest ≠ []) :
    modifyOuter change (inner :: rest) = inner :: modifyOuter change rest := by
  cases rest with
  | nil => exact absurd rfl outside
  | cons second others => rfl

end Frames
end NestedCss
