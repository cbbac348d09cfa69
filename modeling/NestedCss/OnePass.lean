import NestedCss.Compile
import NestedCss.Frames

set_option autoImplicit false

/-! Compilation in one pass, without a rule tree. A body is read with a stack of
frames and returns what it contributes to the sheet: lines for the block of its
own rule, the text of the rules nested in it, and the text of its media wrappers.
The full selector of the rule at hand goes down with the reading, so nothing is
looked up and nothing is written afterwards. -/

namespace NestedCss.OnePass

structure Yield where
  lines : List Line
  nested : Text
  media : Text

def Yield.empty : Yield := ⟨[], [], []⟩

def blockText (selector : Text) (lines : List Line) : Text :=
  if selector.isEmpty || lines.isEmpty then []
  else selector ++ '{' :: lines.flatMap Line.text ++ ['}']

def mediaText (query : MediaQuery) (inner : Text) : Text :=
  if inner.isEmpty then [] else query.preamble ++ '{' :: inner ++ ['}']

/-- The text of a rule: its block, then its nested rules, then its media. -/
def Yield.text (yielded : Yield) (selector : Text) : Text :=
  blockText selector yielded.lines ++ yielded.nested ++ yielded.media

/-- The scopes in force and the contribution of the body being read. -/
structure State where
  frames : Frames
  yielded : Yield

/-- The rule that a body belongs to, by its full selector, and the names of the
mixin bodies that are being expanded around it, outermost first. -/
structure Surroundings where
  selector : Text
  active : List Text

abbrev Reading := Surroundings → Body → State → Traced State

def State.addLines (state : State) (lines : List Line) : State :=
  { state with yielded := { state.yielded with lines := state.yielded.lines ++ lines } }

/-- Read a body in a frame of its own, and return the text of its rule together
with the frames of the bodies around it. -/
def readScoped (nested : Reading) (surroundings : Surroundings) (body : Body) (frames : Frames) :
    Traced (Text × Frames) :=
  (nested surroundings body ⟨.empty :: frames, .empty⟩).map fun inner =>
    (inner.yielded.text surroundings.selector, inner.frames.drop 1)

def readInclusion (options : CompileOptions) (nested : Reading) (surroundings : Surroundings)
    (inclusion : Inclusion) (state : State) : Traced State :=
  match state.frames.findMixin inclusion.name with
  | none =>
      if options.strictIncludes then .failed ⟨.unresolvedMixin inclusion.name, inclusion.location⟩
      else .dropping inclusion state
  | some mixin =>
      let active := surroundings.active ++ [inclusion.name]
      if inclusion.name ∈ surroundings.active then
        .failed ⟨.recursiveMixin inclusion.name active, inclusion.location⟩
      else nested { surroundings with active } mixin.body state

def readNode (options : CompileOptions) (nested : Reading) (surroundings : Surroundings)
    (state : State) : Node → Traced State
  | .binding binding => .done { state with frames := state.frames.bind binding }
  | .property property =>
      (Traced.ofExcept (state.frames.substitute property.value property.location)).map fun value =>
        state.addLines (Child.line? (.property { property with value })).toList
  | .comment text => .done (state.addLines (Child.line? (.comment text)).toList)
  | .mixin mixin => .done { state with frames := state.frames.defineMixin mixin }
  | .media block =>
      (readScoped nested surroundings block.body state.frames).map fun (text, frames) =>
        ⟨frames, { state.yielded with
          media := state.yielded.media ++ mediaText block.query text }⟩
  | .inclusion inclusion => readInclusion options nested surroundings inclusion state
  | .rule selector body =>
      let within := { surroundings with selector := joinSelector surroundings.selector selector }
      (readScoped nested within body state.frames).map fun (text, frames) =>
        ⟨frames, { state.yielded with nested := state.yielded.nested ++ text }⟩

def readSegmentation (options : CompileOptions) (nested : Reading) (surroundings : Surroundings)
    (whole : Segmentation) (state : State) : Traced State :=
  .foldNodes (readNode options nested surroundings) state whole

/-- Read a body when `levels` levels of nesting are left, the body's own
included. -/
def readBody (options : CompileOptions) : Nat → Reading
  | 0 => fun _ body _ => .failed ⟨.nestingTooDeep nestingLimit, body.origin⟩
  | levels + 1 => fun surroundings body state =>
      readSegmentation options (readBody options levels) surroundings body.segmentation state

def compileSource (options : CompileOptions) (source : Text) : Traced Text :=
  (readBody options (nestingLimit + 1) ⟨[], []⟩ (.ofSource source) ⟨[.empty], .empty⟩).map
    fun final => final.yielded.text []

end NestedCss.OnePass
