import NestedCss.Error
import NestedCss.Glyph
import NestedCss.Text.Blank

set_option autoImplicit false

/-! Segments: the statements, blocks and block comments that a text consists of
at its outermost level. A statement ends at `;` or at the end of the text, a
block is a header and a body between matching braces, and the body stays
verbatim, to be segmented in its turn when the block is interpreted.

Segmentation reads glyphs from left to right and holds only what the unfinished
segment needs, so a segment never depends on the text after it. -/

namespace NestedCss

structure Body where
  text : Text
  origin : Location
  deriving DecidableEq

def Body.ofSource (source : Text) : Body := ⟨source, .start⟩

inductive Segment where
  /-- Trimmed text up to a `;`, and the location of its first character. -/
  | statement (text : Text) (location : Location)
  /-- A trimmed header and a body that is not blank. -/
  | block (header : Text) (location : Location) (body : Body)
  /-- The text between the delimiters of a comment that stands on its own. -/
  | comment (text : Text) (location : Location)
  deriving DecidableEq

/-- The segments of a text up to its first unbalanced brace, if there is one. -/
structure Segmentation where
  segments : List Segment
  fault? : Option Error
  deriving DecidableEq

def Segmentation.cons (first : Segment) (rest : Segmentation) : Segmentation :=
  { rest with segments := first :: rest.segments }

def Segmentation.complete (whole : Segmentation) : Except Error (List Segment) :=
  match whole.fault? with
  | some fault => .error fault
  | none => .ok whole.segments

def Segmentation.results (whole : Segmentation) : List (Except Error Segment) :=
  whole.segments.map .ok ++ whole.fault?.toList.map .error

/-- The construct that the reader stands in. Texts are held latest character
first. -/
inductive Enclosure where
  | surface
  | comment (start : Location) (text : Text)
  | block (opening : Location) (depth : Nat) (text : Text)
  deriving DecidableEq

/-- What has been read of the segment at hand. The header holds its glyphs
latest first and begins with the first that is not blank. -/
structure Assembly where
  header : List Glyph
  enclosure : Enclosure
  deriving DecidableEq

inductive Progress where
  | reading (pending : Assembly)
  | complete (segment : Segment)
  | rejected (fault : Error)
  deriving DecidableEq

namespace Assembly

def empty : Assembly := ⟨[], .surface⟩

def headerText (pending : Assembly) : Text :=
  Text.trim (pending.header.reverse.map Glyph.member)

def headerLocation (pending : Assembly) (substitute : Location) : Location :=
  (pending.header.getLast?.map Glyph.location).getD substitute

def extend (pending : Assembly) (glyph : Glyph) : Assembly :=
  if pending.header.isEmpty && isBlank glyph.member then pending
  else { pending with header := glyph :: pending.header }

def unbalanced (context : Text) (location : Location) : Error :=
  ⟨.unbalancedBlock (some context), location⟩

def endStatement (pending : Assembly) (here : Location) : Progress :=
  if pending.header.isEmpty then .reading empty
  else .complete (.statement pending.headerText (pending.headerLocation here))

/-- End a block. One with a blank body leaves nothing behind, and its header is
lost with it. -/
def endBlock (pending : Assembly) (opening : Location) (text : Text) : Progress :=
  if Text.allBlank text then .reading empty
  else .complete (.block pending.headerText (pending.headerLocation opening)
    ⟨text.reverse, opening.advance '{'⟩)

/-- End a comment. It stands on its own only where no statement and no header
has begun. -/
def endComment (pending : Assembly) (start : Location) (text : Text) : Progress :=
  if pending.header.isEmpty then .complete (.comment text.reverse start)
  else .reading { pending with enclosure := .surface }

def stepSurface (pending : Assembly) (glyph : Glyph) : Progress :=
  match glyph.role with
  | .code =>
      if glyph.member = '{' then
        .reading { pending with enclosure := .block glyph.location 0 [] }
      else if glyph.member = '}' then
        .rejected (unbalanced "unexpected `\x7d`".toList glyph.location)
      else if glyph.member = ';' then pending.endStatement glyph.location
      else .reading (pending.extend glyph)
  | .quoted => .reading (pending.extend glyph)
  | .commentOpen => .reading { pending with enclosure := .comment glyph.location [] }
  | .commentMark | .comment | .commentClose | .remark => .reading pending

def stepComment (pending : Assembly) (start : Location) (text : Text) (glyph : Glyph) : Progress :=
  match glyph.role with
  | .comment => .reading { pending with enclosure := .comment start (glyph.member :: text) }
  | .commentClose => pending.endComment start text
  | .code | .quoted | .commentOpen | .commentMark | .remark => .reading pending

/-- Read a glyph inside a block: only the brace that closes the block itself is
not part of its body. -/
def stepBlock (pending : Assembly) (opening : Location) (depth : Nat) (text : Text)
    (glyph : Glyph) : Progress :=
  let within (depth : Nat) : Progress :=
    .reading { pending with enclosure := .block opening depth (glyph.member :: text) }
  if glyph.role = .code ∧ glyph.member = '{' then within (depth + 1)
  else if glyph.role = .code ∧ glyph.member = '}' then
    match depth with
    | 0 => pending.endBlock opening text
    | outer + 1 => within outer
  else within depth

def step (pending : Assembly) (glyph : Glyph) : Progress :=
  match pending.enclosure with
  | .surface => pending.stepSurface glyph
  | .comment start text => pending.stepComment start text glyph
  | .block opening depth text => pending.stepBlock opening depth text glyph

/-- The end of the text ends a statement, drops an unclosed comment and rejects
an unclosed block. -/
def finish (pending : Assembly) : Segmentation :=
  match pending.enclosure with
  | .block opening _ _ =>
      let context :=
        if pending.header.isEmpty then "unclosed `\x7b`".toList
        else "unclosed block `".toList ++ pending.headerText ++ "`".toList
      ⟨[], some (unbalanced context opening)⟩
  | .surface | .comment _ _ =>
      if pending.header.isEmpty then ⟨[], none⟩
      else ⟨[.statement pending.headerText (pending.headerLocation .start)], none⟩

/-- Read glyphs to the end of the text or to the first fault. -/
def segmentation (pending : Assembly) : List Glyph → Segmentation
  | [] => pending.finish
  | glyph :: rest =>
      match pending.step glyph with
      | .reading following => segmentation following rest
      | .complete segment => (segmentation empty rest).cons segment
      | .rejected fault => ⟨[], some fault⟩

end Assembly

def Body.segmentation (body : Body) : Segmentation :=
  Assembly.empty.segmentation (Glyph.list (.code false) body.origin body.text)

end NestedCss
