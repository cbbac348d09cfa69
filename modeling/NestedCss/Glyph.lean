import NestedCss.Location

set_option autoImplicit false

/-! The lexical view of a stylesheet: every character with its location and the
role it plays. A character is code, belongs to a quoted string or belongs to a
comment, and its role depends only on the text before it and on the one
character after it. Nesting of blocks plays no part here, so the view of a block
body is the same inside its block and on its own. -/

namespace NestedCss

inductive Role where
  | code
  | quoted
  | commentOpen
  /-- The inner character of either delimiter of a block comment. -/
  | commentMark
  | comment
  | commentClose
  /-- A character of a line comment, its two slashes included. -/
  | remark
  deriving DecidableEq

structure Glyph where
  member : Char
  role : Role
  location : Location
  deriving DecidableEq

/-- What the characters read so far leave open. -/
inductive Mode where
  /-- Outside strings and comments; the flag says that a colon came last. -/
  | code (afterColon : Bool)
  /-- Inside a string that its quote or a line feed will close. -/
  | quoted (quote : Char)
  | escaped (quote : Char)
  | commentOpening
  | comment
  | commentClosing
  | remarkOpening
  | remark
  deriving DecidableEq

def isQuote (member : Char) : Bool := member == '\x22' || member == '\x27'

/-- The role of a character outside strings and comments. Two slashes open a
line comment except right after a colon, so that the address in `url(http://…)`
stays whole. -/
def Mode.stepCode (afterColon : Bool) (member : Char) (next? : Option Char) : Role × Mode :=
  if member = '/' ∧ next? = some '*' then (.commentOpen, .commentOpening)
  else if member = '/' ∧ next? = some '/' ∧ !afterColon then (.remark, .remarkOpening)
  else if isQuote member then (.quoted, .quoted member)
  else (.code, .code (member == ':'))

/-- The role of the next character, and what is open after it. A line feed ends
an unclosed string as well as a line comment. -/
def Mode.step (mode : Mode) (member : Char) (next? : Option Char) : Role × Mode :=
  match mode with
  | .code afterColon => stepCode afterColon member next?
  | .quoted quote =>
      if member = '\\' then (.quoted, .escaped quote)
      else if member = quote ∨ member = '\n' then (.quoted, .code false)
      else (.quoted, .quoted quote)
  | .escaped quote => (.quoted, .quoted quote)
  | .commentOpening => (.commentMark, .comment)
  | .comment =>
      if member = '*' ∧ next? = some '/' then (.commentMark, .commentClosing)
      else (.comment, .comment)
  | .commentClosing => (.commentClose, .code false)
  | .remarkOpening => (.remark, .remark)
  | .remark => if member = '\n' then (.code, .code false) else (.remark, .remark)

def Mode.after (mode : Mode) : Text → Mode
  | [] => mode
  | member :: rest => (mode.step member rest.head?).2.after rest

def Glyph.list (mode : Mode) (here : Location) : Text → List Glyph
  | [] => []
  | member :: rest =>
      let (role, following) := mode.step member rest.head?
      ⟨member, role, here⟩ :: list following (here.advance member) rest

theorem Glyph.map_member_list (mode : Mode) (here : Location) (text : Text) :
    (Glyph.list mode here text).map Glyph.member = text := by
  induction text generalizing mode here with
  | nil => rfl
  | cons member rest ih => simp [Glyph.list, ih]

end NestedCss
