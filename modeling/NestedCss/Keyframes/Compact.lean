import NestedCss.Text.Blank

set_option autoImplicit false

/-! The compact form in which the body of an animation is kept: without comments
and without blanks that carry no meaning. -/

namespace NestedCss.Keyframes

/-- The number of characters up to and including the first closing delimiter of
a block comment. -/
def closingLength? : Text → Option Nat
  | '*' :: '/' :: _ => some 2
  | _ :: rest => (closingLength? rest).map (· + 1)
  | [] => none

/-- The length of the block comment that a text begins with. A comment that
nothing closes is none. -/
def blockCommentLength? : Text → Option Nat
  | '/' :: '*' :: rest => (closingLength? rest).map (· + 2)
  | _ => none

def beginsRemark (text : Text) : Bool := ['/', '/'].isPrefixOf text

def lineLength (text : Text) : Nat := (text.takeWhile (· != '\n')).length

/-- Remove comments from the rest of a text, of which the first `skipped`
characters belong to a comment already. Two slashes open a line comment at the
start of a line, and after any character but a colon that is itself kept; the
characters of a removed comment count for neither. -/
def stripCommentsFrom : Bool → Nat → Text → Text
  | _, _, [] => []
  | _, skipped + 1, _ :: rest => stripCommentsFrom false skipped rest
  | atLineStart, 0, member :: rest =>
      match blockCommentLength? (member :: rest) with
      | some length => stripCommentsFrom false (length - 1) rest
      | none =>
          if member ≠ ':' ∧ beginsRemark rest then
            member :: stripCommentsFrom false (lineLength rest) rest
          else if atLineStart ∧ beginsRemark (member :: rest) then
            stripCommentsFrom false (lineLength rest) rest
          else member :: stripCommentsFrom (member == '\n') 0 rest

/-- Remove block comments, and line comments up to their line feeds. Two slashes
right after a colon are kept, as they stand in addresses. -/
def stripComments (text : Text) : Text := stripCommentsFrom true 0 text

def isPunctuation (member : Char) : Bool :=
  member == '{' || member == '}' || member == ';' || member == ':' || member == ','

def minify (text : Text) : Text := Text.squeeze isPunctuation text

def compact (text : Text) : Text := minify (stripComments text)

end NestedCss.Keyframes
