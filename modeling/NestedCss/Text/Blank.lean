import NestedCss.Text.Basic

set_option autoImplicit false

/-! Blank characters, and the operations that remove or collapse them. Blanks
are the members of the Unicode property `White_Space`; the no-break space and
the line separators belong to it, the zero-width space does not. -/

namespace NestedCss

structure CodeRange where
  first : Nat
  last : Nat

def CodeRange.covers (range : CodeRange) (member : Char) : Bool :=
  range.first ≤ member.toNat && member.toNat ≤ range.last

/-- The code points of the property `White_Space`, in ascending order. -/
def blankRanges : List CodeRange :=
  [⟨0x9, 0xD⟩, ⟨0x20, 0x20⟩, ⟨0x85, 0x85⟩, ⟨0xA0, 0xA0⟩, ⟨0x1680, 0x1680⟩,
    ⟨0x2000, 0x200A⟩, ⟨0x2028, 0x2029⟩, ⟨0x202F, 0x202F⟩, ⟨0x205F, 0x205F⟩,
    ⟨0x3000, 0x3000⟩]

def isBlank (member : Char) : Bool := blankRanges.any (·.covers member)

namespace Text

def allBlank (text : Text) : Bool := text.all isBlank

def trimStart (text : Text) : Text := text.dropWhile isBlank

def trimEnd (text : Text) : Text := (text.reverse.dropWhile isBlank).reverse

def trim (text : Text) : Text := trimEnd (trimStart text)

def dropBlanks (text : Text) : Text := text.filter fun member => !isBlank member

/-- Continue a squeezed text after `previous?`; `gap` says that blanks were
passed since then. A gap is written as one space, unless it stands at an end of
the text or beside a character that is tight. -/
def squeezeAfter (tight : Char → Bool) : Option Char → Bool → Text → Text
  | _, _, [] => []
  | previous?, gap, member :: rest =>
      if isBlank member then squeezeAfter tight previous? true rest
      else
        let spaced := gap && previous?.any fun previous => !tight previous && !tight member
        let tail := member :: squeezeAfter tight (some member) false rest
        if spaced then ' ' :: tail else tail

def squeeze (tight : Char → Bool) (text : Text) : Text := squeezeAfter tight none false text

end Text
end NestedCss
