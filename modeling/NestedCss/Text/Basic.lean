set_option autoImplicit false

/-! Stylesheet text as a list of characters, with the few operations on it that
the language needs: cutting at a marker, searching, replacing and joining. Every
position in this library counts characters, so a list is the natural view. -/

namespace NestedCss

/-- Text is a list of Unicode scalar values. -/
abbrev Text := List Char

namespace Text

instance decidableMem (text : Text) (texts : List Text) : Decidable (text ∈ texts) :=
  inferInstanceAs (Decidable (text ∈ texts))

def afterLead? (lead text : Text) : Option Text :=
  if lead.isPrefixOf text then some (text.drop lead.length) else none

def beforeTail? (tail text : Text) : Option Text :=
  if tail.isSuffixOf text then some (text.take (text.length - tail.length)) else none

/-- Cut at the first occurrence of a mark, which belongs to neither part.
Without the mark the second part is empty. -/
def cutAt (mark : Char) (text : Text) : Text × Text :=
  (text.takeWhile (· != mark), (text.dropWhile (· != mark)).drop 1)

def occursIn (needle : Text) : Text → Bool
  | [] => needle.isEmpty
  | member :: rest => needle.isPrefixOf (member :: rest) || occursIn needle rest

def replaceChar (target : Char) (substitute text : Text) : Text :=
  text.flatMap fun member => if member == target then substitute else [member]

def joinWith (separator : Text) (pieces : List Text) : Text :=
  separator.intercalate pieces

def ofNat (value : Nat) : Text := Nat.toDigits 10 value

def ofInt : Int → Text
  | .ofNat value => ofNat value
  | .negSucc value => '-' :: ofNat (value + 1)

theorem afterLead?_append (lead text : Text) : afterLead? lead (lead ++ text) = some text := by
  simp [afterLead?]

theorem beforeTail?_append (text tail : Text) : beforeTail? tail (text ++ tail) = some text := by
  simp [beforeTail?]

theorem cutAt_append {mark : Char} {first : Text} (second : Text) (unmarked : mark ∉ first) :
    cutAt mark (first ++ mark :: second) = (first, second) := by
  have before : ∀ member ∈ first, (member != mark) = true := by
    intro member present
    rw [bne_iff_ne]
    intro same
    exact unmarked (same ▸ present)
  simp [cutAt, List.takeWhile_append_of_pos before, List.dropWhile_append_of_pos before]

end Text
end NestedCss
