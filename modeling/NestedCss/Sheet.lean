import NestedCss.MediaQuery

set_option autoImplicit false

/-! Flat style sheets: blocks of declarations and comments under one selector
each, and media wrappers around such sheets. Nothing here is nested but the
wrappers. -/

namespace NestedCss

inductive Line where
  | declaration (key value : Text)
  | comment (text : Text)
  deriving DecidableEq

/-- A block of lines, or a sheet under a media condition. -/
inductive Item where
  | block (selector : Text) (lines : List Line)
  | media (query : MediaQuery) (items : List Item)

abbrev Sheet := List Item

def Line.text : Line → Text
  | .declaration key value => key ++ ':' :: value ++ [';']
  | .comment text => "/*".toList ++ text ++ "*/".toList

mutual

def Item.text : Item → Text
  | .block selector lines => selector ++ '{' :: lines.flatMap Line.text ++ ['}']
  | .media query items => query.preamble ++ '{' :: Sheet.text items ++ ['}']

def Sheet.text : List Item → Text
  | [] => []
  | item :: rest => item.text ++ Sheet.text rest

end

theorem Sheet.text_append (first second : Sheet) :
    Sheet.text (first ++ second) = Sheet.text first ++ Sheet.text second := by
  induction first with
  | nil => rfl
  | cons item rest ih => simp [Sheet.text, ih]

end NestedCss
