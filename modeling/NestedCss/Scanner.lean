import NestedCss.Segment

set_option autoImplicit false

/-! A scanner gives the segments of a text one at a time. Between two calls it holds where it
stands in the text and what it has read of the segment at hand, so a segment can be dealt
with before the text after it has been read. -/

namespace NestedCss

structure Scanner where
  mode : Mode
  here : Location
  rest : Text
  pending : Assembly
  /-- Nothing is given after the end of the text or after a fault. -/
  finished : Bool

namespace Scanner

def ofBody (body : Body) : Scanner := ⟨.code false, body.origin, body.text, .empty, false⟩

def advance (mode : Mode) (here : Location) (pending : Assembly) :
    Text → Option (Except Error Segment) × Scanner
  | [] => (pending.finish.results.head?, ⟨mode, here, [], .empty, true⟩)
  | member :: rest =>
      let (role, following) := mode.step member rest.head?
      match pending.step ⟨member, role, here⟩ with
      | .reading unfinished => advance following (here.advance member) unfinished rest
      | .complete segment =>
          (some (.ok segment), ⟨following, here.advance member, rest, .empty, false⟩)
      | .rejected fault =>
          (some (.error fault), ⟨following, here.advance member, rest, .empty, true⟩)

def next (scanner : Scanner) : Option (Except Error Segment) × Scanner :=
  if scanner.finished then (none, scanner)
  else advance scanner.mode scanner.here scanner.pending scanner.rest

/-- What the scanner gives when it is called after `count` other calls. -/
def answer (scanner : Scanner) : Nat → Option (Except Error Segment)
  | 0 => scanner.next.1
  | count + 1 => scanner.next.2.answer count

end Scanner
end NestedCss
