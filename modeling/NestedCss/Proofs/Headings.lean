import NestedCss.Proofs.Pieces
import NestedCss.Proofs.Selector

set_option autoImplicit false

/-! Text that stands for itself in a statement or in front of a block. Plain text
has none of the characters that end a statement, open or close a block, or begin a
string or a comment; between closed strings it is gathered glyph by glyph, and what
is gathered is the text again. -/

namespace NestedCss

def Text.Plain (text : Text) : Prop :=
  ∀ member ∈ text, member ∉ [';', '{', '}', '/'] ∧ isQuote member = false

instance (text : Text) : Decidable text.Plain := List.decidableBAll _ text

/-- Plain text with strings in it, each closed by its own quote. A string may hold
anything but that quote, a backslash and a line feed. -/
inductive Text.Quotable : Text → Prop
  | nil : Quotable []
  | plain {member : Char} {rest : Text} (ordinary : member ∉ [';', '{', '}', '/'])
      (unquoted : isQuote member = false) (following : Quotable rest) :
      Quotable (member :: rest)
  | quoted {quote : Char} {inner rest : Text} (opens : isQuote quote = true)
      (within : ∀ member ∈ inner, member ∉ [quote, '\\', '\n']) (following : Quotable rest) :
      Quotable (quote :: (inner ++ quote :: rest))

theorem Text.Plain.quotable {text : Text} (plain : text.Plain) : text.Quotable := by
  induction text with
  | nil => exact .nil
  | cons member rest ih =>
      obtain ⟨ordinary, unquoted⟩ := plain member (List.mem_cons_self ..)
      exact .plain ordinary unquoted
        (ih fun other present => plain other (List.mem_cons_of_mem _ present))

theorem Text.Quotable.append {first second : Text} (before : first.Quotable)
    (after : second.Quotable) : (first ++ second).Quotable := by
  induction before with
  | nil => exact after
  | plain ordinary unquoted following ih => exact .plain ordinary unquoted ih
  | @quoted quote inner rest opens within following ih =>
      rw [List.cons_append, List.append_assoc, List.cons_append]
      exact .quoted opens within ih

/-! ### Gathering -/

def Glyph.Inert (glyph : Glyph) : Prop :=
  glyph.role = .quoted ∨ glyph.role = .code ∧ glyph.member ∉ [';', '{', '}']

namespace Assembly

theorem step_of_inert {header : List Glyph} {glyph : Glyph} (inert : glyph.Inert)
    (kept : header ≠ [] ∨ isBlank glyph.member = false) :
    step ⟨header, .surface⟩ glyph = .reading ⟨glyph :: header, .surface⟩ := by
  have taken : extend ⟨header, .surface⟩ glyph = ⟨glyph :: header, .surface⟩ := by
    have solid : (header.isEmpty && isBlank glyph.member) = false := by
      rcases kept with begun | solid
      · rw [List.isEmpty_eq_false_iff.mpr begun, Bool.false_and]
      · rw [solid, Bool.and_false]
    simp only [extend, solid, Bool.false_eq_true, if_false]
  rcases inert with quoted | ⟨code, ordinary⟩
  · simp only [step, stepSurface, quoted, taken]
  · simp only [List.mem_cons, List.not_mem_nil, or_false, not_or] at ordinary
    obtain ⟨noStatement, noOpening, noClosing⟩ := ordinary
    simp only [step, stepSurface, code, noOpening, noClosing, noStatement, if_false, taken]

theorem read_of_inert {glyphs : List Glyph} (inert : ∀ glyph ∈ glyphs, glyph.Inert) :
    ∀ header : List Glyph,
      (header ≠ [] ∨ ∀ first ∈ glyphs.head?, isBlank first.member = false) →
      read ⟨header, .surface⟩ glyphs = some ([], ⟨glyphs.reverse ++ header, .surface⟩) := by
  induction glyphs with
  | nil => exact fun header _ => rfl
  | cons glyph rest ih =>
      intro header begun
      have kept : header ≠ [] ∨ isBlank glyph.member = false :=
        begun.imp_right fun solid => solid glyph rfl
      rw [read, step_of_inert (inert glyph (List.mem_cons_self ..)) kept, List.reverse_cons,
        List.append_assoc]
      exact ih (fun other present => inert other (List.mem_cons_of_mem _ present)) (glyph :: header)
        (Or.inl (List.cons_ne_nil _ _))

end Assembly

theorem Assembly.headerText_list (mode : Mode) (here : Location) (text : Text) :
    headerText ⟨(Glyph.list mode here text).reverse, .surface⟩ = text.trim := by
  rw [headerText, List.reverse_reverse, Glyph.map_member_list]

theorem Text.Heading.closed {heading : Text} (begins : heading.Heading) : heading.Closed := by
  obtain ⟨header, run⟩ := begins.read
  exact ⟨(Assembly.read_fits Assembly.fits_empty run).2, begins.settled⟩

/-- From a mode on, a text is gathered to its end and leaves nothing open. -/
structure Mode.Gathers (mode : Mode) (text : Text) : Prop where
  inert : ∀ here, ∀ glyph ∈ Glyph.list mode here text, glyph.Inert
  settled : ∃ afterColon, mode.after text = .code afterColon

namespace Mode.Gathers

theorem cons {mode following : Mode} {member : Char} {rest : Text} {role : Role}
    (stepped : mode.step member rest.head? = (role, following))
    (inert : ∀ here, Glyph.Inert ⟨member, role, here⟩) (gathered : following.Gathers rest) :
    mode.Gathers (member :: rest) where
  inert := by
    intro here glyph present
    rw [Glyph.list, stepped] at present
    rcases List.mem_cons.mp present with rfl | later
    · exact inert here
    · exact gathered.inert _ glyph later
  settled := by
    rw [Mode.after, stepped]
    exact gathered.settled

theorem nil (afterColon : Bool) : (Mode.code afterColon).Gathers [] :=
  ⟨fun _ _ present => absurd present List.not_mem_nil, afterColon, rfl⟩

theorem plain {afterColon : Bool} {member : Char} {rest : Text}
    (ordinary : member ∉ [';', '{', '}', '/']) (unquoted : isQuote member = false)
    (gathered : (Mode.code (member == ':')).Gathers rest) :
    (Mode.code afterColon).Gathers (member :: rest) := by
  simp only [List.mem_cons, List.not_mem_nil, or_false, not_or] at ordinary
  obtain ⟨noStatement, noOpening, noClosing, noSlash⟩ := ordinary
  have role : (Mode.code afterColon).step member rest.head? = (.code, .code (member == ':')) := by
    simp [Mode.step, Mode.stepCode, noSlash, unquoted]
  exact cons role (fun _ => Or.inr ⟨rfl, by simp [noStatement, noOpening, noClosing]⟩) gathered

theorem opening {afterColon : Bool} {quote : Char} {rest : Text} (opens : isQuote quote = true)
    (gathered : (Mode.quoted quote).Gathers rest) :
    (Mode.code afterColon).Gathers (quote :: rest) := by
  have noSlash : quote ≠ '/' := by
    rintro rfl
    cases opens
  have role : (Mode.code afterColon).step quote rest.head? = (.quoted, .quoted quote) := by
    simp [Mode.step, Mode.stepCode, noSlash, opens]
  exact cons role (fun _ => Or.inl rfl) gathered

theorem closing {quote : Char} {rest : Text} (opened : isQuote quote = true)
    (gathered : (Mode.code false).Gathers rest) : (Mode.quoted quote).Gathers (quote :: rest) := by
  have noEscape : quote ≠ '\\' := by
    rintro rfl
    cases opened
  have role : (Mode.quoted quote).step quote rest.head? = (.quoted, .code false) := by
    simp [Mode.step, noEscape]
  exact cons role (fun _ => Or.inl rfl) gathered

theorem within {quote member : Char} {rest : Text} (kept : member ∉ [quote, '\\', '\n'])
    (gathered : (Mode.quoted quote).Gathers rest) :
    (Mode.quoted quote).Gathers (member :: rest) := by
  simp only [List.mem_cons, List.not_mem_nil, or_false, not_or] at kept
  obtain ⟨noQuote, noEscape, noFeed⟩ := kept
  have role : (Mode.quoted quote).step member rest.head? = (.quoted, .quoted quote) := by
    simp [Mode.step, noQuote, noEscape, noFeed]
  exact cons role (fun _ => Or.inl rfl) gathered

variable {text : Text}

theorem openAfter_eq {mode : Mode} (gathered : mode.Gathers text) (depth : Nat) :
    mode.openAfter depth text = some depth := by
  have counted : ∀ glyphs : List Glyph, (∀ glyph ∈ glyphs, glyph.Inert) →
      Glyph.openAfter depth glyphs = some depth := by
    intro glyphs inert
    induction glyphs with
    | nil => rfl
    | cons glyph rest ih =>
        rw [Glyph.openAfter, Assembly.depthAfter?_of_ne depth]
        · exact ih fun other present => inert other (List.mem_cons_of_mem _ present)
        · intro code
          rcases inert glyph (List.mem_cons_self ..) with quoted | ⟨_, ordinary⟩
          · rw [quoted] at code
            cases code
          · simp only [List.mem_cons, List.not_mem_nil, or_false, not_or] at ordinary
            exact ordinary.2
  rw [← Glyph.openAfter_list mode .start depth text]
  exact counted _ (gathered.inert .start)

theorem read_onto {mode : Mode} (gathered : mode.Gathers text)
    (begins : ∀ first ∈ text.head?, isBlank first = false) (header : List Glyph)
    (here : Location) :
    Assembly.read ⟨header, .surface⟩ (Glyph.list mode here text) =
      some ([], ⟨(Glyph.list mode here text).reverse ++ header, .surface⟩) := by
  refine Assembly.read_of_inert (gathered.inert here) header (Or.inr fun first present => ?_)
  cases text with
  | nil => cases present
  | cons member rest =>
      injection present with same
      exact same ▸ begins member rfl

theorem segmentation_append {mode : Mode} (gathered : mode.Gathers text)
    (begins : ∀ first ∈ text.head?, isBlank first = false) {rest : Text}
    (unaffected : mode.Unaffected rest.head? text) (header : List Glyph) (here : Location) :
    Assembly.segmentation ⟨header, .surface⟩ (Glyph.list mode here (text ++ rest)) =
      Assembly.segmentation ⟨(Glyph.list mode here text).reverse ++ header, .surface⟩
        (Glyph.list (mode.after text) (here.advanceOver text) rest) := by
  rw [Glyph.list_append here unaffected, Assembly.segmentation_append
    (gathered.read_onto begins header here), Segmentation.behind_nil]

theorem read_at (gathered : (Mode.code false).Gathers text)
    (begins : ∀ first ∈ text.head?, isBlank first = false) (here : Location) :
    Assembly.empty.read (Glyph.list (.code false) here text) =
      some ([], ⟨(Glyph.list (.code false) here text).reverse, .surface⟩) := by
  have run := gathered.read_onto begins [] here
  rw [List.append_nil] at run
  exact run

theorem heading (gathered : (Mode.code false).Gathers text)
    (begins : ∀ first ∈ text.head?, isBlank first = false) : text.Heading :=
  ⟨⟨_, gathered.read_at begins .start⟩, gathered.settled⟩

theorem segmentation_statement (gathered : (Mode.code false).Gathers text) (trimmed : text.trim = text)
    (solid : text ≠ []) (here : Location) :
    ∃ location, (Body.mk (text ++ [';']) here).segmentation =
      ⟨[.statement text location], none⟩ := by
  have begins := ((Text.trim_eq_self_iff text).mp trimmed).1
  have run := gathered.read_at begins here
  have header : (Glyph.list (.code false) here text).reverse ≠ [] := by
    intro bare
    have members := Glyph.map_member_list (.code false) here text
    rw [List.reverse_eq_nil_iff.mp bare] at members
    exact solid members.symm
  rw [(gathered.heading begins).closed.segmentation_semicolon here, Body.segmentation,
    Assembly.segmentation_of_read run]
  simp only [Assembly.finish, List.isEmpty_eq_false_iff.mpr header, Bool.false_eq_true, if_false,
    Assembly.headerText_list, trimmed]
  exact ⟨_, rfl⟩

theorem segmentation_block {inner : Text} (gathered : (Mode.code false).Gathers text)
    (begins : ∀ first ∈ text.head?, isBlank first = false) (closed : inner.Closed)
    (solid : inner.allBlank = false) (here : Location) :
    ∃ location, (Body.mk (Text.block text inner) here).segmentation =
      ⟨[.block text.trim location ⟨inner, (here.advanceOver text).advance '{'⟩], none⟩ := by
  have single := Assembly.segmentation_heading_block (gathered.read_at begins here)
    gathered.settled closed solid
  rw [Assembly.headerText_list] at single
  exact ⟨_, single⟩

end Mode.Gathers

namespace Text.Quotable

variable {text : Text}

theorem gathers (quotable : text.Quotable) (afterColon : Bool) :
    (Mode.code afterColon).Gathers text := by
  induction quotable generalizing afterColon with
  | nil => exact .nil afterColon
  | plain ordinary unquoted following ih => exact .plain ordinary unquoted (ih _)
  | @quoted quote inner rest opens within following ih =>
      -- The string is gathered up to its closing quote.
      have string : (Mode.quoted quote).Gathers (inner ++ quote :: rest) := by
        clear following
        induction inner with
        | nil => exact .closing opens (ih false)
        | cons member others ihInner =>
            apply Mode.Gathers.within (within member (List.mem_cons_self ..))
            exact ihInner fun other present => within other (List.mem_cons_of_mem _ present)
      exact .opening opens string

theorem gathered (quotable : text.Quotable) : (Mode.code false).Gathers text :=
  quotable.gathers false

theorem heading (quotable : text.Quotable)
    (begins : ∀ first ∈ text.head?, isBlank first = false) : text.Heading :=
  quotable.gathered.heading begins

end Text.Quotable

theorem Text.Quotable.segmentation_statement {text : Text} (quotable : text.Quotable)
    (trimmed : text.trim = text) (solid : text ≠ []) (here : Location) :
    ∃ location, (Body.mk (text ++ [';']) here).segmentation =
      ⟨[.statement text location], none⟩ :=
  quotable.gathered.segmentation_statement trimmed solid here

theorem Text.Quotable.segmentation_block {heading inner : Text} (quotable : heading.Quotable)
    (begins : ∀ first ∈ heading.head?, isBlank first = false) (closed : inner.Closed)
    (solid : inner.allBlank = false) (here : Location) :
    ∃ location, (Body.mk (Text.block heading inner) here).segmentation =
      ⟨[.block heading.trim location ⟨inner, (here.advanceOver heading).advance '{'⟩], none⟩ :=
  quotable.gathered.segmentation_block begins closed solid here

/-! ### Selectors -/

/-- A selector that stands for itself in front of a block: trimmed, without the
characters that could end it, and not the start of a directive. -/
structure Writable (selector : Text) : Prop where
  trimmed : selector.trim = selector
  plain : selector.Plain
  undirected : ¬ Node.mixinMark <+: selector ∧ ¬ Node.mediaMark <+: selector

theorem Text.afterLead?_eq_none {lead text : Text} (other : ¬ lead <+: text) :
    Text.afterLead? lead text = none := by
  rw [Text.afterLead?, if_neg]
  exact fun leads => other (List.isPrefixOf_iff_prefix.mp leads)

namespace Writable

variable {selector : Text}

theorem begins (writable : Writable selector) :
    ∀ first ∈ selector.head?, isBlank first = false :=
  ((Text.trim_eq_self_iff selector).mp writable.trimmed).1

theorem heading (writable : Writable selector) : selector.Heading :=
  writable.plain.quotable.heading writable.begins

theorem ofBlock_eq (writable : Writable selector) (body : Body) :
    Node.ofBlock selector body = .rule selector body := by
  simp only [Node.ofBlock, Text.afterLead?_eq_none writable.undirected.1,
    Text.afterLead?_eq_none writable.undirected.2]

theorem segmentation_block (writable : Writable selector) {inner : Text} (closed : inner.Closed)
    (solid : inner.allBlank = false) (here : Location) :
    ∃ location, (Body.mk (Text.block selector inner) here).segmentation =
      ⟨[.block selector location ⟨inner, (here.advanceOver selector).advance '{'⟩], none⟩ := by
  obtain ⟨location, single⟩ :=
    writable.plain.quotable.segmentation_block writable.begins closed solid here
  rw [writable.trimmed] at single
  exact ⟨location, single⟩

end Writable
end NestedCss
