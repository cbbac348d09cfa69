import NestedCss.Node.Printer
import NestedCss.Proofs.Headings
import NestedCss.Proofs.MediaQueries

set_option autoImplicit false

/-! Reading what was printed. The canonical text of a node is one piece: it is read
as one segment wherever it stands, and leaves nothing to the text after it. So the
canonical text of any nodes in any order is read as these nodes again, and what
stands in their bodies plays no part. -/

namespace NestedCss

/-! ### What can be printed -/

def Text.IsKey (key : Text) : Prop := key.trim = key ∧ key ≠ [] ∧ key.Plain ∧ ':' ∉ key

def Text.IsValue (value : Text) : Prop := value.trim = value ∧ value.Quotable

def Text.IsName (name : Text) : Prop :=
  name.trim = name ∧ name ≠ [] ∧ name.Plain ∧ '(' ∉ name ∧ ')' ∉ name

/-- A body that is read without a fault and leaves no string and no comment open,
and that is not dropped for being blank. -/
structure Body.Enclosable (body : Body) : Prop where
  faultless : body.segmentation.fault? = none
  settled : ∃ afterColon, (Mode.code false).after body.text = .code afterColon
  solid : body.text.allBlank = false

/-- Nodes whose parts stand for themselves in the canonical text. -/
inductive Node.Printable : Node → Prop
  | binding {declared : Binding} (key : declared.key.IsKey) (value : declared.value.IsValue)
      (unmarked : declared.isGlobal = false → ¬ Binding.globalMark <:+ declared.value) :
      Printable (.binding declared)
  | property {declared : Property} (key : declared.key.IsKey)
      (undirected : ¬ ['$'] <+: declared.key ∧ ¬ includeMark <+: declared.key)
      (value : declared.value.IsValue) : Printable (.property declared)
  | comment {text : Text} (unclosed : ¬ ['*', '/'] <:+: text) : Printable (.comment text)
  | mixin {defined : Mixin} (name : defined.name.IsName) (body : defined.body.Enclosable) :
      Printable (.mixin defined)
  | media {block : MediaBlock} (normal : block.query.Normal) (plain : block.query.condition.Plain)
      (body : block.body.Enclosable) : Printable (.media block)
  | inclusion {request : Inclusion} (name : request.name.IsName) : Printable (.inclusion request)
  | rule {selector : Text} {body : Body} (writable : Writable selector) (some : selector ≠ [])
      (enclosable : body.Enclosable) : Printable (.rule selector body)

theorem Body.Enclosable.closed {body : Body} (enclosable : body.Enclosable) :
    body.text.Closed :=
  ⟨body.fault?_eq_none_iff.mp enclosable.faultless, enclosable.settled⟩

private theorem Body.textAfter_eq_block (header : Text) (body : Body) :
    body.textAfter header = Text.block header body.text := by
  simp [Body.textAfter, Text.block]

/-! ### Pieces that are read as one node -/

/-- A text that is read as one node wherever it stands, and by itself. -/
structure Text.Spells (text : Text) (node : Node) : Prop where
  whole : text.Whole
  reads : ∀ here, ∃ segment, (Body.mk text here).segmentation = ⟨[segment], none⟩ ∧
    node.Alike (.ofSegment segment)

namespace Text.Spells

variable {text : Text} {node : Node}

private theorem of_statement (gathered : (Mode.code false).Gathers text)
    (trimmed : text.trim = text)
    (some : text ≠ []) (reads : ∀ location, node.Alike (.ofStatement text location)) :
    (text ++ [';']).Spells node where
  whole := by
    have begins := ((trim_eq_self_iff text).mp trimmed).1
    exact (gathered.heading begins).closed.whole_semicolon
  reads := by
    intro here
    obtain ⟨location, single⟩ := gathered.segmentation_statement trimmed some here
    exact ⟨_, single, reads location⟩

private theorem of_block {body : Body} (quotable : text.Quotable)
    (begins : ∀ first ∈ text.head?, isBlank first = false) (enclosable : body.Enclosable)
    (reads : ∀ place, node.Alike (.ofBlock text.trim ⟨body.text, place⟩)) :
    (body.textAfter text).Spells node where
  whole := by
    rw [Body.textAfter_eq_block]
    exact (quotable.heading begins).whole_block enclosable.closed
  reads := by
    intro here
    obtain ⟨location, single⟩ :=
      quotable.segmentation_block begins enclosable.closed enclosable.solid here
    rw [Body.textAfter_eq_block]
    exact ⟨_, single, reads _⟩

end Text.Spells

/-! ### Comments -/

theorem Text.spells_comment {text : Text} (unclosed : ¬ ['*', '/'] <:+: text) :
    Text.Spells ("/*".toList ++ text ++ "*/".toList) (.comment text) := by
  refine ⟨⟨⟨_, Assembly.read_blockComment unclosed .start⟩, false, ?_⟩,
    fun here => ⟨.comment text here, ?_, .comment text⟩⟩
  · exact Mode.after_blockComment unclosed false
  · exact Assembly.segmentation_of_read (Assembly.read_blockComment unclosed here)

/-! ### Statements -/

private theorem splitDeclaration_append {key : Text} (isKey : key.IsKey) (value : Text) :
    splitDeclaration (key ++ ':' :: value) = (key, value.trim) := by
  obtain ⟨trimmed, _, _, noColon⟩ := isKey
  simp only [splitDeclaration, Text.cutAt_append value noColon, trimmed]

private theorem Text.trim_colon_cons {value : Text} (trimmed : value.trim = value) :
    Text.trim (':' :: value) = ':' :: value := by
  cases value with
  | nil => decide
  | cons first rest =>
      exact trim_between [':'] [] _ (by decide) trimmed (by decide) (List.cons_ne_nil _ _)

private theorem Text.not_prefix_declaration {lead key : Text} (value : Text) (noColon : ':' ∉ lead)
    (other : ¬ lead <+: key) : ¬ lead <+: key ++ ':' :: value := by
  intro leads
  have keyed : key ++ [':'] <+: key ++ ':' :: value := by
    rw [List.prefix_append_right_inj]
    exact List.prefix_append [':'] value
  have within : lead <+: key ++ [':'] := by
    rcases List.prefix_or_prefix_of_prefix leads keyed with shorter | longer
    · exact shorter
    · have colon : ':' ∈ lead :=
        longer.subset (List.mem_append_right key (List.mem_singleton_self ':'))
      exact absurd colon noColon
  rcases List.prefix_concat_iff.mp within with same | inKey
  · exact noColon (same ▸ List.mem_append_right key (List.mem_singleton_self ':'))
  · exact other inKey

/-- A declaration that is gathered to its end is read as itself. -/
theorem Property.spells_of_gathers {declared : Property} (key : declared.key.IsKey)
    (undirected : ¬ ['$'] <+: declared.key ∧ ¬ Node.includeMark <+: declared.key)
    (trimmed : declared.value.trim = declared.value)
    (gathered : (Mode.code false).Gathers (declared.key ++ ':' :: declared.value)) :
    declared.text.Spells (.property declared) := by
  obtain ⟨name, meant, location⟩ := declared
  obtain ⟨trimmedKey, some, plain, noColon⟩ := key
  have trimmedText : (name ++ ':' :: meant).trim = name ++ ':' :: meant :=
    Text.trim_between _ [] _ trimmedKey (Text.trim_colon_cons trimmed) some
      (List.cons_ne_nil _ _)
  refine .of_statement gathered trimmedText (List.append_ne_nil_of_left_ne_nil some _) ?_
  intro there
  have noRequest : Text.afterLead? Node.includeMark (name ++ ':' :: meant) = none :=
    Text.afterLead?_eq_none (Text.not_prefix_declaration meant (by decide) undirected.2)
  have noVariable : (name ++ ':' :: meant).head? ≠ Option.some '$' := by
    intro leads
    rw [List.head?_append_of_ne_nil _ some] at leads
    obtain ⟨rest, rfl⟩ := List.head?_eq_some_iff.mp leads
    exact undirected.1 (List.prefix_append ['$'] rest)
  have split : splitDeclaration (name ++ ':' :: meant) = (name, meant) := by
    rw [splitDeclaration_append ⟨trimmedKey, some, plain, noColon⟩]
    exact congrArg (Prod.mk name) trimmed
  simp only [Node.ofStatement, noRequest, if_neg noVariable, Property.ofStatement, split]
  exact .property name meant location there

theorem Property.spells {declared : Property} (key : declared.key.IsKey)
    (undirected : ¬ ['$'] <+: declared.key ∧ ¬ Node.includeMark <+: declared.key)
    (value : declared.value.IsValue) : declared.text.Spells (.property declared) := by
  have quotable : (declared.key ++ ':' :: declared.value).Quotable :=
    key.2.2.1.quotable.append (.plain (by decide) (by decide) value.2)
  exact spells_of_gathers key undirected value.1 quotable.gathered

namespace Binding

def valueText (declared : Binding) : Text :=
  declared.value ++ if declared.isGlobal then ' ' :: globalMark else []

private theorem text_eq (declared : Binding) :
    declared.text = ('$' :: declared.key) ++ ':' :: declared.valueText ++ [';'] := by
  simp [text, valueText]

private theorem beforeTail?_globalMark {value : Text} (trimmed : value.trim = value) :
    ∃ kept, Text.beforeTail? globalMark (value ++ ' ' :: globalMark).trim = some kept ∧
      kept.trim = value := by
  cases value with
  | nil => exact ⟨[], by decide, rfl⟩
  | cons first rest =>
      have whole : Text.trim (first :: rest ++ ' ' :: globalMark) =
          first :: rest ++ [' '] ++ globalMark := by
        rw [List.append_assoc]
        exact Text.trim_between _ [' '] globalMark trimmed (by decide)
          (List.cons_ne_nil _ _) (by decide)
      refine ⟨first :: rest ++ [' '], ?_, Text.trim_concat_of_isBlank trimmed (by decide)⟩
      rw [whole, Text.beforeTail?_append]

private theorem isKey_dollar_cons {key : Text} (isKey : key.IsKey) : Text.IsKey ('$' :: key) := by
  obtain ⟨trimmed, some, plain, noColon⟩ := isKey
  refine ⟨?_, List.cons_ne_nil _ _, ?_, by simpa using noColon⟩
  · exact Text.trim_between ['$'] [] _ (by decide) trimmed (by decide) some
  · intro member present
    rcases List.mem_cons.mp present with rfl | later
    · decide
    · exact plain member later

private theorem ofStatement_text {declared : Binding} (isKey : declared.key.IsKey)
    (trimmed : declared.value.trim = declared.value)
    (unmarked : declared.isGlobal = false → ¬ globalMark <:+ declared.value) (there : Location) :
    Binding.ofStatement (('$' :: declared.key) ++ ':' :: declared.valueText) there =
      { declared with location := there } := by
  obtain ⟨key, value, isGlobal, here⟩ := declared
  have named : (Text.afterLead? ['$'] ('$' :: key)).getD ('$' :: key) = key := by
    rw [show '$' :: key = ['$'] ++ key from rfl, Text.afterLead?_append]
    rfl
  have trimmedKey : key.trim = key := isKey.1
  simp only [Binding.ofStatement, splitDeclaration_append (isKey_dollar_cons isKey), named,
    valueText]
  cases isGlobal with
  | false =>
      have kept : Text.beforeTail? globalMark value = none := by
        rw [Text.beforeTail?, if_neg]
        exact fun tails => unmarked rfl (List.isSuffixOf_iff_suffix.mp tails)
      have same : value.trim = value := trimmed
      simp only [Bool.false_eq_true, if_false, List.append_nil, same, kept, trimmedKey]
  | true =>
      obtain ⟨kept, cut, same⟩ := beforeTail?_globalMark trimmed
      simp only [if_true, cut, same, trimmedKey]

private theorem trim_valueText {declared : Binding}
    (trimmed : declared.value.trim = declared.value) :
    Text.trim (':' :: declared.valueText) = ':' :: declared.valueText := by
  unfold valueText
  split
  · have whole := Text.trim_between [':'] (declared.value ++ [' ']) globalMark
      (by decide) (by decide) (by decide) (by decide)
    rw [List.append_assoc] at whole
    exact whole
  · rw [List.append_nil, Text.trim_colon_cons trimmed]

private theorem spells {declared : Binding} (key : declared.key.IsKey)
    (value : declared.value.IsValue)
    (unmarked : declared.isGlobal = false → ¬ globalMark <:+ declared.value) :
    declared.text.Spells (.binding declared) := by
  obtain ⟨trimmed, quotable⟩ := value
  obtain ⟨trimmedKey, some, plain, noColon⟩ := isKey_dollar_cons key
  have trimmedText := Text.trim_between _ [] _ trimmedKey (trim_valueText trimmed) some
    (List.cons_ne_nil _ _)
  have marked : declared.valueText.Quotable := by
    unfold valueText
    split
    · exact quotable.append (Text.Plain.quotable (by decide))
    · exact quotable.append .nil
  have quotableText : Text.Quotable ('$' :: declared.key ++ ':' :: declared.valueText) :=
    plain.quotable.append (.plain (by decide) (by decide) marked)
  rw [text_eq]
  refine .of_statement quotableText.gathered trimmedText (List.cons_ne_nil _ _) ?_
  intro there
  have noRequest : Text.afterLead? Node.includeMark
      (('$' :: declared.key) ++ ':' :: declared.valueText) = none := by
    rw [Text.afterLead?, if_neg]
    intro leads
    cases leads
  have leading : ('$' :: declared.key ++ ':' :: declared.valueText).head? = Option.some '$' := rfl
  simp only [Node.ofStatement, noRequest, if_pos leading, ofStatement_text key trimmed unmarked]
  exact .binding _ _ _ _ _

end Binding

/-! ### Directives -/

theorem dropParametersFrom_eq_self {text : Text} (noParameters : '(' ∉ text) :
    dropParametersFrom false text = text := by
  induction text with
  | nil => rfl
  | cons member rest ih =>
      have own : member ≠ '(' := fun same => noParameters (same ▸ List.mem_cons_self ..)
      rw [dropParametersFrom, if_neg fun opens => own opens.1,
        ih fun later => noParameters (List.mem_cons_of_mem _ later)]

theorem directiveName_of_isName {name : Text} (isName : name.IsName) :
    directiveName (' ' :: name) = name := by
  obtain ⟨trimmed, _, _, noParameters, _⟩ := isName
  have bare : '(' ∉ ' ' :: name := by simpa using noParameters
  rw [directiveName, dropParametersFrom_eq_self bare, Text.trim_cons_of_isBlank ' ' name (by decide),
    trimmed]

private theorem Text.IsName.directive {name : Text} (isName : name.IsName) (mark : Text)
    (trimmed : mark.trim = mark) (some : mark ≠ []) (plain : mark.Plain) :
    (mark ++ ' ' :: name).trim = mark ++ ' ' :: name ∧ (mark ++ ' ' :: name).Plain := by
  refine ⟨trim_between _ [' '] _ trimmed isName.1 some isName.2.1, ?_⟩
  intro member present
  rw [List.mem_append, List.mem_cons] at present
  rcases present with before | rfl | after
  · exact plain member before
  · exact ⟨by decide, by decide⟩
  · exact isName.2.2.1 member after

private theorem Inclusion.spells {request : Inclusion} (name : request.name.IsName) :
    (Node.inclusion request).text.Spells (.inclusion request) := by
  obtain ⟨trimmed, plain⟩ := name.directive Node.includeMark (by decide) (by decide)
    (by decide)
  refine .of_statement plain.quotable.gathered trimmed (List.cons_ne_nil _ _) ?_
  intro there
  rw [Node.ofStatement, Text.afterLead?_append]
  simp only [directiveName_of_isName name]
  exact .inclusion request.name request.location there

private theorem Mixin.spells {defined : Mixin} (name : defined.name.IsName)
    (body : defined.body.Enclosable) : (Node.mixin defined).text.Spells (.mixin defined) := by
  obtain ⟨trimmed, plain⟩ := name.directive Node.mixinMark (by decide) (by decide)
    (by decide)
  refine .of_block plain.quotable ((Text.trim_eq_self_iff _).mp trimmed).1 body ?_
  intro there
  rw [trimmed, Node.ofBlock, Text.afterLead?_append]
  simp only [directiveName_of_isName name]
  exact .mixin defined.name rfl

private theorem MediaQuery.plain_preamble {query : MediaQuery} (plain : query.condition.Plain) :
    query.preamble.Plain := by
  have joined : ∀ front back : Text, front.Plain → back.Plain →
      (front ++ query.condition ++ back).Plain := by
    intro front back before after member present
    rw [List.mem_append, List.mem_append] at present
    rcases present with (first | middle) | last
    · exact before member first
    · exact plain member middle
    · exact after member last
  unfold preamble
  split
  · exact joined "@media(".toList [')'] (by decide) (by decide)
  · rw [← List.append_nil ("@media ".toList ++ query.condition)]
    exact joined "@media ".toList [] (by decide) (by decide)

theorem MediaBlock.spells {block : MediaBlock} (normal : block.query.Normal)
    (plain : block.query.condition.Plain) (body : block.body.Enclosable) :
    (Node.media block).text.Spells (.media block) := by
  have begins : ∀ first ∈ block.query.preamble.head?, isBlank first = false := by
    unfold MediaQuery.preamble
    split
    · exact fun first same => Option.some.inj same ▸ (by decide : isBlank '@' = false)
    · exact fun first same => Option.some.inj same ▸ (by decide : isBlank '@' = false)
  refine .of_block (MediaQuery.plain_preamble plain).quotable begins body ?_
  intro there
  obtain ⟨rest, trimmed, found⟩ := normal.trim_preamble
  have noMixin : Text.afterLead? Node.mixinMark (Node.mediaMark ++ rest) = none := by
    apply Text.afterLead?_eq_none
    intro leads
    have within : Node.mixinMark <+: Node.mediaMark :=
      List.prefix_of_prefix_length_le leads (List.prefix_append _ rest) (by decide)
    exact absurd within (by decide)
  simp only [trimmed, Node.ofBlock, noMixin, Text.afterLead?_append, found]
  exact .media block.query rfl

theorem Writable.spells {selector : Text} {body : Body} (writable : Writable selector)
    (enclosable : body.Enclosable) : (Node.rule selector body).text.Spells (.rule selector body) := by
  refine .of_block writable.plain.quotable writable.begins enclosable ?_
  intro there
  rw [writable.trimmed, writable.ofBlock_eq]
  exact .rule selector rfl

/-! ### Nodes in order -/

private theorem Node.Printable.spells {node : Node} (printable : node.Printable) :
    node.text.Spells node := by
  cases printable with
  | binding key value unmarked => exact Binding.spells key value unmarked
  | property key undirected value => exact Property.spells key undirected value
  | comment unclosed => exact Text.spells_comment unclosed
  | mixin name body => exact Mixin.spells name body
  | media normal plain body => exact MediaBlock.spells normal plain body
  | inclusion name => exact Inclusion.spells name
  | rule writable _ enclosable => exact writable.spells enclosable

/-- The canonical text of printable nodes is read without a fault, wherever it
stands, and as these nodes in their order. -/
theorem segmentation_listText (nodes : List Node) (printable : ∀ node ∈ nodes, node.Printable) :
    ∀ here : Location, (Body.mk (Node.listText nodes) here).segmentation.fault? = none ∧
      List.Forall₂ Node.Alike nodes
        ((Body.mk (Node.listText nodes) here).segmentation.segments.map Node.ofSegment) := by
  induction nodes with
  | nil => exact fun here => ⟨rfl, .nil⟩
  | cons node rest ih =>
      intro here
      have spells := (printable node (List.mem_cons_self ..)).spells
      obtain ⟨faultless, alike⟩ := ih (fun other present =>
        printable other (List.mem_cons_of_mem _ present)) (here.advanceOver node.text)
      obtain ⟨segment, single, same⟩ := spells.reads here
      have joined := spells.whole.segmentation_append (Node.listText rest) here
      rw [Node.listText, List.flatMap_cons] at *
      rw [joined, single]
      exact ⟨faultless, .cons same alike⟩

theorem segmentation_listText_of_every_kind :
    let nodes : List Node := [
      .binding ⟨"a".toList, "b".toList, true, .start⟩,
      .property ⟨"c".toList, "';\x7d'".toList, .start⟩,
      .comment ";\x7b*".toList,
      .mixin ⟨"d".toList, ⟨"e:'\x7b'; /* \x7d */ f\x7bg:h\x7d".toList, .start⟩⟩,
      .media ⟨⟨"i:j".toList, true⟩, ⟨"k:l".toList, .start⟩⟩,
      .media ⟨⟨"m and (n)".toList, false⟩, ⟨"@include d".toList, .start⟩⟩,
      .inclusion ⟨"d".toList, .start⟩,
      .rule "o:p, &".toList ⟨"q:$a".toList, .start⟩]
    Node.listText nodes = ("$a:b !global;c:';\x7d';/*;\x7b**/" ++
      "@mixin d\x7be:'\x7b'; /* \x7d */ f\x7bg:h\x7d\x7d@media(i:j)\x7bk:l\x7d" ++
      "@media m and (n)\x7b@include d\x7d@include d;o:p, &\x7bq:$a\x7d").toList ∧
    (Body.ofSource (Node.listText nodes)).segmentation.fault? = none ∧
    List.Forall₂ Node.Alike nodes
      ((Body.ofSource (Node.listText nodes)).segmentation.segments.map Node.ofSegment) := by
  intro nodes
  refine ⟨by decide +kernel, segmentation_listText nodes ?_ .start⟩
  intro node present
  simp only [nodes, List.mem_cons, List.not_mem_nil, or_false] at present
  have value : ∀ text : Text, text.trim = text → text.Plain → text.IsValue :=
    fun text trimmed plain => ⟨trimmed, plain.quotable⟩
  rcases present with rfl | rfl | rfl | rfl | rfl | rfl | rfl | rfl
  · exact .binding ⟨by decide +kernel, by decide, by decide, by decide⟩
      (value _ (by decide +kernel) (by decide)) (by decide)
  · exact .property ⟨by decide +kernel, by decide, by decide, by decide⟩ (by decide)
      ⟨by decide +kernel,
        @Text.Quotable.quoted '\x27' ";\x7d".toList [] (by decide) (by simp) .nil⟩
  · exact .comment (by decide)
  · exact .mixin ⟨by decide +kernel, by decide, by decide, by decide⟩
      ⟨by decide +kernel, ⟨false, by decide +kernel⟩, by decide +kernel⟩
  · exact .media (.grouped (.plain (by decide) (.plain (by decide) (.plain (by decide) .nil)))
      (by decide +kernel)) (by decide) ⟨by decide +kernel, ⟨false, by decide +kernel⟩, by decide +kernel⟩
  · refine .media (.listed (by decide +kernel) ?_) (by decide)
      ⟨by decide +kernel, ⟨false, by decide +kernel⟩, by decide +kernel⟩
    rintro ⟨inner, _, same⟩
    cases same
  · exact .inclusion ⟨by decide +kernel, by decide, by decide, by decide⟩
  · exact .rule ⟨by decide +kernel, by decide, by decide⟩ (by decide)
      ⟨by decide +kernel, ⟨false, by decide +kernel⟩, by decide +kernel⟩

end NestedCss
