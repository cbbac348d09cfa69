import NestedCss.Proofs.Linkage

set_option autoImplicit false

/-! What a sheet says and where. The flat sheet of a tree holds one block for each rule
that selects something and says something, under the media conditions that are passed on
the way down to the rule, and it holds nothing else. -/

namespace NestedCss

/-- The line that a child of a rule is written as. Declarations without a value and blank
comments are not written. -/
inductive Child.Writes : Child → Line → Prop
  | declaration {property : Property}
      (wanted : property.value.trim ∉ [[], "null".toList, "undefined".toList]) :
      Writes (.property property) (.declaration property.key property.value.trim)
  | comment {text : Text} (solid : ∃ member ∈ text, isBlank member = false) :
      Writes (.comment text) (.comment text)

theorem Child.line?_eq_some_iff (child : Child) (line : Line) :
    child.line? = some line ↔ child.Writes line := by
  constructor
  · intro written
    cases child with
    | property property =>
        simp only [line?, Property.written?] at written
        split at written
        · cases written
        · rename_i wanted
          injection written with same
          subst same
          refine .declaration fun present => wanted ?_
          simpa [omittedValues] using present
    | comment text =>
        simp only [line?] at written
        split at written
        · cases written
        · rename_i solid
          injection written with same
          subst same
          refine .comment ?_
          simpa [Text.allBlank] using solid
    | rule id => cases written
  · rintro (⟨wanted⟩ | ⟨solid⟩)
    · rename_i property
      have kept : (property.value.trim.isEmpty ||
          omittedValues.contains property.value.trim) = false := by
        simpa [omittedValues] using wanted
      simp only [line?, Property.written?, kept, Bool.false_eq_true, if_false, Option.map_some]
    · rename_i text
      have kept : Text.allBlank text = false := by
        simpa [Text.allBlank] using solid
      simp only [line?, kept, Bool.false_eq_true, if_false]

inductive Child.Written : List Child → List Line → Prop
  | nil : Written [] []
  | line {child : Child} {line : Line} {children : List Child} {lines : List Line}
      (writes : child.Writes line) (rest : Written children lines) :
      Written (child :: children) (line :: lines)
  | silent {child : Child} {children : List Child} {lines : List Line}
      (nothing : ∀ line, ¬ child.Writes line) (rest : Written children lines) :
      Written (child :: children) lines

private theorem Child.written_filterMap (children : List Child) :
    Child.Written children (children.filterMap Child.line?) := by
  induction children with
  | nil => exact .nil
  | cons child children ih =>
      cases spoken : child.line? with
      | none =>
          rw [List.filterMap_cons_none spoken]
          refine .silent (fun line writes => ?_) ih
          rw [(child.line?_eq_some_iff line).mpr writes] at spoken
          cases spoken
      | some line =>
          rw [List.filterMap_cons_some spoken]
          exact .line ((child.line?_eq_some_iff line).mp spoken) ih

inductive Item.Solid : Item → Prop
  | block {selector : Text} {lines : List Line} (selecting : selector ≠ []) (spoken : lines ≠ []) :
      Solid (.block selector lines)
  | media (query : MediaQuery) {items : Sheet} (wrapping : items ≠ [])
      (inside : ∀ item ∈ items, item.Solid) : Solid (.media query items)

/-- A block of a sheet, with the conditions of the media wrappers around it, outermost
first. -/
structure Placement where
  wrappers : List MediaQuery
  selector : Text
  lines : List Line

mutual

def Item.placements (outer : List MediaQuery) : Item → List Placement
  | .block selector lines => [⟨outer, selector, lines⟩]
  | .media query items => Sheet.placements (outer ++ [query]) items

/-- The blocks of a sheet that stands inside the wrappers `outer`, in the order in which
they are written. -/
def Sheet.placements (outer : List MediaQuery) : List Item → List Placement
  | [] => []
  | item :: rest => item.placements outer ++ Sheet.placements outer rest

end

namespace Sheet

variable (outer : List MediaQuery)

private theorem placements_append (first second : Sheet) :
    Sheet.placements outer (first ++ second) =
      Sheet.placements outer first ++ Sheet.placements outer second := by
  induction first with
  | nil => rfl
  | cons item rest ih => rw [List.cons_append, placements, placements, ih, List.append_assoc]

private theorem placements_flatMap {α : Type} (sheets : α → Sheet) (members : List α) :
    Sheet.placements outer (members.flatMap sheets) =
      members.flatMap fun member => Sheet.placements outer (sheets member) := by
  induction members with
  | nil => rfl
  | cons member rest ih => rw [List.flatMap_cons, List.flatMap_cons, placements_append, ih]

private theorem placements_media (query : MediaQuery) (items : Sheet) :
    Sheet.placements outer (Sheet.media query items) =
      Sheet.placements (outer ++ [query]) items := by
  cases items with
  | nil => rfl
  | cons item rest =>
      rw [Sheet.media, List.isEmpty_cons, if_neg Bool.false_ne_true, placements, Item.placements,
        placements, List.append_nil]

private theorem solid_block (selector : Text) (lines : List Line) :
    ∀ item ∈ Sheet.block selector lines, item.Solid := by
  intro item present
  unfold Sheet.block at present
  split at present
  · cases present
  · rename_i kept
    obtain ⟨selecting, spoken⟩ : selector ≠ [] ∧ lines ≠ [] := by simpa using kept
    exact List.mem_singleton.mp present ▸ .block selecting spoken

private theorem solid_media (query : MediaQuery) {items : Sheet}
    (inside : ∀ item ∈ items, item.Solid) :
    ∀ item ∈ Sheet.media query items, item.Solid := by
  intro item present
  unfold Sheet.media at present
  split at present
  · cases present
  · rename_i kept
    have wrapping : items ≠ [] := by simpa using kept
    exact List.mem_singleton.mp present ▸ .media query wrapping inside

end Sheet

namespace RuleTree

variable {tree : RuleTree}

private theorem solid_sheetWithin (tree : RuleTree) (levels : Nat) :
    ∀ here, ∀ item ∈ tree.sheetWithin levels here, item.Solid := by
  induction levels with
  | zero => exact fun here item present => absurd present (List.not_mem_nil)
  | succ levels ih =>
      intro here item present
      rw [sheetWithin, List.mem_append, List.mem_append] at present
      rcases present with (own | nested) | wrapped
      · exact Sheet.solid_block _ _ item own
      · obtain ⟨link, _, inside⟩ := List.mem_flatMap.mp nested
        exact ih link item inside
      · obtain ⟨entry, _, inside⟩ := List.mem_flatMap.mp wrapped
        exact Sheet.solid_media _ (ih entry.expansion) item inside

def entryOf? (tree : RuleTree) (id : RuleId) : Option MediaEntry :=
  (tree.rule id).parent?.bind fun parent =>
    (tree.rule parent).media.find? fun entry => entry.expansion = id

def wrappers (tree : RuleTree) (id : RuleId) : List MediaQuery :=
  (tree.ancestors id).reverse.filterMap fun passed =>
    (tree.entryOf? passed).map fun entry => entry.block.query

def placement? (tree : RuleTree) (id : RuleId) : Option Placement :=
  if tree.selector id = [] ∨ (tree.rule id).lines = [] then none
  else some ⟨tree.wrappers id, tree.selector id, (tree.rule id).lines⟩

private theorem Ordered.wrappers_of_parent (ordered : tree.Ordered) {id parent : RuleId}
    (above : (tree.rule id).parent? = some parent) :
    tree.wrappers id =
      tree.wrappers parent ++ ((tree.entryOf? id).map fun entry => entry.block.query).toList := by
  rw [wrappers, ordered.ancestors_of_parent above, List.reverse_cons, List.filterMap_append,
    wrappers]
  cases found : tree.entryOf? id with
  | none => simp [found]
  | some entry => simp [found]

private theorem wrappers_of_outermost {id : RuleId} (outermost : (tree.rule id).parent? = none) :
    tree.wrappers id = [] := by
  have none : tree.entryOf? id = none := by rw [entryOf?, outermost]; rfl
  simp [wrappers, ancestors_of_outermost outermost, none]

private theorem Linked.entryOf?_of_nested (linked : tree.Linked) {here id : RuleId}
    (present : id ∈ (tree.rule here).nested) : tree.entryOf? id = none := by
  have above := (linked.mem_links_iff here id).mp (nested_mem_links present)
  rw [entryOf?, above, Option.bind_some, List.find?_eq_none]
  intro entry listed same
  have apart := (List.nodup_append.mp (linked.nodup_links here)).2.2
  exact apart id present entry.expansion (List.mem_map_of_mem listed) (of_decide_eq_true same).symm

private theorem Linked.entryOf?_of_expansion (linked : tree.Linked) {here : RuleId}
    {entry : MediaEntry}
    (present : entry ∈ (tree.rule here).media) : tree.entryOf? entry.expansion = some entry := by
  have above := (linked.mem_links_iff here entry.expansion).mp (expansion_mem_links present)
  rw [entryOf?, above, Option.bind_some]
  have occurs : ((tree.rule here).media.find? fun other =>
      other.expansion = entry.expansion).isSome :=
    List.find?_isSome.mpr ⟨entry, present, decide_eq_true rfl⟩
  obtain ⟨found, search⟩ := Option.isSome_iff_exists.mp occurs
  have same : found.expansion = entry.expansion := by
    simpa using List.find?_some search
  have distinct := (List.nodup_append.mp (linked.nodup_links here)).2.1
  rw [search, List.inj_on_of_nodup_map distinct (List.mem_of_find?_eq_some search) present same]

private theorem placements_block (tree : RuleTree) (id : RuleId) :
    Sheet.placements (tree.wrappers id) (Sheet.block (tree.selector id) (tree.rule id).lines) =
      (tree.placement? id).toList := by
  unfold Sheet.block placement?
  simp only [Bool.or_eq_true, List.isEmpty_iff]
  split
  · rfl
  · rfl

/-- The blocks of a rule and of all that is below it are those of the rules that are
passed. -/
theorem Linked.placements_sheetWithin (linked : tree.Linked) (ordered : tree.Ordered)
    (levels : Nat) : ∀ here,
    Sheet.placements (tree.wrappers here) (tree.sheetWithin levels here) =
      (tree.passed levels here).filterMap tree.placement? := by
  induction levels with
  | zero => exact fun _ => rfl
  | succ levels ih =>
      intro here
      have nested : ∀ link ∈ (tree.rule here).nested,
          Sheet.placements (tree.wrappers here) (tree.sheetWithin levels link) =
            (tree.passed levels link).filterMap tree.placement? := by
        intro link present
        have above := (linked.mem_links_iff here link).mp (nested_mem_links present)
        have same := ordered.wrappers_of_parent above
        rw [linked.entryOf?_of_nested present, Option.map_none, Option.toList_none,
          List.append_nil] at same
        rw [← ih link, same]
      have wrapped : ∀ entry ∈ (tree.rule here).media,
          Sheet.placements (tree.wrappers here)
              (Sheet.media entry.block.query (tree.sheetWithin levels entry.expansion)) =
            (tree.passed levels entry.expansion).filterMap tree.placement? := by
        intro entry present
        have above := (linked.mem_links_iff here entry.expansion).mp (expansion_mem_links present)
        have longer := ordered.wrappers_of_parent above
        rw [linked.entryOf?_of_expansion present, Option.map_some, Option.toList_some] at longer
        rw [Sheet.placements_media, ← ih entry.expansion, longer]
      rw [sheetWithin, passed, Sheet.placements_append, Sheet.placements_append,
        Sheet.placements_flatMap, Sheet.placements_flatMap, placements_block,
        List.flatMap_congr nested, List.flatMap_congr wrapped, ← List.singleton_append,
        List.filterMap_append, List.filterMap_flatMap, Rule.links, List.flatMap_append,
        List.flatMap_map, List.append_assoc]
      cases found : tree.placement? here with
      | none => simp [found]
      | some placed => simp [found]

/-- A sheet that says what the rules of a tree say, each thing once and in its place. -/
structure Rendered (tree : RuleTree) (items : Sheet) : Prop where
  text : tree.text = Sheet.text items
  solid : ∀ item ∈ items, item.Solid
  /-- The blocks are those of the rules in some order, each rule once. -/
  placed : ∃ order : List RuleId, order.Perm (List.range tree.size) ∧
    Sheet.placements [] items = order.filterMap tree.placement?
  lines : ∀ id, Child.Written (tree.rule id).children (tree.rule id).lines

theorem Linked.rendered (linked : tree.Linked) (ordered : tree.Ordered) :
    tree.Rendered tree.sheet where
  text := rfl
  solid := tree.solid_sheetWithin tree.size root
  placed := by
    refine ⟨tree.passed tree.size root, linked.perm_passed ordered, ?_⟩
    rw [← linked.placements_sheetWithin ordered, wrappers_of_outermost ordered.root_parent, sheet]
  lines := fun id => Child.written_filterMap (tree.rule id).children

/-- The text of every stylesheet that is read loses nothing and says nothing twice. -/
theorem exists_rendered_of_ofSource {options : CompileOptions} {source : Text} {tree : RuleTree}
    (ended : (ofSource options source).outcome = .ok tree) :
    ∃ items, (compileSource options source).outcome = .ok (Sheet.text items) ∧
      tree.Rendered items :=
  ⟨tree.sheet, Traced.outcome_map_eq_ok.mpr ⟨tree, ended, rfl⟩,
    (linked_ofSource ended).rendered (ordered_ofSource ended)⟩

/-- A declaration and a comment that are not written, and media blocks inside one another,
one of them from a mixin. -/
theorem rendered_of_nested_media :
    ∃ tree items, (ofSource {} ("@mixin m\x7b@media n\x7bo:p\x7d\x7da\x7bb:c;d:null;/* *//*e*/" ++
        "&:f\x7bg:h\x7d@media i\x7bj:k;@include m\x7d\x7d").toList).outcome = .ok tree ∧
      Sheet.text items = ("a\x7bb:c;/*e*/\x7da:f\x7bg:h;\x7d@media i\x7ba\x7bj:k;\x7d" ++
        "@media n\x7ba\x7bo:p;\x7d\x7d\x7d").toList ∧
      tree.Rendered items := by
  have written : (compileSource {} ("@mixin m\x7b@media n\x7bo:p\x7d\x7da\x7bb:c;d:null;/* *//*e*/" ++
      "&:f\x7bg:h\x7d@media i\x7bj:k;@include m\x7d\x7d").toList).outcome =
        .ok ("a\x7bb:c;/*e*/\x7da:f\x7bg:h;\x7d@media i\x7ba\x7bj:k;\x7d" ++
          "@media n\x7ba\x7bo:p;\x7d\x7d\x7d").toList := by
    decide +kernel
  obtain ⟨tree, ended, _⟩ := Traced.outcome_map_eq_ok.mp written
  obtain ⟨items, same, rendered⟩ := exists_rendered_of_ofSource ended
  rw [written] at same
  injection same with same
  exact ⟨tree, items, ended, same.symm, rendered⟩

end RuleTree

end NestedCss
