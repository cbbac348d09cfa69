import NestedCss.Proofs.References
import NestedCss.Proofs.TidyEdits

set_option autoImplicit false

/-! Sources that are cut into tidy texts. If statements and headers are tidy as they are cut,
so is all that a tree holds: what a statement is split into, values with the reference at
their start replaced, and conditions in normal form. Comments need no care. -/

namespace NestedCss

/-! ### Orderly sources -/

/-- A statement that is tidy on either side of its first colon. -/
structure Text.Orderly (text : Text) : Prop where
  key : Tidy false (.code false) (text.cutAt ':').1
  value : Tidy false (.code true) (text.cutAt ':').2

/-- A text that is cut into orderly statements and tidy headers, in its blocks as well. -/
inductive Body.Orderly : Body → Prop
  | intro {body : Body}
      (statements : ∀ text location, .statement text location ∈ body.segmentation.segments →
        text.Orderly)
      (headers : ∀ header location inner,
        .block header location inner ∈ body.segmentation.segments → header.Tidy true (.code false))
      (blocks : ∀ header location inner,
        .block header location inner ∈ body.segmentation.segments → inner.Orderly) : Orderly body

def Body.isOrderly : Nat → Body → Bool
  | 0, _ => false
  | levels + 1, body => body.segmentation.segments.all fun segment =>
      match segment with
      | .statement text _ =>
          Text.isTidy false (.code false) (text.cutAt ':').1 &&
            Text.isTidy false (.code true) (text.cutAt ':').2
      | .block header _ inner => header.isTidy true (.code false) && inner.isOrderly levels
      | .comment _ _ => true

theorem Body.orderly_of_isOrderly {levels : Nat} {body : Body}
    (checked : body.isOrderly levels = true) : body.Orderly := by
  induction levels generalizing body with
  | zero => cases checked
  | succ levels ih =>
      rw [isOrderly, List.all_eq_true] at checked
      apply Orderly.intro
      · intro text location present
        obtain ⟨key, value⟩ := Bool.and_eq_true_iff.mp (checked _ present)
        exact ⟨Text.tidy_of_isTidy key, Text.tidy_of_isTidy value⟩
      · intro header location inner present
        exact Text.tidy_of_isTidy (Bool.and_eq_true_iff.mp (checked _ present)).1
      · intro header location inner present
        exact ih (Bool.and_eq_true_iff.mp (checked _ present)).2

inductive Node.Tidy : Node → Prop
  | binding {declared : Binding} (value : declared.value.Tidy false (.code true)) :
      Tidy (.binding declared)
  | property {declared : Property} (key : declared.key.Tidy false (.code false))
      (trimmed : declared.key.trim = declared.key)
      (value : declared.value.Tidy false (.code true)) : Tidy (.property declared)
  | comment {text : Text} (unclosed : ¬ ['*', '/'] <:+: text) : Tidy (.comment text)
  | mixin {defined : Mixin} (body : defined.body.Orderly) : Tidy (.mixin defined)
  | media {block : MediaBlock} (preamble : block.query.preamble.Tidy true (.code false))
      (body : block.body.Orderly) : Tidy (.media block)
  | inclusion (request : Inclusion) : Tidy (.inclusion request)
  | rule {selector : Text} {body : Body} (tidy : selector.Tidy true (.code false))
      (inside : body.Orderly) : Tidy (.rule selector body)

private theorem Text.beforeTail?_eq_some {tail text kept : Text}
    (found : beforeTail? tail text = some kept) :
    text = kept ++ tail := by
  unfold beforeTail? at found
  split at found
  · rename_i ends
    obtain ⟨front, same⟩ := List.isSuffixOf_iff_suffix.mp ends
    injection found with taken
    rw [← same, List.length_append, Nat.add_sub_cancel, List.take_left] at taken
    rw [← taken, same]
  · cases found

private theorem Text.afterLead?_eq_some {lead text rest : Text}
    (found : afterLead? lead text = some rest) :
    text = lead ++ rest := by
  unfold afterLead? at found
  split at found
  · rename_i leads
    obtain ⟨back, same⟩ := List.isPrefixOf_iff_prefix.mp leads
    injection found with dropped
    rw [← same, List.drop_left] at dropped
    rw [← dropped, same]
  · cases found

private theorem Binding.tidy_value {text : Text} (orderly : text.Orderly) (location : Location) :
    (Binding.ofStatement text location).value.Tidy false (.code true) := by
  have value := orderly.value.trim
  unfold Binding.ofStatement splitDeclaration
  simp only
  split
  · rename_i kept found
    rw [Text.beforeTail?_eq_some found] at value
    exact (value.of_append_bang (by decide)).trim
  · exact value

private theorem Node.tidy_ofStatement {text : Text} (orderly : text.Orderly) (location : Location) :
    (Node.ofStatement text location).Tidy := by
  unfold ofStatement
  split
  · exact .inclusion _
  · split
    · exact .binding (Binding.tidy_value orderly location)
    · exact .property orderly.key.trim (Text.trim_trim _) orderly.value.trim

private theorem MediaQuery.tidy_preamble {query : Text} (tidy : query.Tidy true (.code false)) :
    (MediaQuery.ofText query).preamble.Tidy true (.code false) := by
  unfold ofText
  split
  · rename_i inner found
    obtain ⟨_, same⟩ := group?_eq_some_iff.mp found
    have bare := tidy.trim.reblanked (.dropBlanks _)
    rw [same, Text.dropBlanks_cons_of_solid (by decide), Text.dropBlanks_append,
      Text.dropBlanks_cons_of_solid (by decide)] at bare
    have written := Text.Tidy.plain_append (by decide : Text.Plain "@media".toList) bare false
    exact written
  · exact Text.Tidy.plain_append (by decide : Text.Plain "@media ".toList)
      (tidy.reblanked (.squeeze query)) false

private theorem Node.tidy_ofBlock {header : Text} {body : Body}
    (tidy : header.Tidy true (.code false))
    (orderly : body.Orderly) : (Node.ofBlock header body).Tidy := by
  unfold ofBlock
  split
  · exact .mixin orderly
  · split
    · rename_i query found
      rw [Text.afterLead?_eq_some found] at tidy
      exact .media (MediaQuery.tidy_preamble (tidy.of_append (by decide))) orderly
    · exact .rule tidy orderly

private theorem Body.Orderly.tidy_of_mem {body : Body} (orderly : body.Orderly) :
    ∀ node ∈ body.nodes, node.Tidy := by
  obtain ⟨statements, headers, blocks⟩ := orderly
  intro node present
  obtain ⟨segment, member, rfl⟩ := List.mem_map.mp present
  cases segment with
  | statement text location => exact Node.tidy_ofStatement (statements text location member) location
  | block header location inner =>
      exact Node.tidy_ofBlock (headers header location inner member)
        (blocks header location inner member)
  | comment text location => exact .comment (body.unclosed_of_mem member)

private theorem Node.Tidy.orderly_of_body? {node : Node} (tidy : node.Tidy) {inner : Body}
    (carried : node.body? = some inner) : inner.Orderly := by
  cases tidy with
  | mixin body =>
      injection carried with same
      exact same ▸ body
  | media _ body =>
      injection carried with same
      exact same ▸ body
  | rule _ inside =>
      injection carried with same
      exact same ▸ inside
  | binding _ => cases carried
  | property _ _ _ => cases carried
  | comment _ => cases carried
  | inclusion _ => cases carried

private theorem tidy_kept : KeptByReading Node.Tidy (RuleTree.MadeOf Node.Tidy) :=
  madeOf_kept fun _ _ tidy carried => (tidy.orderly_of_body? carried).tidy_of_mem

private theorem tidy_within_of_mem_turns {options : CompileOptions} {source : Text}
    (orderly : (Body.ofSource source).Orderly) {turn : Turn}
    (present : turn ∈ turns options source) :
    turn.Within Node.Tidy (RuleTree.MadeOf Node.Tidy) := by
  apply tidy_kept.turn (mem_turns_iff.mp present)
  exact ⟨RuleTree.ordered_empty, RuleTree.ordered_empty.root_lt, orderly.tidy_of_mem,
    RuleTree.madeOf_empty⟩

/-! ### References -/

private theorem isNameMember_bland {member : Char} (named : isNameMember member = true) :
    member ≠ '/' ∧ member ≠ ':' ∧ isQuote member = false := by
  refine ⟨?_, ?_, ?_⟩
  · rintro rfl
    cases named.symm.trans (by decide +kernel : isNameMember '/' = false)
  · rintro rfl
    cases named.symm.trans (by decide +kernel : isNameMember ':' = false)
  · by_contra quote
    rw [Bool.not_eq_false, isQuote, Bool.or_eq_true, beq_iff_eq, beq_iff_eq] at quote
    rcases quote with rfl | rfl
    · cases named.symm.trans (by decide +kernel : isNameMember '\x22' = false)
    · cases named.symm.trans (by decide +kernel : isNameMember '\x27' = false)

private theorem Reference.tidy_rest {value : Text} {reference : Reference}
    (refers : Reference.ofValue? value = some reference)
    (tidy : value.Tidy false (.code true)) : reference.rest.Tidy false (.code false) := by
  unfold Reference.ofValue? at refers
  split at refers
  · rename_i rest
    injection refers with same
    subst same
    have named := tidy.tail (by decide) (by decide) (by decide)
    rw [← List.takeWhile_append_dropWhile (p := isNameMember) (l := rest)] at named
    exact named.of_append fun member present =>
      isNameMember_bland (List.mem_takeWhile_imp present)
  · cases refers

private theorem RuleTree.tidy_of_substitute {tree : RuleTree} (made : tree.MadeOf Node.Tidy)
    {here : RuleId} {value meant : Text} {location : Location}
    (tidy : value.Tidy false (.code true))
    (ended : tree.substitute here value location = .ok meant) :
    meant.Tidy false (.code true) := by
  unfold substitute at ended
  cases referring : Reference.ofValue? value.trim with
  | none =>
      simp only [referring] at ended
      injection ended with same
      exact same ▸ tidy.trim
  | some reference =>
      simp only [referring, resolve] at ended
      cases found : tree.lookup here reference.name with
      | none =>
          simp only [found] at ended
          cases ended
      | some bound =>
          simp only [found] at ended
          injection ended with same
          subst same
          obtain ⟨id, _, present⟩ := List.exists_of_findSome?_eq_some found
          cases (made id).bindings reference.name bound present with
          | binding boundTidy =>
              exact boundTidy.append (Reference.tidy_rest referring tidy.trim)

/-! ### Tidy trees -/

structure Rule.Tidy (rule : Rule) : Prop where
  selector : rule.selector.Tidy true (.code false)
  properties : ∀ property, Child.property property ∈ rule.children →
    property.key.Tidy false (.code false) ∧ property.key.trim = property.key ∧
      property.value.Tidy false (.code true)
  comments : ∀ text, Child.comment text ∈ rule.children → ¬ ['*', '/'] <:+: text
  media : ∀ entry ∈ rule.media, entry.block.query.preamble.Tidy true (.code false)

def RuleTree.Tidy (tree : RuleTree) : Prop := ∀ id, (tree.rule id).Tidy

namespace RuleTree

variable {tree : RuleTree}

private theorem tidy_fresh {selector : Text} (tidy : selector.Tidy true (.code false))
    (parent? : Option RuleId) : (Rule.fresh selector parent?).Tidy where
  selector := tidy
  properties := fun _ present => absurd present List.not_mem_nil
  comments := fun _ present => absurd present List.not_mem_nil
  media := fun _ present => absurd present List.not_mem_nil

private theorem tidy_empty : empty.Tidy := forall_rule_empty (tidy_fresh (.nil false) none)

private theorem Tidy.modify (tidy : tree.Tidy) (id : RuleId) {change : Rule → Rule}
    (kept : ∀ rule : Rule, rule.Tidy → (change rule).Tidy) : (tree.modify id change).Tidy :=
  forall_rule_modify tidy id kept

private theorem Tidy.addDetached (tidy : tree.Tidy) (parent : RuleId) {selector : Text}
    (added : selector.Tidy true (.code false)) : (tree.addDetached parent selector).Tidy :=
  forall_rule_addDetached tidy (tidy_fresh added (some parent))

private theorem Tidy.addChild (tidy : tree.Tidy) (here : RuleId) {child : Child}
    (property : ∀ declared, child = .property declared →
      declared.key.Tidy false (.code false) ∧ declared.key.trim = declared.key ∧
        declared.value.Tidy false (.code true))
    (comment : ∀ text, child = .comment text → ¬ ['*', '/'] <:+: text) :
    (tree.addChild here child).Tidy := by
  apply tidy.modify here
  intro rule inner
  refine { inner with properties := ?_, comments := ?_ }
  · intro declared present
    rcases List.mem_append.mp present with old | new
    · exact inner.properties declared old
    · exact property declared (List.mem_singleton.mp new).symm
  · intro text present
    rcases List.mem_append.mp present with old | new
    · exact inner.comments text old
    · exact comment text (List.mem_singleton.mp new).symm

private theorem Tidy.attachMedia (tidy : tree.Tidy) (here : RuleId) {block : MediaBlock}
    (added : block.query.preamble.Tidy true (.code false)) (expansion : RuleId) :
    (tree.attachMedia here block expansion).Tidy := by
  apply tidy.modify here
  intro rule inner
  refine { inner with media := ?_ }
  intro entry present
  rcases List.mem_append.mp present with old | new
  · exact inner.media entry old
  · exact (List.mem_singleton.mp new) ▸ added

private theorem Tidy.leaves (tidy : tree.Tidy) (made : tree.MadeOf Node.Tidy) {site : Site}
    {node : Node} (known : node.Tidy) {next : RuleTree} (leaves : node.Leaves site tree next) :
    next.Tidy := by
  cases leaves with
  | binding declared => exact tidy.modify _ fun rule inner => { inner with }
  | property meant =>
      cases known with
      | property key trimmed value =>
          apply tidy.addChild site.rule
          · rintro _ ⟨⟩
            exact ⟨key, trimmed, tidy_of_substitute made value meant⟩
          · exact fun _ other => by cases other
  | comment text =>
      cases known with
      | comment unclosed =>
          apply tidy.addChild site.rule
          · exact fun _ other => by cases other
          · rintro _ ⟨⟩
            exact unclosed
  | mixin defined => exact tidy.modify _ fun rule inner => { inner with }
  | media block =>
      cases known with
      | media preamble body =>
          have added : expansionSelector.Tidy true (.code false) :=
            .plain (by decide) (by decide) (.nil _)
          exact (tidy.addDetached site.rule added).attachMedia site.rule preamble _
  | inclusion request => exact tidy
  | rule selector body =>
      cases known with
      | rule added inside =>
          apply (tidy.addDetached site.rule added).addChild site.rule
          · exact fun _ other => by cases other
          · exact fun _ other => by cases other

end RuleTree

theorem tidy_of_ofSource {options : CompileOptions} {source : Text} {tree : RuleTree}
    (orderly : (Body.ofSource source).Orderly)
    (ended : (RuleTree.ofSource options source).outcome = .ok tree) : tree.Tidy := by
  refine @Turn.Follow.keeps (fun _ tree => tree.Tidy) _ ?_ [] _ _ (follow_turns ended)
    RuleTree.tidy_empty
  intro turn present past next tidy leaves
  have within := tidy_within_of_mem_turns orderly present
  exact tidy.leaves within.tree within.node leaves

theorem RuleTree.Tidy.tidy_selector {tree : RuleTree} (tidy : tree.Tidy) (here : RuleId) :
    (tree.selector here).Tidy true (.code false) := by
  unfold selector
  induction tree.ancestors here with
  | nil => exact .nil false
  | cons id above ih =>
      rw [List.map_cons, List.foldr_cons]
      split
      · exact ih
      · exact ih.joinSelector (tidy id).selector

end NestedCss
