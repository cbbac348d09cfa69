import NestedCss.OnePass
import NestedCss.Proofs.Ancestry

set_option autoImplicit false

/-! The text of a rule and of all that is below it. In an ordered tree it is the
block of the rule, then the texts of its nested rules, then its media wrappers,
and it depends on nothing but the rules below and on their full selectors. -/

namespace NestedCss

namespace Sheet

theorem text_flatMap {α : Type} (sheets : α → Sheet) (members : List α) :
    Sheet.text (members.flatMap sheets) =
      members.flatMap fun member => Sheet.text (sheets member) := by
  induction members with
  | nil => rfl
  | cons member rest ih => rw [List.flatMap_cons, List.flatMap_cons, text_append, ih]

theorem isEmpty_text (items : Sheet) : (Sheet.text items).isEmpty = items.isEmpty := by
  cases items with
  | nil => rfl
  | cons item rest => cases item <;> simp [Sheet.text, Item.text]

theorem text_block (selector : Text) (lines : List Line) :
    Sheet.text (Sheet.block selector lines) = OnePass.blockText selector lines := by
  unfold Sheet.block OnePass.blockText
  split
  · rfl
  · simp [Sheet.text, Item.text]

theorem text_media (query : MediaQuery) (items : Sheet) :
    Sheet.text (Sheet.media query items) = OnePass.mediaText query (Sheet.text items) := by
  unfold Sheet.media OnePass.mediaText
  rw [isEmpty_text]
  split
  · rfl
  · simp [Sheet.text, Item.text]

end Sheet

namespace RuleTree

theorem nested_mem_links {rule : Rule} {link : RuleId} (present : link ∈ rule.nested) :
    link ∈ rule.links := List.mem_append_left _ present

theorem expansion_mem_links {rule : Rule} {entry : MediaEntry} (present : entry ∈ rule.media) :
    entry.expansion ∈ rule.links :=
  List.mem_append_right _ (List.mem_map_of_mem present)

theorem sheetWithin_congr {tree : RuleTree} {here : RuleId} {outer inner : Nat}
    (below : ∀ link ∈ (tree.rule here).links,
      tree.sheetWithin outer link = tree.sheetWithin inner link) :
    tree.sheetWithin (outer + 1) here = tree.sheetWithin (inner + 1) here := by
  rw [sheetWithin, sheetWithin]
  congr 1
  · congr 1
    exact List.flatMap_congr fun link present => below link (nested_mem_links present)
  · refine List.flatMap_congr fun entry present => ?_
    rw [below entry.expansion (expansion_mem_links present)]

theorem Ordered.sheetWithin_eq {tree : RuleTree} (ordered : tree.Ordered) (levels : Nat) :
    ∀ here, here < tree.size → tree.size - here ≤ levels →
      tree.sheetWithin levels here = tree.sheetWithin (tree.size - here) here := by
  induction levels using Nat.strong_induction_on with
  | _ levels ih =>
      intro here inside enough
      rcases Nat.eq_or_lt_of_le enough with same | more
      · rw [same]
      · obtain ⟨outer, rfl⟩ := Nat.exists_eq_add_one_of_ne_zero (Nat.ne_zero_of_lt more)
        obtain ⟨inner, exact⟩ := Nat.exists_eq_add_one_of_ne_zero (Nat.sub_ne_zero_of_lt inside)
        have below : ∀ link ∈ (tree.rule here).links,
            tree.sheetWithin outer link = tree.sheetWithin inner link := by
          intro link present
          obtain ⟨younger, within⟩ := ordered.link_gt here inside link present
          have fits : tree.size - link ≤ inner := by
            have closer := Nat.sub_lt_sub_left (Nat.lt_trans younger within) younger
            rw [exact] at closer
            exact Nat.le_of_lt_succ closer
          rw [exact] at more
          have fewer := Nat.lt_of_succ_lt_succ more
          rw [ih outer (Nat.lt_succ_self outer) link within (fits.trans fewer.le),
            ih inner (fewer.trans (Nat.lt_succ_self outer)) link within fits]
        rw [exact]
        exact sheetWithin_congr below

def textBelow (tree : RuleTree) (here : RuleId) : Text :=
  Sheet.text (tree.sheetWithin (tree.size - here) here)

/-- What a rule contributes by itself and through the rules below it. -/
def yielded (tree : RuleTree) (here : RuleId) : OnePass.Yield where
  lines := (tree.rule here).lines
  nested := (tree.rule here).nested.flatMap tree.textBelow
  media := (tree.rule here).media.flatMap fun entry =>
    OnePass.mediaText entry.block.query (tree.textBelow entry.expansion)

theorem Ordered.textBelow_eq {tree : RuleTree} (ordered : tree.Ordered) {here : RuleId}
    (inside : here < tree.size) :
    tree.textBelow here = (tree.yielded here).text (tree.selector here) := by
  obtain ⟨inner, exact⟩ := Nat.exists_eq_add_one_of_ne_zero (Nat.sub_ne_zero_of_lt inside)
  have below : ∀ link ∈ (tree.rule here).links,
      Sheet.text (tree.sheetWithin inner link) = tree.textBelow link := by
    intro link present
    obtain ⟨younger, within⟩ := ordered.link_gt here inside link present
    have closer := Nat.sub_lt_sub_left (Nat.lt_trans younger within) younger
    rw [exact] at closer
    rw [textBelow, ordered.sheetWithin_eq inner link within (Nat.le_of_lt_succ closer)]
  rw [textBelow, exact, sheetWithin]
  simp only [Sheet.text_append, Sheet.text_block, Sheet.text_flatMap, Sheet.text_media,
    OnePass.Yield.text, yielded]
  congr 1
  · congr 1
    exact List.flatMap_congr fun link present => below link (nested_mem_links present)
  · refine List.flatMap_congr fun entry present => ?_
    rw [below entry.expansion (expansion_mem_links present)]

theorem Ordered.text_eq {tree : RuleTree} (ordered : tree.Ordered) :
    tree.text = (tree.yielded root).text [] := by
  have whole := ordered.textBelow_eq ordered.root_lt
  rw [selector_of_outermost ordered.root_parent] at whole
  exact whole

end RuleTree
end NestedCss
