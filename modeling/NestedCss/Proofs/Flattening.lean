import NestedCss.Proofs.Agreement
import NestedCss.Proofs.Headings
import NestedCss.Proofs.PieceReading

set_option autoImplicit false

/-! Rules nested straight into one another. Such rules declare nothing, so the
innermost body finds the same names in one rule with the composed selector, and
its block is written with the same selector. -/

namespace NestedCss

def nestRules : List Text → Text → Text
  | [], body => body
  | selector :: inner, body => Text.block selector (nestRules inner body)

namespace Writable

variable {selector : Text}

private theorem readBody_block (writable : Writable selector) {inner : Text} (closed : inner.Closed)
    (solid : inner.allBlank = false) (options : CompileOptions) (levels : Nat)
    (surroundings : OnePass.Surroundings) (here : Location) (state : OnePass.State) :
    ∃ place, OnePass.readBody options (levels + 1) surroundings ⟨Text.block selector inner, here⟩
        state =
      OnePass.readNode options (OnePass.readBody options levels) surroundings state
        (.rule selector ⟨inner, place⟩) := by
  obtain ⟨location, single⟩ := writable.segmentation_block closed solid here
  refine ⟨(here.advanceOver selector).advance '{', ?_⟩
  refine OnePass.readBody_of_node (by rw [single]) ?_ state
  rw [single, List.map_singleton, Node.ofSegment, writable.ofBlock_eq]

end Writable

/-! ### Nested rules -/

private theorem nestRules_closed {selectors : List Text} (writable : ∀ selector ∈ selectors,
    Writable selector) {body : Text} (closed : body.Closed) (solid : body.allBlank = false) :
    (nestRules selectors body).Closed ∧ (nestRules selectors body).allBlank = false := by
  induction selectors with
  | nil => exact ⟨closed, solid⟩
  | cons selector inner ih =>
      have inside := ih fun other present => writable other (List.mem_cons_of_mem _ present)
      have begins := (writable selector (List.mem_cons_self ..)).heading
      exact ⟨(begins.whole_block inside.1).closed, Text.allBlank_block _ _⟩

namespace OnePass

private theorem Yield.text_of_nested (selector nested : Text) :
    Yield.text ⟨[], nested, []⟩ selector = nested := by
  simp [Yield.text, blockText]

private theorem outcome_readNode_rule_eq_ok {options : CompileOptions} {reading : Reading}
    {outer : Text} {active : List Text} {state final : State} {selector : Text} {body : Body} :
    (readNode options reading ⟨outer, active⟩ state (.rule selector body)).outcome = .ok final ↔
      ∃ inner, (reading ⟨joinSelector outer selector, active⟩ body
          ⟨.empty :: state.frames, .empty⟩).outcome = .ok inner ∧
        final = ⟨inner.frames.drop 1, { state.yielded with
          nested := state.yielded.nested ++
            inner.yielded.text (joinSelector outer selector) }⟩ := by
  simp only [readNode, readScoped, Traced.map_map, Traced.outcome_map_eq_ok]
  constructor
  · rintro ⟨inner, read, result⟩
    exact ⟨inner, read, result.symm⟩
  · rintro ⟨inner, read, result⟩
    exact ⟨inner, read, result.symm⟩

/-- What comes of nested rules is the text of the innermost body, read under the
composed selector with an empty frame for each rule around it. -/
theorem readBody_nestRules (options : CompileOptions) {body : Text} (closed : body.Closed)
    (solid : body.allBlank = false) (active : List Text) (selectors : List Text) :
    ∀ (selector outer : Text) (levels : Nat) (here : Location) (state final : State),
      (∀ other ∈ selector :: selectors, Writable other) →
      (readBody options levels ⟨outer, active⟩ ⟨nestRules (selector :: selectors) body, here⟩
        state).outcome = .ok final →
      ∃ room place inner, room < levels ∧
        (readBody options room ⟨(selector :: selectors).foldl joinSelector outer, active⟩
          ⟨body, place⟩ ⟨.empty :: (List.replicate selectors.length .empty ++ state.frames),
            .empty⟩).outcome = .ok inner ∧
        final.yielded = { state.yielded with
          nested := state.yielded.nested ++
            inner.yielded.text ((selector :: selectors).foldl joinSelector outer) } := by
  induction selectors with
  | nil =>
      intro selector outer levels here state final writable ended
      cases levels with
      | zero => cases ended
      | succ levels =>
          have own := writable selector (List.mem_cons_self ..)
          obtain ⟨place, same⟩ := own.readBody_block closed solid options levels ⟨outer, active⟩
            here state
          rw [nestRules, nestRules, same] at ended
          obtain ⟨inner, read, result⟩ := outcome_readNode_rule_eq_ok.mp ended
          exact ⟨levels, place, inner, Nat.lt_succ_self levels, read, by rw [result]; rfl⟩
  | cons second others ih =>
      intro selector outer levels here state final writable ended
      cases levels with
      | zero => cases ended
      | succ levels =>
          have own := writable selector (List.mem_cons_self ..)
          have deeper : ∀ other ∈ second :: others, Writable other :=
            fun other present => writable other (List.mem_cons_of_mem _ present)
          obtain ⟨closedInside, solidInside⟩ := nestRules_closed deeper closed solid
          obtain ⟨place, same⟩ := own.readBody_block closedInside solidInside options levels
            ⟨outer, active⟩ here state
          rw [nestRules, same] at ended
          obtain ⟨between, read, result⟩ := outcome_readNode_rule_eq_ok.mp ended
          obtain ⟨room, origin, inner, within, readInside, yields⟩ :=
            ih second (joinSelector outer selector) levels place _ between deeper read
          -- The frame of this rule is the outermost of the empty ones.
          refine ⟨room, origin, inner, Nat.lt_succ_of_lt within, ?_, ?_⟩
          · rw [List.length_cons, List.replicate_succ', List.append_assoc]
            exact readInside
          · have text : between.yielded.text (joinSelector outer selector) =
                inner.yielded.text ((second :: others).foldl joinSelector
                  (joinSelector outer selector)) := by
              rw [yields]
              exact Yield.text_of_nested _ _
            rw [result, text]
            rfl

private theorem covers_replicate (count : Nat) (frame outermost : Frame) :
    Frames.Covers (true :: List.replicate count false)
      (frame :: (List.replicate count .empty ++ [outermost])) [frame, outermost] := by
  refine .shared (.refl frame) ?_
  induction count with
  | zero => exact .outermost (.refl outermost)
  | succ count ih => exact .idle ih

end OnePass

private theorem plain_joinSelector {outer selector : Text} (outside : outer.Plain)
    (inside : selector.Plain) : (joinSelector outer selector).Plain := by
  intro member present
  rcases mem_of_mem_joinSelector present with above | ⟨own, _⟩ | blank
  · exact outside member above
  · exact inside member own
  · subst blank
    exact ⟨by decide, by decide⟩

private theorem foldl_joinSelector_keeps (selectors : List Text) :
    ∀ outer : Text, (∀ selector ∈ selectors, selector.Plain) → outer.Plain →
      outer.trim = outer → parentMark ∉ outer →
        (selectors.foldl joinSelector outer).Plain ∧
          (selectors.foldl joinSelector outer).trim = selectors.foldl joinSelector outer ∧
          parentMark ∉ selectors.foldl joinSelector outer := by
  induction selectors with
  | nil => exact fun outer _ plain trimmed unmarked => ⟨plain, trimmed, unmarked⟩
  | cons selector inner ih =>
      intro outer written plain trimmed unmarked
      have here := plain_joinSelector plain (written selector (List.mem_cons_self ..))
      exact ih (joinSelector outer selector)
        (fun other present => written other (List.mem_cons_of_mem _ present)) here
        (trim_joinSelector outer selector) (parentMark_not_mem_joinSelector selector unmarked)

/-- A stylesheet that is one chain of rules around a body compiles, if it compiles,
like the body in one rule with the composed selector. -/
theorem compileSource_nestRules (options : CompileOptions) (selectors : List Text)
    (body css : Text) (nested : selectors ≠ [])
    (writable : ∀ selector ∈ selectors, Writable selector)
    (undirected : ¬ Node.mixinMark <+: selectors.foldl joinSelector [] ∧
      ¬ Node.mediaMark <+: selectors.foldl joinSelector [])
    (solid : body.allBlank = false)
    (faultless : (Body.ofSource body).segmentation.fault? = none)
    (settled : ∃ afterColon, (Mode.code false).after body = .code afterColon)
    (compiled : (compileSource options (nestRules selectors body)).outcome = .ok css) :
    (compileSource options (Text.block (selectors.foldl joinSelector []) body)).outcome =
      .ok css := by
  have closed : body.Closed := ⟨(Body.ofSource body).fault?_eq_none_iff.mp faultless, settled⟩
  have empty : Text.Plain [] := fun member present => absurd present List.not_mem_nil
  obtain ⟨plain, trimmed, unmarked⟩ := foldl_joinSelector_keeps selectors []
    (fun selector present => (writable selector present).plain) empty rfl List.not_mem_nil
  have composed : Writable (selectors.foldl joinSelector []) := ⟨trimmed, plain, undirected⟩
  obtain ⟨final, read, written⟩ := outcome_compileSource_eq_ok.mp compiled
  cases selectors with
  | nil => exact absurd rfl nested
  | cons selector inner =>
      obtain ⟨room, place, last, within, readInside, yields⟩ :=
        OnePass.readBody_nestRules options closed solid [] inner selector [] (nestingLimit + 1)
          .start ⟨[.empty], .empty⟩ final writable read
      have resolved : joinSelector [] ((selector :: inner).foldl joinSelector []) =
          (selector :: inner).foldl joinSelector [] := joinSelector_nil _ unmarked trimmed
      obtain ⟨origin, same⟩ := composed.readBody_block closed solid options nestingLimit ⟨[], []⟩
        .start ⟨[.empty], .empty⟩
      obtain ⟨other, readToo, matching⟩ :=
        OnePass.readBody_carries options room nestingLimit (Nat.le_of_lt_succ within) _ _ [] []
          ⟨body, place⟩ ⟨body, origin⟩
          ⟨.empty :: (List.replicate inner.length .empty ++ [.empty]), .empty⟩
          ⟨[.empty, .empty], .empty⟩ last (Frames.innermost_shared _)
          (List.Subset.refl _) rfl ⟨OnePass.covers_replicate inner.length .empty .empty, rfl⟩
          readInside
      have text : final.yielded.text [] =
          other.yielded.text ((selector :: inner).foldl joinSelector []) := by
        rw [yields, ← matching.yielded]
        exact OnePass.Yield.text_of_nested _ _
      refine outcome_compileSource_eq_ok.mpr ⟨⟨other.frames.drop 1,
        ⟨[], other.yielded.text ((selector :: inner).foldl joinSelector []), []⟩⟩, ?_, ?_⟩
      · rw [Body.ofSource, same]
        exact OnePass.outcome_readNode_rule_eq_ok.mpr
          ⟨other, by rw [resolved]; exact readToo, by rw [resolved]; rfl⟩
      · rw [OnePass.Yield.text_of_nested, ← written, text]

theorem compileSource_nestRules_of_two :
    (compileSource {} (Text.block "a:b, c".toList
      "d:e;@media f\x7bg:h\x7di\x7bj:k\x7d".toList)).outcome =
      .ok "a:b, c\x7bd:e;\x7da:b, c i\x7bj:k;\x7d@media f\x7ba:b, c\x7bg:h;\x7d\x7d".toList := by
  have written : ∀ selector ∈ ["a".toList, "&:b, c".toList], Writable selector := by
    intro selector present
    simp only [List.mem_cons, List.not_mem_nil, or_false] at present
    rcases present with rfl | rfl
    · exact ⟨by decide +kernel, by decide +kernel, by decide +kernel⟩
    · exact ⟨by decide +kernel, by decide +kernel, by decide +kernel⟩
  refine compileSource_nestRules {} ["a".toList, "&:b, c".toList]
    "d:e;@media f\x7bg:h\x7di\x7bj:k\x7d".toList _ (List.cons_ne_nil _ _) written ?_ ?_ ?_ ?_ ?_
  · decide +kernel
  · decide +kernel
  · decide +kernel
  · exact ⟨false, by decide +kernel⟩
  · decide +kernel

end NestedCss
