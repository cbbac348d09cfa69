import NestedCss.Proofs.Pieces
import NestedCss.Proofs.Transfer

set_option autoImplicit false

/-! Reading a body piece by piece. A whole text is read to its end before what
follows it, so one piece of a body can be put in place of another that leads to a
state with the same names and the same contribution. -/

namespace NestedCss.OnePass

variable {options : CompileOptions} {levels : Nat} {surroundings : Surroundings}

theorem readBody_append {first : Text} (whole : first.Whole) (rest : Text) (here : Location)
    (state : State) :
    readBody options (levels + 1) surroundings ⟨first ++ rest, here⟩ state =
      (readBody options (levels + 1) surroundings ⟨first, here⟩ state).andThen
        (readBody options (levels + 1) surroundings ⟨rest, here.advanceOver first⟩) :=
  Traced.foldNodes_append whole rest here _ state

theorem readBody_of_node {body : Body} {node : Node} (faultless : body.segmentation.fault? = none)
    (only : body.segmentation.segments.map Node.ofSegment = [node]) (state : State) :
    readBody options (levels + 1) surroundings body state =
      readNode options (readBody options levels) surroundings state node := by
  simp only [readBody, readSegmentation, Traced.foldNodes, only, faultless, Traced.foldl]
  simp

theorem readBody_replace {shape : List Bool} (innermost : Frames.Innermost shape)
    {before piece instead after : Text} {here : Location} (leads : before.Whole)
    (whole : piece.Whole) (wholeToo : instead.Whole) {state middle final : State}
    (reading : (readBody options (levels + 1) surroundings ⟨before, here⟩ state).outcome =
      .ok middle)
    (swap : ∀ reached,
      (readBody options (levels + 1) surroundings ⟨piece, here.advanceOver before⟩
        middle).outcome = .ok reached →
      ∃ other, (readBody options (levels + 1) surroundings ⟨instead, here.advanceOver before⟩
        middle).outcome = .ok other ∧ reached.Matches shape other)
    (ended : (readBody options (levels + 1) surroundings ⟨before ++ (piece ++ after), here⟩
      state).outcome = .ok final) :
    ∃ last, (readBody options (levels + 1) surroundings ⟨before ++ (instead ++ after), here⟩
      state).outcome = .ok last ∧ final.Matches shape last := by
  rw [readBody_append leads, Traced.outcome_andThen_eq_ok] at ended
  obtain ⟨between, readingToo, remaining⟩ := ended
  have same : middle = between := Except.ok.inj (reading.symm.trans readingToo)
  subst same
  rw [readBody_append whole, Traced.outcome_andThen_eq_ok] at remaining
  obtain ⟨reached, replaced, finished⟩ := remaining
  obtain ⟨other, replacing, matching⟩ := swap reached replaced
  obtain ⟨last, finishedToo, matchingLast⟩ :=
    readBody_carries options (levels + 1) (levels + 1) (Nat.le_refl _) shape surroundings.selector
      surroundings.active surroundings.active ⟨after, (here.advanceOver before).advanceOver piece⟩
      ⟨after, (here.advanceOver before).advanceOver instead⟩ reached other final innermost
      (List.Subset.refl _) rfl matching finished
  refine ⟨last, ?_, matchingLast⟩
  rw [readBody_append leads, Traced.outcome_andThen_eq_ok]
  refine ⟨middle, reading, ?_⟩
  rw [readBody_append wholeToo, Traced.outcome_andThen_eq_ok]
  exact ⟨other, replacing, finishedToo⟩

theorem covers_of_readBody {shape : List Bool} (innermost : Frames.Innermost shape) {body : Body}
    {state final : State} (covers : Frames.Covers shape state.frames state.frames)
    (ended : (readBody options levels surroundings body state).outcome = .ok final) :
    Frames.Covers shape final.frames final.frames := by
  obtain ⟨last, readAgain, matching⟩ :=
    readBody_carries options levels levels (Nat.le_refl _) shape surroundings.selector
      surroundings.active surroundings.active body body state state final innermost
      (List.Subset.refl _) rfl ⟨covers, rfl⟩ ended
  have same : final = last := Except.ok.inj (ended.symm.trans readAgain)
  exact same ▸ matching.frames

end NestedCss.OnePass
