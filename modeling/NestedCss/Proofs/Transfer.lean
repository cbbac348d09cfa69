import NestedCss.OnePass
import NestedCss.Proofs.Relocation
import NestedCss.Proofs.Scopes
import NestedCss.Proofs.Steps

set_option autoImplicit false

/-! Reading a body elsewhere. A reading that succeeds also succeeds at another
place, with more levels of nesting left, with fewer mixins being expanded around
it, and with frames around it in which nothing is declared taken away; and it
contributes the same. -/

namespace NestedCss.OnePass

structure State.Matches (shape : List Bool) (state other : State) : Prop where
  frames : Frames.Covers shape state.frames other.frames
  yielded : state.yielded = other.yielded

private theorem State.Matches.addLines {shape : List Bool} {state other : State}
    (matching : state.Matches shape other) (lines : List Line) :
    (state.addLines lines).Matches shape (other.addLines lines) :=
  ⟨matching.frames, by simp only [State.addLines, matching.yielded]⟩

/-- Whatever one reader of bodies brings to an end, the other does alike. -/
def Reading.CarriesTo (reading other : Reading) : Prop :=
  ∀ (shape : List Bool) (selector : Text) (active fewer : List Text) (body copy : Body)
    (state twin final : State), Frames.Innermost shape → fewer ⊆ active →
    body.text = copy.text → state.Matches shape twin →
    (reading ⟨selector, active⟩ body state).outcome = .ok final →
    ∃ last, (other ⟨selector, fewer⟩ copy twin).outcome = .ok last ∧ final.Matches shape last

section Nodes

variable {options : CompileOptions} {reading other : Reading} {shape : List Bool}
  {selector : Text} {active fewer : List Text} {state twin : State}

theorem readScoped_alike {around about : Surroundings} (selected : around.selector = about.selector)
    {body copy : Body} {frames others inner : Frames} {text : Text}
    (follows : ∀ final, (reading around body ⟨.empty :: frames, .empty⟩).outcome = .ok final →
      ∃ last, (other about copy ⟨.empty :: others, .empty⟩).outcome = .ok last ∧
        final.Matches (true :: shape) last)
    (ended : (readScoped reading around body frames).outcome = .ok (text, inner)) :
    ∃ outer, (readScoped other about copy others).outcome = .ok (text, outer) ∧
      Frames.Covers shape inner outer := by
  obtain ⟨final, read, result⟩ := Traced.outcome_map_eq_ok.mp ended
  injection result with written left
  subst written left
  obtain ⟨last, readToo, matching⟩ := follows final read
  refine ⟨last.frames.drop 1, ?_, matching.frames.pop⟩
  exact Traced.outcome_map_eq_ok.mpr ⟨last, readToo, by rw [matching.yielded, selected]⟩

private theorem readScoped_carries (carries : reading.CarriesTo other) (subset : fewer ⊆ active)
    {body copy : Body} (same : body.text = copy.text) {frames others inner : Frames} {text : Text}
    (covers : Frames.Covers shape frames others)
    (ended : (readScoped reading ⟨selector, active⟩ body frames).outcome = .ok (text, inner)) :
    ∃ outer, (readScoped other ⟨selector, fewer⟩ copy others).outcome = .ok (text, outer) ∧
      Frames.Covers shape inner outer := by
  have selected : Surroundings.selector ⟨selector, active⟩ =
      Surroundings.selector ⟨selector, fewer⟩ := rfl
  refine readScoped_alike selected (fun final read => ?_) ended
  exact carries (true :: shape) selector active fewer body copy ⟨.empty :: frames, .empty⟩
    ⟨.empty :: others, .empty⟩ final (Frames.innermost_shared shape) subset same ⟨covers.push, rfl⟩ read

private theorem readInclusion_carries (carries : reading.CarriesTo other)
    (innermost : Frames.Innermost shape) (subset : fewer ⊆ active) (name : Text)
    (here there : Location) (matching : state.Matches shape twin) {final : State}
    (ended : (readInclusion options reading ⟨selector, active⟩ ⟨name, here⟩ state).outcome =
      .ok final) :
    ∃ last, (readInclusion options other ⟨selector, fewer⟩ ⟨name, there⟩ twin).outcome =
      .ok last ∧ final.Matches shape last := by
  have named := matching.frames.findMixin_eq name
  unfold readInclusion at *
  simp only at *
  cases found : state.frames.findMixin name with
  | none =>
      rw [found] at named ended
      rw [Option.map_eq_none_iff.mp named.symm]
      simp only at ended ⊢
      split at ended
      · cases ended
      · rename_i lenient
        injection ended with result
        rw [if_neg lenient]
        exact ⟨twin, rfl, result ▸ matching⟩
  | some mixin =>
      rw [found] at named ended
      obtain ⟨copy, present, same⟩ := Option.map_eq_some_iff.mp named.symm
      rw [present]
      simp only at ended ⊢
      split at ended
      · cases ended
      · rename_i fresh
        rw [if_neg fun within => fresh (subset within)]
        have wider : fewer ++ [name] ⊆ active ++ [name] :=
          List.append_subset.mpr ⟨fun _ within => List.mem_append_left _ (subset within),
            List.subset_append_right active [name]⟩
        exact carries shape selector _ _ mixin.body copy.body state twin final innermost wider
          same.symm matching ended

private theorem readNode_carries (carries : reading.CarriesTo other)
    (innermost : Frames.Innermost shape) (subset : fewer ⊆ active) {node copy : Node}
    (alike : node.Alike copy) (matching : state.Matches shape twin) {final : State}
    (ended : (readNode options reading ⟨selector, active⟩ state node).outcome = .ok final) :
    ∃ last, (readNode options other ⟨selector, fewer⟩ twin copy).outcome = .ok last ∧
      final.Matches shape last := by
  cases alike with
  | binding key value isGlobal here there =>
      injection ended with result
      subst result
      exact ⟨_, rfl, matching.frames.bind innermost key value isGlobal here there,
        matching.yielded⟩
  | property key value here there =>
      obtain ⟨meant, substituted, result⟩ := Traced.outcome_map_eq_ok.mp ended
      subst result
      have substitutedToo := matching.frames.substitute_eq_ok there substituted
      refine ⟨_, Traced.outcome_map_eq_ok.mpr ⟨meant, substitutedToo, rfl⟩, ?_⟩
      exact matching.addLines _
  | comment text =>
      injection ended with result
      subst result
      exact ⟨_, rfl, matching.addLines _⟩
  | mixin name same =>
      injection ended with result
      subst result
      exact ⟨_, rfl, matching.frames.defineMixin innermost name same, matching.yielded⟩
  | media query same =>
      obtain ⟨⟨text, inner⟩, read, result⟩ := Traced.outcome_map_eq_ok.mp ended
      subst result
      obtain ⟨outer, readToo, covers⟩ := readScoped_carries carries subset same matching.frames read
      refine ⟨_, Traced.outcome_map_eq_ok.mpr ⟨(text, outer), readToo, rfl⟩, covers, ?_⟩
      simp only [matching.yielded]
  | inclusion name here there =>
      exact readInclusion_carries carries innermost subset name here there matching ended
  | rule inner same =>
      obtain ⟨⟨text, left⟩, read, result⟩ := Traced.outcome_map_eq_ok.mp ended
      subst result
      obtain ⟨outer, readToo, covers⟩ := readScoped_carries carries subset same matching.frames read
      refine ⟨_, Traced.outcome_map_eq_ok.mpr ⟨(text, outer), readToo, rfl⟩, covers, ?_⟩
      simp only [matching.yielded]

private theorem foldl_readNode_carries (carries : reading.CarriesTo other)
    (innermost : Frames.Innermost shape) (subset : fewer ⊆ active) {nodes copies : List Node}
    (alike : List.Forall₂ Node.Alike nodes copies) :
    ∀ {state twin final : State}, state.Matches shape twin →
      (Traced.foldl (readNode options reading ⟨selector, active⟩) state nodes).outcome =
        .ok final →
      ∃ last, (Traced.foldl (readNode options other ⟨selector, fewer⟩) twin copies).outcome =
        .ok last ∧ final.Matches shape last := by
  induction alike with
  | nil =>
      intro state twin final matching ended
      injection ended with result
      exact ⟨twin, rfl, result ▸ matching⟩
  | cons same later ih =>
      intro state twin final matching ended
      obtain ⟨middle, stepped, finished⟩ := Traced.outcome_andThen_eq_ok.mp ended
      obtain ⟨between, steppedToo, matchingMiddle⟩ :=
        readNode_carries carries innermost subset same matching stepped
      obtain ⟨last, finishedToo, matchingLast⟩ := ih matchingMiddle finished
      exact ⟨last, Traced.outcome_andThen_eq_ok.mpr ⟨between, steppedToo, finishedToo⟩,
        matchingLast⟩

end Nodes

theorem readBody_carries (options : CompileOptions) (levels : Nat) :
    ∀ room, levels ≤ room → (readBody options levels).CarriesTo (readBody options room) := by
  -- The induction is on the levels of the reading that succeeds: it never uses them up.
  induction levels with
  | zero =>
      intro room _ shape selector active fewer body copy state twin final _ _ _ _ ended
      cases ended
  | succ levels ih =>
      intro room within shape selector active fewer body copy state twin final innermost subset
        same matching ended
      obtain ⟨more, rfl⟩ : ∃ more, room = more + 1 := ⟨room - 1, by omega⟩
      have carries := ih more (by omega)
      have alike := Body.segmentation_alike same
      obtain ⟨faultless, read⟩ := Traced.outcome_foldNodes_eq_ok.mp ended
      obtain ⟨last, readToo, matchingLast⟩ :=
        foldl_readNode_carries carries innermost subset alike.nodes matching read
      exact ⟨last, Traced.outcome_foldNodes_eq_ok.mpr ⟨alike.fault.mp faultless, readToo⟩,
        matchingLast⟩

end NestedCss.OnePass
