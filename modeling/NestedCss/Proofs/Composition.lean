import NestedCss.Proofs.Places
import NestedCss.Proofs.Verdicts

set_option autoImplicit false

/-! Scanning in parts. A text that leaves nothing open, neither a block nor a string nor a
comment nor a statement that is underway, is scanned without a fault, and what follows it is
scanned as on its own. These are the only such texts: whatever else a text leaves open, a
closing brace after it is not met as it would be met alone. -/

namespace NestedCss

/-- After a text no block is open, nothing is quoted or in a comment, and no statement and no
header is underway. -/
structure Text.AtRest (text : Text) : Prop where
  balanced : (Mode.code false).openAfter 0 text = some 0
  settled : ∃ afterColon, (Mode.code false).after text = .code afterColon
  idle : (Mode.code false).underway false text = false

private theorem Assembly.Fits.surface_of_settled {pending : Assembly} {afterColon : Bool}
    (fits : pending.Fits (.code afterColon)) (outside : pending.level = 0) :
    pending = ⟨pending.header, .surface⟩ := by
  obtain ⟨header, enclosure⟩ := pending
  cases enclosure with
  | surface => rfl
  | comment start text => cases fits
  | block opening depth text => cases outside

private theorem Text.atRest_iff_whole (text : Text) : text.AtRest ↔ text.Whole := by
  constructor
  · rintro ⟨balanced, settled, idle⟩
    obtain ⟨segments, last, run⟩ := Assembly.exists_read .start Assembly.fits_empty balanced
    refine ⟨⟨segments, ?_⟩, settled⟩
    obtain ⟨fits, counted⟩ := Assembly.read_fits Assembly.fits_empty run
    have outside : last.level = 0 := Option.some.inj (counted.symm.trans balanced)
    have held := Assembly.read_underway run outside
    obtain ⟨afterColon, code⟩ := settled
    rw [code] at fits
    have bare : last.header = [] := by
      rw [idle] at held
      exact not_not.mp fun begun => Bool.false_ne_true (held.mpr begun)
    rw [run, fits.surface_of_settled outside, bare]
    rfl
  · intro whole
    obtain ⟨segments, run⟩ := whole.read
    have held := Assembly.read_underway run rfl
    exact ⟨whole.closed.balanced, whole.settled, Bool.eq_false_iff.mpr fun begun => held.mp begun rfl⟩

/-! ### Results in order -/

namespace Segmentation

private theorem results_behind (segments : List Segment) (rest : Segmentation) :
    (rest.behind segments).results = segments.map .ok ++ rest.results := by
  simp only [results, behind, List.map_append, List.append_assoc]

private theorem results_of_faultless {whole : Segmentation} (faultless : whole.fault? = none) :
    whole.results = whole.segments.map .ok := by
  simp only [results, faultless, Option.toList_none, List.map_nil, List.append_nil]

private theorem error_mem_results_iff {whole : Segmentation} {fault : Error} :
    .error fault ∈ whole.results ↔ whole.fault? = some fault := by
  simp [results]

private theorem eq_of_results_concat {whole : Segmentation} {first : List (Except Error Segment)}
    {fault : Error} (ended : whole.results = first ++ [.error fault]) :
    whole.fault? = some fault ∧ first = whole.segments.map .ok := by
  have found : whole.fault? = some fault :=
    error_mem_results_iff.mp (ended ▸ List.mem_concat_self)
  have parts : whole.results = whole.segments.map .ok ++ [.error fault] := by
    rw [results, found]
    rfl
  exact ⟨found, (List.append_inj' (ended.symm.trans parts) rfl).1⟩

private theorem fault?_eq_none_of_results {whole : Segmentation} {segments : List Segment}
    (faultless : whole.results = segments.map .ok) : whole.fault? = none := by
  refine Option.eq_none_iff_forall_ne_some.mpr fun fault found => ?_
  have last := error_mem_results_iff.mpr found
  rw [faultless] at last
  obtain ⟨_, _, impossible⟩ := List.mem_map.mp last
  cases impossible

end Segmentation

namespace Text.Whole

variable {first : Text}

private theorem results_eq (whole : first.Whole) (here : Location) :
    (Body.mk first here).segmentation.results =
      (Body.mk first here).segmentation.segments.map .ok :=
  Segmentation.results_of_faultless whole.closed.fault?_eq_none

private theorem results_append (whole : first.Whole) (rest : Text) (here : Location) :
    (Body.mk (first ++ rest) here).segmentation.results =
      (Body.mk first here).segmentation.results ++
        (Body.mk rest (here.advanceOver first)).segmentation.results := by
  rw [whole.segmentation_append rest here, Segmentation.results_behind, whole.results_eq]

/-- The scanner gives what it gives for the first part, and then goes on as a scanner of the
second part does from there. -/
theorem answer_append (whole : first.Whole) (rest : Text) (here : Location) (count : Nat) :
    (Scanner.ofBody ⟨first ++ rest, here⟩).answer count =
      if count < (Body.mk first here).segmentation.segments.length then
        (Scanner.ofBody ⟨first, here⟩).answer count
      else (Scanner.ofBody ⟨rest, here.advanceOver first⟩).answer
        (count - (Body.mk first here).segmentation.segments.length) := by
  have answered : ∀ body : Body, ∀ asked, (Scanner.ofBody body).answer asked =
      body.segmentation.results[asked]? := fun body asked => Scanner.answer_eq asked (.ofBody body)
  rw [answered, answered, answered, whole.results_append, whole.results_eq, List.getElem?_append,
    List.length_map]

end Text.Whole

/-! ### Only texts at rest -/

private theorem Mode.settled_of_openAfter_closing {mode : Mode}
    (met : mode.openAfter 0 ['}'] ≠ some 0) : ∃ afterColon, mode = .code afterColon := by
  by_cases code : (mode.step '}' none).1 = .code
  · obtain ⟨afterColon, same, _⟩ := Mode.step_of_brace code (Or.inr rfl)
    exact ⟨afterColon, same⟩
  · refine absurd ?_ met
    rw [openAfter, List.head?_nil, Assembly.depthAfter?_of_ne 0 fun same => absurd same code]
    rfl

private theorem Text.atRest_of_results_closing {first : Text} {here : Location}
    (composes : (Body.mk (first ++ ['}']) here).segmentation.results =
      (Body.mk first here).segmentation.results ++
        (Body.mk ['}'] (here.advanceOver first)).segmentation.results) : first.AtRest := by
  have alone : (Body.mk ['}'] (here.advanceOver first)).segmentation.results =
      [.error (Assembly.unbalanced "unexpected `\x7d`".toList (here.advanceOver first))] := rfl
  rw [alone] at composes
  obtain ⟨faulty, front⟩ := Segmentation.eq_of_results_concat composes
  have faultless := Segmentation.fault?_eq_none_of_results front
  have balanced := (Body.fault?_eq_none_iff _).mp faultless
  have apart : (Mode.code false).Unaffected (['}'] : Text).head? first :=
    Mode.unaffected_of_plain _ first (by decide) (by decide)
  have settled : ∃ afterColon, (Mode.code false).after first = .code afterColon := by
    refine Mode.settled_of_openAfter_closing fun passed => ?_
    have whole := Mode.openAfter_append apart 0
    rw [balanced, Option.bind_some, passed] at whole
    rw [(Body.fault?_eq_none_iff _).mpr whole] at faulty
    cases faulty
  obtain ⟨afterColon, code⟩ := settled
  refine ⟨balanced, ⟨afterColon, code⟩, ?_⟩
  obtain ⟨segments, last, run⟩ := Assembly.exists_read here Assembly.fits_empty balanced
  obtain ⟨fits, counted⟩ := Assembly.read_fits Assembly.fits_empty run
  rw [code] at fits
  have outside : last.level = 0 := Option.some.inj (counted.symm.trans balanced)
  have surface := fits.surface_of_settled outside
  -- The brace gives no segment, so the end of the text gives none either.
  have bare : last.header = [] := by
    have closed : (Body.mk (first ++ ['}']) here).segmentation.segments = segments := by
      rw [Body.segmentation, Glyph.list_append here apart, code, Assembly.segmentation_append run,
        surface]
      exact List.append_nil segments
    have ended : (Body.mk first here).segmentation = last.finish.behind segments :=
      Assembly.segmentation_of_read run
    rw [Segmentation.results_of_faultless faultless, closed, ended] at front
    have none : last.finish.segments = [] := by
      have lengths := congrArg List.length front
      rw [List.length_map, List.length_map, Segmentation.behind, List.length_append] at lengths
      exact List.eq_nil_of_length_eq_zero (by omega)
    rw [surface] at none
    by_contra begun
    simp [Assembly.finish, begun] at none
  have held := Assembly.read_underway run outside
  exact Bool.eq_false_iff.mpr fun begun => held.mp begun bare

/-- Scanning is compositional exactly behind texts that are at rest. Such a text has no fault
of its own, whatever follows it is scanned as if it stood alone at its place, and the scanner
gives the segments of the one and then all that it gives for the other. -/
theorem Text.atRest_iff_scans_compose (first : Text) :
    first.AtRest ↔ ∀ (here : Location) (rest : Text),
      (Body.mk first here).segmentation.fault? = none ∧
      (Body.mk (first ++ rest) here).segmentation.results =
        (Body.mk first here).segmentation.results ++
          (Body.mk rest (here.advanceOver first)).segmentation.results ∧
      ∀ count, (Scanner.ofBody ⟨first ++ rest, here⟩).answer count =
        if count < (Body.mk first here).segmentation.segments.length then
          (Scanner.ofBody ⟨first, here⟩).answer count
        else (Scanner.ofBody ⟨rest, here.advanceOver first⟩).answer
          (count - (Body.mk first here).segmentation.segments.length) := by
  constructor
  · intro atRest here rest
    have whole := (Text.atRest_iff_whole first).mp atRest
    exact ⟨whole.closed.fault?_eq_none, whole.results_append rest here,
      whole.answer_append rest here⟩
  · intro composes
    exact Text.atRest_of_results_closing (composes .start ['}']).2.1

end NestedCss
