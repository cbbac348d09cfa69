import NestedCss.Traced

set_option autoImplicit false

/-! Runs of traced steps. What every step keeps, a run keeps; and where a second
kind of step does to a view of the state what the first does to the state, the
second kind of run does so too. -/

namespace NestedCss.Traced

variable {α β γ : Type}

theorem map_done (change : α → β) (value : α) : (done value).map change = done (change value) := rfl

theorem map_eq_andThen (change : α → β) (first : Traced α) :
    first.map change = first.andThen fun value => done (change value) := by
  obtain ⟨dropped, outcome⟩ := first
  cases outcome with
  | error error => rfl
  | ok value => exact congrArg (Traced.mk · (.ok (change value))) (List.append_nil dropped).symm

theorem map_map (first : α → β) (second : β → γ) (traced : Traced α) :
    (traced.map first).map second = traced.map fun value => second (first value) := by
  obtain ⟨dropped, outcome⟩ := traced
  cases outcome <;> rfl

theorem map_congr {first second : α → β} {traced : Traced α}
    (same : ∀ value, traced.outcome = .ok value → first value = second value) :
    traced.map first = traced.map second := by
  obtain ⟨dropped, outcome⟩ := traced
  cases outcome with
  | error error => rfl
  | ok value =>
      have agreed := same value rfl
      simp only [map, Except.map, agreed]

theorem map_andThen (change : β → γ) (first : Traced α) (next : α → Traced β) :
    (first.andThen next).map change = first.andThen fun value => (next value).map change := by
  obtain ⟨dropped, outcome⟩ := first
  cases outcome <;> rfl

theorem andThen_map (change : α → β) (first : Traced α) (next : β → Traced γ) :
    (first.map change).andThen next = first.andThen fun value => next (change value) := by
  obtain ⟨dropped, outcome⟩ := first
  cases outcome <;> rfl

theorem outcome_andThen_eq_ok {first : Traced α} {next : α → Traced β} {last : β} :
    (first.andThen next).outcome = .ok last ↔
      ∃ middle, first.outcome = .ok middle ∧ (next middle).outcome = .ok last := by
  obtain ⟨dropped, outcome⟩ := first
  cases outcome with
  | error error => simp [andThen]
  | ok value => simp [andThen]

theorem outcome_andThen_eq_error {first : Traced α} {next : α → Traced β} {error : Error} :
    (first.andThen next).outcome = .error error ↔
      first.outcome = .error error ∨
        ∃ middle, first.outcome = .ok middle ∧ (next middle).outcome = .error error := by
  obtain ⟨dropped, outcome⟩ := first
  cases outcome with
  | error other => simp [andThen]
  | ok value => simp [andThen]

theorem outcome_map_eq_ok {first : Traced α} {change : α → β} {last : β} :
    (first.map change).outcome = .ok last ↔
      ∃ value, first.outcome = .ok value ∧ change value = last := by
  rw [map_eq_andThen, outcome_andThen_eq_ok]
  simp only [done, Except.ok.injEq]

theorem outcome_map_eq_error {first : Traced α} {change : α → β} {error : Error} :
    (first.map change).outcome = .error error ↔ first.outcome = .error error := by
  rw [map_eq_andThen, outcome_andThen_eq_error]
  simp only [done, reduceCtorEq, and_false, exists_false, or_false]

theorem outcome_andThen_of_ok {first : Traced α} {next : α → Traced β} {value : α}
    (ended : first.outcome = .ok value) : (first.andThen next).outcome = (next value).outcome := by
  simp only [andThen, ended]

theorem outcome_foldNodes_eq_ok {step : α → Node → Traced α} {start last : α}
    {whole : Segmentation} :
    (foldNodes step start whole).outcome = .ok last ↔
      whole.fault? = none ∧
        (foldl step start (whole.segments.map Node.ofSegment)).outcome = .ok last := by
  rw [foldNodes, outcome_andThen_eq_ok]
  cases whole.fault? with
  | none =>
      constructor
      · rintro ⟨middle, ended, same⟩
        injection same with same
        exact ⟨rfl, same ▸ ended⟩
      · rintro ⟨_, ended⟩
        exact ⟨last, ended, rfl⟩
  | some fault =>
      constructor
      · rintro ⟨_, _, impossible⟩
        cases impossible
      · rintro ⟨impossible, _⟩
        cases impossible

/-- A property holds at the end of a run when each step keeps it that the run gets
to. -/
theorem foldl_keeps_reached {step : α → γ → Traced α} (holds : α → Prop) (members : List γ)
    {start last : α}
    (keeps : ∀ before member after middle next, members = before ++ member :: after →
      (foldl step start before).outcome = .ok middle → holds middle →
      (step middle member).outcome = .ok next → holds next)
    (initially : holds start) (ended : (foldl step start members).outcome = .ok last) :
    holds last := by
  induction members generalizing start with
  | nil =>
      injection ended with same
      exact same ▸ initially
  | cons member rest ih =>
      obtain ⟨middle, stepped, finished⟩ := outcome_andThen_eq_ok.mp ended
      refine ih ?_ (keeps [] member rest start middle rfl rfl initially stepped) finished
      intro before other after reached next split ran holding steppedOn
      refine keeps (member :: before) other after reached next ?_ ?_ holding steppedOn
      · rw [split, List.cons_append]
      · exact outcome_andThen_eq_ok.mpr ⟨middle, stepped, ran⟩

theorem foldl_keeps {step : α → γ → Traced α} (holds : α → Prop) (members : List γ)
    (keeps : ∀ member ∈ members, ∀ before after, holds before →
      (step before member).outcome = .ok after → holds after)
    {before after : α} (initially : holds before)
    (ended : (foldl step before members).outcome = .ok after) : holds after := by
  refine foldl_keeps_reached holds members ?_ initially ended
  intro earlier member later middle next split _ holding stepped
  have present : member ∈ members := split ▸ List.mem_append_right earlier (List.mem_cons_self ..)
  exact keeps member present middle next holding stepped

theorem exists_of_foldl_eq_error {step : α → γ → Traced α} {start : α} {members : List γ}
    {error : Error} (failed : (foldl step start members).outcome = .error error) :
    ∃ before member after middle, members = before ++ member :: after ∧
      (foldl step start before).outcome = .ok middle ∧
      (step middle member).outcome = .error error := by
  induction members generalizing start with
  | nil => cases failed
  | cons member rest ih =>
      rcases outcome_andThen_eq_error.mp failed with here | ⟨next, stepped, later⟩
      · exact ⟨[], member, rest, start, rfl, rfl, here⟩
      · obtain ⟨before, culprit, after, middle, split, reached, wrong⟩ := ih later
        refine ⟨member :: before, culprit, after, middle, ?_, ?_, wrong⟩
        · rw [split, List.cons_append]
        · exact outcome_andThen_eq_ok.mpr ⟨next, stepped, reached⟩

/-- Steps on views follow a run, as long as a property that every step keeps
makes each of them follow. -/
theorem foldl_map (step : α → γ → Traced α) (follow : β → γ → Traced β) (view : α → β)
    (holds : α → Prop) (members : List γ)
    (keeps : ∀ member ∈ members, ∀ before after, holds before →
      (step before member).outcome = .ok after → holds after)
    (follows : ∀ member ∈ members, ∀ before, holds before →
      follow (view before) member = (step before member).map view)
    {before : α} (initially : holds before) :
    foldl follow (view before) members = (foldl step before members).map view := by
  induction members generalizing before with
  | nil => rfl
  | cons member rest ih =>
      have head := follows member (List.mem_cons_self ..) before initially
      simp only [foldl]
      rw [head, map_andThen]
      cases stepped : (step before member).outcome with
      | error error => simp [andThen, map, stepped, Except.map]
      | ok middle =>
          have between := keeps member (List.mem_cons_self ..) before middle initially stepped
          have tail := ih (fun other present => keeps other (List.mem_cons_of_mem _ present))
            (fun other present => follows other (List.mem_cons_of_mem _ present)) between
          simp [andThen, map, stepped, Except.map, tail]

theorem foldNodes_map (step : α → Node → Traced α) (follow : β → Node → Traced β)
    (view : α → β) (holds : α → Prop) (whole : Segmentation)
    (keeps : ∀ node before after, holds before → (step before node).outcome = .ok after →
      holds after)
    (follows : ∀ node before, holds before → follow (view before) node = (step before node).map view)
    {before : α} (initially : holds before) :
    foldNodes follow (view before) whole = (foldNodes step before whole).map view := by
  rw [foldNodes, foldNodes, foldl_map step follow view holds _ (fun node _ => keeps node)
    (fun node _ => follows node) initially, map_andThen, andThen_map]
  cases whole.fault? with
  | some fault => rfl
  | none => rfl

end NestedCss.Traced
