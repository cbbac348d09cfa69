import NestedCss.Frames

set_option autoImplicit false

/-! Stacks of scopes that mean the same names. Two frames are alike when each name
has the same value in both, wherever it was declared. A stack may also have frames
in between in which nothing is declared: nothing is found in them and nothing is
ever declared in them, because declarations go to the innermost frame or to the
outermost one. -/

namespace NestedCss

structure Frame.Alike (frame other : Frame) : Prop where
  values : ∀ name, (frame.bindings.find? name).map Binding.value =
    (other.bindings.find? name).map Binding.value
  texts : ∀ name, (frame.mixins.find? name).map (fun mixin => mixin.body.text) =
    (other.mixins.find? name).map (fun mixin => mixin.body.text)

theorem Frame.Alike.refl (frame : Frame) : frame.Alike frame := ⟨fun _ => rfl, fun _ => rfl⟩

theorem Table.map_find?_insert {α β : Type} {table other : Table α} {look : α → β}
    (same : ∀ name, (table.find? name).map look = (other.find? name).map look) (key : Text)
    {value instead : α} (alike : look value = look instead) (name : Text) :
    ((table.insert key value).find? name).map look =
      ((other.insert key instead).find? name).map look := by
  by_cases hit : name = key
  · subst hit
    rw [find?_insert_self, find?_insert_self, Option.map_some, Option.map_some, alike]
  · rw [find?_insert_of_ne _ _ _ _ hit, find?_insert_of_ne _ _ _ _ hit]
    exact same name

namespace Frames

/-- One stack has the frames of another, up to places, and frames without names
between them. The shape tells from the inside which frames are shared; the
outermost one, which it leaves out, always is. -/
inductive Covers : List Bool → Frames → Frames → Prop
  | outermost {frame other : Frame} (same : frame.Alike other) : Covers [] [frame] [other]
  | shared {shape : List Bool} {frame other : Frame} {rest others : Frames}
      (same : frame.Alike other) (outer : Covers shape rest others) :
      Covers (true :: shape) (frame :: rest) (other :: others)
  | idle {shape : List Bool} {rest others : Frames} (outer : Covers shape rest others) :
      Covers (false :: shape) (.empty :: rest) others

/-- The innermost frame is shared, so that what is declared in one stack is declared
in the other. -/
def Innermost (shape : List Bool) : Prop := shape.head? ≠ some false

theorem innermost_nil : Innermost [] := fun impossible => by cases impossible

theorem innermost_shared (shape : List Bool) : Innermost (true :: shape) :=
  fun impossible => by cases impossible

namespace Covers

variable {shape : List Bool} {frames others : Frames}

private theorem ne_nil (covers : Covers shape frames others) : frames ≠ [] ∧ others ≠ [] := by
  induction covers with
  | outermost same => exact ⟨List.cons_ne_nil _ _, List.cons_ne_nil _ _⟩
  | shared same outer ih => exact ⟨List.cons_ne_nil _ _, List.cons_ne_nil _ _⟩
  | idle outer ih => exact ⟨List.cons_ne_nil _ _, ih.2⟩

theorem pop (covers : Covers (true :: shape) frames others) :
    Covers shape (frames.drop 1) (others.drop 1) := by
  cases covers with
  | shared same outer => exact outer

theorem push (covers : Covers shape frames others) :
    Covers (true :: shape) (.empty :: frames) (.empty :: others) := .shared (.refl _) covers

private theorem findSome?_eq {α β : Type} (covers : Covers shape frames others)
    (look : Frame → Option α) (view : α → β) (bare : look .empty = none)
    (alike : ∀ {frame other : Frame}, frame.Alike other →
      (look frame).map view = (look other).map view) :
    (frames.findSome? look).map view = (others.findSome? look).map view := by
  have front : ∀ {frame other : Frame} {rest others : Frames}, frame.Alike other →
      (rest.findSome? look).map view = (others.findSome? look).map view →
      ((frame :: rest).findSome? look).map view = ((other :: others).findSome? look).map view := by
    intro frame other rest others same later
    have here := alike same
    rw [List.findSome?_cons, List.findSome?_cons]
    cases own : look frame with
    | none =>
        rw [own] at here
        rw [Option.map_eq_none_iff.mp here.symm]
        exact later
    | some found =>
        rw [own] at here
        obtain ⟨matching, present, looks⟩ := Option.map_eq_some_iff.mp here.symm
        rw [present]
        simp only [Option.map_some, looks]
  induction covers with
  | outermost same => exact front same rfl
  | shared same outer ih => exact front same ih
  | idle outer ih =>
      rw [List.findSome?_cons, bare]
      exact ih

private theorem lookup_eq (covers : Covers shape frames others) (name : Text) :
    (frames.lookup name).map Binding.value = (others.lookup name).map Binding.value :=
  covers.findSome?_eq _ _ rfl fun same => same.values name

theorem findMixin_eq (covers : Covers shape frames others) (name : Text) :
    (frames.findMixin name).map (fun mixin => mixin.body.text) =
      (others.findMixin name).map (fun mixin => mixin.body.text) :=
  covers.findSome?_eq _ _ rfl fun same => same.texts name

private theorem modifyOuter (covers : Covers shape frames others) {change changed : Frame → Frame}
    (alike : ∀ {frame other : Frame}, frame.Alike other → (change frame).Alike (changed other)) :
    Covers shape (frames.modifyOuter change) (others.modifyOuter changed) := by
  induction covers with
  | outermost same => exact .outermost (alike same)
  | shared same outer ih =>
      rw [modifyOuter_cons change _ outer.ne_nil.1, modifyOuter_cons changed _ outer.ne_nil.2]
      exact .shared same ih
  | idle outer ih =>
      rw [modifyOuter_cons change _ outer.ne_nil.1]
      exact .idle ih

private theorem modifyInner (covers : Covers shape frames others) (innermost : Innermost shape)
    {change changed : Frame → Frame}
    (alike : ∀ {frame other : Frame}, frame.Alike other → (change frame).Alike (changed other)) :
    Covers shape (frames.modifyInner change) (others.modifyInner changed) := by
  cases covers with
  | outermost same => exact .outermost (alike same)
  | shared same outer => exact .shared (alike same) outer
  | idle outer => exact absurd rfl innermost

theorem bind (covers : Covers shape frames others) (innermost : Innermost shape)
    (key value : Text) (isGlobal : Bool) (here there : Location) :
    Covers shape (frames.bind ⟨key, value, isGlobal, here⟩)
      (others.bind ⟨key, value, isGlobal, there⟩) := by
  have alike : ∀ {frame other : Frame}, frame.Alike other →
      ({ frame with bindings := frame.bindings.insert key ⟨key, value, isGlobal, here⟩ } :
        Frame).Alike
      { other with bindings := other.bindings.insert key ⟨key, value, isGlobal, there⟩ } :=
    fun same => ⟨Table.map_find?_insert same.values key rfl, same.texts⟩
  unfold Frames.bind
  cases isGlobal with
  | true => exact covers.modifyOuter alike
  | false => exact covers.modifyInner innermost alike

theorem defineMixin (covers : Covers shape frames others) (innermost : Innermost shape)
    (name : Text) {body other : Body} (same : body.text = other.text) :
    Covers shape (frames.defineMixin ⟨name, body⟩) (others.defineMixin ⟨name, other⟩) :=
  covers.modifyInner innermost fun alike =>
    ⟨alike.values, Table.map_find?_insert alike.texts name same⟩

theorem substitute_eq_ok (covers : Covers shape frames others) {value meant : Text}
    {here : Location} (there : Location) (ended : frames.substitute value here = .ok meant) :
    others.substitute value there = .ok meant := by
  unfold substitute at *
  cases referring : Reference.ofValue? value.trim with
  | none =>
      rw [referring] at ended
      exact ended
  | some reference =>
      simp only [referring] at ended ⊢
      have same := covers.lookup_eq reference.name
      cases found : frames.lookup reference.name with
      | none =>
          rw [found] at ended
          cases ended
      | some binding =>
          rw [found] at ended same
          obtain ⟨matching, present, looks⟩ := Option.map_eq_some_iff.mp same.symm
          rw [present]
          simp only [looks]
          exact ended

end Covers
end Frames
end NestedCss
