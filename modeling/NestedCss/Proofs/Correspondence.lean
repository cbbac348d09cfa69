import Mathlib.Data.List.Forall2
import NestedCss.Proofs.Agreement
import NestedCss.Proofs.Positions
import NestedCss.Proofs.Relocation
import NestedCss.Proofs.Scopes

set_option autoImplicit false

/-! Stylesheets that correspond. A relation between texts is a correspondence when the
bodies of two related texts consist of the same nodes, with related texts for the bodies
of these, and are both balanced or both not. The second may lack nodes that say nothing:
properties without a value, and mixins that nothing asks for. Then the two are read in
step, whatever mixins are defined and expanded on the way: either both compile, to the
same text, or both fail, for causes of one kind. -/

namespace NestedCss

def Cause.kind : Cause → Cause
  | .unbalancedBlock _ => .unbalancedBlock none
  | .recursiveMixin name _ => .recursiveMixin name []
  | .unresolvedVariable name => .unresolvedVariable name
  | .nestingTooDeep limit => .nestingTooDeep limit
  | .unresolvedMixin name => .unresolvedMixin name
  | .fragmentArity fragments values => .fragmentArity fragments values

/-- The second list lacks silent members of the first, and the others correspond. -/
inductive Thinned {α β : Type} (silent : α → Prop) (matching : α → β → Prop) :
    List α → List β → Prop
  | nil : Thinned silent matching [] []
  | kept {member : α} {other : β} {members : List α} {others : List β}
      (front : matching member other) (further : Thinned silent matching members others) :
      Thinned silent matching (member :: members) (other :: others)
  | dropped {member : α} {members : List α} {others : List β} (quiet : silent member)
      (further : Thinned silent matching members others) :
      Thinned silent matching (member :: members) others

namespace Thinned

variable {α β : Type} {silent : α → Prop} {matching : α → β → Prop} {members : List α}
  {others : List β}

private theorem of_forall₂ (paired : List.Forall₂ matching members others) :
    Thinned silent matching members others := by
  induction paired with
  | nil => exact .nil
  | cons front _ ih => exact .kept front ih

theorem behind {front : List α} (quiet : ∀ member ∈ front, silent member)
    (further : Thinned silent matching members others) :
    Thinned silent matching (front ++ members) others := by
  induction front with
  | nil => exact further
  | cons member rest ih =>
      refine .dropped (quiet member (List.mem_cons_self ..)) (ih fun other present => ?_)
      exact quiet other (List.mem_cons_of_mem _ present)

theorem append {front : List α} {copies : List β} (paired : List.Forall₂ matching front copies)
    (further : Thinned silent matching members others) :
    Thinned silent matching (front ++ members) (copies ++ others) := by
  induction paired with
  | nil => exact further
  | cons same _ ih => exact .kept same ih

theorem imp {closer : α → β → Prop} (thinned : Thinned silent matching members others)
    (implies : ∀ member other, other ∈ others → matching member other → closer member other) :
    Thinned silent closer members others := by
  induction thinned with
  | nil => exact .nil
  | kept front _ ih =>
      refine .kept (implies _ _ (List.mem_cons_self ..) front) (ih fun member other present => ?_)
      exact implies member other (List.mem_cons_of_mem _ present)
  | dropped quiet _ ih => exact .dropped quiet (ih implies)

theorem exists_of_mem (thinned : Thinned silent matching members others) {other : β}
    (present : other ∈ others) : ∃ member ∈ members, matching member other := by
  induction thinned with
  | nil => cases present
  | kept front _ ih =>
      rcases List.mem_cons.mp present with rfl | later
      · exact ⟨_, List.mem_cons_self .., front⟩
      · obtain ⟨member, found, same⟩ := ih later
        exact ⟨member, List.mem_cons_of_mem _ found, same⟩
  | dropped _ _ ih =>
      obtain ⟨member, found, same⟩ := ih present
      exact ⟨member, List.mem_cons_of_mem _ found, same⟩

end Thinned

/-! ### Outcomes -/

/-- Two computations come to related values, or both fail for causes of one kind. -/
inductive Agree {α β : Type} (related : α → β → Prop) : Except Error α → Except Error β → Prop
  | ok {value : α} {other : β} (same : related value other) : Agree related (.ok value) (.ok other)
  | error {error fault : Error} (kind : error.cause.kind = fault.cause.kind) :
      Agree related (.error error) (.error fault)

namespace Agree

variable {α β γ δ : Type} {related : α → β → Prop}

theorem refl (outcome : Except Error α) : Agree Eq outcome outcome := by
  cases outcome with
  | ok value => exact .ok rfl
  | error error => exact .error rfl

theorem trans {first second third : Except Error α} (agree : Agree Eq first second)
    (agreeToo : Agree Eq second third) : Agree Eq first third := by
  cases agree with
  | ok same =>
      cases agreeToo with
      | ok sameToo => exact .ok (same.trans sameToo)
  | error kind =>
      cases agreeToo with
      | error kindToo => exact .error (kind.trans kindToo)

private theorem andThen {further : γ → δ → Prop} {first : Traced α} {second : Traced β}
    {next : α → Traced γ} {follow : β → Traced δ} (agree : Agree related first.outcome second.outcome)
    (agreeOn : ∀ value other, related value other →
      Agree further (next value).outcome (follow other).outcome) :
    Agree further (first.andThen next).outcome (second.andThen follow).outcome := by
  obtain ⟨dropped, outcome⟩ := first
  obtain ⟨lost, ending⟩ := second
  cases agree with
  | ok same => exact agreeOn _ _ same
  | error kind => exact .error kind

theorem map {further : γ → δ → Prop} {first : Traced α} {second : Traced β} {change : α → γ}
    {alter : β → δ} (agree : Agree related first.outcome second.outcome)
    (keeps : ∀ value other, related value other → further (change value) (alter other)) :
    Agree further (first.map change).outcome (second.map alter).outcome := by
  rw [Traced.map_eq_andThen, Traced.map_eq_andThen]
  exact agree.andThen fun value other same => .ok (keeps value other same)

/-- Runs over lists agree when the steps for what corresponds do, and the steps for what the
second list lacks come to nothing. -/
theorem foldl {silent : γ → Prop} {matching : γ → δ → Prop} {step : α → γ → Traced α}
    {pace : β → δ → Traced β} {members : List γ} {others : List δ}
    (thinned : Thinned silent matching members others)
    (steps : ∀ value other member partner, partner ∈ others → related value other →
      matching member partner → Agree related (step value member).outcome (pace other partner).outcome)
    (rests : ∀ value other member, related value other → silent member →
      ∃ next, (step value member).outcome = .ok next ∧ related next other) :
    ∀ {value : α} {other : β}, related value other →
      Agree related (Traced.foldl step value members).outcome
        (Traced.foldl pace other others).outcome := by
  induction thinned with
  | nil => exact fun same => .ok same
  | kept front _ ih =>
      intro value other same
      refine (steps _ _ _ _ (List.mem_cons_self ..) same front).andThen fun next last => ?_
      exact ih fun _ _ _ _ present => steps _ _ _ _ (List.mem_cons_of_mem _ present)
  | dropped quiet _ ih =>
      intro value other same
      obtain ⟨next, ended, still⟩ := rests value other _ same quiet
      rw [Traced.foldl, Traced.outcome_andThen_of_ok ended]
      exact ih steps still

end Agree

/-! ### Nodes and scopes -/

/-- The same node, at any place and with a related text for its body. -/
inductive Node.Resembles (related : Text → Text → Prop) : Node → Node → Prop
  | binding (key value : Text) (isGlobal : Bool) (here there : Location) :
      Resembles related (.binding ⟨key, value, isGlobal, here⟩)
        (.binding ⟨key, value, isGlobal, there⟩)
  | property (key value : Text) (here there : Location) :
      Resembles related (.property ⟨key, value, here⟩) (.property ⟨key, value, there⟩)
  | comment (text : Text) : Resembles related (.comment text) (.comment text)
  | mixin (name : Text) {body other : Body} (same : related body.text other.text) :
      Resembles related (.mixin ⟨name, body⟩) (.mixin ⟨name, other⟩)
  | media (query : MediaQuery) {body other : Body} (same : related body.text other.text) :
      Resembles related (.media ⟨query, body⟩) (.media ⟨query, other⟩)
  | inclusion (name : Text) (here there : Location) :
      Resembles related (.inclusion ⟨name, here⟩) (.inclusion ⟨name, there⟩)
  | rule (selector : Text) {body other : Body} (same : related body.text other.text) :
      Resembles related (.rule selector body) (.rule selector other)

structure Segmentation.Resembles (related : Text → Text → Prop) (whole other : Segmentation) :
    Prop where
  nodes : List.Forall₂ (Node.Resembles related) (whole.segments.map Node.ofSegment)
    (other.segments.map Node.ofSegment)
  balanced : whole.fault? = none ↔ other.fault? = none

/-- Wherever related texts stand, they are read as the same nodes. -/
def Corresponds (related : Text → Text → Prop) : Prop :=
  ∀ body other : Body, related body.text other.text →
    body.segmentation.Resembles related other.segmentation

/-- A node that says nothing: a property without a value, or a mixin of one of the names. -/
inductive Node.Silent (names : List Text) : Node → Prop
  | property {declared : Property} (unwritten : declared.written? = none) :
      Silent names (.property declared)
  | mixin {defined : Mixin} (unasked : defined.name ∈ names) : Silent names (.mixin defined)

structure Segmentation.Thins (names : List Text) (related : Text → Text → Prop)
    (whole other : Segmentation) : Prop where
  nodes : Thinned (Node.Silent names) (Node.Resembles related)
    (whole.segments.map Node.ofSegment) (other.segments.map Node.ofSegment)
  balanced : whole.fault? = none ↔ other.fault? = none

/-- Wherever related texts stand, the second is read as the same nodes, but for silent ones,
and includes none of the names. -/
def Overlooks (names : List Text) (related : Text → Text → Prop) : Prop :=
  ∀ body other : Body, related body.text other.text →
    body.segmentation.Thins names related other.segmentation ∧
      ∀ request, .inclusion request ∈ other.nodes → request.name ∉ names

theorem Node.Alike.resembles {related : Text → Text → Prop} (refl : ∀ text, related text text)
    {node other : Node} (alike : node.Alike other) : node.Resembles related other := by
  cases alike with
  | binding key value isGlobal here there => exact .binding key value isGlobal here there
  | property key value here there => exact .property key value here there
  | comment text => exact .comment text
  | mixin name same => exact .mixin name (same ▸ refl _)
  | media query same => exact .media query (same ▸ refl _)
  | inclusion name here there => exact .inclusion name here there
  | rule selector same => exact .rule selector (same ▸ refl _)

theorem Node.resembles_ofBlock {related : Text → Text → Prop} (header : Text) {body other : Body}
    (same : related body.text other.text) :
    (Node.ofBlock header body).Resembles related (.ofBlock header other) := by
  unfold ofBlock
  cases Text.afterLead? mixinMark header with
  | some rest => exact .mixin _ same
  | none =>
      cases Text.afterLead? mediaMark header with
      | some query => exact .media _ same
      | none => exact .rule _ same

namespace Segmentation

variable {related : Text → Text → Prop} {whole other : Segmentation}

theorem Alike.resembles (refl : ∀ text, related text text) (alike : whole.Alike other) :
    whole.Resembles related other :=
  ⟨alike.nodes.imp fun _ _ same => same.resembles refl, alike.fault⟩

theorem Resembles.cons (same : whole.Resembles related other) {segment copy : Segment}
    (front : (Node.ofSegment segment).Resembles related (.ofSegment copy)) :
    (whole.cons segment).Resembles related (other.cons copy) :=
  ⟨.cons front same.nodes, same.balanced⟩

theorem Resembles.thins (names : List Text) (same : whole.Resembles related other) :
    whole.Thins names related other := ⟨.of_forall₂ same.nodes, same.balanced⟩

end Segmentation

private theorem Corresponds.overlooks {related : Text → Text → Prop}
    (corresponds : Corresponds related) :
    Overlooks [] related :=
  fun body other texts => ⟨(corresponds body other texts).thins [], fun _ _ => List.not_mem_nil⟩

/-- The same values, and mixins with related texts under all names but those listed. -/
structure Frame.Resembles (names : List Text) (related : Text → Text → Prop)
    (frame other : Frame) : Prop where
  values : ∀ name, (frame.bindings.find? name).map Binding.value =
    (other.bindings.find? name).map Binding.value
  mixins : ∀ name ∉ names,
    Option.Rel (fun mixin copy : Mixin => related mixin.body.text copy.body.text)
      (frame.mixins.find? name) (other.mixins.find? name)

private theorem Frame.resembles_empty (names : List Text) (related : Text → Text → Prop) :
    Frame.Resembles names related .empty .empty := ⟨fun _ => rfl, fun _ _ => .none⟩

private theorem Table.rel_find?_insert {α β : Type} {related : α → β → Prop} {table : Table α}
    {other : Table β} {name : Text} (same : Option.Rel related (table.find? name) (other.find? name))
    (key : Text) {value : α} {copy : β} (entered : related value copy) :
    Option.Rel related ((table.insert key value).find? name) ((other.insert key copy).find? name) := by
  by_cases hit : name = key
  · subst hit
    rw [find?_insert_self, find?_insert_self]
    exact .some entered
  · rw [find?_insert_of_ne _ _ _ _ hit, find?_insert_of_ne _ _ _ _ hit]
    exact same

def Frames.Resemble (names : List Text) (related : Text → Text → Prop) : Frames → Frames → Prop :=
  List.Forall₂ (Frame.Resembles names related)

namespace Frames.Resemble

variable {names : List Text} {related : Text → Text → Prop} {frames others : Frames}

private theorem push (same : Resemble names related frames others) :
    Resemble names related (.empty :: frames) (.empty :: others) :=
  .cons (Frame.resembles_empty names related) same

private theorem pop (same : Resemble names related frames others) :
    Resemble names related (frames.drop 1) (others.drop 1) := by
  cases same with
  | nil => exact .nil
  | cons front outer => exact outer

private theorem lookup_eq (same : Resemble names related frames others) (name : Text) :
    (frames.lookup name).map Binding.value = (others.lookup name).map Binding.value := by
  induction same with
  | nil => rfl
  | @cons frame other rest outer front _ ih =>
      have here := front.values name
      simp only [Frames.lookup, List.findSome?_cons] at ih ⊢
      cases own : frame.bindings.find? name with
      | none =>
          rw [own] at here
          rw [Option.map_eq_none_iff.mp here.symm]
          exact ih
      | some found =>
          rw [own] at here
          obtain ⟨copy, present, looks⟩ := Option.map_eq_some_iff.mp here.symm
          rw [present]
          exact congrArg some looks.symm

private theorem findMixin (same : Resemble names related frames others) {name : Text}
    (asked : name ∉ names) :
    Option.Rel (fun mixin copy : Mixin => related mixin.body.text copy.body.text)
      (frames.findMixin name) (others.findMixin name) := by
  induction same with
  | nil => exact .none
  | @cons frame other rest outer front _ ih =>
      have here := front.mixins name asked
      simp only [Frames.findMixin, List.findSome?_cons] at ih ⊢
      generalize frame.mixins.find? name = found at here ⊢
      generalize other.mixins.find? name = copy at here ⊢
      cases here with
      | none => exact ih
      | some inside => exact .some inside

private theorem modifyInner (same : Resemble names related frames others)
    {change alter : Frame → Frame}
    (keeps : ∀ {frame other : Frame}, frame.Resembles names related other →
      (change frame).Resembles names related (alter other)) :
    Resemble names related (frames.modifyInner change) (others.modifyInner alter) := by
  cases same with
  | nil => exact .nil
  | cons front outer => exact .cons (keeps front) outer

private theorem modifyOuter (same : Resemble names related frames others)
    {change alter : Frame → Frame}
    (keeps : ∀ {frame other : Frame}, frame.Resembles names related other →
      (change frame).Resembles names related (alter other)) :
    Resemble names related (frames.modifyOuter change) (others.modifyOuter alter) := by
  induction same with
  | nil => exact .nil
  | cons front outer ih =>
      cases outer with
      | nil => exact .cons (keeps front) .nil
      | cons second rest => exact .cons front ih

private theorem bind (same : Resemble names related frames others) (key value : Text)
    (isGlobal : Bool) (here there : Location) :
    Resemble names related (frames.bind ⟨key, value, isGlobal, here⟩)
      (others.bind ⟨key, value, isGlobal, there⟩) := by
  have keeps : ∀ {frame other : Frame}, frame.Resembles names related other →
      ({ frame with bindings := frame.bindings.insert key ⟨key, value, isGlobal, here⟩ } :
        Frame).Resembles names related
      { other with bindings := other.bindings.insert key ⟨key, value, isGlobal, there⟩ } :=
    fun alike => ⟨Table.map_find?_insert alike.values key rfl, alike.mixins⟩
  unfold Frames.bind
  cases isGlobal with
  | true => exact same.modifyOuter keeps
  | false => exact same.modifyInner keeps

private theorem defineMixin (same : Resemble names related frames others) (name : Text)
    {body other : Body} (texts : related body.text other.text) :
    Resemble names related (frames.defineMixin ⟨name, body⟩) (others.defineMixin ⟨name, other⟩) := by
  apply same.modifyInner
  intro frame copy alike
  exact ⟨alike.values, fun asked other => Table.rel_find?_insert (alike.mixins asked other) name texts⟩

private theorem defineMixin_left (same : Resemble names related frames others) {defined : Mixin}
    (unasked : defined.name ∈ names) : Resemble names related (frames.defineMixin defined) others := by
  cases same with
  | nil => exact .nil
  | cons front outer =>
      refine .cons ⟨front.values, fun name asked => ?_⟩ outer
      have other : name ≠ defined.name := fun same => asked (same ▸ unasked)
      rw [Table.find?_insert_of_ne _ _ _ _ other]
      exact front.mixins name asked

private theorem substitute (same : Resemble names related frames others) (value : Text)
    (here there : Location) :
    Agree Eq (frames.substitute value here) (others.substitute value there) := by
  unfold Frames.substitute
  cases Reference.ofValue? value.trim with
  | none => exact .ok rfl
  | some reference =>
      have found := same.lookup_eq reference.name
      simp only
      cases own : frames.lookup reference.name with
      | none =>
          rw [own] at found
          rw [Option.map_eq_none_iff.mp found.symm]
          exact .error rfl
      | some binding =>
          rw [own] at found
          obtain ⟨copy, present, looks⟩ := Option.map_eq_some_iff.mp found.symm
          rw [present]
          simp only [looks]
          exact .ok rfl

end Frames.Resemble

private theorem Property.substitute_of_unwritten {declared : Property}
    (unwritten : declared.written? = none) (frames : Frames) :
    frames.substitute declared.value declared.location = .ok declared.value.trim := by
  have noReference : Reference.ofValue? declared.value.trim = none := by
    rw [Reference.ofValue?_eq_none_iff]
    intro begins
    obtain ⟨rest, same⟩ := List.head?_eq_some_iff.mp begins
    simp [written?, same, omittedValues] at unwritten
  rw [Frames.substitute, noReference]

/-! ### Reading in step -/

namespace OnePass

structure State.Resembles (names : List Text) (related : Text → Text → Prop)
    (state other : State) : Prop where
  frames : Frames.Resemble names related state.frames other.frames
  yielded : state.yielded = other.yielded

private theorem State.Resembles.addLines {names : List Text} {related : Text → Text → Prop}
    {state other : State} (same : state.Resembles names related other) (lines : List Line) :
    (state.addLines lines).Resembles names related (other.addLines lines) :=
  ⟨same.frames, by simp only [State.addLines, same.yielded]⟩

def Reading.InStep (names : List Text) (related : Text → Text → Prop) (reading : Reading) : Prop :=
  ∀ (surroundings : Surroundings) (body other : Body) (state twin : State),
    related body.text other.text → state.Resembles names related twin →
    Agree (State.Resembles names related) (reading surroundings body state).outcome
      (reading surroundings other twin).outcome

section Nodes

variable {names : List Text} {related : Text → Text → Prop} {options : CompileOptions}
  {reading : Reading} {surroundings : Surroundings} {state twin : State}

private theorem readScoped_inStep (inStep : reading.InStep names related)
    (surroundings : Surroundings)
    {body other : Body} (texts : related body.text other.text) {frames others : Frames}
    (same : Frames.Resemble names related frames others) :
    Agree (fun first second : Text × Frames =>
        first.1 = second.1 ∧ Frames.Resemble names related first.2 second.2)
      (readScoped reading surroundings body frames).outcome
      (readScoped reading surroundings other others).outcome := by
  have inner : State.Resembles names related ⟨.empty :: frames, .empty⟩ ⟨.empty :: others, .empty⟩ :=
    ⟨same.push, rfl⟩
  refine (inStep surroundings body other _ _ texts inner).map fun final last ended => ?_
  exact ⟨by rw [ended.yielded], ended.frames.pop⟩

private theorem readInclusion_inStep (inStep : reading.InStep names related) {name : Text}
    (asked : name ∉ names) (here there : Location) (same : state.Resembles names related twin) :
    Agree (State.Resembles names related)
      (readInclusion options reading surroundings ⟨name, here⟩ state).outcome
      (readInclusion options reading surroundings ⟨name, there⟩ twin).outcome := by
  have found := same.frames.findMixin asked
  unfold readInclusion
  simp only
  generalize state.frames.findMixin name = defined at found ⊢
  generalize twin.frames.findMixin name = copy at found ⊢
  cases found with
  | none =>
      simp only
      split
      · exact .error rfl
      · exact .ok same
  | some texts =>
      simp only
      split
      · exact .error rfl
      · exact inStep _ _ _ state twin texts same

private theorem readNode_inStep (inStep : reading.InStep names related) {node copy : Node}
    (alike : node.Resembles related copy)
    (asked : ∀ request, copy = .inclusion request → request.name ∉ names)
    (same : state.Resembles names related twin) :
    Agree (State.Resembles names related)
      (readNode options reading surroundings state node).outcome
      (readNode options reading surroundings twin copy).outcome := by
  cases alike with
  | binding key value isGlobal here there =>
      exact .ok ⟨same.frames.bind key value isGlobal here there, same.yielded⟩
  | property key value here there =>
      have meant : Agree Eq (Traced.ofExcept (state.frames.substitute value here)).outcome
          (Traced.ofExcept (twin.frames.substitute value there)).outcome :=
        same.frames.substitute value here there
      refine meant.map ?_
      rintro text _ rfl
      exact same.addLines _
  | comment text => exact .ok (same.addLines _)
  | mixin name texts => exact .ok ⟨same.frames.defineMixin name texts, same.yielded⟩
  | media query texts =>
      refine (readScoped_inStep inStep surroundings texts same.frames).map ?_
      rintro ⟨text, inner⟩ ⟨_, outer⟩ ⟨rfl, scopes⟩
      exact ⟨scopes, by simp only [same.yielded]⟩
  | inclusion name here there =>
      exact readInclusion_inStep inStep (asked ⟨name, there⟩ rfl) here there same
  | rule selector texts =>
      refine (readScoped_inStep inStep _ texts same.frames).map ?_
      rintro ⟨text, inner⟩ ⟨_, outer⟩ ⟨rfl, scopes⟩
      exact ⟨scopes, by simp only [same.yielded]⟩

private theorem readNode_of_silent {node : Node} (silent : node.Silent names)
    (same : state.Resembles names related twin) :
    ∃ next, (readNode options reading surroundings state node).outcome = .ok next ∧
      next.Resembles names related twin := by
  cases silent with
  | @property declared unwritten =>
      have nothing : Child.line? (.property { declared with value := declared.value.trim }) =
          none := by
        rw [Child.line?, Property.written?, Text.trim_trim]
        rw [Property.written?] at unwritten
        rw [unwritten]
        rfl
      refine ⟨state.addLines [], ?_, same.frames, ?_⟩
      · rw [readNode, declared.substitute_of_unwritten unwritten]
        exact congrArg (fun line? : Option Line => Except.ok (state.addLines line?.toList)) nothing
      · simp only [State.addLines, List.append_nil, same.yielded]
  | mixin unasked => exact ⟨_, rfl, same.frames.defineMixin_left unasked, same.yielded⟩

end Nodes

private theorem readSegmentation_inStep {names : List Text} {related : Text → Text → Prop}
    {options : CompileOptions} {reading : Reading} (overlooks : Overlooks names related)
    (inStep : reading.InStep names related) (surroundings : Surroundings) {body other : Body}
    (texts : related body.text other.text) {state twin : State}
    (same : state.Resembles names related twin) :
    Agree (State.Resembles names related)
      (readSegmentation options reading surroundings body.segmentation state).outcome
      (readSegmentation options reading surroundings other.segmentation twin).outcome := by
  obtain ⟨thins, asked⟩ := overlooks body other texts
  have run : Agree (State.Resembles names related)
      (Traced.foldl (readNode options reading surroundings) state body.nodes).outcome
      (Traced.foldl (readNode options reading surroundings) twin other.nodes).outcome := by
    refine Agree.foldl thins.nodes ?_ (fun _ _ _ before silent => readNode_of_silent silent before)
      same
    intro value partner node copy present before alike
    exact readNode_inStep inStep alike (fun request inclusion => asked request (inclusion ▸ present))
      before
  refine run.andThen fun final last ended => ?_
  have balanced := thins.balanced
  cases faulty : body.segmentation.fault? with
  | none =>
      rw [balanced.mp faulty]
      exact .ok ended
  | some fault =>
      cases faultyToo : other.segmentation.fault? with
      | none =>
          rw [balanced.mpr faultyToo] at faulty
          cases faulty
      | some mistake =>
          obtain ⟨_, context?, _, unbalanced⟩ := body.scans.braceAt [] rfl fault faulty
          obtain ⟨_, reason?, _, unbalancedToo⟩ := other.scans.braceAt [] rfl mistake faultyToo
          exact .error (by rw [unbalanced, unbalancedToo]; rfl)

private theorem readBody_inStep {names : List Text} {related : Text → Text → Prop}
    (overlooks : Overlooks names related) (options : CompileOptions) (levels : Nat) :
    (readBody options levels).InStep names related := by
  induction levels with
  | zero => exact fun _ _ _ _ _ _ _ => .error rfl
  | succ levels ih =>
      intro surroundings body other state twin texts same
      exact readSegmentation_inStep overlooks ih surroundings texts same

end OnePass

private theorem outcome_compileSource_eq_error {options : CompileOptions} {source : Text}
    {error : Error} : (compileSource options source).outcome = .error error ↔
      (OnePass.readBody options (nestingLimit + 1) ⟨[], []⟩ (.ofSource source)
        ⟨[.empty], .empty⟩).outcome = .error error := by
  rw [ofSource_view, compileSource, Traced.outcome_map_eq_error,
    Traced.outcome_map_eq_error]

/-- What is overlooked makes no difference: both stylesheets compile to the same text, or fail
for causes of one kind. -/
theorem Overlooks.agree {names : List Text} {related : Text → Text → Prop}
    (overlooks : Overlooks names related) (options : CompileOptions) {source other : Text}
    (texts : related source other) :
    Agree Eq (compileSource options source).outcome (compileSource options other).outcome := by
  have start : OnePass.State.Resembles names related ⟨[.empty], .empty⟩ ⟨[.empty], .empty⟩ :=
    ⟨.cons (Frame.resembles_empty names related) .nil, rfl⟩
  have read := OnePass.readBody_inStep overlooks options (nestingLimit + 1) ⟨[], []⟩
    (.ofSource source) (.ofSource other) _ _ texts start
  generalize ended : (OnePass.readBody options (nestingLimit + 1) ⟨[], []⟩ (.ofSource source)
    ⟨[.empty], .empty⟩).outcome = outcome at read
  generalize endedToo : (OnePass.readBody options (nestingLimit + 1) ⟨[], []⟩ (.ofSource other)
    ⟨[.empty], .empty⟩).outcome = outcomeToo at read
  cases read with
  | ok same =>
      rw [outcome_compileSource_eq_ok.mpr ⟨_, ended, rfl⟩,
        outcome_compileSource_eq_ok.mpr ⟨_, endedToo, rfl⟩, same.yielded]
      exact .ok rfl
  | error kind =>
      rw [outcome_compileSource_eq_error.mpr ended, outcome_compileSource_eq_error.mpr endedToo]
      exact .error kind

theorem Corresponds.agree {related : Text → Text → Prop}
    (corresponds : Corresponds related) (options : CompileOptions) {source other : Text}
    (texts : related source other) :
    Agree Eq (compileSource options source).outcome (compileSource options other).outcome :=
  corresponds.overlooks.agree options texts

end NestedCss
