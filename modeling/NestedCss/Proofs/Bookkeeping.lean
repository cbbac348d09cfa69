import Mathlib.Logic.Relation
import NestedCss.Reader
import NestedCss.Proofs.Verdicts

set_option autoImplicit false

/-! The bookkeeping of a reader. At any moment the counter and the names are those of the
frames that wait, so a call that returns to the frames that it was made with returns to the
counter and the names as well. No source makes a reader go on for ever: each call comes back,
by induction on the levels that are left and, within a body, on the segments that are to
come, and what comes back is the result of `readBody`. -/

namespace NestedCss

open Relation (ReflTransGen)

/-! ### What the waiting frames say -/

/-- The bodies that are being read below the outermost level when a segment is dealt with,
innermost first. A body of a mixin is given by the name of the mixin. -/
inductive Around : List Continuation → List (Option Text) → Prop
  | sheet (rule : RuleId) (rest : Scanner) : Around [.body rule rest] []
  | block {waiting : List Continuation} {bodies : List (Option Text)} (rule : RuleId)
      (rest : Scanner) (outer : Around waiting bodies) :
      Around (.body rule rest :: .counted :: waiting) (none :: bodies)
  | mixin {waiting : List Continuation} {bodies : List (Option Text)} (rule : RuleId)
      (rest : Scanner) (name : Text) (outer : Around waiting bodies) :
      Around (.body rule rest :: .counted :: .expansion name :: waiting) (some name :: bodies)

namespace Continuation

def counts : Continuation → Bool
  | .counted => true
  | _ => false

def name? : Continuation → Option Text
  | .expansion name => some name
  | _ => none

def levels (waiting : List Continuation) : Nat := waiting.countP counts

def names (waiting : List Continuation) : List Text := (waiting.filterMap name?).reverse

variable (waiting : List Continuation)

@[simp] theorem levels_body (rule : RuleId) (rest : Scanner) :
    levels (.body rule rest :: waiting) = levels waiting := rfl

@[simp] theorem levels_counted : levels (.counted :: waiting) = levels waiting + 1 :=
  List.countP_cons_of_pos rfl

@[simp] theorem levels_expansion (name : Text) :
    levels (.expansion name :: waiting) = levels waiting := rfl

@[simp] theorem names_body (rule : RuleId) (rest : Scanner) :
    names (.body rule rest :: waiting) = names waiting := rfl

@[simp] theorem names_counted : names (.counted :: waiting) = names waiting := rfl

@[simp] theorem names_expansion (name : Text) :
    names (.expansion name :: waiting) = names waiting ++ [name] := by
  simp [names, name?]

end Continuation

namespace Around

open Continuation (levels names)

variable {waiting : List Continuation} {bodies : List (Option Text)}

private theorem levels_eq (around : Around waiting bodies) : levels waiting = bodies.length := by
  induction around with
  | sheet rule rest => rfl
  | block rule rest outer ih => simp [ih]
  | mixin rule rest name outer ih => simp [ih]

private theorem names_eq (around : Around waiting bodies) :
    names waiting = bodies.reverse.filterMap id := by
  induction around with
  | sheet rule rest => rfl
  | block rule rest outer ih => simp [ih]
  | mixin rule rest name outer ih => simp [ih]

private theorem moved {rule : RuleId} {rest : Scanner}
    (around : Around (.body rule rest :: waiting) bodies) (following : RuleId)
    (further : Scanner) : Around (.body following further :: waiting) bodies := by
  cases around with
  | sheet => exact .sheet following further
  | block _ _ outer => exact .block following further outer
  | mixin _ _ name outer => exact .mixin following further name outer

private theorem of_suffix {inner : List Continuation} {rule : RuleId} {rest : Scanner}
    (around : Around inner bodies) (behind : .body rule rest :: waiting <:+ inner) :
    ∃ outer, Around (.body rule rest :: waiting) outer := by
  induction around with
  | sheet other scanner =>
      rcases List.suffix_cons_iff.mp behind with same | further
      · exact ⟨_, same.symm ▸ Around.sheet other scanner⟩
      · simp at further
  | block other scanner outer ih =>
      rcases List.suffix_cons_iff.mp behind with same | further
      · exact ⟨_, same.symm ▸ Around.block other scanner outer⟩
      · exact ih ((List.suffix_cons_iff.mp further).resolve_left (by simp))
  | mixin other scanner name outer ih =>
      rcases List.suffix_cons_iff.mp behind with same | further
      · exact ⟨_, same.symm ▸ Around.mixin other scanner name outer⟩
      · have above := (List.suffix_cons_iff.mp further).resolve_left (by simp)
        exact ih ((List.suffix_cons_iff.mp above).resolve_left (by simp))

end Around

namespace Reader

open Continuation (levels names)

variable {options : CompileOptions}

/-! ### Every reader keeps its books -/

/-- What waits is a chain of bodies, less what the task adds to it. After a return it may be
any part of such a chain that reaches to the outermost level. -/
def Orderly (waiting : List Continuation) : Task → Prop
  | .read rule rest => ∃ bodies, Around (.body rule rest :: waiting) bodies
  | .apply _ _ | .expand _ _ => ∃ bodies, Around waiting bodies
  | .enter _ _ => ∀ rule rest, ∃ bodies, Around (.body rule rest :: .counted :: waiting) bodies
  | .returned _ => ∃ inner bodies, Around inner bodies ∧ waiting <:+ inner

structure Regular (reader : Reader) : Prop where
  depth : reader.depth = levels reader.waiting
  active : reader.active = names reader.waiting
  within : reader.depth ≤ nestingLimit
  distinct : reader.active.Nodup
  orderly : Orderly reader.waiting reader.task

namespace Regular

variable {reader : Reader} {rule : RuleId}

private theorem ofSource (source : Text) : Regular (.ofSource source) :=
  ⟨rfl, rfl, Nat.zero_le _, .nil, [], .sheet _ _⟩

private theorem answer (regular : reader.Regular) (outcome : Except Error Unit) (tree : RuleTree)
    (dropped : List Inclusion) {inner : List Continuation} {bodies : List (Option Text)}
    (around : Around inner bodies) (behind : reader.waiting <:+ inner) :
    Regular ({ reader with tree, dropped }.answer outcome) :=
  { regular with orderly := ⟨inner, bodies, around, behind⟩ }

private theorem readOn {rest : Scanner} (regular : reader.Regular)
    (asked : reader.task = .read rule rest) : Regular (reader.readOn rule rest) := by
  obtain ⟨bodies, around⟩ := asked ▸ regular.orderly
  unfold Reader.readOn
  split
  · exact regular.answer _ _ _ around (List.suffix_cons _ _)
  · exact regular.answer _ _ _ around (List.suffix_cons _ _)
  · exact { regular with orderly := ⟨bodies, around.moved _ _⟩ }

private theorem entering {bodies : List (Option Text)} (regular : reader.Regular)
    (around : Around reader.waiting bodies) (tree : RuleTree) (body : Body) :
    Regular { reader with tree, task := .enter rule body } :=
  { regular with orderly := fun inner rest => ⟨none :: bodies, .block inner rest around⟩ }

private theorem apply {node : Node} (regular : reader.Regular)
    (asked : reader.task = .apply rule node) : Regular (reader.apply rule node) := by
  obtain ⟨bodies, around⟩ := asked ▸ regular.orderly
  cases node with
  | property property =>
      simp only [Reader.apply]
      split
      · exact regular.answer _ _ _ around (List.suffix_refl _)
      · exact regular.answer _ _ _ around (List.suffix_refl _)
  | binding | comment | mixin => exact regular.answer _ _ _ around (List.suffix_refl _)
  | media | rule => exact regular.entering around _ _
  | inclusion inclusion => exact { regular with orderly := ⟨bodies, around⟩ }

private theorem expand {inclusion : Inclusion} (regular : reader.Regular)
    (asked : reader.task = .expand rule inclusion) :
    Regular (reader.expand options rule inclusion) := by
  obtain ⟨bodies, around⟩ := asked ▸ regular.orderly
  unfold Reader.expand
  split
  · split
    · exact regular.answer _ _ _ around (List.suffix_refl _)
    · exact regular.answer _ _ _ around (List.suffix_refl _)
  · rename_i mixin found
    by_cases again : inclusion.name ∈ reader.active
    · simp only [if_pos again]
      exact regular.answer _ _ _ around (List.suffix_refl _)
    · simp only [if_neg again]
      refine ⟨regular.depth, ?_, regular.within, ?_, fun inner rest =>
        ⟨some inclusion.name :: bodies, .mixin inner rest inclusion.name around⟩⟩
      · rw [Continuation.names_expansion, regular.active]
      · exact List.nodup_append.mpr ⟨regular.distinct, List.nodup_cons.mpr ⟨List.not_mem_nil, .nil⟩,
          fun name known other last same => again (List.mem_singleton.mp last ▸ same ▸ known)⟩

private theorem enter {body : Body} (regular : reader.Regular)
    (asked : reader.task = .enter rule body) : Regular (reader.enter rule body) := by
  have around := asked ▸ regular.orderly
  unfold Reader.enter
  split
  · obtain ⟨bodies, around⟩ := around rule (.ofBody body)
    exact regular.answer _ _ _ around
      ((List.suffix_cons _ _).trans (List.suffix_cons _ _))
  · rename_i deeper
    refine ⟨?_, regular.active, Nat.lt_of_not_le deeper, regular.distinct,
      around rule (.ofBody body)⟩
    rw [Continuation.levels_counted, regular.depth]

private theorem resume {outcome : Except Error Unit} {next : Reader} (regular : reader.Regular)
    (ended : reader.task = .returned outcome) (resumed : reader.resume outcome = some next) :
    next.Regular := by
  obtain ⟨inner, bodies, around, behind⟩ := ended ▸ regular.orderly
  have counted := regular.depth
  have named := regular.active
  unfold Reader.resume at resumed
  split at resumed
  · cases resumed
  all_goals
    rename_i waiting frames
    rw [frames] at counted named behind
    -- Without its first frame, the chain still reaches to the outermost level.
    have left : Orderly waiting reader.task :=
      ended ▸ ⟨inner, bodies, around, (List.suffix_cons _ _).trans behind⟩
  · cases outcome with
    | ok =>
        obtain ⟨outer, around⟩ := around.of_suffix behind
        cases resumed
        exact ⟨counted, named, regular.within, regular.distinct, outer, around⟩
    | error =>
        cases resumed
        exact ⟨counted, named, regular.within, regular.distinct, left⟩
  · cases resumed
    rw [Continuation.levels_counted] at counted
    have lowered : reader.depth - 1 = levels waiting := by omega
    exact ⟨lowered, named, (Nat.sub_le _ _).trans regular.within, regular.distinct, left⟩
  · cases resumed
    rw [Continuation.names_expansion] at named
    have shortened : reader.active.dropLast = names waiting := by
      rw [named, List.dropLast_concat]
    exact ⟨counted, shortened, regular.within,
      regular.distinct.sublist (List.dropLast_sublist _), left⟩

private theorem step {next : Reader} (regular : reader.Regular)
    (stepped : reader.step options = some next) : next.Regular := by
  unfold Reader.step at stepped
  split at stepped
  · cases stepped
    exact regular.readOn ‹_›
  · cases stepped
    exact regular.apply ‹_›
  · cases stepped
    exact regular.expand ‹_›
  · cases stepped
    exact regular.enter ‹_›
  · exact regular.resume ‹_› stepped

end Regular

def Reaches (options : CompileOptions) : Reader → Reader → Prop :=
  ReflTransGen fun reader next => reader.step options = some next

namespace Reaches

variable {start reader last : Reader}

private theorem regular (reaches : Reaches options start reader) (regular : start.Regular) :
    reader.Regular := by
  induction reaches with
  | refl => exact regular
  | tail _ stepped ih => exact ih.step stepped

private theorem leads_to_last (reaches : Reaches options start reader)
    (ends : Reaches options start last) (ended : last.step options = none) :
    Reaches options reader last := by
  have one : Relator.RightUnique fun reader next => step options reader = some next :=
    fun _ _ _ first second => Option.some.inj (first.symm.trans second)
  rcases ReflTransGen.total_of_right_unique one reaches ends with forth | beyond
  · exact forth
  · rcases beyond.cases_head with rfl | ⟨next, stepped, _⟩
    · exact .refl
    · exact absurd (ended.symm.trans stepped) (by simp)

private theorem of_after (count : Nat) :
    ∀ {start : Reader}, start.after options count = some reader →
    Reaches options start reader := by
  induction count with
  | zero =>
      intro start same
      cases same
      exact .refl
  | succ count ih =>
      intro start same
      obtain ⟨next, stepped, further⟩ := Option.bind_eq_some_iff.mp same
      exact (ih further).head stepped

end Reaches

/-! ### Calls come back -/

/-- The call that was made when `base` waited has come to its outcome. -/
def Settled (base : List Continuation) (reader : Reader) : Prop :=
  reader.waiting = base ∧ ∃ outcome, reader.task = .returned outcome

def StepsWithin (options : CompileOptions) (base : List Continuation) (reader next : Reader) :
    Prop :=
  reader.step options = some next ∧ base <:+ reader.waiting ∧ ¬ reader.Settled base

def RunsWithin (options : CompileOptions) (base : List Continuation) : Reader → Reader → Prop :=
  ReflTransGen (StepsWithin options base)

/-- The first return of a call, with a success or with a failure. -/
def Returns (options : CompileOptions) (call back : Reader) : Prop :=
  RunsWithin options call.waiting call back ∧ back.Settled call.waiting

section Runs

variable {base : List Continuation} {reader next back : Reader}

private theorem RunsWithin.reaches (runs : RunsWithin options base reader next) :
    Reaches options reader next :=
  ReflTransGen.mono (fun _ _ stepped => stepped.1) _ _ runs

private theorem RunsWithin.outward {frame : Continuation}
    (runs : RunsWithin options (frame :: base) reader next) :
    RunsWithin options base reader next :=
  ReflTransGen.mono (fun _ _ stepped => ⟨stepped.1, (List.suffix_cons _ _).trans stepped.2.1,
    fun settled => by
      have longer := stepped.2.1.length_le
      rw [settled.1, List.length_cons] at longer
      omega⟩) _ _ runs

end Runs

/-! ### What comes back -/

/-- The call comes back with a result, and the counter and the names are as they were. -/
def Gives (options : CompileOptions) (call : Reader) (result : Traced RuleTree) : Prop :=
  ∃ tree, (∀ given, result.outcome = .ok given → tree = given) ∧
    RunsWithin options call.waiting call
      { call with
        tree
        dropped := call.dropped ++ result.dropped
        task := .returned (result.outcome.map fun _ => ()) }

private theorem Gives.returns {call : Reader} {result : Traced RuleTree}
    (gives : call.Gives options result) : ∃ back, Returns options call back := by
  obtain ⟨tree, _, runs⟩ := gives
  exact ⟨_, runs, rfl, _, rfl⟩

def Busy (reader : Reader) : Prop := ∀ outcome, reader.task ≠ .returned outcome

section Gives

variable {call : Reader} {result : Traced RuleTree}

private theorem Busy.steps {next : Reader} (busy : call.Busy)
    (stepped : call.step options = some next) :
    RunsWithin options call.waiting call next :=
  .single ⟨stepped, List.suffix_refl _, fun settled =>
    settled.2.elim fun outcome ended => busy outcome ended⟩

private theorem gives_done {tree : RuleTree} (busy : call.Busy)
    (stepped : call.step options = some ({ call with tree }.answer (.ok ()))) :
    call.Gives options (.done tree) := by
  refine ⟨tree, fun given same => Except.ok.inj same, ?_⟩
  simpa [Traced.done, answer, Except.map] using busy.steps stepped

private theorem gives_failed {error : Error} (busy : call.Busy)
    (stepped : call.step options = some (call.answer (.error error))) :
    call.Gives options (.failed error) := by
  refine ⟨call.tree, fun given same => (by cases same), ?_⟩
  simpa [Traced.failed, answer, Except.map] using busy.steps stepped

private theorem gives_dropping {inclusion : Inclusion} (busy : call.Busy)
    (stepped : call.step options =
      some ({ call with dropped := call.dropped ++ [inclusion] }.answer (.ok ()))) :
    call.Gives options (.dropping inclusion call.tree) :=
  ⟨call.tree, fun _ same => Except.ok.inj same, busy.steps stepped⟩

private theorem Gives.tail {tree : RuleTree} {task : Task} (busy : call.Busy)
    (stepped : call.step options = some { call with tree, task })
    (gives : Gives options { call with tree, task } result) : call.Gives options result := by
  obtain ⟨last, same, runs⟩ := gives
  exact ⟨last, same, (busy.steps stepped).trans runs⟩

private theorem Gives.behind {tree : RuleTree} {dropped : List Inclusion} {task : Task}
    (runs : RunsWithin options call.waiting call
      { call with tree, dropped := call.dropped ++ dropped, task })
    (gives : Gives options { call with tree, dropped := call.dropped ++ dropped, task } result) :
    call.Gives options ⟨dropped ++ result.dropped, result.outcome⟩ := by
  obtain ⟨last, same, further⟩ := gives
  rw [List.append_assoc] at further
  exact ⟨last, same, runs.trans further⟩

/-- What follows once the inner call that a frame waits for has come back. -/
theorem Gives.inside {inner : Reader} {frame : Continuation} (busy : call.Busy)
    (stepped : call.step options = some inner) (pushed : inner.waiting = frame :: call.waiting)
    (gives : inner.Gives options result) :
    ∃ tree, (∀ given, result.outcome = .ok given → tree = given) ∧
      ∀ next,
        step options
          { inner with
            tree
            dropped := inner.dropped ++ result.dropped
            task := .returned (result.outcome.map fun _ => ()) } = some next →
        RunsWithin options call.waiting call next := by
  obtain ⟨tree, same, runs⟩ := gives
  obtain ⟨_, _, _, _, _, waiting⟩ := inner
  change waiting = frame :: call.waiting at pushed
  subst pushed
  refine ⟨tree, same, fun next resumed => (busy.steps stepped).trans (runs.outward.tail ?_)⟩
  exact ⟨resumed, List.suffix_cons _ _, fun settled => List.cons_ne_self _ _ settled.1⟩

end Gives

/-! ### One level after the other -/

/-- The calls for bodies at a depth give what `nested` gives. -/
def Serves (options : CompileOptions) (nested : BodyReader) (depth : Nat) : Prop :=
  ∀ (call : Reader) (rule : RuleId) (body : Body), call.depth = depth →
    call.task = .enter rule body →
      call.Gives options (nested ⟨rule, call.active⟩ body call.tree)

section Levels

variable {nested : BodyReader} {call : Reader} {rule : RuleId}

private theorem expand_gives {inclusion : Inclusion} (serves : Serves options nested call.depth)
    (asked : call.task = .expand rule inclusion) :
    call.Gives options
      (expandInclusion options nested ⟨rule, call.active⟩ inclusion call.tree) := by
  have busy : call.Busy := fun outcome => by simp [asked]
  have stepped : call.step options = some (call.expand options rule inclusion) := by
    simp only [step, asked]
  unfold expand at stepped
  unfold expandInclusion
  cases found : call.tree.findMixin rule inclusion.name with
  | none =>
      simp only [found] at stepped ⊢
      by_cases strict : options.strictIncludes
      · rw [if_pos strict] at stepped ⊢
        exact gives_failed busy stepped
      · rw [if_neg strict] at stepped ⊢
        exact gives_dropping busy stepped
  | some mixin =>
      simp only [found] at stepped ⊢
      by_cases again : inclusion.name ∈ call.active
      · rw [if_pos again] at stepped ⊢
        exact gives_failed busy stepped
      · rw [if_neg again] at stepped ⊢
        obtain ⟨tree, same, runs⟩ :=
          Gives.inside busy stepped rfl (serves _ rule mixin.body rfl rfl)
        exact ⟨tree, same, runs _ (by simp [step, resume])⟩

private theorem apply_gives {node : Node} (serves : Serves options nested call.depth)
    (asked : call.task = .apply rule node) :
    call.Gives options (applyNode options nested ⟨rule, call.active⟩ call.tree node) := by
  have busy : call.Busy := fun outcome => by simp [asked]
  have stepped : call.step options = some (call.apply rule node) := by
    simp only [step, asked]
  cases node with
  | property property =>
      simp only [apply] at stepped
      simp only [applyNode]
      cases value : call.tree.substitute rule property.value property.location with
      | error error =>
          simp only [value] at stepped
          exact gives_failed busy stepped
      | ok value =>
          simp only [value] at stepped
          exact gives_done busy stepped
  | binding | comment | mixin => exact gives_done busy stepped
  | media block => exact .tail busy stepped (serves _ _ _ rfl rfl)
  | rule selector body => exact .tail busy stepped (serves _ _ _ rfl rfl)
  | inclusion inclusion => exact .tail busy stepped (expand_gives serves rfl)

def takeAnswer (options : CompileOptions) (nested : BodyReader) (site : Site) (tree : RuleTree) :
    Except Error Segment → Traced RuleTree
  | .ok segment => applyNode options nested site tree (.ofSegment segment)
  | .error fault => .failed fault

private theorem foldl_takeAnswer_ok (site : Site) (segments : List Segment) : ∀ tree : RuleTree,
    Traced.foldl (takeAnswer options nested site) tree (segments.map .ok) =
      Traced.foldl (applyNode options nested site) tree (segments.map Node.ofSegment) := by
  induction segments with
  | nil => exact fun tree => rfl
  | cons segment rest ih =>
      intro tree
      simp only [List.map_cons, Traced.foldl, ih]
      rfl

private theorem foldl_takeAnswer (site : Site) (whole : Segmentation) (tree : RuleTree) :
    Traced.foldl (takeAnswer options nested site) tree whole.results =
      applySegmentation options nested site whole tree := by
  rw [Segmentation.results, Traced.foldl_append, foldl_takeAnswer_ok, applySegmentation,
    Traced.foldNodes]
  congr 1
  funext reached
  cases whole.fault? with
  | none => rfl
  | some fault => rfl

private theorem read_gives (results : List (Except Error Segment)) :
    ∀ (call : Reader) (scanner : Scanner), Serves options nested call.depth →
      call.task = .read rule scanner → scanner.results = results →
      call.Gives options
        (Traced.foldl (takeAnswer options nested ⟨rule, call.active⟩) call.tree results) := by
  -- On the answers to come, for any reader: each one starts from what the last one left.
  induction results with
  | nil =>
      intro call scanner serves asked left
      have busy : call.Busy := fun outcome => by simp [asked]
      have given : scanner.next.1 = none := by rw [scanner.next_results.1, left]; rfl
      refine gives_done busy ?_
      simp only [step, asked, readOn]
      rw [← Prod.eta scanner.next, given]
      rfl
  | cons first rest ih =>
      intro call scanner serves asked left
      have busy : call.Busy := fun outcome => by simp [asked]
      have given : scanner.next.1 = some first := by rw [scanner.next_results.1, left]; rfl
      have further : scanner.next.2.results = rest := by rw [scanner.next_results.2, left]; rfl
      have stepped : call.step options = some (call.readOn rule scanner) := by
        simp only [step, asked]
      unfold readOn at stepped
      rw [← Prod.eta scanner.next, given] at stepped
      cases first with
      | error fault => exact gives_failed busy stepped
      | ok segment =>
          obtain ⟨tree, same, runs⟩ := Gives.inside busy stepped rfl (apply_gives serves rfl)
          simp only [Traced.foldl, takeAnswer, Traced.andThen]
          cases taken : (applyNode options nested ⟨rule, call.active⟩ call.tree
            (.ofSegment segment)).outcome with
          | error error =>
              simp only [taken] at runs ⊢
              exact ⟨tree, fun given same => (by cases same), runs _ rfl⟩
          | ok reached =>
              simp only [taken] at runs ⊢
              cases same reached taken
              exact .behind (runs _ rfl) (ih _ _ serves rfl further)

private theorem enter_gives {body : Body} (serves : Serves options nested (call.depth + 1))
    (deeper : call.depth < nestingLimit) (asked : call.task = .enter rule body) :
    call.Gives options
      (applySegmentation options nested ⟨rule, call.active⟩ body.segmentation call.tree) := by
  have busy : call.Busy := fun outcome => by simp [asked]
  have stepped : call.step options = some (call.enter rule body) := by
    simp only [step, asked]
  rw [enter, if_neg (Nat.not_le.mpr deeper)] at stepped
  obtain ⟨tree, same, runs⟩ := Gives.inside busy stepped rfl
    (read_gives body.segmentation.results _ (.ofBody body) serves rfl rfl)
  rw [foldl_takeAnswer] at same runs
  exact ⟨tree, same, runs _ rfl⟩

end Levels

private theorem serves_readBody (options : CompileOptions) (levels : Nat) : ∀ depth : Nat,
    depth + levels = nestingLimit → Serves options (readBody options levels) depth := by
  -- The body of a mixin is no part of the text at hand, so the levels are what gets less.
  induction levels with
  | zero =>
      intro depth full call rule body here asked
      have stepped : call.step options = some (call.enter rule body) := by
        simp only [step, asked]
      rw [enter, if_pos (by omega)] at stepped
      exact gives_failed (fun outcome => by simp [asked]) stepped
  | succ levels ih =>
      intro depth left call rule body here asked
      exact enter_gives (ih (call.depth + 1) (by omega)) (by omega) asked

private theorem exists_returns (options : CompileOptions) (call : Reader)
    (within : call.depth ≤ nestingLimit) : ∃ back, Returns options call back := by
  have serves := serves_readBody options (nestingLimit - call.depth) call.depth (by omega)
  cases asked : call.task with
  | read rule scanner => exact (read_gives scanner.results call scanner serves asked rfl).returns
  | apply rule node => exact (apply_gives serves asked).returns
  | expand rule inclusion => exact (expand_gives serves asked).returns
  | enter rule body => exact (serves call rule body rfl asked).returns
  | returned outcome => exact ⟨call, .refl, rfl, outcome, asked⟩

private theorem ofSource_gives (options : CompileOptions) (source : Text) :
    Gives options (.ofSource source) (RuleTree.ofSource options source) := by
  have serves := serves_readBody options nestingLimit 0 (Nat.zero_add _)
  have gives := read_gives (Body.ofSource source).segmentation.results (.ofSource source) _ serves
    rfl rfl
  rwa [foldl_takeAnswer] at gives

private theorem eq_result_of_tree {tree : RuleTree} {result : Traced RuleTree}
    (same : ∀ given, result.outcome = .ok given → tree = given) :
    ⟨result.dropped, (result.outcome.map fun _ => ()).map fun _ => tree⟩ = result := by
  obtain ⟨dropped, outcome⟩ := result
  cases outcome with
  | error error => rfl
  | ok given =>
      cases same given rfl
      rfl

/-- Whenever a segment is dealt with, the counter is the number of bodies that are being read
below the outermost level, within the limit, and the names are those of the mixin bodies among
them, outermost first and without repetition. Each call comes back, with a success or with a
failure, to the counter and the names that it was made with. So a reader comes to an end, and
the end has the result of `RuleTree.ofSource`. -/
theorem books_match_calls (options : CompileOptions) (source : Text) :
    (∀ reader, Reaches options (.ofSource source) reader →
      (∀ rule node, reader.task = .apply rule node →
        reader.depth ≤ nestingLimit ∧ reader.active.Nodup ∧
          ∃ bodies, Around reader.waiting bodies ∧ reader.depth = bodies.length ∧
            reader.active = bodies.reverse.filterMap id) ∧
      (∃ back, Returns options reader back) ∧
      ∀ back, Returns options reader back →
        back.depth = reader.depth ∧ back.active = reader.active) ∧
    ∃ last, (∀ reader, Reaches options (.ofSource source) reader → Reaches options reader last) ∧
      last.step options = none ∧ last.result? = some (RuleTree.ofSource options source) := by
  constructor
  · intro reader reaches
    have regular := reaches.regular (.ofSource source)
    refine ⟨fun rule node asked => ?_, exists_returns options reader regular.within,
      fun back returns => ?_⟩
    · obtain ⟨bodies, around⟩ := asked ▸ regular.orderly
      exact ⟨regular.within, regular.distinct, bodies, around,
        regular.depth.trans around.levels_eq, regular.active.trans around.names_eq⟩
    · have after := Reaches.regular (reaches.trans returns.1.reaches) (.ofSource source)
      constructor
      · rw [after.depth, returns.2.1, regular.depth]
      · rw [after.active, returns.2.1, regular.active]
  · obtain ⟨tree, same, runs⟩ := ofSource_gives options source
    exact ⟨_, fun reader reaches => reaches.leads_to_last runs.reaches rfl, rfl,
      congrArg some (eq_result_of_tree same)⟩

/-- Two mixins that include each other. The second gives the first a new definition while the
first is being expanded. -/
def entangled : Text :=
  "@mixin a\x7b@include b;\x7d".toList ++
    "@mixin b\x7b@mixin a\x7bx:y;\x7d@include a;\x7d".toList ++ ".x\x7b@include a;\x7d".toList

def asksFor? (reader : Reader) : Option Text :=
  match reader.task with
  | .apply _ (.inclusion inclusion) => some inclusion.name
  | _ => none

private theorem exists_of_asksFor? {reader : Reader} {name : Text}
    (asks : reader.asksFor? = some name) :
    ∃ rule inclusion, reader.task = .apply rule (.inclusion inclusion) := by
  unfold asksFor? at asks
  split at asks
  · exact ⟨_, _, ‹_›⟩
  · cases asks

theorem books_match_calls_of_entangled :
    ∃ reader, Reaches {} (.ofSource entangled) reader ∧
      (∃ rule inclusion, reader.task = .apply rule (.inclusion inclusion)) ∧
      reader.depth = 3 ∧ reader.active = ["a".toList, "b".toList] ∧
      (∃ bodies, Around reader.waiting bodies ∧ bodies.length = 3 ∧
        bodies.reverse.filterMap id = ["a".toList, "b".toList]) ∧
      ∃ back, Returns {} reader back ∧ back.depth = 3 ∧
        back.active = ["a".toList, "b".toList] := by
  have seen : ((ofSource entangled).after {} 21).map (fun reader =>
      (reader.asksFor?, reader.depth, reader.active)) =
        some (some "a".toList, 3, ["a".toList, "b".toList]) := by decide +kernel
  obtain ⟨reader, reached, shown⟩ := Option.map_eq_some_iff.mp seen
  simp only [Prod.mk.injEq] at shown
  obtain ⟨asks, depth, active⟩ := shown
  obtain ⟨rule, inclusion, asked⟩ := exists_of_asksFor? asks
  have reaches := Reaches.of_after 21 reached
  obtain ⟨atNodes, ⟨back, returns⟩, balanced⟩ :=
    (books_match_calls {} entangled).1 reader reaches
  obtain ⟨_, _, bodies, around, counted, named⟩ := atNodes rule (.inclusion inclusion) asked
  obtain ⟨sameDepth, sameNames⟩ := balanced back returns
  exact ⟨reader, reaches, ⟨rule, inclusion, asked⟩, depth, active,
    ⟨bodies, around, counted.symm.trans depth, named.symm.trans active⟩,
    back, returns, sameDepth.trans depth, sameNames.trans active⟩

end Reader
end NestedCss
