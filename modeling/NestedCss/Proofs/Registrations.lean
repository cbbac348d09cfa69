import NestedCss.Template

set_option autoImplicit false

/-! Histories of a registry. Programs register animations, look them up and compile with
them, in any order. A registration tries one candidate for a name after the other, each
under the next running number, and enters the first that is not taken behind all entries;
everything else leaves the registry as it was. So after any history the names are distinct,
whatever digest they were made with, and an entry stays what it was when it was made. -/

namespace NestedCss

namespace Sha256

private theorem length_round (state : List UInt32) (added : UInt32) (length : state.length = 8) :
    (round state added).length = 8 := by
  unfold round
  split
  · rfl
  · exact length

private theorem length_compress (state block : List UInt32) (length : state.length = 8) :
    (compress state block).length = 8 := by
  have mixed : ∀ added : List UInt32, (added.foldl round state).length = 8 := by
    intro added
    induction added generalizing state with
    | nil => exact length
    | cons first rest ih => exact ih _ (length_round state first length)
  rw [compress, List.length_zipWith, length, mixed]
  rfl

private theorem length_compressBlocks (blocks : Nat) (state rest : List UInt32)
    (length : state.length = 8) : (compressBlocks blocks state rest).length = 8 := by
  induction blocks generalizing state rest with
  | zero => exact length
  | succ blocks ih => exact ih _ _ (length_compress state _ length)

private theorem length_hexDigits (digits value : Nat) :
    (hexDigits digits value).length = digits := by
  induction digits with
  | zero => rfl
  | succ digits ih => exact congrArg Nat.succ ih

theorem length_digest (message : List UInt8) : (digest message).length = 64 := by
  have words : (digestWords message).length = 8 := length_compressBlocks _ _ _ rfl
  rw [digest, List.length_flatMap]
  simp only [length_hexDigits, List.map_const', List.sum_replicate_nat, words]

end Sha256

namespace Keyframes

inductive Operation where
  | register (prefixes : List Text) (body : Text)
  | registerTemplate (prefixes : List Text) (template : Template)
  | get (name : Text)
  | compile (options : CompileOptions) (template : Template)
  | compileBatch (options : CompileOptions) (templates : List Template)
  | referenced (texts : List Text)

inductive Answer where
  | registered (name : Text)
  | refused (error : Error)
  | found (css? : Option Text)
  | compiled (outcome : Except Error Text)
  | compiledBatch (outcomes : List (Except Error Text))
  | drawn (css : Text)

def Answer.registered? : Answer → Option Text
  | .registered name => some name
  | .refused _ | .found _ | .compiled _ | .compiledBatch _ | .drawn _ => none

namespace Operation

def request? : Operation → Option (List Text × Text)
  | .register prefixes body => some (prefixes, body)
  | .registerTemplate prefixes template =>
      match template.interpolate with
      | .ok joined => some (prefixes, joined.source)
      | .error _ => none
  | .get _ | .compile _ _ | .compileBatch _ _ | .referenced _ => none

/-- The answer to an operation and the registry after it, unless every candidate for a name
is taken. -/
def perform? (digest : Digest) (registry : Registry) : Operation → Option (Answer × Registry)
  | .register prefixes body =>
      (registry.register? digest prefixes body).map fun done => (.registered done.name, done.registry)
  | .registerTemplate prefixes template =>
      match template.register? digest prefixes registry with
      | .ok done? => done?.map fun done => (.registered done.name, done.registry)
      | .error error => some (.refused error, registry)
  | .get name => some (.found (registry.get? name), registry)
  | .compile options template => some (.compiled (template.compile options registry).outcome, registry)
  | .compileBatch options templates =>
      some (.compiledBatch (Batch.compile options registry templates).outcomes, registry)
  | .referenced texts => some (.drawn (registry.referenced texts), registry)

end Operation

def run? (digest : Digest) : List Operation → Registry → Option (List Answer × Registry)
  | [], registry => some ([], registry)
  | operation :: rest, registry =>
      (operation.perform? digest registry).bind fun (answer, following) =>
        (run? digest rest following).map fun (answers, last) => (answer :: answers, last)

/-- What an operation does to a registry after it has tried a number of candidates. -/
inductive Operation.Effect (digest : Digest) (operation : Operation) (before : Registry) :
    Answer → Nat → Registry → Prop
  | registered {prefixes : List Text} {body name : Text} {passed : Nat}
      (asked : operation.request? = some (prefixes, body))
      (taken : ∀ earlier < passed,
        candidate digest (before.sequence + .ofNat earlier) (compact body) ∈ before.names)
      (named : name = candidate digest (before.sequence + .ofNat passed) (compact body))
      (fresh : name ∉ before.names) :
      Effect digest operation before (.registered name) (passed + 1)
        ⟨before.sequence + .ofNat (passed + 1),
          before.entries ++ [⟨name, variants prefixes name (compact body)⟩]⟩
  | unchanged {answer : Answer} (idle : operation.request? = none)
      (silent : answer.registered? = none) : Effect digest operation before answer 0 before

inductive History (digest : Digest) :
    Registry → List Operation → List Answer → Nat → Registry → Prop
  | nil (registry : Registry) : History digest registry [] [] 0 registry
  | cons {before between after : Registry} {operation : Operation} {operations : List Operation}
      {answer : Answer} {answers : List Answer} {tried more : Nat}
      (effect : operation.Effect digest before answer tried between)
      (later : History digest between operations answers more after) :
      History digest before (operation :: operations) (answer :: answers) (tried + more) after

/-! ### Registration -/

private theorem freshName?_eq_some {digest : Digest} {taken : List Text} {body name : Text}
    {following : UInt64} : ∀ {steps : Nat} {sequence : UInt64},
      freshName? digest taken body steps sequence = some (name, following) →
      ∃ passed, (∀ earlier < passed, candidate digest (sequence + .ofNat earlier) body ∈ taken) ∧
        name = candidate digest (sequence + .ofNat passed) body ∧ name ∉ taken ∧
        following = sequence + .ofNat (passed + 1) := by
  intro steps
  induction steps with
  | zero => exact fun impossible => by cases impossible
  | succ steps ih =>
      intro sequence found
      have shifted : ∀ count : Nat,
          sequence + 1 + UInt64.ofNat count = sequence + UInt64.ofNat (count + 1) := by
        intro count
        rw [UInt64.ofNat_add, UInt64.add_assoc, UInt64.add_comm 1]
        rfl
      have first : sequence + UInt64.ofNat 0 = sequence := UInt64.add_zero sequence
      rw [freshName?] at found
      split at found
      · rename_i present
        obtain ⟨passed, others, named, fresh, counted⟩ := ih found
        refine ⟨passed + 1, ?_, ?_, fresh, ?_⟩
        · intro earlier before
          cases earlier with
          | zero => rwa [first]
          | succ earlier =>
              rw [← shifted]
              exact others earlier (Nat.lt_of_succ_lt_succ before)
        · rw [named, shifted]
        · rw [counted, shifted]
      · rename_i fresh
        injection found with same
        injection same with named counted
        subst named counted
        refine ⟨0, fun earlier impossible => absurd impossible (Nat.not_lt_zero earlier), ?_, fresh,
          ?_⟩
        · rw [first]
        · rfl

private theorem Operation.effect_of_register? {digest : Digest} {operation : Operation}
    {prefixes : List Text} {body : Text} {before : Registry} {done : Registered}
    (asked : operation.request? = some (prefixes, body))
    (registered : before.register? digest prefixes body = some done) :
    ∃ tried, operation.Effect digest before (.registered done.name) tried done.registry := by
  obtain ⟨⟨name, following⟩, found, rfl⟩ := Option.map_eq_some_iff.mp registered
  obtain ⟨passed, taken, named, fresh, rfl⟩ := freshName?_eq_some found
  exact ⟨passed + 1, .registered asked taken named fresh⟩

private theorem Operation.effect_of_answered {digest : Digest} {operation : Operation}
    {before after : Registry} {reply answer : Answer} (idle : operation.request? = none)
    (silent : reply.registered? = none) (performed : some (reply, before) = some (answer, after)) :
    ∃ tried, operation.Effect digest before answer tried after := by
  injection performed with same
  injection same with same other
  subst same other
  exact ⟨0, .unchanged idle silent⟩

private theorem Operation.effect_of_perform? {digest : Digest} {operation : Operation}
    {before after : Registry} {answer : Answer}
    (performed : operation.perform? digest before = some (answer, after)) :
    ∃ tried, operation.Effect digest before answer tried after := by
  cases operation with
  | register prefixes body =>
      obtain ⟨done, registered, same⟩ := Option.map_eq_some_iff.mp performed
      injection same with same other
      subst same other
      exact effect_of_register? rfl registered
  | registerTemplate prefixes template =>
      rw [perform?, Template.register?] at performed
      cases joined : template.interpolate with
      | error error =>
          rw [joined] at performed
          exact effect_of_answered (by rw [request?, joined]) rfl performed
      | ok whole =>
          rw [joined] at performed
          obtain ⟨done, registered, same⟩ := Option.map_eq_some_iff.mp performed
          injection same with same other
          subst same other
          exact effect_of_register? (by rw [request?, joined]) registered
  | get name => exact effect_of_answered rfl rfl performed
  | compile options template => exact effect_of_answered rfl rfl performed
  | compileBatch options templates => exact effect_of_answered rfl rfl performed
  | referenced texts => exact effect_of_answered rfl rfl performed

/-! ### Runs -/

private theorem run?_cons {digest : Digest} {operation : Operation} {rest : List Operation}
    {before after : Registry} {answers : List Answer} :
    run? digest (operation :: rest) before = some (answers, after) ↔
      ∃ answer between others, operation.perform? digest before = some (answer, between) ∧
        run? digest rest between = some (others, after) ∧ answers = answer :: others := by
  rw [run?, Option.bind_eq_some_iff]
  constructor
  · rintro ⟨⟨answer, between⟩, performed, run⟩
    obtain ⟨⟨others, last⟩, later, same⟩ := Option.map_eq_some_iff.mp run
    injection same with same reached
    subst same reached
    exact ⟨answer, between, others, performed, later, rfl⟩
  · rintro ⟨answer, between, others, performed, later, rfl⟩
    exact ⟨(answer, between), performed, by simp only [later, Option.map_some]⟩

private theorem run?_append {digest : Digest} {first rest : List Operation} :
    ∀ {before after : Registry} {answers : List Answer},
      run? digest (first ++ rest) before = some (answers, after) →
      ∃ earlier between later, run? digest first before = some (earlier, between) ∧
        run? digest rest between = some (later, after) ∧ answers = earlier ++ later := by
  induction first with
  | nil => exact fun run => ⟨[], _, _, rfl, run, rfl⟩
  | cons operation first ih =>
      intro before after answers run
      obtain ⟨answer, following, others, performed, tail, rfl⟩ := run?_cons.mp run
      obtain ⟨earlier, between, later, front, back, rfl⟩ := ih tail
      exact ⟨answer :: earlier, between, later,
        run?_cons.mpr ⟨answer, following, earlier, performed, front, rfl⟩, back, rfl⟩

theorem history_of_run? {digest : Digest} {operations : List Operation} :
    ∀ {before after : Registry} {answers : List Answer},
      run? digest operations before = some (answers, after) →
      ∃ tried, History digest before operations answers tried after := by
  induction operations with
  | nil =>
      intro before after answers run
      injection run with same
      injection same with none same
      subst none same
      exact ⟨0, .nil before⟩
  | cons operation rest ih =>
      intro before after answers run
      obtain ⟨answer, between, others, performed, tail, rfl⟩ := run?_cons.mp run
      obtain ⟨tried, effect⟩ := Operation.effect_of_perform? performed
      obtain ⟨more, later⟩ := ih tail
      exact ⟨tried + more, .cons effect later⟩

/-! ### What operations preserve -/

structure Registry.Orderly (registry : Registry) : Prop where
  distinct : registry.names.Nodup
  length_eq : ∀ name ∈ registry.names, name.length = nameDigits + 1

private theorem Registry.orderly_of_entries_eq_nil (start : UInt64) :
    Registry.Orderly ⟨start, []⟩ :=
  ⟨.nil, fun _ absent => by cases absent⟩

private theorem length_candidate {digest : Digest}
    (digits : ∀ message, nameDigits ≤ (digest message).length) (sequence : UInt64) (body : Text) :
    (candidate digest sequence body).length = nameDigits + 1 := by
  rw [candidate, List.length_cons, List.length_take, Nat.min_eq_left (digits _)]

namespace Operation.Effect

variable {digest : Digest} {operation : Operation} {before after : Registry} {answer : Answer}
  {tried : Nat}

private theorem names_eq (effect : operation.Effect digest before answer tried after) :
    after.names = before.names ++ answer.registered?.toList := by
  cases effect with
  | registered => rw [Registry.names, List.map_append]; rfl
  | unchanged idle silent => rw [silent, Option.toList_none, List.append_nil]

private theorem entries_prefix (effect : operation.Effect digest before answer tried after) :
    before.entries <+: after.entries := by
  cases effect with
  | registered => exact List.prefix_append _ _
  | unchanged => exact List.prefix_rfl

private theorem sequence_eq (effect : operation.Effect digest before answer tried after) :
    after.sequence = before.sequence + .ofNat tried := by
  cases effect with
  | registered => rfl
  | unchanged => exact (UInt64.add_zero _).symm

private theorem eq_of_idle (effect : operation.Effect digest before answer tried after)
    (idle : operation.request? = none) : after = before := by
  cases effect with
  | registered asked =>
      rw [idle] at asked
      cases asked
  | unchanged => rfl

private theorem orderly (digits : ∀ message, nameDigits ≤ (digest message).length)
    (effect : operation.Effect digest before answer tried after) (orderly : before.Orderly) :
    after.Orderly := by
  have names := effect.names_eq
  cases effect with
  | unchanged => exact orderly
  | @registered prefixes body name passed asked taken named fresh =>
      have entered : (Answer.registered name).registered?.toList = [name] := rfl
      rw [entered] at names
      constructor
      · rw [names]
        refine List.nodup_append.mpr ⟨orderly.distinct, List.pairwise_singleton _ name, ?_⟩
        rintro old present _ new rfl
        exact fresh (List.mem_singleton.mp new ▸ present)
      · rw [names]
        intro other present
        rcases List.mem_append.mp present with old | new
        · exact orderly.length_eq other old
        · rw [List.mem_singleton.mp new, named]
          exact length_candidate digits _ _

end Operation.Effect

namespace History

variable {digest : Digest} {before after : Registry} {operations : List Operation}
  {answers : List Answer} {tried : Nat}

private theorem names_eq (history : History digest before operations answers tried after) :
    after.names = before.names ++ answers.filterMap Answer.registered? := by
  induction history with
  | nil => rw [List.filterMap_nil, List.append_nil]
  | @cons _ _ _ _ _ answer _ _ _ effect _ ih =>
      rw [ih, effect.names_eq, List.append_assoc, List.filterMap_cons]
      cases answer.registered? <;> rfl

theorem entries_prefix (history : History digest before operations answers tried after) :
    before.entries <+: after.entries := by
  induction history with
  | nil => exact List.prefix_rfl
  | cons effect _ ih => exact effect.entries_prefix.trans ih

private theorem sequence_eq (history : History digest before operations answers tried after) :
    after.sequence = before.sequence + .ofNat tried := by
  induction history with
  | nil => exact (UInt64.add_zero _).symm
  | cons effect _ ih => rw [ih, effect.sequence_eq, UInt64.ofNat_add, UInt64.add_assoc]

private theorem orderly (digits : ∀ message, nameDigits ≤ (digest message).length)
    (history : History digest before operations answers tried after) (orderly : before.Orderly) :
    after.Orderly := by
  induction history with
  | nil => exact orderly
  | cons effect _ ih => exact ih (effect.orderly digits orderly)

end History

private theorem Registry.get?_of_mem {registry : Registry} (distinct : registry.names.Nodup)
    {entry : Entry}
    (present : entry ∈ registry.entries) : registry.get? entry.name = some entry.css := by
  obtain ⟨sequence, entries⟩ := registry
  simp only [Registry.get?, Registry.names] at *
  induction entries with
  | nil => cases present
  | cons first rest ih =>
      obtain ⟨apart, others⟩ := List.nodup_cons.mp distinct
      rcases List.mem_cons.mp present with rfl | later
      · simp
      · have other : (first.name == entry.name) = false := by
          rw [beq_eq_false_iff_ne]
          exact fun same => apart (same ▸ List.mem_map_of_mem later)
        rw [List.find?_cons, other]
        exact ih others later

/-- A registry that operations can lead to, from any running number on. -/
def Registry.Reachable (digest : Digest) (registry : Registry) : Prop :=
  ∃ start operations answers, run? digest operations ⟨start, []⟩ = some (answers, registry)

theorem Registry.Reachable.orderly {digest : Digest} {registry : Registry}
    (digits : ∀ message, nameDigits ≤ (digest message).length)
    (reachable : registry.Reachable digest) : registry.Orderly := by
  obtain ⟨start, operations, answers, run⟩ := reachable
  obtain ⟨tried, history⟩ := history_of_run? run
  exact history.orderly digits (orderly_of_entries_eq_nil start)

/-- Whatever is asked of an empty registry, its names are distinct and of the same length,
its entries are only ever appended and never change, and its running number counts the
candidates that were tried. What registers nothing leaves both as they are. -/
theorem registry_of_run {digest : Digest}
    (digits : ∀ message, nameDigits ≤ (digest message).length) {start : UInt64}
    {operations : List Operation} {answers : List Answer} {registry : Registry}
    (run : run? digest operations ⟨start, []⟩ = some (answers, registry)) :
    registry.names.Nodup ∧ (∀ name ∈ registry.names, name.length = 17) ∧
      registry.names = answers.filterMap Answer.registered? ∧
      (∃ tried, History digest ⟨start, []⟩ operations answers tried registry ∧
        registry.sequence = start + .ofNat tried) ∧
      (∀ first operation rest, operations = first ++ operation :: rest →
        operation.request? = none →
          ∃ earlier between answer, run? digest first ⟨start, []⟩ = some (earlier, between) ∧
            operation.perform? digest between = some (answer, between)) ∧
      ∀ first rest, operations = first ++ rest →
        ∃ earlier between later, run? digest first ⟨start, []⟩ = some (earlier, between) ∧
          run? digest rest between = some (later, registry) ∧ answers = earlier ++ later ∧
          between.entries <+: registry.entries ∧
          ∀ entry ∈ between.entries, (Operation.get entry.name).perform? digest registry =
            some (.found (some entry.css), registry) := by
  obtain ⟨tried, history⟩ := history_of_run? run
  have orderly := history.orderly digits (Registry.orderly_of_entries_eq_nil start)
  refine ⟨orderly.distinct, orderly.length_eq, history.names_eq,
    ⟨tried, history, history.sequence_eq⟩, ?_, ?_⟩
  · rintro first operation rest rfl idle
    obtain ⟨earlier, between, later, front, back, _⟩ := run?_append run
    obtain ⟨answer, after, others, performed, _, _⟩ := run?_cons.mp back
    obtain ⟨_, effect⟩ := Operation.effect_of_perform? performed
    rw [effect.eq_of_idle idle] at performed
    exact ⟨earlier, between, answer, front, performed⟩
  · rintro first rest rfl
    obtain ⟨earlier, between, later, front, back, same⟩ := run?_append run
    obtain ⟨more, onward⟩ := history_of_run? back
    refine ⟨earlier, between, later, front, back, same, onward.entries_prefix, ?_⟩
    intro entry present
    have kept := Registry.get?_of_mem orderly.distinct (onward.entries_prefix.subset present)
    rw [Operation.perform?, kept]

/-- A digest that tells running numbers apart by their size only. -/
def coarseDigest (message : List UInt8) : Text :=
  List.replicate 15 '0' ++ [Nat.digitChar (message.headD 0).toNat.log2]

theorem registry_of_run_with_collisions :
    let unfilled : Template := ⟨[], []⟩
    let again : Operation := .register [[]] "to\x7ba:b\x7d".toList
    let operations : List Operation :=
      [again, .registerTemplate [] unfilled, again, .compile ⟨false⟩ unfilled, again]
    (∀ message, nameDigits ≤ (coarseDigest message).length) ∧
      ∃ answers registry, run? coarseDigest operations ⟨2, []⟩ = some (answers, registry) ∧
        registry.sequence = 9 ∧ registry.names = ["_0000000000000001".toList,
          "_0000000000000002".toList, "_0000000000000003".toList] ∧
        registry.names.Nodup ∧ registry.names = answers.filterMap Answer.registered? := by
  intro unfilled again operations
  have digits : ∀ message, nameDigits ≤ (coarseDigest message).length := fun _ => by
    rw [coarseDigest, List.length_append, List.length_replicate, List.length_singleton]
    decide
  have run : run? coarseDigest operations ⟨2, []⟩ = some (_, _) := rfl
  obtain ⟨distinct, _, order, _⟩ := registry_of_run digits run
  exact ⟨digits, _, _, run, rfl, rfl, distinct, order⟩

end Keyframes
end NestedCss
