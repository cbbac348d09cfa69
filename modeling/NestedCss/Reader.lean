import NestedCss.Elaboration
import NestedCss.Scanner

set_option autoImplicit false

/-! Reading with bookkeeping. A reader goes through a stylesheet one step after the other,
with nothing that bounds the number of its steps. It takes segments as a scanner gives them,
counts the bodies that it is inside of, keeps the names of the mixins that it is expanding,
and remembers what to go on with when a call returns. A call that has changed the counter or
the names changes them back when it returns, also when it returns a failure. -/

namespace NestedCss

/-- What goes on when a call returns. -/
inductive Continuation where
  /-- A body that is read into a rule, from where its scanner stands. -/
  | body (rule : RuleId) (rest : Scanner)
  | counted
  | expansion (name : Text)

/-- The call that is made next, or the outcome of the call that ends. -/
inductive Task where
  | read (rule : RuleId) (rest : Scanner)
  | apply (rule : RuleId) (node : Node)
  | expand (rule : RuleId) (inclusion : Inclusion)
  | enter (rule : RuleId) (body : Body)
  | returned (outcome : Except Error Unit)

structure Reader where
  tree : RuleTree
  /-- The number of bodies being read below the outermost level. -/
  depth : Nat
  active : List Text
  dropped : List Inclusion
  task : Task
  waiting : List Continuation

namespace Reader

def ofSource (source : Text) : Reader where
  tree := .empty
  depth := 0
  active := []
  dropped := []
  task := .read RuleTree.root (.ofBody (.ofSource source))
  waiting := []

def answer (reader : Reader) (outcome : Except Error Unit) : Reader :=
  { reader with task := .returned outcome }

def readOn (reader : Reader) (rule : RuleId) (scanner : Scanner) : Reader :=
  match scanner.next with
  | (none, _) => reader.answer (.ok ())
  | (some (.error fault), _) => reader.answer (.error fault)
  | (some (.ok segment), rest) =>
      { reader with
        task := .apply rule (.ofSegment segment)
        waiting := .body rule rest :: reader.waiting }

def apply (reader : Reader) (rule : RuleId) : Node → Reader
  | .binding binding => { reader with tree := reader.tree.bind rule binding }.answer (.ok ())
  | .property property =>
      match reader.tree.substitute rule property.value property.location with
      | .error error => reader.answer (.error error)
      | .ok value =>
          { reader with
            tree := reader.tree.addChild rule (.property { property with value }) }.answer (.ok ())
  | .comment text =>
      { reader with tree := reader.tree.addChild rule (.comment text) }.answer (.ok ())
  | .mixin mixin => { reader with tree := reader.tree.defineMixin rule mixin }.answer (.ok ())
  | .media block =>
      { reader with
        tree := (reader.tree.addDetached rule expansionSelector).attachMedia rule block
          reader.tree.size
        task := .enter reader.tree.size block.body }
  | .inclusion inclusion => { reader with task := .expand rule inclusion }
  | .rule selector body =>
      { reader with
        tree := reader.tree.addRule rule selector
        task := .enter reader.tree.size body }

def expand (options : CompileOptions) (reader : Reader) (rule : RuleId) (inclusion : Inclusion) :
    Reader :=
  match reader.tree.findMixin rule inclusion.name with
  | none =>
      if options.strictIncludes then
        reader.answer (.error ⟨.unresolvedMixin inclusion.name, inclusion.location⟩)
      else { reader with dropped := reader.dropped ++ [inclusion] }.answer (.ok ())
  | some mixin =>
      let active := reader.active ++ [inclusion.name]
      if inclusion.name ∈ reader.active then
        reader.answer (.error ⟨.recursiveMixin inclusion.name active, inclusion.location⟩)
      else
        { reader with
          active
          task := .enter rule mixin.body
          waiting := .expansion inclusion.name :: reader.waiting }

def enter (reader : Reader) (rule : RuleId) (body : Body) : Reader :=
  if nestingLimit ≤ reader.depth then
    reader.answer (.error ⟨.nestingTooDeep nestingLimit, body.origin⟩)
  else
    { reader with
      depth := reader.depth + 1
      task := .read rule (.ofBody body)
      waiting := .counted :: reader.waiting }

/-- Go on with what waits for an outcome. A failure ends the bodies that wait. -/
def resume (reader : Reader) (outcome : Except Error Unit) : Option Reader :=
  match reader.waiting with
  | [] => none
  | .body rule rest :: waiting =>
      match outcome with
      | .ok () => some { reader with task := .read rule rest, waiting }
      | .error _ => some { reader with waiting }
  | .counted :: waiting => some { reader with depth := reader.depth - 1, waiting }
  | .expansion _ :: waiting => some { reader with active := reader.active.dropLast, waiting }

/-- One step. There is none when the outermost call has returned. -/
def step (options : CompileOptions) (reader : Reader) : Option Reader :=
  match reader.task with
  | .read rule rest => some (reader.readOn rule rest)
  | .apply rule node => some (reader.apply rule node)
  | .expand rule inclusion => some (reader.expand options rule inclusion)
  | .enter rule body => some (reader.enter rule body)
  | .returned outcome => reader.resume outcome

/-- The tree of the stylesheet or the failure, when the outermost call has returned. -/
def result? (reader : Reader) : Option (Traced RuleTree) :=
  match reader.task, reader.waiting with
  | .returned outcome, [] => some ⟨reader.dropped, outcome.map fun _ => reader.tree⟩
  | _, _ => none

def after (options : CompileOptions) : Nat → Reader → Option Reader
  | 0, reader => some reader
  | count + 1, reader => (reader.step options).bind (after options count)

end Reader
end NestedCss
