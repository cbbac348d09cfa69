import NestedCss.Error
import NestedCss.Node

set_option autoImplicit false

/-! Computations that may fail and that remember, in either case, which
inclusions they dropped for want of a definition. -/

namespace NestedCss

structure Traced (α : Type) where
  dropped : List Inclusion
  outcome : Except Error α

namespace Traced

variable {α β : Type}

def done (value : α) : Traced α := ⟨[], .ok value⟩

def failed (error : Error) : Traced α := ⟨[], .error error⟩

def ofExcept (outcome : Except Error α) : Traced α := ⟨[], outcome⟩

def dropping (inclusion : Inclusion) (value : α) : Traced α := ⟨[inclusion], .ok value⟩

/-- Go on after a success. A failure is final, and what was dropped before it
stays on record. -/
def andThen (first : Traced α) (next : α → Traced β) : Traced β :=
  match first.outcome with
  | .ok value => ⟨first.dropped ++ (next value).dropped, (next value).outcome⟩
  | .error error => ⟨first.dropped, .error error⟩

def map (change : α → β) (first : Traced α) : Traced β := ⟨first.dropped, first.outcome.map change⟩

def foldl {γ : Type} (step : α → γ → Traced α) (start : α) : List γ → Traced α
  | [] => done start
  | member :: rest => (step start member).andThen fun next => foldl step next rest

/-- Let the nodes of a segmentation take effect in turn, and then its fault, if it has one. -/
def foldNodes (step : α → Node → Traced α) (start : α) (whole : Segmentation) : Traced α :=
  (foldl step start (whole.segments.map Node.ofSegment)).andThen fun result =>
    match whole.fault? with
    | some fault => failed fault
    | none => done result

@[simp] theorem done_andThen (value : α) (next : α → Traced β) :
    (done value).andThen next = next value := rfl

@[simp] theorem failed_andThen (error : Error) (next : α → Traced β) :
    (failed error : Traced α).andThen next = failed error := rfl

@[simp] theorem andThen_done (first : Traced α) : first.andThen done = first := by
  obtain ⟨dropped, outcome⟩ := first
  cases outcome <;> simp [andThen, done]

theorem andThen_assoc {γ : Type} (first : Traced α) (second : α → Traced β)
    (third : β → Traced γ) :
    (first.andThen second).andThen third =
      first.andThen fun value => (second value).andThen third := by
  obtain ⟨dropped, outcome⟩ := first
  cases outcome with
  | error error => rfl
  | ok value =>
      simp only [andThen]
      cases (second value).outcome <;> simp

theorem foldl_singleton {γ : Type} (step : α → γ → Traced α) (start : α) (member : γ) :
    foldl step start [member] = step start member := andThen_done _

theorem foldl_append {γ : Type} (step : α → γ → Traced α) (start : α) (first second : List γ) :
    foldl step start (first ++ second) =
      (foldl step start first).andThen fun middle => foldl step middle second := by
  induction first generalizing start with
  | nil => rfl
  | cons member rest ih => simp [foldl, ih, andThen_assoc]

end Traced
end NestedCss
