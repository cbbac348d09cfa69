import NestedCss.Proofs.Definitions
import NestedCss.Proofs.Omissions
import NestedCss.Proofs.ParameterLists

set_option autoImplicit false

/-! Mixins that nothing includes. The body of a mixin is read where the mixin is included and
nowhere else. A mixin that is never included can hold anything that is closed, also what
would be at fault if it were read, and can be left out with its block. -/

namespace NestedCss

namespace Text

variable {spec inner : Text}

private theorem Quotable.heading_mixin (quotable : spec.Quotable) :
    (Node.mixinMark ++ spec).Heading := by
  have marked : (Node.mixinMark ++ spec).Quotable :=
    Quotable.append (by decide : Node.mixinMark.Plain).quotable quotable
  apply marked.heading
  rintro member ⟨⟩
  decide

private theorem silent_mixin_block (quotable : spec.Quotable) (closed : inner.Closed)
    (here : Location) :
    ∀ node ∈ (Body.mk (block (Node.mixinMark ++ spec) inner) here).nodes,
      node.Silent [directiveName spec] := by
  have bare : ∀ there, (Body.mk [] there).nodes = [] := fun _ => rfl
  have nodes := Body.nodes_mixin_block (by decide : Whole []) quotable closed [] here
  simp only [bare, List.nil_append, List.append_nil] at nodes
  intro node present
  rw [nodes] at present
  split at present
  · cases present
  · rw [List.mem_singleton.mp present]
    refine .mixin ?_
    rw [directiveName_trimEnd]
    exact List.mem_singleton_self _

private theorem Idle.omission_of_mixin {before after : Text} (place : before.Idle)
    (quotable : spec.Quotable) (closed : inner.Closed)
    (solid : ∀ first last, InnermostBody before after first last →
      Text.allBlank (first ++ last) = false) :
    Omission [directiveName spec] before (block (Node.mixinMark ++ spec) inner) after where
  place := place
  whole := quotable.heading_mixin.whole_block closed
  silent := silent_mixin_block quotable closed
  solid := solid

end Text

/-- A mixin that is included nowhere can be left out, at every depth of nesting and whatever
its body holds: with it and without it a stylesheet compiles to the same text, or fails for a
cause of the same kind. -/
theorem agree_compileSource_of_unused_mixin (options : CompileOptions)
    {before spec inner after : Text} (place : before.Idle) (quotable : spec.Quotable)
    (faultless : (Body.ofSource inner).segmentation.fault? = none)
    (settled : ∃ afterColon, (Mode.code false).after inner = .code afterColon)
    (solid : ∀ first last, Text.InnermostBody before after first last →
      Text.allBlank (first ++ last) = false)
    (unused : ¬ (Body.ofSource (before ++ Text.block (Node.mixinMark ++ spec) inner ++
      after)).AsksFor (directiveName spec)) :
    Agree Eq
      (compileSource options (before ++ Text.block (Node.mixinMark ++ spec) inner ++ after)).outcome
      (compileSource options (before ++ after)).outcome := by
  have closed : inner.Closed := ⟨(Body.ofSource inner).fault?_eq_none_iff.mp faultless, settled⟩
  have omission := place.omission_of_mixin quotable closed solid
  refine omission.agree (fun name listed asks => ?_) options
  rw [List.mem_singleton.mp listed] at asks
  exact unused (omission.asksFor asks)

/-- A mixin with an unbound variable and a recursion in it, inside another mixin that is
included twice. -/
theorem agree_compileSource_of_unused_mixin_in_mixin :
    let before := "@mixin k\x7bd:e;".toList
    let unused := Text.block (Node.mixinMark ++ " m".toList)
      "b:$c;@mixin n\x7b@include n\x7d@include n;".toList
    let after := "\x7d.f\x7b@include k\x7d.g\x7b@include k\x7d".toList
    Agree Eq (compileSource {} (before ++ unused ++ after)).outcome
      (compileSource {} (before ++ after)).outcome ∧
    (compileSource {} (before ++ after)).outcome.toOption =
      some ".f\x7bd:e;\x7d.g\x7bd:e;\x7d".toList := by
  intro before unused after
  have place : Text.Idle before := ⟨by decide +kernel, by decide +kernel⟩
  have quotable : Text.Quotable " m".toList := Text.Plain.quotable (by decide)
  have solid : ∀ first last, Text.InnermostBody before after first last →
      Text.allBlank (first ++ last) = false := fun first last innermost =>
    innermost.allBlank_eq_false (by decide : _ = some ';') (by decide) (by decide)
  have nowhere : ¬ (Body.ofSource (before ++ unused ++ after)).AsksFor (directiveName " m".toList) :=
    Body.not_asksFor_of_asksWithin 4 (by decide +kernel)
  exact ⟨agree_compileSource_of_unused_mixin {} place quotable (by decide +kernel)
    ⟨false, by decide +kernel⟩ solid nowhere, by decide +kernel⟩

end NestedCss
