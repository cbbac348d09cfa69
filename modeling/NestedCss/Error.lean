import NestedCss.Location

set_option autoImplicit false

/-! Failures of a compilation. A failure is a cause at a location; its code, its
wording and its advice are functions of the cause, so two failures with one
cause always read alike. -/

namespace NestedCss

inductive Cause where
  | unresolvedVariable (name : Text)
  /-- A brace has no partner; the context describes which one. -/
  | unbalancedBlock (context? : Option Text)
  | nestingTooDeep (limit : Nat)
  | unresolvedMixin (name : Text)
  /-- A mixin is included while a body of that name is being expanded. The
  chain holds the names of the bodies in expansion, outermost first. -/
  | recursiveMixin (name : Text) (chain : List Text)
  | fragmentArity (fragments values : Nat)
  deriving DecidableEq

inductive Category where
  | scopeResolution
  | malformedText
  | templateContract
  deriving DecidableEq

def Category.label : Category → Text
  | .scopeResolution => "SCOPE_RESOLUTION_FAILURE".toList
  | .malformedText => "SYNTAX_ERROR".toList
  | .templateContract => "TEMPLATE_CONTRACT_VIOLATION".toList

namespace Cause

def code : Cause → Text
  | .unresolvedVariable _ => "CSS-ERR-VAR-001".toList
  | .unbalancedBlock _ => "CSS-ERR-BLOCK-001".toList
  | .nestingTooDeep _ => "CSS-ERR-BLOCK-002".toList
  | .unresolvedMixin _ => "CSS-ERR-MIXIN-001".toList
  | .recursiveMixin _ _ => "CSS-ERR-MIXIN-002".toList
  | .fragmentArity _ _ => "CSS-ERR-TEMPLATE-001".toList

def category : Cause → Category
  | .unresolvedVariable _ => .scopeResolution
  | .unbalancedBlock _ => .malformedText
  | .nestingTooDeep _ => .malformedText
  | .unresolvedMixin _ => .scopeResolution
  | .recursiveMixin _ _ => .scopeResolution
  | .fragmentArity _ _ => .templateContract

def message : Cause → Text
  | .unresolvedVariable name => "Variable $".toList ++ name ++ " not defined".toList
  | .unbalancedBlock _ => "Unbalanced braces in stylesheet".toList
  | .nestingTooDeep limit =>
      "Blocks nested more than ".toList ++ Text.ofNat limit ++ " levels deep".toList
  | .unresolvedMixin name => "Mixin '".toList ++ name ++ "' is not defined in this scope".toList
  | .recursiveMixin name _ => "Recursive @include of mixin '".toList ++ name ++ "'".toList
  | .fragmentArity fragments values =>
      "Expected ".toList ++ Text.ofNat (values + 1) ++ " template fragments for ".toList ++
        Text.ofNat values ++ " values, got ".toList ++ Text.ofNat fragments

def guarantee : Cause → Text
  | .unresolvedVariable _ =>
      "Every variable reference resolves through the scope chain of the rule that uses it.".toList
  | .unbalancedBlock _ =>
      "Every opened block is closed before the end of the stylesheet.".toList
  | .nestingTooDeep _ =>
      "Rule, media and mixin bodies nest at most a fixed number of levels deep.".toList
  | .unresolvedMixin _ => "Every @include names a mixin visible from the including rule.".toList
  | .recursiveMixin _ _ => "Mixin expansion always terminates.".toList
  | .fragmentArity _ _ =>
      "A template has exactly one more fragment than interpolated values.".toList

def context? : Cause → Option Text
  | .unbalancedBlock context? => context?
  | .recursiveMixin _ chain => some (Text.joinWith " -> ".toList chain)
  | .unresolvedVariable _ | .nestingTooDeep _ | .unresolvedMixin _ | .fragmentArity _ _ => none

def hints : Cause → List Text
  | .unresolvedVariable name =>
      ["Declare `$".toList ++ name ++
        ": <value>;` in this rule or an enclosing one, or mark an inner declaration with `!global`.".toList]
  | .unbalancedBlock _ => ["Check that every `\x7b` has a matching `\x7d`.".toList]
  | .nestingTooDeep _ => ["Flatten the stylesheet or split it into several rules.".toList]
  | .unresolvedMixin _ | .recursiveMixin _ _ | .fragmentArity _ _ => []

end Cause

structure Error where
  cause : Cause
  location : Location
  deriving DecidableEq

def Error.report (error : Error) : Text :=
  let headline := '[' :: error.cause.code ++ "] ".toList ++ error.cause.message ++
    " at ".toList ++ error.location.text
  match error.cause.context? with
  | some context => headline ++ " (".toList ++ context ++ [')']
  | none => headline

end NestedCss
