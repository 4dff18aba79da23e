import Unravel.Rule.Fold
import Unravel.Rule.Inline
import Unravel.Rule.Unwrap

/-! The standard rules, in the order in which they are tried. -/

namespace Unravel.Rule

def standard : List Rule :=
  [⟨"self_assignment", [.expressionStatement], selfAssignment, true⟩,
    ⟨"logical_to_conditional", [.logicalExpression], logicalToConditional, true⟩,
    ⟨"capture_declarator", [.variableDeclarator], captureDeclarator, true⟩,
    ⟨"substitute_identifier", [.identifier], substituteIdentifier, true⟩,
    ⟨"fold_binary_plus", [.binaryExpression], foldPlus, true⟩,
    ⟨"simplify_conditional", [.ifStatement, .conditionalExpression], simplifyConditional, true⟩,
    ⟨"inline_zero_delay_timer", [.expressionStatement], inlineTimer, true⟩,
    ⟨"capture_trivial_function", [.functionDeclaration, .variableDeclarator], captureFunction,
      true⟩,
    ⟨"inline_trivial_return", [.callExpression], inlineReturn, true⟩,
    ⟨"fold_array_member", [.memberExpression], foldArrayMember, true⟩,
    ⟨"unwrap_iife", [.expressionStatement], unwrapCall, true⟩,
    ⟨"unwrap_single_pass_loop", [.forStatement, .doWhileStatement], unwrapLoop, true⟩,
    ⟨"prune_named", [.variableDeclaration, .expressionStatement], pruneNamed, true⟩]

def names : List String := standard.map (·.name)

def catalog (settings : Settings) : Except Fault (List Rule) :=
  let unknown := (settings.disabledRules.filter (!names.contains ·)).eraseDups
  if unknown.isEmpty then
    .ok (standard.map fun r => { r with enabled := !settings.disabledRules.contains r.name })
  else .error (.refused (.unknownRules (unknown.mergeSort (· ≤ ·))))

end Unravel.Rule
