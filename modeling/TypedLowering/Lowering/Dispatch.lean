import TypedLowering.Lowering.Expression
import TypedLowering.Lowering.Statement

/-!
Generation of nodes by kind. The registry names the generator that handles a node; a kind that has
none is rejected. The recursion over the program is bounded by a depth: it runs out only if the
bound is smaller than the nesting of nodes and specializations.
-/
namespace TypedLowering
set_option autoImplicit false

namespace Gen

/-- The error of a kind that cannot be compiled. -/
def rejectKind {α : Type} (kind : SyntaxKind) (n : Node) : Gen α :=
  fail (.unsupportedSyntax kind.name) n.span

/-- The generator made for a kind. -/
def standard (generate : Generate) (kind : SyntaxKind) (n : Node) : Gen Value :=
  match kind with
  | .numericLiteral => numericLiteral n
  | .booleanLiteral => booleanLiteral n
  | .undefinedLiteral => undefinedLiteral n
  | .arrayLiteral => arrayLiteral generate n
  | .identifier => identifier n
  | .this => this n
  | .member => member generate n
  | .index => index generate n
  | .paren => paren generate n
  | .unary => unary generate n
  | .binary => binary generate n
  | .update => update generate n
  | .assign => assignment generate n
  | .conditional => conditional generate n
  | .cast => cast generate n
  | .call => call generate n
  | .construct => construct generate n
  | .variableDeclaration => variableDeclaration generate n
  | .expressionStatement => expressionStatement generate n
  | .block => block generate n
  | .ifElse => ifElse generate n
  | .whileLoop => whileLoop generate n
  | .doWhile => doWhile generate n
  | .forLoop => forLoop generate n
  | .ret => returnStatement generate n
  | .breakLoop => breakLoop n
  | .continueLoop => continueLoop n
  | .empty => return .unit
  | kind => rejectKind kind n

/-- Generates a node through the registry, with parts and callees up to a depth. -/
def generate : Nat → Generate
  | 0, _ => throw .exhausted
  | depth + 1, n => do
    match (← read).registry.get? n.kind with
    | some kind => standard (generate depth) kind n
    | none => rejectKind n.kind n

end Gen

end TypedLowering
