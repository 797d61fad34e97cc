import TypedLowering.Data.Dict
import TypedLowering.Source.SyntaxKind

/-!
The table that chooses, for each kind of node, the generator that handles it. Generators are named
by the kind they are made for; the standard table hands each kind of the compiled subset to its
own, and other tables may leave kinds out or hand them elsewhere. A kind without entry is rejected.
-/
namespace TypedLowering
set_option autoImplicit false

/-- Which generator handles which kind. -/
structure Registry where
  handlers : Dict SyntaxKind SyntaxKind

namespace Registry

/-- Rejects every kind. -/
def empty : Registry := ⟨.empty⟩

/-- Hands a kind to the generator made for another (or for itself). -/
def register (r : Registry) (kind generator : SyntaxKind) : Registry :=
  ⟨r.handlers.insert kind generator⟩

/-- The kinds that can be compiled. -/
def compiledKinds : List SyntaxKind := [
  .numericLiteral, .booleanLiteral, .undefinedLiteral, .arrayLiteral, .identifier, .this, .member,
  .index, .paren, .unary, .binary, .update, .assign, .conditional, .cast, .call, .construct,
  .variableDeclaration, .expressionStatement, .block, .ifElse, .whileLoop, .doWhile, .forLoop, .ret,
  .breakLoop, .continueLoop, .empty]

/-- Each kind of the compiled subset is handled by its own generator. -/
def standard : Registry := compiledKinds.foldl (fun r k => r.register k k) empty

/-- The generator for a kind. -/
def get? (r : Registry) (kind : SyntaxKind) : Option SyntaxKind := r.handlers.get? kind

def contains (r : Registry) (kind : SyntaxKind) : Bool := (r.get? kind).isSome

def size (r : Registry) : Nat := r.handlers.size

end Registry

end TypedLowering
