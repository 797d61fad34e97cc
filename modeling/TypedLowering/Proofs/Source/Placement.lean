import TypedLowering.Source.Program

/-!
Where the nodes of a tree may stand: expressions, statements and declarations each have positions of
their own. A program is placed if the trees of all its functions are.
-/
namespace TypedLowering
set_option autoImplicit false

/-- The positions in a tree. -/
inductive Position where
  | expression
  | statement
  /-- Directly in a block, or the whole body of a function. -/
  | item
  /-- The first part of a `for` loop. -/
  | init
  deriving DecidableEq, Repr

/-- The kinds of expressions. -/
def SyntaxKind.isExpression : SyntaxKind → Bool
  | .numericLiteral | .booleanLiteral | .undefinedLiteral | .stringLiteral | .templateLiteral
  | .regExpLiteral | .objectLiteral | .arrayLiteral | .identifier | .this | .paren | .unary
  | .binary | .update | .assign | .conditional | .cast | .typeof | .delete | .spread | .await
  | .yield | .member | .index | .call | .construct | .arrowFunction | .functionExpression => true
  | .variableDeclaration | .expressionStatement | .block | .ifElse | .whileLoop | .doWhile
  | .forLoop | .forIn | .forOf | .switch | .tryCatch | .throw | .labeled | .ret | .breakLoop
  | .continueLoop | .empty => false

namespace Position

/-- The kinds that may stand in a position. -/
def admits : Position → SyntaxKind → Bool
  | .expression, k => k.isExpression
  | .statement, k => !k.isExpression && k ≠ .variableDeclaration
  | .item, k => !k.isExpression
  | .init, k => k.isExpression || k = .variableDeclaration

end Position

/-- The parts of a form with their positions. What is never compiled puts no condition on its
parts. -/
def Form.parts {α : Type} : Form α → List (Position × α)
  | .arrayLiteral xs => xs.map (.expression, ·)
  | .paren x | .unary _ x | .update _ _ x | .cast x | .member x _ | .expressionStatement x =>
    [(.expression, x)]
  | .binary _ x y | .assign _ x y | .index x y => [(.expression, x), (.expression, y)]
  | .conditional x y z => [(.expression, x), (.expression, y), (.expression, z)]
  | .call x xs _ | .construct x xs _ => (.expression, x) :: xs.map (.expression, ·)
  | .variableDeclaration _ x _ | .ret x => x.toList.map (.expression, ·)
  | .block xs => xs.map (.item, ·)
  | .ifElse x y z => (.expression, x) :: (.statement, y) :: z.toList.map (.statement, ·)
  | .whileLoop x y => [(.expression, x), (.statement, y)]
  | .doWhile x y => [(.statement, x), (.expression, y)]
  | .forLoop x y z w => x.toList.map (.init, ·) ++ y.toList.map (.expression, ·)
    ++ z.toList.map (.expression, ·) ++ [(.statement, w)]
  | _ => []

/-- A tree whose nodes all stand where they may. -/
inductive Node.Placed : Position → Node → Prop
  | mk {p : Position} {n : Node} : p.admits n.kind = true →
    (∀ q c, (q, c) ∈ n.form.parts → Placed q c) → Placed p n

namespace Node.Placed

variable {p : Position} {n : Node}

theorem admits (h : Placed p n) : p.admits n.kind = true := by
  cases h with
  | mk ha _ => exact ha

theorem part (h : Placed p n) {q : Position} {c : Node} (hc : (q, c) ∈ n.form.parts) :
    Placed q c := by
  cases h with
  | mk _ hp => exact hp q c hc

end Node.Placed

/-- A program whose function bodies and parameter defaults are well-formed trees. -/
structure Program.Placed (p : Program) : Prop where
  body : ∀ {f decl n}, p.function? f = some decl → decl.body = some n → Node.Placed .item n
  default : ∀ {f decl q n}, p.function? f = some decl → q ∈ decl.params → q.default = some n →
    Node.Placed .expression n

end TypedLowering
