/-!
The kinds of nodes that a source tree can hold. Generation is chosen by kind alone.
-/
namespace TypedLowering
set_option autoImplicit false

/-- The kinds of nodes. -/
inductive SyntaxKind where
  | numericLiteral
  | booleanLiteral
  | undefinedLiteral
  | stringLiteral
  | templateLiteral
  | regExpLiteral
  | objectLiteral
  | arrayLiteral
  | identifier
  | this
  | paren
  | unary
  | binary
  | update
  | assign
  | conditional
  | cast
  | typeof
  | delete
  | spread
  | await
  | yield
  | member
  | index
  | call
  | construct
  | arrowFunction
  | functionExpression
  | variableDeclaration
  | expressionStatement
  | block
  | ifElse
  | whileLoop
  | doWhile
  | forLoop
  | forIn
  | forOf
  | switch
  | tryCatch
  | throw
  | labeled
  | ret
  | breakLoop
  | continueLoop
  | empty
  deriving DecidableEq, Repr

namespace SyntaxKind

/-- The name of a kind in messages. -/
def name : SyntaxKind → String
  | .numericLiteral => "NumericLiteral"
  | .booleanLiteral => "BooleanLiteral"
  | .undefinedLiteral => "UndefinedLiteral"
  | .stringLiteral => "StringLiteral"
  | .templateLiteral => "TemplateLiteral"
  | .regExpLiteral => "RegExpLiteral"
  | .objectLiteral => "ObjectLiteral"
  | .arrayLiteral => "ArrayLiteral"
  | .identifier => "Identifier"
  | .this => "This"
  | .paren => "Paren"
  | .unary => "Unary"
  | .binary => "Binary"
  | .update => "Update"
  | .assign => "Assign"
  | .conditional => "Conditional"
  | .cast => "Cast"
  | .typeof => "Typeof"
  | .delete => "Delete"
  | .spread => "Spread"
  | .await => "Await"
  | .yield => "Yield"
  | .member => "Member"
  | .index => "Index"
  | .call => "Call"
  | .construct => "New"
  | .arrowFunction => "ArrowFunction"
  | .functionExpression => "FunctionExpression"
  | .variableDeclaration => "VariableDeclaration"
  | .expressionStatement => "ExpressionStatement"
  | .block => "Block"
  | .ifElse => "If"
  | .whileLoop => "While"
  | .doWhile => "DoWhile"
  | .forLoop => "For"
  | .forIn => "ForIn"
  | .forOf => "ForOf"
  | .switch => "Switch"
  | .tryCatch => "Try"
  | .throw => "Throw"
  | .labeled => "Labeled"
  | .ret => "Return"
  | .breakLoop => "Break"
  | .continueLoop => "Continue"
  | .empty => "Empty"

/-- Every kind, in the order of declaration. -/
def all : List SyntaxKind := [
  .numericLiteral, .booleanLiteral, .undefinedLiteral, .stringLiteral, .templateLiteral,
  .regExpLiteral, .objectLiteral, .arrayLiteral, .identifier, .this, .paren, .unary, .binary,
  .update, .assign, .conditional, .cast, .typeof, .delete, .spread, .await, .yield, .member,
  .index, .call, .construct, .arrowFunction, .functionExpression, .variableDeclaration,
  .expressionStatement, .block, .ifElse, .whileLoop, .doWhile, .forLoop, .forIn, .forOf, .switch,
  .tryCatch, .throw, .labeled, .ret, .breakLoop, .continueLoop, .empty]

theorem mem_all (k : SyntaxKind) : k ∈ all := by cases k <;> decide

/-- The kind with a name. -/
def named? (s : String) : Option SyntaxKind := all.find? fun k => k.name = s

end SyntaxKind

end TypedLowering
