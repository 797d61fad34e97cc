import TypedLowering.Source.Operator
import TypedLowering.Source.Span
import TypedLowering.Source.StaticType
import TypedLowering.Source.SyntaxKind

/-!
Source trees. A node has a form, which says what it is and holds its parts, a location, and the
static type that was resolved for it (`void` for a statement). Forms cover everything the language
has, also what is never compiled.
-/
namespace TypedLowering
set_option autoImplicit false

/-- The resolution of one call: the function selected, and what its type parameters stand for. -/
structure Signature where
  func : FuncId
  typeArgs : List StaticType
  deriving DecidableEq, Repr

/-- What a node is, with parts of type `α`. -/
inductive Form (α : Type) where
  /-- A numeric literal by its text, which is checked against the static type. -/
  | numericLiteral (text : String)
  | booleanLiteral (value : Bool)
  | undefinedLiteral
  | stringLiteral (text : String)
  | templateLiteral (parts : List α)
  | regExpLiteral (text : String)
  | objectLiteral (parts : List α)
  | arrayLiteral (elements : List α)
  | identifier (name : String)
  | this
  | paren (inner : α)
  | unary (op : UnaryOp) (operand : α)
  | binary (op : BinaryOp) (left right : α)
  /-- `before` tells `++x` from `x++`. -/
  | update (op : UpdateOp) (before : Bool) (target : α)
  /-- An assignment, compound if there is an operator. -/
  | assign (op : Option BinaryOp) (target value : α)
  | conditional (cond thenExpr elseExpr : α)
  /-- An explicit conversion to the type of the node. -/
  | cast (inner : α)
  | typeof (inner : α)
  | delete (inner : α)
  | spread (inner : α)
  | await (inner : α)
  | yield (inner : Option α)
  | member (object : α) (property : String)
  | index (object index : α)
  /-- Calls of members of arrays and built-in objects have no signature. -/
  | call (callee : α) (args : List α) (signature : Option Signature)
  /-- A `new` expression; the signature is that of the constructor, if there is one. -/
  | construct (callee : α) (args : List α) (signature : Option Signature)
  | arrowFunction (func : FuncId)
  | functionExpression (func : FuncId)
  /-- A declaration of a variable or constant of the node's type. -/
  | variableDeclaration (name : String) (init : Option α) (mutable : Bool)
  | expressionStatement (expr : α)
  | block (body : List α)
  | ifElse (cond thenBranch : α) (elseBranch : Option α)
  | whileLoop (cond body : α)
  | doWhile (body cond : α)
  | forLoop (init cond update : Option α) (body : α)
  | forIn (binding : String) (iterable body : α)
  | forOf (binding : String) (iterable body : α)
  | switch (discriminant : α) (cases : List α)
  | tryCatch (body : α) (handler finalizer : Option α)
  | throw (inner : α)
  | labeled (label : String) (body : α)
  | ret (value : Option α)
  | breakLoop
  | continueLoop
  | empty

/-- The kind of a form. -/
def Form.kind {α : Type} : Form α → SyntaxKind
  | .numericLiteral _ => .numericLiteral
  | .booleanLiteral _ => .booleanLiteral
  | .undefinedLiteral => .undefinedLiteral
  | .stringLiteral _ => .stringLiteral
  | .templateLiteral _ => .templateLiteral
  | .regExpLiteral _ => .regExpLiteral
  | .objectLiteral _ => .objectLiteral
  | .arrayLiteral _ => .arrayLiteral
  | .identifier _ => .identifier
  | .this => .this
  | .paren _ => .paren
  | .unary _ _ => .unary
  | .binary _ _ _ => .binary
  | .update _ _ _ => .update
  | .assign _ _ _ => .assign
  | .conditional _ _ _ => .conditional
  | .cast _ => .cast
  | .typeof _ => .typeof
  | .delete _ => .delete
  | .spread _ => .spread
  | .await _ => .await
  | .yield _ => .yield
  | .member _ _ => .member
  | .index _ _ => .index
  | .call _ _ _ => .call
  | .construct _ _ _ => .construct
  | .arrowFunction _ => .arrowFunction
  | .functionExpression _ => .functionExpression
  | .variableDeclaration _ _ _ => .variableDeclaration
  | .expressionStatement _ => .expressionStatement
  | .block _ => .block
  | .ifElse _ _ _ => .ifElse
  | .whileLoop _ _ => .whileLoop
  | .doWhile _ _ => .doWhile
  | .forLoop _ _ _ _ => .forLoop
  | .forIn _ _ _ => .forIn
  | .forOf _ _ _ => .forOf
  | .switch _ _ => .switch
  | .tryCatch _ _ _ => .tryCatch
  | .throw _ => .throw
  | .labeled _ _ => .labeled
  | .ret _ => .ret
  | .breakLoop => .breakLoop
  | .continueLoop => .continueLoop
  | .empty => .empty

/-- The parts of a form, in source order. -/
def Form.children {α : Type} : Form α → List α
  | .templateLiteral xs | .objectLiteral xs | .arrayLiteral xs | .block xs => xs
  | .paren x | .unary _ x | .update _ _ x | .cast x | .typeof x | .delete x | .spread x | .await x
  | .member x _ | .expressionStatement x | .throw x | .labeled _ x => [x]
  | .binary _ x y | .assign _ x y | .index x y | .whileLoop x y | .doWhile x y | .forIn _ x y
  | .forOf _ x y => [x, y]
  | .conditional x y z => [x, y, z]
  | .yield x | .variableDeclaration _ x _ | .ret x => x.toList
  | .call x xs _ | .construct x xs _ | .switch x xs => x :: xs
  | .ifElse x y z => x :: y :: z.toList
  | .forLoop x y z w => x.toList ++ y.toList ++ z.toList ++ [w]
  | .tryCatch x y z => x :: (y.toList ++ z.toList)
  | .numericLiteral _ | .booleanLiteral _ | .undefinedLiteral | .stringLiteral _ | .regExpLiteral _
  | .identifier _ | .this | .arrowFunction _ | .functionExpression _ | .breakLoop | .continueLoop
  | .empty => []

/-- The number of a node in the order of construction. -/
structure NodeId where
  index : Nat
  deriving DecidableEq, Repr

def NodeId.text (n : NodeId) : String := "NodeId(" ++ toString n.index ++ ")"

/-- A source tree. -/
inductive Node where
  | mk (id : NodeId) (span : Span) (type : StaticType) (form : Form Node)

namespace Node

def id : Node → NodeId
  | mk id _ _ _ => id

def span : Node → Span
  | mk _ span _ _ => span

def type : Node → StaticType
  | mk _ _ type _ => type

def form : Node → Form Node
  | mk _ _ _ form => form

def kind (n : Node) : SyntaxKind := n.form.kind

/-- The nodes directly below a node. -/
def children (n : Node) : List Node := n.form.children

theorem sizeOf_lt_of_mem_form {form : Form Node} {c : Node} (h : c ∈ form.children) :
    sizeOf c < sizeOf form := by
  have list (xs : List Node) : c ∈ xs → sizeOf c < sizeOf xs := List.sizeOf_lt_of_mem
  have option (x : Option Node) : x = some c → sizeOf c < sizeOf x := by
    rintro rfl; simp
  cases form <;> simp [Form.children] at h ⊢ <;> grind

/-- A child is smaller than its parent, which is what recursion over trees rests on. -/
theorem sizeOf_lt_of_mem_children {n c : Node} (h : c ∈ n.children) : sizeOf c < sizeOf n := by
  cases n with
  | mk id span type form =>
    have : sizeOf c < sizeOf form := sizeOf_lt_of_mem_form h
    simp only [mk.sizeOf_spec]
    omega

/-- The resolved call of a call or `new` expression. -/
def signature? (n : Node) : Option Signature :=
  match n.form with
  | .call _ _ s | .construct _ _ s => s
  | _ => none

/-- The number of type arguments that a node writes. -/
def typeArgCount (n : Node) : Nat :=
  match n.signature? with
  | some s => s.typeArgs.length
  | none => 0

end Node

end TypedLowering
