import TypedLowering.Proofs.Source.Arrangement

/-!
Trees with other types: `Node.retyped` changes the static types of a tree and the type arguments of
its calls, and nothing else.
-/
namespace TypedLowering
set_option autoImplicit false

/-- The same call at other type arguments. -/
def Signature.retyped (φ : StaticType → StaticType) (s : Signature) : Signature :=
  { s with typeArgs := s.typeArgs.map φ }

namespace Node

mutual

/-- A tree in which `φ` is applied to every type. -/
def retyped (φ : StaticType → StaticType) : Node → Node
  | .mk id span type form => .mk id span (φ type) (retypedForm φ form)

/-- A form in whose parts `φ` is applied to every type. -/
def retypedForm (φ : StaticType → StaticType) : Form Node → Form Node
  | .numericLiteral text => .numericLiteral text
  | .booleanLiteral value => .booleanLiteral value
  | .undefinedLiteral => .undefinedLiteral
  | .stringLiteral text => .stringLiteral text
  | .templateLiteral parts => .templateLiteral (retypedList φ parts)
  | .regExpLiteral text => .regExpLiteral text
  | .objectLiteral parts => .objectLiteral (retypedList φ parts)
  | .arrayLiteral elements => .arrayLiteral (retypedList φ elements)
  | .identifier name => .identifier name
  | .this => .this
  | .paren inner => .paren (retyped φ inner)
  | .unary op operand => .unary op (retyped φ operand)
  | .binary op left right => .binary op (retyped φ left) (retyped φ right)
  | .update op before target => .update op before (retyped φ target)
  | .assign op target value => .assign op (retyped φ target) (retyped φ value)
  | .conditional cond thenExpr elseExpr =>
    .conditional (retyped φ cond) (retyped φ thenExpr) (retyped φ elseExpr)
  | .cast inner => .cast (retyped φ inner)
  | .typeof inner => .typeof (retyped φ inner)
  | .delete inner => .delete (retyped φ inner)
  | .spread inner => .spread (retyped φ inner)
  | .await inner => .await (retyped φ inner)
  | .yield inner => .yield (retypedOption φ inner)
  | .member object property => .member (retyped φ object) property
  | .index object index => .index (retyped φ object) (retyped φ index)
  | .call callee args signature =>
    .call (retyped φ callee) (retypedList φ args) (signature.map (Signature.retyped φ))
  | .construct callee args signature =>
    .construct (retyped φ callee) (retypedList φ args) (signature.map (Signature.retyped φ))
  | .arrowFunction func => .arrowFunction func
  | .functionExpression func => .functionExpression func
  | .variableDeclaration name init mutable =>
    .variableDeclaration name (retypedOption φ init) mutable
  | .expressionStatement expr => .expressionStatement (retyped φ expr)
  | .block body => .block (retypedList φ body)
  | .ifElse cond thenBranch elseBranch =>
    .ifElse (retyped φ cond) (retyped φ thenBranch) (retypedOption φ elseBranch)
  | .whileLoop cond body => .whileLoop (retyped φ cond) (retyped φ body)
  | .doWhile body cond => .doWhile (retyped φ body) (retyped φ cond)
  | .forLoop init cond update body =>
    .forLoop (retypedOption φ init) (retypedOption φ cond) (retypedOption φ update)
      (retyped φ body)
  | .forIn binding iterable body => .forIn binding (retyped φ iterable) (retyped φ body)
  | .forOf binding iterable body => .forOf binding (retyped φ iterable) (retyped φ body)
  | .switch discriminant cases => .switch (retyped φ discriminant) (retypedList φ cases)
  | .tryCatch body handler finalizer =>
    .tryCatch (retyped φ body) (retypedOption φ handler) (retypedOption φ finalizer)
  | .throw inner => .throw (retyped φ inner)
  | .labeled label body => .labeled label (retyped φ body)
  | .ret value => .ret (retypedOption φ value)
  | .breakLoop => .breakLoop
  | .continueLoop => .continueLoop
  | .empty => .empty

def retypedList (φ : StaticType → StaticType) : List Node → List Node
  | [] => []
  | n :: rest => retyped φ n :: retypedList φ rest

def retypedOption (φ : StaticType → StaticType) : Option Node → Option Node
  | none => none
  | some n => some (retyped φ n)

end

variable {φ : StaticType → StaticType}

@[simp] theorem retypedList_eq_map (l : List Node) : retypedList φ l = l.map (retyped φ) := by
  induction l with
  | nil => rfl
  | cons n rest ih => rw [retypedList, ih, List.map_cons]

@[simp] theorem retypedOption_eq_map (o : Option Node) :
    retypedOption φ o = o.map (retyped φ) := by
  cases o <;> rfl

@[simp] theorem span_retyped (n : Node) : (n.retyped φ).span = n.span := by
  cases n
  rfl

@[simp] theorem type_retyped (n : Node) : (n.retyped φ).type = φ n.type := by
  cases n
  rfl

@[simp] theorem form_retyped (n : Node) : (n.retyped φ).form = retypedForm φ n.form := by
  cases n
  rfl

theorem kind_retypedForm (f : Form Node) : (retypedForm φ f).kind = f.kind := by
  cases f <;> rfl

@[simp] theorem kind_retyped (n : Node) : (n.retyped φ).kind = n.kind := by
  rw [kind, form_retyped, kind_retypedForm, kind]

mutual

/-- Nothing changes if no type does. -/
theorem retyped_self : ∀ n : Node, n.retyped (fun t => t) = n
  | .mk id span type form => by rw [retyped, retypedForm_self form]

theorem retypedForm_self (form : Form Node) : retypedForm (fun t => t) form = form := by
  have signature (s : Option Signature) : s.map (Signature.retyped fun t => t) = s := by
    cases s <;> simp [Signature.retyped]
  cases form <;>
    simp only [retypedForm, retyped_self, retypedList_self, retypedOption_self, signature]

theorem retypedList_self : ∀ l : List Node, retypedList (fun t => t) l = l
  | [] => rfl
  | n :: rest => by rw [retypedList, retyped_self n, retypedList_self rest]

theorem retypedOption_self : ∀ o : Option Node, retypedOption (fun t => t) o = o
  | none => rfl
  | some n => by rw [retypedOption, retyped_self n]

end

end Node

end TypedLowering
