import TypedLowering.Lowering.NumericText
import TypedLowering.Lowering.Specialization
import TypedLowering.Proofs.Semantics.Machine
import TypedLowering.Proofs.Source.Placement

/-!
Meaning of the trees that work on integers and booleans only. Expressions of this fragment have no
effect; statements change a store of variables and end in one of four ways. Integers are 32 bits wide
and wrap around, and the count of a shift is taken modulo 32.

Main definitions:

- `Node.IsPure`, `Node.IsStructured`: the expressions and statements of the fragment;
- `Node.Evaluates`: the value of an expression;
- `Executes`: what statements, lists of them and loops do;
- `Specialization.Evaluates`: the result of a call.
-/
namespace TypedLowering
set_option autoImplicit false

/-! ## Words -/

def Word.type : Word → StaticType
  | .int _ => .int
  | .bool _ => .boolean

@[simp] theorem Word.type_int (x : BitVec 32) : (Word.int x).type = .int := rfl

@[simp] theorem Word.type_bool (p : Bool) : (Word.bool p).type = .boolean := rfl

/-- What a variable holds that is declared without initial value. -/
def Word.zero? : StaticType → Option Word
  | .int => some (.int 0)
  | .boolean => some (.bool false)
  | _ => none

namespace BinaryOp

/-- The value of an operator that evaluates both operands. -/
def apply : BinaryOp → Word → Word → Option Word
  | .add, .int x, .int y => some (.int (x + y))
  | .sub, .int x, .int y => some (.int (x - y))
  | .mul, .int x, .int y => some (.int (x * y))
  | .bitAnd, .int x, .int y => some (.int (x &&& y))
  | .bitOr, .int x, .int y => some (.int (x ||| y))
  | .bitXor, .int x, .int y => some (.int (x ^^^ y))
  | .shl, .int x, .int y => some (.int (x <<< (y.toNat % 32)))
  | .shr, .int x, .int y => some (.int (x.sshiftRight (y.toNat % 32)))
  | .ushr, .int x, .int y => some (.int (x >>> (y.toNat % 32)))
  | .lt, .int x, .int y => some (.bool (decide (x.toInt < y.toInt)))
  | .ltEq, .int x, .int y => some (.bool (decide (x.toInt ≤ y.toInt)))
  | .gt, .int x, .int y => some (.bool (decide (x.toInt > y.toInt)))
  | .gtEq, .int x, .int y => some (.bool (decide (x.toInt ≥ y.toInt)))
  | .eq, .int x, .int y | .strictEq, .int x, .int y => some (.bool (decide (x = y)))
  | .notEq, .int x, .int y | .strictNotEq, .int x, .int y => some (.bool (decide (x ≠ y)))
  | .eq, .bool p, .bool q | .strictEq, .bool p, .bool q => some (.bool (decide (p = q)))
  | .notEq, .bool p, .bool q | .strictNotEq, .bool p, .bool q => some (.bool (decide (p ≠ q)))
  | _, _, _ => none

/-- The left operand that makes a logical operator leave out the right one. -/
def stopsAt : BinaryOp → Option Bool
  | .and => some false
  | .or => some true
  | _ => none

/-- Arithmetic and bitwise operators of the fragment. -/
def isIntegral : BinaryOp → Bool
  | .add | .sub | .mul | .bitAnd | .bitOr | .bitXor | .shl | .shr | .ushr => true
  | _ => false

/-- The type of a node with an operator of the fragment. -/
def nodeType? : BinaryOp → Option StaticType
  | .div | .rem | .exp => none
  | op => some (if op.isIntegral then .int else .boolean)

end BinaryOp

namespace UnaryOp

def apply : UnaryOp → Word → Option Word
  | .neg, .int x => some (.int (-x))
  | .plus, .int x => some (.int x)
  | .bitNot, .int x => some (.int (~~~x))
  | .not, .bool p => some (.bool (!p))
  | _, _ => none

def nodeType : UnaryOp → StaticType
  | .not => .boolean
  | _ => .int

end UnaryOp

def UpdateOp.apply : UpdateOp → BitVec 32 → BitVec 32
  | .increment, x => x + 1
  | .decrement, x => x - 1

/-! ## The fragment -/

def StaticType.isWord : StaticType → Bool
  | .int | .boolean => true
  | _ => false

theorem Word.isWord_type (c : Word) : c.type.isWord = true := by cases c <;> rfl

theorem UnaryOp.isWord_nodeType (op : UnaryOp) : op.nodeType.isWord = true := by cases op <;> rfl

/-- The expressions of the fragment, which have no effect. -/
inductive Node.IsPure : Node → Prop
  | numericLiteral {n : Node} {text : String} :
    n.form = .numericLiteral text → n.type = .int → IsPure n
  | booleanLiteral {n : Node} {b : Bool} : n.form = .booleanLiteral b → IsPure n
  | identifier {n : Node} {name : String} : n.form = .identifier name → IsPure n
  | paren {n e : Node} : n.form = .paren e → IsPure e → IsPure n
  | unary {n e : Node} {op : UnaryOp} :
    n.form = .unary op e → n.type = op.nodeType → IsPure e → IsPure n
  | binary {n l r : Node} {op : BinaryOp} :
    n.form = .binary op l r → op.nodeType? = some n.type → IsPure l → IsPure r → IsPure n
  | conditional {n c t e : Node} : n.form = .conditional c t e → n.type.isWord = true →
    IsPure c → IsPure t → IsPure e → IsPure n

namespace Node.IsPure

variable {n e l r c t : Node}

theorem of_numericLiteral (h : n.IsPure) {text : String} (hf : n.form = .numericLiteral text) :
    n.type = .int := by
  cases h <;> simp_all

theorem of_paren (h : n.IsPure) (hf : n.form = .paren e) : e.IsPure := by
  cases h <;> simp_all

theorem of_unary (h : n.IsPure) {op : UnaryOp} (hf : n.form = .unary op e) :
    n.type = op.nodeType ∧ e.IsPure := by
  cases h <;> simp_all

theorem of_binary (h : n.IsPure) {op : BinaryOp} (hf : n.form = .binary op l r) :
    op.nodeType? = some n.type ∧ l.IsPure ∧ r.IsPure := by
  cases h <;> simp_all

theorem of_conditional (h : n.IsPure) (hf : n.form = .conditional c t e) :
    n.type.isWord = true ∧ c.IsPure ∧ t.IsPure ∧ e.IsPure := by
  cases h <;> simp_all

end Node.IsPure

/-- The statements of the fragment, by position. At the position of an expression stands what
changes a variable: the content of an expression statement, or the update of a loop. -/
inductive Node.IsStructured : Position → Node → Prop
  | assign {n t e : Node} {name : String} :
    n.form = .assign none t e → t.form = .identifier name → e.IsPure → IsStructured .expression n
  | compound {n t e : Node} {op : BinaryOp} {name : String} :
    n.form = .assign (some op) t e → op.isIntegral = true → t.form = .identifier name → e.IsPure →
    IsStructured .expression n
  | update {n t : Node} {op : UpdateOp} {before : Bool} {name : String} :
    n.form = .update op before t → t.form = .identifier name → IsStructured .expression n
  | expressionStatement {n e : Node} : n.form = .expressionStatement e →
    IsStructured .expression e → IsStructured .statement n
  | block {n : Node} {body : List Node} : n.form = .block body →
    (∀ m ∈ body, IsStructured .item m) → IsStructured .statement n
  | ifElse {n c t : Node} {e : Option Node} : n.form = .ifElse c t e → c.IsPure →
    IsStructured .statement t → (∀ m, e = some m → IsStructured .statement m) →
    IsStructured .statement n
  | whileLoop {n c b : Node} : n.form = .whileLoop c b → c.IsPure → IsStructured .statement b →
    IsStructured .statement n
  | doWhile {n c b : Node} : n.form = .doWhile b c → c.IsPure → IsStructured .statement b →
    IsStructured .statement n
  | forLoop {n b : Node} {init c update : Option Node} : n.form = .forLoop init c update b →
    (∀ m, init = some m → IsStructured .init m) → (∀ m, c = some m → m.IsPure) →
    (∀ m, update = some m → IsStructured .expression m) → IsStructured .statement b →
    IsStructured .statement n
  | ret {n : Node} {e : Option Node} : n.form = .ret e → (∀ m, e = some m → m.IsPure) →
    IsStructured .statement n
  | breakLoop {n : Node} : n.form = .breakLoop → IsStructured .statement n
  | continueLoop {n : Node} : n.form = .continueLoop → IsStructured .statement n
  | empty {n : Node} : n.form = .empty → IsStructured .statement n
  | item {n : Node} : IsStructured .statement n → IsStructured .item n
  | init {n : Node} : IsStructured .expression n → IsStructured .init n
  | declaration {n : Node} {p : Position} {name : String} {e : Option Node} {mutable : Bool} :
    n.form = .variableDeclaration name e mutable → p = .item ∨ p = .init →
    n.type.isWord = true → (∀ m, e = some m → m.IsPure) → IsStructured p n

namespace Node.IsStructured

variable {n e c t b : Node} {p : Position} {op : Option BinaryOp} {init cond update : Option Node}
  {name : String} {mutable : Bool}

theorem of_assign (h : n.IsStructured p) (hf : n.form = .assign op t e) :
    e.IsPure ∧ ∀ o, op = some o → o.isIntegral = true := by
  induction h <;> simp_all

theorem of_declaration (h : n.IsStructured p) (hf : n.form = .variableDeclaration name init mutable) :
    (p = .item ∨ p = .init) ∧ n.type.isWord = true ∧ ∀ m, init = some m → m.IsPure := by
  induction h <;> simp_all

theorem of_expressionStatement (h : n.IsStructured p) (hf : n.form = .expressionStatement e) :
    e.IsStructured .expression := by
  induction h <;> simp_all

theorem of_block (h : n.IsStructured p) {body : List Node} (hf : n.form = .block body) :
    ∀ m ∈ body, m.IsStructured .item := by
  induction h <;> simp_all

theorem of_ifElse (h : n.IsStructured p) (hf : n.form = .ifElse c t init) :
    c.IsPure ∧ t.IsStructured .statement ∧ ∀ m, init = some m → m.IsStructured .statement := by
  induction h <;> simp_all

theorem of_whileLoop (h : n.IsStructured p) (hf : n.form = .whileLoop c b) :
    c.IsPure ∧ b.IsStructured .statement := by
  induction h <;> simp_all

theorem of_doWhile (h : n.IsStructured p) (hf : n.form = .doWhile b c) :
    c.IsPure ∧ b.IsStructured .statement := by
  induction h <;> simp_all

theorem of_forLoop (h : n.IsStructured p) (hf : n.form = .forLoop init cond update b) :
    (∀ m, init = some m → m.IsStructured .init) ∧ (∀ m, cond = some m → m.IsPure) ∧
      (∀ m, update = some m → m.IsStructured .expression) ∧ b.IsStructured .statement := by
  induction h <;> simp_all

theorem of_ret (h : n.IsStructured p) (hf : n.form = .ret init) :
    ∀ m, init = some m → m.IsPure := by
  induction h <;> simp_all

end Node.IsStructured

/-! ## Stores -/

/-- The variables in scope with what they hold, the newest first. -/
abbrev Store := List (String × Word)

namespace Store

/-- What the newest variable of a name holds. -/
def get? : Store → String → Option Word
  | [], _ => none
  | (x, w) :: σ, name => if x = name then some w else get? σ name

/-- Changes the newest variable of a name. -/
def set : Store → String → Word → Store
  | [], _, _ => []
  | (x, w) :: σ, name, w' => if x = name then (x, w') :: σ else (x, w) :: set σ name w'

/-- The variables that are left when only the oldest `count` are still in scope. -/
def keep (σ : Store) (count : Nat) : Store := σ.drop (σ.length - count)

end Store

/-! ## Evaluation -/

/-- The value of an expression. -/
inductive Node.Evaluates (σ : Store) : Node → Word → Prop
  | numericLiteral {n : Node} {text : String} {i : Int} : n.form = .numericLiteral text →
    NumericText.int? text = some i → Evaluates σ n (.int (.ofInt 32 i))
  | booleanLiteral {n : Node} {b : Bool} : n.form = .booleanLiteral b → Evaluates σ n (.bool b)
  | identifier {n : Node} {name : String} {w : Word} : n.form = .identifier name →
    σ.get? name = some w → Evaluates σ n w
  | paren {n e : Node} {w : Word} : n.form = .paren e → Evaluates σ e w → Evaluates σ n w
  | unary {n e : Node} {op : UnaryOp} {w w' : Word} : n.form = .unary op e → Evaluates σ e w →
    op.apply w = some w' → Evaluates σ n w'
  | binary {n l r : Node} {op : BinaryOp} {a b c : Word} : n.form = .binary op l r →
    Evaluates σ l a → Evaluates σ r b → op.apply a b = some c → Evaluates σ n c
  /-- The right operand is left out. -/
  | stop {n l r : Node} {op : BinaryOp} {p : Bool} : n.form = .binary op l r →
    op.stopsAt = some p → Evaluates σ l (.bool p) → Evaluates σ n (.bool p)
  | goOn {n l r : Node} {op : BinaryOp} {p q : Bool} : n.form = .binary op l r →
    op.stopsAt = some p → Evaluates σ l (.bool !p) → Evaluates σ r (.bool q) →
    Evaluates σ n (.bool q)
  | conditional {n c t e : Node} {p : Bool} {w : Word} : n.form = .conditional c t e →
    Evaluates σ c (.bool p) → Evaluates σ (if p then t else e) w → Evaluates σ n w

/-! ## Execution -/

/-- How a statement ends. -/
inductive Outcome where
  | normal
  | breaks
  | continues
  | returns (value : Option Word)
  deriving DecidableEq, Repr

/-- What is executed: a node, the nodes of a block, a part of a loop head that may be left out, or
the turns of a loop. -/
inductive Task where
  | node (n : Node)
  | list (nodes : List Node)
  | optional (n : Option Node)
  | loop (cond update : Option Node) (body : Node)

/-- Executing a task turns one store into another. -/
inductive Executes : Task → Store → Outcome → Store → Prop
  | assign {n t e : Node} {name : String} {σ : Store} {a w : Word} :
    n.form = .assign none t e → t.form = .identifier name → σ.get? name = some a →
    e.Evaluates σ w → Executes (.node n) σ .normal (σ.set name w)
  | compound {n t e : Node} {op : BinaryOp} {name : String} {σ : Store} {a b c : Word} :
    n.form = .assign (some op) t e → t.form = .identifier name → σ.get? name = some a →
    e.Evaluates σ b → op.apply a b = some c → Executes (.node n) σ .normal (σ.set name c)
  | update {n t : Node} {op : UpdateOp} {before : Bool} {name : String} {σ : Store}
    {x : BitVec 32} : n.form = .update op before t → t.form = .identifier name →
    σ.get? name = some (.int x) → Executes (.node n) σ .normal (σ.set name (.int (op.apply x)))
  | declare {n e : Node} {name : String} {mutable : Bool} {σ : Store} {w : Word} :
    n.form = .variableDeclaration name (some e) mutable → e.Evaluates σ w →
    Executes (.node n) σ .normal ((name, w) :: σ)
  | declareZero {n : Node} {name : String} {mutable : Bool} {σ : Store} {w : Word} :
    n.form = .variableDeclaration name none mutable → Word.zero? n.type = some w →
    Executes (.node n) σ .normal ((name, w) :: σ)
  | expressionStatement {n e : Node} {σ σ' : Store} {o : Outcome} :
    n.form = .expressionStatement e → Executes (.node e) σ o σ' → Executes (.node n) σ o σ'
  /-- What a block declares goes out of scope however it ends. -/
  | block {n : Node} {body : List Node} {σ σ' : Store} {o : Outcome} : n.form = .block body →
    Executes (.list body) σ o σ' → Executes (.node n) σ o (σ'.keep σ.length)
  | ifTrue {n c t : Node} {e : Option Node} {σ σ' : Store} {o : Outcome} :
    n.form = .ifElse c t e → c.Evaluates σ (.bool true) → Executes (.node t) σ o σ' →
    Executes (.node n) σ o σ'
  | ifFalse {n c t : Node} {e : Option Node} {σ σ' : Store} {o : Outcome} :
    n.form = .ifElse c t e → c.Evaluates σ (.bool false) → Executes (.optional e) σ o σ' →
    Executes (.node n) σ o σ'
  | whileLoop {n c b : Node} {σ σ' : Store} {o : Outcome} : n.form = .whileLoop c b →
    Executes (.loop (some c) none b) σ o σ' → Executes (.node n) σ o σ'
  /-- A first turn without test, then the loop. -/
  | doWhile {n c b : Node} {σ σ₁ σ' : Store} {o₁ o : Outcome} : n.form = .doWhile b c →
    Executes (.node b) σ o₁ σ₁ → o₁ = .normal ∨ o₁ = .continues →
    Executes (.loop (some c) none b) σ₁ o σ' → Executes (.node n) σ o σ'
  | doWhileBreaks {n c b : Node} {σ σ' : Store} : n.form = .doWhile b c →
    Executes (.node b) σ .breaks σ' → Executes (.node n) σ .normal σ'
  | doWhileReturns {n c b : Node} {σ σ' : Store} {r : Option Word} : n.form = .doWhile b c →
    Executes (.node b) σ (.returns r) σ' → Executes (.node n) σ (.returns r) σ'
  | forLoop {n b : Node} {init c update : Option Node} {σ σ₁ σ' : Store} {o : Outcome} :
    n.form = .forLoop init c update b → Executes (.optional init) σ .normal σ₁ →
    Executes (.loop c update b) σ₁ o σ' → Executes (.node n) σ o (σ'.keep σ.length)
  | ret {n : Node} {σ : Store} : n.form = .ret none → Executes (.node n) σ (.returns none) σ
  | retValue {n e : Node} {σ : Store} {w : Word} : n.form = .ret (some e) → e.Evaluates σ w →
    Executes (.node n) σ (.returns (some w)) σ
  | breakLoop {n : Node} {σ : Store} : n.form = .breakLoop → Executes (.node n) σ .breaks σ
  | continueLoop {n : Node} {σ : Store} : n.form = .continueLoop →
    Executes (.node n) σ .continues σ
  | empty {n : Node} {σ : Store} : n.form = .empty → Executes (.node n) σ .normal σ
  | nil {σ : Store} : Executes (.list []) σ .normal σ
  | cons {n : Node} {rest : List Node} {σ σ₁ σ' : Store} {o : Outcome} :
    Executes (.node n) σ .normal σ₁ → Executes (.list rest) σ₁ o σ' →
    Executes (.list (n :: rest)) σ o σ'
  | consStop {n : Node} {rest : List Node} {σ σ' : Store} {o : Outcome} :
    Executes (.node n) σ o σ' → o ≠ .normal → Executes (.list (n :: rest)) σ o σ'
  | none {σ : Store} : Executes (.optional none) σ .normal σ
  | some {n : Node} {σ σ' : Store} {o : Outcome} : Executes (.node n) σ o σ' →
    Executes (.optional (some n)) σ o σ'
  | loopEnd {c b : Node} {update : Option Node} {σ : Store} : c.Evaluates σ (.bool false) →
    Executes (.loop (some c) update b) σ .normal σ
  | loopNext {b : Node} {c update : Option Node} {σ σ₁ σ₂ σ' : Store} {o₁ o : Outcome} :
    (∀ m, c = some m → m.Evaluates σ (.bool true)) → Executes (.node b) σ o₁ σ₁ →
    o₁ = .normal ∨ o₁ = .continues → Executes (.optional update) σ₁ .normal σ₂ →
    Executes (.loop c update b) σ₂ o σ' → Executes (.loop c update b) σ o σ'
  | loopBreaks {b : Node} {c update : Option Node} {σ σ' : Store} :
    (∀ m, c = some m → m.Evaluates σ (.bool true)) → Executes (.node b) σ .breaks σ' →
    Executes (.loop c update b) σ .normal σ'
  | loopReturns {b : Node} {c update : Option Node} {σ σ' : Store} {r : Option Word} :
    (∀ m, c = some m → m.Evaluates σ (.bool true)) → Executes (.node b) σ (.returns r) σ' →
    Executes (.loop c update b) σ (.returns r) σ'

/-! ## Calls -/

/-- What a call gives whose body ends in some way. A body that should return a value and comes to
its end without one gives nothing, and neither does one that leaves a loop it is not in. -/
def Outcome.result? : Outcome → StaticType → Option (Option Word)
  | .normal, .void | .returns _, .void => some none
  | .returns (some w), _ => some (some w)
  | _, _ => none

theorem Outcome.result?_returns {value result : Option Word} {t : StaticType}
    (h : (returns value).result? t = some result) : result = if t = .void then none else value := by
  cases value <;> cases t <;> simp_all [result?]

/-- The parameters as variables: a supplied one holds the next argument, any other the value of its
default. -/
inductive Binds : List ResolvedParam → List Word → Store → Store → Prop
  | nil {σ : Store} : Binds [] [] σ σ
  | supplied {p : ResolvedParam} {rest : List ResolvedParam} {w : Word} {args : List Word}
    {σ σ' : Store} : p.supplied = true → w.type = p.type →
    Binds rest args ((p.name, w) :: σ) σ' → Binds (p :: rest) (w :: args) σ σ'
  | omitted {p : ResolvedParam} {rest : List ResolvedParam} {d : Node} {w : Word}
    {args : List Word} {σ σ' : Store} : p.supplied = false → p.default = some d →
    d.Evaluates σ w → Binds rest args ((p.name, w) :: σ) σ' → Binds (p :: rest) args σ σ'

namespace Specialization

/-- A function of the fragment: parameters are integers or booleans, and so is the result, if there
is one. -/
structure IsStructured (s : Specialization) (body : Node) : Prop where
  params : ∀ p ∈ s.params, p.type.isWord = true
  defaults : ∀ p ∈ s.params, ∀ d, p.default = some d → d.IsPure
  ret : s.ret = .void ∨ s.ret.isWord = true
  body : Node.IsStructured .item body

/-- A call with `args` gives `result`. -/
def Evaluates (s : Specialization) (body : Node) (args : List Word) (result : Option Word) : Prop :=
  ∃ σ o σ', Binds s.params args [] σ ∧ Executes (.node body) σ o σ' ∧
    o.result? s.ret = some result

/-- What the low-level function is called with. The receiver, which this fragment has no use for, may
be anything. -/
def loweredArgs (s : Specialization) (receiver : Ssa.Datum) (args : List Word) : List Ssa.Datum :=
  (if s.isInstance then [receiver] else []) ++ args.map .word

theorem getElem?_loweredArgs (s : Specialization) (receiver : Ssa.Datum) (args : List Word)
    (j : Nat) : (s.loweredArgs receiver args)[(if s.isInstance then 1 else 0) + j]?
      = args[j]?.map .word := by
  unfold loweredArgs
  cases s.isInstance <;> simp [Nat.add_comm 1]

end Specialization

end TypedLowering
