import TypedLowering.Decimal.Binary64
import TypedLowering.Ssa.Handle
import TypedLowering.Ssa.Ty

/-!
Constants, instructions and terminators of the low-level code. An instruction defines at most one
value; `Definition` pairs it with the type of that value, and the constructors in its namespace
give each instruction the type it has.
-/
namespace TypedLowering.Ssa
set_option autoImplicit false

/-! ## Constants -/

/-- A constant operand. -/
inductive Constant where
  | int (type : Ty) (value : Int)
  | float (value : Binary64)
  | null
  deriving DecidableEq, Repr

namespace Constant

def i32 (value : Int) : Constant := .int .i32 value
def i64 (value : Int) : Constant := .int .i64 value
def bool (value : Bool) : Constant := .int .i1 (if value then 1 else 0)

def type : Constant → Ty
  | .int t _ => t
  | .float _ => .f64
  | .null => .ptr

/-- The zero of a type; `void` has none. -/
def zero : Ty → Option Constant
  | .void => none
  | .f64 => some (.float .zero)
  | .ptr => some .null
  | t => some (.int t 0)

theorem type_of_zero {t : Ty} {c : Constant} (h : zero t = some c) : c.type = t := by
  cases t <;> simp_all [zero] <;> subst h <;> rfl

end Constant

/-! ## Operators -/

/-- Arithmetic and bitwise instructions with two operands. -/
inductive BinOp where
  | add | sub | mul | sdiv | srem
  | fadd | fsub | fmul | fdiv | frem
  | and | or | xor | shl | ashr | lshr
  deriving DecidableEq, Repr

def BinOp.mnemonic : BinOp → String
  | .add => "add"
  | .sub => "sub"
  | .mul => "mul"
  | .sdiv => "sdiv"
  | .srem => "srem"
  | .fadd => "fadd"
  | .fsub => "fsub"
  | .fmul => "fmul"
  | .fdiv => "fdiv"
  | .frem => "frem"
  | .and => "and"
  | .or => "or"
  | .xor => "xor"
  | .shl => "shl"
  | .ashr => "ashr"
  | .lshr => "lshr"

def BinOp.all : List BinOp :=
  [.add, .sub, .mul, .sdiv, .srem, .fadd, .fsub, .fmul, .fdiv, .frem, .and, .or, .xor, .shl, .ashr,
    .lshr]

/-- Signed comparisons of integers. -/
inductive IntPredicate where
  | eq | ne | slt | sle | sgt | sge
  deriving DecidableEq, Repr

def IntPredicate.mnemonic : IntPredicate → String
  | .eq => "eq"
  | .ne => "ne"
  | .slt => "slt"
  | .sle => "sle"
  | .sgt => "sgt"
  | .sge => "sge"

def IntPredicate.all : List IntPredicate := [.eq, .ne, .slt, .sle, .sgt, .sge]

/-- Comparisons of floats: an ordered one is false if an operand is not a number, `une` is true. -/
inductive FloatPredicate where
  | oeq | une | olt | ole | ogt | oge
  deriving DecidableEq, Repr

def FloatPredicate.mnemonic : FloatPredicate → String
  | .oeq => "oeq"
  | .une => "une"
  | .olt => "olt"
  | .ole => "ole"
  | .ogt => "ogt"
  | .oge => "oge"

def FloatPredicate.all : List FloatPredicate := [.oeq, .une, .olt, .ole, .ogt, .oge]

/-- Conversions: signed integer to float, float to signed integer toward zero, and extension of a
truth value by zeros. -/
inductive CastOp where
  | sitofp | fptosi | zext
  deriving DecidableEq, Repr

def CastOp.mnemonic : CastOp → String
  | .sitofp => "sitofp"
  | .fptosi => "fptosi"
  | .zext => "zext"

def CastOp.all : List CastOp := [.sitofp, .fptosi, .zext]

/-! ## Attributes -/

/-- Promises about a function or a call. -/
structure Attributes where
  /-- A call has no observable effect. -/
  noSideEffects : Bool := false
  /-- A call cannot fail. -/
  noUnwind : Bool := false
  /-- The returned pointer aliases nothing else. -/
  noAliasReturn : Bool := false
  deriving DecidableEq, Repr

namespace Attributes

def none : Attributes := ⟨false, false, false⟩

/-- The promises of both. -/
def union (a b : Attributes) : Attributes :=
  ⟨a.noSideEffects || b.noSideEffects, a.noUnwind || b.noUnwind,
    a.noAliasReturn || b.noAliasReturn⟩

/-- The spellings of the promises made, in a fixed order. -/
def names (a : Attributes) : List String :=
  (if a.noSideEffects then ["readnone"] else []) ++ (if a.noUnwind then ["nounwind"] else [])
    ++ (if a.noAliasReturn then ["noalias"] else [])

/-- The single promise with a spelling. -/
def named? : String → Option Attributes
  | "readnone" => some ⟨true, false, false⟩
  | "nounwind" => some ⟨false, true, false⟩
  | "noalias" => some ⟨false, false, true⟩
  | _ => Option.none

end Attributes

/-! ## Instructions -/

/-- An instruction. -/
inductive Op where
  | const (value : Constant)
  /-- The parameter with a number. -/
  | param (index : Nat)
  | binary (op : BinOp) (lhs rhs : ValueId)
  | fneg (value : ValueId)
  | icmp (pred : IntPredicate) (lhs rhs : ValueId)
  | fcmp (pred : FloatPredicate) (lhs rhs : ValueId)
  | cast (op : CastOp) (value : ValueId)
  /-- A stack slot for values of a type. -/
  | alloca (type : Ty)
  | load (ptr : ValueId)
  | store (value ptr : ValueId)
  /-- The address of a field of the struct at `base`. -/
  | fieldPtr (base : ValueId) (struct : StructId) (index : Nat)
  /-- The address of an element of a contiguous buffer. -/
  | elementPtr (base : ValueId) (elemType : Ty) (index : ValueId)
  | globalAddr (global : GlobalId)
  | call (callee : FunctionId) (args : List ValueId) (attrs : Attributes)
  /-- The value that belongs to the block control came from. -/
  | phi (incoming : List (ValueId × BlockId))
  | select (cond thenValue elseValue : ValueId)
  deriving DecidableEq, Repr

/-- How a block ends. -/
inductive Terminator where
  | ret (value : Option ValueId)
  | br (target : BlockId)
  | condBr (cond : ValueId) (thenBlock elseBlock : BlockId)
  | unreachable
  deriving DecidableEq, Repr

/-- The blocks that control can pass to. -/
def Terminator.successors : Terminator → List BlockId
  | .br b => [b]
  | .condBr _ t e => [t, e]
  | .ret _ | .unreachable => []

/-- An instruction and the type of the value it defines, `void` if it defines none. -/
structure Definition where
  op : Op
  type : Ty
  deriving DecidableEq, Repr

namespace Definition

def const (c : Constant) : Definition := ⟨.const c, c.type⟩
def fneg (v : ValueId) : Definition := ⟨.fneg v, .f64⟩
def icmp (pred : IntPredicate) (lhs rhs : ValueId) : Definition := ⟨.icmp pred lhs rhs, .i1⟩
def fcmp (pred : FloatPredicate) (lhs rhs : ValueId) : Definition := ⟨.fcmp pred lhs rhs, .i1⟩
def cast (op : CastOp) (v : ValueId) (target : Ty) : Definition := ⟨.cast op v, target⟩
def load (t : Ty) (ptr : ValueId) : Definition := ⟨.load ptr, t⟩
def store (v ptr : ValueId) : Definition := ⟨.store v ptr, .void⟩
def fieldPtr (base : ValueId) (s : StructId) (index : Nat) : Definition :=
  ⟨.fieldPtr base s index, .ptr⟩
def elementPtr (base : ValueId) (t : Ty) (index : ValueId) : Definition :=
  ⟨.elementPtr base t index, .ptr⟩
def globalAddr (g : GlobalId) : Definition := ⟨.globalAddr g, .ptr⟩
def call (callee : FunctionId) (ret : Ty) (args : List ValueId) (attrs : Attributes) : Definition :=
  ⟨.call callee args attrs, ret⟩
def phi (t : Ty) (incoming : List (ValueId × BlockId)) : Definition := ⟨.phi incoming, t⟩
/-- The result has the type of the left operand. -/
def binary (op : BinOp) (lhs rhs : ValueId) (lhsType : Ty) : Definition :=
  ⟨.binary op lhs rhs, lhsType⟩
/-- The result has the type of the first arm. -/
def select (cond thenValue elseValue : ValueId) (thenType : Ty) : Definition :=
  ⟨.select cond thenValue elseValue, thenType⟩

end Definition

end TypedLowering.Ssa
