import TypedLowering.Decimal.Shortest
import TypedLowering.Ssa.Module

/-!
The text of a module. It is determined by the content: functions, structs and globals are written
in the order of creation, and values by their numbers.
-/
namespace TypedLowering.Ssa
set_option autoImplicit false

def Constant.text : Constant → String
  | .int t v => t.text ++ " " ++ toString v
  | .float x => "double " ++ x.text
  | .null => "ptr null"

/-- Attributes behind a declaration, definition or call; nothing if there are none. -/
def Attributes.suffix (a : Attributes) : String :=
  match a.names with
  | [] => ""
  | names => " #[" ++ " ".intercalate names ++ "]"

namespace Function

/-- A value with its type in front. -/
def operandText (f : Function) (v : ValueId) : String := (f.valueType v).text ++ " " ++ v.text

end Function

/-- The text of an instruction, without the value it defines. -/
def Definition.text (m : Module) (f : Function) (d : Definition) : String :=
  match d.op with
  | .const c => "const " ++ c.text
  | .param i => "param " ++ toString i
  | .binary op l r => op.mnemonic ++ " " ++ f.operandText l ++ ", " ++ r.text
  | .fneg v => "fneg " ++ f.operandText v
  | .icmp p l r => "icmp " ++ p.mnemonic ++ " " ++ f.operandText l ++ ", " ++ r.text
  | .fcmp p l r => "fcmp " ++ p.mnemonic ++ " " ++ f.operandText l ++ ", " ++ r.text
  | .cast op v => op.mnemonic ++ " " ++ f.operandText v ++ " to " ++ d.type.text
  | .alloca t => "alloca " ++ t.text
  | .load p => "load " ++ d.type.text ++ ", ptr " ++ p.text
  | .store v p => "store " ++ f.operandText v ++ ", ptr " ++ p.text
  | .fieldPtr base s i =>
    let name := match m.struct? s with
      | some def_ => def_.name
      | none => ""
    "getelementptr %" ++ name ++ ", ptr " ++ base.text ++ ", i32 0, i32 " ++ toString i
  | .elementPtr base t i =>
    "getelementptr " ++ t.text ++ ", ptr " ++ base.text ++ ", " ++ f.operandText i
  | .globalAddr g =>
    let name := match m.global? g with
      | some global => global.name
      | none => ""
    "globaladdr @" ++ name
  | .call callee args attrs =>
    "call " ++ d.type.text ++ " @" ++ m.functionName callee ++ "("
      ++ ", ".intercalate (args.map f.operandText) ++ ")" ++ attrs.suffix
  | .phi incoming =>
    "phi " ++ d.type.text ++ " "
      ++ ", ".intercalate (incoming.map fun (v, b) =>
        "[ " ++ v.text ++ ", %" ++ f.label b ++ " ]")
  | .select c t e =>
    "select i1 " ++ c.text ++ ", " ++ f.operandText t ++ ", " ++ f.operandText e

/-- The line of an instruction; a value is named unless it is `void`. -/
def Function.instructionText (m : Module) (f : Function) (v : ValueId) : String :=
  match f.definition? v with
  | none => ""
  | some d => (if d.type = .void then "" else v.text ++ " = ") ++ d.text m f

def Terminator.text (f : Function) : Terminator → String
  | .ret (some v) => "ret " ++ f.operandText v
  | .ret none => "ret void"
  | .br b => "br label %" ++ f.label b
  | .condBr c t e => "br i1 " ++ c.text ++ ", label %" ++ f.label t ++ ", label %" ++ f.label e
  | .unreachable => "unreachable"

def Block.lines (m : Module) (f : Function) (b : Block) : List String :=
  (b.label ++ ":") :: b.insts.toList.map (fun v => "  " ++ f.instructionText m v)
    ++ ["  " ++ match b.terminator with
      | some t => t.text f
      | none => "; missing terminator"]

/-- A declaration is one line; a definition holds its blocks between braces. -/
def Function.lines (m : Module) (f : Function) : List String :=
  if f.isDeclaration then
    ["declare " ++ f.ret.text ++ " @" ++ f.name ++ "(" ++ paramListText f.params f.variadic ++ ")"
      ++ f.attrs.suffix]
  else
    let linkage := if f.linkage = .internal then "internal " else ""
    let params := f.params.zipIdx.map fun (t, i) => t.text ++ " " ++ (Function.param i).text
    ("define " ++ linkage ++ f.ret.text ++ " @" ++ f.name ++ "(" ++ ", ".intercalate params ++ ")"
      ++ f.attrs.suffix ++ " \x7b") :: f.blocks.toList.flatMap (fun b => b.lines m f) ++ ["\x7d"]

def StructDef.text (d : StructDef) : String :=
  "%" ++ d.name ++ " = type \x7b " ++ ", ".intercalate (d.fields.map Ty.text) ++ " \x7d"

def Global.text (g : Global) : String :=
  "@" ++ g.name ++ " = private constant [" ++ toString g.data.length ++ " x " ++ g.elemType.text
    ++ "] [" ++ ", ".intercalate (g.data.map Constant.text) ++ "]"

namespace Module

/-- The lines of a module: its name, structs, globals, functions and exports. -/
def lines (m : Module) : List String :=
  ["; module '" ++ m.name ++ "'"]
    ++ m.structs.toList.map StructDef.text
    ++ m.globals.toList.map Global.text
    ++ m.functions.toList.flatMap (fun f => "" :: f.lines m)
    ++ (if m.exports.isEmpty then [] else [""])
    ++ m.exports.toList.map fun (name, id) => "; export " ++ name ++ " = @" ++ m.functionName id

/-- The printed module, a line feed after each line. -/
def text (m : Module) : String := String.join (m.lines.map (· ++ "\n"))

end Module

end TypedLowering.Ssa
