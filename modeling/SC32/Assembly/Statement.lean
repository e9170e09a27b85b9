import SC32.Assembly.Fault
import SC32.Assembly.Line
import SC32.Instruction

/-!
Statements: lines whose operation and register operands are understood. Offsets and the value of
`.fill` are still tokens, because they may name labels that a later line defines.
-/
namespace SC32.Assembly

/-- A token that stands for a number: a label or a literal. -/
abbrev Operand := String

inductive Statement where
  | code (i : Instruction Operand)
  | fill (value : Operand)
  deriving DecidableEq, Repr

namespace Statement

def register (t : String) : Except Fault Reg :=
  match Reg.parse? t with
  | some r => .ok r
  | none => .error (.invalidRegister t)

/-- The instruction `k` with the operands that it needs. Too few operands are reported before a bad
register, and of bad registers the leftmost. -/
def instruction (k : Mnemonic) (operands : List String) : Except Fault (Instruction Operand) :=
  match k, operands with
  | .add, a :: b :: d :: _ => return .add (← register a) (← register b) (← register d)
  | .nand, a :: b :: d :: _ => return .nand (← register a) (← register b) (← register d)
  | .lw, a :: b :: off :: _ => return .lw (← register a) (← register b) off
  | .sw, a :: b :: off :: _ => return .sw (← register a) (← register b) off
  | .beq, a :: b :: off :: _ => return .beq (← register a) (← register b) off
  | .jalr, a :: b :: _ => return .jalr (← register a) (← register b)
  | .halt, _ => return .halt
  | .noop, _ => return .noop
  | k, _ => .error (.missingArgument k.name)

def ofOperation (op : String) (operands : List String) : Except Fault Statement :=
  if op = Assembly.fill then
    match operands with
    | value :: _ => .ok (fill value)
    | [] => .error (.missingArgument op)
  else
    match Mnemonic.ofName op with
    | .ok k => (instruction k operands).map code
    | .error _ => .error (.invalidOpcode op)

end Statement

def Line.statement (l : Line) : Except Fault Statement :=
  match l.operation with
  | some op => Statement.ofOperation op l.operands
  | none => .error (.missingOperation (l.label.getD ""))

end SC32.Assembly
