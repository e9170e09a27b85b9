import SC32.Assembly.Statement
import SC32.Assembly.SymbolTable

/-!
Operands become numbers. A label takes precedence over a literal of the same spelling. `lw` and
`sw` use a label's address, `beq` its distance from the following address; a literal stands for
itself.
-/
namespace SC32.Assembly

inductive Target where
  | label (address : Nat)
  | literal (value : Int)
  deriving DecidableEq, Repr

def SymbolTable.target (t : SymbolTable) (operand : Operand) : Except Fault Target :=
  match t.address? operand with
  | some a => .ok (.label a)
  | none =>
    match Text.Decimal.signed32 operand with
    | .ok n => .ok (.literal n)
    | .error _ => .error (.undefinedOperand operand)

namespace Target

def absolute : Target → Int
  | label a => a
  | literal n => n

/-- Seen from the statement at `pc`, whose successor is at `pc + 1`. -/
def relative (pc : Nat) : Target → Int
  | label a => a - (pc + 1)
  | literal n => n

end Target

/-- Offsets are exact or refused. -/
def offset (n : Int) : Except Fault Offset :=
  if -32768 ≤ n ∧ n ≤ 32767 then .ok (BitVec.ofInt 16 n) else .error (.offsetOutOfRange n)

/-- The instruction at address `pc`. -/
def resolve (t : SymbolTable) (pc : Nat) :
    Instruction Operand → Except Fault (Instruction Offset)
  | .add a b d => return .add a b d
  | .nand a b d => return .nand a b d
  | .lw a b x => return .lw a b (← offset (← t.target x).absolute)
  | .sw a b x => return .sw a b (← offset (← t.target x).absolute)
  | .beq a b x => return .beq a b (← offset ((← t.target x).relative pc))
  | .jalr a b => return .jalr a b
  | .halt => return .halt
  | .noop => return .noop

/-- The word that a statement at address `pc` emits. A label too far for a word keeps its low 32
bits. -/
def Statement.word (t : SymbolTable) (pc : Nat) : Statement → Except Fault Word
  | code i => (resolve t pc i).map Instruction.encode
  | fill x => (t.target x).map fun v => BitVec.ofInt 32 v.absolute

end SC32.Assembly
