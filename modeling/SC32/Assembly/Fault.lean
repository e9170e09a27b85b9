import SC32.Text.Decimal

/-!
What can be wrong with a source text. Lines are counted from 0.
-/
namespace SC32.Assembly

inductive Fault where
  /-- A label is defined a second time; `first` is the line that defines it. -/
  | duplicateLabel (label : String) (first : Nat)
  | invalidOpcode (operation : String)
  | missingOperation (label : String)
  | missingArgument (operation : String)
  | invalidRegister (operand : String)
  /-- The operand names no label and is no literal. -/
  | undefinedOperand (operand : String)
  | offsetOutOfRange (offset : Int)
  deriving DecidableEq, Repr

def Fault.message : Fault → String
  | .duplicateLabel l _ => "Duplicate label: `" ++ l ++ "`"
  | .invalidOpcode op => "Invalid opcode: `" ++ op ++ "`"
  | .missingOperation l => "Label `" ++ l ++ "` is not followed by an operation"
  | .missingArgument op => "More argument required for `" ++ op ++ "`"
  | .invalidRegister t => "Cannot parse `" ++ t ++ "` as register (0-7)"
  | .undefinedOperand t => "Undefined label or invalid literal: `" ++ t ++ "`"
  | .offsetOutOfRange n => "Offset out of range (-32768 to 32767): " ++ Text.Decimal.ofInt n

/-- A fault and the line that has it. -/
structure LineFault where
  line : Nat
  fault : Fault
  deriving DecidableEq, Repr

end SC32.Assembly
