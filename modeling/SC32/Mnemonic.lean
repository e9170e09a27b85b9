/-!
The instruction table: eight mnemonics, the opcode of each, and the operands it takes.
-/
namespace SC32

inductive Mnemonic where
  | add | nand | lw | sw | beq | jalr | halt | noop
  deriving DecidableEq, Repr

/-- What operands an instruction takes, in source order. -/
inductive Shape where
  /-- Two source registers and a destination. -/
  | registerTriple
  /-- Two registers and a signed 16-bit offset. -/
  | registerPairOffset
  | registerPair
  | noOperand
  deriving DecidableEq, Repr

def Shape.arity : Shape → Nat
  | .registerTriple => 3
  | .registerPairOffset => 3
  | .registerPair => 2
  | .noOperand => 0

/-- No mnemonic has that name. -/
structure UnknownMnemonic where
  name : String

def UnknownMnemonic.message (e : UnknownMnemonic) : String :=
  "Unknown mnemonic: `" ++ e.name ++ "`"

namespace Mnemonic

/-- In opcode order. -/
def all : List Mnemonic := [.add, .nand, .lw, .sw, .beq, .jalr, .halt, .noop]

def name : Mnemonic → String
  | .add => "add"
  | .nand => "nand"
  | .lw => "lw"
  | .sw => "sw"
  | .beq => "beq"
  | .jalr => "jalr"
  | .halt => "halt"
  | .noop => "noop"

def opcode : Mnemonic → BitVec 3
  | .add => 0
  | .nand => 1
  | .lw => 2
  | .sw => 3
  | .beq => 4
  | .jalr => 5
  | .halt => 6
  | .noop => 7

def shape : Mnemonic → Shape
  | .add | .nand => .registerTriple
  | .lw | .sw | .beq => .registerPairOffset
  | .jalr => .registerPair
  | .halt | .noop => .noOperand

/-- Names are exact: upper case is not accepted. -/
def ofName (s : String) : Except UnknownMnemonic Mnemonic :=
  match all.find? (·.name = s) with
  | some k => .ok k
  | none => .error ⟨s⟩

def isName (s : String) : Bool := (ofName s).isOk

def ofOpcode? : Int → Option Mnemonic
  | .ofNat n => all[n]?
  | .negSucc _ => none

theorem mem_all (k : Mnemonic) : k ∈ all := by cases k <;> decide

@[simp] theorem ofName_name (k : Mnemonic) : ofName k.name = .ok k := by cases k <;> rfl

@[simp] theorem ofOpcode?_opcode (k : Mnemonic) : ofOpcode? k.opcode.toNat = some k := by
  cases k <;> rfl

end Mnemonic
end SC32
