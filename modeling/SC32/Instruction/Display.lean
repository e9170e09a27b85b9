import SC32.BitString
import SC32.Instruction
import SC32.Text.Align
import SC32.Text.Colour

/-!
Two texts for an instruction: its word field by field, and its source form in colour.
-/
namespace SC32.Instruction

open Text

/-- The fields of the word, separated by spaces. A destination register has a field of its own. -/
def fieldListing (i : Instruction Offset) : String :=
  let w := i.encode
  let head :=
    Field.encode (Field.extract w 22 3) 3 ++ " " ++ Field.encode (Field.extract w 19 3) 3 ++ " " ++
      Field.encode (Field.extract w 16 3) 3
  match i.mnemonic.shape with
  | .registerTriple =>
    head ++ " " ++ Field.encode (Field.extract w 3 13) 13 ++ " " ++
      Field.encode (Field.extract w 0 3) 3
  | _ => head ++ " " ++ Field.encode (Field.extract w 0 16) 16

/-- The mnemonic in red, and after it everything in blue. -/
def opening (i : Instruction Offset) : String :=
  Colour.red.on ++ alignLeft 6 i.mnemonic.name ++ Colour.blue.on

def threeColumns (i : Instruction Offset) (a b d : String) : String :=
  i.opening ++ alignLeft 2 a ++ " " ++ alignLeft 2 b ++ " " ++ alignLeft 6 d ++ plain

def withOffset (i : Instruction Offset) (a b : Reg) (off : Offset) : String :=
  i.opening ++ alignLeft 2 a.render ++ " " ++ alignLeft 2 b.render ++ " " ++ Colour.yellow.on ++
    alignLeft 6 (Decimal.ofInt off.toInt) ++ plain

/-- Source form: mnemonic, registers and offset in columns. -/
def display (i : Instruction Offset) : String :=
  match i with
  | add a b d => i.threeColumns a.render b.render d.render
  | nand a b d => i.threeColumns a.render b.render d.render
  | lw a b off => i.withOffset a b off
  | sw a b off => i.withOffset a b off
  | beq a b off => i.withOffset a b off
  | jalr a b => i.threeColumns a.render b.render ""
  | halt => i.threeColumns "" "" ""
  | noop => i.threeColumns "" "" ""

end SC32.Instruction
