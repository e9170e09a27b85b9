import SC32.Assembly.Program
import SC32.Instruction.Display

/-!
Listings: each source line beside its word, and the symbol table below. The words need not be those
of the lines; where they run out, the listing of the lines ends.
-/
namespace SC32.Assembly

open Text

/-- A row for one source line. Lines are counted from 1. -/
inductive Row where
  | blank (number : Nat)
  | word (number address : Nat) (content : Line) (word : Word)
  deriving DecidableEq, Repr

/-- Rows for source lines from number `n` and address `a` on. -/
def rows (n a : Nat) : List String → List Word → List Row
  | [], _ => []
  | raw :: rest, words =>
    match Line.parse? raw, words with
    | none, _ => .blank n :: rows (n + 1) a rest words
    | some _, [] => []
    | some l, w :: ws => .word n a l w :: rows (n + 1) (a + 1) rest ws

/-- How a word is shown: as an instruction, unless the line says `.fill` or it is none. -/
def shown? (l : Line) (w : Word) : Option (Instruction Offset) :=
  if l.operation = some fill then none
  else
    match Instruction.decode w with
    | .ok i => some i
    | .error _ => none

/-- The bit column. -/
def bitColumn (l : Line) (w : Word) : String :=
  match shown? l w with
  | some i => i.fieldListing
  | none => Field.encode w 32

/-- The source form of a word, in colour. -/
def bodyColumn (l : Line) (w : Word) : String :=
  match shown? l w with
  | some i => i.display
  | none =>
    Colour.cyan.on ++ alignLeft 6 fill ++ Colour.yellow.on ++ Decimal.ofInt w.toInt ++ plain

/-- The width of the label column includes the colour sequences. -/
def labelColumn (l : Line) : String :=
  alignLeft 8 (match l.label with
    | some name => coloured .green name
    | none => "")

def lineNumber (n : Nat) : String :=
  "| " ++ alignRight 4 (Decimal.ofNat n) ++ ":"

def Row.render : Row → String
  | blank n => rule 16 ' ' ++ lineNumber n
  | word n a l w =>
    "[" ++ zeroFill 4 (Decimal.ofNat a) ++ "] " ++ Field.hexadecimal w ++ " " ++ lineNumber n ++
      " " ++ alignLeft 34 (bitColumn l w) ++ " " ++ labelColumn l ++ " " ++ bodyColumn l w

/-- The top of a listing. Its length counts the bytes of the path. -/
def heading (path : String) : String :=
  rule 16 '-' ++ "+------[" ++ path ++ "]" ++ rule (60 - path.utf8ByteSize) '-'

def separator : String := rule 16 '-' ++ "+" ++ rule 68 '-'

def symbolRow (label : String) (d : Definition) : String :=
  rule 16 ' ' ++ "| " ++ Colour.green.on ++ alignLeft 12 label ++ plain ++ " = " ++
    Decimal.ofNat d.address

/-- The rows of a listing from top to bottom. -/
def listing (path : String) (source : List String) (words : List Word) (t : SymbolTable) :
    List String :=
  heading path :: (rows 1 0 source words).map Row.render ++
    separator :: t.entries.map fun (l, d) => symbolRow l d

end SC32.Assembly
