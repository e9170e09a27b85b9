import SC32.Text.Blank
import SC32.Text.Decimal
import SC32.Text.Lines
import SC32.Word

/-!
Machine code as text: one decimal word per line. Reading skips blank lines silently, and skips and
reports lines that hold no word.
-/
namespace SC32.MachineCode

open Text

def render (words : List Word) : String :=
  String.join (words.map fun w => Decimal.ofInt w.toInt ++ "\n")

/-- What one line holds: a word, nothing, or a fault. -/
def readLine (line : String) : Except Decimal.Fault (Option Word) :=
  if trim line = "" then .ok none
  else (Decimal.signed32 (trim line)).map fun n => some (BitVec.ofInt 32 n)

/-- A line, counted from 0, that is neither blank nor a word. -/
structure Malformed where
  line : Nat
  text : String
  cause : Decimal.Fault
  deriving DecidableEq, Repr

def Malformed.message (e : Malformed) : String :=
  "Invalid number format at line " ++ Decimal.ofNat (e.line + 1) ++ ": `" ++ e.text ++ "`"

/-- Each line under its number, with what it holds. -/
def readings (text : String) : List (Except Malformed (Option Word)) :=
  (lines text).zipIdx.map fun (l, n) => (readLine l).mapError fun cause => ⟨n, trim l, cause⟩

/-- The words of a text in line order. -/
def words (text : String) : List Word :=
  (readings text).filterMap fun
    | .ok w => w
    | .error _ => none

/-- The malformed lines of a text in line order. -/
def faults (text : String) : List Malformed :=
  (readings text).filterMap fun
    | .ok _ => none
    | .error e => some e

end SC32.MachineCode
