import SC32.Assembly.Fault
import SC32.Command.Host
import SC32.Text.Align
import SC32.Text.Colour

/-!
The messages of the commands, line by line.
-/
namespace SC32.Command

open Text

def sayAll [Monad m] [Host m] (lines : List String) : m Unit := lines.forM say

def errorLine (s : String) : String := bold .red "error" ++ ": " ++ s

def warningLine (s : String) : String := bold .yellow "warn" ++ ": " ++ s

def causeLine (e : FileFault) : String := "  " ++ coloured .blue "caused by" ++ ": " ++ e.message

/-- A place in a source text: the file, the line number and the line itself. -/
def excerpt (file : String) (source : List String) (line : Nat) : List String :=
  ["     " ++ coloured .blue "-->" ++ " " ++
      underlined (file ++ ":" ++ Decimal.ofNat (line + 1)),
    "      " ++ coloured .blue "|",
    " " ++ coloured .blue (alignRight 4 (Decimal.ofNat (line + 1)) ++ " |") ++ " " ++
      source.getD line "",
    "      " ++ coloured .blue "|"]

/-- Where the first definition of a label stands. -/
def note (file : String) (source : List String) : Assembly.Fault → List String
  | .duplicateLabel _ first =>
    (bold .green "note" ++ ": First defined here") :: excerpt file source first
  | _ => []

def diagnosis (file : String) (source : List String) (e : Assembly.LineFault) : List String :=
  errorLine e.fault.message :: excerpt file source e.line ++ note file source e.fault ++
    [bold .red "Assembly aborted" ++ ": no output written"]

end SC32.Command
