import SC32.Mnemonic
import SC32.Text.Blank

/-!
The grammar of one source line: an optional label, an operation and its operands, separated by
white space. There is no comment syntax; tokens after the operands that an operation needs are
ignored.
-/
namespace SC32.Assembly

/-- The operation that emits a raw word. -/
def fill : String := ".fill"

/-- Mnemonics and `.fill` stand for operations and never name a label. -/
def isOperation (t : String) : Bool := Mnemonic.isName t || t == fill

/-- A line that is not blank. -/
structure Line where
  label : Option String
  operation : Option String
  operands : List String
  deriving DecidableEq, Repr

namespace Line

def ofTokens? : List String → Option Line
  | [] => none
  | head :: rest =>
    if isOperation head then some ⟨none, some head, rest⟩
    else some ⟨some head, rest.head?, rest.tail⟩

/-- The parts of a line, unless it is blank. -/
def parse? (raw : String) : Option Line := ofTokens? (Text.tokens raw)

end Line
end SC32.Assembly
