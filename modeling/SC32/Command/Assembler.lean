import SC32.Assembly.Listing
import SC32.Command.Arguments
import SC32.Command.Message
import SC32.MachineCode

/-!
The assembler command: source text in, machine code out. Nothing is written unless the whole source
assembles.
-/
namespace SC32.Command.Assembler

open Text Assembly

structure Settings where
  input : Option String
  output : Option String
  listing : Bool

def Settings.default : Settings := ⟨none, none, false⟩

def Settings.inputPath (s : Settings) : String := s.input.getD "main.as"

def Settings.outputPath (s : Settings) : String := s.output.getD "main.mc"

def setInput (path : String) (s : Settings) : Option Settings :=
  if s.input.isNone then some { s with input := some path } else none

def setOutput (path : String) (s : Settings) : Option Settings :=
  if s.output.isNone then some { s with output := some path } else none

def setListing (s : Settings) : Option Settings :=
  if s.listing then none else some { s with listing := true }

def grammar : Grammar Settings where
  options := [⟨'o', "output", .value setOutput⟩, ⟨'d', "dump", .flag setListing⟩,
    ⟨'h', "help", .help⟩, ⟨'V', "version", .version⟩]
  positional := setInput

def usage : String := "Usage: scasm [-o OUTPUT] [-d] [INPUT]"

variable {m : Type → Type} [Monad m] [Host m]

/-- Write a text to a file, or say what went wrong. -/
def save (path text : String) : m (Except (List String) Unit) := do
  match ← Host.create path with
  | .error e => return .error [errorLine ("Failed to create file: " ++ path), causeLine e]
  | .ok () =>
    match ← Host.write path text with
    | .error e => return .error [errorLine ("Failed to write file: " ++ path), causeLine e]
    | .ok () => return .ok ()

/-- Write the words of a source and list them if asked to. The result is the exit code. -/
def finish (s : Settings) (source : List String) (t : SymbolTable) (words : List Word) : m Nat := do
  say ("  > " ++ s.outputPath)
  match ← save s.outputPath (MachineCode.render words) with
  | .error complaint => sayAll complaint; return 1
  | .ok () =>
    say ("  - wrote #" ++ Decimal.ofNat words.length ++ " words")
    if s.listing then sayAll (Assembly.listing s.inputPath source words t)
    return 0

/-- Both passes over a source. -/
def process (s : Settings) (source : List String) : m Nat := do
  say "2. Collect Labels"
  match collect source with
  | .error e => sayAll (diagnosis s.inputPath source e); return 1
  | .ok t =>
    say ("  - found #" ++ Decimal.ofNat t.size ++ " labels")
    say "3. Resolve Labels & Generate Words"
    match emit t source with
    | .error e => sayAll (diagnosis s.inputPath source e); return 1
    | .ok words => finish s source t words

def run (s : Settings) : m Nat := do
  say "SC32 Assembler"
  say "1. Read File"
  say ("  < " ++ s.inputPath)
  match ← Host.read s.inputPath with
  | .error e =>
    sayAll [errorLine ("Failed to open file: " ++ s.inputPath), causeLine e]
    return 1
  | .ok text => process s (lines text)

/-- The command with its arguments. -/
def command (args : List String) : m Nat := do
  match grammar.parse .default args with
  | .run s => run s
  | .misuse => return 2
  | .version => say "scasm 0.1.0"; return 0
  | .help => say usage; return 0

end SC32.Command.Assembler
