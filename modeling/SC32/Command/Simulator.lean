import SC32.Command.Arguments
import SC32.Command.Message
import SC32.Machine.Loading
import SC32.Machine.Report
import SC32.Machine.WatchConfig
import SC32.Text.Quoted

/-!
The simulator command: load machine code, run it under the state report and an optional watch list,
and print the final state. It succeeds if the machine halts.
-/
namespace SC32.Command.Simulator

open Text

structure Settings where
  input : Option String
  budget : Option Nat
  capacity : Option Nat
  quiet : Bool
  watch : Option String

def Settings.default : Settings := ⟨none, none, none, false, none⟩

def Settings.inputPath (s : Settings) : String := s.input.getD "main.mc"

/-- An unsigned numeral of 64 bits. -/
def count? (s : String) : Option Nat := (Decimal.unsigned 18446744073709551615 s).toOption

def setInput (path : String) (s : Settings) : Option Settings :=
  if s.input.isNone then some { s with input := some path } else none

def setBudget (v : String) (s : Settings) : Option Settings :=
  if s.budget.isNone then (count? v).map fun n => { s with budget := some n } else none

def setCapacity (v : String) (s : Settings) : Option Settings :=
  if s.capacity.isNone then (count? v).map fun n => { s with capacity := some n } else none

def setQuiet (s : Settings) : Option Settings :=
  if s.quiet then none else some { s with quiet := true }

def setWatch (path : String) (s : Settings) : Option Settings :=
  if s.watch.isNone then some { s with watch := some path } else none

def grammar : Grammar Settings where
  options := [⟨'t', "tmax", .value setBudget⟩, ⟨'m', "mem-size", .value setCapacity⟩,
    ⟨'q', "quiet", .flag setQuiet⟩, ⟨'w', "watch-cfg", .value setWatch⟩, ⟨'h', "help", .help⟩,
    ⟨'V', "version", .version⟩]
  positional := setInput

def usage : String := "Usage: scemu [-t TMAX] [-m MEM_SIZE] [-q] [-w WATCH_CFG] [INPUT_FILE]"

/-- The title over a run. -/
def banner (path : String) : List String :=
  let border := "+" ++ rule 47 '-' ++ "+"
  ["SC32 Simulator", border, "| " ++ alignLeft 45 path ++ " |", border]

/-- The final state, below a rule. -/
def summary (m : Machine) : String :=
  rule 49 '=' ++ "\nfinal state of machine:\ntotal of " ++ Decimal.ofNat m.executed ++
    " instructions executed\n" ++ m.snapshot

/-- The line that shows which watch list is in use. -/
def watchLine (path : String) (l : WatchList) : String :=
  " * Watch[" ++ Decimal.ofNat l.size ++ "] " ++ quoted path

/-- The exit code, and what is left to say when the machine has not stopped by itself. -/
def verdict : Option Exit → Nat × List String
  | some .halted => (0, [])
  | some (.pcOutOfBounds _) => (1, [])
  | none => (1, [warningLine "step limit reached before halt"])

/-- Whether the bytes of a memory have addresses that fit a signed 64-bit number. -/
def addressable (capacity : Nat) : Bool := 4 * capacity < 9223372036854775808

variable {m : Type → Type} [Monad m] [Host m]

/-- The hooks that the settings ask for, or the complaint about a bad watch list. -/
def watchHooks (path? : Option String) : m (Except String (List (Hook String))) := do
  match path? with
  | none => return .ok []
  | some path =>
    match ← Host.read path with
    | .error e =>
      let failure := if e.afterOpening then "Failed to parse config: " else "Failed to open file: "
      return .error (failure ++ path)
    | .ok text =>
      match WatchList.parse? text with
      | some l => return .ok [l.hook [watchLine path l]]
      | none => return .error ("Failed to parse config: " ++ path)

/-- Run a loaded machine. -/
def simulate (s : Settings) (machine : Machine) : m Nat := do
  say "[INIT]"
  match ← watchHooks s.watch with
  | .error complaint => say (errorLine complaint); return 1
  | .ok hooks =>
    let r := machine.run (Report.hook (! s.quiet) :: hooks) s.budget
    print (String.join r.output)
    print (summary r.final)
    let (code, last) := verdict r.final.exit
    sayAll last
    return code

def run (s : Settings) : m Nat := do
  sayAll (banner s.inputPath)
  match ← Host.read s.inputPath with
  | .error _ =>
    say (errorLine ("Failed to open file: " ++ s.inputPath))
    return 1
  | .ok text =>
    let capacity := s.capacity.getD Machine.defaultCapacity
    if addressable capacity then
      let machine := Machine.blank capacity
      sayAll ((machine.loadWarnings text).map fun e => warningLine e.message)
      simulate s (machine.loadText text)
    else return 101

/-- The command with its arguments. -/
def command (args : List String) : m Nat := do
  match grammar.parse .default args with
  | .run s => run s
  | .misuse => return 2
  | .version => say "scemu 0.1.0"; return 0
  | .help => say usage; return 0

end SC32.Command.Simulator
