import SC32.Machine.Run
import SC32.Text.Align
import SC32.Text.Colour

/-!
The state report: a snapshot of the machine, and a message for every event out of the ordinary.
-/
namespace SC32

open Text

namespace Machine

def indexed (name : String) (n : Nat) (w : Word) : String :=
  "\t" ++ name ++ "[ " ++ alignRight 2 (Decimal.ofNat n) ++ " ] " ++ Decimal.ofInt w.toInt ++ "\n"

/-- Program counter, loaded words, registers and the number of loaded words. -/
def snapshot (m : Machine) : String :=
  "@@@\nstate:\n\tpc " ++ Decimal.ofInt m.pc.toInt ++ "\n\tmemory:\n" ++
    String.join ((List.range m.loaded).map fun a => indexed "mem" a (m.memory.read a)) ++
    "\tregisters:\n" ++
    String.join (m.registers.toList.zipIdx.map fun (w, n) => indexed "reg" n w) ++
    "\tnumMemory: " ++ Decimal.ofNat m.loaded ++ "\nend state\n"

end Machine

/-- A message that opens with a warning in yellow. -/
def warning (s : String) : String := bold .yellow "warn" ++ ": " ++ s ++ "\n"

/-- The message for an event, if it is out of the ordinary. -/
def Event.message? (time : Nat) : Event → Option String
  | .executed _ .halt => some (bold .green "machine halted" ++ "\n")
  | .executed _ _ => none
  | .outOfBounds a access n =>
    some (warning ("[" ++ zeroFill 4 (Decimal.ofNat time) ++ "] memory access out of bounds for " ++
      access.mnemonic.name ++ " at " ++ zeroFill 4 (Decimal.ofNat a) ++ ": " ++ Decimal.ofInt n))
  | .unknownOpcode a w =>
    some (warning ("[" ++ zeroFill 4 (Decimal.ofNat time) ++ "] unknown instruction at " ++
      zeroFill 4 (Decimal.ofNat a) ++ ": " ++ Decimal.ofInt w.toInt))
  | .pcOutOfBounds pc =>
    some (bold .red "Program counter exceeds memory bounds" ++ " (pc " ++ Decimal.ofInt pc.toInt ++
      "). Exiting simulation.\n")

/-- Whether the event fetched a word. -/
def Event.fetched : Event → Bool
  | .pcOutOfBounds _ => false
  | _ => true

namespace Report

/-- Before the first step. -/
def opening (verbose : Bool) (m : Machine) : List String :=
  if verbose then [m.snapshot] else []

/-- After a step: the message for its event, and the new state if a word was fetched. -/
def each (verbose : Bool) (time : Nat) (e : Event) (m : Machine) : List String :=
  (e.message? time).toList ++ if verbose && e.fetched then [m.snapshot] else []

def hook (verbose : Bool) : Hook String := .observe (opening verbose) (each verbose)

end Report
end SC32
