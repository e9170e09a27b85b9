import SC32.MachineCode
import SC32.Machine.Basic

/-!
Loading machine code from text. What is wrong with it is a warning: all words that can be loaded
are.
-/
namespace SC32

inductive LoadWarning where
  | malformed (e : MachineCode.Malformed)
  /-- More words than the memory's capacity. -/
  | overflow (discarded capacity : Nat)
  deriving DecidableEq, Repr

def LoadWarning.message : LoadWarning → String
  | .malformed e => e.message
  | .overflow d c =>
    "Memory overflow: ignored " ++ Text.Decimal.ofNat d ++ " additional words (capacity " ++
      Text.Decimal.ofNat c ++ ")"

namespace Machine

def loadText (m : Machine) (text : String) : Machine :=
  m.load (MachineCode.words text)

/-- Malformed lines in order, then the overflow. -/
def loadWarnings (m : Machine) (text : String) : List LoadWarning :=
  let d := m.excess (MachineCode.words text)
  (MachineCode.faults text).map .malformed ++ if d = 0 then [] else [.overflow d m.capacity]

end Machine
end SC32
