import SC32.Machine.Run
import SC32.Text.Align
import Std.Data.ExtTreeMap

/-!
Watch lists: registers and memory words to show whenever the instruction at a watched address has
been carried out.
-/
namespace SC32

/-- What to show at one address. -/
structure Watch where
  registers : List Reg
  cells : List Nat
  deriving DecidableEq, Repr

/-- Watches by address. -/
structure WatchList where
  entries : Std.ExtTreeMap Nat Watch
  deriving DecidableEq

namespace WatchList

def empty : WatchList := ⟨∅⟩

def size (l : WatchList) : Nat := l.entries.size

def isEmpty (l : WatchList) : Bool := l.entries.isEmpty

def find? (l : WatchList) (a : Nat) : Option Watch := l.entries[a]?

/-- Watch address `a`; an older watch there is forgotten. -/
def insert (l : WatchList) (a : Nat) (w : Watch) : WatchList := ⟨l.entries.insert a w⟩

end WatchList

namespace Watch

open Text

def registerRow (m : Machine) (r : Reg) : String :=
  "   reg[ " ++ r.render ++ " ] " ++ Decimal.ofInt (m.register r).toInt

def cellRow (m : Machine) (a : Nat) : String :=
  "   mem[ " ++ Decimal.ofNat a ++ " ] " ++
    match m.cell? a with
    | some w => Decimal.ofInt w.toInt
    | none => "-"

/-- A heading, then a row for each register and each cell. -/
def rows (w : Watch) (a : Nat) (m : Machine) : List String :=
  (" * watch @ " ++ zeroFill 4 (Decimal.ofNat a) ++ " pc=" ++ Decimal.ofInt m.pc.toInt) ::
    (w.registers.map (registerRow m) ++ w.cells.map (cellRow m))

end Watch

namespace WatchList

def rows? (l : WatchList) (a : Nat) (m : Machine) : Option (List String) :=
  (l.find? a).map fun w => w.rows a m

/-- Rows after a step; there are none unless an instruction was carried out. -/
def each? (l : WatchList) (e : Event) (m : Machine) : Option (List String) :=
  match e with
  | .executed a _ => l.rows? a m
  | _ => none

/-- Shows the rows, each on a line of its own, after the lines of `opening`. -/
def hook (l : WatchList) (opening : List String) : Hook String :=
  .observe (fun _ => opening.map (· ++ "\n"))
    fun _ e m => ((l.each? e m).getD []).map (· ++ "\n")

end WatchList
end SC32
