import SC32.Instruction
import SC32.Machine.Memory

/-!
The machine: eight registers, a memory of fixed capacity, a program counter, and a record of what
has been loaded, how much has been executed and how the run ended.
-/
namespace SC32

/-- How a run ended. -/
inductive Exit where
  | halted
  /-- The program counter at a fetch outside memory. -/
  | pcOutOfBounds (pc : Word)
  deriving DecidableEq, Repr

structure Machine where
  registers : Vector Word 8
  memory : Memory
  /-- Read as signed, so it can be negative. -/
  pc : Word
  /-- How many words the last load placed. -/
  loaded : Nat
  /-- How many words have been fetched. -/
  executed : Nat
  exit : Option Exit
  deriving DecidableEq

namespace Machine

/-- All zeros, with room for `capacity` words. -/
def blank (capacity : Nat) : Machine :=
  ⟨Vector.replicate 8 0, Memory.blank capacity, 0, 0, 0, none⟩

/-- The capacity of a machine that is given none. -/
def defaultCapacity : Nat := 100

def capacity (m : Machine) : Nat := m.memory.size

def terminated (m : Machine) : Bool := m.exit.isSome

def register (m : Machine) (r : Reg) : Word := m.registers[r]

def setRegister (m : Machine) (r : Reg) (v : Word) : Machine :=
  { m with registers := m.registers.set r v }

/-- The cell that the integer `n` addresses. -/
def address? (m : Machine) (n : Int) : Option (Fin m.memory.size) :=
  if h : 0 ≤ n ∧ n < m.memory.size then some ⟨n.toNat, by omega⟩ else none

def cell? (m : Machine) (a : Nat) : Option Word := m.memory.cell? a

def write (m : Machine) (a : Fin m.memory.size) (v : Word) : Machine :=
  { m with memory := m.memory.write a v }

/-- Put a word into cell `a`, if there is such a cell. -/
def write? (m : Machine) (a : Nat) (v : Word) : Option Machine :=
  if h : a < m.memory.size then some (m.write ⟨a, h⟩ v) else none

def setPc (m : Machine) (v : Word) : Machine := { m with pc := v }

/-- Place words from address 0 on, as many as there is room for. -/
def load (m : Machine) (words : List Word) : Machine :=
  { m with memory := m.memory.load words, loaded := min words.length m.memory.size }

/-- How many of the words a load has no room for. -/
def excess (m : Machine) (words : List Word) : Nat := words.length - m.memory.size

@[simp] theorem capacity_blank (c : Nat) : (blank c).capacity = c := rfl

@[simp] theorem capacity_setRegister (m : Machine) (r : Reg) (v : Word) :
    (m.setRegister r v).capacity = m.capacity := rfl

@[simp] theorem capacity_write (m : Machine) (a : Fin m.memory.size) (v : Word) :
    (m.write a v).capacity = m.capacity := rfl

@[simp] theorem loaded_load (m : Machine) (words : List Word) :
    (m.load words).loaded = min words.length m.capacity := rfl

@[simp] theorem capacity_load (m : Machine) (words : List Word) :
    (m.load words).capacity = m.capacity := Memory.size_load _ _

end Machine
end SC32
