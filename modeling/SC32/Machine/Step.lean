import SC32.Machine.Basic

/-!
One step: fetch the word that the program counter addresses, advance the program counter, and carry
the instruction out. Faults other than leaving memory are reported and otherwise do nothing.
-/
namespace SC32

/-- Which way a word was to go between memory and a register. -/
inductive Access where
  | load | store
  deriving DecidableEq, Repr

def Access.mnemonic : Access → Mnemonic
  | .load => .lw
  | .store => .sw

/-- What a step did. -/
inductive Event where
  /-- The instruction at `address` was carried out. -/
  | executed (address : Nat) (i : Instruction Offset)
  /-- The access at `address` went to `target`, outside memory. -/
  | outOfBounds (address : Nat) (access : Access) (target : Int)
  /-- The word at `address` is no instruction. -/
  | unknownOpcode (address : Nat) (word : Word)
  /-- There was nothing to fetch. -/
  | pcOutOfBounds (pc : Word)
  deriving DecidableEq, Repr

namespace Machine

/-- The exact sum of a base register and an offset. -/
def effective (m : Machine) (base : Reg) (off : Offset) : Int :=
  (m.register base).signed + off.signed

/-- Carry out the instruction `i` fetched from `a`. The program counter is already past it. -/
def perform (m : Machine) (a : Nat) (i : Instruction Offset) : Event × Machine :=
  match i with
  | .add x y d => (.executed a i, m.setRegister d ((m.register x).add (m.register y)))
  | .nand x y d => (.executed a i, m.setRegister d ((m.register x).nand (m.register y)))
  | .lw x y off =>
    match m.address? (m.effective x off) with
    | some c => (.executed a i, m.setRegister y (m.memory.read c))
    | none => (.outOfBounds a .load (m.effective x off), m)
  | .sw x y off =>
    match m.address? (m.effective x off) with
    | some c => (.executed a i, m.write c (m.register y))
    | none => (.outOfBounds a .store (m.effective x off), m)
  | .beq x y off =>
    if m.register x = m.register y then
      (.executed a i, m.setPc (m.pc.add off.extend))
    else (.executed a i, m)
  | .jalr x y =>
    let linked := m.setRegister y m.pc
    (.executed a i, linked.setPc (linked.register x))
  | .halt => (.executed a i, { m with exit := some .halted })
  | .noop => (.executed a i, m)

/-- Past the word at the program counter. -/
def advance (m : Machine) : Machine :=
  { m with pc := m.pc.add 1, executed := m.executed + 1 }

def step (m : Machine) : Event × Machine :=
  match m.address? m.pc.signed with
  | none => (.pcOutOfBounds m.pc, { m with exit := some (.pcOutOfBounds m.pc) })
  | some a =>
    match Instruction.decode (m.memory.read a) with
    | .ok i => m.advance.perform a i
    | .error e => (.unknownOpcode a e.word, m.advance)

end Machine
end SC32
