import SC32.Proofs.Machine.Steps

/-!
# More memory

A machine that has the cells of another one and further cells behind them does what the other one
does, for as long as that one stays inside its own memory; the further cells are neither read nor
written. Main statements: one instruction, one step, and any number of steps.
-/
namespace SC32

namespace Memory

/-- What all cells hold, by address. -/
def cells (m : Memory) : List Word := (List.range m.size).map m.read

@[simp] theorem length_cells (m : Memory) : m.cells.length = m.size := by simp [cells]

theorem getElem?_cells (m : Memory) (a : Nat) : m.cells[a]? = m.cell? a := by
  by_cases h : a < m.size <;> simp [cells, cell?, h]

theorem cells_set (m : Memory) (a : Nat) (v : Word) : (m.set a v).cells = m.cells.set a v := by
  apply List.ext_getElem?
  intro b
  simp only [List.getElem?_set, getElem?_cells, length_cells, cell?, size_set, read_set]
  grind

end Memory

/-- Neither the fetch nor an access went outside memory. -/
def Event.inside : Event → Bool
  | .executed .. | .unknownOpcode .. => true
  | .outOfBounds .. | .pcOutOfBounds _ => false

namespace Machine

/-- The machine `n` is `m` with the cells `extra` behind its memory. -/
structure Extends (extra : List Word) (m n : Machine) : Prop where
  registers : n.registers = m.registers
  memory : n.memory.cells = m.memory.cells ++ extra
  pc : n.pc = m.pc
  loaded : n.loaded = m.loaded
  executed : n.executed = m.executed
  exit : n.exit = m.exit

variable {extra : List Word} {m n : Machine}

namespace Extends

theorem register (h : Extends extra m n) (r : Reg) : n.register r = m.register r := by
  simp [Machine.register, h.registers]

theorem effective (h : Extends extra m n) (x : Reg) (off : Offset) :
    n.effective x off = m.effective x off := by
  simp [Machine.effective, h.register]

theorem size (h : Extends extra m n) : n.memory.size = m.memory.size + extra.length := by
  simpa using congrArg List.length h.memory

theorem read (h : Extends extra m n) {a : Nat} (ha : a < m.memory.size) :
    n.memory.read a = m.memory.read a := by
  have hn : a < n.memory.size := by
    rw [h.size]
    omega
  have hcell : n.memory.cells[a]? = m.memory.cells[a]? := by
    rw [h.memory, List.getElem?_append_left (by simpa using ha)]
  simpa only [Memory.getElem?_cells, Memory.cell?, ha, hn, if_true, Option.some.injEq] using hcell

/-! ### What an instruction changes -/

theorem setRegister (h : Extends extra m n) (r : Reg) (v : Word) :
    Extends extra (m.setRegister r v) (n.setRegister r v) :=
  ⟨by simp [Machine.setRegister, h.registers], h.memory, h.pc, h.loaded, h.executed, h.exit⟩

theorem setPc (h : Extends extra m n) (v : Word) : Extends extra (m.setPc v) (n.setPc v) :=
  ⟨h.registers, h.memory, rfl, h.loaded, h.executed, h.exit⟩

theorem advance (h : Extends extra m n) : Extends extra m.advance n.advance :=
  ⟨h.registers, h.memory, by simp [Machine.advance, h.pc], h.loaded,
    by simp [Machine.advance, h.executed], h.exit⟩

/-- A store into a cell that both memories have leaves the further cells alone. -/
theorem set (h : Extends extra m n) {a : Nat} (ha : a < m.memory.size) (v : Word) :
    Extends extra { m with memory := m.memory.set a v } { n with memory := n.memory.set a v } := by
  refine ⟨h.registers, ?_, h.pc, h.loaded, h.executed, h.exit⟩
  change (n.memory.set a v).cells = (m.memory.set a v).cells ++ extra
  rw [Memory.cells_set, h.memory, List.set_append_left a v (by simpa using ha), Memory.cells_set]

end Extends

/-- An instruction that stays inside the smaller memory is carried out alike. -/
theorem perform_extends (h : Extends extra m n) (a : Nat) (i : Instruction Offset)
    (hin : (m.perform a i).1.inside = true) :
    (n.perform a i).1 = (m.perform a i).1 ∧
      Extends extra (m.perform a i).2 (n.perform a i).2 := by
  have hsize := h.size
  cases i with
  | add x y d | nand x y d =>
    simp only [perform, h.register]
    exact ⟨trivial, h.setRegister d _⟩
  | lw x y off =>
    by_cases hm : 0 ≤ m.effective x off ∧ m.effective x off < m.memory.size
    · have hn : 0 ≤ n.effective x off ∧ n.effective x off < n.memory.size := by
        rw [h.effective]
        omega
      have hread : n.memory.read (m.effective x off).toNat = _ := h.read (by omega)
      rw [perform_lw_of_mem a hm, perform_lw_of_mem a hn, h.effective, hread]
      exact ⟨rfl, h.setRegister y _⟩
    · rw [perform_lw_of_not_mem a hm] at hin
      cases hin
  | sw x y off =>
    by_cases hm : 0 ≤ m.effective x off ∧ m.effective x off < m.memory.size
    · have hn : 0 ≤ n.effective x off ∧ n.effective x off < n.memory.size := by
        rw [h.effective]
        omega
      rw [perform_sw_of_mem a hm, perform_sw_of_mem a hn, h.effective, h.register]
      exact ⟨rfl, h.set (by omega) _⟩
    · rw [perform_sw_of_not_mem a hm] at hin
      cases hin
  | beq x y off =>
    simp only [perform, h.register, h.pc]
    by_cases hxy : m.register x = m.register y
    · simp only [if_pos hxy]
      exact ⟨trivial, h.setPc _⟩
    · simp only [if_neg hxy]
      exact ⟨trivial, h⟩
  | jalr x y =>
    have hlinked := h.setRegister y m.pc
    simp only [perform, h.pc, hlinked.register]
    exact ⟨trivial, hlinked.setPc _⟩
  | halt => exact ⟨rfl, h.registers, h.memory, h.pc, h.loaded, h.executed, rfl⟩
  | noop => exact ⟨rfl, h⟩

/-- The word is fetched from a cell that both memories have, so it is the same word. -/
theorem step_extends (h : Extends extra m n) (hin : m.step.1.inside = true) :
    n.step.1 = m.step.1 ∧ Extends extra m.step.2 n.step.2 := by
  by_cases hm : 0 ≤ m.pc.toInt ∧ m.pc.toInt < m.memory.size
  · have hsize := h.size
    have hn : 0 ≤ n.pc.toInt ∧ n.pc.toInt < n.memory.size := by
      rw [h.pc]
      omega
    have hread : n.memory.read n.pc.toInt.toNat = m.memory.read m.pc.toInt.toNat := by
      rw [h.pc]
      exact h.read (by omega)
    cases hd : Instruction.decode (m.memory.read m.pc.toInt.toNat) with
    | error e =>
      rw [step_of_unknown hm hd, step_of_unknown hn (hread ▸ hd), h.pc]
      exact ⟨rfl, h.advance⟩
    | ok i =>
      rw [step_of_decode hm hd] at hin ⊢
      rw [step_of_decode hn (hread ▸ hd), h.pc]
      exact perform_extends h.advance _ i hin
  · rw [step_of_not_mem hm] at hin
    cases hin

/-- A machine with more memory goes through the same steps, for as long as the one with less stays
inside its memory, and its further cells keep what they hold. -/
theorem more_memory_exact (extra : List Word) (m n : Machine) (h : Extends extra m n) (k : Nat)
    (hin : ∀ e ∈ m.events k, e.inside = true) :
    n.events k = m.events k ∧ ∀ j ≤ k, Extends extra (m.steps j) (n.steps j) := by
  induction k with
  | zero =>
    refine ⟨rfl, ?_⟩
    intro j hj
    obtain rfl : j = 0 := by omega
    exact h
  | succ k ih =>
    rw [events_succ] at hin
    obtain ⟨hevents, hsteps⟩ := ih fun e he => hin e (List.mem_append_left _ he)
    have hlast := hin (m.eventAt k) (List.mem_append_right _ List.mem_cons_self)
    obtain ⟨hevent, hnext⟩ := step_extends (hsteps k (Nat.le_refl k)) hlast
    constructor
    · rw [events_succ, events_succ, hevents, eventAt, hevent, eventAt]
    · intro j hj
      by_cases hjk : j ≤ k
      · exact hsteps j hjk
      · obtain rfl : j = k + 1 := by omega
        exact hnext

/-- A program that copies its first word over the third one and runs into the copy. -/
def copier : Machine := (blank 4).load [0x810000, 0xC10002, 0, 0x1800000]

/-- The same program with two cells behind it. -/
def roomyCopier : Machine :=
  { copier with memory := (Memory.blank 6).load [0x810000, 0xC10002, 0, 0x1800000, 7, 0xFFFFFFFF] }

theorem more_memory_exact_copier :
    Extends [7, 0xFFFFFFFF] copier roomyCopier ∧
    (∀ e ∈ copier.events 4, e.inside = true) ∧
    roomyCopier.events 4 = copier.events 4 ∧
    copier.eventAt 2 = .executed 2 (.lw 0 1 0) ∧
    Extends [7, 0xFFFFFFFF] (copier.steps 4) (roomyCopier.steps 4) := by
  have h : Extends [7, 0xFFFFFFFF] copier roomyCopier :=
    ⟨rfl, by decide +kernel, rfl, rfl, rfl, rfl⟩
  have hin : ∀ e ∈ copier.events 4, e.inside = true := by decide +kernel
  obtain ⟨hevents, hsteps⟩ := more_memory_exact _ copier roomyCopier h 4 hin
  exact ⟨h, hin, hevents, by decide +kernel, hsteps 4 (Nat.le_refl 4)⟩

end Machine
end SC32
