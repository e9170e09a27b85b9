import SC32.Machine.Step

/-!
# What one step does

The three ways a step can go, each under the condition that selects it, and the accesses of `lw`
and `sw` under the condition that they stay in memory, with what registers and cells hold then.
Conversely, the event of a step tells which instruction was carried out.
-/
namespace SC32.Machine

/-- Between the first machine and the second, the word of cell `a` has gone into register `y`, and
nothing else into a register or a cell. -/
structure AfterLoad (m n : Machine) (y : Reg) (a : Nat) : Prop where
  loaded : m.cell? a = some (n.register y)
  registers : ∀ r ≠ y, n.register r = m.register r
  cells : ∀ b, n.cell? b = m.cell? b

/-- Between the first machine and the second, the word of register `y` has gone into cell `a`, and
nothing else into a register or a cell. -/
structure AfterStore (m n : Machine) (y : Reg) (a : Nat) : Prop where
  stored : n.cell? a = some (m.register y)
  registers : ∀ r, n.register r = m.register r
  cells : ∀ b ≠ a, n.cell? b = m.cell? b

theorem address?_of_mem {m : Machine} {n : Int} (h : 0 ≤ n ∧ n < m.memory.size) :
    m.address? n = some ⟨n.toNat, (Int.toNat_lt h.1).mpr h.2⟩ := dif_pos h

theorem address?_of_not_mem {m : Machine} {n : Int} (h : ¬ (0 ≤ n ∧ n < m.memory.size)) :
    m.address? n = none := dif_neg h

theorem step_of_not_mem {m : Machine} (h : ¬ (0 ≤ m.pc.toInt ∧ m.pc.toInt < m.memory.size)) :
    m.step = (.pcOutOfBounds m.pc, { m with exit := some (.pcOutOfBounds m.pc) }) := by
  unfold step
  rw [Word.signed_eq, address?_of_not_mem h]

theorem step_of_decode {m : Machine} {i : Instruction Offset}
    (h : 0 ≤ m.pc.toInt ∧ m.pc.toInt < m.memory.size)
    (hi : Instruction.decode (m.memory.read m.pc.toInt.toNat) = .ok i) :
    m.step = m.advance.perform m.pc.toInt.toNat i := by
  unfold step
  rw [Word.signed_eq, address?_of_mem h]
  simp only [hi]

theorem step_of_unknown {m : Machine} {e : UnknownOpcode}
    (h : 0 ≤ m.pc.toInt ∧ m.pc.toInt < m.memory.size)
    (he : Instruction.decode (m.memory.read m.pc.toInt.toNat) = .error e) :
    m.step = (.unknownOpcode m.pc.toInt.toNat e.word, m.advance) := by
  unfold step
  rw [Word.signed_eq, address?_of_mem h]
  simp only [he]

theorem write_eq_set (m : Machine) (a : Fin m.memory.size) (v : Word) :
    m.write a v = { m with memory := m.memory.set a v } := by
  rw [write, Memory.set, dif_pos a.isLt]

theorem perform_lw_of_mem {m : Machine} {x y : Reg} {off : Offset} (a : Nat)
    (h : 0 ≤ m.effective x off ∧ m.effective x off < m.memory.size) :
    m.perform a (.lw x y off) =
      (.executed a (.lw x y off), m.setRegister y (m.memory.read (m.effective x off).toNat)) := by
  simp only [perform, address?_of_mem h]

theorem perform_lw_of_not_mem {m : Machine} {x y : Reg} {off : Offset} (a : Nat)
    (h : ¬ (0 ≤ m.effective x off ∧ m.effective x off < m.memory.size)) :
    m.perform a (.lw x y off) = (.outOfBounds a .load (m.effective x off), m) := by
  simp only [perform, address?_of_not_mem h]

theorem perform_sw_of_mem {m : Machine} {x y : Reg} {off : Offset} (a : Nat)
    (h : 0 ≤ m.effective x off ∧ m.effective x off < m.memory.size) :
    m.perform a (.sw x y off) =
      (.executed a (.sw x y off),
        { m with memory := m.memory.set (m.effective x off).toNat (m.register y) }) := by
  simp only [perform, address?_of_mem h, write_eq_set]

theorem perform_sw_of_not_mem {m : Machine} {x y : Reg} {off : Offset} (a : Nat)
    (h : ¬ (0 ≤ m.effective x off ∧ m.effective x off < m.memory.size)) :
    m.perform a (.sw x y off) = (.outOfBounds a .store (m.effective x off), m) := by
  simp only [perform, address?_of_not_mem h]

/-- Whether it stays in memory or not, an access leaves the program counter alone. -/
theorem pc_perform_lw (m : Machine) (a : Nat) (x y : Reg) (off : Offset) :
    (m.perform a (.lw x y off)).2.pc = m.pc := by
  by_cases h : 0 ≤ m.effective x off ∧ m.effective x off < m.memory.size
  · rw [perform_lw_of_mem a h]
    rfl
  · rw [perform_lw_of_not_mem a h]

theorem pc_perform_sw (m : Machine) (a : Nat) (x y : Reg) (off : Offset) :
    (m.perform a (.sw x y off)).2.pc = m.pc := by
  by_cases h : 0 ≤ m.effective x off ∧ m.effective x off < m.memory.size
  · rw [perform_sw_of_mem a h]
  · rw [perform_sw_of_not_mem a h]

theorem register_setRegister (m : Machine) (r : Reg) (v : Word) (s : Reg) :
    (m.setRegister r v).register s = if s = r then v else m.register s := by
  simp only [register, setRegister, Fin.getElem_fin, Vector.getElem_set, Fin.ext_iff, eq_comm]

theorem afterLoad_setRegister {m : Machine} {a : Nat} (h : a < m.capacity) (y : Reg) :
    m.AfterLoad (m.advance.setRegister y (m.memory.read a)) y a := by
  constructor
  case loaded =>
    rw [register_setRegister, if_pos rfl]
    exact if_pos h
  case registers =>
    intro r hr
    rw [register_setRegister, if_neg hr]
    rfl
  case cells => exact fun _ => rfl

theorem afterStore_set {m : Machine} {a : Nat} (h : a < m.capacity) (y : Reg) :
    m.AfterStore { m.advance with memory := m.memory.set a (m.register y) } y a := by
  constructor
  case stored => exact (m.memory.cell?_set a _ a).trans (if_pos ⟨rfl, h⟩)
  case registers => exact fun _ => rfl
  case cells =>
    intro b hb
    exact (m.memory.cell?_set a _ b).trans (if_neg fun hin => hb hin.1)

/-- An instruction is carried out or leaves memory. -/
theorem perform_event (m : Machine) (a : Nat) (i : Instruction Offset) :
    (m.perform a i).1 = .executed a i ∨ ∃ k n, (m.perform a i).1 = .outOfBounds a k n := by
  cases i with
  | lw x y off =>
    by_cases h : 0 ≤ m.effective x off ∧ m.effective x off < m.memory.size
    · exact .inl (congrArg Prod.fst (perform_lw_of_mem a h))
    · exact .inr ⟨_, _, congrArg Prod.fst (perform_lw_of_not_mem a h)⟩
  | sw x y off =>
    by_cases h : 0 ≤ m.effective x off ∧ m.effective x off < m.memory.size
    · exact .inl (congrArg Prod.fst (perform_sw_of_mem a h))
    · exact .inr ⟨_, _, congrArg Prod.fst (perform_sw_of_not_mem a h)⟩
  | beq x y off =>
    dsimp only [perform]
    split
    · exact .inl rfl
    · exact .inl rfl
  | add | nand | jalr | halt | noop => exact .inl rfl

/-- The instruction in the event is the one that was carried out, behind the advance. -/
theorem step_of_executed {m : Machine} {a : Nat} {i : Instruction Offset}
    (h : m.step.1 = .executed a i) : m.step = m.advance.perform a i := by
  by_cases hpc : 0 ≤ m.pc.toInt ∧ m.pc.toInt < m.memory.size
  · cases hd : Instruction.decode (m.memory.read m.pc.toInt.toNat) with
    | error e =>
      rw [step_of_unknown hpc hd] at h
      cases h
    | ok j =>
      rw [step_of_decode hpc hd] at h ⊢
      rcases perform_event m.advance m.pc.toInt.toNat j with hj | ⟨k, n, hj⟩
      · rw [hj] at h
        cases h
        rfl
      · rw [hj] at h
        cases h
  · rw [step_of_not_mem hpc] at h
    cases h

/-- A sum that 32 bits hold is exact. -/
theorem toInt_add_of_fits {v w : Word} {n : Int} (h : v.toInt + w.toInt = n)
    (hlo : -2147483648 ≤ n) (hhi : n ≤ 2147483647) : (v.add w).toInt = n := by
  rw [Word.add_eq, BitVec.toInt_add, h]
  exact Int.bmod_eq_of_le (by omega) (by omega)

end SC32.Machine
