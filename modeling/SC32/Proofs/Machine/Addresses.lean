import SC32.Proofs.Machine.Step

/-!
# Addresses are not taken modulo anything

The address of an access is an exact sum, so what is out of reach is reported and does not come back
into memory. The program counter does wrap. But a sum that 32 bits do not hold is then a negative
program counter, which addresses no cell. Main statements: where a step leads, and both facts
together.
-/
namespace SC32.Machine

/-- The word that the program counter addresses. -/
def current (m : Machine) : Word := m.memory.read m.pc.toInt.toNat

/-- How far an instruction leads from the address behind it. That of a `jalr` is not said. -/
def displacement? (m : Machine) : Instruction Offset → Option Int
  | .beq x y off => some (if m.register x = m.register y then off.toInt else 0)
  | .jalr .. => none
  | .add .. | .nand .. | .lw .. | .sw .. | .halt | .noop => some 0

/-- Where a step leads as integers are added. A word that is no instruction leads to the next
address. -/
def destination? (m : Machine) : Option Int :=
  match Instruction.decode m.current with
  | .ok i => (m.displacement? i).map (m.pc.toInt + 1 + ·)
  | .error _ => some (m.pc.toInt + 1)

/-- The step of the machine goes to the cell at `n`, or else reports `n` and does nothing. -/
structure Targets (m : Machine) (access : Access) (i : Instruction Offset) (n : Int)
    (carried : Nat → Machine) : Prop where
  inside : 0 ≤ n ∧ n < m.capacity → m.step = (.executed m.pc.toInt.toNat i, carried n.toNat)
  outside : ¬ (0 ≤ n ∧ n < m.capacity) →
    m.step = (.outOfBounds m.pc.toInt.toNat access n, m.advance)

variable {m : Machine}

/-! ### Accesses -/

theorem targets_lw (h : 0 ≤ m.pc.toInt ∧ m.pc.toInt < m.capacity) {x y : Reg} {off : Offset}
    (hi : Instruction.decode m.current = .ok (.lw x y off)) :
    m.Targets .load (.lw x y off) ((m.register x).toInt + off.toInt) fun a =>
      m.advance.setRegister y (m.memory.read a) := by
  constructor
  · intro hin
    rw [step_of_decode h hi]
    exact perform_lw_of_mem (m := m.advance) _ hin
  · intro hout
    rw [step_of_decode h hi]
    exact perform_lw_of_not_mem (m := m.advance) _ hout

/-- Inside memory, the word of the exact address goes into the register. -/
theorem afterLoad_step (h : 0 ≤ m.pc.toInt ∧ m.pc.toInt < m.capacity) {x y : Reg} {off : Offset}
    (hi : Instruction.decode m.current = .ok (.lw x y off)) {a : Nat} (ha : a < m.capacity)
    (hsum : (m.register x).toInt + off.toInt = a) : m.AfterLoad m.step.2 y a := by
  rw [(targets_lw h hi).inside (by omega), hsum, Int.toNat_natCast]
  exact afterLoad_setRegister ha y

theorem targets_sw (h : 0 ≤ m.pc.toInt ∧ m.pc.toInt < m.capacity) {x y : Reg} {off : Offset}
    (hi : Instruction.decode m.current = .ok (.sw x y off)) :
    m.Targets .store (.sw x y off) ((m.register x).toInt + off.toInt) fun a =>
      { m.advance with memory := m.memory.set a (m.register y) } := by
  constructor
  · intro hin
    rw [step_of_decode h hi]
    exact perform_sw_of_mem (m := m.advance) _ hin
  · intro hout
    rw [step_of_decode h hi]
    exact perform_sw_of_not_mem (m := m.advance) _ hout

/-- Inside memory, the word of the register goes to the exact address. -/
theorem afterStore_step (h : 0 ≤ m.pc.toInt ∧ m.pc.toInt < m.capacity) {x y : Reg} {off : Offset}
    (hi : Instruction.decode m.current = .ok (.sw x y off)) {a : Nat} (ha : a < m.capacity)
    (hsum : (m.register x).toInt + off.toInt = a) : m.AfterStore m.step.2 y a := by
  rw [(targets_sw h hi).inside (by omega), hsum, Int.toNat_natCast]
  exact afterStore_set ha y

/-! ### The program counter -/

theorem pc_perform {i : Instruction Offset} {d : Int} (a : Nat) (h : m.displacement? i = some d) :
    (m.perform a i).2.pc = m.pc + BitVec.ofInt 32 d := by
  cases i with
  | lw x y off =>
    cases h
    rw [pc_perform_lw]
    exact (BitVec.add_zero m.pc).symm
  | sw x y off =>
    cases h
    rw [pc_perform_sw]
    exact (BitVec.add_zero m.pc).symm
  | beq x y off =>
    cases h
    dsimp only [perform]
    split
    · rfl
    · exact (BitVec.add_zero m.pc).symm
  | jalr => cases h
  | add | nand | halt | noop =>
    cases h
    exact (BitVec.add_zero m.pc).symm

/-- Only where a `jalr` leads is not said. -/
theorem destination?_eq_none_iff :
    m.destination? = none ↔ ∃ x y, Instruction.decode m.current = .ok (.jalr x y) := by
  unfold destination?
  constructor
  · intro hnone
    split at hnone
    · next i hi =>
      cases i with
      | jalr x y => exact ⟨x, y, hi⟩
      | add | nand | lw | sw | beq | halt | noop => cases hnone
    · cases hnone
  · rintro ⟨x, y, hi⟩
    rw [hi]
    rfl

/-- The program counter is the destination as far as 32 bits hold it. -/
theorem pc_step (h : 0 ≤ m.pc.toInt ∧ m.pc.toInt < m.capacity) {n : Int}
    (hn : m.destination? = some n) : m.step.2.pc = BitVec.ofInt 32 n := by
  have hnext : m.advance.pc = BitVec.ofInt 32 (m.pc.toInt + 1) := by
    rw [BitVec.ofInt_add, BitVec.ofInt_toInt]
    rfl
  unfold destination? at hn
  cases hd : Instruction.decode m.current with
  | error e =>
    rw [hd] at hn
    cases hn
    rw [step_of_unknown h hd]
    exact hnext
  | ok i =>
    rw [hd] at hn
    obtain ⟨d, hi, rfl⟩ := Option.map_eq_some_iff.mp hn
    have hperform := pc_perform (m := m.advance) m.pc.toInt.toNat hi
    rw [step_of_decode h hd, hperform, hnext, ← BitVec.ofInt_add]

/-- A step leads no further than an offset from the next address. -/
theorem destination?_bounds {n : Int} (hn : m.destination? = some n) :
    m.pc.toInt - 32767 ≤ n ∧ n ≤ m.pc.toInt + 32768 := by
  unfold destination? at hn
  split at hn
  · next i _ =>
    obtain ⟨d, hi, rfl⟩ := Option.map_eq_some_iff.mp hn
    have hd : -32768 ≤ d ∧ d ≤ 32767 := by
      cases i with
      | beq x y off =>
        have hlo := BitVec.le_toInt off
        have hhi := @BitVec.toInt_lt 16 off
        cases hi
        split <;> omega
      | jalr => cases hi
      | add | nand | lw | sw | halt | noop =>
        cases hi
        decide
    omega
  · cases hn
    omega

/-- What 32 bits hold is where the step leads. -/
theorem toInt_pc_step (h : 0 ≤ m.pc.toInt ∧ m.pc.toInt < m.capacity) {n : Int}
    (hn : m.destination? = some n) (hfits : n ≤ 2147483647) : m.step.2.pc.toInt = n := by
  have hlo := (destination?_bounds hn).1
  rw [pc_step h hn]
  exact BitVec.toInt_ofInt_eq_self (by decide) (by omega) (by omega)

/-- What they do not hold is negative. -/
theorem toInt_pc_step_neg (h : 0 ≤ m.pc.toInt ∧ m.pc.toInt < m.capacity) {n : Int}
    (hn : m.destination? = some n) (hover : 2147483647 < n) : m.step.2.pc.toInt < 0 := by
  have hhi := (destination?_bounds hn).2
  have hpc := @BitVec.toInt_lt 32 m.pc
  rw [pc_step h hn, BitVec.toInt_ofInt, Int.bmod_def]
  omega

/-- From a negative program counter nothing is fetched. -/
theorem step_of_neg (h : m.pc.toInt < 0) :
    m.step = (.pcOutOfBounds m.pc, { m with exit := some (.pcOutOfBounds m.pc) }) :=
  step_of_not_mem fun hin => absurd hin.1 (Int.not_le.mpr h)

/-- A machine whose program counter is inside memory, of whatever capacity. An access goes to the
exact address or reports it; if there is a cell, one word goes from there into the register or back,
and no other is changed. The program counter leads to the exact destination, always where memory
ends 32768 addresses before 2147483648, and elsewhere unless 32 bits do not hold it. In that case,
whatever else is done to the machine, it is negative and ends the run without a fetch. -/
theorem addresses_exact (m : Machine) (h : 0 ≤ m.pc.toInt ∧ m.pc.toInt < m.capacity) :
    (∀ x y off, Instruction.decode m.current = .ok (.lw x y off) →
      (m.Targets .load (.lw x y off) ((m.register x).toInt + off.toInt) fun a =>
        m.advance.setRegister y (m.memory.read a)) ∧
      ∀ a < m.capacity, (m.register x).toInt + off.toInt = a → m.AfterLoad m.step.2 y a) ∧
    (∀ x y off, Instruction.decode m.current = .ok (.sw x y off) →
      (m.Targets .store (.sw x y off) ((m.register x).toInt + off.toInt) fun a =>
        { m.advance with memory := m.memory.set a (m.register y) }) ∧
      ∀ a < m.capacity, (m.register x).toInt + off.toInt = a → m.AfterStore m.step.2 y a) ∧
    ((∃ x y, Instruction.decode m.current = .ok (.jalr x y)) ↔ m.destination? = none) ∧
    ∀ n, m.destination? = some n →
      (m.capacity + 32768 ≤ 2147483648 → m.step.2.pc.toInt = n) ∧
      (n ≤ 2147483647 → m.step.2.pc.toInt = n) ∧
      (2147483647 < n → ∀ k : Machine, k.pc = m.step.2.pc → k.pc.toInt < 0 ∧
        k.step = (.pcOutOfBounds k.pc, { k with exit := some (.pcOutOfBounds k.pc) })) := by
  refine ⟨?_, ?_, ?_, ?_⟩
  · exact fun _ _ _ hi => ⟨targets_lw h hi, fun _ => afterLoad_step h hi⟩
  · exact fun _ _ _ hi => ⟨targets_sw h hi, fun _ => afterStore_step h hi⟩
  · exact destination?_eq_none_iff.symm
  · intro n hn
    have hhi := (destination?_bounds hn).2
    refine ⟨fun hcap => toInt_pc_step h hn ?_, toInt_pc_step h hn, ?_⟩
    · omega
    · intro hover k hk
      have hneg : k.pc.toInt < 0 := by
        rw [hk]
        exact toInt_pc_step_neg h hn hover
      exact ⟨hneg, step_of_neg hneg⟩

/-- A machine of 2147483648 cells, at the last but one, with the largest word in all registers. There
is a branch by 32767 in that cell, and in the first one a load from 32767 behind a register. -/
def summit : Machine where
  registers := Vector.replicate 8 0x7FFFFFFF
  memory := ((Memory.blank 2147483648).set 0 0x8A7FFF).set 2147483646 0x1007FFF
  pc := 0x7FFFFFFE
  loaded := 0
  executed := 0
  exit := none

/-- Both sums are one that 32 bits do not hold. The load reports it, and the branch ends the run. -/
theorem addresses_exact_summit :
    (0 ≤ (summit.setPc 0).pc.toInt ∧ (summit.setPc 0).pc.toInt < (summit.setPc 0).capacity) ∧
    (0 ≤ summit.pc.toInt ∧ summit.pc.toInt < summit.capacity) ∧
    (summit.setPc 0).step = (.outOfBounds 0 .load 2147516414, (summit.setPc 0).advance) ∧
    summit.destination? = some 2147516414 ∧
    summit.step.2.step = (.pcOutOfBounds summit.step.2.pc,
      { summit.step.2 with exit := some (.pcOutOfBounds summit.step.2.pc) }) := by
  have hzero : 0 ≤ (summit.setPc 0).pc.toInt ∧
      (summit.setPc 0).pc.toInt < (summit.setPc 0).capacity := by decide +kernel
  have htop : 0 ≤ summit.pc.toInt ∧ summit.pc.toInt < summit.capacity := by decide +kernel
  have hdest : summit.destination? = some 2147516414 := by decide +kernel
  have hload := ((addresses_exact (summit.setPc 0) hzero).1 1 2 32767 (by rfl)).1
  have hbranch := (addresses_exact summit htop).2.2.2 _ hdest
  exact ⟨hzero, htop, hload.outside (by decide +kernel), hdest,
    (hbranch.2.2 (by decide) summit.step.2 rfl).2⟩

end SC32.Machine
