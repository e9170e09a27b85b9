import Mathlib.Logic.Function.Basic
import SC32.Proofs.Instruction.Codec
import SC32.Proofs.Machine.Step

/-!
# The instruction table on integers

A second account of one step, on tables of what each register and each cell holds. It takes the
fetched word apart by division, computes with unbounded integers and comes back to 32 bits only
where a register or the program counter is written. A store changes the entry of one cell. The
machine's own step agrees with it on the event and on all that there is in the next state.
-/
namespace SC32

namespace Reference

/-- The word that is congruent to `n` modulo 2^32. -/
def wrap (n : Int) : Word := BitVec.ofInt 32 n

/-- The register that three bits name, the highest of them bit `hi`. -/
def register (w : Word) (hi : Nat) : Reg := ⟨w.bits hi (hi - 2) % 8, Nat.mod_lt _ (by decide)⟩

/-- The low half of a word in two's complement. -/
def offset (w : Word) : Int :=
  if w.bits 15 0 < 32768 then w.bits 15 0 else w.bits 15 0 - 65536

/-- All ones less the ones that both words have. -/
def nand (x y : Word) : Word := BitVec.ofNat 32 (4294967295 - (x.toNat &&& y.toNat))

/-- A machine by what its registers and its cells hold. Where there is no cell there is no word. -/
structure State where
  registers : Reg → Word
  cells : Nat → Option Word
  capacity : Nat
  pc : Word
  loaded : Nat
  executed : Nat
  exit : Option Exit

namespace State

/-- The word of a cell. -/
def word (s : State) (a : Nat) : Word := (s.cells a).getD 0

def put (s : State) (r : Reg) (v : Word) : State :=
  { s with registers := Function.update s.registers r v }

def store (s : State) (a : Nat) (v : Word) : State :=
  { s with cells := Function.update s.cells a (some v) }

/-- Past the word at the program counter. -/
def advance (s : State) : State :=
  { s with pc := wrap (s.pc.toInt + 1), executed := s.executed + 1 }

end State

/-- One line of the instruction table for each opcode, for the word `w` fetched from `a`. The
program counter is already past it. -/
def perform (s : State) (a : Nat) (w : Word) : Event × State :=
  let regA := register w 21
  let regB := register w 18
  let dest := register w 2
  let x := s.registers regA
  let y := s.registers regB
  let off := offset w
  let target := x.toInt + off
  match w.toInt / 4194304 with
  | 0 => (.executed a (.add regA regB dest), s.put dest (wrap (x.toInt + y.toInt)))
  | 1 => (.executed a (.nand regA regB dest), s.put dest (nand x y))
  | 2 =>
    if 0 ≤ target ∧ target < s.capacity then
      (.executed a (.lw regA regB (BitVec.ofInt 16 off)), s.put regB (s.word target.toNat))
    else (.outOfBounds a .load target, s)
  | 3 =>
    if 0 ≤ target ∧ target < s.capacity then
      (.executed a (.sw regA regB (BitVec.ofInt 16 off)), s.store target.toNat y)
    else (.outOfBounds a .store target, s)
  | 4 => (.executed a (.beq regA regB (BitVec.ofInt 16 off)),
      if x.toInt = y.toInt then { s with pc := wrap (s.pc.toInt + off) } else s)
  | 5 =>
    let linked := s.put regB s.pc
    (.executed a (.jalr regA regB), { linked with pc := linked.registers regA })
  | 6 => (.executed a .halt, { s with exit := some .halted })
  | 7 => (.executed a .noop, s)
  | _ => (.unknownOpcode a w, s)

/-- Outside memory nothing is fetched and only `exit` changes. -/
def step (s : State) : Event × State :=
  if 0 ≤ s.pc.toInt ∧ s.pc.toInt < s.capacity then
    perform s.advance s.pc.toInt.toNat (s.word s.pc.toInt.toNat)
  else (.pcOutOfBounds s.pc, { s with exit := some (.pcOutOfBounds s.pc) })

/-- All that there is in a machine. -/
def stateOf (m : Machine) : State where
  registers := m.registers.get
  cells a := m.cell? a
  capacity := m.capacity
  pc := m.pc
  loaded := m.loaded
  executed := m.executed
  exit := m.exit

/-! ### Machines by their tables -/

theorem stateOf_injective : Function.Injective stateOf := by
  intro m n h
  simp only [stateOf, State.mk.injEq] at h
  obtain ⟨hregisters, hcells, hcapacity, hpc, hloaded, hexecuted, hexit⟩ := h
  have hvector : m.registers = n.registers :=
    Vector.ext fun i hi => congrFun hregisters ⟨i, hi⟩
  have hmemory : m.memory = n.memory := Memory.ext_cell hcapacity fun a => congrFun hcells a
  cases m
  cases n
  simp_all

theorem word_stateOf {m : Machine} {a : Nat} (h : a < m.capacity) :
    (stateOf m).word a = m.memory.read a := by
  have hcell : (stateOf m).cells a = some (m.memory.read a) := if_pos h
  rw [State.word, hcell, Option.getD_some]

theorem stateOf_setRegister (m : Machine) (r : Reg) (v : Word) :
    stateOf (m.setRegister r v) = (stateOf m).put r v := by
  have hregisters : (stateOf (m.setRegister r v)).registers =
      Function.update (stateOf m).registers r v := by
    funext s
    rw [Function.update_apply]
    exact m.register_setRegister r v s
  rw [State.put, ← hregisters]
  rfl

theorem stateOf_set {m : Machine} {a : Nat} (h : a < m.capacity) (v : Word) :
    stateOf { m with memory := m.memory.set a v } = (stateOf m).store a v := by
  have hcells : (stateOf { m with memory := m.memory.set a v }).cells =
      Function.update (stateOf m).cells a (some v) := by
    funext b
    rw [Function.update_apply]
    refine (m.memory.cell?_set a v b).trans ?_
    by_cases hb : b = a
    · rw [if_pos ⟨hb, hb ▸ h⟩, if_pos hb]
    · rw [if_neg (fun hin => hb hin.1), if_neg hb]
      rfl
  rw [State.store, ← hcells, stateOf]
  simp only [Machine.capacity, Memory.size_set]
  rfl

/-! ### Words and integers -/

theorem wrap_add (x y : Word) : wrap (x.toInt + y.toInt) = x + y := by
  rw [wrap, BitVec.ofInt_add, BitVec.ofInt_toInt, BitVec.ofInt_toInt]

theorem nand_eq (x y : Word) : nand x y = ~~~(x &&& y) := by
  apply BitVec.eq_of_toNat_eq
  have h := (x &&& y).isLt
  rw [BitVec.toNat_and] at h
  simp only [nand, BitVec.toNat_ofNat, BitVec.toNat_not, BitVec.toNat_and]
  omega

theorem register_eq (w : Word) (lo : Nat) :
    register w (lo + 2) = Instruction.registerAt w lo := by
  apply Fin.ext
  have h : lo + 2 + 1 - lo = 3 := by omega
  simp only [register, Instruction.registerAt, Word.bits, Nat.add_sub_cancel, h,
    Nat.shiftRight_eq_div_pow]
  omega

theorem toInt_offsetOf (w : Word) : (Instruction.offsetOf w).toInt = offset w := by
  have h : w.bits 15 0 = (Instruction.offsetOf w).toNat := by
    simp [Word.bits]
  rw [BitVec.toInt_eq_toNat_cond, offset, h]
  split <;> split <;> omega

theorem ofInt_offset (w : Word) : BitVec.ofInt 16 (offset w) = Instruction.offsetOf w := by
  rw [← toInt_offsetOf, BitVec.ofInt_toInt]

theorem wrap_add_offset (x w : Word) :
    wrap (x.toInt + offset w) = x + (Instruction.offsetOf w).signExtend 32 := by
  rw [wrap, BitVec.ofInt_add, BitVec.ofInt_toInt, ← toInt_offsetOf]
  rfl

/-- The exact address of an access is the same sum on both sides. -/
theorem effective_eq (m : Machine) (r : Reg) (w : Word) :
    m.effective r (Instruction.offsetOf w) = (m.register r).toInt + offset w := by
  rw [Machine.effective, Word.signed_eq, Offset.signed_eq, toInt_offsetOf]

/-! ### One step -/

/-- What a step did, and the tables of the machine that it leads to. -/
def told (r : Event × Machine) : Event × State := (r.1, stateOf r.2)

/-- A word with a known opcode: one line of the table after the other. -/
theorem perform_eq (m : Machine) (a : Nat) (w : Word) (k : Mnemonic)
    (hk : opcode w = k.opcode.toNat) :
    told (m.perform a (Instruction.ofFields k w)) = perform (stateOf m) a w := by
  have hA : register w 21 = Instruction.registerAt w 19 := register_eq w 19
  have hB : register w 18 = Instruction.registerAt w 16 := register_eq w 16
  have hD : register w 2 = Instruction.registerAt w 0 := register_eq w 0
  have hop : w.toInt / 4194304 = k.opcode.toNat := hk
  have hregister : ∀ r, (stateOf m).registers r = m.register r := fun _ => rfl
  unfold perform
  simp only [hA, hB, hD, hop, hregister, ofInt_offset, ← effective_eq]
  cases k with
  | add =>
    simp only [wrap_add, ← stateOf_setRegister]
    rfl
  | nand =>
    simp only [nand_eq, ← stateOf_setRegister]
    rfl
  | lw =>
    change told (m.perform a (.lw _ _ _)) = if _ then _ else _
    split
    · next h =>
      have hin := (Int.toNat_lt h.1).mpr h.2
      rw [Machine.perform_lw_of_mem a h, told, stateOf_setRegister, word_stateOf hin]
    · next h => rw [Machine.perform_lw_of_not_mem a h, told]
  | sw =>
    change told (m.perform a (.sw _ _ _)) = if _ then _ else _
    split
    · next h =>
      have hin := (Int.toNat_lt h.1).mpr h.2
      rw [Machine.perform_sw_of_mem a h, told, stateOf_set hin]
    · next h => rw [Machine.perform_sw_of_not_mem a h, told]
  | beq =>
    have hpc : wrap ((stateOf m).pc.toInt + offset w) =
        m.pc + (Instruction.offsetOf w).extend := wrap_add_offset m.pc w
    simp only [hpc, BitVec.toInt_inj]
    change told (if _ then _ else _) = (_, if _ then _ else _)
    split
    · rfl
    · rfl
  | jalr =>
    have hjump : ∀ x y, told (m.perform a (.jalr x y)) = (.executed a (.jalr x y),
        { stateOf (m.setRegister y m.pc) with
          pc := (stateOf (m.setRegister y m.pc)).registers x }) := fun _ _ => rfl
    simp only [stateOf_setRegister] at hjump
    exact hjump _ _
  | halt => rfl
  | noop => rfl

/-- A word that is no instruction falls through all lines of the table. -/
theorem perform_unknown (s : State) (a : Nat) (w : Word)
    (h : ∀ k : Mnemonic, opcode w ≠ k.opcode.toNat) :
    perform s a w = (.unknownOpcode a w, s) := by
  dsimp only [perform]
  split
  · next h₀ => exact absurd h₀ (h .add)
  · next h₁ => exact absurd h₁ (h .nand)
  · next h₂ => exact absurd h₂ (h .lw)
  · next h₃ => exact absurd h₃ (h .sw)
  · next h₄ => exact absurd h₄ (h .beq)
  · next h₅ => exact absurd h₅ (h .jalr)
  · next h₆ => exact absurd h₆ (h .halt)
  · next h₇ => exact absurd h₇ (h .noop)
  · rfl

theorem stateOf_advance (m : Machine) : stateOf m.advance = (stateOf m).advance := by
  have hpc : wrap ((stateOf m).pc.toInt + 1) = m.pc.add 1 := wrap_add m.pc 1
  rw [State.advance, hpc]
  rfl

theorem told_step (m : Machine) : told m.step = step (stateOf m) := by
  unfold step
  split
  · next h =>
    have hin := (Int.toNat_lt h.1).mpr h.2
    rw [word_stateOf hin, ← stateOf_advance]
    change told m.step = perform (stateOf m.advance) m.pc.toInt.toNat
      (m.memory.read m.pc.toInt.toNat)
    cases hd : Instruction.decode (m.memory.read m.pc.toInt.toNat) with
    | ok i =>
      obtain ⟨k, hk, rfl⟩ := (Instruction.decode_eq_ok_iff _ i).mp hd
      rw [Machine.step_of_decode h hd, perform_eq _ _ _ k ((Instruction.opcode_eq_iff _ k).mpr hk)]
    | error e =>
      have hw := Instruction.word_of_decode_error hd
      rw [Machine.step_of_unknown h hd, hw, perform_unknown]
      · rfl
      · intro k hk
        rw [(Instruction.decode_eq_ok_iff _ _).mpr ⟨k, (Instruction.opcode_eq_iff _ k).mp hk, rfl⟩]
          at hd
        cases hd
  · next h =>
    rw [Machine.step_of_not_mem h]
    rfl

/-- For every machine, one step is the reference step: the same event, and the one next machine that
has the registers, the cells and all else as the reference has them. -/
theorem step_eq_reference (m : Machine) :
    m.step.1 = (step (stateOf m)).1 ∧
      ∀ n : Machine, n = m.step.2 ↔ stateOf n = (step (stateOf m)).2 := by
  rw [← told_step]
  refine ⟨rfl, fun n => ?_⟩
  exact stateOf_injective.eq_iff.symm

/-- A store of register 5 into the last cell, and a load from there. -/
def relay : Machine := ((Machine.blank 4).load [0xC50003, 0x820003]).setRegister ⟨5, by decide⟩ 42

/-- The word goes through the cell into another register. -/
theorem step_eq_reference_relay :
    relay.cell? 3 = some 0 ∧
    relay.step.1 = .executed 0 (.sw 0 5 3) ∧ relay.step.2.cell? 3 = some 42 ∧
    relay.step.2.step.1 = .executed 1 (.lw 0 2 3) ∧ relay.step.2.step.2.register 2 = 42 := by
  obtain ⟨hsw, hstored⟩ := step_eq_reference relay
  obtain ⟨hlw, hloaded⟩ := step_eq_reference relay.step.2
  have hcells := congrArg State.cells ((hstored _).mp rfl)
  have hregisters := congrArg State.registers ((hloaded _).mp rfl)
  refine ⟨by decide +kernel, ?_, ?_, ?_, ?_⟩
  · rw [hsw]
    decide +kernel
  · exact (congrFun hcells 3).trans (by decide +kernel)
  · rw [hlw]
    decide +kernel
  · exact (congrFun hregisters 2).trans (by decide +kernel)

end Reference
end SC32
