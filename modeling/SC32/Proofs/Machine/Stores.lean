import SC32.Proofs.Instruction.Codec
import SC32.Proofs.Machine.Steps

/-!
# What steps leave in memory

Only a store that is carried out writes to memory, and only to the cell it goes to. Main statements:
the other cells after one step, the cells that none of several steps has stored into, and the word
that a step could not read.
-/
namespace SC32.Machine

/-- Where the next step stores a word, if it does. An access outside memory stores nothing. -/
def store? (m : Machine) : Option Int :=
  match m.step.1 with
  | .executed _ (.sw x _ off) => some (m.effective x off)
  | _ => none

/-- One of the next `n` steps stores a word into cell `a`. -/
def Stored (m : Machine) (n a : Nat) : Prop := ∃ k < n, (m.steps k).store? = some (a : Int)

instance (m : Machine) (n a : Nat) : Decidable (Stored m n a) :=
  inferInstanceAs (Decidable (∃ k < n, (m.steps k).store? = some (a : Int)))

theorem lt_capacity_of_cell? {m : Machine} {a : Nat} {w : Word} (h : m.cell? a = some w) :
    a < m.capacity := by
  by_cases ha : a < m.memory.size
  · exact ha
  · rw [cell?, Memory.cell?, if_neg ha] at h
    cases h

/-- An instruction that is carried out leaves all cells alone but the one it stores into. -/
theorem cell?_perform (m : Machine) (b : Nat) (i : Instruction Offset) (a : Nat)
    (h : ∀ x y off, (m.perform b i).1 = .executed b (.sw x y off) → m.effective x off ≠ a) :
    (m.perform b i).2.cell? a = m.cell? a := by
  cases i with
  | lw x y off =>
    by_cases hin : 0 ≤ m.effective x off ∧ m.effective x off < m.memory.size
    · rw [perform_lw_of_mem b hin]
      rfl
    · rw [perform_lw_of_not_mem b hin]
  | sw x y off =>
    by_cases hin : 0 ≤ m.effective x off ∧ m.effective x off < m.memory.size
    · rw [perform_sw_of_mem b hin] at h ⊢
      have hne := h x y off rfl
      have hother : ¬ (a = (m.effective x off).toNat ∧ a < m.memory.size) := by omega
      exact (Memory.cell?_set m.memory _ _ a).trans (if_neg hother)
    · rw [perform_sw_of_not_mem b hin]
  | beq x y off =>
    dsimp only [perform]
    split <;> rfl
  | add | nand | jalr | halt | noop => rfl

theorem cell?_step (m : Machine) (a : Nat) (h : m.store? ≠ some (a : Int)) :
    m.step.2.cell? a = m.cell? a := by
  have hstore : ∀ b x y off, m.step.1 = .executed b (.sw x y off) → m.effective x off ≠ a := by
    intro b x y off hevent heff
    apply h
    rw [store?, hevent, ← heff]
  revert hstore
  refine m.step_cases (p := fun r => (∀ b x y off, r.1 = .executed b (.sw x y off) →
    m.effective x off ≠ a) → r.2.cell? a = m.cell? a) ?_ ?_ ?_
  · exact fun _ _ => rfl
  · exact fun _ _ _ => rfl
  · intro _ i hstore
    exact cell?_perform m.advance _ i a fun x y off hevent => hstore _ x y off hevent

/-- Whatever a machine does, what none of its steps has stored into is as it was. -/
theorem cell?_steps {m : Machine} {n a : Nat} (h : ¬ Stored m n a) :
    (m.steps n).cell? a = m.cell? a := by
  induction n with
  | zero => rfl
  | succ n ih =>
    have hlast : (m.steps n).store? ≠ some (a : Int) :=
      fun hs => h ⟨n, Nat.lt_succ_self n, hs⟩
    have hbefore : ¬ Stored m n a := by
      rintro ⟨k, hk, hs⟩
      exact h ⟨k, Nat.lt_succ_of_lt hk, hs⟩
    rw [steps_succ, cell?_step _ a hlast, ih hbefore]

/-- A word that is reported as unknown stands in the cell and is no instruction. -/
theorem cell?_of_unknown {m : Machine} {a : Nat} {w : Word} (h : m.step.1 = .unknownOpcode a w) :
    m.cell? a = some w ∧ ∀ i, Instruction.decode w ≠ .ok i := by
  by_cases hpc : 0 ≤ m.pc.toInt ∧ m.pc.toInt < m.memory.size
  · cases hd : Instruction.decode (m.memory.read m.pc.toInt.toNat) with
    | ok i =>
      rw [step_of_decode hpc hd] at h
      rcases perform_event m.advance m.pc.toInt.toNat i with hi | ⟨k, n, hi⟩
      · rw [hi] at h
        cases h
      · rw [hi] at h
        cases h
    | error e =>
      have he := Instruction.word_of_decode_error hd
      rw [step_of_unknown hpc hd] at h
      obtain ⟨rfl, rfl⟩ := Event.unknownOpcode.inj h
      refine ⟨?_, ?_⟩
      · have hlt : m.pc.toInt.toNat < m.memory.size := by omega
        rw [cell?, Memory.cell?, if_pos hlt, he]
      · intro i hi
        rw [he, hd] at hi
        cases hi
  · rw [step_of_not_mem hpc] at h
    cases h

end SC32.Machine
