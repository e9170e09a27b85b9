import SC32.Machine.Report
import SC32.Proofs.Machine.Step

/-!
# What a step records

What one step does to the record that a machine keeps: its capacity and the number of loaded words
stay, a fetched word is counted, and how the run ended is written down when the event says so.
-/
namespace SC32

/-- How the run ends with the event, if it does. -/
def Event.exit? : Event → Option Exit
  | .executed _ .halt => some .halted
  | .pcOutOfBounds pc => some (.pcOutOfBounds pc)
  | _ => none

/-- Where the word of the event was fetched from. -/
def Event.address? : Event → Option Nat
  | .executed a _ => some a
  | .outOfBounds a _ _ => some a
  | .unknownOpcode a _ => some a
  | .pcOutOfBounds _ => none

namespace Event

theorem exit?_eq_halted_iff (e : Event) : e.exit? = some .halted ↔ ∃ a, e = .executed a .halt := by
  unfold exit?
  split <;> simp_all

theorem exit?_eq_left_iff (e : Event) (pc : Word) :
    e.exit? = some (.pcOutOfBounds pc) ↔ e = .pcOutOfBounds pc := by
  unfold exit?
  split <;> simp_all

/-- Only the event that ends a run outside memory fetches nothing. -/
theorem fetched_eq_false_iff (e : Event) : e.fetched = false ↔ ∃ pc, e = .pcOutOfBounds pc := by
  cases e <;> simp [fetched]

theorem fetched_eq_isSome (e : Event) : e.fetched = e.address?.isSome := by
  cases e <;> rfl

theorem fetched_of_exit?_eq_none {e : Event} (h : e.exit? = none) : e.fetched = true := by
  cases e with
  | pcOutOfBounds pc => cases h
  | executed | outOfBounds | unknownOpcode => rfl

end Event

namespace Machine

/-- The three ways of a step, for a fact about its event and the next machine. -/
theorem step_cases {p : Event × Machine → Prop} (m : Machine)
    (left : ¬ (0 ≤ m.pc.toInt ∧ m.pc.toInt < m.capacity) →
      p (.pcOutOfBounds m.pc, { m with exit := some (.pcOutOfBounds m.pc) }))
    (unknown : 0 ≤ m.pc.toInt ∧ m.pc.toInt < m.capacity → ∀ w,
      p (.unknownOpcode m.pc.toInt.toNat w, m.advance))
    (carried : 0 ≤ m.pc.toInt ∧ m.pc.toInt < m.capacity → ∀ i,
      p (m.advance.perform m.pc.toInt.toNat i)) : p m.step := by
  by_cases h : 0 ≤ m.pc.toInt ∧ m.pc.toInt < m.memory.size
  · cases hd : Instruction.decode (m.memory.read m.pc.toInt.toNat) with
    | ok i =>
      rw [step_of_decode h hd]
      exact carried h i
    | error e =>
      rw [step_of_unknown h hd]
      exact unknown h e.word
  · rw [step_of_not_mem h]
    exact left h

/-- The record of `n` is that of `m` but for an exit that the event `e` brings. -/
structure Keeps (m : Machine) (e : Event) (n : Machine) : Prop where
  capacity : n.capacity = m.capacity
  loaded : n.loaded = m.loaded
  executed : n.executed = m.executed
  exit : n.exit = e.exit?.or m.exit

theorem keeps_perform (m : Machine) (a : Nat) (i : Instruction Offset) :
    m.Keeps (m.perform a i).1 (m.perform a i).2 := by
  cases i with
  | lw x y off =>
    by_cases h : 0 ≤ m.effective x off ∧ m.effective x off < m.memory.size
    · rw [perform_lw_of_mem a h]
      exact ⟨rfl, rfl, rfl, rfl⟩
    · rw [perform_lw_of_not_mem a h]
      exact ⟨rfl, rfl, rfl, rfl⟩
  | sw x y off =>
    by_cases h : 0 ≤ m.effective x off ∧ m.effective x off < m.memory.size
    · rw [perform_sw_of_mem a h]
      exact ⟨Memory.size_set _ _ _, rfl, rfl, rfl⟩
    · rw [perform_sw_of_not_mem a h]
      exact ⟨rfl, rfl, rfl, rfl⟩
  | beq x y off =>
    dsimp only [perform]
    split
    · exact ⟨rfl, rfl, rfl, rfl⟩
    · exact ⟨rfl, rfl, rfl, rfl⟩
  | add | nand | jalr | halt | noop => exact ⟨rfl, rfl, rfl, rfl⟩

/-- An instruction that was carried out was fetched. -/
theorem address?_perform (m : Machine) (a : Nat) (i : Instruction Offset) :
    (m.perform a i).1.address? = some a := by
  rcases perform_event m a i with h | ⟨k, n, h⟩
  · rw [h]
    rfl
  · rw [h]
    rfl

theorem fetched_perform (m : Machine) (a : Nat) (i : Instruction Offset) :
    (m.perform a i).1.fetched = true := by
  rw [Event.fetched_eq_isSome, address?_perform]
  rfl

/-- The record of `n` is that of `m` with the event `e` entered: a fetched word is counted, and the
last event that ends a run decides how it ended. -/
structure Records (m : Machine) (e : Event) (n : Machine) : Prop where
  capacity : n.capacity = m.capacity
  loaded : n.loaded = m.loaded
  executed : n.executed = m.executed + e.fetched.toNat
  exit : n.exit = e.exit?.or m.exit

theorem records_step (m : Machine) : m.Records m.step.1 m.step.2 := by
  refine m.step_cases (p := fun r => m.Records r.1 r.2) ?_ ?_ ?_
  · intro _
    exact ⟨rfl, rfl, rfl, rfl⟩
  · intro _ _
    exact ⟨rfl, rfl, rfl, rfl⟩
  · intro _ i
    have hkeeps := keeps_perform m.advance m.pc.toInt.toNat i
    refine ⟨hkeeps.capacity, hkeeps.loaded, ?_, hkeeps.exit⟩
    rw [hkeeps.executed, fetched_perform]
    rfl

@[simp] theorem capacity_step (m : Machine) : m.step.2.capacity = m.capacity :=
  m.records_step.capacity

/-- What ended a run is never taken back. -/
theorem terminated_step {m : Machine} (h : m.terminated = true) : m.step.2.terminated = true := by
  unfold terminated at h ⊢
  simp [m.records_step.exit, h]

/-- A word is fetched from where the program counter is, which is inside memory. -/
theorem pc_of_address? {m : Machine} {a : Nat} (h : m.step.1.address? = some a) :
    m.pc.toInt = a ∧ a < m.capacity := by
  have key : ∀ b, m.step.1.address? = some b →
      (0 ≤ m.pc.toInt ∧ m.pc.toInt < m.capacity) ∧ b = m.pc.toInt.toNat := by
    refine m.step_cases (p := fun r => ∀ b, r.1.address? = some b → _ ∧ b = _) ?_ ?_ ?_
    · exact fun _ b hb => nomatch hb
    · intro hin _ b hb
      exact ⟨hin, (Option.some.inj hb).symm⟩
    · intro hin i b hb
      rw [address?_perform] at hb
      exact ⟨hin, (Option.some.inj hb).symm⟩
  obtain ⟨hin, ha⟩ := key a h
  omega

/-- A step that fetches nothing leaves the program counter outside memory, where it was. -/
theorem pc_of_left {m : Machine} {p : Word} (h : m.step.1 = .pcOutOfBounds p) :
    m.step.2.pc = p ∧ ¬ (0 ≤ p.toInt ∧ p.toInt < m.capacity) := by
  have key : ∀ q, m.step.1 = .pcOutOfBounds q →
      m.step.2.pc = q ∧ ¬ (0 ≤ q.toInt ∧ q.toInt < m.capacity) := by
    refine m.step_cases (p := fun r => ∀ q, r.1 = .pcOutOfBounds q →
      r.2.pc = q ∧ ¬ (0 ≤ q.toInt ∧ q.toInt < m.capacity)) ?_ ?_ ?_
    · intro hout q hq
      cases hq
      exact ⟨rfl, hout⟩
    · intro _ _ q hq
      cases hq
    · intro _ i q hq
      have ha := address?_perform m.advance m.pc.toInt.toNat i
      rw [hq] at ha
      cases ha
  exact key p h

/-- A halt is left behind like any other word. -/
theorem pc_of_halt {m : Machine} {a : Nat} (h : m.step.1 = .executed a .halt)
    (ha : a < 2147483647) : m.step.2.pc.toInt = a + 1 := by
  have hpc := (pc_of_address? (congrArg Event.address? h)).1
  rw [step_of_executed h]
  exact toInt_add_of_fits (w := 1) (by rw [hpc]; rfl) (by omega) (by omega)

/-- An access that was carried out went to a cell. -/
theorem effective_of_step {m : Machine} {a : Nat} {x y : Reg} {off : Offset}
    (h : m.step.1 = .executed a (.lw x y off) ∨ m.step.1 = .executed a (.sw x y off)) :
    0 ≤ m.effective x off ∧ m.effective x off < m.capacity := by
  by_cases hin : 0 ≤ m.advance.effective x off ∧ m.advance.effective x off < m.memory.size
  · exact hin
  · rcases h with h | h
    · rw [step_of_executed h, perform_lw_of_not_mem a hin] at h
      cases h
    · rw [step_of_executed h, perform_sw_of_not_mem a hin] at h
      cases h

end Machine
end SC32
