import SC32.Proofs.Machine.ObservedRun

/-!
# What a machine does is up to its registers, its memory and its program counter

The record of a machine is written and never read by its steps, so machines that differ in their
records only do the same. In particular, steps that lead back to where they started from, and end
nothing on the way, are repeated for as long as there is a budget. Main statements: one instruction,
one step, any number of steps, and the run of a machine that comes back.
-/
namespace SC32

theorem Event.exit?_eq_none_iff (e : Event) :
    e.exit? = none ↔ (∀ a, e ≠ .executed a .halt) ∧ ∀ pc, e ≠ .pcOutOfBounds pc := by
  constructor
  · intro h
    constructor
    · rintro a rfl
      cases h
    · rintro pc rfl
      cases h
  · rintro ⟨hhalt, hleft⟩
    unfold exit?
    split
    · exact absurd rfl (hhalt _)
    · exact absurd rfl (hleft _)
    · rfl

namespace Machine

/-- The machines have the same registers, memory and program counter. -/
structure Agrees (m n : Machine) : Prop where
  registers : n.registers = m.registers
  memory : n.memory = m.memory
  pc : n.pc = m.pc

/-- The machine with an empty record. -/
def bare (m : Machine) : Machine := { m with loaded := 0, executed := 0, exit := none }

theorem bare_eq_iff (m n : Machine) : n.bare = m.bare ↔ m.Agrees n := by
  constructor
  · intro h
    rw [bare, bare, Machine.mk.injEq] at h
    exact ⟨h.1, h.2.1, h.2.2.1⟩
  · rintro ⟨hregisters, hmemory, hpc⟩
    simp only [bare, hregisters, hmemory, hpc]

variable {m n : Machine}

/-! ### One step -/

/-- An instruction looks at nothing in the record. -/
theorem perform_bare (m : Machine) (a : Nat) (i : Instruction Offset) :
    (m.bare.perform a i).1 = (m.perform a i).1 ∧
      (m.bare.perform a i).2.bare = (m.perform a i).2.bare := by
  cases i with
  | lw x y off =>
    by_cases h : 0 ≤ m.effective x off ∧ m.effective x off < m.memory.size
    · rw [perform_lw_of_mem a h, perform_lw_of_mem (m := m.bare) a h]
      exact ⟨rfl, rfl⟩
    · rw [perform_lw_of_not_mem a h, perform_lw_of_not_mem (m := m.bare) a h]
      exact ⟨rfl, rfl⟩
  | sw x y off =>
    by_cases h : 0 ≤ m.effective x off ∧ m.effective x off < m.memory.size
    · rw [perform_sw_of_mem a h, perform_sw_of_mem (m := m.bare) a h]
      exact ⟨rfl, rfl⟩
    · rw [perform_sw_of_not_mem a h, perform_sw_of_not_mem (m := m.bare) a h]
      exact ⟨rfl, rfl⟩
  | beq x y off =>
    by_cases h : m.register x = m.register y
    · have hbare : m.bare.register x = m.bare.register y := h
      simp only [perform, if_pos h, if_pos hbare]
      exact ⟨trivial, rfl⟩
    · have hbare : ¬ m.bare.register x = m.bare.register y := h
      simp only [perform, if_neg h, if_neg hbare]
      exact ⟨trivial, rfl⟩
  | add | nand | jalr | halt | noop => exact ⟨rfl, rfl⟩

/-- Both fetch the same word from the same place, or neither fetches one. -/
theorem step_bare (m : Machine) :
    m.bare.step.1 = m.step.1 ∧ m.bare.step.2.bare = m.step.2.bare := by
  by_cases h : 0 ≤ m.pc.toInt ∧ m.pc.toInt < m.memory.size
  · cases hd : Instruction.decode (m.memory.read m.pc.toInt.toNat) with
    | error e =>
      rw [step_of_unknown h hd, step_of_unknown (m := m.bare) h hd]
      exact ⟨rfl, rfl⟩
    | ok i =>
      rw [step_of_decode h hd, step_of_decode (m := m.bare) h hd]
      have hbare := perform_bare m.advance m.pc.toInt.toNat i
      have hbare' := perform_bare m.bare.advance m.pc.toInt.toNat i
      exact ⟨hbare'.1.symm.trans hbare.1, hbare'.2.symm.trans hbare.2⟩
  · rw [step_of_not_mem h, step_of_not_mem (m := m.bare) h]
    exact ⟨rfl, rfl⟩

theorem Agrees.step (h : m.Agrees n) : n.step.1 = m.step.1 ∧ m.step.2.Agrees n.step.2 := by
  have hbare := (bare_eq_iff m n).mpr h
  obtain ⟨hevent, hnext⟩ := step_bare m
  obtain ⟨hevent', hnext'⟩ := step_bare n
  rw [hbare] at hevent' hnext'
  exact ⟨hevent'.symm.trans hevent, (bare_eq_iff _ _).mp (hnext'.symm.trans hnext)⟩

/-! ### Any number of steps -/

theorem Agrees.steps (h : m.Agrees n) (k : Nat) : (m.steps k).Agrees (n.steps k) := by
  induction k with
  | zero => exact h
  | succ k ih => exact ih.step.2

theorem Agrees.eventAt (h : m.Agrees n) (k : Nat) : n.eventAt k = m.eventAt k :=
  (h.steps k).step.1

theorem Agrees.events (h : m.Agrees n) (k : Nat) : n.events k = m.events k :=
  List.map_congr_left fun j _ => h.eventAt j

/-- Behind the steps that lead back the same events come again, and so on. -/
theorem exit?_of_recurs {k : Nat} (hk : 1 ≤ k) (hopen : ∀ j < k, (m.eventAt j).exit? = none)
    (h : m.Agrees (m.steps k)) (j : Nat) : (m.eventAt j).exit? = none := by
  induction j using Nat.strongRecOn with
  | ind j ih =>
    by_cases hj : j < k
    · exact hopen j hj
    · obtain ⟨i, rfl⟩ : ∃ i, j = k + i := ⟨j - k, by omega⟩
      rw [eventAt_add, h.eventAt]
      exact ih i (by omega)

/-! ### The run -/

theorem stepsWithin_of_open (h : ∀ j, (m.eventAt j).exit? = none) (t : Nat) :
    m.stepsWithin t = t := by
  rcases stepsWithin_eq_or m t with ht | ⟨k, -, hend⟩
  · exact ht
  · rw [h k] at hend
    cases hend

/-- What `t` steps that end nothing leave behind, in the machine `r`. -/
structure Endures (m : Machine) (t : Nat) (r : Machine) : Prop where
  final : r = m.steps t
  running : r.terminated = false
  executed : r.executed = m.executed + t
  executed_lt : r.executed < 2 ^ 64

/-- Machines with the same registers, memory and program counter do the same for any number of steps
and keep having the same ones. A machine that is led back to its own by steps that end nothing makes
as many steps as a run is given, under any hooks that leave it alone. -/
theorem recurrence_exact {ω : Type} (hooks : List (Hook ω)) (h : ∀ g ∈ hooks, g.Observes)
    (m : Machine) :
    (∀ n, m.Agrees n → ∀ k, n.events k = m.events k ∧ (m.steps k).Agrees (n.steps k)) ∧
    (m.terminated = false → ∀ k, 1 ≤ k →
      (∀ e ∈ m.events k, (∀ a, e ≠ .executed a .halt) ∧ ∀ pc, e ≠ .pcOutOfBounds pc) →
      m.Agrees (m.steps k) → ∀ budget : Option Nat, m.executed + budget.getD unlimited < 2 ^ 64 →
      Endures m (budget.getD unlimited) (m.run hooks budget).final ∧
      ∀ i < hooks.length, m.callsOf hooks i budget =
        .start m :: (List.range (budget.getD unlimited)).map fun j =>
          .after j (m.eventAt j) (m.steps (j + 1))) := by
  constructor
  · exact fun n hn k => ⟨hn.events k, hn.steps k⟩
  · intro hm k hk hevents hback budget hcount
    rw [terminated_eq_false_iff] at hm
    have hfirst : ∀ j < k, (m.eventAt j).exit? = none := by
      intro j hj
      have hmem : m.eventAt j ∈ m.events k := List.mem_map_of_mem (List.mem_range.mpr hj)
      exact (Event.exit?_eq_none_iff _).mpr (hevents _ hmem)
    have hopen := exit?_of_recurs hk hfirst hback
    have hsteps : m.duration budget = budget.getD unlimited := stepsWithin_of_open hopen _
    have hexecuted := executed_steps_of_open fun j (_ : j < budget.getD unlimited) => hopen j
    have hexit := exit_steps fun j (_ : j < budget.getD unlimited) => hopen j
    have hfinal : (m.run hooks budget).final = m.steps (budget.getD unlimited) := by
      rw [run_of_observes h hm, hsteps]
    constructor
    · rw [hfinal]
      exact ⟨rfl, (terminated_eq_false_iff _).mpr (hexit.trans hm), hexecuted, by omega⟩
    · intro i hi
      rw [callsOf_of_observes h hm budget i hi, hsteps]

/-- A loop that turns all bits of a register over, and so comes back after two rounds. -/
def blinker : Machine := (blank 4).load [0x490001, 0x100FFFE]

/-- The same loop with another record, in a machine that has terminated. -/
def stoppedBlinker : Machine := { blinker with loaded := 0, executed := 7, exit := some .halted }

theorem recurrence_exact_blinker :
    (∀ g ∈ [Report.hook true], g.Observes) ∧
    blinker.Agrees stoppedBlinker ∧ stoppedBlinker.events 9 = blinker.events 9 ∧
    blinker.terminated = false ∧
    (∀ e ∈ blinker.events 4, (∀ a, e ≠ .executed a .halt) ∧ ∀ pc, e ≠ .pcOutOfBounds pc) ∧
    blinker.Agrees (blinker.steps 4) ∧ blinker.executed + 1000003 < 2 ^ 64 ∧
    (blinker.run [Report.hook true] (some 1000003)).final.executed = 1000003 ∧
    (blinker.run [Report.hook true] (some 1000003)).final.terminated = false := by
  have hobs : ∀ g ∈ [Report.hook true], g.Observes :=
    List.forall_mem_singleton.mpr (Observer.report true).observes
  have hagrees : blinker.Agrees stoppedBlinker := ⟨rfl, rfl, rfl⟩
  have hevents : ∀ e ∈ blinker.events 4,
      (∀ a, e ≠ .executed a .halt) ∧ ∀ pc, e ≠ .pcOutOfBounds pc := by
    have hopen : ∀ e ∈ blinker.events 4, e.exit? = none := by decide +kernel
    exact fun e he => (Event.exit?_eq_none_iff e).mp (hopen e he)
  have hback : blinker.Agrees (blinker.steps 4) :=
    ⟨by decide +kernel, by decide +kernel, by decide +kernel⟩
  have hcount : blinker.executed + 1000003 < 2 ^ 64 := by decide
  obtain ⟨hsame, hloop⟩ := recurrence_exact _ hobs blinker
  obtain ⟨hendures, -⟩ := hloop rfl 4 (by decide) hevents hback (some 1000003) hcount
  have hzero : blinker.executed = 0 := rfl
  refine ⟨hobs, hagrees, (hsame _ hagrees 9).1, rfl, hevents, hback, hcount, ?_, hendures.running⟩
  rw [hendures.executed, hzero, Nat.zero_add]
  rfl

end Machine
end SC32
