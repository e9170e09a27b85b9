import SC32.Proofs.Machine.ObservedRun

/-!
# Code that only goes forward

A run without `jalr` and without a branch backwards ends by itself. The program counter rises with
every word that is fetched, until it leaves memory at the top, or wraps around and is negative, which
is outside memory too. So the number of cells from the first fetch on bounds the number of steps,
whatever the code writes over itself. Main statements: one step, steps in a row, and the run.
-/
namespace SC32

/-- No instruction was carried out that may lead backwards, whether or not it did. -/
def Event.forward : Event → Bool
  | .executed _ (.beq _ _ off) => 0 ≤ off.toInt
  | .executed _ (.jalr ..) => false
  | _ => true

namespace Machine

variable {m : Machine}

/-! ### One step -/

/-- A sum of two words that are not negative is exact or negative. -/
theorem toInt_add_of_nonneg {v w : Word} (hv : 0 ≤ v.toInt) (hw : 0 ≤ w.toInt) :
    (v + w).toInt = v.toInt + w.toInt ∨ (v + w).toInt < 0 := by
  have hvlt := v.isLt
  have hwlt := w.isLt
  rw [BitVec.toInt_eq_toNat_cond] at hv hw ⊢
  rw [BitVec.toInt_eq_toNat_cond, BitVec.toInt_eq_toNat_cond, BitVec.toNat_add]
  split at hv <;> split at hw <;> split <;> omega

theorem pc_perform_of_forward (a : Nat) (i : Instruction Offset)
    (h : (m.perform a i).1.forward = true) :
    (m.perform a i).2.pc = m.pc ∨
      ∃ off : Offset, 0 ≤ off.toInt ∧ (m.perform a i).2.pc = m.pc + off.signExtend 32 := by
  cases i with
  | lw x y off => exact .inl (pc_perform_lw m a x y off)
  | sw x y off => exact .inl (pc_perform_sw m a x y off)
  | beq x y off =>
    dsimp only [perform] at h ⊢
    split
    · next heq =>
      rw [if_pos heq] at h
      exact .inr ⟨off, of_decide_eq_true h, rfl⟩
    · exact .inl rfl
  | jalr x y => cases h
  | add | nand | halt | noop => exact .inl rfl

/-- A fetched word moves the program counter up by one or more, if it is let through. -/
theorem pc_step_of_forward (hfetched : m.step.1.fetched = true)
    (hforward : m.step.1.forward = true) :
    ∃ d : Word, 0 < d.toInt ∧ m.step.2.pc = m.pc + d := by
  revert hfetched hforward
  refine m.step_cases (p := fun r => r.1.fetched = true → r.1.forward = true →
    ∃ d : Word, 0 < d.toInt ∧ r.2.pc = m.pc + d) ?_ ?_ ?_
  · intro _ hfetched
    cases hfetched
  · intro _ _ _ _
    exact ⟨1, by decide, rfl⟩
  · intro _ i _ hforward
    rcases pc_perform_of_forward _ i hforward with hpc | ⟨off, hoff, hpc⟩
    · exact ⟨1, by decide, hpc⟩
    · have hwide : (off.signExtend 32).toInt = off.toInt :=
        BitVec.toInt_signExtend_of_le (by decide)
      have hlt : off.toInt < 32768 := BitVec.toInt_lt
      have hd : ((1 : Word).add (off.signExtend 32)).toInt = 1 + off.toInt :=
        toInt_add_of_fits (by rw [hwide]; rfl) (by omega) (by omega)
      refine ⟨1 + off.signExtend 32, ?_, ?_⟩
      · rw [← Word.add_eq, hd]
        omega
      · rw [hpc, advance, Word.add_eq, BitVec.add_assoc]

theorem pc_nonneg_of_fetched (h : m.step.1.fetched = true) : 0 ≤ m.pc.toInt := by
  rw [Event.fetched_eq_isSome, Option.isSome_iff_exists] at h
  obtain ⟨a, ha⟩ := h
  have hpc := (pc_of_address? ha).1
  omega

/-! ### Steps in a row -/

/-- As long as words are fetched and lead forward, each step is one address or more. -/
theorem pc_steps_of_forward {n : Nat}
    (h : ∀ k < n, (m.eventAt k).fetched = true ∧ (m.eventAt k).forward = true)
    (hn : 0 ≤ (m.steps n).pc.toInt) : m.pc.toInt + n ≤ (m.steps n).pc.toInt := by
  induction n with
  | zero => simp
  | succ n ih =>
    obtain ⟨hfetched, hforward⟩ := h n (Nat.lt_succ_self n)
    have hpc := pc_nonneg_of_fetched hfetched
    have hbefore := ih (fun k hk => h k (Nat.lt_succ_of_lt hk)) hpc
    obtain ⟨d, hd, hnext⟩ := pc_step_of_forward hfetched hforward
    rw [steps_succ, hnext] at hn ⊢
    rcases toInt_add_of_nonneg hpc (Int.le_of_lt hd) with hsum | hneg
    · omega
    · omega

/-- Above the last cell there is nothing to fetch. -/
theorem exit?_of_forward {n : Nat}
    (h : ∀ k < n, (m.eventAt k).fetched = true ∧ (m.eventAt k).forward = true)
    (hn : m.capacity ≤ m.pc.toInt + n) : (m.eventAt n).exit?.isSome = true := by
  have hout : ¬ (0 ≤ (m.steps n).pc.toInt ∧ (m.steps n).pc.toInt < (m.steps n).memory.size) := by
    rintro ⟨hlo, hhi⟩
    have hrise := pc_steps_of_forward h hlo
    have hcap : (m.steps n).memory.size = m.capacity := capacity_steps m n
    omega
  rw [eventAt, step_of_not_mem hout]
  rfl

theorem lt_of_address? {j k : Nat} (hjk : j < k) {a b : Nat}
    (h : ∀ i < k, (m.eventAt i).fetched = true ∧ (m.eventAt i).forward = true)
    (ha : (m.eventAt j).address? = some a) (hb : (m.eventAt k).address? = some b) : a < b := by
  obtain ⟨d, rfl⟩ : ∃ d, k = j + d := ⟨k - j, by omega⟩
  have hpca := (pc_of_address? ha).1
  have hpcb := (pc_of_address? hb).1
  rw [steps_add] at hpcb
  have hrise : (m.steps j).pc.toInt + d ≤ ((m.steps j).steps d).pc.toInt := by
    refine pc_steps_of_forward ?_ (by omega)
    intro i hi
    rw [← eventAt_add]
    exact h (j + i) (by omega)
  omega

/-! ### The run -/

/-- What is known of a run up to its last step: it fetches, and is let through. -/
theorem forward_of_lt_stepsWithin {t k : Nat}
    (h : ∀ e ∈ m.events (m.stepsWithin t), e.forward = true) (hk : k + 1 < m.stepsWithin t) :
    (m.eventAt k).fetched = true ∧ (m.eventAt k).forward = true := by
  refine ⟨Event.fetched_of_exit?_eq_none (exit?_eventAt hk), h _ ?_⟩
  rw [events, List.mem_map]
  exact ⟨k, List.mem_range.mpr (by omega), rfl⟩

/-- An event that ends a run is the last one. -/
theorem stepsWithin_le_of_exit? {t k : Nat} (h : (m.eventAt k).exit?.isSome = true) :
    m.stepsWithin t ≤ k + 1 := by
  refine Nat.le_of_not_lt fun hlong => ?_
  rw [exit?_eventAt hlong] at h
  cases h

/-- Within the cells that are left there is an event that ends the run. -/
theorem exists_exit?_of_forward {t : Nat}
    (h : ∀ e ∈ m.events (m.stepsWithin t), e.forward = true) {n : Nat}
    (hn : m.capacity ≤ m.pc.toInt + n) (ht : n < t) :
    ∃ k ≤ n, (m.eventAt k).exit?.isSome = true := by
  by_cases hlong : n < m.stepsWithin t
  · refine ⟨n, Nat.le_refl n, exit?_of_forward ?_ hn⟩
    exact fun k hk => forward_of_lt_stepsWithin h (by omega)
  · rcases stepsWithin_eq_or m t with hsteps | ⟨k, hsteps, hend⟩
    · omega
    · exact ⟨k, by omega, hend⟩

theorem terminated_of_exit? (hm : m.exit = none) {t k : Nat}
    (h : (m.eventAt k).exit?.isSome = true) (hk : k < t) :
    (m.steps (m.stepsWithin t)).terminated = true := by
  rw [← Bool.not_eq_false, terminated_eq_false_iff]
  intro hexit
  obtain ⟨hn, hopen⟩ := (ends_stepsWithin hm t).running.mp hexit
  rw [hopen k (by omega)] at h
  cases h

/-- Each step of a run fetches from above all steps before it. -/
theorem pairwise_addresses_of_forward {t : Nat}
    (h : ∀ e ∈ m.events (m.stepsWithin t), e.forward = true) :
    ((m.events (m.stepsWithin t)).filterMap Event.address?).Pairwise (· < ·) := by
  rw [List.pairwise_filterMap, events, List.pairwise_map]
  refine List.pairwise_lt_range.imp_of_mem ?_
  intro j k _ hk hjk a ha b hb
  have hlt := List.mem_range.mp hk
  exact lt_of_address? hjk (fun i hi => forward_of_lt_stepsWithin h (by omega)) ha hb

/-- What `n` steps forward from `m` say about the machine `r` that a run leaves behind. -/
structure Passes (m : Machine) (n : Nat) (r : Machine) : Prop where
  terminated : r.terminated = true
  /-- One step for each cell from the first fetch on, and one to leave memory. -/
  brief : (n : Int) ≤ m.capacity - m.pc.toInt + 1
  rising : ((m.events n).filterMap Event.address?).Pairwise (· < ·)
  nodup : ((m.events n).filterMap Event.address?).Nodup

theorem passes_of_forward (hm : m.exit = none) {t : Nat} (hpc : m.pc.toInt ≤ m.capacity)
    (ht : m.capacity - m.pc.toInt + 1 ≤ t)
    (h : ∀ e ∈ m.events (m.stepsWithin t), e.forward = true) :
    Passes m (m.stepsWithin t) (m.steps (m.stepsWithin t)) := by
  obtain ⟨n, hn⟩ : ∃ n : Nat, (n : Int) = m.capacity - m.pc.toInt :=
    ⟨(m.capacity - m.pc.toInt).toNat, by omega⟩
  obtain ⟨k, hk, hend⟩ := exists_exit?_of_forward h (n := n) (by omega) (by omega)
  have hle : m.stepsWithin t ≤ k + 1 := stepsWithin_le_of_exit? hend
  have hrising := pairwise_addresses_of_forward h
  exact ⟨terminated_of_exit? hm hend (by omega), by omega, hrising, hrising.imp Nat.ne_of_lt⟩

/-- From outside memory the first step ends the run. -/
theorem stepsWithin_of_not_mem (h : ¬ (0 ≤ m.pc.toInt ∧ m.pc.toInt < m.capacity)) {t : Nat}
    (ht : 1 ≤ t) : m.stepsWithin t = 1 ∧ (m.steps 1).terminated = true := by
  obtain ⟨t, rfl⟩ : ∃ k, t = k + 1 := ⟨t - 1, by omega⟩
  have hstep : m.step = _ := step_of_not_mem h
  rw [stepsWithin_succ, steps_succ, steps_zero, hstep]
  exact ⟨rfl, rfl⟩

/-- A run under any hooks that leave the machine alone. If it starts no higher than right above
memory, has a budget for the cells from there on, and carries out nothing that may lead backwards, as
the words are when they are fetched, it ends by itself within these cells, and no word is fetched
twice. From outside memory a run ends with its first step. -/
theorem forward_exact {ω : Type} (hooks : List (Hook ω)) (h : ∀ g ∈ hooks, g.Observes) (m : Machine)
    (hm : m.terminated = false) (budget : Option Nat) :
    (m.run hooks budget).final = m.steps (m.duration budget) ∧
    (∀ i < hooks.length, m.callsOf hooks i budget =
      .start m :: (List.range (m.duration budget)).map fun k =>
        .after k (m.eventAt k) (m.steps (k + 1))) ∧
    (m.pc.toInt ≤ m.capacity → m.capacity - m.pc.toInt + 1 ≤ budget.getD unlimited →
      (∀ e ∈ m.events (m.duration budget), e.forward = true) →
      Passes m (m.duration budget) (m.run hooks budget).final) ∧
    (¬ (0 ≤ m.pc.toInt ∧ m.pc.toInt < m.capacity) → 1 ≤ budget.getD unlimited →
      m.duration budget = 1 ∧ (m.run hooks budget).final.terminated = true) := by
  rw [terminated_eq_false_iff] at hm
  have hfinal : (m.run hooks budget).final = m.steps (m.duration budget) := by
    rw [run_of_observes h hm]
  rw [hfinal]
  refine ⟨rfl, fun i hi => callsOf_of_observes h hm budget i hi, ?_, ?_⟩
  · exact fun hpc ht hforward => passes_of_forward hm hpc ht hforward
  · intro hout ht
    obtain ⟨hone, hterm⟩ := stepsWithin_of_not_mem hout ht
    rw [duration, hone]
    exact ⟨rfl, hterm⟩

/-- A program that writes a `noop` over a jump ahead of it, meets a word that is no instruction, and
branches out of memory. -/
def patcher : Machine :=
  (blank 8).load [0x810006, 0xC10003, 0x1020000, 0x14A0000, 0xFFFFFFFF, 0x1000007, 0x1C00000]

theorem forward_exact_patcher :
    (∀ g ∈ [Report.hook false], g.Observes) ∧ patcher.terminated = false ∧
    (∀ e ∈ patcher.events (patcher.duration (some 9)), e.forward = true) ∧
    patcher.duration (some 9) = 7 ∧ patcher.eventAt 3 = .executed 3 .noop ∧
    Passes patcher 7 (patcher.run [Report.hook false] (some 9)).final ∧
    ((patcher.setPc 0xFFFFFFFF).run [Report.hook false] (some 9)).final.terminated = true := by
  have hobs : ∀ g ∈ [Report.hook false], g.Observes :=
    List.forall_mem_singleton.mpr (Observer.report false).observes
  have hn : patcher.duration (some 9) = 7 := by decide +kernel
  have hforward : ∀ e ∈ patcher.events (patcher.duration (some 9)), e.forward = true := by
    rw [hn]
    decide +kernel
  obtain ⟨-, -, hpasses, -⟩ := forward_exact _ hobs patcher rfl (some 9)
  obtain ⟨-, -, -, hout⟩ := forward_exact _ hobs (patcher.setPc 0xFFFFFFFF) rfl (some 9)
  refine ⟨hobs, rfl, hforward, hn, by decide +kernel, ?_, ?_⟩
  · have hpass := hpasses (by decide) (by decide) hforward
    rw [hn] at hpass
    exact hpass
  · exact (hout (by decide) (by decide)).2

end Machine
end SC32
