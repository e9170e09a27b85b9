import SC32.Proofs.Machine.Bookkeeping

/-!
# Steps in a row

What a number of steps leads to and which events they bring, whether or not one of them ends a run,
and how many steps a run with a budget makes. Main statements: the record after steps in a row.
-/
namespace SC32

namespace Machine

/-- After `n` steps, whatever they do. -/
def steps (m : Machine) : Nat → Machine
  | 0 => m
  | n + 1 => (m.steps n).step.2

/-- What step number `n` does; the first one has number 0. -/
def eventAt (m : Machine) (n : Nat) : Event := (m.steps n).step.1

/-- What the first `n` steps do. -/
def events (m : Machine) (n : Nat) : List Event := (List.range n).map m.eventAt

/-- The least number of steps whose last event ends a run, if it is at most `t`, and else `t`. -/
def stepsWithin (m : Machine) (t : Nat) : Nat :=
  match (List.range t).find? fun k => (m.eventAt k).exit?.isSome with
  | some k => k + 1
  | none => t

@[simp] theorem steps_zero (m : Machine) : m.steps 0 = m := rfl

theorem steps_succ (m : Machine) (n : Nat) : m.steps (n + 1) = (m.steps n).step.2 := rfl

theorem steps_step (m : Machine) (n : Nat) : m.step.2.steps n = m.steps (n + 1) := by
  induction n with
  | zero => rfl
  | succ n ih => rw [steps_succ, ih, steps_succ m (n + 1)]

theorem eventAt_step (m : Machine) (n : Nat) : m.step.2.eventAt n = m.eventAt (n + 1) := by
  rw [eventAt, steps_step, eventAt]

theorem steps_add (m : Machine) (a n : Nat) : m.steps (a + n) = (m.steps a).steps n := by
  induction n with
  | zero => rfl
  | succ n ih => rw [← Nat.add_assoc, steps_succ, ih, steps_succ]

theorem eventAt_add (m : Machine) (a n : Nat) : m.eventAt (a + n) = (m.steps a).eventAt n := by
  rw [eventAt, steps_add, eventAt]

@[simp] theorem length_events (m : Machine) (n : Nat) : (m.events n).length = n := by
  rw [events, List.length_map, List.length_range]

theorem events_succ (m : Machine) (n : Nat) : m.events (n + 1) = m.events n ++ [m.eventAt n] := by
  rw [events, List.range_succ, List.map_append]
  rfl

theorem getLast?_events (m : Machine) (n : Nat) :
    (m.events (n + 1)).getLast? = some (m.eventAt n) := by
  rw [events_succ, List.getLast?_append]
  rfl

theorem eventAt_of_getLast? {m : Machine} {n : Nat} {e : Event}
    (h : (m.events n).getLast? = some e) : ∃ k, n = k + 1 ∧ m.eventAt k = e := by
  cases n with
  | zero => cases h
  | succ k =>
    rw [getLast?_events, Option.some.injEq] at h
    exact ⟨k, rfl, h⟩

@[simp] theorem capacity_steps (m : Machine) (n : Nat) : (m.steps n).capacity = m.capacity := by
  induction n with
  | zero => rfl
  | succ n ih => rw [steps_succ, capacity_step, ih]

theorem loaded_steps (m : Machine) (n : Nat) : (m.steps n).loaded = m.loaded := by
  induction n with
  | zero => rfl
  | succ n ih => rw [steps_succ, (m.steps n).records_step.loaded, ih]

/-- The counter counts the steps that fetched. -/
theorem executed_steps (m : Machine) (n : Nat) :
    (m.steps n).executed = m.executed + (m.events n).countP Event.fetched := by
  induction n with
  | zero => rfl
  | succ n ih =>
    rw [steps_succ, (m.steps n).records_step.executed, ih, events_succ, List.countP_append,
      List.countP_singleton]
    change _ + (m.eventAt n).fetched.toNat = _
    cases (m.eventAt n).fetched <;> simp [Nat.add_assoc]

theorem executed_steps_le (m : Machine) (n : Nat) : (m.steps n).executed ≤ m.executed + n := by
  have hle := List.countP_le_length (p := Event.fetched) (l := m.events n)
  rw [length_events] at hle
  rw [executed_steps]
  omega

theorem exit_steps_succ (m : Machine) (n : Nat) :
    (m.steps (n + 1)).exit = (m.eventAt n).exit?.or (m.steps n).exit :=
  (m.steps n).records_step.exit

/-- As long as no event ends a run, nothing is written down. -/
theorem exit_steps {m : Machine} {n : Nat} (h : ∀ k < n, (m.eventAt k).exit? = none) :
    (m.steps n).exit = m.exit := by
  induction n with
  | zero => rfl
  | succ n ih =>
    rw [exit_steps_succ, h n (Nat.lt_succ_self n), ih fun k hk => h k (Nat.lt_succ_of_lt hk)]
    rfl

/-- As long as no event ends a run, every step is counted. -/
theorem executed_steps_of_open {m : Machine} {n : Nat} (h : ∀ k < n, (m.eventAt k).exit? = none) :
    (m.steps n).executed = m.executed + n := by
  have hall : (m.events n).countP Event.fetched = (m.events n).length := by
    rw [List.countP_eq_length, events, List.forall_mem_map]
    exact fun k hk => Event.fetched_of_exit?_eq_none (h k (List.mem_range.mp hk))
  rw [executed_steps, hall, length_events]

/-! ### How many steps a run makes -/

/-- The first step ends the run, or the others are those of the machine it leads to. -/
theorem stepsWithin_succ (m : Machine) (t : Nat) :
    m.stepsWithin (t + 1) =
      if m.step.1.exit?.isSome then 1 else m.step.2.stepsWithin t + 1 := by
  have hfirst : m.eventAt 0 = m.step.1 := rfl
  unfold stepsWithin
  rw [List.range_succ_eq_map, List.find?_cons, hfirst]
  cases h : m.step.1.exit?.isSome with
  | true => rfl
  | false =>
    simp only [List.find?_map, Function.comp_def, Nat.succ_eq_add_one, ← eventAt_step]
    cases (List.range t).find? fun k => (m.step.2.eventAt k).exit?.isSome <;> rfl

/-- Steps that end nothing can be taken first, and the others counted behind them. -/
theorem stepsWithin_add (m : Machine) (a t : Nat) :
    m.stepsWithin (a + t) =
      if ∀ k < a, (m.eventAt k).exit? = none then a + (m.steps a).stepsWithin t
      else m.stepsWithin a := by
  induction a generalizing m with
  | zero => simp
  | succ a ih =>
    have hfirst : m.eventAt 0 = m.step.1 := rfl
    have hall : (∀ k < a + 1, (m.eventAt k).exit? = none) ↔
        m.step.1.exit? = none ∧ ∀ k < a, (m.step.2.eventAt k).exit? = none := by
      simp only [Nat.forall_lt_succ_left, eventAt_step, hfirst]
    rw [Nat.add_right_comm, stepsWithin_succ, stepsWithin_succ, ih, steps_step]
    simp only [hall]
    cases m.step.1.exit? with
    | some x => simp
    | none =>
      simp only [Option.isSome_none, Bool.false_eq_true, if_false, true_and]
      split <;> omega

theorem stepsWithin_le (m : Machine) (t : Nat) : m.stepsWithin t ≤ t := by
  induction t generalizing m with
  | zero => exact Nat.le_refl 0
  | succ t ih =>
    rw [stepsWithin_succ]
    split
    · omega
    · exact Nat.succ_le_succ (ih m.step.2)

/-- No event ends the run but, it may be, the last one. -/
theorem exit?_eventAt {m : Machine} {t k : Nat} (h : k + 1 < m.stepsWithin t) :
    (m.eventAt k).exit? = none := by
  unfold stepsWithin at h
  split at h
  · next n hn =>
    have hbefore := (List.find?_range_eq_some.mp hn).2.2 k (by omega)
    simpa using hbefore
  · next hn =>
    rw [List.find?_eq_none] at hn
    have hk := hn k (List.mem_range.mpr (by omega))
    simpa using hk

/-- A run that stops short of its budget has come to an event that ends it. -/
theorem stepsWithin_eq_or (m : Machine) (t : Nat) :
    m.stepsWithin t = t ∨
      ∃ k, m.stepsWithin t = k + 1 ∧ (m.eventAt k).exit?.isSome := by
  unfold stepsWithin
  split
  · next k hk => exact .inr ⟨k, rfl, (List.find?_range_eq_some.mp hk).1⟩
  · exact .inl rfl

end Machine
end SC32
